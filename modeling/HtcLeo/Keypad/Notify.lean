import HtcLeo.Keypad.Fifo
import HtcLeo.Lib.Runs

namespace HtcLeo.Keypad

open Runs

/-!
# Key notifications

The path from a pushed key to the notification functions: `KeypadReturnApiPushEfikeyBufTail`
queues the key, `KeyNotifyProcessHandler` takes it from the queue and calls functions.

* `notifyStep` — pushes and passes of the handler's loop, in any order.
* `Passing` — the invariant: the notify queue holds every pushed key once for each registration
  it matches, and every entry taken leads to a call of each of these.
* `notify_once_iff` — hence each function is called once for each of its keys exactly if no
  key matches two registrations.
-/

variable {F : Type}

/-- The registrations a key matches. -/
def matching (entries : List (Notify F)) (k : KeyData) : List (Notify F) :=
  entries.filter fun entry => isKeyRegistered entry.keyData k

/-- What happens on the path: a key is pushed, or the handler makes a pass. -/
inductive NotifyAct
  | push (k : KeyData)
  | process
  deriving DecidableEq, Repr

/-- One step on the path. -/
def notifyStep (c : ConsoleIn F) : NotifyAct → ConsoleIn F
  | .push k  => keypadReturnApiPushEfikeyBufTail c k
  | .process => (keyNotifyProcessPass c).2

/-- The loop of `KeyNotifyProcessHandler`, `fuel` passes at most; whether it has ended. -/
def keyNotifyProcessHandler : Nat → ConsoleIn F → Bool × ConsoleIn F
  | 0, c => (false, c)
  | fuel + 1, c =>
    match keyNotifyProcessPass c with
    | (true, c)  => keyNotifyProcessHandler fuel c
    | (false, c) => (true, c)

/-- The notify queue has room for a push. -/
def Room (c : ConsoleIn F) : NotifyAct → Prop
  | .push k  => isRefused c k = false →
      c.efiKeyQueueForNotify.contents.length + (matching c.notifyList k).length ≤ maxOutstanding
  | .process => True

/-- The key a step pushes, if it is not refused. -/
def acceptedKey (c : ConsoleIn F) : NotifyAct → Option KeyData
  | .push k  => if isRefused c k then none else some k
  | .process => none

/-- The keys pushed, those refused left out. -/
def keysPushed (c : ConsoleIn F) (acts : List NotifyAct) : List KeyData :=
  acts.filterMap (acceptedKey c)

/-- The keys a function has been called with, in the order of the calls. -/
def callsOf [DecidableEq F] (fn : F) (calls : List (F × KeyData)) : List KeyData :=
  (calls.filter fun call => call.1 = fn).map Prod.snd

/-- Each registered function has been called once for each key that matches its registration,
    in push order, and no other function has been called. -/
def CalledOnce [DecidableEq F] (entries : List (Notify F)) (keys : List KeyData)
    (calls : List (F × KeyData)) : Prop :=
  (∀ entry ∈ entries,
    callsOf entry.keyNotificationFn calls = keys.filter (isKeyRegistered entry.keyData)) ∧
  ∀ call ∈ calls, call.1 ∈ entries.map Notify.keyNotificationFn

/-- The device after its start and these registrations. -/
def registered (entries : List (Notify F)) (isSupportPartialKey : Bool) : ConsoleIn F :=
  { keypadControllerDriverStart with
    notifyList := entries
    isSupportPartialKey := isSupportPartialKey }

/-! ### What the notify queue holds -/

/-- Every key once for each registration it matches. -/
def enqueued (entries : List (Notify F)) (keys : List KeyData) : List KeyData :=
  keys.flatMap fun k => List.replicate (matching entries k).length k

/-- **Producer.**  With room for them, a key is queued once for each registration it matches. -/
theorem foldl_pushForNotify_queue (k : KeyData) (entries : List (Notify F)) {c : ConsoleIn F}
    (hvalid : c.efiKeyQueueForNotify.Valid)
    (hroom : c.efiKeyQueueForNotify.contents.length + (matching entries k).length
      ≤ maxOutstanding) :
    (entries.foldl (pushForNotify k) c).efiKeyQueueForNotify.Valid ∧
      (entries.foldl (pushForNotify k) c).efiKeyQueueForNotify.contents
        = c.efiKeyQueueForNotify.contents ++ List.replicate (matching entries k).length k := by
  induction entries generalizing c with
  | nil => simpa [matching] using hvalid
  | cons entry entries ih =>
    rw [List.foldl_cons]
    by_cases hm : isKeyRegistered entry.keyData k = true
    · -- the queue is not full, so this push appends
      have hlen : (matching (entry :: entries) k).length = (matching entries k).length + 1 := by
        simp [matching, hm]
      rw [hlen] at hroom
      have hnotFull : c.efiKeyQueueForNotify.contents.length ≠ keypadEfiKeyMaxCount - 1 := by
        unfold maxOutstanding at hroom
        omega
      have hpush : (pushForNotify k c entry).efiKeyQueueForNotify
          = c.efiKeyQueueForNotify.push k := by
        simp [pushForNotify, hm]
      have hcontents : (pushForNotify k c entry).efiKeyQueueForNotify.contents
          = c.efiKeyQueueForNotify.contents ++ [k] := by
        rw [hpush, Ring.contents_push (by decide) hvalid, if_neg hnotFull]
      have hvalid' : (pushForNotify k c entry).efiKeyQueueForNotify.Valid := by
        rw [hpush]
        exact Ring.valid_push hvalid k
      obtain ⟨hv, hc⟩ := ih hvalid' (by
        rw [hcontents, List.length_append, List.length_singleton]
        omega)
      refine ⟨hv, ?_⟩
      rw [hc, hcontents, hlen, List.append_assoc, List.singleton_append,
        ← List.replicate_succ]
    · have hskip : pushForNotify k c entry = c := by simp [pushForNotify, hm]
      have hsame : matching (entry :: entries) k = matching entries k := by
        simp [matching, hm]
      rw [hsame] at hroom ⊢
      rw [hskip]
      exact ih hvalid hroom

/-- Queueing for the registrations keeps registrations, calls and the support of partial
    keys. -/
theorem foldl_pushForNotify_keeps (k : KeyData) (entries : List (Notify F)) (c : ConsoleIn F) :
    (entries.foldl (pushForNotify k) c).notifyList = c.notifyList ∧
      (entries.foldl (pushForNotify k) c).calls = c.calls ∧
      (entries.foldl (pushForNotify k) c).isSupportPartialKey = c.isSupportPartialKey := by
  induction entries generalizing c with
  | nil => simp
  | cons entry entries ih =>
    obtain ⟨hlist, hcalls, hpartial⟩ := ih (pushForNotify k c entry)
    rw [List.foldl_cons, hlist, hcalls, hpartial]
    unfold pushForNotify
    split <;> simp

/-- Of the entries queued for the keys pushed so far some have been taken, each with its calls,
    and the others are in the queue. -/
structure Passing (entries : List (Notify F)) (isSupportPartialKey : Bool) (keys : List KeyData)
    (c : ConsoleIn F) : Prop where
  registrations : c.notifyList = entries
  partialKey : c.isSupportPartialKey = isSupportPartialKey
  valid : c.efiKeyQueueForNotify.Valid
  split : ∃ taken, taken ++ c.efiKeyQueueForNotify.contents = enqueued entries keys ∧
    c.calls = taken.flatMap (callsFor entries)

theorem passing_registered (entries : List (Notify F)) (isSupportPartialKey : Bool) :
    Passing entries isSupportPartialKey [] (registered entries isSupportPartialKey) where
  registrations := rfl
  partialKey := rfl
  valid := Ring.valid_clear (by decide) _
  split := by
    have hempty : (registered entries isSupportPartialKey).efiKeyQueueForNotify.contents = [] :=
      Ring.contents_clear _
    exact ⟨[], by simp [hempty, enqueued], rfl⟩

variable {entries : List (Notify F)} {isSupportPartialKey : Bool} {keys : List KeyData}
  {c : ConsoleIn F}

/-- A push that has room. -/
theorem Passing.push (h : Passing entries isSupportPartialKey keys c) {k : KeyData}
    (hk : isRefused c k = false) (hroom : Room c (.push k)) :
    Passing entries isSupportPartialKey (keys ++ [k]) (notifyStep c (.push k)) := by
  have hroom' := hroom hk
  have hstep : notifyStep c (.push k) = pushConsole (c.notifyList.foldl (pushForNotify k) c) k :=
    if_neg (by simp [hk])
  obtain ⟨hlist, hcalls, hpartial⟩ := foldl_pushForNotify_keeps k c.notifyList c
  obtain ⟨hvalid, hqueue⟩ := foldl_pushForNotify_queue k c.notifyList h.valid hroom'
  obtain ⟨taken, hsplit, hcallsOf⟩ := h.split
  rw [hstep]
  refine ⟨hlist.trans h.registrations, hpartial.trans h.partialKey, hvalid, taken, ?_, ?_⟩
  · show taken ++ (c.notifyList.foldl (pushForNotify k) c).efiKeyQueueForNotify.contents = _
    rw [hqueue, ← List.append_assoc, hsplit, h.registrations]
    simp [enqueued]
  · exact hcalls.trans hcallsOf

/-- **Consumer.**  A pass of the handler. -/
theorem Passing.process (h : Passing entries isSupportPartialKey keys c) :
    Passing entries isSupportPartialKey keys (notifyStep c .process) := by
  obtain ⟨taken, hsplit, hcalls⟩ := h.split
  show Passing _ _ _ (keyNotifyProcessPass c).2
  unfold keyNotifyProcessPass
  cases hc : c.efiKeyQueueForNotify.contents with
  | nil =>
    have hpop : popEfikeyBufHead c.efiKeyQueueForNotify = (none, _) := Ring.pop_of_nil h.valid hc
    rw [hpop]
    exact h
  | cons k rest =>
    obtain ⟨hfst, hsnd⟩ := Ring.contents_of_pop h.valid hc
    have hpop : popEfikeyBufHead c.efiKeyQueueForNotify = (some k, _) := Ring.pop_eq_some hfst
    rw [hpop]
    refine ⟨h.registrations, h.partialKey, Ring.valid_pop h.valid, taken ++ [k], ?_, ?_⟩
    · show taken ++ [k] ++ c.efiKeyQueueForNotify.pop.2.contents = enqueued entries keys
      rw [hsnd, ← hsplit, hc, List.append_assoc, List.singleton_append]
    · show c.calls ++ callsFor c.notifyList k = _
      rw [hcalls, h.registrations]
      simp

/-- **Run lemma.**  The invariant holds after every run in which each push has room. -/
theorem Passing.run (h : Passing entries isSupportPartialKey keys c) (acts : List NotifyAct)
    (hroom : EveryStep notifyStep Room c acts) :
    Passing entries isSupportPartialKey (keys ++ keysPushed c acts)
      (acts.foldl notifyStep c) := by
  induction acts generalizing keys c with
  | nil => simpa [keysPushed] using h
  | cons a acts ih =>
    obtain ⟨hfirst, hrest⟩ := hroom
    -- whether a key is refused does not change along the run
    have hsame : ∀ c' : ConsoleIn F, c'.isSupportPartialKey = c.isSupportPartialKey →
        keysPushed c' acts = keysPushed c acts := by
      intro c' hc'
      have haccepted : acceptedKey c' = acceptedKey c := by
        ext a
        cases a <;> simp [acceptedKey, isRefused, hc']
      simp [keysPushed, haccepted]
    cases a with
    | push k =>
      by_cases hk : isRefused c k = true
      · have hskip : notifyStep c (.push k) = c := if_pos hk
        rw [List.foldl_cons, hskip]
        rw [hskip] at hrest
        have hpushed : keysPushed c (.push k :: acts) = keysPushed c acts := by
          simp [keysPushed, acceptedKey, hk]
        rw [hpushed]
        exact ih h hrest
      · have hk' : isRefused c k = false := by simpa using hk
        have hnext := h.push hk' hfirst
        have hrun := ih hnext hrest
        have hpushed : keysPushed c (.push k :: acts) = k :: keysPushed c acts := by
          simp [keysPushed, acceptedKey, hk']
        rw [hsame _ (hnext.partialKey.trans h.partialKey.symm)] at hrun
        simpa [hpushed] using hrun
    | process =>
      have hnext := h.process
      have hrun := ih hnext hrest
      have hpushed : keysPushed c (.process :: acts) = keysPushed c acts := rfl
      rw [hsame _ (hnext.partialKey.trans h.partialKey.symm)] at hrun
      rw [hpushed]
      exact hrun

/-- **Draining.**  With more passes allowed than keys are queued, the handler's loop ends, having
    made one pass for each, and the queue is empty. -/
theorem keyNotifyProcessHandler_drains (hvalid : c.efiKeyQueueForNotify.Valid) {fuel : Nat}
    (hfuel : c.efiKeyQueueForNotify.contents.length < fuel) :
    ∃ c', keyNotifyProcessHandler fuel c = (true, c') ∧
      c'.efiKeyQueueForNotify.contents = [] ∧
      c' = (List.replicate c.efiKeyQueueForNotify.contents.length NotifyAct.process).foldl
        notifyStep c := by
  -- by induction on the queued keys, of which every pass takes one
  generalize hqueue : c.efiKeyQueueForNotify.contents = queued at hfuel
  induction queued generalizing c fuel with
  | nil =>
    obtain _ | fuel := fuel
    · exact absurd hfuel (by simp)
    · have hpop : popEfikeyBufHead c.efiKeyQueueForNotify = (none, c.efiKeyQueueForNotify) :=
        Ring.pop_of_nil hvalid hqueue
      exact ⟨c, by simp [keyNotifyProcessHandler, keyNotifyProcessPass, hpop], hqueue, rfl⟩
  | cons k rest ih =>
    obtain _ | fuel := fuel
    · exact absurd hfuel (by simp)
    · obtain ⟨queue, hpop, hvalid', hrest⟩ := Ring.pop_of_cons hvalid hqueue
      have hpass : keyNotifyProcessPass c = (true, notifyStep c .process) := by
        simp [notifyStep, keyNotifyProcessPass, hpop]
      have hnext : (notifyStep c .process).efiKeyQueueForNotify = queue := by
        simp [notifyStep, keyNotifyProcessPass, hpop]
      obtain ⟨c', hrun, hempty, hpasses⟩ := ih (hnext ▸ hvalid') (hnext ▸ hrest)
        (by simpa using hfuel)
      exact ⟨c', by simpa [keyNotifyProcessHandler, hpass] using hrun, hempty, hpasses⟩

/-! ### The calls -/

variable [DecidableEq F]

/-- Among registrations with distinct functions, one key taken calls the function of each that
    it matches, once. -/
theorem callsOf_callsFor {entries : List (Notify F)}
    (hdistinct : (entries.map Notify.keyNotificationFn).Nodup) {entry : Notify F}
    (hentry : entry ∈ entries) (k : KeyData) :
    callsOf entry.keyNotificationFn (callsFor entries k)
      = if isKeyRegistered entry.keyData k then [k] else [] := by
  have hcalls : callsOf entry.keyNotificationFn (callsFor entries k)
      = ((entries.filter fun e => e.keyNotificationFn = entry.keyNotificationFn).filter
          fun e => isKeyRegistered e.keyData k).map fun _ => k := by
    simp [callsOf, callsFor, List.filter_map, List.filter_filter, Function.comp_def, Bool.and_comm]
  -- the function belongs to this registration only
  have hone :
      (entries.filter fun e => e.keyNotificationFn = entry.keyNotificationFn) = [entry] := by
    have hnodup : entries.Nodup := hdistinct.of_map _
    have heq : (entries.filter fun e => e.keyNotificationFn = entry.keyNotificationFn)
        = entries.filter fun e => decide (e = entry) := by
      apply List.filter_congr
      intro e he
      rw [decide_eq_decide]
      exact ⟨fun hfn => List.inj_on_of_nodup_map hdistinct he hentry hfn, fun h => by rw [h]⟩
    rw [heq, List.filter_eq, List.count_eq_one_of_mem hnodup hentry, List.replicate_one]
  rw [hcalls, hone]
  by_cases hm : isKeyRegistered entry.keyData k = true <;> simp [hm]

/-- A list with some of its elements copied is shorter than none of its sublists of these. -/
theorem length_filter_le_copies {α : Type} (p : α → Bool) (copies : α → Nat) (l : List α)
    (hpos : ∀ x ∈ l, p x = true → 1 ≤ copies x) :
    (l.filter p).length
      ≤ (l.flatMap fun x => if p x then List.replicate (copies x) x else []).length := by
  induction l with
  | nil => simp
  | cons x l ih =>
    have hrest := ih fun y hy => hpos y (List.mem_cons_of_mem x hy)
    have hx := hpos x List.mem_cons_self
    cases hp : p x with
    | true =>
      have := hx hp
      simp only [List.filter_cons, hp, List.flatMap_cons, if_true, List.length_append,
        List.length_replicate, List.length_cons]
      omega
    | false => simpa [hp] using hrest

/-- Copying the elements with `p` gives each of them once exactly if each is copied once. -/
theorem copies_eq_filter_iff {α : Type} (p : α → Bool) (copies : α → Nat) (l : List α)
    (hpos : ∀ x ∈ l, p x = true → 1 ≤ copies x) :
    (l.flatMap fun x => if p x then List.replicate (copies x) x else []) = l.filter p
      ↔ ∀ x ∈ l, p x = true → copies x = 1 := by
  induction l with
  | nil => simp
  | cons x l ih =>
    have hposl : ∀ y ∈ l, p y = true → 1 ≤ copies y :=
      fun y hy => hpos y (List.mem_cons_of_mem x hy)
    have hrest := ih hposl
    cases hp : p x with
    | false => simpa [hp] using hrest
    | true =>
      have hx := hpos x List.mem_cons_self hp
      have hle := length_filter_le_copies p copies l hposl
      rw [List.filter_cons_of_pos hp, List.flatMap_cons, if_pos hp]
      constructor
      · intro heq
        -- more than one copy of `x` would make the left side longer
        have hlen := congrArg List.length heq
        rw [List.length_append, List.length_replicate, List.length_cons] at hlen
        have hone : copies x = 1 := by omega
        rw [hone] at heq
        have htail := hrest.mp (List.cons.inj heq).2
        simpa [hone] using htail
      · intro hall
        have hone := hall x List.mem_cons_self hp
        rw [hone, List.replicate_one, List.singleton_append,
          hrest.mpr fun y hy => hall y (List.mem_cons_of_mem x hy)]

/-- When the queue is drained, a function has been called, for each of its keys, as often as the
    key matches a registration. -/
theorem Passing.callsOf {entries : List (Notify F)}
    (h : Passing entries isSupportPartialKey keys c)
    (hdistinct : (entries.map Notify.keyNotificationFn).Nodup)
    (hdrained : c.efiKeyQueueForNotify.contents = []) {entry : Notify F}
    (hentry : entry ∈ entries) :
    callsOf entry.keyNotificationFn c.calls
      = keys.flatMap fun k => if isKeyRegistered entry.keyData k
          then List.replicate (matching entries k).length k else [] := by
  obtain ⟨taken, hsplit, hcalls⟩ := h.split
  rw [hdrained, List.append_nil] at hsplit
  have hflat : Keypad.callsOf entry.keyNotificationFn (taken.flatMap (callsFor entries))
      = taken.flatMap fun k => Keypad.callsOf entry.keyNotificationFn (callsFor entries k) := by
    simp [Keypad.callsOf, List.filter_flatMap, List.map_flatMap]
  rw [hcalls, hflat, hsplit, enqueued, List.flatMap_assoc]
  congr 1
  funext k
  simp only [callsOf_callsFor hdistinct hentry]
  cases hm : isKeyRegistered entry.keyData k <;> simp [hm, List.flatMap_replicate]

/-- **Notifications.**  For registrations with distinct functions and a run whose pushes all have
    room, once the queue is drained each function has been called once for each key that matches
    its registration, in push order, and for no other, exactly if no key matches two
    registrations. -/
theorem notify_once_iff (entries : List (Notify F)) (isSupportPartialKey : Bool)
    (acts : List NotifyAct)
    (hdistinct : (entries.map Notify.keyNotificationFn).Nodup)
    (hroom : EveryStep notifyStep Room (registered entries isSupportPartialKey) acts)
    (hdrained : (acts.foldl notifyStep
      (registered entries isSupportPartialKey)).efiKeyQueueForNotify.contents = []) :
    CalledOnce entries (keysPushed (registered entries isSupportPartialKey) acts)
        (acts.foldl notifyStep (registered entries isSupportPartialKey)).calls
      ↔ ∀ k ∈ keysPushed (registered entries isSupportPartialKey) acts,
          (matching entries k).length ≤ 1 := by
  have hpassing := (passing_registered entries isSupportPartialKey).run acts hroom
  rw [List.nil_append] at hpassing
  generalize keysPushed (registered entries isSupportPartialKey) acts = pushed at hpassing ⊢
  -- a key that matches a registration is queued at least once
  have hpos : ∀ entry ∈ entries, ∀ k ∈ pushed, isKeyRegistered entry.keyData k = true →
      1 ≤ (matching entries k).length := by
    intro entry hentry k _ hm
    exact List.length_pos_of_mem (List.mem_filter.mpr ⟨hentry, hm⟩)
  constructor
  · rintro ⟨honce, _⟩ k hk
    by_contra hmany
    have hsome : 0 < (matching entries k).length := by omega
    obtain ⟨entry, hentry⟩ := List.exists_mem_of_length_pos hsome
    obtain ⟨hin, hm⟩ := List.mem_filter.mp hentry
    have hcopies := honce entry hin
    rw [hpassing.callsOf hdistinct hdrained hin,
      copies_eq_filter_iff _ _ _ (hpos entry hin)] at hcopies
    have := hcopies k hk hm
    omega
  · intro hone
    constructor
    · intro entry hin
      rw [hpassing.callsOf hdistinct hdrained hin, copies_eq_filter_iff _ _ _ (hpos entry hin)]
      intro k hk hm
      have hge := hpos entry hin k hk hm
      have hle := hone k hk
      omega
    · intro call hcall
      obtain ⟨taken, _, hcalls⟩ := hpassing.split
      rw [hcalls, List.mem_flatMap] at hcall
      obtain ⟨k, _, hcall⟩ := hcall
      obtain ⟨entry, hentry, rfl⟩ := List.mem_map.mp hcall
      exact List.mem_map_of_mem (List.mem_of_mem_filter hentry)

/-- An `EFI_KEY_DATA` with a character and no states. -/
def charKey (unicodeChar : BitVec 16) : KeyData := ⟨⟨0, unicodeChar⟩, 0, 0⟩

/-- Two functions registered for different keys, and one of the keys pushed and processed. -/
theorem notify_distinctKeys :
    CalledOnce [⟨charKey 97, 0⟩, ⟨charKey 98, 1⟩]
      (keysPushed (registered [⟨charKey 97, 0⟩, ⟨charKey 98, 1⟩] false)
        [.push (charKey 97), .process])
      ([NotifyAct.push (charKey 97), .process].foldl notifyStep
        (registered [⟨charKey 97, 0⟩, ⟨charKey 98, 1⟩] false)).calls :=
  (notify_once_iff (F := Nat) [⟨charKey 97, 0⟩, ⟨charKey 98, 1⟩] false
    [.push (charKey 97), .process] (by decide)
    ⟨fun _ => by decide, trivial, trivial⟩ (by decide)).mpr (by decide)

/-- Two functions registered for one key are each called twice when it is pushed once. -/
theorem sharedKey_called_twice :
    ¬ CalledOnce [⟨charKey 97, 0⟩, ⟨charKey 97, 1⟩]
      (keysPushed (registered [⟨charKey 97, 0⟩, ⟨charKey 97, 1⟩] false)
        [.push (charKey 97), .process, .process])
      ([NotifyAct.push (charKey 97), .process, .process].foldl notifyStep
        (registered [⟨charKey 97, 0⟩, ⟨charKey 97, 1⟩] false)).calls := by
  rintro ⟨honce, _⟩
  exact absurd (honce ⟨charKey 97, 0⟩ (by decide)) (by decide)

end HtcLeo.Keypad

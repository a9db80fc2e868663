import HtcLeo.Keypad.Console

namespace HtcLeo.Keypad

/-!
# The console queue is a bounded first-in first-out queue

* `Event.apply`, `replay` — the queue as it is meant: a list of at most 255 keys.  A push
  appends, and drops the oldest key exactly where 255 are outstanding; the oldest key may be
  delivered, or skipped if it is a partial key.
* `FifoLaw` — the ring holds the keys that are outstanding after the events of the log.  Every
  function of the driver keeps it, in any order.
* `replay_order` — what such a log says: the keys pushed are, in push order, the keys gone and
  then the keys queued.
* `Intake`, `handed` — the keys the polls of a run bring, and what the readers of a run are
  handed, both without the log; `intake_exec` and `handedIn_exec` say that it records these.
* `console_fifo` — the law over a whole run.
-/

variable {F : Type}

/-- The most keys a queue holds. -/
abbrev maxOutstanding : Nat := keypadEfiKeyMaxCount - 1

/-- What a reader may be handed for a key: its data, or, if it is no partial key, its input key
    with control characters translated. -/
def Handed.isOf (k : KeyData) : Handed → Bool
  | .keyData d    => d == k
  | .inputKey key => !k.isNull && key == translateControl k

/-- The outstanding keys after an event; none where the event is not allowed. -/
def Event.apply (queued : List KeyData) : Event → Option (List KeyData)
  | .pushed k none => if queued.length < maxOutstanding then some (queued ++ [k]) else none
  | .pushed k (some old) =>
    if queued.length = maxOutstanding ∧ queued.head? = some old then some (queued.tail ++ [k])
    else none
  | .skipped k => if queued.head? = some k ∧ k.isNull then some queued.tail else none
  | .delivered k handed =>
    if queued.head? = some k ∧ handed.isOf k then some queued.tail else none

/-- The outstanding keys after a sequence of events, all of them allowed. -/
def replay (log : List Event) : Option (List KeyData) := log.foldlM Event.apply []

/-- The key an event brings. -/
def Event.pushedKey : Event → Option KeyData
  | .pushed k _ => some k
  | _           => none

/-- The key an event removes: one dropped, skipped or delivered. -/
def Event.goneKey : Event → Option KeyData
  | .pushed _ lost  => lost
  | .skipped k      => some k
  | .delivered k _  => some k

/-- The keys pushed, in push order. -/
def pushedKeys (log : List Event) : List KeyData := log.filterMap Event.pushedKey

/-- The keys that have left the queue, in the order they did. -/
def goneKeys (log : List Event) : List KeyData := log.filterMap Event.goneKey

/-- What an event hands to a reader. -/
def Event.handed : Event → Option Handed
  | .delivered _ handed => some handed
  | _                   => none

/-- What has been handed to readers, in that order. -/
def handedIn (log : List Event) : List Handed := log.filterMap Event.handed

/-! ### What a replay says -/

theorem replay_concat (log : List Event) (e : Event) :
    replay (log ++ [e]) = (replay log).bind (e.apply ·) := by
  simp [replay, List.foldlM_append]

/-- One event: what is queued and what comes is what goes and what is queued then. -/
theorem Event.apply_order {e : Event} {queued queued' : List KeyData}
    (h : e.apply queued = some queued') :
    queued ++ e.pushedKey.toList = e.goneKey.toList ++ queued' := by
  -- the key that goes is the head of what is queued
  have hcons : ∀ {k : KeyData}, queued.head? = some k → queued = k :: queued.tail := by
    intro k hk
    exact (List.cons_head?_tail hk).symm
  cases e with
  | pushed k lost =>
    cases lost with
    | none =>
      obtain ⟨_, rfl⟩ : _ ∧ queued ++ [k] = queued' := by simpa [apply] using h
      simp [pushedKey, goneKey]
    | some old =>
      obtain ⟨⟨_, hold⟩, rfl⟩ : (_ ∧ queued.head? = some old) ∧ queued.tail ++ [k] = queued' := by
        simpa [apply] using h
      rw [hcons hold]
      simp [pushedKey, goneKey]
  | skipped k =>
    obtain ⟨⟨hk, _⟩, rfl⟩ : (queued.head? = some k ∧ _) ∧ queued.tail = queued' := by
      simpa [apply] using h
    simpa [pushedKey, goneKey] using hcons hk
  | delivered k handed =>
    obtain ⟨⟨hk, _⟩, rfl⟩ : (queued.head? = some k ∧ _) ∧ queued.tail = queued' := by
      simpa [apply] using h
    simpa [pushedKey, goneKey] using hcons hk

/-- **Order.**  The keys pushed are, in push order, the keys gone and then the keys queued. -/
theorem replay_order {log : List Event} {queued : List KeyData} (h : replay log = some queued) :
    pushedKeys log = goneKeys log ++ queued := by
  -- by induction on the log from its end, where the last event was applied
  induction log using List.reverseRecOn generalizing queued with
  | nil =>
    obtain rfl : [] = queued := by simpa [replay] using h
    rfl
  | append_singleton log e ih =>
    rw [replay_concat, Option.bind_eq_some_iff] at h
    obtain ⟨before, hbefore, hlast⟩ := h
    have hstep := Event.apply_order hlast
    simp only [pushedKeys, goneKeys, List.filterMap_append] at ih ⊢
    rw [ih hbefore, List.append_assoc, List.append_assoc]
    cases hp : e.pushedKey <;> cases hg : e.goneKey <;> simp_all

/-! ### The law and the functions that keep it -/

/-- The ring holds the keys outstanding after the log, and no error was reported. -/
structure FifoLaw (c : ConsoleIn F) : Prop where
  valid : c.efiKeyQueue.Valid
  replays : replay c.log = some c.efiKeyQueue.contents
  noErr : c.keypadErr = false

/-- A queue never holds more than 255 keys. -/
theorem length_contents_le {queue : EfiKeyQueue} (h : queue.Valid) :
    queue.contents.length ≤ maxOutstanding := by
  rw [Ring.length_contents]
  exact Nat.le_pred_of_lt (Ring.size_lt h)

/-- A push to the console queue is an allowed event. -/
theorem FifoLaw.pushConsole {c : ConsoleIn F} (h : FifoLaw c) (k : KeyData) :
    FifoLaw (pushConsole c k) := by
  refine ⟨Ring.valid_push h.valid k, ?_, h.noErr⟩
  show replay (c.log ++ [_]) = some (c.efiKeyQueue.push k).contents
  rw [replay_concat, h.replays, Option.bind_some, Ring.contents_push (by decide) h.valid]
  by_cases hfull : c.efiKeyQueue.contents.length = keypadEfiKeyMaxCount - 1
  · -- the key at the head is dropped
    rw [if_pos ((Ring.isFull_iff h.valid).mpr hfull), if_pos hfull, Ring.pop_fst h.valid]
    cases hc : c.efiKeyQueue.contents with
    | nil =>
      rw [hc] at hfull
      exact absurd hfull (by decide)
    | cons old rest =>
      rw [hc] at hfull
      simp [Event.apply, hfull]
  · have hroom : c.efiKeyQueue.contents.length < maxOutstanding :=
      Nat.lt_of_le_of_ne (length_contents_le h.valid) hfull
    rw [if_neg (mt (Ring.isFull_iff h.valid).mp hfull), if_neg hfull]
    exact if_pos hroom

/-- Queueing for the registrations touches neither the console queue nor its log. -/
theorem foldl_pushForNotify_frame (k : KeyData) (entries : List (Notify F)) (c : ConsoleIn F) :
    (entries.foldl (pushForNotify k) c).efiKeyQueue = c.efiKeyQueue ∧
      (entries.foldl (pushForNotify k) c).log = c.log ∧
      (entries.foldl (pushForNotify k) c).keypadErr = c.keypadErr ∧
      (entries.foldl (pushForNotify k) c).isSupportPartialKey = c.isSupportPartialKey := by
  induction entries generalizing c with
  | nil => simp
  | cons entry entries ih =>
    obtain ⟨hqueue, hlog, herr, hsupport⟩ := ih (pushForNotify k c entry)
    rw [List.foldl_cons, hqueue, hlog, herr, hsupport]
    unfold pushForNotify
    split <;> simp

theorem FifoLaw.returnApi {c : ConsoleIn F} (h : FifoLaw c) (k : KeyData) :
    FifoLaw (keypadReturnApiPushEfikeyBufTail c k) := by
  unfold keypadReturnApiPushEfikeyBufTail
  split
  · exact h
  · apply FifoLaw.pushConsole
    obtain ⟨hqueue, hlog, herr, _⟩ := foldl_pushForNotify_frame k c.notifyList c
    exact ⟨hqueue ▸ h.valid, by rw [hlog, hqueue, h.replays], herr.trans h.noErr⟩

theorem FifoLaw.timerHandler {c : ConsoleIn F} (h : FifoLaw c) (keys : List KeyData) :
    FifoLaw (keypadTimerHandler keys c) := by
  unfold keypadTimerHandler
  rw [h.noErr, if_neg Bool.false_ne_true]
  -- by induction on the keys the poll pushes
  induction keys generalizing c with
  | nil => exact h
  | cons k keys ih => exact ih (h.returnApi k)

/-- Taking the head of the queue, with an event that allows it. -/
theorem FifoLaw.taken {c : ConsoleIn F} (h : FifoLaw c) {k : KeyData} {rest : List KeyData}
    (hc : c.efiKeyQueue.contents = k :: rest) {e : Event} (he : e.apply (k :: rest) = some rest) :
    FifoLaw { c with efiKeyQueue := c.efiKeyQueue.pop.2, log := c.log ++ [e] } := by
  refine ⟨Ring.valid_pop h.valid, ?_, h.noErr⟩
  show replay (c.log ++ [e]) = some c.efiKeyQueue.pop.2.contents
  rw [replay_concat, h.replays, Option.bind_some, hc, he, (Ring.contents_of_pop h.valid hc).2]

/-- The worker polls, and then either finds the queue empty or takes its oldest key. -/
theorem FifoLaw.worker {c : ConsoleIn F} (h : FifoLaw c) (keys : List KeyData) :
    (∃ c', FifoLaw c' ∧ keypadReadKeyStrokeWorker keys c = (.error .notReady, c')) ∨
    (∃ c' k rest, FifoLaw c' ∧ c'.efiKeyQueue.contents = k :: rest ∧
      keypadReadKeyStrokeWorker keys c
        = (.ok k, { c' with efiKeyQueue := c'.efiKeyQueue.pop.2 })) := by
  have hpoll := h.timerHandler keys
  have herr : ¬ (keypadTimerHandler keys c).keypadErr = true := by simp [hpoll.noErr]
  unfold keypadReadKeyStrokeWorker
  dsimp only
  rw [if_neg herr]
  cases hc : (keypadTimerHandler keys c).efiKeyQueue.contents with
  | nil =>
    left
    have hpop : popEfikeyBufHead (keypadTimerHandler keys c).efiKeyQueue = (none, _) :=
      Ring.pop_of_nil hpoll.valid hc
    exact ⟨_, hpoll, by rw [hpop]⟩
  | cons k rest =>
    right
    have hpop : popEfikeyBufHead (keypadTimerHandler keys c).efiKeyQueue = (some k, _) :=
      Ring.pop_eq_some (Ring.contents_of_pop hpoll.valid hc).1
    exact ⟨_, k, rest, hpoll, hc, by rw [hpop]⟩

/-- What the worker returns. -/
theorem FifoLaw.worker_fst {c : ConsoleIn F} (h : FifoLaw c) (keys : List KeyData) :
    (keypadReadKeyStrokeWorker keys c).1
      = (keypadTimerHandler keys c).efiKeyQueue.contents.head?.elim (.error .notReady) .ok := by
  have hpoll := h.timerHandler keys
  have herr : ¬ (keypadTimerHandler keys c).keypadErr = true := by simp [hpoll.noErr]
  unfold keypadReadKeyStrokeWorker
  dsimp only
  rw [if_neg herr]
  cases hc : (keypadTimerHandler keys c).efiKeyQueue.contents with
  | nil =>
    have hpop : popEfikeyBufHead (keypadTimerHandler keys c).efiKeyQueue = (none, _) :=
      Ring.pop_of_nil hpoll.valid hc
    rw [hpop]
    rfl
  | cons k rest =>
    have hpop : popEfikeyBufHead (keypadTimerHandler keys c).efiKeyQueue = (some k, _) :=
      Ring.pop_eq_some (Ring.contents_of_pop hpoll.valid hc).1
    rw [hpop]
    rfl

theorem FifoLaw.readKeyStrokeEx {c : ConsoleIn F} (h : FifoLaw c) (isNull : Bool)
    (keys : List KeyData) : FifoLaw (keypadReadKeyStrokeEx isNull keys c).2 := by
  unfold keypadReadKeyStrokeEx
  split
  · exact h
  · rcases h.worker keys with ⟨c', hc', heq⟩ | ⟨c', k, rest, hc', hcons, heq⟩
    · rw [heq]
      exact hc'
    · rw [heq]
      exact hc'.taken hcons (by simp [Event.apply, Handed.isOf])

theorem FifoLaw.readKeyStrokePass {c : ConsoleIn F} (h : FifoLaw c) (keys : List KeyData) :
    FifoLaw (readKeyStrokePass keys c).2 := by
  unfold Keypad.readKeyStrokePass
  rcases h.worker keys with ⟨c', hc', heq⟩ | ⟨c', k, rest, hc', hcons, heq⟩
  · rw [heq]
    exact hc'
  · rw [heq]
    dsimp only
    split
    · exact hc'.taken hcons (by simp_all [Event.apply])
    · exact hc'.taken hcons (by simp_all [Event.apply, Handed.isOf])

/-- The loop of the wait notification drops the partial keys at the head, and signals exactly
    if another key is queued. -/
theorem FifoLaw.waitForKeyLoop {c : ConsoleIn F} (h : FifoLaw c) {fuel : Nat}
    (hfuel : c.efiKeyQueue.contents.length < fuel) :
    ∃ c', waitForKeyLoop fuel c
        = (some (c.efiKeyQueue.contents.any fun k => !k.isNull), c') ∧
      FifoLaw c' ∧
      c'.efiKeyQueue.contents = c.efiKeyQueue.contents.dropWhile KeyData.isNull := by
  -- by induction on the queued keys, of which each pass but the last takes one
  generalize hkeys : c.efiKeyQueue.contents = keys at hfuel
  induction keys generalizing c fuel with
  | nil =>
    obtain _ | fuel := fuel
    · exact absurd hfuel (by simp)
    · have hempty : c.efiKeyQueue.isEmpty = true := (Ring.isEmpty_iff h.valid).mpr hkeys
      exact ⟨c, by simp [Keypad.waitForKeyLoop, hempty], h, by simp [hkeys]⟩
  | cons k rest ih =>
    obtain _ | fuel := fuel
    · exact absurd hfuel (by simp)
    · have hne : c.efiKeyQueue.isEmpty = false := by
        rw [← Bool.not_eq_true, Ring.isEmpty_iff h.valid, hkeys]
        exact List.cons_ne_nil k rest
      have hhead : c.efiKeyQueue.buffer c.efiKeyQueue.head = k := by
        have hcons := Ring.contents_eq_cons h.valid hne
        rw [hkeys] at hcons
        exact (List.cons.inj hcons).1.symm
      cases hnull : k.isNull with
      | true =>
        -- a partial key is skipped, and the loop goes on with the rest
        have hskip := h.taken hkeys (e := .skipped k) (by simp [Event.apply, hnull])
        obtain ⟨c', hrun, hc', hrest⟩ := ih hskip (Ring.contents_of_pop h.valid hkeys).2
          (by simpa using hfuel)
        refine ⟨c', ?_, hc', by simpa [hnull] using hrest⟩
        simpa [Keypad.waitForKeyLoop, hne, hhead, hnull] using hrun
      | false =>
        exact ⟨c, by simp [Keypad.waitForKeyLoop, hne, hhead, hnull], h, by simp [hkeys, hnull]⟩

/-- **Wait notification.**  After its poll it signals exactly if a key that is not partial is
    queued, and it removes the partial keys before the first such key and no others. -/
theorem FifoLaw.waitForKey {c : ConsoleIn F} (h : FifoLaw c) (keys : List KeyData) :
    ∃ c', keypadWaitForKey keys c
        = (some ((keypadTimerHandler keys c).efiKeyQueue.contents.any fun k => !k.isNull), c') ∧
      FifoLaw c' ∧
      c'.efiKeyQueue.contents
        = (keypadTimerHandler keys c).efiKeyQueue.contents.dropWhile KeyData.isNull := by
  have hpoll := h.timerHandler keys
  have herr : ¬ (keypadTimerHandler keys c).keypadErr = true := by simp [hpoll.noErr]
  unfold keypadWaitForKey
  dsimp only
  rw [if_neg herr]
  apply hpoll.waitForKeyLoop
  exact Nat.lt_of_le_of_lt (length_contents_le hpoll.valid) (by decide)

theorem FifoLaw.reset {c : ConsoleIn F} (herr : c.keypadErr = false) :
    FifoLaw (keypadEfiReset c).2 := by
  unfold keypadEfiReset
  rw [herr, if_neg Bool.false_ne_true]
  refine ⟨Ring.valid_clear (by decide) c.efiKeyQueue, ?_, herr⟩
  show replay [] = some c.efiKeyQueue.clear.contents
  rw [Ring.contents_clear]
  rfl

/-! ### Runs -/

/-- What may happen to the device.  Every poll comes with the keys it pushes; a pass of the
    loop of `KeypadReadKeyStroke` is a step of its own, as others may run between two. -/
inductive Act (F : Type)
  | timer (keys : List KeyData)
  | waitForKey (keys : List KeyData)
  | readKeyStroke (keys : List KeyData)
  | readKeyStrokeEx (keyDataIsNull : Bool) (keys : List KeyData)
  | reset
  | setState (keyToggleState : BitVec 8)
  | registerKeyNotify (keyData : KeyData) (keyNotificationFn : F) (allocated : Bool)
  | keyNotify

/-! ### What the log records -/

/-- The keys the device pushes in the poll of a step. -/
def Act.keys : Act F → List KeyData
  | .timer keys                  => keys
  | .waitForKey keys             => keys
  | .readKeyStroke keys          => keys
  | .readKeyStrokeEx isNull keys => if isNull then [] else keys
  | _                            => []

/-- What the steps of a run bring: whether partial keys are accepted, and the keys accepted since
    the last reset. -/
structure Intake where
  partialKeys : Bool
  accepted : List KeyData

/-- Keys that come in. -/
def Intake.add (x : Intake) (keys : List KeyData) : Intake :=
  { x with accepted := x.accepted ++ keys.filter fun k => !k.isNull || x.partialKeys }

/-- A step brings the keys of its poll; partial ones only while a `SetState` since the last reset
    has exposed them. -/
def Intake.step (x : Intake) : Act F → Intake
  | .reset => ⟨false, []⟩
  | .setState toggle =>
    if toggle &&& efiToggleStateValid = efiToggleStateValid then
      { x with partialKeys := toggle &&& efiKeyStateExposed == efiKeyStateExposed }
    else x
  | a => x.add a.keys

/-- What a step hands to its reader. -/
def reply (c : ConsoleIn F) : Act F → Option Handed
  | .readKeyStroke keys =>
    match (readKeyStrokePass keys c).1 with
    | .read key => some (.inputKey key)
    | _         => none
  | .readKeyStrokeEx isNull keys =>
    match (keypadReadKeyStrokeEx isNull keys c).1 with
    | .ok keyData => some (.keyData keyData)
    | .error _    => none
  | _ => none

/-- The intake as the device has it. -/
def intakeOf (c : ConsoleIn F) : Intake := ⟨c.isSupportPartialKey, pushedKeys c.log⟩

/-- A key that is pushed. -/
theorem returnApi_records (c : ConsoleIn F) (k : KeyData) :
    intakeOf (keypadReturnApiPushEfikeyBufTail c k) = (intakeOf c).add [k] ∧
      handedIn (keypadReturnApiPushEfikeyBufTail c k).log = handedIn c.log := by
  obtain ⟨_, hlog, _, hsupport⟩ := foldl_pushForNotify_frame k c.notifyList c
  unfold keypadReturnApiPushEfikeyBufTail isRefused
  cases hnull : k.isNull <;> cases hpartial : c.isSupportPartialKey
  case true.false => simp [intakeOf, Intake.add, hnull, hpartial]
  all_goals simp [intakeOf, Intake.add, hnull, hpartial, Keypad.pushConsole, hlog, hsupport,
    pushedKeys, handedIn, Event.pushedKey, Event.handed]

theorem Intake.add_add (x : Intake) (keys keys' : List KeyData) :
    (x.add keys).add keys' = x.add (keys ++ keys') := by
  simp [Intake.add]

/-- A poll brings its keys, and hands over none. -/
theorem timerHandler_records {c : ConsoleIn F} (herr : c.keypadErr = false)
    (keys : List KeyData) : intakeOf (keypadTimerHandler keys c) = (intakeOf c).add keys ∧
      handedIn (keypadTimerHandler keys c).log = handedIn c.log := by
  unfold keypadTimerHandler
  rw [herr, if_neg Bool.false_ne_true]
  clear herr
  -- by induction on the keys the poll pushes
  induction keys generalizing c with
  | nil => exact ⟨by simp [Intake.add], rfl⟩
  | cons k keys ih =>
    obtain ⟨hintake, hhanded⟩ := returnApi_records c k
    obtain ⟨hrest, hkept⟩ := ih (c := keypadReturnApiPushEfikeyBufTail c k)
    rw [List.foldl_cons]
    exact ⟨by rw [hrest, hintake, Intake.add_add, List.singleton_append], hkept.trans hhanded⟩

/-- The worker records what its poll does. -/
theorem worker_log (keys : List KeyData) (c : ConsoleIn F) :
    (keypadReadKeyStrokeWorker keys c).2.log = (keypadTimerHandler keys c).log ∧
      (keypadReadKeyStrokeWorker keys c).2.isSupportPartialKey
        = (keypadTimerHandler keys c).isSupportPartialKey := by
  unfold keypadReadKeyStrokeWorker
  dsimp only
  split
  · exact ⟨rfl, rfl⟩
  · split <;> exact ⟨rfl, rfl⟩

/-- A pass of `KeypadReadKeyStroke` brings the keys of its poll, and hands over what it returns. -/
theorem readKeyStrokePass_records (keys : List KeyData) (c : ConsoleIn F) :
    intakeOf (readKeyStrokePass keys c).2 = intakeOf (keypadTimerHandler keys c) ∧
      handedIn (readKeyStrokePass keys c).2.log
        = handedIn (keypadTimerHandler keys c).log ++ (reply c (.readKeyStroke keys)).toList := by
  obtain ⟨hlog, hsupport⟩ := worker_log keys c
  unfold reply readKeyStrokePass
  rcases hw : keypadReadKeyStrokeWorker keys c with ⟨status | k, c'⟩
  · rw [hw] at hlog hsupport
    exact ⟨by simp [intakeOf, ← hlog, ← hsupport], by simp [hw, ← hlog]⟩
  · rw [hw] at hlog hsupport
    cases hnull : k.isNull
    all_goals exact ⟨by simp [intakeOf, hnull, ← hlog, ← hsupport, pushedKeys, Event.pushedKey],
      by simp [hw, hnull, ← hlog, handedIn, Event.handed]⟩

/-- And so does `KeypadReadKeyStrokeEx`. -/
theorem readKeyStrokeEx_records (keys : List KeyData) (c : ConsoleIn F) :
    intakeOf (keypadReadKeyStrokeEx false keys c).2 = intakeOf (keypadTimerHandler keys c) ∧
      handedIn (keypadReadKeyStrokeEx false keys c).2.log
        = handedIn (keypadTimerHandler keys c).log
          ++ (reply c (.readKeyStrokeEx false keys)).toList := by
  obtain ⟨hlog, hsupport⟩ := worker_log keys c
  unfold reply keypadReadKeyStrokeEx
  rw [if_neg Bool.false_ne_true]
  rcases hw : keypadReadKeyStrokeWorker keys c with ⟨status | k, c'⟩
  · rw [hw] at hlog hsupport
    exact ⟨by simp [intakeOf, ← hlog, ← hsupport], by simp [hw, ← hlog]⟩
  · rw [hw] at hlog hsupport
    exact ⟨by simp [intakeOf, ← hlog, ← hsupport, pushedKeys, Event.pushedKey],
      by simp [hw, ← hlog, handedIn, Event.handed]⟩

/-- The wait notification brings no keys of its own, and hands over none. -/
theorem waitForKeyLoop_records (fuel : Nat) (c : ConsoleIn F) :
    intakeOf (waitForKeyLoop fuel c).2 = intakeOf c ∧
      handedIn (waitForKeyLoop fuel c).2.log = handedIn c.log := by
  -- by induction on the fuel: a pass skips a key or is the last
  induction fuel generalizing c with
  | zero => exact ⟨rfl, rfl⟩
  | succ fuel ih =>
    unfold waitForKeyLoop
    split
    · exact ⟨rfl, rfl⟩
    · dsimp only
      split
      · obtain ⟨hintake, hhanded⟩ := ih { c with
          efiKeyQueue := (popEfikeyBufHead c.efiKeyQueue).2
          log := c.log ++ [.skipped (c.efiKeyQueue.buffer c.efiKeyQueue.head)] }
        rw [hintake, hhanded]
        simp [intakeOf, pushedKeys, handedIn, Event.pushedKey, Event.handed]
      · exact ⟨rfl, rfl⟩

/-! ### Steps -/

variable [DecidableEq F]

/-- One step of the device. -/
def exec (c : ConsoleIn F) : Act F → ConsoleIn F
  | .timer keys                  => keypadTimerHandler keys c
  | .waitForKey keys             => (keypadWaitForKey keys c).2
  | .readKeyStroke keys          => (readKeyStrokePass keys c).2
  | .readKeyStrokeEx isNull keys => (keypadReadKeyStrokeEx isNull keys c).2
  | .reset                       => (keypadEfiReset c).2
  | .setState keyToggleState     => (keypadSetState keyToggleState c).2
  | .registerKeyNotify keyData fn allocated =>
    (keypadRegisterKeyNotify keyData fn allocated c).2
  | .keyNotify                   => (keyNotifyProcessPass c).2

/-- A call of `KeypadReadKeyStroke` is a run of passes. -/
theorem keypadReadKeyStroke_passes (polls : List (List KeyData)) (c : ConsoleIn F) :
    ∃ passes, passes <+: polls ∧
      (keypadReadKeyStroke polls c).2 = (passes.map Act.readKeyStroke).foldl exec c := by
  induction polls generalizing c with
  | nil => exact ⟨[], List.prefix_rfl, rfl⟩
  | cons keys polls ih =>
    unfold keypadReadKeyStroke
    rcases hpass : readKeyStrokePass keys c with ⟨_ | _ | _, c'⟩
    · exact ⟨[keys], by simp, by simp [exec, hpass]⟩
    · -- the key was partial, and the loop goes on
      obtain ⟨passes, hpre, hrun⟩ := ih c'
      exact ⟨keys :: passes, by simpa using hpre, by simp [exec, hpass, hrun]⟩
    · exact ⟨[keys], by simp, by simp [exec, hpass]⟩

/-- **Step lemma.**  Every step keeps the law. -/
theorem FifoLaw.exec {c : ConsoleIn F} (h : FifoLaw c) (a : Act F) : FifoLaw (exec c a) := by
  cases a with
  | timer keys => exact h.timerHandler keys
  | waitForKey keys =>
    obtain ⟨c', hrun, hc', _⟩ := h.waitForKey keys
    simpa [Keypad.exec, hrun] using hc'
  | readKeyStroke keys => exact h.readKeyStrokePass keys
  | readKeyStrokeEx isNull keys => exact h.readKeyStrokeEx isNull keys
  | reset => exact FifoLaw.reset h.noErr
  | setState keyToggleState =>
    show FifoLaw (keypadSetState keyToggleState c).2
    unfold keypadSetState
    split_ifs
    all_goals exact ⟨h.valid, h.replays, h.noErr⟩
  | registerKeyNotify keyData fn allocated =>
    show FifoLaw (keypadRegisterKeyNotify keyData fn allocated c).2
    unfold keypadRegisterKeyNotify
    split_ifs
    all_goals exact ⟨h.valid, h.replays, h.noErr⟩
  | keyNotify =>
    show FifoLaw (keyNotifyProcessPass c).2
    unfold keyNotifyProcessPass
    split <;> exact ⟨h.valid, h.replays, h.noErr⟩

/-- **Run lemma.**  The law holds after every run from the start of the driver. -/
theorem fifoLaw_run (acts : List (Act F)) :
    FifoLaw (acts.foldl exec keypadControllerDriverStart) := by
  induction acts using List.reverseRecOn with
  | nil => exact FifoLaw.reset rfl
  | append_singleton acts a ih =>
    rw [List.foldl_append]
    exact ih.exec a

/-- A step, and what has been handed to readers since the last reset. -/
def execHanded (s : ConsoleIn F × List Handed) (a : Act F) : ConsoleIn F × List Handed :=
  (exec s.1 a, match a with
    | .reset => []
    | a      => s.2 ++ (reply s.1 a).toList)

/-- What the steps of a run bring. -/
def intake (acts : List (Act F)) : Intake := acts.foldl Intake.step ⟨false, []⟩

/-- What a run hands to its readers after the last reset. -/
def handed (acts : List (Act F)) : List Handed :=
  (acts.foldl execHanded (keypadControllerDriverStart, [])).2

/-- The log records the keys a step brings. -/
theorem intake_exec {c : ConsoleIn F} (h : FifoLaw c) (a : Act F) :
    intakeOf (exec c a) = (intakeOf c).step a := by
  cases a with
  | timer keys => exact (timerHandler_records h.noErr keys).1
  | waitForKey keys =>
    have hpoll := h.timerHandler keys
    show intakeOf (keypadWaitForKey keys c).2 = (intakeOf c).add keys
    unfold keypadWaitForKey
    dsimp only
    -- the keys of the poll, and then only skips
    rw [hpoll.noErr, if_neg Bool.false_ne_true, (waitForKeyLoop_records _ _).1,
      (timerHandler_records h.noErr keys).1]
  | readKeyStroke keys =>
    show intakeOf (readKeyStrokePass keys c).2 = (intakeOf c).add keys
    rw [← (timerHandler_records h.noErr keys).1]
    exact (readKeyStrokePass_records keys c).1
  | readKeyStrokeEx isNull keys =>
    show intakeOf (keypadReadKeyStrokeEx isNull keys c).2
      = (intakeOf c).add (if isNull then [] else keys)
    cases isNull with
    | true => simp [keypadReadKeyStrokeEx, Intake.add]
    | false =>
      rw [if_neg Bool.false_ne_true, ← (timerHandler_records h.noErr keys).1]
      exact (readKeyStrokeEx_records keys c).1
  | reset =>
    show intakeOf (keypadEfiReset c).2 = ⟨false, []⟩
    rw [keypadEfiReset, h.noErr, if_neg Bool.false_ne_true]
    rfl
  | setState toggle =>
    show intakeOf (keypadSetState toggle c).2 = if _ then _ else _
    unfold keypadSetState
    rw [h.noErr, if_neg Bool.false_ne_true]
    -- a toggle state without its valid bit is refused, and nothing changes
    by_cases hvalid : toggle &&& efiToggleStateValid = efiToggleStateValid
    · rw [if_neg (not_not_intro hvalid), if_pos hvalid]
      rfl
    · rw [if_pos hvalid, if_neg hvalid]
  | registerKeyNotify keyData fn allocated =>
    show intakeOf (keypadRegisterKeyNotify keyData fn allocated c).2 = (intakeOf c).add []
    unfold keypadRegisterKeyNotify
    split_ifs
    all_goals simp [intakeOf, Intake.add]
  | keyNotify =>
    show intakeOf (keyNotifyProcessPass c).2 = (intakeOf c).add []
    unfold keyNotifyProcessPass
    split <;> simp [intakeOf, Intake.add]

/-- The log records what a step hands to its reader. -/
theorem handedIn_exec {c : ConsoleIn F} (h : FifoLaw c) (a : Act F) :
    (execHanded (c, handedIn c.log) a).2 = handedIn (exec c a).log := by
  cases a with
  | timer keys =>
    exact (List.append_nil _).trans (timerHandler_records h.noErr keys).2.symm
  | waitForKey keys =>
    have hpoll := h.timerHandler keys
    show handedIn c.log ++ [] = handedIn (keypadWaitForKey keys c).2.log
    unfold keypadWaitForKey
    dsimp only
    rw [hpoll.noErr, if_neg Bool.false_ne_true, (waitForKeyLoop_records _ _).2,
      (timerHandler_records h.noErr keys).2, List.append_nil]
  | readKeyStroke keys =>
    rw [show exec c (.readKeyStroke keys) = (readKeyStrokePass keys c).2 from rfl,
      (readKeyStrokePass_records keys c).2, (timerHandler_records h.noErr keys).2]
    rfl
  | readKeyStrokeEx isNull keys =>
    cases isNull with
    | true => simp [execHanded, reply, exec, keypadReadKeyStrokeEx]
    | false =>
      rw [show exec c (.readKeyStrokeEx false keys) = (keypadReadKeyStrokeEx false keys c).2
          from rfl,
        (readKeyStrokeEx_records keys c).2, (timerHandler_records h.noErr keys).2]
      rfl
  | reset =>
    -- a reset empties the log with the queue
    show [] = handedIn (keypadEfiReset c).2.log
    rw [keypadEfiReset, h.noErr, if_neg Bool.false_ne_true]
    rfl
  | setState toggle =>
    show handedIn c.log ++ [] = handedIn (keypadSetState toggle c).2.log
    unfold keypadSetState
    split_ifs
    all_goals exact List.append_nil _
  | registerKeyNotify keyData fn allocated =>
    show handedIn c.log ++ [] = handedIn (keypadRegisterKeyNotify keyData fn allocated c).2.log
    unfold keypadRegisterKeyNotify
    split_ifs
    all_goals exact List.append_nil _
  | keyNotify =>
    show handedIn c.log ++ [] = handedIn (keyNotifyProcessPass c).2.log
    unfold keyNotifyProcessPass
    split <;> exact List.append_nil _

/-- Over a run the log records the keys brought, -/
theorem intake_run (acts : List (Act F)) :
    intakeOf (acts.foldl exec (keypadControllerDriverStart : ConsoleIn F)) = intake acts := by
  induction acts using List.reverseRecOn with
  | nil => rfl
  | append_singleton acts a ih =>
    rw [intake, List.foldl_append, List.foldl_append, List.foldl_cons, List.foldl_nil,
      intake_exec (fifoLaw_run acts), ih]
    rfl

/-- and those handed over. -/
theorem handed_run (acts : List (Act F)) :
    acts.foldl execHanded ((keypadControllerDriverStart : ConsoleIn F), [])
      = (acts.foldl exec keypadControllerDriverStart,
          handedIn (acts.foldl exec (keypadControllerDriverStart : ConsoleIn F)).log) := by
  induction acts using List.reverseRecOn with
  | nil => rfl
  | append_singleton acts a ih =>
    rw [List.foldl_append, List.foldl_append, List.foldl_cons, List.foldl_nil, List.foldl_cons,
      List.foldl_nil, ih]
    exact Prod.ext rfl (handedIn_exec (fifoLaw_run acts) a)

/-- **Console queue.**  After every run of the driver the keys its polls have brought since the
    last reset are, in push order, those that have gone and those still queued; every key that
    has gone was the oldest outstanding one and was dropped by a push that found 255 outstanding,
    skipped as a partial key or delivered, and the keys delivered are what the readers were
    handed; a reader finds the oldest queued key; both indices are inside the array; and a wait
    notification signals exactly if a key that is not partial is queued, of which it removes
    none. -/
theorem console_fifo (acts : List (Act F)) :
    let c := acts.foldl exec (keypadControllerDriverStart : ConsoleIn F)
    pushedKeys c.log = (intake acts).accepted ∧ handedIn c.log = handed acts ∧
    replay c.log = some c.efiKeyQueue.contents ∧
    pushedKeys c.log = goneKeys c.log ++ c.efiKeyQueue.contents ∧
    c.efiKeyQueue.head < keypadEfiKeyMaxCount ∧ c.efiKeyQueue.tail < keypadEfiKeyMaxCount ∧
    ∀ keys, ∃ c' queued, queued = (keypadTimerHandler keys c).efiKeyQueue.contents ∧
      (keypadReadKeyStrokeWorker keys c).1 = queued.head?.elim (.error .notReady) .ok ∧
      keypadWaitForKey keys c = (some (queued.any fun k => !k.isNull), c') ∧
      c'.efiKeyQueue.contents = queued.dropWhile KeyData.isNull := by
  intro c
  have hlaw : FifoLaw c := fifoLaw_run acts
  refine ⟨congrArg Intake.accepted (intake_run acts), ?_, hlaw.replays, replay_order hlaw.replays,
    hlaw.valid.head_lt, hlaw.valid.tail_lt, ?_⟩
  · exact (congrArg Prod.snd (handed_run acts)).symm
  · intro keys
    obtain ⟨c', hrun, _, hrest⟩ := hlaw.waitForKey keys
    exact ⟨c', _, rfl, hlaw.worker_fst keys, hrun, hrest⟩

end HtcLeo.Keypad

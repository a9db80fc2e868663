import HtcLeo.I2c.Inner

namespace HtcLeo.I2c

open Prog

/-!
# I2CDxe — nested calls

A call of `msm_i2c_xfer` at whose places timer callbacks make complete calls of their own, any
number of them.

* `Failed`, `Overtaken` — a nested call failed, or came while the record was in use.
* `OutsideWindow` — when no callback may make a call.
* `Unmisled` — when the wait of the outer call is to be trusted.
* `nested` — then the outer call returns `num` only if it has transferred everything, and every
  byte is in a buffer of the call it belongs to.
-/

/-! ### Nested calls -/

/-- A nested call that does not return its `num`. -/
def Event.isFailure : Event → Bool
  | .returned _ call ret => decide (ret ≠ call.num)
  | _                    => false

/-- Some nested call has failed. -/
def Failed (h : History) : Prop := ∃ e ∈ h, e.isFailure = true

/-- The places at which the record holds the outer transfer, from the store to `dev.ret` until
    it is taken. -/
def Place.overtakes : Place → Bool
  | .setup _      => true
  | .engine _     => true
  | .wait .second => true
  | .teardown 0   => true
  | _             => false

/-- A nested call that returns at such a place. -/
def Event.isOvertaking : Event → Bool
  | .returned place _ _ => place.overtakes
  | _                   => false

/-- Some nested call has come while the record was in use. -/
def Overtaken (h : History) : Prop := ∃ e ∈ h, e.isOvertaking = true

/-- No callback makes a call from the enabling of the clock to the store to `dev.ret`, nor
    inside the engine once it has tested `dev.msg`. -/
structure OutsideWindow (callback : Place → History → Option MsgArray) : Prop where
  enable : ∀ h, callback .enable h = none
  wait : ∀ h, callback (.wait .first) h = none
  recovery : ∀ h, callback (.recovery .first) h = none
  setup : ∀ k h, k ≤ 3 → callback (.setup k) h = none
  engine : ∀ k h, 2 ≤ k → callback (.engine k) h = none

/-- The outer call was overtaken, or its wait was ended by the end of its transfer, with no
    error bit read, or one that the engine has noticed in time. -/
def Unmisled (msgs : MsgArray) (h : History) : Prop :=
  Overtaken h ∨ ¬ Exhausted msgs h ∧ ¬ EarlyIdle msgs h ∧ (ErrorSeen h → Noticed msgs h)

instance (h : History) : Decidable (Failed h) :=
  inferInstanceAs (Decidable (∃ e ∈ h, e.isFailure = true))

instance (h : History) : Decidable (Overtaken h) :=
  inferInstanceAs (Decidable (∃ e ∈ h, e.isOvertaking = true))

variable {b : Board} {msgs call : MsgArray} {h : History} {place : Place}
  {callback : Place → History → Option MsgArray}

theorem Failed.cons (e : Event) (hh : Failed h) : Failed (e :: h) := by
  obtain ⟨e', hmem, he'⟩ := hh
  exact ⟨e', List.mem_cons_of_mem _ hmem, he'⟩

theorem failed_of_ne {ret : Int} (hret : ret ≠ call.num) :
    Failed (.returned place call ret :: h) :=
  ⟨_, List.mem_cons_self, decide_eq_true hret⟩

theorem overtaken_cons {e : Event} (he : e.isOvertaking = false) :
    Overtaken (e :: h) ↔ Overtaken h := by
  constructor
  · intro hex
    obtain ⟨e', hmem, he'⟩ := hex
    rcases List.mem_cons.mp hmem with rfl | hold
    · rw [he] at he'
      exact Bool.noConfusion he'
    · exact ⟨e', hold, he'⟩
  · intro hex
    obtain ⟨e', hmem, he'⟩ := hex
    exact ⟨e', List.mem_cons_of_mem _ hmem, he'⟩

theorem Overtaken.cons (e : Event) (hh : Overtaken h) : Overtaken (e :: h) := by
  obtain ⟨e', hmem, he'⟩ := hh
  exact ⟨e', List.mem_cons_of_mem _ hmem, he'⟩

/-- A call of another one overtakes none. -/
theorem Event.During.not_overtaking {Own : MsgArray → Prop} {e : Event}
    (he : e.During Own call) : e.isOvertaking = false := by
  cases e with
  | returned place c r => exact absurd rfl (he.returned place c r)
  | _                  => rfl

/-! ### What a callback keeps -/

/-- Without a callback only interrupts come. -/
theorem callbacks_of_none (hnone : ∀ h, callback place h = none) {I : World → Prop}
    (hI : Stays I (interrupts b place)) : Stays I (callbacks b callback place) := by
  refine Completes.bind hI fun _ => ?_
  refine Completes.bind (M := fun c s => I s ∧ c = none)
    (Completes.query fun s hs => ⟨hs, hnone s.log⟩) fun c => ?_
  intro s hboth
  obtain ⟨hs, rfl⟩ := hboth
  exact ⟨(), s, rfl, hs⟩

theorem callbacks_nothing (hnone : ∀ h, callback place h = none)
    (hnothing : Nothing (interrupts b place)) : Nothing (callbacks b callback place) := by
  intro s
  apply bind_of (hnothing s)
  apply bind_of (show query _ s = (some (callback place s.log), s) from rfl)
  rw [hnone]
  rfl

/-- **Callbacks.**  `I` is kept if interrupts and the nested calls keep it. -/
theorem callbacks_completes {I : World → Prop} (hI : Stays I (interrupts b place))
    (hcall : ∀ call h, callback place h = some call →
      Completes I (xfer b (interrupts b) call) (fun r s => I (s.push (.returned place call r)))) :
    Stays I (callbacks b callback place) := by
  refine Completes.bind hI fun _ => ?_
  refine Completes.bind (M := fun c s => I s ∧ c = callback place s.log)
    (Completes.query fun s hs => ⟨hs, rfl⟩) fun c => ?_
  cases c with
  | none   => exact Completes.pure fun s hs => hs.1
  | some call =>
    intro s hboth
    obtain ⟨hs, hc⟩ := hboth
    have hnested := hcall call s.log hc.symm
    refine Completes.bind hnested (fun r => ?_) s hs
    exact Completes.bind (Completes.modify fun s hs => hs) fun _ => hI

/-- What a nested call finds with `X` known, and leaves if it succeeds. -/
structure Nestable (place : Place) (call : MsgArray) (G : World → Prop)
    (Own : MsgArray → Prop) (X : History → Prop) : Prop where
  own : Own call
  stable : ∀ e h, X h → e.During Own call → X (e :: h)
  before : ∀ s, G s → Guarded Own X s
  after : ∀ s, Guarded Own X s → AtRest s.dev → G (s.push (.returned place call call.num))

/-- **Nested calls** leave what is known, unless they fail. -/
theorem nested_stays (hsetup : SetUpUndisturbed b) {F : History → Prop}
    (hF : ∀ e h, F h → F (e :: h)) {G : World → Prop} (hG : Stays G (interrupts b place))
    (hcall : ∀ call h, callback place h = some call → ∃ Own X, Nestable place call G Own X ∧
      ∀ h r, X h → r ≠ call.num → F (.returned place call r :: h)) :
    Stays (fun s => Astray F s ∨ G s) (callbacks b callback place) := by
  have hastray : ∀ place, Stays (Astray F) (interrupts b place) :=
    interrupts_completes (astray_rule b hF).isr
  have hsetups : ∀ k, 1 ≤ k → Nothing (interrupts b (.setup k)) :=
    fun k hk => interrupts_nothing fun h => hsetup.setup k h hk
  have hengines : ∀ k, 2 ≤ k → Nothing (interrupts b (.engine k)) :=
    fun k hk => interrupts_nothing fun h => hsetup.engine k h (by omega)
  refine callbacks_completes ?_ fun call h hc => ?_
  · exact Completes.or (hastray place) hG
  · obtain ⟨Own, X, hnest, hfail⟩ := hcall call h hc
    intro s hor
    rcases hor with hs | hs
    · obtain ⟨r, s', hrun, hs'⟩ :=
        astray_completes hF hastray (fun k hk _ => hsetups k hk) hengines s hs
      exact ⟨r, s', hrun, Or.inl (hs'.push hF _)⟩
    · obtain ⟨r, s', hrun, hguard, hend⟩ :=
        call_completes hsetup hnest.own hnest.stable s (hnest.before s hs)
      refine ⟨r, s', hrun, ?_⟩
      by_cases hr : r = call.num
      · have hpos := call.num_pos
        rcases hend with hgave | hrest
        · rw [hgave] at hr
          have : errNotReady < 0 := by decide
          omega
        · rw [hr]
          exact Or.inr (hnest.after s' hguard hrest)
      · exact Or.inl ⟨hguard.record.inArray, hfail _ r hguard.facts hr⟩

/-! ### Before the set-up -/

/-- Nothing was done for the array, and nothing has overtaken it. -/
structure Untouched (msgs : MsgArray) (h : History) : Prop where
  msg : ∀ e ∈ h, ∀ p, e.msg? = some p → p.array ≠ msgs
  taken : ∀ r, Event.taken msgs r ∉ h
  inTime : ¬ Overtaken h

theorem Untouched.cons (hh : Untouched msgs h) {e : Event}
    (hmsg : ∀ p, e.msg? = some p → p.array ≠ msgs) (htaken : ∀ r, e ≠ .taken msgs r)
    (hovertaking : e.isOvertaking = false) : Untouched msgs (e :: h) where
  msg := List.forall_mem_cons.mpr ⟨hmsg, hh.msg⟩
  taken r hmem := hh.taken r (List.mem_of_ne_of_mem (htaken r).symm hmem)
  inTime hover := hh.inTime ((overtaken_cons hovertaking).mp hover)

theorem Untouched.during (hne : call ≠ msgs) (e : Event) (h : History) (hh : Untouched msgs h)
    (he : e.During (· ≠ msgs) call) : Untouched msgs (e :: h) := by
  refine hh.cons he.own (fun r heq => ?_) he.not_overtaking
  exact hne (he.taken msgs r heq).symm

/-- No transfer is set up. -/
structure Idle (msgs : MsgArray) (s : World) : Prop where
  guarded : Guarded (· ≠ msgs) (Untouched msgs) s
  msg : s.dev.msg = none
  cnt : s.dev.cnt = 0

theorem Idle.push {s : World} (hs : Idle msgs s) {e : Event} (he : e.isQuiet = true) :
    Idle msgs (s.push e) where
  guarded := by
    have hduring : e.During (fun _ => False) msgs := Event.during_of_quiet he msgs
    refine Sound.push hs.guarded (Event.access_of_quiet he) (hs.guarded.facts.cons ?_ ?_ ?_)
    · exact fun p hp => (hduring.own p hp).elim
    · rintro r rfl
      exact Bool.noConfusion he
    · exact hduring.not_overtaking
  msg := hs.msg
  cnt := hs.cnt

theorem idle_isr (b : Board) : Stays (Idle msgs) (isr b) :=
  fun _ hs => ⟨_, _, isr_atRest hs.msg, hs.push rfl⟩

/-- What is expected of a place: a nested call has failed, or `G`. -/
abbrev Unless (G : World → Prop) (s : World) : Prop := Astray Failed s ∨ G s

theorem unless_push {G : World → Prop} {s : World} (e : Event) (hG : G s → G (s.push e))
    (hs : Unless G s) : Unless G (s.push e) :=
  hs.imp (fun h => h.push (fun _ _ => Failed.cons _) e) hG

theorem unless_interrupts {G : World → Prop} (hG : Stays G (isr b)) (place : Place) :
    Stays (Unless G) (interrupts b place) := by
  have hastray : Stays (Astray Failed) (isr b) := (astray_rule b fun _ _ => Failed.cons _).isr
  have hisr : Stays (Unless G) (isr b) := Completes.or hastray hG
  exact interrupts_completes hisr place

/-- Nested calls before the set-up, or after the call has given up. -/
theorem idle_stays (hsetup : SetUpUndisturbed b)
    (hother : ∀ place h, callback place h ≠ some msgs) (hplace : place.overtakes = false) :
    Stays (Unless (Idle msgs)) (callbacks b callback place) := by
  refine nested_stays hsetup (fun _ _ => Failed.cons _) (interrupts_completes (idle_isr b) place)
    fun call h hc => ?_
  have hne : call ≠ msgs := by
    rintro rfl
    exact hother place h hc
  refine ⟨(· ≠ msgs), Untouched msgs, ?_, fun _ _ _ hr => failed_of_ne hr⟩
  exact {
    own := hne
    stable := Untouched.during hne
    before := fun s hs => hs.guarded
    after := fun s hs hrest => {
      guarded := Sound.push hs rfl
        (hs.facts.cons (fun _ hnone => nomatch hnone) (fun _ hnone => nomatch hnone) hplace)
      msg := hrest.msg
      cnt := hrest.cnt } }

/-- The same with the clock on. -/
def Ready (msgs : MsgArray) (s : World) : Prop := Idle msgs s ∧ clkEnabled s.log = true

theorem Ready.push {s : World} (hs : Ready msgs s) {e : Event} (he : e.isPoll = true) :
    Ready msgs (s.push e) :=
  ⟨hs.1.push (Event.quiet_of_poll he), (clkEnabled_cons he).trans hs.2⟩

theorem ready_isr (b : Board) : Stays (Ready msgs) (isr b) :=
  fun _ hs => ⟨_, _, isr_atRest hs.1.msg, hs.push rfl⟩

/-! ### While the engine runs -/

/-- What is known while the engine runs: once overtaken, `dev.ret` is no success. -/
def Outer (msgs : MsgArray) (ret : Int) (h : History) : Prop :=
  Overtaken h ∧ ret ≤ 0 ∨ ¬ Overtaken h ∧ Running msgs ret h

theorem Outer.cons {ret : Int} (hh : Outer msgs ret h) {e : Event}
    (hovertaking : e.isOvertaking = false)
    (hrunning : Running msgs ret h → Running msgs ret (e :: h)) : Outer msgs ret (e :: h) := by
  rcases hh with ⟨hover, hret⟩ | ⟨hover, hrun⟩
  · exact Or.inl ⟨hover.cons e, hret⟩
  · exact Or.inr ⟨fun h' => hover ((overtaken_cons hovertaking).mp h'), hrunning hrun⟩

theorem outer_survives (msgs : MsgArray) :
    Survives (· = msgs) (fun ret _ h => Outer msgs ret h) where
  push ret t h e hh he hmsg := by
    have hovertaking : e.isOvertaking = false := by
      cases e <;> first | rfl | exact Bool.noConfusion he
    exact hh.cons hovertaking fun hrun => (running_survives msgs).push ret t h e hrun he hmsg
  failed ret t h p v hh hown hstatus hv := by
    rcases hh with ⟨hover, _⟩ | ⟨hover, hrun⟩
    · exact Or.inl ⟨hover.cons _, by decide⟩
    · refine Or.inr ⟨fun h' => hover ((overtaken_cons rfl).mp h'), ?_⟩
      exact (running_survives msgs).failed ret t h p v hrun hown hstatus hv
  done ret t h hh := hh.cons rfl fun hrun => (running_survives msgs).done ret t h hrun

/-- The engine is at work for the outer call, if for any. -/
abbrev Engaging (msgs : MsgArray) : World → Prop :=
  Sound (· = msgs) fun ret _ h => Outer msgs ret h

theorem Sound.guard {Own : MsgArray → Prop} {J : Int → Int → History → Prop} {s : World}
    (hs : Sound Own J s) {X : History → Prop} (hX : X s.log) : Guarded (fun _ => True) X s :=
  ⟨hs.record, fun _ _ => trivial, hs.isolated, hX⟩

/-- A nested call at rest again has overtaken the outer one. -/
theorem engaging_overtaken {Own : MsgArray → Prop} {X : History → Prop} {s : World}
    (hs : Guarded Own X s) (hrest : AtRest s.dev) (hplace : place.overtakes = true) (r : Int) :
    Engaging msgs (s.push (.returned place call r)) where
  record := WithinBuffers.of_none hrest.msg
  own p hp := absurd (hrest.msg.symm.trans hp) (Option.some_ne_none p).symm
  isolated := hs.isolated.cons fun _ _ hnone => nomatch hnone
  facts := Or.inl ⟨⟨_, List.mem_cons_self, hplace⟩, le_of_eq hrest.ret⟩

/-- Nested calls while the engine runs, with more known of the history. -/
theorem engaging_stays (hsetup : SetUpUndisturbed b) (hplace : place.overtakes = true)
    {X : History → Prop} (hX : ∀ e h, X h → X (e :: h)) :
    Stays (fun s => Unless (Engaging msgs) s ∧ X s.log) (callbacks b callback place) := by
  have hnested : Stays (fun s => Astray (fun h => Failed h ∧ X h) s ∨ Engaging msgs s ∧ X s.log)
      (callbacks b callback place) := by
    refine nested_stays hsetup (fun e h hh => ⟨hh.1.cons e, hX e h hh.2⟩)
      (interrupts_completes (sound_isr b (outer_survives msgs) hX) place) fun call h _ => ?_
    refine ⟨fun _ => True, X, ?_, fun h r hx hr => ⟨failed_of_ne hr, hX _ h hx⟩⟩
    exact {
      own := trivial
      stable := fun e h hx _ => hX e h hx
      before := fun s hs => hs.1.guard hs.2
      after := fun s hs hrest =>
        ⟨engaging_overtaken hs hrest hplace _, hX _ _ hs.facts⟩ }
  refine hnested.mono ?_ ?_
  · intro s hboth
    obtain ⟨hs | hs, hx⟩ := hboth
    · exact Or.inl ⟨hs.record, hs.history, hx⟩
    · exact Or.inr ⟨hs, hx⟩
  · intro _ s hor
    rcases hor with hs | hs
    · exact ⟨Or.inl ⟨hs.record, hs.history.1⟩, hs.history.2⟩
    · exact ⟨Or.inr hs.1, hs.2⟩

/-! ### After the result has been taken -/

/-- How the second wait has ended. -/
def Outcome (msgs : MsgArray) (h : History) : Prop :=
  Failed h ∨ Overtaken h ∨ Exhausted msgs h ∨ EarlyIdle msgs h ∨ Transferred msgs h ∨ ErrorSeen h

theorem Outcome.cons (e : Event) (h : History) (hh : Outcome msgs h) : Outcome msgs (e :: h) := by
  rcases hh with h1 | h2 | h3 | h4 | h5 | h6
  · exact Or.inl (h1.cons e)
  · exact Or.inr (Or.inl (h2.cons e))
  · exact Or.inr (Or.inr (Or.inl (h3.cons e)))
  · exact Or.inr (Or.inr (Or.inr (Or.inl (h4.cons e))))
  · exact Or.inr (Or.inr (Or.inr (Or.inr (Or.inl (h5.cons e)))))
  · exact Or.inr (Or.inr (Or.inr (Or.inr (Or.inr (h6.cons e)))))

/-- What is known when `r` has been taken from `dev.ret`. -/
structure Fetched (msgs : MsgArray) (r : Int) (h : History) : Prop where
  overtaken : Overtaken h → r ≠ msgs.num
  noticed : Noticed msgs h → r ≠ msgs.num
  outcome : Outcome msgs h

theorem Fetched.cons {r : Int} (hh : Fetched msgs r h) {e : Event}
    (hovertaking : e.isOvertaking = false) (htaken : ∀ r, e ≠ .taken msgs r) :
    Fetched msgs r (e :: h) where
  overtaken hover := hh.overtaken ((overtaken_cons hovertaking).mp hover)
  noticed hn := hh.noticed ((noticed_cons htaken).mp hn)
  outcome := hh.outcome.cons e h

theorem Fetched.during {r : Int} (hne : call ≠ msgs) (e : Event) (h : History)
    (hh : Fetched msgs r h) (he : e.During (fun _ => True) call) : Fetched msgs r (e :: h) := by
  refine hh.cons he.not_overtaking fun r heq => ?_
  exact hne (he.taken msgs r heq).symm

/-- Taking the result. -/
theorem fetched_of_outer {r : Int} (hh : Outer msgs r h) (houtcome : Outcome msgs h) :
    Fetched msgs r (.taken msgs r :: h) := by
  have hnum := msgs.num_pos
  rcases hh with ⟨hover, hret⟩ | ⟨hover, hrun⟩
  · exact ⟨fun _ => by omega, fun _ => by omega, houtcome.cons _ h⟩
  · refine ⟨fun h' => absurd ((overtaken_cons rfl).mp h') hover, fun hn => ?_, houtcome.cons _ h⟩
    rw [(hrun.aborted ((noticed_taken hrun.notTaken).mp hn)).1]
    have : error < 0 := by decide
    omega

/-- The result has been taken, and the engine may still be at work for the outer call. -/
abbrev Fetching (msgs : MsgArray) (r : Int) : World → Prop :=
  Sound (· = msgs) fun _ _ h => Fetched msgs r h

theorem fetched_survives (msgs : MsgArray) (r : Int) :
    Survives (· = msgs) (fun _ _ h => Fetched msgs r h) := by
  refine Survives.history fun e h hh he _ => hh.cons ?_ ?_
  · cases e <;> first | rfl | exact Bool.noConfusion he
  · rintro r' rfl
    exact Bool.noConfusion he

/-- It has been taken, and no message is set. -/
structure Done (msgs : MsgArray) (r : Int) (s : World) : Prop where
  isolated : Isolated s.log
  msg : s.dev.msg = none
  fetched : Fetched msgs r s.log

theorem Done.fetching {r : Int} {s : World} (hs : Done msgs r s) : Fetching msgs r s where
  record := WithinBuffers.of_none hs.msg
  own p hp := absurd (hs.msg.symm.trans hp) (Option.some_ne_none p).symm
  isolated := hs.isolated
  facts := hs.fetched

theorem Done.push {r : Int} {s : World} (hs : Done msgs r s) {e : Event}
    (he : e.isQuiet = true) : Done msgs r (s.push e) where
  isolated := hs.isolated.cons fun p a haccess => by
    rw [Event.access_of_quiet he] at haccess
    exact absurd haccess (Option.some_ne_none _).symm
  msg := hs.msg
  fetched := by
    refine hs.fetched.cons ?_ ?_
    · cases e <;> first | rfl | exact Bool.noConfusion he
    · rintro r' rfl
      exact Bool.noConfusion he

/-- The verdict adds no success. -/
theorem Done.verdict {r : Int} {s : World} (hs : Done msgs r s) :
    Done msgs (if s.timeout = errTimedOut then errTimedOut else r) s := by
  have hnum := msgs.num_pos
  have htimeout : errTimedOut < 0 := by decide
  split
  · refine ⟨hs.isolated, hs.msg, fun _ => ?_, fun _ => ?_, hs.fetched.outcome⟩
    · omega
    · omega
  · exact hs

theorem done_isr (b : Board) (r : Int) : Stays (Done msgs r) (isr b) :=
  fun _ hs => ⟨_, _, isr_atRest hs.msg, hs.push rfl⟩

/-- A nested call at rest again has left the result alone. -/
theorem done_returned {Own : MsgArray → Prop} {r ret : Int} {s : World}
    (hs : Guarded Own (Fetched msgs r) s) (hrest : AtRest s.dev)
    (hplace : place.overtakes = false) : Done msgs r (s.push (.returned place call ret)) where
  isolated := hs.isolated.cons fun _ _ hnone => nomatch hnone
  msg := hrest.msg
  fetched := hs.facts.cons hplace fun _ hnone => nomatch hnone

/-- Nested calls after the result has been taken. -/
theorem fetched_stays (hsetup : SetUpUndisturbed b)
    (hother : ∀ place h, callback place h ≠ some msgs) (hplace : place.overtakes = false) {r : Int}
    {G : World → Prop} (hG : Stays G (isr b)) (hbefore : ∀ s, G s → Fetching msgs r s)
    (hafter : ∀ s, Done msgs r s → G s) : Stays (Unless G) (callbacks b callback place) := by
  refine nested_stays hsetup (fun _ _ => Failed.cons _) (interrupts_completes hG place)
    fun call h hc => ?_
  have hne : call ≠ msgs := by
    rintro rfl
    exact hother place h hc
  refine ⟨fun _ => True, Fetched msgs r, ?_, fun _ _ _ hr => failed_of_ne hr⟩
  exact {
    own := trivial
    stable := Fetched.during hne
    before := fun s hs => (hbefore s hs).guard (hbefore s hs).facts
    after := fun s hs hrest => hafter _ (done_returned hs hrest hplace) }

/-! ### The outer call -/

/-- What the outer call owes: bytes in their buffers, and no false success where the wait is to
    be trusted. -/
def Honest (msgs : MsgArray) (ret : Int) (s : World) : Prop :=
  ¬ Failed s.log → Isolated s.log ∧
    (Unmisled msgs s.log → ret = msgs.num → Transferred msgs s.log)

theorem Done.honest {r : Int} {s : World} (hs : Done msgs r s) : Honest msgs r s := by
  refine fun hfailed => ⟨hs.isolated, fun hunmisled hret => ?_⟩
  rcases hunmisled with hover | ⟨hwaited, hearly, herror⟩
  · exact absurd hret (hs.fetched.overtaken hover)
  · rcases hs.fetched.outcome with h1 | h2 | h3 | h4 | h5 | h6
    · exact absurd h1 hfailed
    · exact absurd hret (hs.fetched.overtaken h2)
    · exact absurd h3 hwaited
    · exact absurd h4 hearly
    · exact h5
    · exact absurd hret (hs.fetched.noticed (herror h6))

theorem Idle.honest {s : World} (hs : Idle msgs s) : Honest msgs errNotReady s := by
  refine fun _ => ⟨hs.guarded.isolated, fun _ hret => ?_⟩
  have hnum := msgs.num_pos
  rw [← hret] at hnum
  exact absurd hnum (by decide)

theorem Astray.honest {ret : Int} {s : World} (hs : Astray Failed s) : Honest msgs ret s :=
  fun hfailed => absurd hs.history hfailed

/-- The first stores of the set-up are done; after them a nested call clears the record. -/
structure Early (msgs : MsgArray) (s : World) : Prop where
  engaging : Engaging msgs s
  record : s.dev.msg = none ∨
    s.dev.msg = some ⟨msgs, 0⟩ ∧ s.dev.rem = msgs.num ∧ s.dev.pos = -1

/-- Up to the store to `dev.ret` nothing has come between. -/
theorem Ready.early {s : World} (hs : Ready msgs s) :
    Early msgs { s with dev := begun msgs s.dev } where
  engaging := {
    record := withinBuffers_first rfl rfl rfl (Or.inl hs.1.cnt)
    own := by
      intro p hp
      obtain rfl : (⟨msgs, 0⟩ : MsgPtr) = p := Option.some.inj hp
      rfl
    isolated := hs.1.guarded.isolated
    facts := by
      have huntouched := hs.1.guarded.facts
      refine Or.inr ⟨huntouched.inTime, ?_⟩
      exact {
        clock := hs.2
        notTaken := huntouched.taken
        aborted := fun ⟨p, hp, hmem⟩ => absurd hp (huntouched.msg _ hmem p rfl)
        clean := fun _ => rfl
        held := fun ⟨p, w, hp, hmem⟩ => absurd hp (huntouched.msg _ hmem p rfl) } }
  record := Or.inr ⟨rfl, rfl, rfl⟩

/-- The last store of the set-up. -/
theorem Early.engaging_counted {s : World} (hs : Early msgs s) :
    Engaging msgs { s with dev := { s.dev with cnt := (msgs.msgs.head msgs.nonempty).len } } where
  record := by
    rcases hs.record with hnone | ⟨hmsg, hrem, hpos⟩
    · exact WithinBuffers.of_none hnone
    · exact withinBuffers_first hmsg hrem hpos (Or.inr rfl)
  own := hs.engaging.own
  isolated := hs.engaging.isolated
  facts := hs.engaging.facts

/-- **Set-up.**  Nested calls come after the store to `dev.ret` only. -/
theorem setUp_nested (hsetup : SetUpUndisturbed b) (hwindow : OutsideWindow callback) :
    Completes (Unless (Ready msgs)) (setUp (callbacks b callback) msgs)
      (fun _ => Unless (Engaging msgs)) := by
  have hnothing : ∀ k, 1 ≤ k → Nothing (interrupts b (.setup k)) :=
    fun k hk => interrupts_nothing fun h => hsetup.setup k h hk
  refine setUp_completes (B := Unless (Early msgs)) ?_ ?_ ?_ ?_ ?_ ?_ ?_
  · exact callbacks_of_none (fun h => hwindow.setup 0 h (by decide))
      (unless_interrupts (ready_isr b) _)
  · exact fun k hlow hhigh => callbacks_nothing (fun h => hwindow.setup k h hhigh) (hnothing k hlow)
  · exact fun s hs => hs.imp (fun h => ⟨inArray_begun _ _, h.history⟩) Ready.early
  · intro k hk
    refine nested_stays hsetup (fun _ _ => Failed.cons _) ((hnothing k (by omega)).stays _)
      fun call h _ => ?_
    refine ⟨fun _ => True, fun _ => True, ?_, fun _ _ _ hr => failed_of_ne hr⟩
    exact {
      own := trivial
      stable := fun _ _ _ _ => trivial
      before := fun s hs => hs.engaging.guard trivial
      after := fun s hs hrest => ⟨engaging_overtaken hs hrest rfl _, Or.inl hrest.msg⟩ }
  · exact fun s hs => hs.imp (fun h => ⟨h.record, h.history⟩) fun h =>
      ⟨⟨h.engaging.record, h.engaging.own, h.engaging.isolated, h.engaging.facts⟩, h.record⟩
  · exact fun s hs => hs.imp (fun h => ⟨h.record, h.history⟩) fun h =>
      ⟨⟨h.engaging.record, h.engaging.own, h.engaging.isolated, h.engaging.facts⟩, h.record⟩
  · exact fun s hs => hs.imp (fun h => ⟨h.record, h.history⟩) Early.engaging_counted

/-- **The direct call of the engine.**  Nested calls come before its test of `dev.msg` only. -/
theorem direct_nested (hsetup : SetUpUndisturbed b) (hwindow : OutsideWindow callback) :
    Stays (Unless (Engaging msgs))
      (interruptLocked b fun k => callbacks b callback (.engine k)) := by
  have hnothing : ∀ k, 1 ≤ k → Nothing (interrupts b (.engine k)) :=
    fun k hk => interrupts_nothing fun h => hsetup.engine k h (by omega)
  have hastray := astray_rule b fun e h => Failed.cons (h := h) e
  have hrule := sound_rule b (outer_survives msgs)
  refine direct_completes
    (M := fun v s => Unless (Engaging msgs) s ∧ Event.status .engine v ∈ s.log) ?_ ?_ ?_ ?_ ?_
  · have hbefore : Stays (fun s => Unless (Engaging msgs) s ∧ True)
        (callbacks b callback (.engine 0)) :=
      engaging_stays hsetup rfl (X := fun _ => True) fun _ _ _ => trivial
    exact hbefore.mono (fun s hs => ⟨hs, trivial⟩) fun _ s hs => hs.1
  · intro s hor
    rcases hor with hs | hs
    · exact ⟨Or.inl (hs.push (fun _ _ => Failed.cons _) _), List.mem_cons_self⟩
    · exact ⟨Or.inr (hrule.status s hs).2, List.mem_cons_self⟩
  · exact fun v => engaging_stays hsetup rfl fun e h hmem => List.mem_cons_of_mem e hmem
  · exact fun k hk =>
      callbacks_nothing (fun h => hwindow.engine k h hk) (hnothing k (by omega))
  · intro v
    refine (Completes.or (hastray.handle v) (hrule.handle v)).mono ?_ fun _ _ hs => hs
    intro s hboth
    obtain ⟨hs | hs, hmem⟩ := hboth
    · exact Or.inl hs
    · exact Or.inr ⟨hmem, hs⟩

/-- **The second wait.** -/
theorem wait_nested (hholds : HoldsBus b msgs) (hsetup : SetUpUndisturbed b) :
    Completes (Unless (Engaging msgs))
      (pollNotbusy b (callbacks b callback (.wait .second)) (.wait msgs .second) 200)
      (fun _ s => Unless (Engaging msgs) s ∧ Outcome msgs s.log) := by
  refine (wait_completes (Y := Outcome msgs) (fun X hX => engaging_stays hsetup rfl hX)
    ?_ ?_).mono (fun _ hs => hs) ?_
  · intro s v hs
    refine unless_push _ (fun h => ?_) hs
    apply Sound.push h rfl
    exact h.facts.cons rfl fun hrun => hrun.cons (by simp) (by simp) (by simp) rfl rfl
  · intro s hor hidle
    rcases hor with hs | hs
    · exact Outcome.cons _ _ (Or.inl hs.history)
    · rcases hs.facts with ⟨hover, _⟩ | ⟨_, hrun⟩
      · exact Outcome.cons _ _ (Or.inr (Or.inl hover))
      · exact Or.inr (Or.inr (Or.inr (idle_outcome hholds hrun.held hidle)))
  · intro w s hboth
    obtain ⟨hs, _, hexhausted | houtcome⟩ := hboth
    · exact ⟨hs, Or.inr (Or.inr (Or.inl hexhausted))⟩
    · exact ⟨hs, houtcome⟩

/-- **Tear-down.** -/
theorem tearDown_nested (hsetup : SetUpUndisturbed b)
    (hother : ∀ place h, callback place h ≠ some msgs) :
    Completes (fun s => Unless (Engaging msgs) s ∧ Outcome msgs s.log)
      (tearDown (callbacks b callback) msgs) (fun r => Unless (Done msgs r)) := by
  have hdone : ∀ r place, place.overtakes = false →
      Stays (Unless (Done msgs r)) (callbacks b callback place) := fun r place hplace =>
    fetched_stays hsetup hother hplace (done_isr b r) (fun _ hs => hs.fetching) fun _ hs => hs
  refine tearDown_completes (B := fun r => Unless (Fetching msgs r))
    (C := fun _ r => Unless (Done msgs r)) ?_ ?_ ?_ ?_ ?_ ?_ ?_ ?_ ?_ ?_
  · exact engaging_stays hsetup rfl Outcome.cons
  · intro s hboth
    obtain ⟨hs | hs, houtcome⟩ := hboth
    · exact Or.inl (hs.push (fun _ _ => Failed.cons _) _)
    · exact Or.inr {
        record := hs.record
        own := hs.own
        isolated := hs.isolated.cons fun _ _ hnone => nomatch hnone
        facts := fetched_of_outer hs.facts houtcome }
  · intro r
    refine fetched_stays hsetup hother rfl ?_ (fun _ hs => hs) fun _ hs => hs.fetching
    exact (sound_rule b (fetched_survives msgs r)).isr
  · exact fun r s hs => hs.imp (fun h => ⟨InArray.of_none rfl, h.history⟩) fun h =>
      ⟨h.isolated, rfl, h.facts⟩
  · intro _ r k hk
    refine hdone r _ ?_
    match k, hk with
    | k + 2, _ => rfl
  · exact fun r s hs => hs.imp (fun h => ⟨h.record.clearRem, h.history⟩) fun h =>
      ⟨h.isolated, h.msg, h.fetched⟩
  · exact fun r s hs => hs.imp (fun h => ⟨h.record, h.history⟩) fun h =>
      ⟨h.isolated, h.msg, h.fetched⟩
  · exact fun r s hs => hs.imp (fun h => ⟨h.record, h.history⟩) fun h =>
      ⟨h.isolated, h.msg, h.fetched⟩
  · exact fun r s hs => hs.imp (fun h => ⟨h.record, h.history⟩) fun h =>
      ⟨h.isolated, h.msg, h.fetched⟩
  · exact fun r s hs => hs.imp (fun h => ⟨h.record, h.history⟩) fun h =>
      ⟨h.isolated, h.msg, h.fetched⟩

/-- **Nested calls.**  A call at whose places timer callbacks make calls of their own, outside
    the window, returns.  If none of them fails, every byte is sent from or stored into a buffer
    of the message it belongs to, and where the wait is to be trusted, the call returns `num`
    only if it has transferred every byte. -/
theorem nested (b : Board) (callback : Place → History → Option MsgArray) (msgs : MsgArray)
    (hholds : HoldsBus b msgs) (hsetup : SetUpUndisturbed b)
    (hother : ∀ place h, callback place h ≠ some msgs) (hwindow : OutsideWindow callback)
    (s : World) (hrest : AtRest s.dev) (hlog : s.log = []) :
    ∃ ret s', xfer b (callbacks b callback) msgs s = (some ret, s') ∧ (¬ Failed s'.log →
      Isolated s'.log ∧ (Unmisled msgs s'.log → ret = msgs.num → Transferred msgs s'.log)) := by
  have hstart : Unless (Idle msgs) s := by
    refine Or.inr ⟨⟨WithinBuffers.of_none hrest.msg, ?_, ?_, ?_⟩, hrest.msg, hrest.cnt⟩
    · exact fun p hp => absurd (hrest.msg.symm.trans hp) (Option.some_ne_none p).symm
    · rw [hlog]
      exact fun e he => absurd he List.not_mem_nil
    · rw [hlog]
      exact ⟨fun e he => absurd he List.not_mem_nil, fun _ => List.not_mem_nil,
        fun ⟨e, he, _⟩ => List.not_mem_nil he⟩
  have hidle : ∀ place, place.overtakes = false →
      Stays (Unless (Idle msgs)) (callbacks b callback place) :=
    fun place hplace => idle_stays hsetup hother hplace
  have hready : ∀ place, (∀ h, callback place h = none) →
      Stays (Unless (Ready msgs)) (callbacks b callback place) :=
    fun place hnone => callbacks_of_none hnone (unless_interrupts (ready_isr b) _)
  have hdone : ∀ r place, place.overtakes = false →
      Stays (Unless (Done msgs r)) (callbacks b callback place) := fun r place hplace =>
    fetched_stays hsetup hother hplace (done_isr b r) (fun _ hs => hs.fetching) fun _ hs => hs
  have hfinish : ∀ r, Completes (Unless (Done msgs r)) (finish (callbacks b callback) r)
      (Honest msgs) := by
    intro r
    refine (finish_completes (hdone r _ rfl) (hdone r _ rfl)
      (fun _ _ he hs => unless_push _ (fun h => h.push (Event.quiet_of_poll he)) hs)
      (fun _ hs => unless_push _ (fun h => h.push rfl) hs) r).mono (fun _ hs => hs) ?_
    intro ret s' hboth
    obtain ⟨hs | hs, rfl⟩ := hboth
    · exact hs.honest
    · exact hs.honest
  refine xfer_completes (P := Unless (Ready msgs)) (A := Unless (Engaging msgs))
    (Q := Honest msgs) ?_
    ⟨hready _ hwindow.enable, hready _ hwindow.wait, hready _ hwindow.recovery⟩
    (fun _ _ he hs => unless_push _ (fun h => h.push he) hs) ?_ (setUp_nested hsetup hwindow) ?_
    s hstart
  · refine access_completes (hidle .entry rfl) fun s' hs' => hs'.imp ?_ ?_
    · exact fun h => h.push (fun _ _ => Failed.cons _) _
    · exact fun h => ⟨h.push rfl, rfl⟩
  · -- the bus was not free
    refine (finish_completes (hidle .disable rfl) (hidle .exit rfl)
      (fun _ _ he hs => unless_push _ (fun h => h.push (Event.quiet_of_poll he)) hs)
      (fun _ hs => unless_push _ (fun h => h.push rfl) hs) errNotReady).mono
      (fun _ hs => hs.imp_right And.left) ?_
    intro ret s' hboth
    obtain ⟨hs | hs, rfl⟩ := hboth
    · exact hs.honest
    · exact hs.honest
  · exact xferRun_completes (direct_nested hsetup hwindow) (wait_nested hholds hsetup)
      (fun _ => tearDown_nested hsetup hother) (fun _ r => ⟨hdone r _ rfl, hdone r _ rfl⟩)
      (fun _ _ _ _ he hs => unless_push _ (fun h => h.push (Event.quiet_of_poll he)) hs)
      (fun _ r _ => hfinish r) (V := fun r => Unless (Done msgs r))
      (fun _ _ _ hs => hs.imp_right Done.verdict)
      (fun r => hdone r _ rfl)
      (fun _ _ _ he hs => unless_push _ (fun h => h.push (Event.quiet_of_poll he)) hs) hfinish

/-- A write of one byte by a timer callback. -/
def otherByte : MsgArray := ⟨0x3000, [⟨0x36#16, 0#16, 1, 0x4000⟩], by decide⟩

/-- A controller that takes every word of two arrays, and interrupts in the second wait. -/
def sharedController (msgs other : MsgArray) : Board where
  status h :=
    if busHeld msgs h = true ∧ ¬ Transferred msgs h ∨ busHeld other h = true ∧ ¬ Transferred other h
    then statusBusActive else 0#32
  data _ := 0#8
  pin _ _ := true
  irqs place _ :=
    match place with
    | .wait .second => 1
    | _             => 0

theorem sharedController_holds (msgs other : MsgArray) :
    HoldsBus (sharedController msgs other) msgs := by
  intro h hheld htrans _
  have hstatus : (sharedController msgs other).status h = statusBusActive :=
    if_pos (Or.inl ⟨hheld, htrans⟩)
  rw [hstatus]
  rfl

theorem sharedController_undisturbed (msgs other : MsgArray) :
    SetUpUndisturbed (sharedController msgs other) where
  setup _ _ _ := rfl
  engine _ _ _ := rfl

/-- Callbacks that make a call at some places. -/
def callingAt (places : List Place) (call : MsgArray) : Place → History → Option MsgArray :=
  fun place _ => if place ∈ places then some call else none

theorem callingAt_ne {places : List Place} (hne : call ≠ msgs) (place : Place) (h : History) :
    callingAt places call place h ≠ some msgs := by
  unfold callingAt
  split
  · exact fun heq => hne (Option.some.inj heq)
  · exact (Option.some_ne_none msgs).symm

/-- The call with nested calls at some places. -/
def nestedRun (places : List Place) : Option Int × World :=
  xfer (sharedController oneByte otherByte)
    (callbacks (sharedController oneByte otherByte) (callingAt places otherByte)) oneByte (idle 0)

/-- With nested calls before and after the transfer it returns `num`, and truly so. -/
theorem nested_around : ∃ s', nestedRun [.entry, .teardown 1] = (some 1, s') ∧
    Isolated s'.log ∧ Transferred oneByte s'.log := by
  have hother : ∀ place h, callingAt [.entry, .teardown 1] otherByte place h ≠ some oneByte :=
    callingAt_ne (by decide)
  have hnone : ∀ place h, place ∉ [Place.entry, .teardown 1] →
      callingAt [.entry, .teardown 1] otherByte place h = none := fun place h hnot => if_neg hnot
  have hwindow : OutsideWindow (callingAt [.entry, .teardown 1] otherByte) := {
    enable := fun h => hnone _ h (by decide)
    wait := fun h => hnone _ h (by decide)
    recovery := fun h => hnone _ h (by decide)
    setup := fun k h _ => hnone _ h (by simp)
    engine := fun k h _ => hnone _ h (by simp) }
  obtain ⟨ret, s', hrun, hhonest⟩ := nested (sharedController oneByte otherByte)
    (callingAt [.entry, .teardown 1] otherByte) oneByte (sharedController_holds _ _)
    (sharedController_undisturbed _ _) hother hwindow (idle 0) ⟨rfl, rfl, rfl⟩ rfl
  have heq : nestedRun [.entry, .teardown 1] = (some ret, s') := hrun
  have hret : (nestedRun [.entry, .teardown 1]).1 = some 1 := by decide +kernel
  have hfailed : ¬ Failed (nestedRun [.entry, .teardown 1]).2.log := by decide +kernel
  have hclean : ¬ Exhausted oneByte (nestedRun [.entry, .teardown 1]).2.log ∧
      ¬ EarlyIdle oneByte (nestedRun [.entry, .teardown 1]).2.log ∧
      ¬ ErrorSeen (nestedRun [.entry, .teardown 1]).2.log := by decide +kernel
  rw [heq] at hret hfailed hclean
  obtain rfl : ret = 1 := Option.some.inj hret
  obtain ⟨hwaited, hearly, herror⟩ := hclean
  obtain ⟨hisolated, htrans⟩ := hhonest hfailed
  refine ⟨s', heq, hisolated, htrans (Or.inr ⟨hwaited, hearly, ?_⟩) rfl⟩
  exact fun hseen => absurd hseen herror

/-- Wherever error-free calls are nested, bytes stay in their buffers, and the outer call returns
    `num` only if it has transferred every byte. -/
def NeverMisled (b : Board) (msgs : MsgArray) : Prop :=
  ∀ callback, (∀ place h, callback place h ≠ some msgs) → ∀ s, AtRest s.dev → s.log = [] →
    ∀ ret s', xfer b (callbacks b callback) msgs s = (some ret, s') → ¬ Failed s'.log →
      Isolated s'.log ∧ (ret = msgs.num → Transferred msgs s'.log)

/-- After a nested call between the stores to `dev.msg` and to `dev.ret`, the outer call returns
    `num`, and has transferred nothing. -/
theorem nested_in_setUp : HoldsBus (sharedController oneByte otherByte) oneByte ∧
    SetUpUndisturbed (sharedController oneByte otherByte) ∧
    Transferred otherByte (nestedRun [.setup 1]).2.log ∧
    ¬ NeverMisled (sharedController oneByte otherByte) oneByte := by
  refine ⟨sharedController_holds _ _, sharedController_undisturbed _ _, by decide +kernel,
    fun h => ?_⟩
  have hother : ∀ place h, callingAt [.setup 1] otherByte place h ≠ some oneByte :=
    callingAt_ne (by decide)
  have hret : (nestedRun [.setup 1]).1 = some 1 := by decide +kernel
  have hfailed : ¬ Failed (nestedRun [.setup 1]).2.log := by decide +kernel
  have htrans : ¬ Transferred oneByte (nestedRun [.setup 1]).2.log := by decide +kernel
  have hhonest := h (callingAt [.setup 1] otherByte) hother (idle 0) ⟨rfl, rfl, rfl⟩ rfl 1
    (nestedRun [.setup 1]).2 (Prod.ext hret rfl) hfailed
  exact htrans (hhonest.2 rfl)

end HtcLeo.I2c

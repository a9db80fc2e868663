import HtcLeo.I2c.Truthful

namespace HtcLeo.I2c

open Prog

/-!
# I2CDxe — a call inside another one

What a call of `msm_i2c_xfer` does to the record and the history of another one that it
interrupts.

* `Astray` — a record that only points into its array, which is left when a nested call fails.
* `Guarded` — a record within its buffers, and what is known of the history.
* `astray_completes`, `call_completes` — a call from either.
-/

/-! ### Records that have gone astray -/

/-- The record points into its array, as far as the messages left go. -/
def InArray (d : MsmI2cDev) : Prop :=
  ∀ p, d.msg = some p →
    p.index < p.array.msgs.length ∧ p.index + d.rem ≤ p.array.msgs.length

theorem WithinBuffers.inArray {d : MsmI2cDev} (h : WithinBuffers d) : InArray d := by
  intro p hp
  obtain ⟨m, hm⟩ := h p hp
  exact ⟨(List.getElem?_eq_some_iff.mp hm.deref).1, hm.messages⟩

/-- The record of a transfer that begins. -/
theorem inArray_begun (d : MsmI2cDev) (msgs : MsgArray) : InArray (begun msgs d) := by
  intro p hp
  obtain rfl : (⟨msgs, 0⟩ : MsgPtr) = p := Option.some.inj hp
  refine ⟨List.length_pos_of_ne_nil msgs.nonempty, ?_⟩
  show ((0 : Nat) : Int) + msgs.num ≤ msgs.num
  omega

theorem InArray.of_none {d : MsmI2cDev} (h : d.msg = none) : InArray d :=
  (WithinBuffers.of_none h).inArray

theorem InArray.clearRem {d : MsmI2cDev} (h : InArray d) : InArray { d with rem := 0 } := by
  intro p hp
  have hlt := (h p hp).1
  refine ⟨hlt, ?_⟩
  show (p.index : Int) + 0 ≤ p.array.msgs.length
  omega

/-- The record points into its array, and the history is in `F`. -/
structure Astray (F : History → Prop) (s : World) : Prop where
  record : InArray s.dev
  history : F s.log

variable {F : History → Prop} {b : Board} {msgs : MsgArray}

theorem Astray.push (hF : ∀ e h, F h → F (e :: h)) {s : World} (hs : Astray F s) (e : Event) :
    Astray F (s.push e) :=
  ⟨hs.record, hF e _ hs.history⟩

/-- The handler keeps a record in its array, whatever it counts. -/
theorem astray_rule (b : Board) (hF : ∀ e h, F h → F (e :: h)) :
    EngineRule b (Astray F) (fun _ => Astray F) where
  status s hs := hs.push hF _
  rest v s hs := hs
  deref s p hs hp := ⟨_, List.getElem?_eq_getElem (hs.record p hp).1⟩
  failed v s p hs _ _ := ⟨hs.record, hF _ _ hs.history⟩
  addressed v s p m hs _ _ _ := ⟨hs.record, hF _ _ hs.history⟩
  byteSent v s p m hs _ _ _ _ _ := ⟨hs.record, hF _ _ hs.history⟩
  byteStored v s p m hs _ _ _ _ _ := by
    refine ⟨hs.record, hF _ _ ?_⟩
    show F (if s.StopDue then .stop lastByte :: s.log else s.log)
    split
    · exact hF _ _ hs.history
    · exact hs.history
  byteDropped v s p m hs _ _ _ := by
    refine ⟨hs.record, hF _ _ ?_⟩
    show F (if s.dev.flushCnt % 2 = 1 then .stop lastByte :: s.log else s.log)
    split
    · exact hF _ _ hs.history
    · exact hs.history
  advanced s p m hs hat _ _ hrem := by
    have hindex := (hs.record p hat.1).2
    have hlt : p.index + 1 < p.array.msgs.length := by omega
    refine ⟨_, List.getElem?_eq_getElem hlt, ?_, hs.history⟩
    intro p' hp'
    obtain rfl := Option.some.inj hp'
    refine ⟨hlt, ?_⟩
    show ((p.index + 1 : Nat) : Int) + (s.dev.rem - 1) ≤ p.array.msgs.length
    omega
  completed s p m hs _ _ _ _ _ := ⟨hs.record, hF _ _ hs.history⟩

/-- **Astray.**  A call returns from such a record, and leaves one. -/
theorem astray_completes {pre : Place → Prog World Unit} (hF : ∀ e h, F h → F (e :: h))
    (hpre : ∀ place, Stays (Astray F) (pre place))
    (hsetup : ∀ k, 1 ≤ k → k ≤ 3 → Nothing (pre (.setup k)))
    (hengine : ∀ k, 2 ≤ k → Nothing (pre (.engine k))) :
    Completes (Astray F) (xfer b pre msgs) (fun _ => Astray F) := by
  have hrule := astray_rule b hF
  have hpoll : ∀ s e, e.isPoll = true → Astray F s → Astray F (s.push e) :=
    fun s e _ hs => hs.push hF e
  have hfinish : ∀ ret, Completes (Astray F) (finish pre ret) (fun _ => Astray F) := fun ret =>
    (finish_completes (hpre _) (hpre _) hpoll (fun s hs => hs.push hF _) ret).mono
      (fun _ hs => hs) fun _ _ hs => hs.1
  refine xfer_completes (access_completes (hpre _) fun s hs => hs.push hF _)
    ⟨hpre _, hpre _, hpre _⟩ hpoll (hfinish _) (A := Astray F) ?_ ?_
  · refine setUp_completes (B := Astray F) (hpre _) hsetup ?_ (fun _ _ => hpre _) ?_ ?_ ?_
    · exact fun s hs => ⟨inArray_begun s.dev msgs, hs.history⟩
    · exact fun s hs => ⟨hs.record, hs.history⟩
    · exact fun s hs => ⟨hs.record, hs.history⟩
    · exact fun s hs => ⟨hs.record, hs.history⟩
  · refine xferRun_completes (W := fun _ => Astray F) (S := fun _ _ => Astray F)
      (V := fun _ => Astray F) ?_ ?_ ?_ (fun _ _ => ⟨hpre _, hpre _⟩) (fun _ _ => hpoll)
      (fun _ r _ => hfinish r) (fun _ _ _ hs => hs) (fun _ => hpre _) (fun _ => hpoll) hfinish
    · exact direct_completes (hpre _) hrule.status (fun _ => hpre _) hengine hrule.handle
    · exact pollNotbusy_completes (A := fun _ => Astray F) (fun _ => hpre _)
        (fun _ s hs _ => hs.push hF _) (fun _ s hs _ => hs.push hF _) (fun s hs => hs) 200
    · intro w
      refine tearDown_completes (B := fun _ => Astray F) (C := fun _ _ => Astray F) (hpre _)
        (fun s hs => hs.push hF _) (fun _ => hpre _) ?_ (fun _ _ _ _ => hpre _) ?_ ?_ ?_ ?_ ?_
      · exact fun _ s hs => ⟨InArray.of_none rfl, hs.history⟩
      · exact fun _ s hs => ⟨hs.record.clearRem, hs.history⟩
      · exact fun _ s hs => ⟨hs.record, hs.history⟩
      · exact fun _ s hs => ⟨hs.record, hs.history⟩
      · exact fun _ s hs => ⟨hs.record, hs.history⟩
      · exact fun _ s hs => ⟨hs.record, hs.history⟩

/-! ### A call that keeps what is known -/

/-- What a call adds to the history, with the engine at work for arrays in `Own`. -/
structure Event.During (Own : MsgArray → Prop) (call : MsgArray) (e : Event) : Prop where
  own : ∀ p, e.msg? = some p → Own p.array
  taken : ∀ c r, e = .taken c r → c = call
  returned : ∀ place c r, e ≠ .returned place c r

/-- A record within its buffers, and what is known of the history. -/
abbrev Guarded (Own : MsgArray → Prop) (X : History → Prop) : World → Prop :=
  Sound Own fun _ _ h => X h

/-- The record is cleared: the first `k` of `rem`, `pos`, `ret`, `flush_cnt` and `cnt` too. -/
structure Cleared (Own : MsgArray → Prop) (X : History → Prop) (k : Nat) (s : World) : Prop where
  guarded : Guarded Own X s
  msg : s.dev.msg = none
  ret : 3 ≤ k → s.dev.ret = 0
  cnt : 5 ≤ k → s.dev.cnt = 0

/-- Nothing is under way. -/
structure AtRest (d : MsmI2cDev) : Prop where
  msg : d.msg = none
  ret : d.ret = 0
  cnt : d.cnt = 0

section Call

variable {Own : MsgArray → Prop} {X : History → Prop}

/-- An event of no array, which takes no result and ends no call. -/
theorem Event.during_of_quiet {e : Event} (he : e.isQuiet = true) (call : MsgArray) :
    e.During Own call where
  own p hp := by
    cases e <;> first | exact Bool.noConfusion he | exact nomatch hp
  taken c r heq := by
    rw [heq] at he
    exact Bool.noConfusion he
  returned place c r heq := by
    rw [heq] at he
    exact Bool.noConfusion he

theorem guarded_survives (hX : ∀ e h, X h → e.During Own msgs → X (e :: h)) :
    Survives Own (fun _ _ h => X h) := by
  refine Survives.history fun e h hh he hmsg => hX e h hh ⟨hmsg, ?_, ?_⟩
  · rintro c r rfl
    exact Bool.noConfusion he
  · rintro place c r rfl
    exact Bool.noConfusion he

theorem Guarded.quiet (hX : ∀ e h, X h → e.During Own msgs → X (e :: h)) {s : World}
    (hs : Guarded Own X s) {e : Event} (he : e.isQuiet = true) : Guarded Own X (s.push e) :=
  Sound.push hs (Event.access_of_quiet he) (hX e _ hs.facts (Event.during_of_quiet he msgs))

/-- A record without a message is within its buffers. -/
theorem Sound.clear {J : Int → Int → History → Prop} {s : World} (hs : Sound Own J s)
    {d : MsmI2cDev} (hmsg : d.msg = none) (hret : d.ret = s.dev.ret) :
    Sound Own J { s with dev := d } where
  record := WithinBuffers.of_none hmsg
  own p hp := by
    rw [show d.msg = some p from hp] at hmsg
    exact absurd hmsg (Option.some_ne_none p)
  isolated := hs.isolated
  facts := by
    show J d.ret s.timeout s.log
    rw [hret]
    exact hs.facts

theorem Cleared.guard {k : Nat} {s : World} (hs : Cleared Own X k s) {d : MsmI2cDev}
    (hmsg : d.msg = none) : Guarded Own X { s with dev := d } where
  record := WithinBuffers.of_none hmsg
  own p hp := by
    rw [show d.msg = some p from hp] at hmsg
    exact absurd hmsg (Option.some_ne_none p)
  isolated := hs.guarded.isolated
  facts := hs.guarded.facts

theorem Cleared.quiet (hX : ∀ e h, X h → e.During Own msgs → X (e :: h)) {k : Nat} {s : World}
    (hs : Cleared Own X k s) {e : Event} (he : e.isQuiet = true) : Cleared Own X k (s.push e) :=
  ⟨hs.guarded.quiet hX he, hs.msg, hs.ret, hs.cnt⟩

theorem Cleared.atRest {s : World} (hs : Cleared Own X 5 s) : AtRest s.dev :=
  ⟨hs.msg, hs.ret (by omega), hs.cnt (by omega)⟩

/-- **A call** from a record within its buffers, with only interrupts between its statements,
    ends with the record at rest, unless it gave up before its set-up. -/
theorem call_completes (hsetup : SetUpUndisturbed b) (hown : Own msgs)
    (hX : ∀ e h, X h → e.During Own msgs → X (e :: h)) :
    Completes (Guarded Own X) (xfer b (interrupts b) msgs)
      (fun ret s => Guarded Own X s ∧ (ret = errNotReady ∨ AtRest s.dev)) := by
  have hrule := sound_rule b (guarded_survives hX)
  have hpre : ∀ place, Stays (Guarded Own X) (interrupts b place) :=
    interrupts_completes hrule.isr
  have hcleared : ∀ k place, Stays (Cleared Own X k) (interrupts b place) := fun k =>
    interrupts_completes fun s hs => ⟨_, _, isr_atRest hs.msg, hs.quiet hX rfl⟩
  have hfinish : ∀ ret, Completes (Cleared Own X 5) (finish (interrupts b) ret)
      (fun ret s => Guarded Own X s ∧ (ret = errNotReady ∨ AtRest s.dev)) := fun ret =>
    (finish_completes (hcleared 5 _) (hcleared 5 _)
      (fun _ _ he hs => hs.quiet hX (Event.quiet_of_poll he)) (fun s hs => hs.quiet hX rfl)
      ret).mono (fun _ hs => hs) fun _ _ hs => ⟨hs.1.guarded, Or.inr hs.1.atRest⟩
  refine xfer_completes (access_completes (hpre _) fun s hs => hs.quiet hX rfl)
    ⟨hpre _, hpre _, hpre _⟩ (fun _ _ he hs => hs.quiet hX (Event.quiet_of_poll he)) ?_
    (A := Guarded Own X) ?_ ?_
  · refine (finish_completes (hpre _) (hpre _)
      (fun _ _ he hs => hs.quiet hX (Event.quiet_of_poll he)) (fun s hs => hs.quiet hX rfl)
      errNotReady).mono (fun _ hs => hs) ?_
    exact fun _ _ hs => ⟨hs.1, Or.inl hs.2⟩
  · have hnothing : ∀ k, 1 ≤ k → Nothing (interrupts b (.setup k)) :=
      fun k hk => interrupts_nothing fun h => hsetup.setup k h hk
    refine setUp_completes (B := fun s => (s.dev.msg = some ⟨msgs, 0⟩ ∧ s.dev.rem = msgs.num ∧
      s.dev.pos = -1) ∧ Isolated s.log ∧ X s.log) (hpre _) (fun k hk _ => hnothing k hk) ?_
      (fun k hk => (hnothing k (by omega)).stays _) (fun _ hs => hs) (fun _ hs => hs) ?_
    · exact fun s hs => ⟨⟨rfl, rfl, rfl⟩, hs.isolated, hs.facts⟩
    · rintro s ⟨⟨hmsg, hrem, hpos⟩, hisolated, hfacts⟩
      exact {
        record := withinBuffers_first hmsg hrem hpos (Or.inr rfl)
        own := by
          intro p hp
          obtain rfl : (⟨msgs, 0⟩ : MsgPtr) = p := Option.some.inj (hmsg.symm.trans hp)
          exact hown
        isolated := hisolated
        facts := hfacts }
  · refine xferRun_completes (W := fun _ => Guarded Own X) (S := fun _ _ => Cleared Own X 5)
      (V := fun _ => Cleared Own X 5) ?_ ?_ ?_ (fun _ _ => ⟨hcleared 5 _, hcleared 5 _⟩)
      (fun _ _ _ _ he hs => hs.quiet hX (Event.quiet_of_poll he)) (fun _ r _ => hfinish r)
      (fun _ _ _ hs => hs) (fun _ => hcleared 5 _)
      (fun _ _ _ he hs => hs.quiet hX (Event.quiet_of_poll he)) hfinish
    · have hnothing : ∀ k, 1 ≤ k → Nothing (interrupts b (.engine k)) :=
        fun k hk => interrupts_nothing fun h => hsetup.engine k h (by omega)
      exact direct_completes (hpre _) hrule.status
        (fun _ => (hnothing 1 (Nat.le_refl 1)).stays _) (fun k hk => hnothing k (by omega))
        hrule.handle
    · exact pollNotbusy_completes (A := fun _ => Guarded Own X) (fun _ => hpre _)
        (fun _ s hs _ => hs.quiet hX rfl) (fun _ s hs _ => hs.quiet hX rfl) (fun s hs => hs) 200
    · intro w
      refine tearDown_completes (B := fun _ => Guarded Own X) (C := fun k _ => Cleared Own X k)
        (hpre _) ?_ (fun _ => hpre _) ?_ (fun k _ _ _ => hcleared k _) ?_ ?_ ?_ ?_ ?_
      · intro s hs
        have hduring : (Event.taken msgs s.dev.ret).During Own msgs := {
          own := fun _ hnone => nomatch hnone
          taken := fun c r heq => (Event.taken.inj heq).1.symm
          returned := fun _ _ _ hnone => nomatch hnone }
        exact Sound.push hs rfl (hX _ _ hs.facts hduring)
      · exact fun _ s hs => ⟨Sound.clear hs rfl rfl, rfl, by omega, by omega⟩
      · exact fun _ s hs => ⟨hs.guard hs.msg, hs.msg, by omega, by omega⟩
      · exact fun _ s hs => ⟨hs.guard hs.msg, hs.msg, by omega, by omega⟩
      · exact fun _ s hs => ⟨hs.guard hs.msg, hs.msg, fun _ => rfl, by omega⟩
      · exact fun _ s hs => ⟨hs.guard hs.msg, hs.msg, fun _ => hs.ret (by omega), by omega⟩
      · exact fun _ s hs => ⟨hs.guard hs.msg, hs.msg, fun _ => hs.ret (by omega), fun _ => rfl⟩

end Call

end HtcLeo.I2c

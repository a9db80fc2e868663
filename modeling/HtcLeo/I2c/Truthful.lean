import Mathlib.Data.List.Infix
import HtcLeo.I2c.Buffers

namespace HtcLeo.I2c

open Prog

/-!
# I2CDxe — the result of a transfer

A single call of `msm_i2c_xfer` on a controller that keeps `I2C_STATUS_BUS_ACTIVE` set from the
first address word until the transfer ends or the bus is recovered, with whatever status values
and interrupts else.

* `Transferred`, `ErrorSeen` — what the result is about.
* `TruthfulResult` — what it should be.
* `Heeded` — when the call takes notice of what happened.
* `truthful` — then the result is truthful.
-/

/-! ### What happened -/

/-- What a transfer consists of: address words, and bytes at addresses. -/
inductive Item
  | address (p : MsgPtr)
  | byte (p : MsgPtr) (a : Nat)
  deriving DecidableEq

/-- The items of the messages of an array. -/
def MsgArray.items (msgs : MsgArray) : List Item :=
  msgs.msgs.zipIdx.flatMap fun (m, i) =>
    .address ⟨msgs, i⟩ :: (List.range m.len).map fun j => .byte ⟨msgs, i⟩ (m.buf + j)

/-- The item an event transfers. -/
def Event.item? : Event → Option Item
  | .address p _  => some (.address p)
  | .sent p a _   => some (.byte p a)
  | .stored p a _ => some (.byte p a)
  | _             => none

/-- The items transferred, which takes the clock of the controller. -/
def transferred : History → List Item
  | []     => []
  | e :: h => if clkEnabled h then transferred h ++ e.item?.toList else transferred h

/-- Every byte of every message was transferred. -/
def Transferred (msgs : MsgArray) (h : History) : Prop := ∀ item ∈ msgs.items, item ∈ transferred h

/-- A status error bit was read. -/
def ErrorSeen (h : History) : Prop := ∃ r v, Event.status r v ∈ h ∧ hasError v = true

/-- The engine aborted the transfer. -/
def Aborted (msgs : MsgArray) (h : History) : Prop := ∃ p, p.array = msgs ∧ Event.aborted p ∈ h

/-- An address word of the transfer was written. -/
def Addressed (msgs : MsgArray) (h : History) : Prop :=
  ∃ p w, p.array = msgs ∧ Event.address p w ∈ h

/-- Since an address word was written with the clock on, the bus was not recovered and the clock
    not stopped. -/
def busHeld (msgs : MsgArray) : History → Bool
  | []                => false
  | .address p _ :: h => decide (p.array = msgs) && clkEnabled h || busHeld msgs h
  | .pinLow _ :: _    => false
  | .clk on :: h      => on && busHeld msgs h
  | _ :: h            => busHeld msgs h

/-- The controller keeps `I2C_STATUS_BUS_ACTIVE` set from the first address word until the
    transfer ends, completely or with an error, or the bus is recovered, or the clock stopped. -/
def HoldsBus (b : Board) (msgs : MsgArray) : Prop :=
  ∀ h, busHeld msgs h = true → ¬ Transferred msgs h → ¬ ErrorSeen h →
    busActive (b.status h) = true

/-! ### What the result should be -/

/-- The call returns `num` exactly if every byte was transferred and no error bit was read, and
    otherwise a negative value. -/
def TruthfulResult (msgs : MsgArray) (ret : Int) (h : History) : Prop :=
  (ret = msgs.num ↔ Transferred msgs h ∧ ¬ ErrorSeen h) ∧
    (¬ (Transferred msgs h ∧ ¬ ErrorSeen h) → ret < 0)

/-! ### When it is -/

/-- How often the second wait has read an active bus. -/
def activeReads (msgs : MsgArray) (h : History) : Nat :=
  h.countP fun e => match e with
    | .status (.wait call .second) v => decide (call = msgs) && busActive v
    | _                              => false

/-- The second wait has exhausted its retries. -/
def Exhausted (msgs : MsgArray) (h : History) : Prop := 200 ≤ activeReads msgs h

/-- The second wait has read an idle bus before any address word was written. -/
def EarlyIdle (msgs : MsgArray) (h : History) : Prop :=
  ∃ v h', (.status (.wait msgs .second) v :: h') <:+ h ∧ busActive v = false ∧
    ¬ Addressed msgs h'

/-- The engine aborted the transfer before the call took the result from `dev.ret`. -/
def Noticed (msgs : MsgArray) (h : History) : Prop :=
  ∃ r h', (.taken msgs r :: h') <:+ h ∧ Aborted msgs h'

/-- The call took no result from `dev.ret`: the bus could not be recovered before the transfer. -/
def GaveUp (msgs : MsgArray) (h : History) : Prop := ∀ r, Event.taken msgs r ∉ h

/-- The call takes notice of what happened: it gave up before the transfer, or the engine read an
    error in time, or there was none and the wait ended with the transfer, which left no stale
    `timeout`. -/
def Heeded (msgs : MsgArray) (timeout : Int) (h : History) : Prop :=
  GaveUp msgs h ∨ Noticed msgs h ∨
    ¬ ErrorSeen h ∧ ¬ Exhausted msgs h ∧ ¬ EarlyIdle msgs h ∧
      (timeout ≠ errTimedOut ∨ Event.done ∈ h)

/-- No interrupt comes between the stores of the set-up and the end of the first run of the
    engine. -/
structure SetUpUndisturbed (b : Board) : Prop where
  setup : ∀ k h, 1 ≤ k → b.irqs (.setup k) h = 0
  engine : ∀ k h, k ≠ 0 → b.irqs (.engine k) h = 0

/-! ### Deciding it -/

section Decidable

variable (msgs : MsgArray) (h : History)

instance : Decidable (Transferred msgs h) :=
  inferInstanceAs (Decidable (∀ item ∈ msgs.items, item ∈ transferred h))

instance : Decidable (Exhausted msgs h) := inferInstanceAs (Decidable (200 ≤ activeReads msgs h))

/-- A status value with an error bit. -/
def Event.isError : Event → Bool
  | .status _ v => hasError v
  | _           => false

instance : Decidable (ErrorSeen h) :=
  decidable_of_iff (∃ e ∈ h, e.isError = true) <| by
    constructor
    · intro hex
      obtain ⟨e, hmem, he⟩ := hex
      cases e with
      | status r v => exact ⟨r, v, hmem, he⟩
      | _          => exact Bool.noConfusion he
    · intro hex
      obtain ⟨r, v, hmem, hv⟩ := hex
      exact ⟨_, hmem, hv⟩

/-- An address word of the array. -/
def Event.addresses (msgs : MsgArray) : Event → Bool
  | .address p _ => decide (p.array = msgs)
  | _            => false

instance : Decidable (Addressed msgs h) :=
  decidable_of_iff (∃ e ∈ h, e.addresses msgs = true) <| by
    constructor
    · intro hex
      obtain ⟨e, hmem, he⟩ := hex
      cases e with
      | address p w => exact ⟨p, w, of_decide_eq_true he, hmem⟩
      | _           => exact Bool.noConfusion he
    · intro hex
      obtain ⟨p, w, hp, hmem⟩ := hex
      exact ⟨_, hmem, decide_eq_true hp⟩

/-- The history ends with the second wait reading an idle bus before any address word. -/
def endsEarly (msgs : MsgArray) : History → Bool
  | .status (.wait call .second) v :: h =>
      decide (call = msgs) && !busActive v && !decide (Addressed msgs h)
  | _ => false

instance : Decidable (EarlyIdle msgs h) :=
  decidable_of_iff (∃ l ∈ h.tails, endsEarly msgs l = true) <| by
    constructor
    · intro hex
      obtain ⟨l, hl, hearly⟩ := hex
      unfold endsEarly at hearly
      split at hearly
      · simp only [Bool.and_eq_true, decide_eq_true_eq, Bool.not_eq_true', decide_eq_false_iff_not]
          at hearly
        obtain ⟨⟨rfl, hidle⟩, haddr⟩ := hearly
        exact ⟨_, _, (List.mem_tails _ _).mp hl, hidle, haddr⟩
      · exact Bool.noConfusion hearly
    · intro hex
      obtain ⟨v, h', hsuffix, hidle, haddr⟩ := hex
      refine ⟨.status (.wait msgs .second) v :: h', (List.mem_tails _ _).mpr hsuffix, ?_⟩
      simp [endsEarly, hidle, haddr]

end Decidable

/-! ### Histories grow -/

variable {msgs : MsgArray} {h : History}

theorem Transferred.cons (e : Event) (hh : Transferred msgs h) : Transferred msgs (e :: h) := by
  intro item hitem
  have hold := hh item hitem
  show item ∈ if clkEnabled h then transferred h ++ e.item?.toList else transferred h
  split
  · exact List.mem_append_left _ hold
  · exact hold

theorem ErrorSeen.cons (e : Event) (hh : ErrorSeen h) : ErrorSeen (e :: h) := by
  obtain ⟨r, v, hmem, hv⟩ := hh
  exact ⟨r, v, List.mem_cons_of_mem _ hmem, hv⟩

theorem Exhausted.cons (e : Event) (hh : Exhausted msgs h) : Exhausted msgs (e :: h) :=
  le_trans hh (List.Sublist.countP_le (List.sublist_cons_self e h))

theorem EarlyIdle.cons (e : Event) (hh : EarlyIdle msgs h) : EarlyIdle msgs (e :: h) := by
  obtain ⟨v, h', hsuffix, hidle⟩ := hh
  exact ⟨v, h', hsuffix.trans (List.suffix_cons e h), hidle⟩

theorem aborted_cons {e : Event} (he : ∀ p, e ≠ .aborted p) :
    Aborted msgs (e :: h) ↔ Aborted msgs h := by
  constructor
  · intro hex
    obtain ⟨p, hp, hmem⟩ := hex
    exact ⟨p, hp, List.mem_of_ne_of_mem (he p).symm hmem⟩
  · intro hex
    obtain ⟨p, hp, hmem⟩ := hex
    exact ⟨p, hp, List.mem_cons_of_mem _ hmem⟩

theorem noticed_cons {e : Event} (he : ∀ r, e ≠ .taken msgs r) :
    Noticed msgs (e :: h) ↔ Noticed msgs h := by
  constructor
  · intro hex
    obtain ⟨r, h', hsuffix, habort⟩ := hex
    rcases List.suffix_cons_iff.mp hsuffix with heq | hold
    · exact absurd (List.cons.inj heq).1.symm (he r)
    · exact ⟨r, h', hold, habort⟩
  · intro hex
    obtain ⟨r, h', hsuffix, habort⟩ := hex
    exact ⟨r, h', hsuffix.trans (List.suffix_cons e h), habort⟩

theorem done_cons {e : Event} (he : e ≠ .done) : Event.done ∈ e :: h ↔ Event.done ∈ h :=
  ⟨fun hmem => List.mem_of_ne_of_mem he.symm hmem, List.mem_cons_of_mem _⟩

/-! ### While the engine runs -/

/-- What is known while the engine runs: `dev.ret` says whether it has aborted the transfer. -/
structure Running (msgs : MsgArray) (ret : Int) (h : History) : Prop where
  clock : clkEnabled h = true
  notTaken : ∀ r, Event.taken msgs r ∉ h
  aborted : Aborted msgs h → ret = error ∧ ErrorSeen h
  clean : ¬ Aborted msgs h → ret = msgs.num
  held : Addressed msgs h → busHeld msgs h = true

/-- What `timeout` says, which was `t₀` before. -/
def Timed (t₀ timeout : Int) (h : History) : Prop :=
  ¬ ErrorSeen h → (Event.done ∈ h → timeout = 0) ∧ (Event.done ∉ h → timeout = t₀)

theorem addressed_cons {e : Event} (he : ∀ p w, e ≠ .address p w) :
    Addressed msgs (e :: h) ↔ Addressed msgs h := by
  constructor
  · intro hex
    obtain ⟨p, w, hp, hmem⟩ := hex
    exact ⟨p, w, hp, List.mem_of_ne_of_mem (he p w).symm hmem⟩
  · intro hex
    obtain ⟨p, w, hp, hmem⟩ := hex
    exact ⟨p, w, hp, List.mem_cons_of_mem _ hmem⟩

/-- An event that is neither a mark of a transfer nor an address word leaves it so, if it does
    not free the bus. -/
theorem Running.cons {ret : Int} (hh : Running msgs ret h) {e : Event}
    (haddress : ∀ p w, e ≠ .address p w) (habort : ∀ p, e ≠ .aborted p)
    (htaken : ∀ r, e ≠ .taken msgs r) (hclock : clkEnabled (e :: h) = clkEnabled h)
    (hheld : busHeld msgs (e :: h) = busHeld msgs h) : Running msgs ret (e :: h) where
  clock := hclock.trans hh.clock
  notTaken r hmem := hh.notTaken r (List.mem_of_ne_of_mem (htaken r).symm hmem)
  aborted ha := by
    obtain ⟨hret, hseen⟩ := hh.aborted ((aborted_cons habort).mp ha)
    exact ⟨hret, hseen.cons e⟩
  clean hna := hh.clean fun ha => hna ((aborted_cons habort).mpr ha)
  held ha := hheld.trans (hh.held ((addressed_cons haddress).mp ha))

theorem running_survives (msgs : MsgArray) :
    Survives (· = msgs) (fun ret _ h => Running msgs ret h) where
  push ret t h e hh he hmsg := by
    cases e with
    | address p w =>
      exact {
        clock := hh.clock
        notTaken := fun r hmem => hh.notTaken r (List.mem_of_ne_of_mem (by simp) hmem)
        aborted := fun ha => by
          obtain ⟨hret, hseen⟩ := hh.aborted ((aborted_cons (by simp)).mp ha)
          exact ⟨hret, hseen.cons _⟩
        clean := fun hna => hh.clean fun ha => hna ((aborted_cons (by simp)).mpr ha)
        held := fun _ => by simp [busHeld, hmsg p rfl, hh.clock] }
    | clk on        => exact Bool.noConfusion he
    | pinLow pin    => exact Bool.noConfusion he
    | aborted p     => exact Bool.noConfusion he
    | taken call r  => exact Bool.noConfusion he
    | _             => exact hh.cons (by simp) (by simp) (by simp) rfl rfl
  failed ret t h p v hh hown hstatus hv := {
    clock := hh.clock
    notTaken := fun r hmem => hh.notTaken r (List.mem_of_ne_of_mem (by simp) hmem)
    aborted := fun _ => ⟨rfl, ErrorSeen.cons _ ⟨.engine, v, hstatus, hv⟩⟩
    clean := fun hna => absurd ⟨p, hown, List.mem_cons_self⟩ hna
    held := fun ha => hh.held ((addressed_cons (by simp)).mp ha) }
  done ret t h hh := hh.cons (by simp) (by simp) (by simp) rfl rfl

theorem Timed.cons {t₀ timeout : Int} (hh : Timed t₀ timeout h) {e : Event} (he : e ≠ .done) :
    Timed t₀ timeout (e :: h) := by
  intro hclean
  rw [done_cons he]
  exact hh fun hseen => hclean (hseen.cons e)

theorem timed_survives (Own : MsgArray → Prop) (t₀ : Int) :
    Survives Own (fun _ timeout h => Timed t₀ timeout h) where
  push ret t h e hh he _ := hh.cons fun heq => by
    rw [heq] at he
    exact Bool.noConfusion he
  failed ret t h p v hh _ hstatus hv hclean :=
    absurd (ErrorSeen.cons _ ⟨.engine, v, hstatus, hv⟩) hclean
  done ret t h hh _ := ⟨fun _ => rfl, fun hnd => absurd List.mem_cons_self hnd⟩

/-! ### The second wait -/

/-- A busy wait that has come to `w` has ended the transfer, or was exhausted, or ended early. -/
structure Waited (msgs : MsgArray) (w : Int) (h : History) : Prop where
  exhausted : w ≠ 0 → Exhausted msgs h
  outcome : Exhausted msgs h ∨ EarlyIdle msgs h ∨ Transferred msgs h ∨ ErrorSeen h

theorem Waited.cons {w : Int} (e : Event) (hh : Waited msgs w h) : Waited msgs w (e :: h) where
  exhausted hw := (hh.exhausted hw).cons e
  outcome := by
    rcases hh.outcome with h1 | h2 | h3 | h4
    · exact Or.inl (h1.cons e)
    · exact Or.inr (Or.inl (h2.cons e))
    · exact Or.inr (Or.inr (Or.inl (h3.cons e)))
    · exact Or.inr (Or.inr (Or.inr (h4.cons e)))

/-- **The second wait.**  It is exhausted or reads an idle bus, with what is known then. -/
theorem wait_completes {b : Board} {I : World → Prop} {Y : History → Prop}
    {pre : Prog World Unit}
    (hpre : ∀ X : History → Prop, (∀ e h, X h → X (e :: h)) → Stays (fun s => I s ∧ X s.log) pre)
    (hpush : ∀ s v, I s → I (s.push (.status (.wait msgs .second) v)))
    (hidle : ∀ s, I s → busActive (b.status s.log) = false →
      Y (.status (.wait msgs .second) (b.status s.log) :: s.log)) :
    Completes I (pollNotbusy b pre (.wait msgs .second) 200)
      (fun w s => I s ∧ (w ≠ 0 → Exhausted msgs s.log) ∧ (Exhausted msgs s.log ∨ Y s.log)) := by
  have hcount : ∀ v h, busActive v = true →
      activeReads msgs (.status (.wait msgs .second) v :: h) = activeReads msgs h + 1 := by
    intro v h hv
    simp [activeReads, hv]
  refine Completes.mono (P := fun s => I s ∧ 200 ≤ 200 + activeReads msgs s.log)
    ?_ (fun s hs => ⟨hs, by omega⟩) fun _ _ hs => hs
  refine pollNotbusy_completes
    (A := fun n s => I s ∧ 200 ≤ n + activeReads msgs s.log) ?_ ?_ ?_ ?_ 200
  · intro n
    apply hpre fun h => 200 ≤ n + activeReads msgs h
    intro e h hle
    have hmono : activeReads msgs h ≤ activeReads msgs (e :: h) :=
      List.Sublist.countP_le (List.sublist_cons_self e h)
    omega
  · intro n s hboth hv
    obtain ⟨hs, hle⟩ := hboth
    refine ⟨hpush s _ hs, ?_⟩
    show 200 ≤ n + activeReads msgs (.status (.wait msgs .second) (b.status s.log) :: s.log)
    rw [hcount _ _ hv]
    omega
  · intro n s hboth hv
    obtain ⟨hs, _⟩ := hboth
    exact ⟨hpush s _ hs, fun hne => absurd rfl hne, Or.inr (hidle s hs hv)⟩
  · intro s hboth
    obtain ⟨hs, hle⟩ := hboth
    have hexhausted : Exhausted msgs s.log := by
      show 200 ≤ activeReads msgs s.log
      omega
    exact ⟨hs, fun _ => hexhausted, Or.inl hexhausted⟩

/-- When the second wait reads an idle bus after an address word, the transfer has ended. -/
theorem idle_outcome {b : Board} (hholds : HoldsBus b msgs)
    (hheld : Addressed msgs h → busHeld msgs h = true) (hidle : busActive (b.status h) = false) :
    EarlyIdle msgs (.status (.wait msgs .second) (b.status h) :: h) ∨
      Transferred msgs (.status (.wait msgs .second) (b.status h) :: h) ∨
      ErrorSeen (.status (.wait msgs .second) (b.status h) :: h) := by
  by_cases haddr : Addressed msgs h
  · by_cases htrans : Transferred msgs h
    · exact Or.inr (Or.inl (htrans.cons _))
    · by_cases herror : ErrorSeen h
      · exact Or.inr (Or.inr (herror.cons _))
      · -- the controller would still hold the bus
        rw [hholds h (hheld haddr) htrans herror] at hidle
        exact Bool.noConfusion hidle
  · exact Or.inl ⟨_, h, List.suffix_refl _, hidle, haddr⟩

/-! ### After the result has been taken -/

/-- What is known when the wait has come to `w` and `r` has been taken from `dev.ret`. -/
structure Taken (msgs : MsgArray) (w r : Int) (h : History) : Prop where
  taken : Event.taken msgs r ∈ h
  noticed : Noticed msgs h → r = error ∧ ErrorSeen h
  unnoticed : ¬ Noticed msgs h → r = msgs.num
  waited : Waited msgs w h

/-- Only taking a result again could change that. -/
theorem Taken.cons {w r : Int} (hh : Taken msgs w r h) {e : Event}
    (htaken : ∀ r, e ≠ .taken msgs r) : Taken msgs w r (e :: h) where
  taken := List.mem_cons_of_mem _ hh.taken
  noticed hn := by
    obtain ⟨hr, hseen⟩ := hh.noticed ((noticed_cons htaken).mp hn)
    exact ⟨hr, hseen.cons e⟩
  unnoticed hn := hh.unnoticed fun hn' => hn ((noticed_cons htaken).mpr hn')
  waited := hh.waited.cons e

/-- The abort that is noticed is the one before the result is taken. -/
theorem noticed_taken {r : Int} (hnone : ∀ r, Event.taken msgs r ∉ h) :
    Noticed msgs (.taken msgs r :: h) ↔ Aborted msgs h := by
  constructor
  · intro hex
    obtain ⟨r', h', hsuffix, habort⟩ := hex
    rcases List.suffix_cons_iff.mp hsuffix with heq | hold
    · rwa [(List.cons.inj heq).2] at habort
    · exact absurd (hold.subset List.mem_cons_self) (hnone r')
  · exact fun habort => ⟨r, h, List.suffix_refl _, habort⟩

/-- Taking the result. -/
theorem taken_of_running {w r : Int} (hrun : Running msgs r h) (hwait : Waited msgs w h) :
    Taken msgs w r (.taken msgs r :: h) where
  taken := List.mem_cons_self
  noticed hn := by
    obtain ⟨hr, hseen⟩ := hrun.aborted ((noticed_taken hrun.notTaken).mp hn)
    exact ⟨hr, hseen.cons _⟩
  unnoticed hn := hrun.clean fun ha => hn ((noticed_taken hrun.notTaken).mpr ha)
  waited := hwait.cons _

/-- `dev.msg` is cleared, and the result has been taken. -/
structure Settled (msgs : MsgArray) (t₀ w r : Int) (s : World) : Prop where
  msg : s.dev.msg = none
  taken : Taken msgs w r s.log
  timed : Timed t₀ s.timeout s.log

theorem Settled.push {t₀ w r : Int} {s : World} (hs : Settled msgs t₀ w r s) {e : Event}
    (he : e.isQuiet = true) : Settled msgs t₀ w r (s.push e) where
  msg := hs.msg
  taken := hs.taken.cons fun r heq => by
    rw [heq] at he
    exact Bool.noConfusion he
  timed := hs.timed.cons fun heq => by
    rw [heq] at he
    exact Bool.noConfusion he

theorem settled_isr (b : Board) (t₀ w r : Int) : Stays (Settled msgs t₀ w r) (isr b) :=
  fun _ hs => ⟨_, _, isr_atRest hs.msg, hs.push rfl⟩

/-! ### The verdict -/

theorem MsgArray.num_pos (msgs : MsgArray) : 0 < msgs.num := by
  have hlen := List.length_pos_of_ne_nil msgs.nonempty
  show (0 : Int) < msgs.msgs.length
  omega

/-- A negative result is truthful if the transfer failed. -/
theorem truthful_of_negative {ret : Int} (hneg : ret < 0)
    (hfailed : ¬ (Transferred msgs h ∧ ¬ ErrorSeen h)) : TruthfulResult msgs ret h := by
  have hnum := msgs.num_pos
  exact ⟨⟨fun heq => by omega, fun hok => absurd hok hfailed⟩, fun _ => hneg⟩

/-- With the bus free, the verdict is truthful where it is heeded. -/
theorem Settled.verdict_truthful {t₀ w r : Int} {s : World} (hs : Settled msgs t₀ w r s)
    (hheeded : Heeded msgs t₀ s.log) :
    TruthfulResult msgs (if s.timeout = errTimedOut then errTimedOut else r) s.log := by
  rcases hheeded with hgave | hnoticed | ⟨hclean, hwaited, hearly, hstale⟩
  · exact absurd hs.taken.taken (hgave r)
  · obtain ⟨rfl, hseen⟩ := hs.taken.noticed hnoticed
    apply truthful_of_negative
    · split
      · decide
      · decide
    · exact fun hok => hok.2 hseen
  · have hr : r = msgs.num := hs.taken.unnoticed fun hn => hclean (hs.taken.noticed hn).2
    obtain ⟨hin, hout⟩ := hs.timed hclean
    have htimeout : s.timeout ≠ errTimedOut := by
      by_cases hdone : Event.done ∈ s.log
      · rw [hin hdone]
        decide
      · rw [hout hdone]
        exact hstale.resolve_right hdone
    have htrans : Transferred msgs s.log := by
      rcases hs.taken.waited.outcome with h1 | h2 | h3 | h4
      · exact absurd h1 hwaited
      · exact absurd h2 hearly
      · exact h3
      · exact absurd h4 hclean
    rw [if_neg htimeout, hr]
    exact ⟨⟨fun _ => ⟨htrans, hclean⟩, fun _ => rfl⟩,
      fun hfailed => absurd ⟨htrans, hclean⟩ hfailed⟩

/-- Without it the result that was taken is truthful where it is heeded. -/
theorem Settled.truthful_of_busy {t₀ w r : Int} {s : World} (hs : Settled msgs t₀ w r s)
    (hw : w ≠ 0) (hheeded : Heeded msgs t₀ s.log) : TruthfulResult msgs r s.log := by
  rcases hheeded with hgave | hnoticed | ⟨_, hwaited, _⟩
  · exact absurd hs.taken.taken (hgave r)
  · obtain ⟨rfl, hseen⟩ := hs.taken.noticed hnoticed
    exact truthful_of_negative (by decide) fun hok => hok.2 hseen
  · exact absurd (hs.taken.waited.exhausted hw) hwaited

/-- The verdict. -/
def Judged (msgs : MsgArray) (t₀ ret : Int) (s : World) : Prop :=
  ∃ w r, Settled msgs t₀ w r s ∧ ret = if s.timeout = errTimedOut then errTimedOut else r

theorem Judged.push {t₀ ret : Int} {s : World} (hs : Judged msgs t₀ ret s) {e : Event}
    (he : e.isQuiet = true) : Judged msgs t₀ ret (s.push e) := by
  obtain ⟨w, r, hsettled, hret⟩ := hs
  exact ⟨w, r, hsettled.push he, hret⟩

theorem judged_isr (b : Board) (t₀ ret : Int) : Stays (Judged msgs t₀ ret) (isr b) := by
  intro s h
  obtain ⟨w, r, hsettled, hret⟩ := h
  exact ⟨_, _, isr_atRest hsettled.msg, w, r, hsettled.push rfl, hret⟩

/-! ### The call -/

/-- A poll leaves the clock as it is. -/
theorem clkEnabled_cons {e : Event} (he : e.isPoll = true) :
    clkEnabled (e :: h) = clkEnabled h := by
  cases e <;> first | rfl | exact Bool.noConfusion he

/-- Before the set-up: no message is set, and nothing was transferred. -/
structure Waiting (t₀ : Int) (s : World) : Prop where
  msg : s.dev.msg = none
  timeout : s.timeout = t₀
  quiet : ∀ e ∈ s.log, e.isQuiet = true

theorem Waiting.push {t₀ : Int} {s : World} {e : Event} (hs : Waiting t₀ s)
    (he : e.isQuiet = true) : Waiting t₀ (s.push e) where
  msg := hs.msg
  timeout := hs.timeout
  quiet := List.forall_mem_cons.mpr ⟨he, hs.quiet⟩

theorem waiting_isr (b : Board) (t₀ : Int) : Stays (Waiting t₀) (isr b) :=
  fun _ hs => ⟨_, _, isr_atRest hs.msg, hs.push rfl⟩

/-- The same with the clock on. -/
def Clocked (t₀ : Int) (s : World) : Prop := Waiting t₀ s ∧ clkEnabled s.log = true

theorem Clocked.push {t₀ : Int} {s : World} {e : Event} (hs : Clocked t₀ s)
    (he : e.isPoll = true) : Clocked t₀ (s.push e) :=
  ⟨hs.1.push (Event.quiet_of_poll he), (clkEnabled_cons he).trans hs.2⟩

theorem clocked_isr (b : Board) (t₀ : Int) : Stays (Clocked t₀) (isr b) :=
  fun _ hs => ⟨_, _, isr_atRest hs.1.msg, hs.push rfl⟩

/-- Nothing is transferred without an event for it. -/
theorem not_transferred_of_quiet (hquiet : ∀ e ∈ h, e.isQuiet = true) : ¬ Transferred msgs h := by
  have hnone : transferred h = [] := by
    induction h with
    | nil => rfl
    | cons e h ih =>
      have hold := ih fun e' he' => hquiet e' (List.mem_cons_of_mem _ he')
      have hitem : e.item? = none := by
        have he := hquiet e List.mem_cons_self
        cases e <;> first | rfl | exact Bool.noConfusion he
      simp [transferred, hold, hitem]
  obtain ⟨m, ms, hms⟩ := List.exists_cons_of_ne_nil msgs.nonempty
  intro htrans
  have hitem : Item.address ⟨msgs, 0⟩ ∈ msgs.items := by simp [MsgArray.items, hms]
  have := htrans _ hitem
  rw [hnone] at this
  exact List.not_mem_nil this

/-- The record when `dev.ret` has been set and `dev.cnt` not yet. -/
structure Beginning (msgs : MsgArray) (t₀ : Int) (s : World) : Prop where
  msg : s.dev.msg = some ⟨msgs, 0⟩
  rem : s.dev.rem = msgs.num
  pos : s.dev.pos = -1
  ret : s.dev.ret = msgs.num
  timeout : s.timeout = t₀
  quiet : ∀ e ∈ s.log, e.isQuiet = true
  clock : clkEnabled s.log = true

/-- What is known of `dev.ret` and `timeout` while the engine runs. -/
def Facts (msgs : MsgArray) (t₀ ret timeout : Int) (h : History) : Prop :=
  Running msgs ret h ∧ Timed t₀ timeout h

theorem facts_survives (msgs : MsgArray) (t₀ : Int) : Survives (· = msgs) (Facts msgs t₀) :=
  (running_survives msgs).and (timed_survives _ t₀)

/-- At the start nothing is known but that the record is set up. -/
theorem Beginning.running {t₀ : Int} {s : World} (hs : Beginning msgs t₀ s) :
    Sound (· = msgs) (Facts msgs t₀)
      { s with dev := { s.dev with cnt := (msgs.msgs.head msgs.nonempty).len } } := by
  have hnot : ∀ e, e.isQuiet = false → e ∉ s.log := by
    intro e he hmem
    rw [hs.quiet e hmem] at he
    exact Bool.noConfusion he
  have hrunning : Running msgs s.dev.ret s.log := {
    clock := hs.clock
    notTaken := fun r => hnot _ rfl
    aborted := fun ⟨p, _, hmem⟩ => absurd hmem (hnot _ rfl)
    clean := fun _ => hs.ret
    held := fun ⟨p, w, _, hmem⟩ => absurd hmem (hnot _ rfl) }
  exact {
    record := withinBuffers_first hs.msg hs.rem hs.pos (Or.inr rfl)
    own := by
      intro p hp
      obtain rfl : (⟨msgs, 0⟩ : MsgPtr) = p := Option.some.inj (hs.msg.symm.trans hp)
      rfl
    isolated := isolated_of_quiet hs.quiet
    facts := ⟨hrunning, fun _ => ⟨fun hd => absurd hd (hnot _ rfl), fun _ => hs.timeout⟩⟩ }

/-- **The engine in a call** runs until the wait is over and the result is taken. -/
theorem transfer_completes {b : Board} {t₀ : Int} (hholds : HoldsBus b msgs) :
    Completes (Sound (· = msgs) (Facts msgs t₀))
      (pollNotbusy b (interrupts b (.wait .second)) (.wait msgs .second) 200)
      (fun w s => Sound (· = msgs) (Facts msgs t₀) s ∧ Waited msgs w s.log) := by
  have hJ := facts_survives msgs t₀
  refine (wait_completes (Y := fun h => EarlyIdle msgs h ∨ Transferred msgs h ∨ ErrorSeen h)
    (fun X hX => interrupts_completes (sound_isr b hJ hX) _) ?_ ?_).mono (fun _ hs => hs) ?_
  · intro s v hs
    apply hs.push rfl
    exact ⟨hs.facts.1.cons (by simp) (by simp) (by simp) rfl rfl, hs.facts.2.cons (by simp)⟩
  · exact fun s hs hidle => idle_outcome hholds hs.facts.1.held hidle
  · exact fun w s ⟨hs, hexhausted, houtcome⟩ => ⟨hs, hexhausted, houtcome⟩

/-- **Taking the result** and clearing the record. -/
theorem settled_completes {b : Board} {t₀ : Int} (w : Int) :
    Completes (fun s => Sound (· = msgs) (Facts msgs t₀) s ∧ Waited msgs w s.log)
      (tearDown (interrupts b) msgs) (Settled msgs t₀ w) := by
  have hwaited : ∀ e h, Waited msgs w h → Waited msgs w (e :: h) := fun e _ hw => hw.cons e
  have htaken : ∀ r, Survives (· = msgs) (fun _ t h => Taken msgs w r h ∧ Timed t₀ t h) := by
    intro r
    apply Survives.and
    · apply Survives.history
      intro e h hh he _
      apply hh.cons
      rintro r' rfl
      exact Bool.noConfusion he
    · exact timed_survives _ t₀
  have hsettled : ∀ r place, Stays (Settled msgs t₀ w r) (interrupts b place) :=
    fun r => interrupts_completes (settled_isr b t₀ w r)
  refine tearDown_completes
    (B := fun r => Sound (· = msgs) fun _ t h => Taken msgs w r h ∧ Timed t₀ t h)
    (C := fun _ => Settled msgs t₀ w) ?_ ?_ ?_ ?_ (fun _ r _ _ => hsettled r _) ?_ ?_ ?_ ?_ ?_
  · exact interrupts_completes (sound_isr b (facts_survives msgs t₀) hwaited) _
  · intro s hboth
    obtain ⟨hs, hw⟩ := hboth
    exact {
      record := hs.record
      own := hs.own
      isolated := hs.isolated.cons fun _ _ hnone => nomatch hnone
      facts := ⟨taken_of_running hs.facts.1 hw, hs.facts.2.cons (by simp)⟩ }
  · exact fun r => interrupts_completes (sound_rule b (htaken r)).isr _
  · exact fun r s hs => ⟨rfl, hs.facts.1, hs.facts.2⟩
  · exact fun _ _ hs => ⟨hs.msg, hs.taken, hs.timed⟩
  · exact fun _ _ hs => ⟨hs.msg, hs.taken, hs.timed⟩
  · exact fun _ _ hs => ⟨hs.msg, hs.taken, hs.timed⟩
  · exact fun _ _ hs => ⟨hs.msg, hs.taken, hs.timed⟩
  · exact fun _ _ hs => ⟨hs.msg, hs.taken, hs.timed⟩

/-- **Truthful results.**  A call that is not disturbed while it sets up returns, and where it
    takes notice of what happened its result is truthful. -/
theorem truthful (b : Board) (msgs : MsgArray) (hholds : HoldsBus b msgs)
    (hsetup : SetUpUndisturbed b) (s : World) (hrest : s.dev.msg = none) (hlog : s.log = []) :
    ∃ ret s', xfer b (interrupts b) msgs s = (some ret, s') ∧
      (Heeded msgs s.timeout s'.log → TruthfulResult msgs ret s'.log) := by
  have hstart : Waiting s.timeout s := ⟨hrest, rfl, by simp [hlog]⟩
  have hwaiting : ∀ place, Stays (Waiting s.timeout) (interrupts b place) :=
    interrupts_completes (waiting_isr b _)
  have hclocked : ∀ place, Stays (Clocked s.timeout) (interrupts b place) :=
    interrupts_completes (clocked_isr b _)
  have hsettled : ∀ w r place, Stays (Settled msgs s.timeout w r) (interrupts b place) :=
    fun w r => interrupts_completes (settled_isr b _ w r)
  have hjudged : ∀ ret place, Stays (Judged msgs s.timeout ret) (interrupts b place) :=
    fun ret => interrupts_completes (judged_isr b _ ret)
  have hnothing : ∀ k, 1 ≤ k → Nothing (interrupts b (.setup k)) :=
    fun k hk => interrupts_nothing fun h => hsetup.setup k h hk
  have hengine : ∀ k, 1 ≤ k → Nothing (interrupts b (.engine k)) :=
    fun k hk => interrupts_nothing fun h => hsetup.engine k h (by omega)
  have hrule := sound_rule b (facts_survives msgs s.timeout)
  refine xfer_completes (P := Clocked s.timeout) (A := Sound (· = msgs) (Facts msgs s.timeout))
    (Q := fun ret s' => Heeded msgs s.timeout s'.log → TruthfulResult msgs ret s'.log)
    ?_ ⟨hclocked _, hclocked _, hclocked _⟩ (fun _ _ he hs' => hs'.push he) ?_ ?_ ?_ s hstart
  · exact access_completes (hwaiting .entry) fun s' hs' => ⟨hs'.push rfl, rfl⟩
  · -- the bus was not free, and nothing was transferred
    refine (finish_completes (hclocked _) (hwaiting _) (fun _ _ he hs' => hs'.push he)
      (fun s' hs' => hs'.1.push rfl) errNotReady).mono (fun _ hs' => hs') ?_
    intro ret s' hboth _
    obtain ⟨hs', rfl⟩ := hboth
    exact truthful_of_negative (by decide) fun hok => not_transferred_of_quiet hs'.quiet hok.1
  · refine setUp_completes (B := Beginning msgs s.timeout) (hclocked _)
      (fun k hk _ => hnothing k hk) ?_ (fun k hk => (hnothing k (by omega)).stays _) ?_ ?_ ?_
    · exact fun s' hs' => ⟨rfl, rfl, rfl, rfl, hs'.1.timeout, hs'.1.quiet, hs'.2⟩
    · exact fun s' hs' => ⟨hs'.msg, hs'.rem, hs'.pos, hs'.ret, hs'.timeout, hs'.quiet, hs'.clock⟩
    · exact fun s' hs' => ⟨hs'.msg, hs'.rem, hs'.pos, hs'.ret, hs'.timeout, hs'.quiet, hs'.clock⟩
    · exact fun s' hs' => hs'.running
  · refine xferRun_completes (V := Judged msgs s.timeout) ?_ (transfer_completes hholds)
      settled_completes (fun w r => ⟨hsettled w r _, hsettled w r _⟩)
      (fun _ _ _ _ he hs' => hs'.push (Event.quiet_of_poll he)) ?_
      (fun w r s' hs' => ⟨w, r, hs', rfl⟩) (fun r => hjudged r _)
      (fun _ _ _ he hs' => hs'.push (Event.quiet_of_poll he)) ?_
    · exact direct_completes (interrupts_completes hrule.isr _) hrule.status
        (fun v => (hengine 1 (Nat.le_refl 1)).stays _) (fun k hk => hengine k (by omega))
        hrule.handle
    · intro w r hw
      refine (finish_completes (hsettled w r _) (hsettled w r _)
        (fun _ _ he hs' => hs'.push (Event.quiet_of_poll he)) (fun s' hs' => hs'.push rfl) r).mono
        (fun _ hs' => hs') ?_
      intro ret s' hboth hheeded
      obtain ⟨hs', rfl⟩ := hboth
      exact hs'.truthful_of_busy hw hheeded
    · intro r
      refine (finish_completes (hjudged r _) (hjudged r _)
        (fun _ _ he hs' => hs'.push (Event.quiet_of_poll he)) (fun s' hs' => hs'.push rfl) r).mono
        (fun _ hs' => hs') ?_
      intro ret s' hex hheeded
      obtain ⟨⟨w, r', hs', hr⟩, rfl⟩ := hex
      rw [hr]
      exact hs'.verdict_truthful hheeded

/-- A write of one byte. -/
def oneByte : MsgArray := ⟨0x1000, [⟨0x2a#16, 0#16, 1, 0x2000⟩], by decide⟩

/-- Nothing under way, with the `timeout` of an earlier transfer. -/
def idle (timeout : Int) : World := ⟨⟨none, 0, 0, 0, 0, false, 0⟩, timeout, fun _ => 0x55#8, []⟩

/-- A controller that takes every word, and interrupts in the second wait and after it. -/
def promptController (msgs : MsgArray) : Board where
  status h := if busHeld msgs h = true ∧ ¬ Transferred msgs h then statusBusActive else 0#32
  data _ := 0#8
  pin _ _ := true
  irqs place _ :=
    match place with
    | .wait .second => 1
    | .teardown 0   => 1
    | _             => 0

theorem promptController_holds (msgs : MsgArray) : HoldsBus (promptController msgs) msgs := by
  intro h hheld htrans _
  have hstatus : (promptController msgs).status h = statusBusActive := if_pos ⟨hheld, htrans⟩
  rw [hstatus]
  rfl

theorem promptController_undisturbed (msgs : MsgArray) :
    SetUpUndisturbed (promptController msgs) :=
  ⟨fun _ _ _ => rfl, fun _ _ _ => rfl⟩

/-- The call on it, after a transfer that has timed out. -/
def oneByteRun : Option Int × World :=
  xfer (promptController oneByte) (interrupts (promptController oneByte)) oneByte
    (idle errTimedOut)

/-- It returns `num`, and truly so. -/
theorem oneByte_truthful :
    ∃ s', oneByteRun = (some 1, s') ∧ TruthfulResult oneByte 1 s'.log := by
  obtain ⟨ret, s', hrun, htruth⟩ := truthful (promptController oneByte) oneByte
    (promptController_holds _) (promptController_undisturbed _) (idle errTimedOut) rfl rfl
  have hret : oneByteRun.1 = some 1 := by decide
  have hlog : ¬ ErrorSeen oneByteRun.2.log ∧ ¬ Exhausted oneByte oneByteRun.2.log ∧
      ¬ EarlyIdle oneByte oneByteRun.2.log ∧ .done ∈ oneByteRun.2.log := by decide
  have heq : oneByteRun = (some ret, s') := hrun
  rw [heq] at hret hlog
  obtain rfl : ret = 1 := Option.some.inj hret
  obtain ⟨hclean, hwaited, hearly, hdone⟩ := hlog
  exact ⟨s', heq, htruth (Or.inr (Or.inr ⟨hclean, hwaited, hearly, Or.inr hdone⟩))⟩

/-- A controller whose write buffer is full when the transfer begins, and that then does
    nothing. -/
def fullController (msgs : MsgArray) : Board where
  status h := if busHeld msgs h then statusBusActive else statusWrBufferFull
  data _ := 0#8
  pin _ _ := true
  irqs _ _ := 0

theorem fullController_holds (msgs : MsgArray) : HoldsBus (fullController msgs) msgs := by
  intro h hheld _ _
  have hstatus : (fullController msgs).status h = statusBusActive := if_pos hheld
  rw [hstatus]
  rfl

/-- Every call on the controller has a truthful result. -/
def AlwaysTruthful (b : Board) (msgs : MsgArray) : Prop :=
  ∀ s, s.dev.msg = none → s.log = [] → ∀ ret s',
    xfer b (interrupts b) msgs s = (some ret, s') → TruthfulResult msgs ret s'.log

/-- The call on it. -/
def fullRun : Option Int × World :=
  xfer (fullController oneByte) (interrupts (fullController oneByte)) oneByte (idle 0)

/-- With a full write buffer the call returns `num`, and nothing was transferred. -/
theorem fullController_not_truthful :
    HoldsBus (fullController oneByte) oneByte ∧
      ¬ AlwaysTruthful (fullController oneByte) oneByte := by
  refine ⟨fullController_holds _, fun h => ?_⟩
  have hret : fullRun.1 = some 1 := by decide
  have hlog : ¬ Transferred oneByte fullRun.2.log := by decide
  have htruth := h (idle 0) rfl rfl 1 fullRun.2 (Prod.ext hret rfl)
  exact hlog (htruth.1.mp rfl).1

end HtcLeo.I2c

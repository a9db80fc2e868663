import HtcLeo.Gpio.Banks

namespace HtcLeo.Gpio

open BitMask

/-!
# GpioDxe — the interrupt routine

`MsmGpioIsr` of `Drivers/GpioDxe/GpioDxe.c`, which clears the interrupts that are pending and
enabled, and after each of them sets the polarity of the pins of its bank from their levels.

* `Pins` — what the pins do while the routine runs, and what a misaligned read does.
* `msmGpioIsr` — the routine, with the functions it calls.
* `Pending`, `Found` — the interrupts that are pending and enabled, and those the routine takes
  for such; `found_eq_pending` says that they differ in bank 6 alone.
* `PolarityRead` — the iterations of `msm_gpio_update_both_edge_detect` that take place.
* `msmGpioIsr_spec` — where misaligned reads are made, the routine ends; what it clears; which
  polarity bits it sets.  `msmGpioIsr_stops` — where they are not, it does not end.
* `isr_frame_iff` — it clears the right interrupts, and leaves the polarity of the other pins
  alone, exactly when misaligned reads are made, the status of bank 6 agrees with itself eight
  bits lower, and every other pin with polarity 0 reads as 1 whenever the routine reads the
  levels of its bank.
-/

/-! ### The routine -/

/-- What the pins do while the routine runs: for the loop of `msm_gpio_update_both_edge_detect`
    for a pin, and each of its iterations, the two values it reads from `in`, and the interrupts
    its bank has latched since its status was first read.  Where `lax`, a misaligned read is
    made; else it stops the processor, by the assertion of `MmioRead32` or by a fault. -/
structure Pins where
  val : Nat → Nat → U32
  val2 : Nat → Nat → U32
  latched : Nat → Nat → U32
  lax : Bool

/-- `loop_limit` before the first iteration. -/
def loopLimit : Nat := 100

/-- The value of `in` in a bank. -/
def readPins (i : Nat) (v : U32) : U32 := v &&& pinMask i

/-- `readl (r->int_status)`, when the interrupts `new` have been latched. -/
def readStatus (pins : Pins) (i : Nat) (new : U32) : Prog Tlmm U32 := fun t =>
  if statusOff i = 0 ∨ pins.lax = true then
    (some (readl i .intStatus (t.store i .intStatus (t.regs i .intStatus ||| new))), t)
  else (none, t)

/-- An iteration of `msm_gpio_update_both_edge_detect`, for the value of `loop_limit`. -/
def bothEdgeIteration (pins : Pins) (gpio i limit : Nat) : Prog Tlmm (Nat ⊕ Unit) := do
  let n := loopLimit - limit
  let val := readPins i (pins.val gpio n)
  let pol ← Prog.query fun t => (readl i .intPos t, t)
  Prog.modify (writel i .intPos (pol ||| ~~~val))
  let intstat ← readStatus pins i (pins.latched gpio n)
  let val2 := readPins i (pins.val2 gpio n)
  if (val ^^^ val2) &&& ~~~intstat = 0#32 then return .inr ()
  else if 0 < limit then return .inl (limit - 1)
  else return .inr ()  -- failed to reach stable state

/-- `msm_gpio_update_both_edge_detect`. -/
def msmGpioUpdateBothEdgeDetect (pins : Pins) (fuel gpio : Nat) : Prog Tlmm Unit :=
  match findGpio gpio with
  | none => pure ()
  | some (i, _) => Prog.loop (bothEdgeIteration pins gpio i) fuel loopLimit

/-- `msm_gpio_irq_clear`. -/
def msmGpioIrqClear (gpio : Nat) : Prog Tlmm Unit :=
  match findGpio gpio with
  | none => pure ()
  | some (i, b) => Prog.modify (writel i .intClear b)

/-- `msm_gpio_irq_ack`. -/
def msmGpioIrqAck (pins : Pins) (fuel gpio : Nat) : Prog Tlmm Unit := do
  msmGpioIrqClear gpio
  msmGpioUpdateBothEdgeDetect pins fuel gpio

/-- The body of the loop of `MsmGpioIsr`: a bank. -/
def isrBank (pins : Pins) (fuel i : Nat) : Prog Tlmm Unit := do
  let s ← readStatus pins i 0#32
  let e ← Prog.query fun t => (readl i .intEn t, t)
  forM (List.range 32) fun j =>
    if e &&& s &&& 1#32 <<< j ≠ 0#32 then msmGpioIrqAck pins fuel ((bank i).start + j)
    else pure ()

/-- `MsmGpioIsr`. -/
def msmGpioIsr (pins : Pins) (fuel : Nat) : Prog Tlmm Unit :=
  forM (List.range gpioRegs.length) (isrBank pins fuel)

/-! ### What the routine sees -/

/-- The registers of a bank. -/
abbrev BankRegs := GpioReg → U32

/-- The pin's interrupt is pending and enabled. -/
def Pending (b : BankRegs) (i p : Nat) : Bool :=
  (b .intEn).getLsbD p && (b .intStatus).getLsbD p && decide (HasPin i p)

/-- The routine finds the pin's interrupt pending and enabled. -/
def Found (b : BankRegs) (i p : Nat) : Bool :=
  (b .intEn).getLsbD p && (decide (statusShift i ≤ p) &&
    (b .intStatus).getLsbD (p - statusShift i)) && decide (HasPin i p)

/-- After an iteration of the loop for bit `j`, the levels differ only where the status shows an
    interrupt: a new one, or one of the first that has not been cleared so far. -/
def Settled (pins : Pins) (b : BankRegs) (i j n : Nat) : Prop :=
  let gpio := (bank i).start + j
  ∀ p, HasPin i p → (pins.val gpio n).getLsbD p ≠ (pins.val2 gpio n).getLsbD p →
    statusShift i ≤ p ∧
      (((b .intStatus).getLsbD (p - statusShift i) = true ∧
          ¬ (p - statusShift i ≤ j ∧ Found b i (p - statusShift i) = true)) ∨
        (pins.latched gpio n).getLsbD (p - statusShift i) = true)

/-- The iteration takes place: the limit is not reached, and no iteration has settled. -/
def PolarityRead (pins : Pins) (b : BankRegs) (i j n : Nat) : Prop :=
  n ≤ loopLimit ∧ ∀ n' < n, ¬ Settled pins b i j n'

/-- The pin reads low when the polarity is computed, in the loop for some pin found before
    bit `bound`. -/
def LowSeen (pins : Pins) (b : BankRegs) (i bound p : Nat) : Prop :=
  ∃ j < bound, Found b i j = true ∧ ∃ n, PolarityRead pins b i j n ∧
    (pins.val ((bank i).start + j) n).getLsbD p = false

/-- The pending pins before bit `bound`. -/
def pendingBits (b : BankRegs) (i bound : Nat) : List Nat :=
  (List.range bound).filter (Pending b i)

/-- The pins found before bit `bound`. -/
def foundBits (b : BankRegs) (i bound : Nat) : List Nat := (List.range bound).filter (Found b i)

/-- Outside bank 6 the routine finds what is pending. -/
theorem found_eq_pending (b : BankRegs) {i : Nat} (hi : i ≠ 6) (p : Nat) :
    Found b i p = Pending b i p := by
  simp [Found, Pending, statusShift, hi]

/-! ### One loop -/

theorem store_store (i : Nat) (r : GpioReg) (v v' : U32) (t : Tlmm) :
    (t.store i r v).store i r v' = t.store i r v' := by
  simp only [Tlmm.store, Tlmm.mk.injEq, and_true]
  funext i' r'
  split <;> rfl

/-- Reading the status, where misaligned reads are made. -/
theorem readStatus_apply {pins : Pins} (hlax : pins.lax = true) {i : Nat} (hi : i < 8) (new : U32)
    (t : Tlmm) : ∃ w : U32, readStatus pins i new t = (some w, t) ∧
      ∀ p, HasPin i p → w.getLsbD p = (decide (statusShift i ≤ p) &&
        (t.bit i .intStatus (p - statusShift i) || new.getLsbD (p - statusShift i))) := by
  refine ⟨_, if_pos (Or.inr hlax), fun p hp => ?_⟩
  rw [getLsbD_readl_intStatus hi hp]
  simp [Tlmm.bit]

/-- The test of an iteration. -/
theorem settled_iff (pins : Pins) {b : BankRegs} {i j n : Nat} (hi : i < 8) {t : Tlmm}
    (hstatus : ∀ p, HasPin i p → t.bit i .intStatus p
      = ((b .intStatus).getLsbD p && !(decide (p ≤ j) && Found b i p))) {intstat : U32}
    (hintstat : ∀ p, HasPin i p → intstat.getLsbD p = (decide (statusShift i ≤ p) &&
      (t.bit i .intStatus (p - statusShift i) ||
        (pins.latched ((bank i).start + j) n).getLsbD (p - statusShift i)))) :
    (readPins i (pins.val ((bank i).start + j) n)
        ^^^ readPins i (pins.val2 ((bank i).start + j) n)) &&& ~~~intstat = 0#32
      ↔ Settled pins b i j n := by
  -- the test looks at the bits of pins, one by one
  have hbit : ∀ p, ((readPins i (pins.val ((bank i).start + j) n)
        ^^^ readPins i (pins.val2 ((bank i).start + j) n)) &&& ~~~intstat).getLsbD p
      = (decide (HasPin i p) && ((pins.val ((bank i).start + j) n).getLsbD p
          ^^ (pins.val2 ((bank i).start + j) n).getLsbD p) && !intstat.getLsbD p) := by
    intro p
    simp only [readPins, BitVec.getLsbD_and, BitVec.getLsbD_xor, BitVec.getLsbD_not,
      getLsbD_pinMask p hi]
    by_cases hp : HasPin i p
    · simp only [hp, hp.lt hi, decide_true, Bool.and_true, Bool.true_and]
    · simp only [hp, decide_false, Bool.and_false, Bool.false_and, Bool.xor_false]
  have hbelow : ∀ p, HasPin i p → HasPin i (p - statusShift i) :=
    fun p hp => Nat.le_trans (Nat.sub_le _ _) hp
  rw [eq_zero_iff_getLsbD]
  constructor
  · intro h p hp hne
    have hclear := h p
    rw [hbit, hintstat p hp, hstatus _ (hbelow p hp)] at hclear
    by_contra hnot
    rw [not_and_or, not_or] at hnot
    rcases hnot with hlow | hquiet <;> simp_all
  · intro h p
    rw [hbit]
    by_cases hp : HasPin i p
    · rw [hintstat p hp, hstatus _ (hbelow p hp)]
      by_cases hne : (pins.val ((bank i).start + j) n).getLsbD p
          = (pins.val2 ((bank i).start + j) n).getLsbD p
      · simp [hne]
      · obtain ⟨hshift, ⟨hset, hleft⟩ | hnew⟩ := h p hp hne
        · have hkept :
              (decide (p - statusShift i ≤ j) && Found b i (p - statusShift i)) = false := by
            rw [Bool.and_eq_false_imp, decide_eq_true_eq]
            exact fun hle => Bool.eq_false_of_not_eq_true fun hfound => hleft ⟨hle, hfound⟩
          simp only [hshift, hset, hkept, decide_true, Bool.not_false, Bool.and_self, Bool.true_or,
            Bool.not_true, Bool.and_false]
        · simp [hshift, hnew]
    · simp [hp]

/-- An iteration writes the polarity, and ends the loop when the levels have settled or the limit
    is reached. -/
theorem bothEdgeIteration_apply {pins : Pins} (hlax : pins.lax = true) {b : BankRegs}
    {i j n : Nat} (hi : i < 8) (hn : n ≤ loopLimit) {t : Tlmm}
    (hstatus : ∀ p, HasPin i p → t.bit i .intStatus p
      = ((b .intStatus).getLsbD p && !(decide (p ≤ j) && Found b i p))) :
    ∃ (v : U32) (r : Nat ⊕ Unit),
      bothEdgeIteration pins ((bank i).start + j) i (loopLimit - n) t
        = (some r, t.store i .intPos v) ∧
      (∀ p, HasPin i p → (v.getLsbD p = true ↔ t.bit i .intPos p = true ∨
        (pins.val ((bank i).start + j) n).getLsbD p = false)) ∧
      (r = .inr () ∧ (Settled pins b i j n ∨ n = loopLimit) ∨
        r = .inl (loopLimit - (n + 1)) ∧ ¬ Settled pins b i j n ∧ n < loopLimit) := by
  have hback : loopLimit - (loopLimit - n) = n := by omega
  obtain ⟨v, hv⟩ : ∃ v, v = readl i .intPos t ||| ~~~readPins i (pins.val ((bank i).start + j) n) :=
    ⟨_, rfl⟩
  have hbits : ∀ p, HasPin i p → (v.getLsbD p = true ↔ t.bit i .intPos p = true ∨
      (pins.val ((bank i).start + j) n).getLsbD p = false) := by
    intro p hp
    rw [hv]
    simp only [readPins, BitVec.getLsbD_or, BitVec.getLsbD_not, BitVec.getLsbD_and,
      getLsbD_readl hi (by decide : GpioReg.intPos ≠ .intStatus), getLsbD_pinMask p hi, hp,
      hp.lt hi, decide_true, Bool.and_true, Bool.true_and, Bool.or_eq_true, Bool.not_eq_true']
  -- the status is read after the polarity has been written
  obtain ⟨intstat, hread, hintstat⟩ := readStatus_apply hlax hi
    (pins.latched ((bank i).start + j) n) (t.store i .intPos v)
  have htest := settled_iff pins (b := b) (j := j) (n := n) hi (t := t.store i .intPos v)
    (by simpa [Tlmm.bit] using hstatus) hintstat
  have hrun : ∀ r, (if (readPins i (pins.val ((bank i).start + j) n)
          ^^^ readPins i (pins.val2 ((bank i).start + j) n)) &&& ~~~intstat = 0#32 then .inr ()
      else if 0 < loopLimit - n then .inl (loopLimit - n - 1) else .inr ()) = r →
      bothEdgeIteration pins ((bank i).start + j) i (loopLimit - n) t
        = (some r, t.store i .intPos v) := by
    rintro r rfl
    subst hv
    unfold bothEdgeIteration
    simp only [hback, Prog.bind_apply, Prog.query, Prog.modify, writel, hread]
    split_ifs <;> rfl
  refine ⟨v, _, hrun _ rfl, hbits, ?_⟩
  by_cases hsettled : Settled pins b i j n
  · rw [if_pos (htest.mpr hsettled)]
    exact Or.inl ⟨rfl, Or.inl hsettled⟩
  · rw [if_neg (mt htest.mp hsettled)]
    by_cases hlt : n < loopLimit
    · rw [if_pos (by omega)]
      exact Or.inr ⟨rfl, hsettled, hlt⟩
    · rw [if_neg (by omega)]
      exact Or.inl ⟨rfl, Or.inr (by omega)⟩

/-- **Loop lemma.**  From the iteration `n` on, the loop sets the polarity of the pins that read
    low, and nothing else. -/
theorem bothEdge_loop {pins : Pins} (hlax : pins.lax = true) {b : BankRegs} {i j : Nat}
    (hi : i < 8) {fuel n : Nat} (hfuel : loopLimit - n < fuel) (hn : PolarityRead pins b i j n)
    {t : Tlmm} (hstatus : ∀ p, HasPin i p → t.bit i .intStatus p
      = ((b .intStatus).getLsbD p && !(decide (p ≤ j) && Found b i p))) :
    ∃ v : U32, Prog.loop (bothEdgeIteration pins ((bank i).start + j) i) fuel (loopLimit - n) t
        = (some (), t.store i .intPos v) ∧
      ∀ p, HasPin i p → (v.getLsbD p = true ↔ t.bit i .intPos p = true ∨
        ∃ m, n ≤ m ∧ PolarityRead pins b i j m ∧
          (pins.val ((bank i).start + j) m).getLsbD p = false) := by
  induction fuel generalizing n t with
  | zero => omega
  | succ fuel ih =>
    obtain ⟨v, r, hrun, hv, hr⟩ := bothEdgeIteration_apply hlax hi hn.1 hstatus
    rcases hr with ⟨rfl, hlast⟩ | ⟨rfl, hgo, hlt⟩
    · -- the last iteration
      refine ⟨v, Prog.bind_of hrun rfl, ?_⟩
      have honly : ∀ m, n ≤ m → PolarityRead pins b i j m → m = n := by
        intro m hm hread
        by_contra hne
        rcases hlast with hsettled | hlimit
        · exact hread.2 n (by omega) hsettled
        · have hmle := hread.1
          omega
      intro p hp
      rw [hv p hp]
      constructor
      · intro h
        rcases h with hset | hlow
        · exact Or.inl hset
        · exact Or.inr ⟨n, Nat.le_refl n, hn, hlow⟩
      · intro h
        rcases h with hset | ⟨m, hm, hread, hlow⟩
        · exact Or.inl hset
        · rw [honly m hm hread] at hlow
          exact Or.inr hlow
    · -- one more
      have hnext : PolarityRead pins b i j (n + 1) := by
        refine ⟨hlt, fun n' hn' => ?_⟩
        rcases Nat.lt_succ_iff_lt_or_eq.mp hn' with hbefore | rfl
        · exact hn.2 n' hbefore
        · exact hgo
      obtain ⟨v', hrest, hv'⟩ := ih (by omega) hnext (t := t.store i .intPos v) (by
        simpa [Tlmm.bit] using hstatus)
      rw [store_store] at hrest
      refine ⟨v', Prog.bind_of hrun hrest, ?_⟩
      intro p hp
      have hbit : (t.store i .intPos v).bit i .intPos p = v.getLsbD p := by
        simp [Tlmm.bit]
      rw [hv' p hp, hbit, hv p hp]
      constructor
      · intro h
        rcases h with (hset | hlow) | ⟨m, hm, hread, hlow⟩
        · exact Or.inl hset
        · exact Or.inr ⟨n, Nat.le_refl n, hn, hlow⟩
        · exact Or.inr ⟨m, by omega, hread, hlow⟩
      · intro h
        rcases h with hset | ⟨m, hm, hread, hlow⟩
        · exact Or.inl (Or.inl hset)
        · rcases Nat.eq_or_lt_of_le hm with rfl | hafter
          · exact Or.inl (Or.inr hlow)
          · exact Or.inr ⟨m, hafter, hread, hlow⟩

/-! ### One bank -/

/-- What the loop over a bank has done before bit `bound`. -/
structure BankAfter (pins : Pins) (t₀ : Tlmm) (i bound : Nat) (t : Tlmm) : Prop where
  other : ∀ i' r, i' ≠ i ∨ r ≠ .intStatus ∧ r ≠ .intPos → t.regs i' r = t₀.regs i' r
  status : ∀ p, HasPin i p → t.bit i .intStatus p
    = (t₀.bit i .intStatus p && !(decide (p < bound) && Found (t₀.regs i) i p))
  pos : ∀ p, HasPin i p → (t.bit i .intPos p = true ↔
    t₀.bit i .intPos p = true ∨ LowSeen pins (t₀.regs i) i bound p)
  clears : t.clears
    = t₀.clears ++ (foundBits (t₀.regs i) i bound).map fun j => (i, 1#32 <<< j)

/-- The test of the loop over a bank. -/
theorem and_bit_ne_zero_iff_found {i j : Nat} (hi : i < 8) {t : Tlmm} {s : U32}
    (hs : ∀ p, HasPin i p → s.getLsbD p
      = (decide (statusShift i ≤ p) && t.bit i .intStatus (p - statusShift i))) :
    readl i .intEn t &&& s &&& 1#32 <<< j ≠ 0#32 ↔ Found (t.regs i) i j = true := by
  rw [Ne, and_bit_eq_zero_iff]
  simp only [BitVec.getLsbD_and, getLsbD_readl hi (by decide : GpioReg.intEn ≠ .intStatus), Found]
  by_cases hp : HasPin i j
  · rw [hs j hp]
    simp [hp, Tlmm.bit]
  · simp [hp]

theorem foundBits_succ (b : BankRegs) (i j : Nat) :
    foundBits b i (j + 1) = foundBits b i j ++ if Found b i j then [j] else [] := by
  simp only [foundBits, List.range_succ, List.filter_append, List.filter_cons, List.filter_nil]

theorem lowSeen_succ {pins : Pins} {b : BankRegs} {i j p : Nat} :
    LowSeen pins b i (j + 1) p ↔ LowSeen pins b i j p ∨ Found b i j = true ∧
      ∃ n, PolarityRead pins b i j n ∧
        (pins.val ((bank i).start + j) n).getLsbD p = false := by
  constructor
  · intro h
    obtain ⟨j', hj', hrest⟩ := h
    rcases Nat.lt_succ_iff_lt_or_eq.mp hj' with hlt | rfl
    · exact Or.inl ⟨j', hlt, hrest⟩
    · exact Or.inr hrest
  · intro h
    rcases h with ⟨j', hj', hrest⟩ | hrest
    · exact ⟨j', Nat.lt_succ_of_lt hj', hrest⟩
    · exact ⟨j, Nat.lt_succ_self j, hrest⟩

/-- A bit without an interrupt found is passed over. -/
theorem BankAfter.skip {pins : Pins} {t₀ t : Tlmm} {i j : Nat} (h : BankAfter pins t₀ i j t)
    (hj : Found (t₀.regs i) i j = false) : BankAfter pins t₀ i (j + 1) t := by
  obtain ⟨hother, hstatus, hpos, hclears⟩ := h
  constructor
  · exact hother
  · intro p hp
    rw [hstatus p hp]
    by_cases hpj : p = j
    · simp [hpj, hj]
    · have hiff : p < j + 1 ↔ p < j := by omega
      simp [hiff]
  · intro p hp
    simp [hpos p hp, lowSeen_succ, hj]
  · simp [hclears, foundBits_succ, hj]

/-- `msm_gpio_irq_ack` of a pin found. -/
theorem BankAfter.ack {pins : Pins} (hlax : pins.lax = true) {t₀ t : Tlmm} {i j fuel : Nat}
    (hi : i < 8) (hfuel : loopLimit < fuel) (h : BankAfter pins t₀ i j t)
    (hj : Found (t₀.regs i) i j = true) :
    ∃ t', msmGpioIrqAck pins fuel ((bank i).start + j) t = (some (), t') ∧
      BankAfter pins t₀ i (j + 1) t' := by
  obtain ⟨hother, hstatus, hpos, hclears⟩ := h
  have hpin : HasPin i j := by
    simp only [Found, Bool.and_eq_true, decide_eq_true_eq] at hj
    exact hj.2
  obtain ⟨t₁, ht₁⟩ : ∃ t₁, t₁ = writel i .intClear (1#32 <<< j) t := ⟨_, rfl⟩
  -- the interrupt is cleared
  have hcleared : ∀ p, HasPin i p → t₁.bit i .intStatus p
      = ((t₀.regs i .intStatus).getLsbD p && !(decide (p ≤ j) && Found (t₀.regs i) i p)) := by
    intro p hp
    have hbit : t₁.bit i .intStatus p = (t.bit i .intStatus p && decide (p ≠ j)) := by
      rw [Tlmm.bit, ht₁, writel_intClear_regs, if_pos ⟨rfl, rfl⟩, getLsbD_and_not_bit]
      rfl
    rw [hbit, hstatus p hp]
    by_cases hpj : p = j
    · simp [hpj, hj]
    · have hiff : p ≤ j ↔ p < j := by omega
      simp [hpj, hiff, Tlmm.bit]
  -- then the polarity of the bank is set
  obtain ⟨v, hloop, hv⟩ := bothEdge_loop hlax hi (n := 0) (by simpa using hfuel)
    ⟨Nat.zero_le _, fun n' hn' => absurd hn' (Nat.not_lt_zero n')⟩ hcleared
  refine ⟨t₁.store i .intPos v, ?_, ?_⟩
  · have hclear : msmGpioIrqClear ((bank i).start + j) t = (some (), t₁) := by
      simp [msmGpioIrqClear, findGpio_pin hi hpin, Prog.modify, ht₁]
    apply Prog.bind_of hclear
    simpa [msmGpioUpdateBothEdgeDetect, findGpio_pin hi hpin] using hloop
  · constructor
    · intro i' r hir
      have hpos' : ¬ (i' = i ∧ r = .intPos) := by
        intro hboth
        obtain ⟨rfl, rfl⟩ := hboth
        simp at hir
      have hstatus' : ¬ (i' = i ∧ r = .intStatus) := by
        intro hboth
        obtain ⟨rfl, rfl⟩ := hboth
        simp at hir
      rw [store_regs, if_neg hpos', ht₁, writel_intClear_regs, if_neg hstatus', hother i' r hir]
    · intro p hp
      have hkeep : (t₁.store i .intPos v).bit i .intStatus p = t₁.bit i .intStatus p := by
        simp [Tlmm.bit]
      rw [hkeep, hcleared p hp, Tlmm.bit]
      simp only [Nat.lt_succ_iff]
    · intro p hp
      have hnew : (t₁.store i .intPos v).bit i .intPos p = v.getLsbD p := by
        simp [Tlmm.bit]
      have hold : t₁.bit i .intPos p = t.bit i .intPos p := by
        simp [Tlmm.bit, ht₁]
      rw [hnew, hv p hp, hold, hpos p hp, lowSeen_succ, or_assoc]
      simp [hj]
    · simp [ht₁, hclears, foundBits_succ, hj]

/-- **Bank lemma.** -/
theorem isrBank_completes {pins : Pins} (hlax : pins.lax = true) {fuel i : Nat} (hi : i < 8)
    (hfuel : loopLimit < fuel) (t₀ : Tlmm) :
    ∃ t, isrBank pins fuel i t₀ = (some (), t) ∧ BankAfter pins t₀ i 32 t := by
  have hstart : BankAfter pins t₀ i 0 t₀ := by
    constructor <;> simp [LowSeen, foundBits]
  obtain ⟨s, hread, hs⟩ := readStatus_apply hlax hi 0#32 t₀
  -- the status and the enable word are read once, so the test is about what the bank was
  have hbit : ∀ j < 32, Prog.Completes (BankAfter pins t₀ i j)
      (if readl i .intEn t₀ &&& s &&& 1#32 <<< j ≠ 0#32
        then msmGpioIrqAck pins fuel ((bank i).start + j) else pure ())
      (fun _ => BankAfter pins t₀ i (j + 1)) := by
    intro j _ t ht
    have htest := and_bit_ne_zero_iff_found (j := j) hi (t := t₀) (s := s)
      (fun p hp => by simpa using hs p hp)
    cases hj : Found (t₀.regs i) i j with
    | true =>
      obtain ⟨t', hrun, ht'⟩ := ht.ack hlax hi hfuel hj
      exact ⟨(), t', by rw [if_pos (htest.mpr hj)]; exact hrun, ht'⟩
    | false =>
      refine ⟨(), t, ?_, ht.skip hj⟩
      rw [if_neg (by rw [htest, hj]; exact Bool.false_ne_true)]
      rfl
  obtain ⟨⟨⟩, t, hrun, ht⟩ := Prog.Completes.forM_range _ 32 hbit t₀ hstart
  exact ⟨t, Prog.bind_of hread hrun, ht⟩

/-! ### The whole routine -/

/-- What the routine has done before bank `bound`. -/
structure IsrAfter (pins : Pins) (t₀ : Tlmm) (bound : Nat) (t : Tlmm) : Prop where
  later : ∀ i, bound ≤ i → t.regs i = t₀.regs i
  other : ∀ i r, r ≠ .intStatus → r ≠ .intPos → t.regs i r = t₀.regs i r
  status : ∀ i < bound, ∀ p, HasPin i p →
    t.bit i .intStatus p = (t₀.bit i .intStatus p && !Found (t₀.regs i) i p)
  pos : ∀ i < bound, ∀ p, HasPin i p → (t.bit i .intPos p = true ↔
    t₀.bit i .intPos p = true ∨ LowSeen pins (t₀.regs i) i 32 p)
  clears : t.clears = t₀.clears ++ (List.range bound).flatMap fun i =>
    (foundBits (t₀.regs i) i 32).map fun j => (i, 1#32 <<< j)

/-- A bank more. -/
theorem IsrAfter.bank {pins : Pins} {t₀ t t' : Tlmm} {i : Nat} (hi : i < 8)
    (h : IsrAfter pins t₀ i t) (hbank : BankAfter pins t i 32 t') :
    IsrAfter pins t₀ (i + 1) t' := by
  obtain ⟨hlater, hother, hstatus, hpos, hclears⟩ := h
  -- the banks before did not touch the registers of this one
  have hregs : t.regs i = t₀.regs i := hlater i (Nat.le_refl i)
  constructor
  · intro i' hi'
    funext r
    rw [hbank.other i' r (Or.inl (by omega)), hlater i' (by omega)]
  · intro i' r hs hp
    rw [hbank.other i' r (Or.inr ⟨hs, hp⟩), hother i' r hs hp]
  · intro i' hi' p hp
    rcases Nat.lt_succ_iff_lt_or_eq.mp hi' with hlt | rfl
    · have hkeep : t'.bit i' .intStatus p = t.bit i' .intStatus p :=
        congrArg (BitVec.getLsbD · p) (hbank.other i' .intStatus (Or.inl (by omega)))
      rw [hkeep, hstatus i' hlt p hp]
    · have hin : p < 32 := hp.lt hi
      rw [hbank.status p hp, Tlmm.bit, hregs]
      simp only [hin, decide_true, Bool.true_and, Tlmm.bit]
  · intro i' hi' p hp
    rcases Nat.lt_succ_iff_lt_or_eq.mp hi' with hlt | rfl
    · have hkeep : t'.bit i' .intPos p = t.bit i' .intPos p :=
        congrArg (BitVec.getLsbD · p) (hbank.other i' .intPos (Or.inl (by omega)))
      rw [hkeep, hpos i' hlt p hp]
    · rw [hbank.pos p hp, Tlmm.bit, hregs]
      rfl
  · simp [hbank.clears, hclears, hregs, List.range_succ]

/-- **Routine lemma.**  Where misaligned reads are made, the routine ends; it clears the interrupts
    it finds and no others, and sets the polarity of the pins it sees low. -/
theorem msmGpioIsr_spec {pins : Pins} (hlax : pins.lax = true) {fuel : Nat}
    (hfuel : loopLimit < fuel) (t₀ : Tlmm) :
    ∃ t, msmGpioIsr pins fuel t₀ = (some (), t) ∧ IsrAfter pins t₀ 8 t := by
  have hstart : IsrAfter pins t₀ 0 t₀ := by
    constructor <;> simp
  have hbank : ∀ i < 8, Prog.Completes (IsrAfter pins t₀ i) (isrBank pins fuel i)
      (fun _ => IsrAfter pins t₀ (i + 1)) := by
    intro i hi t ht
    obtain ⟨t', hrun, ht'⟩ := isrBank_completes hlax hi hfuel t
    exact ⟨(), t', hrun, ht.bank hi ht'⟩
  obtain ⟨⟨⟩, t, hrun, ht⟩ := Prog.Completes.forM_range _ 8 hbank t₀ hstart
  exact ⟨t, hrun, ht⟩

/-- Where a misaligned read stops the processor, the routine does not get past bank 6. -/
theorem msmGpioIsr_stops {pins : Pins} (hlax : pins.lax = false) (fuel : Nat) (t : Tlmm) :
    (msmGpioIsr pins fuel t).1 = none := by
  apply Prog.forM_eq_none (a := 6) (by decide)
  intro t
  have hread : ∀ new, readStatus pins 6 new t = (none, t) :=
    fun _ => if_neg (by rw [hlax]; decide)
  rw [isrBank, Prog.bind_apply, hread]

/-! ### The law -/

/-- What the routine is meant to do: it clears the interrupts that are pending and enabled, each
    once and no others, and leaves everything else as it was but the polarity of these pins. -/
structure ServiceFrame (before after : Tlmm) : Prop where
  clears : after.clears = before.clears ++ (List.range 8).flatMap fun i =>
    (pendingBits (before.regs i) i 32).map fun j => (i, 1#32 <<< j)
  status : ∀ i < 8, ∀ p, HasPin i p →
    after.bit i .intStatus p = (before.bit i .intStatus p && !Pending (before.regs i) i p)
  other : ∀ i r, r ≠ .intStatus → r ≠ .intPos → after.regs i r = before.regs i r
  pos : ∀ i < 8, ∀ p, HasPin i p → Pending (before.regs i) i p = false →
    after.bit i .intPos p = before.bit i .intPos p

/-- Whenever the routine reads the levels of a bank to set its polarity, the pins of the bank
    that are not both pending and enabled, and have polarity 0, read as 1. -/
def LevelsHigh (pins : Pins) (before : Tlmm) : Prop :=
  ∀ i < 8, ∀ j < 32, Pending (before.regs i) i j = true →
    ∀ n, PolarityRead pins (before.regs i) i j n →
      ∀ p, HasPin i p → Pending (before.regs i) i p = false → before.bit i .intPos p = false →
        (pins.val ((bank i).start + j) n).getLsbD p = true

/-- Every enabled pin of bank 6 is pending exactly when the pin eight bits below it is: where
    there is none below, it is not. -/
def AgreesBelow (before : Tlmm) : Prop :=
  ∀ p, HasPin 6 p → before.bit 6 .intEn p = true →
    (before.bit 6 .intStatus p = true ↔ 8 ≤ p ∧ before.bit 6 .intStatus (p - 8) = true)

/-- Then the routine finds the interrupts that are pending and enabled. -/
theorem agreesBelow_iff {before : Tlmm} :
    AgreesBelow before ↔ ∀ p, Found (before.regs 6) 6 p = Pending (before.regs 6) 6 p := by
  -- a pin that is not enabled is neither found nor pending
  have hpin : ∀ p, HasPin 6 p → ((before.bit 6 .intEn p = true →
      (before.bit 6 .intStatus p = true ↔ 8 ≤ p ∧ before.bit 6 .intStatus (p - 8) = true)) ↔
      Found (before.regs 6) 6 p = Pending (before.regs 6) 6 p) := by
    intro p hp
    simp only [Found, Pending, hp, show statusShift 6 = 8 from rfl, Tlmm.bit, decide_true,
      Bool.and_true]
    cases (before.regs 6 .intEn).getLsbD p with
    | false => simp
    | true =>
      have hshown : ((decide (8 ≤ p) && (before.regs 6 .intStatus).getLsbD (p - 8))
          = (before.regs 6 .intStatus).getLsbD p) ↔ ((before.regs 6 .intStatus).getLsbD p = true ↔
            8 ≤ p ∧ (before.regs 6 .intStatus).getLsbD (p - 8) = true) := by
        rw [Bool.eq_iff_iff, Bool.and_eq_true, decide_eq_true_eq]
        exact iff_comm
      rw [Bool.true_and, Bool.true_and, hshown]
      exact ⟨fun h => h rfl, fun h _ => h⟩
  constructor
  · intro h p
    by_cases hp : HasPin 6 p
    · exact (hpin p hp).mp (h p hp)
    · simp [Found, Pending, hp]
  · exact fun h p hp => (hpin p hp).mpr (h p)

theorem AgreesBelow.found_eq {before : Tlmm} (h : AgreesBelow before) (i : Nat) :
    Found (before.regs i) i = Pending (before.regs i) i := by
  funext p
  by_cases hsix : i = 6
  · subst hsix
    exact agreesBelow_iff.mp h p
  · exact found_eq_pending _ hsix p

/-- The words for the pins of bank 6 tell which they are. -/
theorem mem_clears_iff {q : Nat → Nat → Bool} {p : Nat} (hp : p < 32) :
    (6, 1#32 <<< p) ∈ ((List.range 8).flatMap fun i =>
      ((List.range 32).filter (q i)).map fun j => (i, 1#32 <<< j)) ↔ q 6 p = true := by
  simp only [List.mem_flatMap, List.mem_map, List.mem_filter, List.mem_range, Prod.mk.injEq]
  constructor
  · rintro ⟨i, _, j, ⟨hj, hq⟩, rfl, hword⟩
    have hbit := congrArg (BitVec.getLsbD · p) hword
    simp only [← BitVec.twoPow_eq, BitVec.getLsbD_twoPow, hp, hj, decide_true, Bool.true_and,
      decide_eq_true_eq] at hbit
    rwa [← hbit]
  · exact fun hq => ⟨6, by decide, p, ⟨hp, hq⟩, rfl, rfl⟩

/-- **Interrupt service frame.**  For all registers and all levels, the routine ends having done
    what it is meant to do exactly when misaligned reads are made, bank 6 agrees with what is
    read in its place, and the levels of the other pins are high. -/
theorem isr_frame_iff (pins : Pins) (before : Tlmm) :
    (∃ limit, ∀ fuel, limit < fuel → ∃ after, msmGpioIsr pins fuel before = (some (), after) ∧
      ServiceFrame before after) ↔
      pins.lax = true ∧ AgreesBelow before ∧ LevelsHigh pins before := by
  constructor
  · rintro ⟨limit, hframe⟩
    obtain ⟨after, hrun, hafter⟩ := hframe (limit + loopLimit + 1) (by omega)
    have hlax : pins.lax = true := by
      by_contra hstrict
      have hnone := msmGpioIsr_stops (Bool.eq_false_of_not_eq_true hstrict)
        (limit + loopLimit + 1) before
      rw [hrun] at hnone
      exact Option.some_ne_none _ hnone
    obtain ⟨t, hrun', ht⟩ := msmGpioIsr_spec hlax
      (show loopLimit < limit + loopLimit + 1 by omega) before
    obtain rfl : after = t := by
      rw [hrun] at hrun'
      exact congrArg Prod.snd hrun'
    -- what has been cleared is what was found
    have hagrees : AgreesBelow before := by
      rw [agreesBelow_iff]
      intro p
      by_cases hp : HasPin 6 p
      · have hsame := List.append_cancel_left (ht.clears.symm.trans hafter.clears)
        have hlt : p < 32 := hp.lt (by decide)
        rw [Bool.eq_iff_iff, ← mem_clears_iff (q := fun i => Found (before.regs i) i) hlt,
          ← mem_clears_iff (q := fun i => Pending (before.regs i) i) hlt]
        exact Iff.of_eq (congrArg _ hsame)
      · simp [Found, Pending, hp]
    refine ⟨hlax, hagrees, ?_⟩
    intro i hi j hj hpending n hread p hp hquiet hzero
    -- a low level would have set the polarity
    by_contra hlow
    rw [Bool.not_eq_true] at hlow
    rw [← hagrees.found_eq] at hpending
    have hset := (ht.pos i hi p hp).mpr (Or.inr ⟨j, hj, hpending, n, hread, hlow⟩)
    rw [hafter.pos i hi p hp hquiet, hzero] at hset
    exact Bool.false_ne_true hset
  · rintro ⟨hlax, hagrees, hhigh⟩
    refine ⟨loopLimit, fun fuel hfuel => ?_⟩
    obtain ⟨t, hrun, ht⟩ := msmGpioIsr_spec hlax hfuel before
    refine ⟨t, hrun, ?_, ?_, ht.other, ?_⟩
    · rw [ht.clears]
      simp only [foundBits, pendingBits, hagrees.found_eq]
    · intro i hi p hp
      rw [ht.status i hi p hp, hagrees.found_eq]
    · intro i hi p hp hquiet
      rw [Bool.eq_iff_iff, ht.pos i hi p hp]
      constructor
      · intro h
        rcases h with hset | ⟨j, hj, hfound, n, hread, hlow⟩
        · exact hset
        · by_contra hzero
          rw [Bool.not_eq_true] at hzero
          rw [hagrees.found_eq] at hfound
          rw [hhigh i hi j hj hfound n hread p hp hquiet hzero] at hlow
          exact Bool.false_ne_true hlow.symm
      · exact Or.inl

/-- The interrupts of the first eight pins of bank 6 are never cleared. -/
theorem msmGpioIsr_bank_six {pins : Pins} {fuel p : Nat} (hp : p < 8) {before after : Tlmm}
    (hfuel : loopLimit < fuel) (hrun : msmGpioIsr pins fuel before = (some (), after)) :
    after.bit 6 .intStatus p = before.bit 6 .intStatus p := by
  have hlax : pins.lax = true := by
    by_contra hstrict
    have hnone := msmGpioIsr_stops (Bool.eq_false_of_not_eq_true hstrict) fuel before
    rw [hrun] at hnone
    exact Option.some_ne_none _ hnone
  obtain ⟨t, hrun', ht⟩ := msmGpioIsr_spec hlax hfuel before
  obtain rfl : after = t := by
    rw [hrun] at hrun'
    exact congrArg Prod.snd hrun'
  have hpin : HasPin 6 p := Nat.le_trans (Nat.le_of_lt hp) (by decide)
  have hlost : Found (before.regs 6) 6 p = false := by
    simp [Found, show statusShift 6 = 8 from rfl, Nat.not_le.mpr hp]
  rw [ht.status 6 (by decide) p hpin, hlost, Bool.not_false, Bool.and_true]

/-! ### The touch interrupt (`TouchDxe.c`) -/

/-- `TS_IRQ_BANK_BIT`: pin `HTCLEO_GPIO_TS_IRQ`, in the bank that starts at pin 68. -/
def tsIrqBankBit : U32 := 1#32 <<< (92 - 68)

/-- `TsArmInterrupt`. -/
def tsArmInterrupt (t : Tlmm) : Tlmm :=
  let t := writel 3 .intEdge (readl 3 .intEdge t ||| tsIrqBankBit) t
  let t := writel 3 .intPos (readl 3 .intPos t &&& ~~~tsIrqBankBit) t
  let t := writel 3 .intClear tsIrqBankBit t
  writel 3 .intEn (readl 3 .intEn t ||| tsIrqBankBit) t

/-- Arming selects falling edges. -/
theorem tsArmInterrupt_intPos (t : Tlmm) : (tsArmInterrupt t).bit 3 .intPos 24 = false := by
  simp [tsArmInterrupt, writel, Tlmm.bit, tsIrqBankBit]

/-- Once armed, the touch interrupt is turned to rising edges exactly when the pin is seen low in
    the service of an interrupt of its bank. -/
theorem msmGpioIsr_touch {pins : Pins} (hlax : pins.lax = true) {fuel : Nat}
    (hfuel : loopLimit < fuel) (t : Tlmm) :
    ∃ after, msmGpioIsr pins fuel (tsArmInterrupt t) = (some (), after) ∧
      (after.bit 3 .intPos 24 = true ↔ LowSeen pins ((tsArmInterrupt t).regs 3) 3 32 24) := by
  obtain ⟨after, hrun, hafter⟩ := msmGpioIsr_spec hlax hfuel (tsArmInterrupt t)
  refine ⟨after, hrun, ?_⟩
  rw [hafter.pos 3 (by decide) 24 (by decide), tsArmInterrupt_intPos]
  simp

/-- Pin 94 of the touch interrupt's bank is pending and enabled when the touch interrupt has been
    armed. -/
def armedBesidePin94 : Tlmm :=
  tsArmInterrupt
    ⟨fun i r => if i = 3 ∧ (r = .intStatus ∨ r = .intEn) then 1#32 <<< 26 else 0, []⟩

/-- All pins are low all the time, and misaligned reads are made. -/
def allLow : Pins := ⟨fun _ _ => 0, fun _ _ => 0, fun _ _ => 0, true⟩

/-- The routine turns the touch interrupt, which is not pending, to rising edges. -/
theorem isr_inverts_touch :
    ¬ ∃ limit, ∀ fuel, limit < fuel → ∃ after,
      msmGpioIsr allLow fuel armedBesidePin94 = (some (), after) ∧
        ServiceFrame armedBesidePin94 after := by
  intro h
  obtain ⟨limit, hframe⟩ := h
  obtain ⟨after, hrun, hafter⟩ := hframe (limit + loopLimit + 1) (by omega)
  have hlax : allLow.lax = true := rfl
  obtain ⟨t, hrun', ht⟩ := msmGpioIsr_spec hlax
    (show loopLimit < limit + loopLimit + 1 by omega) armedBesidePin94
  obtain rfl : after = t := by
    rw [hrun] at hrun'
    exact congrArg Prod.snd hrun'
  have hset := (ht.pos 3 (by decide) 24 (by decide)).mpr (Or.inr ⟨26, by decide, by decide, 0,
    ⟨Nat.zero_le _, fun n hn => absurd hn (Nat.not_lt_zero n)⟩, by decide⟩)
  have hkept := hafter.pos 3 (by decide) 24 (by decide) (by decide)
  rw [hset] at hkept
  exact absurd hkept (by decide)

end HtcLeo.Gpio

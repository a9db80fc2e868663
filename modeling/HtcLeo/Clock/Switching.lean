import HtcLeo.Clock.Acpu
import HtcLeo.Lib.BitMask
import HtcLeo.Lib.Runs

namespace HtcLeo.Clock

open BitMask Runs

/-!
# Safe switching of the CPU clock

Reprogramming the SCPLL while the CPU runs from it hangs the phone.

* `OffPll` — the CPU does not run from the SCPLL, and never did at a write to it.
* `scpllPowerDown_offPll`, `scpllSetFreq_offPll`, `selectClock_raw`, `toScpll_running` — what the
  functions do to it.
* `Running` — the state between calls: the source is that of the current entry, and the SCPLL
  runs at its L value.
* `acpuclkInit_running`, `acpuclkSetRate_running` — the calls lead to it.
* `clock_switching` — the law of every sequence of calls.
-/

/-! ### Off the SCPLL -/

/-- No register of the SCPLL has been written while it was the source. -/
def SafeWrites (writes : List Write) : Prop :=
  ∀ w ∈ writes, w.reg = .scpllCtl ∨ w.reg = .scpllFsmCtlExt → sourceBits w.sel ≠ srcScpll

/-- The CPU runs from another source. -/
structure OffPll (s : Acpu) : Prop where
  safe : SafeWrites s.writes
  off : sourceBits (s.regs .spssClkSel) ≠ srcScpll

theorem SafeWrites.append {writes : List Write} (h : SafeWrites writes) {w : Write}
    (hw : w.reg = .scpllCtl ∨ w.reg = .scpllFsmCtlExt → sourceBits w.sel ≠ srcScpll) :
    SafeWrites (writes ++ [w]) := by
  intro w' hw'
  rcases List.mem_append.mp hw' with hold | hnew
  · exact h w' hold
  · obtain rfl : w' = w := by simpa using hnew
    exact hw

/-- The other registers may be written at any time. -/
theorem SafeWrites.write {s : Acpu} (h : SafeWrites s.writes) {r : AcpuReg}
    (hr : ¬ (r = .scpllCtl ∨ r = .scpllFsmCtlExt)) (v : U32) : SafeWrites (s.write r v).writes :=
  h.append fun hpll => absurd hpll hr

/-- Off the SCPLL, every register but the selection may be written. -/
theorem OffPll.write {s : Acpu} (h : OffPll s) {r : AcpuReg} (hr : r ≠ .spssClkSel) (v : U32) :
    OffPll (s.write r v) where
  safe := h.safe.append fun _ => h.off
  off := by simpa [Function.update_of_ne hr.symm] using h.off

theorem OffPll.wait {s : Acpu} (h : OffPll s) (status : Status) {mask : U32}
    (hmask : 3 &&& mask = mask) : OffPll (waitStatus status mask hmask s) := ⟨h.safe, h.off⟩

/-- `scpll_power_down` off the SCPLL. -/
theorem scpllPowerDown_offPll {s : Acpu} (h : OffPll s) (status : Status) :
    OffPll (scpllPowerDown status s) := by
  exact (((h.wait status (by decide)).write (by decide) _).write (by decide) _)

/-- `scpll_power_down` leaves the selection alone. -/
theorem scpllPowerDown_sel (s : Acpu) (status : Status) :
    (scpllPowerDown status s).regs .spssClkSel = s.regs .spssClkSel := by
  simp [scpllPowerDown]

@[simp] theorem scpllPowerDown_currentSpeed (s : Acpu) (status : Status) :
    (scpllPowerDown status s).currentSpeed = s.currentSpeed := rfl

/-- The L field of `SCPLL_FSM_CTL_EXT`. -/
def lField (fsm : U32) : U32 := fsm >>> 3 &&& 0x3f

/-- The SCPLL is in normal mode, at the L value. -/
structure PllAt (lval : U32) (s : Acpu) : Prop where
  normal : s.regs .scpllCtl &&& pllmodeMask = pllmodeNormal
  lvalue : lField (s.regs .scpllFsmCtlExt) = lval

/-- The L field of a value that is written. -/
theorem lField_fsmCtlExt (val lval switch : U32) :
    lField (fsmCtlExt val lval switch) = ((lval <<< 3 ||| switch) &&& 0x1FF#32) >>> 3 := by
  have hmask : lField (fsmCtlExt val lval switch)
      = (fsmCtlExt val lval switch &&& 0x1FF#32) >>> 3 := by
    rw [BitVec.ushiftRight_and_distrib]
    rfl
  rw [hmask, fsmCtlExt, BitVec.or_assoc, replace_and_mask]

/-- `scpll_set_freq` off the SCPLL. -/
theorem scpllSetFreq_offPll {s : Acpu} (h : OffPll s) (status : Status) (lval : U32) :
    OffPll (scpllSetFreq status lval s) := by
  have hstart : OffPll (waitStatus status 3 (by decide) s) := h.wait status (by decide)
  unfold scpllSetFreq
  dsimp only
  split_ifs
  · exact ((((((hstart.write (by decide) _).write (by decide) _).write (by decide) _).wait status
      (by decide)).write (by decide) _).write (by decide) _).wait status (by decide)
  · exact ((hstart.write (by decide) _).write (by decide) _).wait status (by decide)

/-- After `scpll_set_freq` the SCPLL runs at the L value, if the field can hold it. -/
theorem scpllSetFreq_pllAt (s : Acpu) (status : Status) {lval : U32}
    (hlval : ((clampL lval <<< 3 ||| hopSwitch) &&& 0x1FF#32) >>> 3 = lval) :
    PllAt lval (scpllSetFreq status lval s) := by
  -- whatever came before, the last two writes set it up
  have hlast : ∀ m : Acpu, PllAt lval
      ((m.write .scpllFsmCtlExt
          (fsmCtlExt (m.regs .scpllFsmCtlExt) (clampL lval) hopSwitch)).write .scpllCtl
        ((m.write .scpllFsmCtlExt
          (fsmCtlExt (m.regs .scpllFsmCtlExt) (clampL lval) hopSwitch)).regs .scpllCtl
            ||| pllmodeNormal)) := by
    intro m
    constructor
    · rw [Acpu.write_regs, Function.update_self]
      exact or_mask_and_mask _ _
    · rw [Acpu.write_regs, Function.update_of_ne (by decide), Acpu.write_regs,
        Function.update_self, lField_fsmCtlExt, hlval]
  obtain ⟨hnormal, hl⟩ := hlast _
  exact ⟨hnormal, hl⟩

@[simp] theorem scpllSetFreq_currentSpeed (s : Acpu) (status : Status) (lval : U32) :
    (scpllSetFreq status lval s).currentSpeed = s.currentSpeed := by
  unfold scpllSetFreq
  dsimp only
  split_ifs <;> rfl

/-! ### Selecting a source -/

/-- The source bits of a value that is written to `SPSS_CLK_SEL`. -/
theorem sourceBits_select (sel src : U32) :
    sourceBits (sel &&& ~~~6#32 ||| (src &&& 3) <<< 1) = (((src &&& 3) <<< 1) &&& 6#32) >>> 1 := by
  rw [sourceBits, replace_and_mask]

/-- `select_clock` does not touch the SCPLL. -/
theorem selectClock_safe {s : Acpu} (h : SafeWrites s.writes) (src config : U32) :
    SafeWrites (selectClock src config s).writes := by
  unfold selectClock
  dsimp only
  split_ifs
  · exact ((h.write (by decide) _).write (by decide) _).write (by decide) _
  · exact ((h.write (by decide) _).write (by decide) _).write (by decide) _
  · exact h.write (by decide) _

/-- `select_clock` selects its source. -/
theorem selectClock_source (s : Acpu) (src config : U32) :
    sourceBits ((selectClock src config s).regs .spssClkSel)
      = (((src &&& 3) <<< 1) &&& 6#32) >>> 1 := by
  unfold selectClock
  dsimp only
  rw [Acpu.write_regs, Function.update_self, sourceBits_select]

theorem selectClock_regs (s : Acpu) (src config : U32) {r : AcpuReg}
    (hr : r = .scpllCtl ∨ r = .scpllFsmCtlExt) :
    (selectClock src config s).regs r = s.regs r := by
  unfold selectClock
  dsimp only
  split_ifs <;> rcases hr with rfl | rfl <;> simp

@[simp] theorem selectClock_currentSpeed (s : Acpu) (src config : U32) :
    (selectClock src config s).currentSpeed = s.currentSpeed := by
  unfold selectClock
  dsimp only
  split_ifs <;> rfl

/-- Selecting a raw source leaves the SCPLL. -/
theorem selectClock_raw {s : Acpu} (h : SafeWrites s.writes) (config : U32) :
    OffPll (selectClock srcRaw config s) where
  safe := selectClock_safe h srcRaw config
  off := by
    rw [selectClock_source]
    decide

theorem PllAt.select {lval : U32} {s : Acpu} (h : PllAt lval s) (src config : U32) :
    PllAt lval (selectClock src config s) where
  normal := by rw [selectClock_regs s src config (Or.inl rfl), h.normal]
  lvalue := by rw [selectClock_regs s src config (Or.inr rfl), h.lvalue]

/-! ### Between calls -/

/-- The state between calls, for the current entry. -/
structure RunningAt (row : AcpuSpeed) (s : Acpu) : Prop where
  safe : SafeWrites s.writes
  source : sourceBits (s.regs .spssClkSel) = row.clkSel
  pll : row.clkSel = srcScpll → PllAt row.scLValue s

/-- The state between calls: `current_speed` is an entry, not the last, and the clock is as the
    entry says. -/
def Running (s : Acpu) : Prop :=
  ∃ i row, s.currentSpeed = some i ∧ acpuFreqTbl[i]? = some row ∧ row.acpuKhz ≠ 0 ∧
    RunningAt row s

/-- Onto the SCPLL, from a state off it. -/
theorem toScpll_running {s : Acpu} (h : OffPll s) (status : Status) {row : AcpuSpeed}
    (hsel : row.clkSel = srcScpll)
    (hlval : ((clampL row.scLValue <<< 3 ||| hopSwitch) &&& 0x1FF#32) >>> 3 = row.scLValue) :
    RunningAt row (selectClock srcScpll 0 (scpllSetFreq status row.scLValue s)) where
  safe := selectClock_safe (scpllSetFreq_offPll h status _).safe _ _
  source := by
    rw [selectClock_source, hsel]
    decide
  pll _ := (scpllSetFreq_pllAt s status hlval).select _ _

/-- Every entry but the last is a raw source with the standby configuration, or the SCPLL with an
    L value that its field holds. -/
theorem acpuFreqTbl_rows {row : AcpuSpeed} (h : row ∈ acpuFreqTbl) (hkhz : row.acpuKhz ≠ 0) :
    (row.clkSel = srcRaw ∧ row.isStandby = true) ∨
    (row.clkSel = srcScpll ∧ row.isStandby = false ∧
      ((clampL row.scLValue <<< 3 ||| hopSwitch) &&& 0x1FF#32) >>> 3 = row.scLValue) := by
  have hall : ∀ row ∈ acpuFreqTbl, row.acpuKhz ≠ 0 →
      (row.clkSel = srcRaw ∧ row.isStandby = true) ∨
      (row.clkSel = srcScpll ∧ row.isStandby = false ∧
        ((clampL row.scLValue <<< 3 ||| hopSwitch) &&& 0x1FF#32) >>> 3 = row.scLValue) := by
    decide
  exact hall row h hkhz

/-- **Switch lemma.**  A switch from one entry to another. -/
theorem switchSpeed_running {s : Acpu} {cur next : AcpuSpeed} (status : Status)
    (hcur : cur ∈ acpuFreqTbl) (hcurKhz : cur.acpuKhz ≠ 0) (hnext : next ∈ acpuFreqTbl)
    (hnextKhz : next.acpuKhz ≠ 0) (h : RunningAt cur s) :
    RunningAt next (switchSpeed status cur next s) := by
  unfold switchSpeed
  rcases acpuFreqTbl_rows hnext hnextKhz with ⟨hraw, _⟩ | ⟨hsel, _, hlval⟩
  · -- to the raw source
    have hne : ¬ next.clkSel = srcScpll := by
      rw [hraw]
      decide
    have hpll : next.clkSel = srcScpll → ∀ s, PllAt next.scLValue s := fun h => absurd h hne
    rw [if_neg hne]
    split_ifs with hfrom
    · -- from the SCPLL, which is powered down at the end
      dsimp only
      rw [hraw]
      have hoff := selectClock_raw (selectClock_raw h.safe acpuStby.clkCfg).safe next.clkCfg
      have hend := scpllPowerDown_offPll hoff status
      refine ⟨hend.safe, ?_, fun h => hpll h _⟩
      rw [scpllPowerDown_sel, selectClock_source, hraw]
      decide
    · rw [hraw]
      refine ⟨selectClock_safe h.safe _ _, ?_, fun h => hpll h _⟩
      rw [selectClock_source, hraw]
      decide
  · -- to the SCPLL, from the standby clock
    rw [if_pos hsel]
    apply toScpll_running _ status hsel hlval
    rcases acpuFreqTbl_rows hcur hcurKhz with ⟨hcurRaw, hstandby⟩ | ⟨_, hstandby, _⟩
    · rw [if_pos hstandby]
      refine ⟨h.safe, ?_⟩
      rw [h.source, hcurRaw]
      decide
    · rw [if_neg (by rw [hstandby]; exact Bool.false_ne_true)]
      exact selectClock_raw h.safe _

/-! ### The calls -/

/-- `acpuclk_init` from an SCPLL entry, while the CPU runs from the SCPLL: it ends in the state
    between calls if the modem PLL is on, and otherwise spins without a write. -/
theorem acpuclkInit_running {s : Acpu} (status : Status) {freqNum : Nat} {row : AcpuSpeed}
    (hrow : acpuFreqTbl[freqNum]? = some row) (hsel : row.clkSel = srcScpll)
    (hdone : s.acpuclkInitDone = false) (hwrites : s.writes = [])
    (hsource : sourceBits (s.regs .spssClkSel) = srcScpll) :
    (s.mpll &&& 1#32 ≠ 0#32 → ∃ s', acpuclkInit status freqNum s = (some (), s') ∧ Running s' ∧
      s'.currentSpeed = some freqNum) ∧
    (s.mpll &&& 1#32 = 0#32 →
      ∃ s', acpuclkInit status freqNum s = (none, s') ∧ s'.writes = []) := by
  obtain ⟨khz, hkhz⟩ : ∃ khz, acpuclkFindSpeed s = some khz := by
    simp [acpuclkFindSpeed, hsource, srcScpll]
  have hmem : row ∈ acpuFreqTbl := List.mem_of_getElem? hrow
  have hrowKhz : row.acpuKhz ≠ 0 := by
    have hall : ∀ row ∈ acpuFreqTbl, row.clkSel = srcScpll → row.acpuKhz ≠ 0 := by decide
    exact hall row hmem hsel
  constructor
  · intro hon
    have hsafe : SafeWrites s.writes := by
      rw [hwrites]
      exact fun w hw => absurd hw List.not_mem_nil
    have hlval : ((clampL row.scLValue <<< 3 ||| hopSwitch) &&& 0x1FF#32) >>> 3 = row.scLValue := by
      rcases acpuFreqTbl_rows hmem hrowKhz with ⟨hraw, _⟩ | ⟨_, _, hlval⟩
      · rw [hsel] at hraw
        exact absurd hraw (by decide)
      · exact hlval
    -- the standby clock first, then the SCPLL
    have hoff := scpllPowerDown_offPll (selectClock_raw
      (s := { s with currentSpeed := some freqNum }) hsafe acpuStby.clkCfg) status
    obtain ⟨hrunSafe, hrunSource, hrunPll⟩ := toScpll_running hoff status hsel hlval
    have hinit : acpuclkInit status freqNum s = (some (),
        { selectClock srcScpll 0 (scpllSetFreq status row.scLValue (scpllPowerDown status
            (selectClock srcRaw acpuStby.clkCfg { s with currentSpeed := some freqNum })))
          with acpuclkInitDone := true }) := by
      simp only [acpuclkInit, hdone, hkhz, hrow, if_neg hon, Bool.false_eq_true, if_false]
      rfl
    exact ⟨_, hinit, ⟨freqNum, row, by simp, hrow, hrowKhz, ⟨hrunSafe, hrunSource, fun h =>
      ⟨(hrunPll h).normal, (hrunPll h).lvalue⟩⟩⟩, by simp⟩
  · intro hoff
    refine ⟨{ s with acpuclkInitDone := true }, ?_, hwrites⟩
    simp [acpuclkInit, hdone, hkhz, hrow, hoff]

/-- What a call of `acpuclk_set_rate` is meant to do: it returns, the search stays in the table,
    and for a rate the table does not have, or below 1 kHz, nothing happens. -/
structure RateLaw (status : Status) (s : Acpu) (rate : U32) : Prop where
  inside : findSpeed (rate.toNat / 1000) acpuFreqTbl 0 ≠ none
  returns : (acpuclkSetRate status rate s).1.isSome = true
  absent : (∀ row ∈ acpuFreqTbl, row.acpuKhz ≠ rate.toNat / 1000) →
    acpuclkSetRate status rate s = (some (-1), s)
  zero : rate.toNat / 1000 = 0 → acpuclkSetRate status rate s = (some 0, s)

/-- The table ends with an entry of 0 kHz. -/
theorem acpuFreqTbl_last : ∃ row ∈ acpuFreqTbl, row.acpuKhz = 0 := by decide

/-- **Call lemma.**  From a state between calls, `acpuclk_set_rate` meets its law and ends in such
    a state. -/
theorem acpuclkSetRate_running {s : Acpu} (status : Status) (rate : U32) (h : Running s) :
    Running (acpuclkSetRate status rate s).2 ∧ RateLaw status s rate := by
  obtain ⟨i, cur, hcur, hrow, hkhz, hrun⟩ := h
  have hinside := findSpeed_ne_none (rate.toNat / 1000) acpuFreqTbl acpuFreqTbl_last 0
  have hcurMem : cur ∈ acpuFreqTbl := List.mem_of_getElem? hrow
  have hbind : s.currentSpeed.bind (acpuFreqTbl[·]?) = some cur := by
    simp [hcur, hrow]
  have hstay : Running s := ⟨i, cur, hcur, hrow, hkhz, hrun⟩
  by_cases hsame : rate.toNat / 1000 = cur.acpuKhz ∨ rate.toNat / 1000 = 0
  · -- the current rate, or none
    have hcall : acpuclkSetRate status rate s = (some 0, s) := by
      simp only [acpuclkSetRate, hbind, if_pos hsame]
    rw [hcall]
    refine ⟨hstay, hinside, by rw [hcall]; rfl, ?_, fun _ => hcall⟩
    intro habsent
    rcases hsame with hcurKhz | hzero
    · exact absurd hcurKhz.symm (habsent cur hcurMem)
    · obtain ⟨row, hmem, hlast⟩ := acpuFreqTbl_last
      exact absurd (hlast.trans hzero.symm) (habsent row hmem)
  · cases hfind : findSpeed (rate.toNat / 1000) acpuFreqTbl 0 with
    | none => exact absurd hfind hinside
    | some found =>
      cases found with
      | none =>
        -- the end of the table
        have hcall : acpuclkSetRate status rate s = (some (-1), s) := by
          simp only [acpuclkSetRate, hbind, if_neg hsame, hfind]
        rw [hcall]
        exact ⟨hstay, hinside, by rw [hcall]; rfl, fun _ => hcall,
          fun hzero => absurd (Or.inr hzero) hsame⟩
      | some j =>
        obtain ⟨_, next, hnext, hnextKhz⟩ := findSpeed_found hfind
        rw [Nat.sub_zero] at hnext
        have hnextMem : next ∈ acpuFreqTbl := List.mem_of_getElem? hnext
        have hcall : acpuclkSetRate status rate s
            = (some 0, { switchSpeed status cur next s with currentSpeed := some j }) := by
          simp only [acpuclkSetRate, hbind, if_neg hsame, hfind, hnext]
        have hnextNe : next.acpuKhz ≠ 0 := by
          rw [hnextKhz]
          exact fun hzero => hsame (Or.inr hzero)
        obtain ⟨hsafe, hsource, hpll⟩ :=
          switchSpeed_running status hcurMem hkhz hnextMem hnextNe hrun
        rw [hcall]
        refine ⟨⟨j, next, rfl, hnext, hnextNe, hsafe, hsource, fun h =>
          ⟨(hpll h).normal, (hpll h).lvalue⟩⟩, hinside, by rw [hcall]; rfl, ?_,
          fun hzero => absurd (Or.inr hzero) hsame⟩
        intro habsent
        exact absurd hnextKhz (habsent next hnextMem)

/-! ### Sequences of calls -/

/-- The machine of the calls: a label is a rate. -/
def setRates (status : Status) (s : Acpu) (rate : U32) : Acpu := (acpuclkSetRate status rate s).2

/-- **Safe switching.**  From every state in which the CPU runs from the SCPLL, `acpuclk_init` of an
    SCPLL entry either spins without a write, the modem PLL being off, or returns; and then, over
    every sequence of rates, every state between calls is consistent, with no write to the SCPLL
    while it was the source, and every call meets its law. -/
theorem clock_switching (status : Status) {freqNum : Nat} {row : AcpuSpeed}
    (hrow : acpuFreqTbl[freqNum]? = some row) (hsel : row.clkSel = srcScpll) {s : Acpu}
    (hdone : s.acpuclkInitDone = false) (hwrites : s.writes = [])
    (hsource : sourceBits (s.regs .spssClkSel) = srcScpll) :
    (s.mpll &&& 1#32 = 0#32 →
      ∃ s', acpuclkInit status freqNum s = (none, s') ∧ s'.writes = []) ∧
    (s.mpll &&& 1#32 ≠ 0#32 → ∃ s', acpuclkInit status freqNum s = (some (), s') ∧
      s'.currentSpeed = some freqNum ∧
      ∀ rates : List U32, Always (setRates status) Running s' rates ∧
        EveryStep (setRates status) (RateLaw status) s' rates) := by
  obtain ⟨hon, hoff⟩ := acpuclkInit_running status hrow hsel hdone hwrites hsource
  refine ⟨hoff, fun hmpll => ?_⟩
  obtain ⟨s', hinit, hrunning, hspeed⟩ := hon hmpll
  have hstep : ∀ s rate, Running s → Running (setRates status s rate) :=
    fun s rate h => (acpuclkSetRate_running status rate h).1
  have hlaw : ∀ s rate, Running s → RateLaw status s rate :=
    fun s rate h => (acpuclkSetRate_running status rate h).2
  exact ⟨s', hinit, hspeed, fun rates =>
    ⟨Always.of_invariant hstep hrunning rates, EveryStep.of_invariant hstep hlaw hrunning rates⟩⟩

/-- `SCPLL_STATUS` is never busy. -/
def neverBusy : Status := ⟨fun _ => 0, fun n => ⟨n, Nat.le_refl n, by simp⟩⟩

/-- The modem PLL is on, and the CPU runs from the SCPLL. -/
def booted : Acpu :=
  ⟨fun r => if r = .spssClkSel then 2 else 0, 1, 0, false, none, []⟩

theorem clock_switching_booted :
    ∃ s', acpuclkInit neverBusy 17 booted = (some (), s') ∧ s'.currentSpeed = some 17 ∧
      ∀ rates : List U32, Always (setRates neverBusy) Running s' rates ∧
        EveryStep (setRates neverBusy) (RateLaw neverBusy) s' rates := by
  have hrow : acpuFreqTbl[17]? = some ⟨998400, cctl clkTcxo 1, srcScpll, 0x1A⟩ := by decide
  exact (clock_switching neverBusy hrow (by decide) (by decide) (by decide) (by decide)).2
    (by decide)

/-- 500 Hz is no rate of the table, yet a call for it returns 0. -/
theorem setRate_below_1kHz :
    (∀ row ∈ acpuFreqTbl, row.acpuKhz * 1000 ≠ 500) ∧
    ∃ s', acpuclkInit neverBusy 17 booted = (some (), s') ∧
      (acpuclkSetRate neverBusy 500#32 s').1 = some 0 := by
  refine ⟨by decide, ?_⟩
  have hrow : acpuFreqTbl[17]? = some ⟨998400, cctl clkTcxo 1, srcScpll, 0x1A⟩ := by decide
  obtain ⟨hon, _⟩ := acpuclkInit_running (s := booted) neverBusy hrow (by decide) (by decide)
    (by decide) (by decide)
  obtain ⟨s', hinit, hrunning, _⟩ := hon (by decide)
  exact ⟨s', hinit, by rw [(acpuclkSetRate_running neverBusy 500#32 hrunning).2.zero (by decide)]⟩

end HtcLeo.Clock

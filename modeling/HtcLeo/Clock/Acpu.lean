import HtcLeo.Uefi
import Mathlib.Data.Nat.Find
import Mathlib.Logic.Function.Basic
import Mathlib.Tactic.SplitIfs

namespace HtcLeo.Clock

/-!
# ClockDxe — the CPU clock

`GPLDrivers/ClockDxe/acpuclock.c`: switching the CPU between the modem PLL and the SCPLL.

* `acpuFreqTbl` — the speeds.
* `Acpu` — the registers, the driver's variables, and every write with the value that
  `SPSS_CLK_SEL` had at it; `Status` — the reads of `SCPLL_STATUS`.
* `selectClock` … `acpuclkInit` — the functions.
* `findSpeed_ne_none`, `findSpeed_found` — the search of the table.
-/

/-! ### The table -/

/-- `CLK_TCXO`. -/
def clkTcxo : U32 := 0
/-- `CLK_MODEM_PLL`. -/
def clkModemPll : U32 := 4

/-- `CCTL`. -/
def cctl (src div : U32) : U32 := src <<< 4 ||| (div - 1)

/-- `SRC_RAW`: the clock from `SPSS_CLK_CNTL`. -/
def srcRaw : U32 := 0
/-- `SRC_SCPLL`: the output of the SCPLL. -/
def srcScpll : U32 := 1

/-- `clkctl_acpu_speed`, without the voltage and the bus clock, which nothing reads. -/
structure AcpuSpeed where
  acpuKhz : Nat
  clkCfg : U32
  clkSel : U32
  scLValue : U32
  deriving DecidableEq, Repr

/-- `acpu_freq_tbl`. -/
def acpuFreqTbl : List AcpuSpeed :=
  [ ⟨245000, cctl clkModemPll 1, srcRaw, 0x00⟩,
    ⟨384000, cctl clkTcxo 1, srcScpll, 0x0A⟩,
    ⟨422400, cctl clkTcxo 1, srcScpll, 0x0B⟩,
    ⟨460800, cctl clkTcxo 1, srcScpll, 0x0C⟩,
    ⟨499200, cctl clkTcxo 1, srcScpll, 0x0D⟩,
    ⟨537600, cctl clkTcxo 1, srcScpll, 0x0E⟩,
    ⟨576000, cctl clkTcxo 1, srcScpll, 0x0F⟩,
    ⟨614400, cctl clkTcxo 1, srcScpll, 0x10⟩,
    ⟨652800, cctl clkTcxo 1, srcScpll, 0x11⟩,
    ⟨691200, cctl clkTcxo 1, srcScpll, 0x12⟩,
    ⟨729600, cctl clkTcxo 1, srcScpll, 0x13⟩,
    ⟨768000, cctl clkTcxo 1, srcScpll, 0x14⟩,
    ⟨806400, cctl clkTcxo 1, srcScpll, 0x15⟩,
    ⟨844800, cctl clkTcxo 1, srcScpll, 0x16⟩,
    ⟨883200, cctl clkTcxo 1, srcScpll, 0x17⟩,
    ⟨921600, cctl clkTcxo 1, srcScpll, 0x18⟩,
    ⟨960000, cctl clkTcxo 1, srcScpll, 0x19⟩,
    ⟨998400, cctl clkTcxo 1, srcScpll, 0x1A⟩,
    ⟨0, 0, 0, 0⟩ ]

/-- `acpu_stby`, the first entry. -/
def acpuStby : AcpuSpeed := acpuFreqTbl.head (by decide)

/-- `IS_ACPU_STANDBY`. -/
def AcpuSpeed.isStandby (x : AcpuSpeed) : Bool :=
  x.clkCfg = acpuStby.clkCfg ∧ x.clkSel = acpuStby.clkSel

/-! ### Registers and variables -/

/-- The registers that behave as memory. -/
inductive AcpuReg
  | spssClkCntl | spssClkSel | scpllCtl | scpllFsmCtlExt
  deriving DecidableEq, Repr

/-- A write: the register, the value, and what `SPSS_CLK_SEL` was. -/
structure Write where
  reg : AcpuReg
  value : U32
  sel : U32
  deriving DecidableEq, Repr

/-- The registers, how often `SCPLL_STATUS` has been read, `acpuclk_init_done`, `current_speed`
    (an index of the table), and (ghost) the writes in order.  `mpll` is the register at
    `MSM_CLK_CTL_BASE + 0x300`. -/
structure Acpu where
  regs : AcpuReg → U32
  mpll : U32
  statusReads : Nat
  acpuclkInitDone : Bool
  currentSpeed : Option Nat
  writes : List Write

/-- The values `SCPLL_STATUS` is read with; its busy bits read 0 again and again. -/
structure Status where
  read : Nat → U32
  clears : ∀ n, ∃ k, n ≤ k ∧ read k &&& 3 = 0

namespace Acpu

/-- A write to a register. -/
def write (r : AcpuReg) (v : U32) (s : Acpu) : Acpu :=
  { s with
    regs := Function.update s.regs r v
    writes := s.writes ++ [⟨r, v, s.regs .spssClkSel⟩] }

@[simp] theorem write_regs (r : AcpuReg) (v : U32) (s : Acpu) :
    (s.write r v).regs = Function.update s.regs r v := rfl

@[simp] theorem write_currentSpeed (r : AcpuReg) (v : U32) (s : Acpu) :
    (s.write r v).currentSpeed = s.currentSpeed := rfl

@[simp] theorem write_writes (r : AcpuReg) (v : U32) (s : Acpu) :
    (s.write r v).writes = s.writes ++ [⟨r, v, s.regs .spssClkSel⟩] := rfl

end Acpu

/-- Some later read has the bits of the mask clear, if the mask is of busy bits. -/
theorem Status.exists_clear (status : Status) {mask : U32} (hmask : 3 &&& mask = mask) (n : Nat) :
    ∃ k, n ≤ k ∧ status.read k &&& mask = 0 := by
  obtain ⟨k, hk, hclear⟩ := status.clears n
  refine ⟨k, hk, ?_⟩
  rw [← hmask, ← BitVec.and_assoc, hclear]
  simp

/-- `while (readl (SCPLL_STATUS_ADDR) & mask);`: the reads up to the first with these bits
    clear. -/
def waitStatus (status : Status) (mask : U32) (hmask : 3 &&& mask = mask) (s : Acpu) : Acpu :=
  { s with statusReads := Nat.find (status.exists_clear hmask s.statusReads) + 1 }

@[simp] theorem waitStatus_regs (status : Status) {mask : U32} (hmask : 3 &&& mask = mask)
    (s : Acpu) : (waitStatus status mask hmask s).regs = s.regs := rfl

@[simp] theorem waitStatus_currentSpeed (status : Status) {mask : U32}
    (hmask : 3 &&& mask = mask) (s : Acpu) :
    (waitStatus status mask hmask s).currentSpeed = s.currentSpeed := rfl

@[simp] theorem waitStatus_writes (status : Status) {mask : U32} (hmask : 3 &&& mask = mask)
    (s : Acpu) : (waitStatus status mask hmask s).writes = s.writes := rfl

/-! ### The functions -/

/-- `PLLMODE_STANDBY`. -/
def pllmodeStandby : U32 := 2
/-- `PLLMODE_POWERDOWN`. -/
def pllmodePowerdown : U32 := 0
/-- `PLLMODE_NORMAL`. -/
def pllmodeNormal : U32 := 7
/-- `PLLMODE_MASK`. -/
def pllmodeMask : U32 := 7
/-- `SHOT_SWITCH`. -/
def shotSwitch : U32 := 4
/-- `HOP_SWITCH`. -/
def hopSwitch : U32 := 5

/-- `scpll_power_down`. -/
def scpllPowerDown (status : Status) (s : Acpu) : Acpu :=
  let s := waitStatus status 1 (by decide) s
  let val := s.regs .scpllCtl &&& ~~~pllmodeMask ||| pllmodeStandby
  let s := s.write .scpllCtl val
  let val := val &&& ~~~pllmodeMask ||| pllmodePowerdown
  s.write .scpllCtl val

/-- The value written to `SCPLL_FSM_CTL_EXT`. -/
def fsmCtlExt (val lval switch : U32) : U32 := val &&& ~~~0x1FF#32 ||| lval <<< 3 ||| switch

/-- The clamps of `scpll_set_freq`. -/
def clampL (lval : U32) : U32 :=
  let lval := if lval > 33 then 33 else lval
  if lval < 10 then 10 else lval

/-- `scpll_set_freq`. -/
def scpllSetFreq (status : Status) (lval : U32) (s : Acpu) : Acpu :=
  let lval := clampL lval
  let s := waitStatus status 3 (by decide) s
  let ctl := s.regs .scpllCtl
  let s :=
    if ctl &&& pllmodeMask ≠ pllmodeNormal then
      let s := s.write .scpllCtl (ctl &&& ~~~pllmodeMask ||| pllmodeStandby)
      -- switch to 384 MHz
      let s := s.write .scpllFsmCtlExt (fsmCtlExt (s.regs .scpllFsmCtlExt) 0x0A shotSwitch)
      let s := s.write .scpllCtl (s.regs .scpllCtl ||| pllmodeNormal)
      waitStatus status 1 (by decide) s
    else s
  -- the new L value, and the mode
  let s := s.write .scpllFsmCtlExt (fsmCtlExt (s.regs .scpllFsmCtlExt) lval hopSwitch)
  let s := s.write .scpllCtl (s.regs .scpllCtl ||| pllmodeNormal)
  waitStatus status 1 (by decide) s

/-- `select_clock`. -/
def selectClock (src config : U32) (s : Acpu) : Acpu :=
  let s :=
    if src = srcRaw then
      let sel := s.regs .spssClkSel
      let shift : Nat := if sel &&& 1 ≠ 0 then 8 else 0
      let val := s.regs .spssClkCntl &&& ~~~(0x7F#32 <<< shift) ||| config <<< shift
      let s := s.write .spssClkCntl val
      s.write .spssClkSel (sel ^^^ 1)
    else s
  let val := s.regs .spssClkSel &&& ~~~6#32
  s.write .spssClkSel (val ||| (src &&& 3) <<< 1)

/-- The search of `acpuclk_set_rate`, from an entry on: the entry found, none, or (no result) a
    read past the table. -/
def findSpeed (khz : Nat) : List AcpuSpeed → Nat → Option (Option Nat)
  | [], _ => none
  | next :: rest, i =>
    if next.acpuKhz = khz then some (some i)
    else if next.acpuKhz = 0 then some none
    else findSpeed khz rest (i + 1)

/-- The switch of `acpuclk_set_rate` from one entry to another. -/
def switchSpeed (status : Status) (cur next : AcpuSpeed) (s : Acpu) : Acpu :=
  if next.clkSel = srcScpll then
    -- cur -> standby -> target
    let s := if cur.isStandby then s else selectClock acpuStby.clkSel acpuStby.clkCfg s
    let s := scpllSetFreq status next.scLValue s
    selectClock srcScpll 0 s
  else if cur.clkSel = srcScpll then
    let s := selectClock acpuStby.clkSel acpuStby.clkCfg s
    let s := selectClock next.clkSel next.clkCfg s
    scpllPowerDown status s
  else selectClock next.clkSel next.clkCfg s

/-- `acpuclk_set_rate`; no result where `current_speed` is not an entry or the search leaves the
    table. -/
def acpuclkSetRate (status : Status) (rate : U32) (s : Acpu) : Option Int × Acpu :=
  let khz := rate.toNat / 1000
  match s.currentSpeed.bind (acpuFreqTbl[·]?) with
  | none => (none, s)
  | some cur =>
    if khz = cur.acpuKhz ∨ khz = 0 then (some 0, s)
    else match findSpeed khz acpuFreqTbl 0 with
      | none => (none, s)
      | some none => (some (-1), s)
      | some (some i) =>
        match acpuFreqTbl[i]? with
        | none => (none, s)
        | some next => (some 0, { switchSpeed status cur next s with currentSpeed := some i })

/-- The source bits of `SPSS_CLK_SEL`. -/
def sourceBits (sel : U32) : U32 := (sel &&& 6#32) >>> 1

/-- `acpuclk_find_speed`; no result where it spins for ever. -/
def acpuclkFindSpeed (s : Acpu) : Option U32 :=
  match (sourceBits (s.regs .spssClkSel)).toNat with
  | 1 => some ((s.regs .scpllFsmCtlExt >>> 3 &&& 0x3f) * 38400)
  | 2 => some 128000
  | _ => none

/-- `acpuclk_init`; no result where it spins for ever.  The two `msm_pll_request`s are calls to
    the modem and touch none of this. -/
def acpuclkInit (status : Status) (freqNum : Nat) (s : Acpu) : Option Unit × Acpu :=
  if s.acpuclkInitDone then (some (), s)
  else match acpuclkFindSpeed s, acpuFreqTbl[freqNum]? with
    | none, _ => (none, s)
    | some _, cur =>
      -- the modem PLL is not on
      if s.mpll &&& 1#32 = 0#32 then (none, { s with acpuclkInitDone := true })
      else match cur with
        | none => (none, s)
        | some cur =>
          let s := { s with currentSpeed := some freqNum }
          let s := selectClock acpuStby.clkSel acpuStby.clkCfg s
          let s := scpllPowerDown status s
          let s := scpllSetFreq status cur.scLValue s
          let s := selectClock srcScpll 0 s
          (some (), { s with acpuclkInitDone := true })

/-! ### The table search -/

/-- A search in a list with a last entry of 0 kHz stays in the list. -/
theorem findSpeed_ne_none (khz : Nat) (table : List AcpuSpeed)
    (hlast : ∃ row ∈ table, row.acpuKhz = 0) (i : Nat) : findSpeed khz table i ≠ none := by
  induction table generalizing i with
  | nil => simp at hlast
  | cons next rest ih =>
    unfold findSpeed
    split_ifs with hfound hend
    · simp
    · simp
    · obtain ⟨row, hrow, hzero⟩ := hlast
      rcases List.mem_cons.mp hrow with rfl | hrest
      · exact absurd hzero hend
      · exact ih ⟨row, hrest, hzero⟩ (i + 1)

/-- The search finds an entry with the rate. -/
theorem findSpeed_found {khz i j : Nat} {table : List AcpuSpeed}
    (h : findSpeed khz table i = some (some j)) :
    i ≤ j ∧ ∃ row, table[j - i]? = some row ∧ row.acpuKhz = khz := by
  induction table generalizing i with
  | nil => simp [findSpeed] at h
  | cons next rest ih =>
    unfold findSpeed at h
    split_ifs at h with hfound hend
    · obtain rfl : i = j := by simpa using h
      exact ⟨Nat.le_refl i, next, by simp, hfound⟩
    · simp at h
    · obtain ⟨hle, row, hrow, hkhz⟩ := ih h
      refine ⟨by omega, row, ?_, hkhz⟩
      rw [show j - i = (j - (i + 1)) + 1 by omega, List.getElem?_cons_succ]
      exact hrow

end HtcLeo.Clock

import HtcLeo.Lib.Prog
import HtcLeo.Uefi
import Mathlib.Logic.Function.Basic

namespace HtcLeo.Clock

/-!
# Clock and regulator calls to the modem

The functions of `GPLDrivers/ClockDxe/ClockDxe.c` and `pcom_vreg_control` of
`Library/MsmPcomClientLib`, over `msm_proc_comm` of `Library/MsmPcomLib`, which hands the modem
two data words and stores its reply into them.

* `fillClocksLookup` — the table of the modem's clock ids.
* `Pcom` — the table, the replies still to come, and the commands issued so far.
* `msmProcComm` — a command; `retry` — a command repeated until the modem reports success.
* `clkEnable`, `clkDisable`, `clkSetRate`, `clkGetRate`, `pcomVregControl` — the calls.
* `retry_spec` — the commands a retry issues, and the words it ends with.
-/

/-! ### The clocks (`Chipset/clock.h`) -/

/-- `NR_CLKS`. -/
def nrClks : Nat := 100

/-- The clocks `FillClocksLookup` gives an id, with their numbers. -/
def admClk : Nat := 1
def ecodecClk : Nat := 5
def grpClk : Nat := 8
def icodecRxClk : Nat := 10
def icodecTxClk : Nat := 11
def imemClk : Nat := 12
def mdcClk : Nat := 13
def mdpClk : Nat := 14
def sdc1Clk : Nat := 19
def sdc1Pclk : Nat := 20
def sdc2Clk : Nat := 21
def sdc2Pclk : Nat := 22
def sdc4Pclk : Nat := 26
def uart1dmClk : Nat := 34
def uart2dmClk : Nat := 35
def vfeMdcClk : Nat := 40
def vfeClk : Nat := 41
def spiClk : Nat := 45
def vfeAxiClk : Nat := 46
def sdacMclk : Nat := 87

/-- The assignments of `FillClocksLookup`. -/
def usedClocks : List (Nat × U32) :=
  [(icodecRxClk, 50), (icodecTxClk, 52), (ecodecClk, 42), (sdacMclk, 64), (imemClk, 55),
    (grpClk, 56), (admClk, 19), (uart1dmClk, 78), (uart2dmClk, 80), (vfeAxiClk, 24),
    (vfeMdcClk, 40), (vfeClk, 41), (mdcClk, 53), (spiClk, 95), (mdpClk, 9), (sdc1Clk, 66),
    (sdc2Clk, 67), (sdc1Pclk, 17), (sdc2Pclk, 16)]

/-- `FillClocksLookup`, on the memory at the table and behind it. -/
def fillClocksLookup (mem : Nat → U32) : Nat → U32 :=
  usedClocks.foldl (fun lookup (clk, id) => Function.update lookup clk id)
    fun i => if i < nrClks then -1 else mem i

/-! ### Commands and replies (`Library/pcom.h`) -/

/-- The commands of the modelled calls. -/
inductive PcomCmd
  | vregSwitch | vregSetLevel | clkRegimeSecEnable | clkRegimeSecDisable | clkRegimeSecSelSpeed
  | clkRegimeSecMsmGetClkFreqKhz
  deriving DecidableEq, Repr

/-- `PCOM_CMD_SUCCESS`. -/
def pcomCmdSuccess : U32 := 3
/-- `PCOM_CMD_FAIL`. -/
def pcomCmdFail : U32 := 4

/-- What is written to `APP_COMMAND`, `APP_DATA1` and `APP_DATA2`. -/
structure Command where
  cmd : PcomCmd
  data1 : U32
  data2 : U32
  deriving DecidableEq, Repr

/-- What the modem leaves in `APP_STATUS`, `APP_DATA1` and `APP_DATA2`. -/
structure Reply where
  status : U32
  data1 : U32
  data2 : U32
  deriving DecidableEq, Repr

/-- The calls, with their arguments. -/
inductive Call
  | clkEnable (id : U32)
  | clkDisable (id : U32)
  | clkSetRate (id freq : U32)
  | clkGetRate (id : U32)
  | vregControl (vreg level state : U32)
  deriving DecidableEq, Repr

/-- `ClocksLookup` with the memory behind it, the replies still to come, `APP_STATUS`, (ghost) the
    commands issued so far, each with the call it serves, and whether a command waits for a reply
    that never comes. -/
structure Pcom where
  clocksLookup : Nat → U32
  replies : List Reply
  appStatus : U32
  issued : List (Call × Command)
  waiting : Bool

/-- The words behind `data1` and `data2` after the reply. -/
def Reply.words (r : Reply) (data1 data2 : U32) : U32 × U32 :=
  if r.status = pcomCmdFail then (data1, data2) else (r.data1, r.data2)

/-- `msm_proc_comm`: the two words afterwards.  Its return value is used nowhere here; a null
    `data2` is a 0 whose reply is dropped. -/
def msmProcComm (c : Call) (cmd : PcomCmd) (data1 data2 : U32) : Prog Pcom (U32 × U32) := fun s =>
  let s := { s with issued := s.issued ++ [(c, Command.mk cmd data1 data2)] }
  match s.replies with
  | [] => (none, { s with waiting := true })
  | r :: replies => (some (r.words data1 data2), { s with replies, appStatus := r.status })

/-! ### Clocks -/

/-- `msm_proc_comm` with the address of `ClocksLookup[Id]`; the result is the word behind
    `data2`. -/
def lookupComm (c : Call) (cmd : PcomCmd) (id data2 : U32) : Prog Pcom U32 := do
  let word ← Prog.query fun s => (s.clocksLookup id.toNat, s)
  let words ← msmProcComm c cmd word data2
  Prog.modify fun s =>
    { s with clocksLookup := Function.update s.clocksLookup id.toNat words.1 }
  return words.2

/-- The first speed whose rate is exceeded, or else 1. -/
def speedAbove (rate : Nat) : List (Nat × U32) → U32
  | [] => 1
  | (bound, speed) :: rest => if rate > bound then speed else speedAbove rate rest

/-- The speed of the rate, if there is one. -/
def speedEqual (rate : Nat) : List (Nat × U32) → Option U32
  | [] => none
  | (r, speed) :: rest => if rate = r then some speed else speedEqual rate rest

/-- The `ICODEC_RX_CLK` and `ICODEC_TX_CLK` speeds. -/
def icodecSpeeds : List (Nat × U32) :=
  [(11289600, 9), (8192000, 8), (6144000, 7), (5644800, 6), (4096000, 5), (3072000, 4),
    (2822400, 3), (2048000, 2)]

/-- The `SDAC_MCLK` speeds. -/
def sdacSpeeds : List (Nat × U32) :=
  [(1411200, 9), (1024000, 8), (768000, 7), (705600, 6), (512000, 5), (384000, 4), (352800, 3),
    (256000, 2)]

/-- The `UART1DM_CLK` and `UART2DM_CLK` speeds. -/
def uartSpeeds : List (Nat × U32) :=
  [(61440000, 15), (58982400, 14), (56000000, 13), (51200000, 12), (48000000, 11),
    (40000000, 10), (32000000, 9), (24000000, 8), (16000000, 7), (15360000, 6), (14745600, 5),
    (7680000, 4), (7372800, 3), (3840000, 2)]

/-- The `ECODEC_CLK` speeds. -/
def ecodecSpeeds : List (Nat × U32) := [(2048000, 3), (128000, 2)]

/-- The `VFE_MDC_CLK` speeds. -/
def vfeMdcSpeeds : List (Nat × U32) :=
  [(96000000, 37), (48000000, 32), (24000000, 22), (12000000, 14), (6000000, 6), (3000000, 1)]

/-- The `VFE_CLK` speeds. -/
def vfeSpeeds : List (Nat × U32) :=
  [(36000000, 1), (48000000, 2), (64000000, 3), (78000000, 4), (96000000, 5)]

/-- The `SPI_CLK` speeds. -/
def spiSpeeds : List (Nat × U32) := [(15360000, 5), (9600000, 4), (4800000, 3), (960000, 2)]

/-- The `SDC1_CLK` and `SDC2_CLK` speeds. -/
def sdcSpeeds : List (Nat × U32) :=
  [(50000000, 14), (49152000, 13), (45000000, 12), (40000000, 11), (35000000, 10), (30000000, 9),
    (25000000, 8), (20000000, 7), (15000000, 6), (10000000, 5), (5000000, 4), (400000, 3),
    (144000, 2)]

/-- The switch of `CotullaClkSetRate`: the speed to select, or the value to return at once. -/
def clockSpeed (id rate : Nat) : U32 ⊕ U32 :=
  if id = icodecRxClk ∨ id = icodecTxClk then .inl (speedAbove rate icodecSpeeds)
  else if id = sdacMclk then .inl (speedAbove rate sdacSpeeds)
  else if id = uart1dmClk ∨ id = uart2dmClk then .inl (speedAbove rate uartSpeeds)
  else if id = ecodecClk then .inl (speedAbove rate ecodecSpeeds)
  else if id = vfeMdcClk then (speedEqual rate vfeMdcSpeeds).elim (.inr 0) .inl
  else if id = vfeClk then (speedEqual rate vfeSpeeds).elim (.inr 0) .inl
  else if id = spiClk then .inl (speedAbove rate spiSpeeds)
  else if id = sdc1Clk ∨ id = sdc2Clk then .inl (speedAbove rate sdcSpeeds)
  else if id = sdc1Pclk ∨ id = sdc2Pclk then .inr 0
  else .inr (-1)

/-- `CotullaClkSetRate`. -/
def cotullaClkSetRate (id rate : U32) : Prog Pcom U32 :=
  match clockSpeed id.toNat rate.toNat with
  | .inl speed => do
    let _ ← lookupComm (.clkSetRate id rate) .clkRegimeSecSelSpeed id speed
    return 0
  | .inr ret => return ret

/-- `ClkSetRate`. -/
def clkSetRate (id freq : U32) : Prog Pcom U32 := do
  let retval ← cotullaClkSetRate id freq
  if retval ≠ -1 then return retval else return -1

/-- `ClkGetRate`. -/
def clkGetRate (id : U32) : Prog Pcom U32 := fun s =>
  if s.clocksLookup id.toNat ≠ -1 then
    lookupComm (.clkGetRate id) .clkRegimeSecMsmGetClkFreqKhz id 0 s
  else if id.toNat = sdc4Pclk then (some 64000000, s)
  else (some (-1), s)

/-- `ClkEnable`. -/
def clkEnable (id : U32) : Prog Pcom U32 := fun s =>
  if s.clocksLookup id.toNat ≠ -1 then
    (do
      let _ ← lookupComm (.clkEnable id) .clkRegimeSecEnable id 0
      Prog.query fun s => (s.clocksLookup id.toNat, s)) s
  else (some (-1), s)

/-- `ClkDisable`. -/
def clkDisable (id : U32) : Prog Pcom Unit := fun s =>
  if s.clocksLookup id.toNat ≠ -1 then
    (do
      let _ ← lookupComm (.clkDisable id) .clkRegimeSecDisable id 0
      return ()) s
  else (some (), s)

/-! ### Regulators -/

/-- `do msm_proc_comm (cmd, &w1, &w2); while (PCOM_CMD_SUCCESS != readl (APP_STATUS));`: the words
    afterwards.  It repeats as often as there are replies. -/
def retry (c : Call) (cmd : PcomCmd) (w : U32 × U32) : Prog Pcom (U32 × U32) := fun s =>
  Prog.loop (fun w : U32 × U32 => do
    let w ← msmProcComm c cmd w.1 w.2
    let status ← Prog.query fun s => (s.appStatus, s)
    if pcomCmdSuccess ≠ status then return .inl w else return .inr w) (s.replies.length + 1) w s

/-- `pcom_vreg_control`. -/
def pcomVregControl (vreg level state : U32) : Prog Pcom Unit := do
  let c := Call.vregControl vreg level state
  let s : U32 := if state ≠ 0 then 1 else 0
  let words ← (if state ≠ 0 then retry c .vregSetLevel (vreg, level) else pure (vreg, level) :
    Prog Pcom (U32 × U32))
  let _ ← retry c .vregSwitch (words.1, s)
  return ()

/-- A call. -/
def runCall : Call → Prog Pcom Unit
  | .clkEnable id => do let _ ← clkEnable id
  | .clkDisable id => clkDisable id
  | .clkSetRate id freq => do let _ ← clkSetRate id freq
  | .clkGetRate id => do let _ ← clkGetRate id
  | .vregControl vreg level state => pcomVregControl vreg level state

/-- The machine of the calls: a call that waits for ever is the last. -/
def exec (s : Pcom) (c : Call) : Pcom := if s.waiting then s else (runCall c s).2

/-! ### What the calls issue -/

/-- The words a retry issues. -/
def retryWords : U32 × U32 → List Reply → List (U32 × U32)
  | w, [] => [w]
  | w, r :: replies =>
    w :: if r.status = pcomCmdSuccess then [] else retryWords (r.words w.1 w.2) replies

/-- The words a retry ends with, and the replies left, if there are enough of them. -/
def retryResult : U32 × U32 → List Reply → Option ((U32 × U32) × List Reply)
  | _, [] => none
  | w, r :: replies =>
    if r.status = pcomCmdSuccess then some (r.words w.1 w.2, replies)
    else retryResult (r.words w.1 w.2) replies

/-- **Retry lemma.** -/
theorem retry_spec (c : Call) (cmd : PcomCmd) (w : U32 × U32) (s : Pcom) :
    (retry c cmd w s).1 = (retryResult w s.replies).map Prod.fst ∧
    (retry c cmd w s).2.clocksLookup = s.clocksLookup ∧
    (retry c cmd w s).2.issued
      = s.issued ++ (retryWords w s.replies).map (fun w => (c, Command.mk cmd w.1 w.2)) ∧
    (retry c cmd w s).2.replies = ((retryResult w s.replies).map Prod.snd).getD [] := by
  unfold retry
  -- by induction on the replies
  generalize hreplies : s.replies = replies
  induction replies generalizing w s with
  | nil =>
    simp [Prog.loop, Prog.bind_apply, msmProcComm, hreplies, retryWords, retryResult]
  | cons r replies ih =>
    rw [List.length_cons]
    by_cases hsuccess : r.status = pcomCmdSuccess
    · -- the last command
      simp [Prog.loop, Prog.bind_apply, Prog.pure_apply, Prog.query, msmProcComm, hreplies,
        hsuccess, retryWords, retryResult]
    · have hne : pcomCmdSuccess ≠ r.status := Ne.symm hsuccess
      have hrest := ih (r.words w.1 w.2) { s with
        issued := s.issued ++ [(c, Command.mk cmd w.1 w.2)]
        replies := replies
        appStatus := r.status } rfl
      rw [Prog.loop]
      simpa [Prog.bind_apply, Prog.pure_apply, Prog.query, msmProcComm, hreplies, hsuccess, hne,
        retryWords, retryResult] using hrest

end HtcLeo.Clock

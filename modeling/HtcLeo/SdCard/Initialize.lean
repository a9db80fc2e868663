import HtcLeo.SdCard.BlockIo

namespace HtcLeo.SdCard

open Prog

/-!
# SdCardDxe — initialisation

`mmc_legacy_init` of `GPLDrivers/SdCardDxe/mmc.c` with the command sequences it runs, and
`SdCardInitialize` of `SdCardDxe.c`, over any controller.

* `cardIdentificationSelection`, `cardTransferInit`, `readSdStatus` — the command sequences.
* `mmcLegacyInit` — every step may fail; only after the last one `mmc_dev` is filled.
* `sdCardInitialize` — the result of `mmc_legacy_init` is not looked at.
* `not_contained_of_failed` — after a failure the driver calls through the `NULL` of
  `block_read`.

Delays, clocks and GPIOs, which no step looks at again, are left out, and so is the CID, which is
only printed.
-/

/-! ### Commands -/

/-- `CMD0`, `GO_IDLE_STATE`, and the other commands of the initialisation. -/
abbrev cmd0 : BitVec 16 := 0x00
abbrev cmd2 : BitVec 16 := 0x02
abbrev cmd3 : BitVec 16 := 0x03
abbrev cmd7 : BitVec 16 := 0x07
abbrev cmd8 : BitVec 16 := 0x08
abbrev cmd9 : BitVec 16 := 0x09
abbrev cmd10 : BitVec 16 := 0x0A
abbrev cmd16 : BitVec 16 := 0x10
/-- `ACMD13`, `SD_STATUS`. -/
abbrev acmd13 : BitVec 16 := 0x0D
/-- `ACMD51`, `SEND_SCR`. -/
abbrev acmd51 : BitVec 16 := 0x33
/-- `MCI_CMD__LONGRSP___M`. -/
abbrev cmdLongRsp : BitVec 16 := 0x80

variable {σ : Type} (io : Mci σ) (fuel : Nat)

/-- `sdcc_send_cmd` into an array of zeros: the response, or `none` for `FALSE`. -/
def sendCmd (cmd : BitVec 16) (arg : U32) : Prog (Machine σ) (Option Response) := do
  let r ← sdccSendCmd io fuel (cmd ||| cmdEnable) arg
  return if r.1 then some (r.2.getD fun _ => 0) else none

/-- `rca << 16`. -/
def rcaArgument (rca : BitVec 16) : U32 := rca.setWidth 32 <<< 16

/-- `card_set_block_size`. -/
def cardSetBlockSize (size : U32) : Prog (Machine σ) Bool := do
  let r ← sendCmd io fuel (cmd16 ||| cmdResponse) size
  return r.isSome

/-- `SDCn_init`; it fails for an instance that there is not. -/
def sdcnInit (sdcInstance : Nat) : Prog (Machine σ) Bool := do
  if 1 ≤ sdcInstance ∧ sdcInstance ≤ 4 then
    ioWrite32 io .clear 0x07FFFFFF#32
    return true
  else return false

/-- `SDC_INSTANCE`. -/
abbrev sdcInstance : Nat := 2

/-- CMD55 and ACMD41 for a card without an address: the response with the OCR. -/
def sendOpCond (arg : U32) : Prog (Machine σ) (Option Response) := do
  let some _ ← sendCmd io fuel (cmd55 ||| cmdResponse) 0#32 | return none
  sendCmd io fuel (acmd41 ||| cmdResponse) arg

/-- The loop of `card_identification_selection` until the card has powered up. -/
def awaitPowerUp (arg : U32) (response : Response) : Prog (Machine σ) (Option Response) :=
  loop (fun response => do
    if response.first &&& 0x80000000#32 ≠ 0#32 then return .inr (some response)
    else match ← sendOpCond io fuel arg with
      | some response => return .inl response
      | none          => return .inr none) fuel response

/-- `card_identification_selection`: the address of the card, and whether it sets
    `high_capacity`. -/
def cardIdentificationSelection : Prog (Machine σ) (Option (BitVec 16 × Bool)) := do
  let some _ ← sendCmd io fuel cmd0 0#32 | return none
  -- without an answer to CMD8 the card is not a high-capacity card
  let cmd8 ← sendCmd io fuel (cmd8 ||| cmdResponse) 0x1AA#32
  let support := hcSupport cmd8.isSome
  let some response ← sendOpCond io fuel (0x00FF8000#32 ||| support) | return none
  let some response ← awaitPowerUp io fuel (0x00FF8000#32 ||| support) response | return none
  let highCapacity := response.first &&& support != 0#32
  let some _ ← sendCmd io fuel (cmd2 ||| cmdResponse ||| cmdLongRsp) 0#32 | return none
  let some response ← sendCmd io fuel (cmd3 ||| cmdResponse) 0#32 | return none
  return some ((response.first >>> 16).setWidth 16, highCapacity)

/-- `read_SCR_register`; the register is not used. -/
def readScrRegister (rca : BitVec 16) : Prog (Machine σ) Bool := do
  ioWrite32 io .dataTimer rdDataTimeout
  ioWrite32 io .dataLength 8#32
  if !(← cardSetBlockSize io fuel 8#32) then return false
  ioWrite32 io .dataCtl (dataCtlEnable ||| dataCtlDirection ||| 8#32 <<< 4)
  let some _ ← sendCmd io fuel (cmd55 ||| cmdResponse) (rcaArgument rca) | return false
  let some _ ← sendCmd io fuel (acmd51 ||| cmdResponse) 0#32 | return false
  let _ ← pollStatus io fuel (fun s => hasBit s statusRxdataAvlbl)
  let _ ← ioRead32 io .fifo
  let _ ← ioRead32 io .fifo
  return true

/-- `card_transfer_init`: the CSD. -/
def cardTransferInit (rca : BitVec 16) : Prog (Machine σ) (Option Response) := do
  let some csd ← sendCmd io fuel (cmd9 ||| cmdResponse ||| cmdLongRsp) (rcaArgument rca)
    | return none
  let some _ ← sendCmd io fuel (cmd10 ||| cmdResponse ||| cmdLongRsp) (rcaArgument rca)
    | return none
  let some _ ← sendCmd io fuel (cmd7 ||| cmdResponse) (rcaArgument rca) | return none
  if !(← readScrRegister io fuel rca) then return none
  let some _ ← sendCmd io fuel (cmd13 ||| cmdResponse) (rcaArgument rca) | return none
  return some csd

/-- The loop of `read_SD_status` over the 16 words of the status, which is not used. -/
def sdStatusLoop : Prog (Machine σ) Bool :=
  loop (fun (i : Nat) => do
    if i < 16 then
      let mciStatus ← ioRead32 io .status
      if hasBit mciStatus statusRxdataAvlbl then
        let _ ← ioRead32 io .fifo
        return .inl (i + 1)
      else if hasBit mciStatus statusRxactive then return .inl i
      else return .inr false
    else return .inr true) fuel 0

/-- `read_SD_status`. -/
def readSdStatus (rca : BitVec 16) : Prog (Machine σ) Bool := do
  ioWrite32 io .dataTimer rdDataTimeout
  ioWrite32 io .dataLength 64#32
  if !(← cardSetBlockSize io fuel 64#32) then return false
  ioWrite32 io .dataCtl (dataCtlEnable ||| dataCtlDirection ||| 64#32 <<< 4)
  let some _ ← sendCmd io fuel (cmd55 ||| cmdResponse) (rcaArgument rca) | return false
  let some _ ← sendCmd io fuel (acmd13 ||| cmdResponse) 0#32 | return false
  if !(← sdStatusLoop io fuel) then return false
  checkClearReadStatus io fuel

/-! ### `mmc_legacy_init` -/

/-- Where the arrays of the driver are: `sd_adm_cmd_ptr_list`, `sd_box_mode_entry`, the `buffer`
    for the first block, and `BlkDump`. -/
structure Arrays where
  cmdPtrList : U32
  boxModeEntry : U32
  buffer : Nat
  blkDump : Nat

/-- What the steps of `mmc_legacy_init` learn of a card. -/
structure Started where
  csd : Response
  rca : BitVec 16
  highCapacity : Bool

/-- The steps of `mmc_legacy_init`, or `none` where one fails. -/
def initSteps (a : Arrays) : Prog (Machine σ) (Option Started) := do
  if a.cmdPtrList &&& 7#32 ≠ 0#32 ∨ a.boxModeEntry &&& 7#32 ≠ 0#32 then return none
  if !(← sdcnInit io sdcInstance) then return none
  let some (rca, highCapacity) ← cardIdentificationSelection io fuel | return none
  let some csd ← cardTransferInit io fuel rca | return none
  if !(← readSdStatus io fuel rca) then return none
  if !(← cardSetBlockSize io fuel 512#32) then return none
  -- the first block is read as a check
  if !(← readABlock io fuel highCapacity 0#32 a.buffer) then return none
  return some ⟨csd, rca, highCapacity⟩

/-- `-ENODEV`. -/
def noDevice : Int := -19

/-- What `mmc_legacy_init` leaves: its result, `mmc_dev`, and the card it has started. -/
structure InitResult where
  ret : Int
  dev : MmcDev
  card : Option Started

/-- `mmc_dev` before it is touched. -/
def MmcDev.zero : MmcDev := ⟨.unknown, 0, 0, false⟩

/-- `mmc_legacy_init`. -/
def mmcLegacyInit (a : Arrays) (dev : MmcDev) : Prog (Machine σ) InitResult := do
  let dev := { dev with ifType := .unknown }
  match ← initSteps io fuel a with
  | none      => return ⟨noDevice, dev, none⟩
  | some card => return ⟨0, mmcDecodeCsd card.csd { dev with ifType := .sd }, some card⟩

/-- `mmc_legacy_init` has failed: it says so, or it has found a CSD that it cannot decode, which it
    does not say. -/
def InitResult.Failed (r : InitResult) : Prop :=
  r.ret ≠ 0 ∨ ∃ card, r.card = some card ∧
    unstuffBits card.csd 126 2 ≠ 0#32 ∧ unstuffBits card.csd 126 2 ≠ 1#32

/-! ### `SdCardInitialize` -/

/-- The board: `DEVICETYPE`, and the level of `HTCLEO_GPIO_SD_STATUS`, low for a card. -/
structure Board where
  deviceType : Nat
  sdStatus : Bool

/-- `SdCardInitialize` looks for the card. -/
def Board.inserted (b : Board) : Bool := b.deviceType != 1 || !b.sdStatus

/-- How `SdCardInitialize` ends; the C program says nothing about a call through `NULL`. -/
inductive Outcome
  | notInserted
  | nullCall (media : Media)
  | deadLoop (media : Media)
  | published (media : Media) (dev : MmcDev)

/-- A device function: `none` is `NULL`. -/
abbrev DeviceFunction (σ : Type) := Option (U32 → U32 → Nat → Prog (Machine σ) U32)

/-- The loop of `SdCardInitialize` that looks for the MBR in `n` blocks from block `i` on: whether
    it is found, or `none` for a call through `NULL`. -/
def findMbr (blockRead : DeviceFunction σ) (blkDump : Nat) :
    Nat → U32 → Prog (Machine σ) (Option Bool)
  | 0, _     => return some false
  | n + 1, i => do
      let some read := blockRead | return none
      let blk ← read i 1#32 blkDump
      let mbr ← query fun m => (m.mem (blkDump + 510) == 0x55 && m.mem (blkDump + 511) == 0xAA, m)
      if blk != 0#32 && mbr then return some true
      else findMbr blockRead blkDump n (i + 1)

/-- `mmc_dev.block_read`; the data mover is not used. -/
def blockRead (dm : U32 → U32 → Nat → Prog (Machine σ) Bool) (r : InitResult) :
    DeviceFunction σ :=
  if r.dev.attached then
    let highCapacity := r.card.any fun card => card.highCapacity
    let rca := r.card.elim 0 fun card => card.rca
    some (mmcBread ⟨readABlock io fuel highCapacity, dm,
      fun block buffer => writeABlock io fuel highCapacity block buffer rca, dm⟩)
  else none

/-- `SdCardInitialize`. -/
def sdCardInitialize (dm : U32 → U32 → Nat → Prog (Machine σ) Bool) (a : Arrays) (b : Board) :
    Prog (Machine σ) Outcome := do
  if !b.inserted then return .notInserted
  -- what `mmc_legacy_init` returns is dropped
  let r ← mmcLegacyInit io fuel a MmcDev.zero
  let media := mediaOf r.dev
  modify fun m => { m with mem := Memory.blit a.blkDump media.blockSize.toNat (fun _ => 0) m.mem }
  match ← findMbr (blockRead io fuel dm r) a.blkDump (min media.lastBlock.toNat 50 + 1) 0#32 with
  | none       => return .nullCall media
  | some false => return .deadLoop media
  | some true  => return .published media r.dev

/-- Nothing is called through `NULL`, and what is published has block functions and blocks that are
    not empty, so that no request goes through `NULL` or divides by 0. -/
def Outcome.Contained : Outcome → Prop
  | .notInserted         => True
  | .nullCall _          => False
  | .deadLoop _          => True
  | .published media dev => dev.attached = true ∧ media.blockSize ≠ 0

/-! ### Failures -/

/-- After a failure `mmc_dev` is still empty. -/
theorem mmcLegacyInit_failed {io : Mci σ} {fuel : Nat} {a : Arrays} {m m' : Machine σ}
    {r : InitResult} (hinit : mmcLegacyInit io fuel a MmcDev.zero m = (some r, m'))
    (hfailed : r.Failed) : r.dev.attached = false ∧ r.dev.blksz = 0 ∧ r.dev.lba = 0 := by
  obtain ⟨card, m₁, -, hrest⟩ := bind_eq_some.mp hinit
  cases card with
  | none =>
    -- a step has failed
    have hr : r = ⟨noDevice, MmcDev.zero, none⟩ := by
      cases hrest
      rfl
    rw [hr]
    exact ⟨rfl, rfl, rfl⟩
  | some card =>
    -- the CSD cannot be decoded
    have hr : r = ⟨0, mmcDecodeCsd card.csd { MmcDev.zero with ifType := .sd }, some card⟩ := by
      cases hrest
      rfl
    rw [hr] at hfailed ⊢
    obtain hret | ⟨card', hcard, h0, h1⟩ := hfailed
    · exact absurd rfl hret
    · cases hcard
      have hdecode : mmcDecodeCsd card.csd { MmcDev.zero with ifType := .sd }
          = { MmcDev.zero with ifType := .sd } := by
        unfold mmcDecodeCsd
        dsimp only
        rw [if_neg h0, if_neg h1]
      rw [hdecode]
      exact ⟨rfl, rfl, rfl⟩

/-- **Failures are not contained.**  After every failure of `mmc_legacy_init`, whatever step it is,
    `SdCardInitialize` goes on and calls through the `NULL` of `block_read`, with a `BlockSize`
    of 0. -/
theorem not_contained_of_failed {io : Mci σ} {fuel : Nat}
    (dm : U32 → U32 → Nat → Prog (Machine σ) Bool) {a : Arrays} {b : Board} {m m' : Machine σ}
    {r : InitResult} (hinserted : b.inserted = true)
    (hinit : mmcLegacyInit io fuel a MmcDev.zero m = (some r, m')) (hfailed : r.Failed) :
    ∃ outcome m'', sdCardInitialize io fuel dm a b m = (some outcome, m'') ∧
      outcome = .nullCall ⟨0, 0⟩ ∧ ¬ outcome.Contained := by
  obtain ⟨hattached, hblksz, hlba⟩ := mmcLegacyInit_failed hinit hfailed
  have hmedia : mediaOf r.dev = ⟨0, 0⟩ := by
    unfold mediaOf
    rw [hlba, hblksz]
    rfl
  have hread : blockRead io fuel dm r = none := by
    unfold blockRead
    rw [hattached]
    rfl
  -- `BlkDump` has no bytes to be cleared
  refine ⟨.nullCall ⟨0, 0⟩,
    { m' with mem := Memory.blit a.blkDump (0 : U32).toNat (fun _ => 0) m'.mem }, ?_, rfl,
    fun h => h⟩
  unfold sdCardInitialize
  rw [hinserted]
  refine bind_of hinit ?_
  rw [hmedia, hread]
  rfl

/-- A device function that there is is not `NULL`. -/
theorem findMbr_some {read : U32 → U32 → Nat → Prog (Machine σ) U32} {blkDump n : Nat} {i : U32}
    {m m' : Machine σ} {found : Option Bool}
    (h : findMbr (some read) blkDump n i m = (some found, m')) : found ≠ none := by
  induction n generalizing i m with
  | zero =>
    have hfound : found = some false := by
      cases h
      rfl
    rw [hfound]
    exact Option.some_ne_none false
  | succ n ih =>
    obtain ⟨blk, m₁, -, h⟩ := bind_eq_some.mp h
    obtain ⟨mbr, m₂, -, h⟩ := bind_eq_some.mp h
    split at h
    · have hfound : found = some true := by
        cases h
        rfl
      rw [hfound]
      exact Option.some_ne_none true
    · exact ih h

/-- Without a failure the block functions are set, and the blocks are not empty. -/
theorem mmcLegacyInit_started {io : Mci σ} {fuel : Nat} {a : Arrays} {m m' : Machine σ}
    {r : InitResult} (hinit : mmcLegacyInit io fuel a MmcDev.zero m = (some r, m'))
    (hstarted : ¬ r.Failed) : r.dev.attached = true ∧ r.dev.blksz ≠ 0 := by
  obtain ⟨card, m₁, -, hrest⟩ := bind_eq_some.mp hinit
  cases card with
  | none =>
    have hr : r = ⟨noDevice, MmcDev.zero, none⟩ := by
      cases hrest
      rfl
    rw [hr] at hstarted
    exact absurd (.inl (by decide)) hstarted
  | some card =>
    have hr : r = ⟨0, mmcDecodeCsd card.csd { MmcDev.zero with ifType := .sd }, some card⟩ := by
      cases hrest
      rfl
    have hblksz : ∀ highCapacity dev, (decodeGeometry card.csd highCapacity dev).blksz ≠ 0 := by
      intro highCapacity dev hzero
      have hpow := decodeGeometry_blksz card.csd highCapacity dev
      rw [hzero] at hpow
      exact absurd hpow.symm (Nat.two_pow_pos _).ne'
    rw [hr] at hstarted ⊢
    unfold mmcDecodeCsd
    dsimp only
    by_cases h0 : unstuffBits card.csd 126 2 = 0#32
    · rw [if_pos h0]
      exact ⟨rfl, hblksz false _⟩
    · by_cases h1 : unstuffBits card.csd 126 2 = 1#32
      · rw [if_neg h0, if_pos h1]
        exact ⟨rfl, hblksz true _⟩
      · exact absurd (.inr ⟨card, rfl, h0, h1⟩) hstarted

/-- Without a failure whatever `SdCardInitialize` does is contained. -/
theorem contained_of_started {io : Mci σ} {fuel : Nat}
    {dm : U32 → U32 → Nat → Prog (Machine σ) Bool} {a : Arrays} {b : Board} {m m' m'' : Machine σ}
    {r : InitResult} {outcome : Outcome} (hinserted : b.inserted = true)
    (hinit : mmcLegacyInit io fuel a MmcDev.zero m = (some r, m')) (hstarted : ¬ r.Failed)
    (hrun : sdCardInitialize io fuel dm a b m = (some outcome, m'')) : outcome.Contained := by
  obtain ⟨hattached, hblksz⟩ := mmcLegacyInit_started hinit hstarted
  unfold sdCardInitialize at hrun
  rw [hinserted] at hrun
  obtain ⟨r', m₁, hinit', hrun⟩ := bind_eq_some.mp hrun
  rw [hinit] at hinit'
  cases hinit'
  obtain ⟨_, m₂, -, hrun⟩ := bind_eq_some.mp hrun
  obtain ⟨found, m₃, hfind, hrun⟩ := bind_eq_some.mp hrun
  unfold blockRead at hfind
  rw [hattached] at hfind
  have hne := findMbr_some hfind
  rcases found with _ | found
  · exact absurd rfl hne
  · cases found with
    | false =>
      have hout : outcome = .deadLoop (mediaOf r.dev) := by
        cases hrun
        rfl
      rw [hout]
      trivial
    | true =>
      have hout : outcome = .published (mediaOf r.dev) r.dev := by
        cases hrun
        rfl
      rw [hout]
      exact ⟨hattached, hblksz⟩

/-- A controller whose card never answers: the status says that a command without a response is
    sent, and that every other one has timed out; its state counts the reads of the status. -/
def silent : Mci Nat where
  read r n := match r with
    | .status => (if n = 0 then statusCmdSent else if n = 1 then 0 else statusCmdTimeout, n + 1)
    | _       => (0, n)
  write _ _ n := n

/-- The arrays, aligned as they are declared. -/
def alignedArrays : Arrays := ⟨0x2E000000, 0x2E000020, 0x2E000040, 0x2E000240⟩

/-- The machine at the start. -/
def silentStart : Machine Nat := ⟨0, fun _ => 0⟩

/-- ACMD41 times out, and `mmc_legacy_init` fails. -/
theorem silent_fails : ∃ m', mmcLegacyInit silent 2 alignedArrays MmcDev.zero silentStart
    = (some ⟨noDevice, MmcDev.zero, none⟩, m') :=
  ⟨_, rfl⟩

/-- On a board that does not look for a card, the failure is not contained. -/
theorem not_contained_of_failed_silent : ∃ outcome m'',
    sdCardInitialize silent 2 (fun _ _ _ => pure false) alignedArrays ⟨2, true⟩ silentStart
      = (some outcome, m'') ∧ outcome = .nullCall ⟨0, 0⟩ ∧ ¬ outcome.Contained := by
  obtain ⟨m', hinit⟩ := silent_fails
  exact not_contained_of_failed (fun _ _ _ => pure false) (by decide) hinit (.inl (by decide))

/-- With a card in the slot that never answers ACMD41, the driver calls through `NULL`. -/
theorem silentCard_not_contained : ∃ outcome m'',
    sdCardInitialize silent 2 (fun _ _ _ => pure false) alignedArrays ⟨1, false⟩ silentStart
      = (some outcome, m'') ∧ ¬ outcome.Contained :=
  ⟨.nullCall ⟨0, 0⟩, _, rfl, fun h => h⟩

end HtcLeo.SdCard

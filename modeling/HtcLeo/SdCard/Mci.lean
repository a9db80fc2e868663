import HtcLeo.Uefi
import HtcLeo.Lib.Prog
import HtcLeo.Lib.Memory
import Mathlib.Data.Fin.VecNotation

namespace HtcLeo.SdCard

open Prog

/-!
# SdCardDxe — commands and single-block transfers

`sdcc_send_cmd`, `check_clear_read_status`, `check_clear_write_status`, `read_a_block` and
`write_a_block` of `GPLDrivers/SdCardDxe/mmc.c`, over any controller.

* `Mci` — a controller: how its registers answer reads and take writes.
* `Machine` — a controller together with memory; the driver's code is a `Prog` over it.
* Every polling loop is given `fuel` polls.
-/

/-- `BLOCK_SIZE`. -/
abbrev blockSize : Nat := 512

/-- The registers of the MMC controller that the code reads or writes. -/
inductive MciReg
  | argument | cmd | resp (n : Fin 4) | dataTimer | dataLength | dataCtl | status | clear | fifo
  deriving DecidableEq, Repr

/-- A controller with states `σ`. -/
structure Mci (σ : Type) where
  read : MciReg → σ → U32 × σ
  write : MciReg → U32 → σ → σ

/-- A controller and memory. -/
structure Machine (σ : Type) where
  dev : σ
  mem : Memory

/-! ### Bits of the registers (`Library/reg.h`, `Library/mmc.h`) -/

/-- `MCI_STATUS__PROG_DONE___M`. -/
abbrev statusProgDone : U32 := 0x800000
/-- `MCI_STATUS__RXDATA_AVLBL___M`. -/
abbrev statusRxdataAvlbl : U32 := 0x200000
/-- `MCI_STATUS__TXFIFO_FULL___M`. -/
abbrev statusTxfifoFull : U32 := 0x10000
/-- `MCI_STATUS__RXACTIVE___M`. -/
abbrev statusRxactive : U32 := 0x2000
/-- `MCI_STATUS__DATA_BLK_END___M`. -/
abbrev statusDataBlkEnd : U32 := 0x400
/-- `MCI_STATUS__START_BIT_ERR___M`. -/
abbrev statusStartBitErr : U32 := 0x200
/-- `MCI_STATUS__DATAEND___M`. -/
abbrev statusDataend : U32 := 0x100
/-- `MCI_STATUS__CMD_SENT___M`. -/
abbrev statusCmdSent : U32 := 0x80
/-- `MCI_STATUS__CMD_RESPONSE_END___M`. -/
abbrev statusCmdResponseEnd : U32 := 0x40
/-- `MCI_STATUS__RX_OVERRUN___M`. -/
abbrev statusRxOverrun : U32 := 0x20
/-- `MCI_STATUS__TX_UNDERRUN___M`. -/
abbrev statusTxUnderrun : U32 := 0x10
/-- `MCI_STATUS__DATA_TIMEOUT___M`. -/
abbrev statusDataTimeout : U32 := 8
/-- `MCI_STATUS__CMD_TIMEOUT___M`. -/
abbrev statusCmdTimeout : U32 := 4
/-- `MCI_STATUS__DATA_CRC_FAIL___M`. -/
abbrev statusDataCrcFail : U32 := 2
/-- `MCI_STATUS__CMD_CRC_FAIL___M`. -/
abbrev statusCmdCrcFail : U32 := 1

/-- `MCI_CMD__PROG_ENA___M`. -/
abbrev cmdProgEna : BitVec 16 := 0x800
/-- `MCI_CMD__ENABLE___M`. -/
abbrev cmdEnable : BitVec 16 := 0x400
/-- `MCI_CMD__INTERRUPT___M`. -/
abbrev cmdInterrupt : BitVec 16 := 0x100
/-- `MCI_CMD__RESPONSE___M`. -/
abbrev cmdResponse : BitVec 16 := 0x40
/-- `MCI_CMD__CMD_INDEX___M`. -/
abbrev cmdIndexMask : BitVec 16 := 0x3f

/-- `CMD1`. -/
abbrev cmd1 : BitVec 16 := 0x01
/-- `CMD5`. -/
abbrev cmd5 : BitVec 16 := 0x05
/-- `CMD13`, `SEND_STATUS`. -/
abbrev cmd13 : BitVec 16 := 0x0d
/-- `CMD17`, `READ_SINGLE_BLOCK`. -/
abbrev cmd17 : BitVec 16 := 0x11
/-- `CMD24`, `WRITE_BLOCK`. -/
abbrev cmd24 : BitVec 16 := 0x18
/-- `ACMD41`. -/
abbrev acmd41 : BitVec 16 := 0x29
/-- `CMD55`. -/
abbrev cmd55 : BitVec 16 := 0x37

/-- `MCI_DATA_CTL__ENABLE___M`. -/
abbrev dataCtlEnable : U32 := 1
/-- `MCI_DATA_CTL__DIRECTION___M`. -/
abbrev dataCtlDirection : U32 := 2
/-- `BLOCK_SIZE << MCI_DATA_CTL__BLOCKSIZE___S`. -/
abbrev dataCtlBlocksize : U32 := 512 <<< 4

/-- `RD_DATA_TIMEOUT`. -/
abbrev rdDataTimeout : U32 := 2000000
/-- `WR_DATA_TIMEOUT`. -/
abbrev wrDataTimeout : U32 := 5000000

/-- A status word has one of the bits of a mask set. -/
def hasBit {w : Nat} (word mask : BitVec w) : Bool := word &&& mask != 0

/-! ### The code -/

variable {σ : Type} (io : Mci σ)

/-- `IO_READ32`. -/
def ioRead32 (r : MciReg) : Prog (Machine σ) U32 :=
  query fun m => ((io.read r m.dev).1, { m with dev := (io.read r m.dev).2 })

/-- `IO_WRITE32`. -/
def ioWrite32 (r : MciReg) (v : U32) : Prog (Machine σ) Unit :=
  modify fun m => { m with dev := io.write r v m.dev }

/-- `*p`, for a pointer to a word. -/
def loadWord (p : Nat) : Prog (Machine σ) U32 := query fun m => (Memory.load32 m.mem p, m)

/-- `*p = w`. -/
def storeWord (p : Nat) (w : U32) : Prog (Machine σ) Unit :=
  modify fun m => { m with mem := Memory.store32 p w m.mem }

/-- One poll of `MCI_STATUS`. -/
def pollStep (stop : U32 → Bool) (_ : Unit) : Prog (Machine σ) (Unit ⊕ U32) := do
  let mciStatus ← ioRead32 io .status
  return if stop mciStatus then .inr mciStatus else .inl ()

/-- Read `MCI_STATUS` until a status says to stop, and return that status. -/
def pollStatus (fuel : Nat) (stop : U32 → Bool) : Prog (Machine σ) U32 :=
  loop (pollStep io stop) fuel ()

/-- The command flags of a status. -/
structure CmdFlags where
  cmdTimeout : Bool
  cmdCrcFail : Bool
  cmdResponseEnd : Bool

/-- The flags `sdcc_send_cmd` takes from a status; it sees a timeout only while the interrupt
    of the command state machine is disabled. -/
def cmdFlags (cmd : BitVec 16) (mciStatus : U32) : CmdFlags where
  cmdTimeout := !hasBit cmd cmdInterrupt && hasBit mciStatus statusCmdTimeout
  cmdCrcFail := hasBit mciStatus statusCmdCrcFail
  cmdResponseEnd := hasBit mciStatus statusCmdResponseEnd

/-- The commands for which a CRC failure of the response is expected. -/
def ignoresCrc (cmdIndex : BitVec 16) : Bool :=
  cmdIndex == cmd5 || cmdIndex == acmd41 || cmdIndex == cmd1

/-- The condition that ends the wait for a response. -/
def cmdDone (cmd : BitVec 16) (f : CmdFlags) : Bool :=
  f.cmdCrcFail || f.cmdTimeout || f.cmdResponseEnd ||
    (ignoresCrc (cmd &&& cmdIndexMask) && f.cmdCrcFail)

/-- The result of a command with a response. -/
def cmdResult (cmd : BitVec 16) (arg : U32) (f : CmdFlags) : Bool :=
  let cmdIndex := cmd &&& cmdIndexMask
  if f.cmdResponseEnd || (f.cmdCrcFail && ignoresCrc cmdIndex) then true
  -- cards without these commands answer them with a timeout
  else if (cmdIndex == cmd5 && arg == 0 && f.cmdTimeout) ||
      (cmdIndex == cmd55 && arg == 0 && f.cmdTimeout) then true
  else false

/-- The four registers of the response, read in order. -/
def readResponse : Prog (Machine σ) (Fin 4 → U32) := do
  let words ← (List.finRange 4).mapM fun n => ioRead32 io (.resp n)
  return fun n => words.getD n 0

/-- `sdcc_send_cmd` once the command is programmed: its result, and the four response words
    if it reads them. -/
def awaitCmd (fuel : Nat) (cmd : BitVec 16) (arg : U32) :
    Prog (Machine σ) (Bool × Option (Fin 4 → U32)) := do
  if hasBit cmd cmdResponse then
    let mciStatus ← pollStatus io fuel (fun s => cmdDone cmd (cmdFlags cmd s))
    ioWrite32 io .clear statusCmdResponseEnd
    let _ ← pollStatus io fuel (fun s => !hasBit s statusCmdResponseEnd)
    ioWrite32 io .clear statusCmdTimeout
    ioWrite32 io .clear statusCmdCrcFail
    let response ← readResponse io
    return (cmdResult cmd arg (cmdFlags cmd mciStatus), some response)
  else
    let _ ← pollStatus io fuel (fun s => hasBit s statusCmdSent)
    ioWrite32 io .clear statusCmdSent
    let _ ← pollStatus io fuel (fun s => !hasBit s statusCmdSent)
    return (true, none)

/-- `sdcc_send_cmd`. -/
def sdccSendCmd (fuel : Nat) (cmd : BitVec 16) (arg : U32) :
    Prog (Machine σ) (Bool × Option (Fin 4 → U32)) := do
  ioWrite32 io .argument arg
  ioWrite32 io .cmd (cmd.setWidth 32)
  awaitCmd io fuel cmd arg

/-- The shared body of `check_clear_read_status` and `check_clear_write_status`: wait for the
    end of the block or one of the error bits, then clear the flags that are named. -/
def checkClearStatus (fuel : Nat) (errors cleared : U32) : Prog (Machine σ) Bool := do
  let mciStatus ← pollStatus io fuel (fun s => hasBit s errors || hasBit s statusDataBlkEnd)
  if hasBit mciStatus errors then return false
  else
    ioWrite32 io .clear statusDataBlkEnd
    ioWrite32 io .clear cleared
    let _ ← pollStatus io fuel (fun s => hasBit s statusDataend)
    ioWrite32 io .clear statusDataend
    let _ ← pollStatus io fuel (fun s => !hasBit s statusDataend)
    ioWrite32 io .clear statusDataBlkEnd
    return true

/-- `check_clear_read_status`. -/
def checkClearReadStatus (fuel : Nat) : Prog (Machine σ) Bool :=
  checkClearStatus io fuel
    (statusDataCrcFail ||| statusDataTimeout ||| statusRxOverrun ||| statusStartBitErr)
    (statusDataCrcFail ||| statusDataTimeout ||| statusRxOverrun ||| statusStartBitErr)

/-- `check_clear_write_status`; it checks the start bit error, but does not clear it. -/
def checkClearWriteStatus (fuel : Nat) : Prog (Machine σ) Bool :=
  checkClearStatus io fuel
    (statusDataCrcFail ||| statusDataTimeout ||| statusTxUnderrun ||| statusStartBitErr)
    (statusDataCrcFail ||| statusDataTimeout ||| statusTxUnderrun)

/-- The command argument of a block: its number on a high-capacity card, its byte address
    otherwise, both in 32 bits. -/
def commandAddress (highCapacity : Bool) (blockNumber : U32) : U32 :=
  if highCapacity then blockNumber else blockNumber * 512#32

/-- Where a block transfer stands: the pointer into the buffer, and `byte_count`. -/
structure Cursor where
  buffer : Nat
  byteCount : Nat

/-- The cursor a word later. -/
def Cursor.next (c : Cursor) : Cursor := ⟨c.buffer + 4, c.byteCount + 4⟩

/-- The loop of `read_a_block`; the result says whether the block was read. -/
def readLoop (fuel : Nat) : Cursor → Prog (Machine σ) Bool :=
  loop (fun c => do
    if c.byteCount < blockSize then
      let mciStatus ← ioRead32 io .status
      if hasBit mciStatus statusRxdataAvlbl then
        let w ← ioRead32 io .fifo
        storeWord c.buffer w
        return .inl c.next
      else if hasBit mciStatus statusRxactive then return .inl c
      -- the transfer has ended before the block was complete
      else return .inr false
    else return .inr true) fuel

/-- `read_a_block`. -/
def readABlock (fuel : Nat) (highCapacity : Bool) (blockNumber : U32) (readBuffer : Nat) :
    Prog (Machine σ) Bool := do
  let address := commandAddress highCapacity blockNumber
  ioWrite32 io .dataTimer rdDataTimeout
  ioWrite32 io .dataLength 512#32
  ioWrite32 io .dataCtl (dataCtlEnable ||| dataCtlDirection ||| dataCtlBlocksize)
  let r ← sdccSendCmd io fuel (cmd17 ||| cmdEnable ||| cmdResponse) address
  if !r.1 then return false
  else
    let ok ← readLoop io fuel ⟨readBuffer, 0⟩
    if !ok then return false
    else checkClearReadStatus io fuel

/-- One word of `write_a_block`, if the FIFO has room for it: the cursor after it. -/
def pushWord (mciStatus : U32) (c : Cursor) : Prog (Machine σ) Cursor :=
  if hasBit mciStatus statusTxfifoFull then pure c
  else do
    let w ← loadWord c.buffer
    ioWrite32 io .fifo w
    return c.next

/-- The loop of `write_a_block`; the result says whether the block was written. -/
def writeLoop (fuel : Nat) : Cursor → Prog (Machine σ) Bool :=
  loop (fun c => do
    if c.byteCount < blockSize then
      let mciStatus ← ioRead32 io .status
      let c' ← pushWord io mciStatus c
      -- the errors are those of the status read before the word was written
      if hasBit mciStatus (statusCmdCrcFail ||| statusDataTimeout ||| statusTxUnderrun) then
        return .inr false
      else return .inl c'
    else return .inr true) fuel

/-- The end of `write_a_block`: `SEND_STATUS`, and the wait for the card to have programmed the
    block. -/
def writeEnd (fuel : Nat) (rca : BitVec 16) : Prog (Machine σ) Bool := do
  let r ← sdccSendCmd io fuel (cmd13 ||| cmdEnable ||| cmdResponse ||| cmdProgEna)
    (rca.setWidth 32 <<< 16)
  if !r.1 then return false
  else
    let _ ← pollStatus io fuel (fun s => hasBit s statusProgDone)
    ioWrite32 io .clear statusProgDone
    let _ ← pollStatus io fuel (fun s => !hasBit s statusProgDone)
    return true

/-- `write_a_block`. -/
def writeABlock (fuel : Nat) (highCapacity : Bool) (blockNumber : U32) (writeBuffer : Nat)
    (rca : BitVec 16) : Prog (Machine σ) Bool := do
  let address := commandAddress highCapacity blockNumber
  ioWrite32 io .dataTimer wrDataTimeout
  ioWrite32 io .dataLength 512#32
  let r ← sdccSendCmd io fuel (cmd24 ||| cmdEnable ||| cmdResponse) address
  if !r.1 then return false
  else
    -- unlike a read, a write enables the data path after its command
    ioWrite32 io .dataCtl (dataCtlEnable ||| dataCtlBlocksize)
    let ok ← writeLoop io fuel ⟨writeBuffer, 0⟩
    if !ok then return false
    else
      let clear ← checkClearWriteStatus io fuel
      if !clear then return false
      else writeEnd io fuel rca

end HtcLeo.SdCard

import Mathlib.Data.BitVec
import HtcLeo.Lib.Memory
import HtcLeo.Lib.Prog
import HtcLeo.Uefi

namespace HtcLeo.I2c

open Prog

/-!
# I2CDxe — the transfer record and the bus

The data of `GPLDrivers/I2CDxe/I2CDxe.c`: messages, the global `dev` record and the static
`timeout`, and what the driver sees of the hardware around it.

* `Event` — an access of the driver to the controller, a pin, a buffer, the clock or the
  interrupt line.  A run leaves the list of its events, newest first.
* `Board` — the hardware: the registers and pins read as they may depend on all events so
  far, and so do the interrupts.  A board is thus an arbitrary sequence of status values and
  interrupts, which may also react to what the driver does.
* `World` — the state a run changes.
-/

/-- A word for `I2C_WRITE_DATA`, the `uint16_t val` of the driver. -/
abbrev Word := BitVec 16

/-- `struct i2c_msg`; `buf` is an address. -/
structure I2cMsg where
  addr : Word
  flags : Word
  len : Nat
  buf : Nat
  deriving DecidableEq, Repr

/-- `flags & I2C_M_RD`. -/
def I2cMsg.isRead (m : I2cMsg) : Bool := m.flags &&& 0x0001#16 != 0#16

/-- The `msgs` argument of a transfer: an array at some address, with `num` elements. -/
structure MsgArray where
  base : Nat
  msgs : List I2cMsg
  nonempty : msgs ≠ []
  deriving DecidableEq

/-- `num`. -/
def MsgArray.num (array : MsgArray) : Int := array.msgs.length

/-- A pointer to an element of an array. -/
structure MsgPtr where
  array : MsgArray
  index : Nat
  deriving DecidableEq

/-- The element, if there is one. -/
def MsgPtr.deref? (p : MsgPtr) : Option I2cMsg := p.array.msgs[p.index]?

/-- `struct msm_i2c_dev`, without the constant `pdata`. -/
structure MsmI2cDev where
  msg : Option MsgPtr
  rem : Int
  pos : Int
  cnt : Int
  ret : Int
  needFlush : Bool
  flushCnt : Nat

/-! ### Register bits and codes -/

def addrByte : Word := 1#16 <<< 8
def lastByte : Word := 1#16 <<< 9

def statusWrBufferFull : U32 := 1#32 <<< 0
def statusRdBufferFull : U32 := 1#32 <<< 1
def statusBusActive : U32 := 1#32 <<< 8
def statusBusMaster : U32 := 1#32 <<< 9
def statusErrorMask : U32 := 0xfc#32

/-- `ERROR`, `ERR_NOT_READY` and `ERR_TIMED_OUT`. -/
def error : Int := -1
def errNotReady : Int := -3
def errTimedOut : Int := -13

/-- The bits of a status value the driver tests. -/
def wrFull (status : U32) : Bool := status &&& statusWrBufferFull != 0#32
def rdFull (status : U32) : Bool := status &&& statusRdBufferFull != 0#32
def hasError (status : U32) : Bool := status &&& statusErrorMask != 0#32
def busActive (status : U32) : Bool := status &&& statusBusActive != 0#32
def busMaster (status : U32) : Bool := status &&& statusBusMaster != 0#32

/-! ### Events -/

/-- The busy waits and recoveries of a transfer, in the order of the source. -/
inductive Stage
  | first | second | last
  deriving DecidableEq

/-- Who reads `I2C_STATUS`: the engine, or a busy wait or a recovery of a call.  A recovery
    reads it before and after it pulses the bus. -/
inductive Reader
  | engine
  | wait (call : MsgArray) (stage : Stage)
  | busy (call : MsgArray) (stage : Stage)
  | recovered (call : MsgArray) (stage : Stage)
  deriving DecidableEq

/-- A point of a call of `msm_i2c_xfer` at which something else can run: `k` counts the
    statements of a phase, where several of them have no event. -/
inductive Place
  | entry
  | enable
  | wait (stage : Stage)
  | recovery (stage : Stage)
  | setup (k : Nat)
  | engine (k : Nat)
  | teardown (k : Nat)
  | verdict
  | disable
  | exit
  deriving DecidableEq

/-- The two pins of the bus. -/
inductive Pin
  | scl | sda
  deriving DecidableEq

/-- What the driver does to the world, with what it is done for: the message of a word or a
    byte, and the address of the byte in its buffer.  The last four are not visible outside:
    the engine finds the transfer complete, it finds an error, a call takes the result from
    `dev.ret`, and a call that a timer callback made at a place of another one returns. -/
inductive Event
  | clk (on : Bool)
  | irq (on : Bool)
  | status (reader : Reader) (value : U32)
  | address (p : MsgPtr) (w : Word)
  | sent (p : MsgPtr) (a : Nat) (w : Word)
  | stop (w : Word)
  | stored (p : MsgPtr) (a : Nat) (byte : Byte)
  | dropped (byte : Byte)
  | mux (toI2c : Bool)
  | pinGet (pin : Pin) (level : Bool)
  | pinLow (pin : Pin)
  | pinInput (pin : Pin)
  | done
  | aborted (p : MsgPtr)
  | taken (call : MsgArray) (ret : Int)
  | returned (place : Place) (call : MsgArray) (ret : Int)
  deriving DecidableEq

/-- The events of a run, newest first. -/
abbrev History := List Event

/-- The hardware: the values of `I2C_STATUS`, `I2C_READ_DATA` and the pins, and how often the
    interrupt comes at a point, by what happened before. -/
structure Board where
  status : History → U32
  data : History → Byte
  pin : History → Pin → Bool
  irqs : Place → History → Nat

/-- The interrupt line is enabled. -/
def irqEnabled : History → Bool
  | []           => false
  | .irq on :: _ => on
  | _ :: h       => irqEnabled h

/-- The clock of the controller is enabled; enabling does not count. -/
def clkEnabled : History → Bool
  | []           => false
  | .clk on :: _ => on
  | _ :: h       => clkEnabled h

/-- The state of a run. -/
structure World where
  dev : MsmI2cDev
  timeout : Int
  mem : Memory
  log : History

/-! ### Accesses -/

/-- One more event. -/
def World.push (s : World) (e : Event) : World := { s with log := e :: s.log }

/-- Record an event. -/
def emit (e : Event) : Prog World Unit := modify (·.push e)

/-- Read `I2C_STATUS`. -/
def readStatus (b : Board) (reader : Reader) : Prog World U32 :=
  query fun s => (b.status s.log, s.push (.status reader (b.status s.log)))

/-- Read fields of `dev`, after whatever comes before the statement. -/
def getDev {α : Type} (pre : Prog World Unit) (f : MsmI2cDev → α) : Prog World α := do
  pre
  query fun s => (f s.dev, s)

/-- Assign to a field of `dev`. -/
def setDev (pre : Prog World Unit) (f : MsmI2cDev → MsmI2cDev) : Prog World Unit := do
  pre
  modify fun s => { s with dev := f s.dev }

/-- `*dev.msg`.  Without a message to point to this is undefined, and has no result. -/
def derefMsg : Prog World (MsgPtr × I2cMsg) := fun s =>
  match s.dev.msg with
  | none   => (none, s)
  | some p =>
    match p.deref? with
    | none   => (none, s)
    | some m => (some (p, m), s)

end HtcLeo.I2c

import HtcLeo.Uefi
import HtcLeo.Lib.BitMask
import Mathlib.Data.Fintype.Basic
import Mathlib.Logic.Function.Basic

namespace HtcLeo.Sirc

open BitMask

/-!
# SircDxe — the secondary interrupt controller

The driver of `Drivers/SircDxe/SircDxe.c`: the SIRC registers it touches, its table of
lines, and the registration of a line.

* `Store` — the individual stores and register writes `SircRegisterLine` is made of, in
  program order (`registerLineStores`): an interrupt can be taken between any two of them.
* `sircRegisterLine` — all of them, one after the other.
* `lineCall` — the call the interrupt handler owes a line: to the handler of a pending line,
  with the context stored next to it.
-/

/-- `HTCLEO_SIRC_NUM_LINES`. -/
abbrev numLines : Nat := 23

/-- `HTCLEO_SIRC_EDGE`. -/
def sircEdge : U32 := 1
/-- `HTCLEO_SIRC_NEGATIVE`; the same bit as `HTCLEO_SIRC_EDGE`. -/
def sircNegative : U32 := 1

/-! ### The register file -/

/-- The SIRC registers of `Chipset/interrupts.h` that the driver reads or writes. -/
inductive SircReg
  | intSelect | intEnable | intEnclear | intEnset | intType | intPolarity
  | irq0Status | rawStatus | intAck
  deriving DecidableEq, Repr

/-- The contents of the SIRC registers. -/
abbrev SircRegs := SircReg → U32

/-- `MmioWrite32` to a SIRC register.  `SIRC_INT_ENSET` and `SIRC_INT_ENCLEAR` set and clear
    the written bits of `SIRC_INT_ENABLE`, and `SIRC_INT_ACK` clears latched bits. -/
def mmioWrite32 (r : SircReg) (v : U32) (regs : SircRegs) : SircRegs :=
  match r with
  -- the set and clear registers act on the enable mask and hold nothing themselves
  | .intEnset   => Function.update regs .intEnable (regs .intEnable ||| v)
  | .intEnclear => Function.update regs .intEnable (regs .intEnable &&& ~~~v)
  | .intAck     => Function.update regs .rawStatus (regs .rawStatus &&& ~~~v)
  | r           => Function.update regs r v

/-- `MmioRead32` from a SIRC register.  `SIRC_IRQ0_STATUS` shows the pending lines that are
    enabled and routed to IRQ0. -/
def mmioRead32 (r : SircReg) (regs : SircRegs) : U32 :=
  match r with
  | .irq0Status => regs .rawStatus &&& regs .intEnable &&& ~~~(regs .intSelect)
  | r           => regs r

/-! ### The driver -/

variable {H C : Type}

/-- An entry of `mLine`; `none` is `NULL`. -/
structure SircLine (H C : Type) where
  handler : Option H
  context : Option C

/-- State of the driver: the SIRC, `mLine`, and `mSircProtocol.IrqCount`. -/
structure SircDxe (H C : Type) where
  regs : SircRegs
  mLine : Fin numLines → SircLine H C
  irqCount : Fin numLines → BitVec 64

/-- One store of `SircRegisterLine`, to a field of `mLine[Line]` or to a register. -/
inductive Store (H C : Type)
  | handler (line : Fin numLines) (h : Option H)
  | context (line : Fin numLines) (c : Option C)
  | write (r : SircReg) (v : U32)
  | or (r : SircReg) (v : U32)
  | and (r : SircReg) (v : U32)

/-- The effect of one store. -/
def Store.exec (d : SircDxe H C) : Store H C → SircDxe H C
  | .handler line h =>
      { d with mLine := Function.update d.mLine line { d.mLine line with handler := h } }
  | .context line c =>
      { d with mLine := Function.update d.mLine line { d.mLine line with context := c } }
  | .write r v => { d with regs := mmioWrite32 r v d.regs }
  | .or r v    => { d with regs := mmioWrite32 r (mmioRead32 r d.regs ||| v) d.regs }
  | .and r v   => { d with regs := mmioWrite32 r (mmioRead32 r d.regs &&& v) d.regs }

/-- `1u << Line`. -/
def lineBit (line : Fin numLines) : U32 := 1#32 <<< (line : Nat)

/-- The stores of `SircRegisterLine` on a line of the table, after the first one. -/
def laterStores (line : Fin numLines) (flags : U32) (handler : Option H) (context : Option C) :
    List (Store H C) :=
  match handler with
  | none =>
      -- the line is cleared in the table before it is disabled
      [.context line none,
       .write .intEnclear (lineBit line)]
  | some _ =>
      [.context line context,
       .write .intEnclear (lineBit line),
       if flags &&& sircEdge ≠ 0#32 then .or .intType (lineBit line)
         else .and .intType (~~~lineBit line),
       if flags &&& sircNegative ≠ 0#32 then .or .intPolarity (lineBit line)
         else .and .intPolarity (~~~lineBit line),
       .write .intEnset (lineBit line)]

/-- The stores of `SircRegisterLine` on a line of the table.  A `NULL` handler unregisters. -/
def registerLineStores (line : Fin numLines) (flags : U32) (handler : Option H)
    (context : Option C) : List (Store H C) :=
  .handler line handler :: laterStores line flags handler context

/-- `SircRegisterLine`, run without an interrupt. -/
def sircRegisterLine (line flags : U32) (handler : Option H) (context : Option C)
    (d : SircDxe H C) : EfiStatus × SircDxe H C :=
  if h : line.toNat < numLines then
    (.success, (registerLineStores ⟨line.toNat, h⟩ flags handler context).foldl Store.exec d)
  else (.outOfResources, d)

/-- A call the interrupt handler makes: `mLine[Line].Handler (mLine[Line].Context)`. -/
structure LineCall (H C : Type) where
  line : Fin numLines
  handler : H
  context : Option C
  deriving DecidableEq

/-- The driver after `SircDxeInitialize`, on a SIRC whose registers hold `hw`; `mLine` and
    the counts are zero-initialised globals. -/
def sircDxeInitialize (hw : SircRegs) : SircDxe H C where
  regs := mmioWrite32 .intEnable 0 <| mmioWrite32 .intPolarity 0 <|
    mmioWrite32 .intType 0 <| mmioWrite32 .intSelect 0 hw
  mLine := fun _ => ⟨none, none⟩
  irqCount := fun _ => 0

/-- The enable bit of a line. -/
def lineEnabled (d : SircDxe H C) (line : Fin numLines) : Bool :=
  (d.regs .intEnable).getLsbD line

/-! ### What each store does -/

section Stores

variable (d : SircDxe H C) (line other : Fin numLines)

@[simp] theorem exec_handler_regs (h : Option H) :
    (Store.exec d (.handler line h)).regs = d.regs := rfl

@[simp] theorem exec_context_regs (c : Option C) :
    (Store.exec d (.context line c)).regs = d.regs := rfl

@[simp] theorem exec_write_mLine (r : SircReg) (v : U32) :
    (Store.exec d (.write r v)).mLine = d.mLine := rfl

@[simp] theorem exec_or_mLine (r : SircReg) (v : U32) :
    (Store.exec d (.or r v)).mLine = d.mLine := rfl

@[simp] theorem exec_and_mLine (r : SircReg) (v : U32) :
    (Store.exec d (.and r v)).mLine = d.mLine := rfl

@[simp] theorem exec_handler_lineEnabled (h : Option H) :
    lineEnabled (Store.exec d (.handler line h)) other = lineEnabled d other := rfl

@[simp] theorem exec_context_lineEnabled (c : Option C) :
    lineEnabled (Store.exec d (.context line c)) other = lineEnabled d other := rfl

/-- `SIRC_INT_ENSET` enables the line and no other. -/
theorem exec_enset_lineEnabled :
    lineEnabled (Store.exec d (.write .intEnset (lineBit line))) other
      = (lineEnabled d other || decide (other = line)) := by
  have hlt : (line : Nat) < 32 := lt_trans line.isLt (by decide)
  rw [lineEnabled]
  show (d.regs .intEnable ||| 1#32 <<< (line : Nat)).getLsbD other = _
  rw [getLsbD_or_bit _ hlt]
  simp [lineEnabled, Fin.ext_iff]

/-- `SIRC_INT_ENCLEAR` disables the line and no other. -/
theorem exec_enclear_lineEnabled :
    lineEnabled (Store.exec d (.write .intEnclear (lineBit line))) other
      = (lineEnabled d other && decide (other ≠ line)) := by
  rw [lineEnabled]
  show (d.regs .intEnable &&& ~~~(1#32 <<< (line : Nat))).getLsbD other = _
  rw [getLsbD_and_not_bit]
  simp [lineEnabled, Fin.ext_iff]

/-- A read-modify-write of the type or polarity register leaves the lines, the routing and the
    enable mask alone. -/
theorem exec_modify_frame {r : SircReg} (hr : r = .intType ∨ r = .intPolarity) {v w : U32}
    {st : Store H C} (hst : st = .or r v ∨ st = .and r w) :
    (st.exec d).mLine = d.mLine ∧ (st.exec d).regs .intSelect = d.regs .intSelect ∧
      ∀ l, lineEnabled (st.exec d) l = lineEnabled d l := by
  rcases hr with rfl | rfl
  · rcases hst with rfl | rfl
    · exact ⟨rfl, rfl, fun _ => rfl⟩
    · exact ⟨rfl, rfl, fun _ => rfl⟩
  · rcases hst with rfl | rfl
    · exact ⟨rfl, rfl, fun _ => rfl⟩
    · exact ⟨rfl, rfl, fun _ => rfl⟩

end Stores

/-! ### What the interrupt handler owes -/

/-- The call the handler owes a line under a status word. -/
def lineCall (d : SircDxe H C) (status : U32) (line : Fin numLines) : Option (LineCall H C) :=
  if status.getLsbD line then
    (d.mLine line).handler.map fun h => ⟨line, h, (d.mLine line).context⟩
  else none

/-- The calls owed do not depend on what is outside the table. -/
theorem lineCall_congr {d d' : SircDxe H C} (h : d.mLine = d'.mLine) (status : U32) :
    lineCall d status = lineCall d' status := by
  funext line
  rw [lineCall, lineCall, h]

end HtcLeo.Sirc

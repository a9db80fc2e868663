import HtcLeo.Lib.BitMask
import HtcLeo.Uefi
import Mathlib.Logic.Function.Basic

namespace HtcLeo.Interrupt

open BitMask

/-!
# InterruptDxe — the VIC and the handler table

The driver of `Drivers/InterruptDxe/InterruptDxe.c`: the registers of the vectored
interrupt controller it touches, its table of registered handlers, and its functions.

* `Vic`, `mmioWrite32` — the register file.  Writes to `VIC_INT_ENSETn` and
  `VIC_INT_ENCLEARn` set and clear the written bits of the enable mask `VIC_INT_ENn`;
  every other register stores what is written to it.
* `IrqDxe` — the driver's state, with the indices at which the table has been accessed.
* `registerInterruptSource` … `irqInterruptHandler` — the functions of the source.
* `lineEnabled`, `vicLine` — the 64 lines of the two enable masks and the line a source
  number selects; the `*_lineEnabled` lemmas say what each function does to them.
-/

/-! ### Interrupt numbers (`Chipset/irqs.h`) -/

/-- `NR_MSM_IRQS`: the lines of the VIC itself. -/
def nrMsmIrqs : Nat := 64
/-- `NR_SIRC_IRQS`. -/
def nrSircIrqs : Nat := 23
/-- `NR_GPIO_IRQS`. -/
def nrGpioIrqs : Nat := 165
/-- `NR_BOARD_IRQS`. -/
def nrBoardIrqs : Nat := 64
/-- `NR_MICROP_IRQS`. -/
def nrMicropIrqs : Nat := 16

/-- `NR_IRQS`: the number of entries of `gRegisteredInterruptHandlers`, and the largest
    `Source` the driver accepts (`Source > NR_IRQS` is refused). -/
def nrIrqs : Nat := nrMsmIrqs + nrSircIrqs + nrGpioIrqs + nrBoardIrqs + nrMicropIrqs

/-- `INT_GPIO_GROUP1`, the source `GpioDxeInitialize` registers `MsmGpioIsr` for. -/
def intGpioGroup1 : U32 := 64 + 9

/-! ### The register file -/

/-- The VIC registers of `Chipset/interrupts.h` that the driver reads or writes. -/
inductive VicReg
  | intSelect0 | intSelect1 | intEn0 | intEn1 | intEnclear0 | intEnclear1
  | intEnset0 | intEnset1 | intType0 | intType1 | intMasteren | config
  | intClear0 | intClear1 | irqVecRd | irqVecWr
  deriving DecidableEq, Repr

/-- The contents of the VIC registers. -/
abbrev Vic := VicReg → U32

/-- `MmioWrite32` to a VIC register. -/
def mmioWrite32 (r : VicReg) (v : U32) (vic : Vic) : Vic :=
  match r with
  -- the set and clear registers act on the enable mask and hold nothing themselves
  | .intEnset0   => Function.update vic .intEn0 (vic .intEn0 ||| v)
  | .intEnset1   => Function.update vic .intEn1 (vic .intEn1 ||| v)
  | .intEnclear0 => Function.update vic .intEn0 (vic .intEn0 &&& ~~~v)
  | .intEnclear1 => Function.update vic .intEn1 (vic .intEn1 &&& ~~~v)
  | r            => Function.update vic r v

/-- The bit of a source in its bank, `1 << (Source & 31)`. -/
def sourceBit (source : U32) : U32 := 1#32 <<< (source &&& 31#32).toNat

/-- The enable mask of a source's bank: `VIC_INT_EN1` above 31, `VIC_INT_EN0` otherwise. -/
def intEnReg (source : U32) : VicReg := if 31#32 < source then .intEn1 else .intEn0

/-! ### The driver's state and functions -/

/-- State of the driver: the VIC, the handler table, and (ghost) the indices at which the
    table has been read or written, the latest first.  Slots at or past `nrIrqs` stand for
    the memory behind the table. -/
structure IrqDxe (H : Type) where
  vic : Vic
  gRegisteredInterruptHandlers : Nat → Option H
  accesses : List Nat

variable {H : Type}

namespace IrqDxe

/-- A store to a VIC register. -/
def write (d : IrqDxe H) (r : VicReg) (v : U32) : IrqDxe H :=
  { d with vic := mmioWrite32 r v d.vic }

/-- A load from the handler table. -/
def readHandler (d : IrqDxe H) (i : Nat) : Option H × IrqDxe H :=
  (d.gRegisteredInterruptHandlers i, { d with accesses := i :: d.accesses })

/-- A store to the handler table. -/
def writeHandler (d : IrqDxe H) (i : Nat) (h : Option H) : IrqDxe H :=
  { d with
    gRegisteredInterruptHandlers := Function.update d.gRegisteredInterruptHandlers i h
    accesses := i :: d.accesses }

end IrqDxe

/-- `InitInterrupts`. -/
def initInterrupts (d : IrqDxe H) : IrqDxe H :=
  let d := d.write .intClear0 0xffffffff
  let d := d.write .intClear1 0xffffffff
  let d := d.write .intSelect0 0
  let d := d.write .intSelect1 0
  let d := d.write .intType0 0xffffffff
  let d := d.write .intType1 0xffffffff
  let d := d.write .config 0
  let d := d.write .intEn0 1
  let d := d.write .intEn1 1
  d.write .intMasteren 1

/-- `EnableInterruptSource`. -/
def enableInterruptSource (source : U32) (d : IrqDxe H) : EfiStatus × IrqDxe H :=
  if nrIrqs < source.toNat then (.unsupported, d)
  else
    let reg : VicReg := if 31#32 < source then .intEnset1 else .intEnset0
    (.success, d.write reg (sourceBit source))

/-- `DisableInterruptSource`. -/
def disableInterruptSource (source : U32) (d : IrqDxe H) : EfiStatus × IrqDxe H :=
  if nrIrqs < source.toNat then (.unsupported, d)
  else
    let reg : VicReg := if 31#32 < source then .intEnclear1 else .intEnclear0
    (.success, d.write reg (sourceBit source))

/-- `RegisterInterruptSource`; a `none` handler is `NULL` and unregisters. -/
def registerInterruptSource (source : U32) (handler : Option H) (d : IrqDxe H) :
    EfiStatus × IrqDxe H :=
  if nrIrqs < source.toNat then (.unsupported, d)
  else
    let (old, d) := d.readHandler source.toNat
    if handler.isNone && old.isNone then (.invalidParameter, d)
    else if handler.isSome && old.isSome then (.alreadyStarted, d)
    -- `NULL` is stored by the same path, which ends in enabling the source
    else enableInterruptSource source (d.writeHandler source.toNat handler)

/-- `GetInterruptSourceState`: the status, and the `InterruptState` it stores if any. -/
def getInterruptSourceState (source : U32) (d : IrqDxe H) : EfiStatus × Option Bool :=
  if nrIrqs < source.toNat then (.unsupported, none)
  else
    -- the source reads the clear registers, not the enable masks
    let reg : VicReg := if 31#32 < source then .intEnclear1 else .intEnclear0
    let bit := sourceBit source
    if d.vic reg &&& bit = bit then (.success, some false) else (.success, some true)

/-- `IrqInterruptHandler`: the handlers it calls, each with the vector it is passed. -/
def irqInterruptHandler (d : IrqDxe H) : List (H × U32) × IrqDxe H :=
  let vector := d.vic .irqVecRd
  let d := d.write (if 31#32 < vector then .intClear1 else .intClear0) (sourceBit vector)
  -- the vector is not compared with `NR_IRQS`
  let (interruptHandler, d) := d.readHandler vector.toNat
  let calls := match interruptHandler with
    | some h => [(h, vector)]
    | none   => []
  (calls, d.write .irqVecWr 0)

/-! ### Lines of the enable masks -/

/-- The enable bit of VIC line `line` (`0 … 63`). -/
def lineEnabled (d : IrqDxe H) (line : Nat) : Bool :=
  if line < 32 then (d.vic .intEn0).getLsbD line else (d.vic .intEn1).getLsbD (line - 32)

/-- The VIC line a source number selects: bit `Source & 31` of its bank. -/
def vicLine (source : U32) : Nat :=
  if 31 < source.toNat then 32 + source.toNat % 32 else source.toNat

theorem vicLine_lt (source : U32) : vicLine source < 64 := by
  unfold vicLine
  split <;> omega

/-- The first 64 sources are the VIC lines themselves. -/
theorem vicLine_of_lt {source : U32} (h : source.toNat < 64) : vicLine source = source.toNat := by
  unfold vicLine
  split <;> omega

theorem and_31_toNat (source : U32) : (source &&& 31#32).toNat = source.toNat % 32 := by
  rw [BitVec.toNat_and]
  exact Nat.and_two_pow_sub_one_eq_mod source.toNat 5

theorem sourceBit_eq (source : U32) : sourceBit source = 1#32 <<< (source.toNat % 32) := by
  rw [sourceBit, and_31_toNat]

/-! ### What each function does to the lines -/

/-- A rejected source changes nothing. -/
theorem enable_of_gt {source : U32} (h : nrIrqs < source.toNat) (d : IrqDxe H) :
    enableInterruptSource source d = (.unsupported, d) := if_pos h

theorem disable_of_gt {source : U32} (h : nrIrqs < source.toNat) (d : IrqDxe H) :
    disableInterruptSource source d = (.unsupported, d) := if_pos h

theorem register_of_gt {source : U32} (h : nrIrqs < source.toNat) (handler : Option H)
    (d : IrqDxe H) : registerInterruptSource source handler d = (.unsupported, d) := if_pos h

/-- Enabling an accepted source sets its line and no other. -/
theorem enable_lineEnabled {source : U32} (h : source.toNat ≤ nrIrqs) (d : IrqDxe H)
    (line : Nat) :
    lineEnabled (enableInterruptSource source d).2 line
      = (lineEnabled d line || decide (line = vicLine source)) := by
  have hlt : source.toNat % 32 < 32 := Nat.mod_lt _ (by decide)
  simp only [enableInterruptSource, if_neg (Nat.not_lt.mpr h), lineEnabled, vicLine,
    IrqDxe.write, BitVec.lt_def, BitVec.toNat_ofNat, sourceBit_eq]
  by_cases hs : 31 < source.toNat
  · -- the second bank
    simp only [if_pos hs, mmioWrite32, Function.update_self, ne_eq, reduceCtorEq,
      not_false_eq_true, Function.update_of_ne, getLsbD_or_bit _ hlt]
    grind
  · -- the first bank
    simp only [if_neg hs, mmioWrite32, Function.update_self, ne_eq, reduceCtorEq,
      not_false_eq_true, Function.update_of_ne, getLsbD_or_bit _ hlt]
    grind

/-- Disabling an accepted source clears its line and no other. -/
theorem disable_lineEnabled {source : U32} (h : source.toNat ≤ nrIrqs) (d : IrqDxe H)
    {line : Nat} (hline : line < 64) :
    lineEnabled (disableInterruptSource source d).2 line
      = (lineEnabled d line && decide (line ≠ vicLine source)) := by
  have hlt : source.toNat % 32 < 32 := Nat.mod_lt _ (by decide)
  simp only [disableInterruptSource, if_neg (Nat.not_lt.mpr h), lineEnabled, vicLine,
    IrqDxe.write, BitVec.lt_def, BitVec.toNat_ofNat, sourceBit_eq]
  by_cases hs : 31 < source.toNat
  · -- the second bank
    simp only [if_pos hs, mmioWrite32, Function.update_self, ne_eq, reduceCtorEq,
      not_false_eq_true, Function.update_of_ne, getLsbD_and_not_bit]
    grind
  · -- the first bank
    simp only [if_neg hs, mmioWrite32, Function.update_self, ne_eq, reduceCtorEq,
      not_false_eq_true, Function.update_of_ne, getLsbD_and_not_bit]
    grind

@[simp] theorem readHandler_vic (d : IrqDxe H) (i : Nat) : (d.readHandler i).2.vic = d.vic := rfl

@[simp] theorem writeHandler_vic (d : IrqDxe H) (i : Nat) (h : Option H) :
    (d.writeHandler i h).vic = d.vic := rfl

@[simp] theorem enable_handlers (source : U32) (d : IrqDxe H) :
    (enableInterruptSource source d).2.gRegisteredInterruptHandlers
      = d.gRegisteredInterruptHandlers := by
  unfold enableInterruptSource
  split <;> rfl

@[simp] theorem disable_handlers (source : U32) (d : IrqDxe H) :
    (disableInterruptSource source d).2.gRegisteredInterruptHandlers
      = d.gRegisteredInterruptHandlers := by
  unfold disableInterruptSource
  split <;> rfl

/-- Registration of an accepted source either refuses (handler and slot both empty, or both
    filled) after having looked at the slot, or stores the handler and enables the line —
    whether the handler is there or `NULL`. -/
theorem register_cases {source : U32} (h : source.toNat ≤ nrIrqs) (handler : Option H)
    (d : IrqDxe H) :
    (handler.isSome = (d.gRegisteredInterruptHandlers source.toNat).isSome ∧
      (registerInterruptSource source handler d).1 ≠ .success ∧
      (registerInterruptSource source handler d).1 ≠ .unsupported ∧
      (registerInterruptSource source handler d).2 = (d.readHandler source.toNat).2) ∨
    (handler.isSome ≠ (d.gRegisteredInterruptHandlers source.toNat).isSome ∧
      registerInterruptSource source handler d
        = enableInterruptSource source
            ((d.readHandler source.toNat).2.writeHandler source.toNat handler)) := by
  simp only [registerInterruptSource, if_neg (Nat.not_lt.mpr h), IrqDxe.readHandler]
  obtain hold | ⟨old, hold⟩ :=
    Option.eq_none_or_eq_some (d.gRegisteredInterruptHandlers source.toNat)
  · -- a free slot takes a handler and refuses `NULL`
    cases handler <;> simp [hold]
  · -- a filled one takes `NULL` only
    cases handler <;> simp [hold]

end HtcLeo.Interrupt

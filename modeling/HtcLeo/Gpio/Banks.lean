import HtcLeo.Lib.BitMask
import HtcLeo.Lib.Prog
import HtcLeo.Uefi
import Mathlib.Tactic.IntervalCases

namespace HtcLeo.Gpio

open BitMask

/-!
# GpioDxe — the pin banks

The register banks of `Drivers/GpioDxe/GpioDxe.c` and the functions of the `TLMM_GPIO` protocol.

* `gpioRegs`, `findGpio` — the banks and the pins they hold; `findGpio_pin` says that a pin is
  found in its bank, at its bit.
* `Tlmm`, `readl`, `writel` — the registers.  Bits of pins a bank does not have read as 0, and
  a write to `int_clear` clears the written bits of `int_status`.
* `gpioIntStatus`, `straddle` — the addresses of `int_status`; that of bank 6 is misaligned.
* `gpioConfig`, `gpioSet`, `gpioGet` — the protocol.
* `pinLevel` — what a pin is driven to.
-/

/-! ### Banks -/

/-- The pins of an entry of `GPIO_REGS`; `last` is its `end`. -/
structure GpioRegs where
  start : Nat
  last : Nat
  deriving DecidableEq, Repr

/-- `GPIO_REGS`. -/
def gpioRegs : List GpioRegs :=
  [⟨0, 15⟩, ⟨16, 42⟩, ⟨43, 67⟩, ⟨68, 94⟩, ⟨95, 103⟩, ⟨104, 121⟩, ⟨122, 152⟩, ⟨153, 164⟩]

/-- The bank at an index of `GPIO_REGS`. -/
def bank (i : Nat) : GpioRegs := gpioRegs.getD i ⟨0, 0⟩

/-- The bank has a pin at the bit. -/
def HasPin (i p : Nat) : Prop := p ≤ (bank i).last - (bank i).start

instance (i p : Nat) : Decidable (HasPin i p) := inferInstanceAs (Decidable (_ ≤ _))

/-- The bits of a bank that have a pin. -/
def pinMask (i : Nat) : U32 := BitVec.ofNat 32 (2 ^ ((bank i).last - (bank i).start + 1) - 1)

/-- `find_gpio`: the index of the bank, and the bit of the pin in it. -/
def findGpio (n : Nat) : Option (Nat × U32) :=
  if (bank (gpioRegs.length - 1)).last < n then none
  else match gpioRegs.findIdx? fun r => r.start ≤ n ∧ n ≤ r.last with
    | some i => some (i, 1#32 <<< (n - (bank i).start))
    | none => some (gpioRegs.length - 1, 0#32)  -- no such pin: the banks leave no gap

/-- Every bit of a bank with a pin is found. -/
theorem findGpio_pin {i p : Nat} (hi : i < 8) (hp : HasPin i p) :
    findGpio ((bank i).start + p) = some (i, 1#32 <<< p) := by
  have hall : ∀ i < 8, ∀ p < 32, HasPin i p →
      findGpio ((bank i).start + p) = some (i, 1#32 <<< p) := by
    decide +kernel
  have hlt : ∀ i < 8, (bank i).last - (bank i).start < 32 := by decide
  exact hall i hi p (Nat.lt_of_le_of_lt hp (hlt i hi)) hp

/-- The pins of a bank are bits of its words. -/
theorem HasPin.lt {i p : Nat} (hi : i < 8) (hp : HasPin i p) : p < 32 := by
  have hlt : ∀ i < 8, (bank i).last - (bank i).start < 32 := by decide
  exact Nat.lt_of_le_of_lt hp (hlt i hi)

@[simp] theorem getLsbD_pinMask {i : Nat} (p : Nat) (hi : i < 8) :
    (pinMask i).getLsbD p = decide (HasPin i p) := by
  have hall : ∀ i < 8, ∀ p < 32, (pinMask i).getLsbD p = decide (HasPin i p) := by
    decide +kernel
  by_cases hp : p < 32
  · exact hall i hi p hp
  · rw [BitVec.getLsbD_of_ge _ _ (by omega)]
    simpa using fun h : HasPin i p => hp (h.lt hi)

/-! ### Registers -/

/-- The registers of a bank that the code uses, but `in`, whose value is that of the pins. -/
inductive GpioReg
  | out | intStatus | intClear | intEn | intEdge | intPos | oe
  deriving DecidableEq, Repr

/-- The registers of the banks, and (ghost) the words written to `int_clear`, in order. -/
structure Tlmm where
  regs : Nat → GpioReg → U32
  clears : List (Nat × U32)

/-! ### Addresses (`Chipset/iomap.h`, `Chipset/gpio.h`) -/

/-- `GPIO1_REG`. -/
def gpio1Reg (off : Nat) : Nat := 0xA9000000 + 0x800 + off

/-- `GPIO2_REG`. -/
def gpio2Reg (off : Nat) : Nat := 0xA9100000 + 0xC00 + off

/-- `GPIO_INT_STATUS_0` to `GPIO_INT_STATUS_7`. -/
def gpioIntStatus : List Nat :=
  [gpio1Reg 0xF0, gpio2Reg 0x70, gpio1Reg 0xF4, gpio1Reg 0xF8, gpio1Reg 0xFC, gpio1Reg 0x100,
    gpio1Reg 0x103, gpio1Reg 0x108]

/-- How far past a word the address of a bank's `int_status` is. -/
def statusOff (i : Nat) : Nat := gpioIntStatus.getD i 0 % 4

/-- The four bytes that lie `off` past a word: its own upper ones, then those of the next. -/
def straddle (off : Nat) (w next : U32) : U32 := w >>> (8 * off) ||| next <<< (32 - 8 * off)

/-- The content of a register: bits of pins the bank does not have are 0. -/
def Tlmm.word (t : Tlmm) (i : Nat) (r : GpioReg) : U32 := t.regs i r &&& pinMask i

/-- `readl`.  A misaligned address is that of bytes of two registers: of the status of the bank
    before, and of the bank's own, which is the next word. -/
def readl (i : Nat) (r : GpioReg) (t : Tlmm) : U32 :=
  if r = .intStatus ∧ statusOff i ≠ 0 then
    straddle (statusOff i) (t.word (i - 1) r) (t.word i r)
  else t.word i r

/-- The status of one bank is misaligned. -/
theorem statusOff_eq {i : Nat} (hi : i < 8) : statusOff i = if i = 6 then 3 else 0 := by
  have hall : ∀ i < 8, statusOff i = if i = 6 then 3 else 0 := by decide
  exact hall i hi

/-- A register with a new content. -/
def Tlmm.store (i : Nat) (r : GpioReg) (v : U32) (t : Tlmm) : Tlmm :=
  { t with regs := fun i' r' => if i' = i ∧ r' = r then v else t.regs i' r' }

/-- `writel`. -/
def writel (i : Nat) (r : GpioReg) (v : U32) (t : Tlmm) : Tlmm :=
  match r with
  | .intClear =>
    { t.store i .intStatus (t.regs i .intStatus &&& ~~~v) with clears := t.clears ++ [(i, v)] }
  | r => t.store i r v

/-- The bit of a register. -/
def Tlmm.bit (t : Tlmm) (i : Nat) (r : GpioReg) (p : Nat) : Bool := (t.regs i r).getLsbD p

@[simp] theorem store_regs (i i' : Nat) (r r' : GpioReg) (v : U32) (t : Tlmm) :
    (t.store i r v).regs i' r' = if i' = i ∧ r' = r then v else t.regs i' r' := rfl

@[simp] theorem store_clears (i : Nat) (r : GpioReg) (v : U32) (t : Tlmm) :
    (t.store i r v).clears = t.clears := rfl

@[simp] theorem writel_intClear_regs (i i' : Nat) (r' : GpioReg) (v : U32) (t : Tlmm) :
    (writel i .intClear v t).regs i' r'
      = if i' = i ∧ r' = .intStatus then t.regs i .intStatus &&& ~~~v else t.regs i' r' := rfl

@[simp] theorem writel_intClear_clears (i : Nat) (v : U32) (t : Tlmm) :
    (writel i .intClear v t).clears = t.clears ++ [(i, v)] := rfl

theorem getLsbD_word {i : Nat} (hi : i < 8) (r : GpioReg) (t : Tlmm) (p : Nat) :
    (t.word i r).getLsbD p = (t.bit i r p && decide (HasPin i p)) := by
  simp [Tlmm.word, Tlmm.bit, hi]

/-- A bit reads as it is, if there is a pin. -/
@[simp] theorem getLsbD_readl {i : Nat} (hi : i < 8) {r : GpioReg} (hr : r ≠ .intStatus)
    (t : Tlmm) (p : Nat) : (readl i r t).getLsbD p = (t.bit i r p && decide (HasPin i p)) := by
  rw [readl, if_neg fun h => hr h.1, getLsbD_word hi]

/-- The bits by which the status of a bank comes out too high. -/
def statusShift (i : Nat) : Nat := if i = 6 then 8 else 0

/-- What the code reads as the status of a pin: for bank 6 it is that of the pin eight below. -/
theorem getLsbD_readl_intStatus {i p : Nat} (hi : i < 8) (hp : HasPin i p) (t : Tlmm) :
    (readl i .intStatus t).getLsbD p
      = (decide (statusShift i ≤ p) && t.bit i .intStatus (p - statusShift i)) := by
  by_cases hsix : i = 6
  · subst hsix
    have hlt : p < 31 := Nat.lt_succ_of_le hp
    have hbelow : HasPin 6 (p - 8) := Nat.le_trans (Nat.sub_le p 8) hp
    -- the upper byte of bank 5 has no pins
    have hfive : ¬ HasPin 5 (24 + p) := by
      intro h
      have hle : 24 + p ≤ 17 := h
      omega
    rw [readl, if_pos ⟨rfl, by decide⟩, show statusOff 6 = 3 from by decide,
      show statusShift 6 = 8 from rfl, straddle, BitVec.getLsbD_or, BitVec.getLsbD_ushiftRight,
      BitVec.getLsbD_shiftLeft, getLsbD_word (by decide), getLsbD_word hi]
    by_cases hlow : p < 8
    · simp [hfive, hlow, Nat.not_le.mpr hlow]
    · simp [hfive, hlow, hbelow, Nat.not_lt.mp hlow, Nat.lt_trans hlt (by decide : 31 < 32)]
  · have hoff : statusOff i = 0 := by rw [statusOff_eq hi, if_neg hsix]
    rw [readl, if_neg fun h => h.2 hoff, getLsbD_word hi, statusShift, if_neg hsix]
    simp [hp]

/-! ### The protocol (`Library/gpio.h`, `Protocol/GpioTlmm.h`) -/

/-- `GPIO_INPUT`. -/
def gpioInput : U32 := 0
/-- `GPIO_OUTPUT`. -/
def gpioOutput : U32 := 1

/-- `writel (v | b)` or `writel (v & ~b)`, for `v` the value read. -/
def writeBit (i : Nat) (r : GpioReg) (b : U32) (on : Bool) (t : Tlmm) : Tlmm :=
  let v := readl i r t
  if on then writel i r (v ||| b) t else writel i r (v &&& ~~~b) t

/-- `gpio_config`. -/
def gpioConfig (n : Nat) (flags : U32) (t : Tlmm) : U32 × Tlmm :=
  match findGpio n with
  | none => (-1, t)
  | some (i, b) => (0, writeBit i .oe b (flags &&& gpioOutput ≠ 0) t)

/-- `gpio_set`. -/
def gpioSet (n : Nat) (on : U32) (t : Tlmm) : Tlmm :=
  match findGpio n with
  | none => t
  | some (i, b) =>
    let (_, t) := gpioConfig n gpioOutput t
    writeBit i .out b (on ≠ 0) t

/-- `gpio_get`; `inp i` is the content of the `in` register of a bank. -/
def gpioGet (n : Nat) (inp : Nat → U32) (t : Tlmm) : U32 × Tlmm :=
  match findGpio n with
  | none => (0, t)
  | some (i, b) =>
    let (_, t) := gpioConfig n gpioInput t
    (if inp i &&& b ≠ 0 then 1 else 0, t)

/-- Writing a bit changes that bit of that register. -/
theorem bit_writeBit {i p : Nat} (hi : i < 8) (hp : HasPin i p) {r : GpioReg}
    (hr : r ≠ .intClear ∧ r ≠ .intStatus) (on : Bool) (t : Tlmm) {i' p' : Nat} (r' : GpioReg)
    (hp' : HasPin i' p') :
    (writeBit i r (1#32 <<< p) on t).bit i' r' p'
      = if i' = i ∧ r' = r ∧ p' = p then on else t.bit i' r' p' := by
  have hstore : ∀ v, writel i r v t = t.store i r v := by
    intro v
    cases r <;> first | rfl | exact absurd rfl hr.1
  by_cases hreg : i' = i ∧ r' = r
  · obtain ⟨rfl, rfl⟩ := hreg
    have hset := getLsbD_or_bit (readl i' r' t) (hp.lt hi) p'
    have hclear := getLsbD_and_not_bit (readl i' r' t) p p'
    simp only [getLsbD_readl hi hr.2, hp', decide_true, Bool.and_true] at hset hclear
    have hregs : (writeBit i' r' (1#32 <<< p) on t).regs i' r'
        = if on then readl i' r' t ||| 1#32 <<< p else readl i' r' t &&& ~~~(1#32 <<< p) := by
      cases on <;> simp only [writeBit, hstore, store_regs, and_self, if_true, if_false,
        Bool.false_eq_true]
    rw [Tlmm.bit, hregs]
    cases on with
    | true =>
      rw [if_pos rfl, hset]
      by_cases hpin : p' = p <;> simp [hpin]
    | false =>
      rw [if_neg Bool.false_ne_true, hclear]
      by_cases hpin : p' = p <;> simp [hpin]
  · have hother : ¬ (i' = i ∧ r' = r ∧ p' = p) := fun h => hreg ⟨h.1, h.2.1⟩
    cases on <;> simp [writeBit, hstore, Tlmm.bit, hreg, hother]

/-- `gpio_config` of a pin. -/
theorem gpioConfig_pin {i p : Nat} (hi : i < 8) (hp : HasPin i p) (flags : U32) (t : Tlmm) :
    gpioConfig ((bank i).start + p) flags t
      = (0, writeBit i .oe (1#32 <<< p) (flags &&& gpioOutput ≠ 0) t) := by
  rw [gpioConfig, findGpio_pin hi hp]

/-- `gpio_set` of a pin: it becomes an output, then has its level. -/
theorem gpioSet_pin {i p : Nat} (hi : i < 8) (hp : HasPin i p) (on : U32) (t : Tlmm) :
    gpioSet ((bank i).start + p) on t
      = writeBit i .out (1#32 <<< p) (on ≠ 0) (writeBit i .oe (1#32 <<< p) true t) := by
  rw [gpioSet, findGpio_pin hi hp]
  simp [gpioConfig_pin hi hp, gpioOutput]

/-! ### Levels -/

/-- The level a pin is driven to, if it is an output. -/
def pinLevel (i p : Nat) (t : Tlmm) : Option Bool :=
  if t.bit i .oe p then some (t.bit i .out p) else none

/-- `gpio_set` drives its pin, and no other. -/
theorem pinLevel_gpioSet {i p : Nat} (hi : i < 8) (hp : HasPin i p) (on : U32) (t : Tlmm)
    {i' p' : Nat} (hp' : HasPin i' p') :
    pinLevel i' p' (gpioSet ((bank i).start + p) on t)
      = if i' = i ∧ p' = p then some (decide (on ≠ 0)) else pinLevel i' p' t := by
  rw [gpioSet_pin hi hp]
  unfold pinLevel
  rw [bit_writeBit hi hp (by decide) _ _ _ hp', bit_writeBit hi hp (by decide) _ _ _ hp',
    bit_writeBit hi hp (by decide) _ _ _ hp', bit_writeBit hi hp (by decide) _ _ _ hp']
  by_cases hpin : i' = i ∧ p' = p
  · simp [hpin]
  · have hnot : ∀ q : Prop, ¬ (i' = i ∧ q ∧ p' = p) := fun _ h => hpin ⟨h.1, h.2.2⟩
    simp only [hnot, hpin, if_false]

/-- `gpio_config` of an output as an output changes no level. -/
theorem pinLevel_gpioConfig {i p : Nat} (hi : i < 8) (hp : HasPin i p) {t : Tlmm}
    (hout : t.bit i .oe p = true) {i' p' : Nat} (hp' : HasPin i' p') :
    pinLevel i' p' (gpioConfig ((bank i).start + p) gpioOutput t).2 = pinLevel i' p' t := by
  rw [gpioConfig_pin hi hp]
  unfold pinLevel
  rw [bit_writeBit hi hp (by decide) _ _ _ hp', bit_writeBit hi hp (by decide) _ _ _ hp']
  by_cases hpin : i' = i ∧ p' = p
  · obtain ⟨rfl, rfl⟩ := hpin
    simp [hout, gpioOutput]
  · have hnot : ∀ q : Prop, ¬ (i' = i ∧ q ∧ p' = p) := fun _ h => hpin ⟨h.1, h.2.2⟩
    simp only [hnot, if_false]

end HtcLeo.Gpio

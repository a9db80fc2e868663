import HtcLeo.Gpio.Banks
import HtcLeo.Lib.Runs

namespace HtcLeo.Gpio

open BitMask Runs

/-!
# GpioDxe — the pins behind the banks

What the `TLMM_GPIO` protocol is for: a pin is driven and read by its number, whichever bank its
bits are in.

* `gpioOut`, `gpioOe`, `gpioIn` — where the registers are; `registers_disjoint`.
* `pinMap` — the pin map of `Chipset/gpio.h`: the bank and the bit of every pin.
* `pinBit_writePin` — a bit written for a pin is a bit of that pin alone.
* `Op.run`, `Op.apply` — the calls of the protocol, on the registers and on the pin they name;
  `pin_run` relates the two.
* `gpio_frame` — what the calls do to their pin, and that they leave every other pin alone.
-/

/-! ### Addresses (`Chipset/iomap.h`, `Chipset/gpio.h`) -/

/-- `GPIO_OUT_0` to `GPIO_OUT_7`. -/
def gpioOut : List Nat :=
  [gpio1Reg 0x00, gpio2Reg 0x00, gpio1Reg 0x04, gpio1Reg 0x08, gpio1Reg 0x0C, gpio1Reg 0x10,
    gpio1Reg 0x14, gpio1Reg 0x18]

/-- `GPIO_OE_0` to `GPIO_OE_7`. -/
def gpioOe : List Nat :=
  [gpio1Reg 0x20, gpio2Reg 0x08, gpio1Reg 0x24, gpio1Reg 0x28, gpio1Reg 0x2C, gpio1Reg 0x30,
    gpio1Reg 0x34, gpio1Reg 0x38]

/-- `GPIO_IN_0` to `GPIO_IN_7`. -/
def gpioIn : List Nat :=
  [gpio1Reg 0x50, gpio2Reg 0x20, gpio1Reg 0x54, gpio1Reg 0x58, gpio1Reg 0x5C, gpio1Reg 0x60,
    gpio1Reg 0x64, gpio1Reg 0x68]

/-- No two of the registers share a byte: they can be told apart by bank and kind. -/
theorem registers_disjoint :
    (gpioOut ++ gpioOe ++ gpioIn).Pairwise fun a b => a + 4 ≤ b ∨ b + 4 ≤ a := by
  decide

/-! ### The pin map -/

/-- The bank of a pin, and its bit there: gpio 15-0 in bank 0, 42-16 in bank 1, and so on. -/
def pinMap (n : Nat) : Nat × Nat :=
  if n ≤ 15 then (0, n)
  else if n ≤ 42 then (1, n - 16)
  else if n ≤ 67 then (2, n - 43)
  else if n ≤ 94 then (3, n - 68)
  else if n ≤ 103 then (4, n - 95)
  else if n ≤ 121 then (5, n - 104)
  else if n ≤ 152 then (6, n - 122)
  else (7, n - 153)

/-- The bit of a pin in a register of its bank. -/
def Tlmm.pinBit (t : Tlmm) (r : GpioReg) (n : Nat) : Bool := t.bit (pinMap n).1 r (pinMap n).2

/-- The bit of a pin in the `in` registers. -/
def inputBit (inp : Nat → U32) (n : Nat) : Bool := (inp (pinMap n).1).getLsbD (pinMap n).2

/-- The table has every pin where the map has it. -/
theorem pinMap_bank {n : Nat} (hn : n ≤ 164) :
    (pinMap n).1 < 8 ∧ HasPin (pinMap n).1 (pinMap n).2 ∧
      (bank (pinMap n).1).start + (pinMap n).2 = n := by
  have hall : ∀ n < 165, (pinMap n).1 < 8 ∧ HasPin (pinMap n).1 (pinMap n).2 ∧
      (bank (pinMap n).1).start + (pinMap n).2 = n := by
    decide +kernel
  exact hall n (Nat.lt_succ_of_le hn)

/-- No two pins share a bit. -/
theorem pinMap_inj {n m : Nat} (hn : n ≤ 164) (hm : m ≤ 164) (h : pinMap m = pinMap n) :
    m = n := by
  rw [← (pinMap_bank hm).2.2, h, (pinMap_bank hn).2.2]

/-- A bit written for a pin. -/
def writePin (n : Nat) (r : GpioReg) (on : Bool) (t : Tlmm) : Tlmm :=
  writeBit (pinMap n).1 r (1#32 <<< (pinMap n).2) on t

/-- A bit written for a pin changes no other bit of the pin, and none of another pin. -/
theorem pinBit_writePin {n m : Nat} (hn : n ≤ 164) (hm : m ≤ 164) {r : GpioReg}
    (hr : r ≠ .intClear ∧ r ≠ .intStatus) (on : Bool) (t : Tlmm) (r' : GpioReg) :
    (writePin n r on t).pinBit r' m = if m = n ∧ r' = r then on else t.pinBit r' m := by
  obtain ⟨hi, hp, _⟩ := pinMap_bank hn
  obtain ⟨_, hp', _⟩ := pinMap_bank hm
  unfold Tlmm.pinBit writePin
  rw [bit_writeBit hi hp hr on t r' hp']
  -- the same bit of the same bank is the same pin
  have hiff : ((pinMap m).1 = (pinMap n).1 ∧ r' = r ∧ (pinMap m).2 = (pinMap n).2)
      ↔ m = n ∧ r' = r := by
    constructor
    · rintro ⟨hbank, hreg, hbit⟩
      exact ⟨pinMap_inj hn hm (Prod.ext hbank hbit), hreg⟩
    · rintro ⟨rfl, hreg⟩
      exact ⟨rfl, hreg, rfl⟩
  simp only [hiff]

/-! ### The functions, pin by pin -/

theorem gpioConfig_eq {n : Nat} (hn : n ≤ 164) (flags : U32) (t : Tlmm) :
    gpioConfig n flags t = (0, writePin n .oe (flags &&& gpioOutput ≠ 0) t) := by
  obtain ⟨hi, hp, hpin⟩ := pinMap_bank hn
  have hconfig := gpioConfig_pin hi hp flags t
  rwa [hpin] at hconfig

theorem gpioSet_eq {n : Nat} (hn : n ≤ 164) (on : U32) (t : Tlmm) :
    gpioSet n on t = writePin n .out (on ≠ 0) (writePin n .oe true t) := by
  obtain ⟨hi, hp, hpin⟩ := pinMap_bank hn
  have hset := gpioSet_pin hi hp on t
  rwa [hpin] at hset

theorem gpioGet_eq {n : Nat} (hn : n ≤ 164) (inp : Nat → U32) (t : Tlmm) :
    gpioGet n inp t = (if inputBit inp n then 1 else 0, writePin n .oe false t) := by
  obtain ⟨hi, hp, hpin⟩ := pinMap_bank hn
  have hfind := findGpio_pin hi hp
  rw [hpin] at hfind
  have hinput : inp (pinMap n).1 &&& 1#32 <<< (pinMap n).2 ≠ 0 ↔ inputBit inp n = true := by
    rw [ne_eq, inputBit, ← Bool.not_eq_false, not_iff_not]
    exact and_bit_eq_zero_iff _ _
  have hoe : decide (gpioInput &&& gpioOutput ≠ 0) = false := by decide
  rw [gpioGet, hfind]
  simp only [gpioConfig_eq hn, hinput, hoe]

/-- Past the last bank there is no pin. -/
theorem findGpio_none {n : Nat} (hn : 164 < n) : findGpio n = none := if_pos hn

/-- Nothing is written for a number without a pin. -/
theorem gpio_none {n : Nat} (hn : 164 < n) (t : Tlmm) :
    (∀ flags, gpioConfig n flags t = (-1, t)) ∧ (∀ on, gpioSet n on t = t) ∧
      ∀ inp, gpioGet n inp t = (0, t) := by
  simp only [gpioConfig, gpioSet, gpioGet, findGpio_none hn, implies_true, and_self]

/-! ### Calls -/

/-- A pin: whether it is an output, and the level it has as one. -/
structure Pin where
  oe : Bool
  out : Bool
  deriving DecidableEq, Repr

/-- The pin as the registers have it. -/
def Tlmm.pin (t : Tlmm) (n : Nat) : Pin := ⟨t.pinBit .oe n, t.pinBit .out n⟩

/-- A call of the protocol; for `gpio_get` with the contents of the `in` registers. -/
inductive Op
  | config (n : Nat) (flags : U32)
  | set (n : Nat) (on : U32)
  | get (n : Nat) (inp : Nat → U32)

/-- The pin a call names. -/
def Op.number : Op → Nat
  | .config n _ => n
  | .set n _    => n
  | .get n _    => n

/-- The call, on the registers. -/
def Op.run (t : Tlmm) : Op → Tlmm
  | .config n flags => (gpioConfig n flags t).2
  | .set n on       => gpioSet n on t
  | .get n inp      => (gpioGet n inp t).2

/-- The call, on the pin it names. -/
def Op.apply (p : Pin) : Op → Pin
  | .config _ flags => { p with oe := flags &&& gpioOutput ≠ 0 }
  | .set _ on       => ⟨true, on ≠ 0⟩
  | .get _ _        => { p with oe := false }

/-- A call that names no pin writes nothing. -/
theorem run_none {op : Op} (hn : 164 < op.number) (t : Tlmm) : op.run t = t := by
  cases op with
  | config n flags => exact congrArg Prod.snd ((gpio_none hn t).1 flags)
  | set n on => exact (gpio_none hn t).2.1 on
  | get n inp => exact congrArg Prod.snd ((gpio_none hn t).2.2 inp)

/-- Every register bit of the other pins stays. -/
theorem pinBit_run {m : Nat} (hm : m ≤ 164) (t : Tlmm) (op : Op) (h : m ≠ op.number)
    (r : GpioReg) : (op.run t).pinBit r m = t.pinBit r m := by
  rcases Nat.lt_or_ge 164 op.number with hnone | hn
  · rw [run_none hnone]
  · have hother : ∀ (r' : GpioReg) (on : Bool) (t : Tlmm),
        r' ≠ .intClear ∧ r' ≠ .intStatus →
        (writePin op.number r' on t).pinBit r m = t.pinBit r m := by
      intro r' on t hr'
      rw [pinBit_writePin hn hm hr', if_neg fun hpin => h hpin.1]
    cases op with
    | config n flags =>
      have hn' : n ≤ 164 := hn
      rw [Op.run, gpioConfig_eq hn']
      exact hother .oe _ t (by decide)
    | set n on =>
      have hn' : n ≤ 164 := hn
      rw [Op.run, gpioSet_eq hn']
      exact (hother .out _ _ (by decide)).trans (hother .oe _ t (by decide))
    | get n inp =>
      have hn' : n ≤ 164 := hn
      rw [Op.run, gpioGet_eq hn']
      exact hother .oe false t (by decide)

/-- **Step lemma.**  A call does to its pin what it is for, and nothing to another. -/
theorem pin_run {n : Nat} (hn : n ≤ 164) (t : Tlmm) (op : Op) :
    (op.run t).pin n = if op.number = n then op.apply (t.pin n) else t.pin n := by
  by_cases hpin : op.number = n
  · subst hpin
    rw [if_pos rfl]
    unfold Tlmm.pin
    cases op with
    | config n flags =>
      have hn' : n ≤ 164 := hn
      simp [Op.run, Op.apply, Op.number, gpioConfig_eq hn', pinBit_writePin hn' hn']
    | set n on =>
      have hn' : n ≤ 164 := hn
      simp [Op.run, Op.apply, Op.number, gpioSet_eq hn', pinBit_writePin hn' hn']
    | get n inp =>
      have hn' : n ≤ 164 := hn
      simp [Op.run, Op.apply, Op.number, gpioGet_eq hn', pinBit_writePin hn' hn']
  · rw [if_neg hpin]
    unfold Tlmm.pin
    rw [pinBit_run hn t op (Ne.symm hpin), pinBit_run hn t op (Ne.symm hpin)]

/-! ### Runs of calls -/

/-- **Run lemma.**  What a pin is after a run is what the calls that name it, in their order, make
    of it. -/
theorem pin_foldl {n : Nat} (hn : n ≤ 164) (t : Tlmm) (ops : List Op) :
    (ops.foldl Op.run t).pin n
      = (ops.filter fun op => decide (op.number = n)).foldl Op.apply (t.pin n) :=
  part_foldl Op.number (Tlmm.pin · n) Op.apply (pin_run hn) t ops

/-- The last `gpio_set` of a pin survives the calls for other pins that follow it. -/
theorem pin_after_set {n : Nat} (hn : n ≤ 164) (t : Tlmm) (before : List Op) (on : U32)
    {after : List Op} (hafter : ∀ op ∈ after, op.number ≠ n) :
    ((before ++ .set n on :: after).foldl Op.run t).pin n = ⟨true, on ≠ 0⟩ := by
  have hother := part_foldl_other Op.number (Tlmm.pin · n) Op.apply (pin_run hn)
    (Op.run (before.foldl Op.run t) (.set n on)) hafter
  rw [List.foldl_append, List.foldl_cons, hother, pin_run hn]
  exact if_pos rfl

/-- **The frame of the protocol.**  `gpio_config` makes its pin an output exactly for a request
    with `GPIO_OUTPUT`, `gpio_set` makes it an output of the level asked for, `gpio_get` makes it
    an input and returns its input bit.  All of them leave every bit of the other pins as it is,
    and for a number without a pin every register; so the last `gpio_set` of a pin stands until
    the pin is named again. -/
theorem gpio_frame :
    (∀ n ≤ 164, ∀ t : Tlmm,
      (∀ flags, (gpioConfig n flags t).2.pinBit .oe n = true ↔ flags &&& gpioOutput ≠ 0) ∧
      (∀ on, (gpioSet n on t).pinBit .oe n = true ∧
        ((gpioSet n on t).pinBit .out n = true ↔ on ≠ 0)) ∧
      (∀ inp, (gpioGet n inp t).2.pinBit .oe n = false ∧
        (gpioGet n inp t).1 = if inputBit inp n then 1 else 0)) ∧
    (∀ m ≤ 164, ∀ (t : Tlmm) (op : Op), m ≠ op.number →
      ∀ r, (op.run t).pinBit r m = t.pinBit r m) ∧
    (∀ n > 164, ∀ t : Tlmm, (∀ flags, gpioConfig n flags t = (-1, t)) ∧
      (∀ on, gpioSet n on t = t) ∧ ∀ inp, gpioGet n inp t = (0, t)) ∧
    (∀ n ≤ 164, ∀ (t : Tlmm) (before : List Op) (on : U32) (after : List Op),
      (∀ op ∈ after, op.number ≠ n) →
        ((before ++ .set n on :: after).foldl Op.run t).pin n = ⟨true, on ≠ 0⟩) := by
  refine ⟨fun n hn t => ⟨fun flags => ?_, fun on => ⟨?_, ?_⟩, fun inp => ⟨?_, ?_⟩⟩, ?_, ?_, ?_⟩
  · rw [gpioConfig_eq hn, pinBit_writePin hn hn (by decide), if_pos ⟨rfl, rfl⟩]
    exact decide_eq_true_iff
  · rw [gpioSet_eq hn, pinBit_writePin hn hn (by decide), if_neg (by simp),
      pinBit_writePin hn hn (by decide), if_pos ⟨rfl, rfl⟩]
  · rw [gpioSet_eq hn, pinBit_writePin hn hn (by decide), if_pos ⟨rfl, rfl⟩]
    exact decide_eq_true_iff
  · rw [gpioGet_eq hn, pinBit_writePin hn hn (by decide), if_pos ⟨rfl, rfl⟩]
  · rw [gpioGet_eq hn]
  · exact fun m hm t op h => pinBit_run hm t op h
  · exact fun n hn t => gpio_none hn t
  · exact fun n hn t before on after hafter => pin_after_set hn t before on hafter

/-- Pins 15 and 16, at the border of two banks: the level of the first stays while the other is
    set, read and configured. -/
theorem gpio_frame_border :
    ([Op.set 15 1, .set 16 0, .get 16 fun _ => 0, .config 200 1].foldl Op.run
      ⟨fun _ _ => 0, []⟩).pin 15 = ⟨true, true⟩ :=
  gpio_frame.2.2.2 15 (by decide) ⟨fun _ _ => 0, []⟩ [] 1
    [.set 16 0, .get 16 fun _ => 0, .config 200 1] (by decide)

end HtcLeo.Gpio

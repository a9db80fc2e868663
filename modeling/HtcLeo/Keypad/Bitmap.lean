import HtcLeo.Uefi
import HtcLeo.Lib.BitMask
import Mathlib.Data.Vector.Basic

namespace HtcLeo.Keypad

open BitMask

/-!
# BitmapLib — arrays of words used as sets of bits

The operations of `Include/Library/BitmapLib.h` on arrays of 32-bit `UINTN`.  An access past
the end of the array has no result (`none`).

* `bits` — the set of bits an array stands for.
* `bitmapPut_spec`, `bitmapTest_spec` — inside the array, the operations write and read the
  one bit they are given.
-/

/-- `BITMAP_BITS_PER_WORD`, with the 32-bit `UINTN` of this platform. -/
def bitmapBitsPerWord : Nat := 32

/-- `BITMAP_NUM_WORDS`. -/
abbrev bitmapNumWords (x : Nat) : Nat := (x + bitmapBitsPerWord - 1) / bitmapBitsPerWord

/-- `BITMAP_INT`, `BITMAP_WORD`: the word of a bit. -/
def bitmapWord (x : Nat) : Nat := x / bitmapBitsPerWord

/-- `BITMAP_BIT_IN_INT`, `BITMAP_BIT_IN_WORD`: its position there. -/
def bitmapBitInWord (x : Nat) : Nat := x &&& (bitmapBitsPerWord - 1)

variable {n : Nat}

/-- `BitmapSet`. -/
def bitmapSet (bitmap : Vector U32 n) (bit : Nat) : Option (Vector U32 n) :=
  let mask := 1#32 <<< bitmapBitInWord bit
  if h : bitmapWord bit < n then
    some (bitmap.set (bitmapWord bit) (bitmap[bitmapWord bit] ||| mask))
  else none

/-- `BitmapClear`. -/
def bitmapClear (bitmap : Vector U32 n) (bit : Nat) : Option (Vector U32 n) :=
  let mask := 1#32 <<< bitmapBitInWord bit
  if h : bitmapWord bit < n then
    some (bitmap.set (bitmapWord bit) (bitmap[bitmapWord bit] &&& ~~~mask))
  else none

/-- `BitmapTest`. -/
def bitmapTest (bitmap : Vector U32 n) (bit : Nat) : Option Bool :=
  if h : bitmapWord bit < n then
    some (bitmap[bitmapWord bit] &&& 1#32 <<< bitmapBitInWord bit != 0#32)
  else none

/-- The set of bits an array of words stands for. -/
def bits (bitmap : Vector U32 n) (i : Nat) : Bool :=
  if h : bitmapWord i < n then bitmap[bitmapWord i].getLsbD (bitmapBitInWord i) else false

theorem bitmapBitInWord_eq (x : Nat) : bitmapBitInWord x = x % 32 :=
  Nat.and_two_pow_sub_one_eq_mod x 5

theorem bitmapWord_eq (x : Nat) : bitmapWord x = x / 32 := rfl

/-- A bit is inside an array exactly when its word is. -/
theorem bitmapWord_lt_iff (x : Nat) : bitmapWord x < n ↔ x < 32 * n := by
  rw [bitmapWord_eq]
  omega

/-- The zero array is the empty set. -/
theorem bits_zero (i : Nat) : bits (Vector.replicate n 0#32) i = false := by
  unfold bits
  split
  · rw [Vector.getElem_replicate, BitVec.getLsbD_zero]
  · rfl

/-- Two bits are one exactly when they agree in word and position. -/
theorem bit_eq_iff (i j : Nat) :
    i = j ↔ bitmapWord i = bitmapWord j ∧ bitmapBitInWord i = bitmapBitInWord j := by
  rw [bitmapBitInWord_eq, bitmapBitInWord_eq, bitmapWord_eq, bitmapWord_eq]
  omega

/-- Replacing the word of a bit by one that records a value there and agrees elsewhere
    records the value in the set. -/
theorem bits_set (bitmap : Vector U32 n) {bit : Nat} (h : bitmapWord bit < n) {w : U32}
    {value : Bool}
    (hw : ∀ p, w.getLsbD p
      = if p = bitmapBitInWord bit then value else bitmap[bitmapWord bit].getLsbD p)
    (i : Nat) :
    bits (bitmap.set (bitmapWord bit) w) i = if i = bit then value else bits bitmap i := by
  unfold bits
  by_cases hword : bitmapWord i = bitmapWord bit
  · -- the bit's own word
    have hi : i = bit ↔ bitmapBitInWord i = bitmapBitInWord bit := by
      rw [bit_eq_iff i bit]
      exact and_iff_right hword
    have hlt : bitmapWord i < n := hword ▸ h
    rw [dif_pos hlt, dif_pos hlt, Vector.getElem_set, if_pos hword.symm, hw]
    simp only [hi, hword]
  · -- another word
    have hi : ¬ i = bit := fun heq => hword (congrArg bitmapWord heq)
    rw [if_neg hi]
    split
    · rw [Vector.getElem_set, if_neg (Ne.symm hword)]
    · rfl

/-- `BitmapSet` or `BitmapClear`, as the value to be recorded says. -/
def bitmapPut (value : Bool) (bitmap : Vector U32 n) (bit : Nat) : Option (Vector U32 n) :=
  if value then bitmapSet bitmap bit else bitmapClear bitmap bit

/-- Inside the array, a write records the value at its bit and keeps all others. -/
theorem bitmapPut_spec (value : Bool) (bitmap : Vector U32 n) {bit : Nat} (h : bit < 32 * n) :
    ∃ bitmap', bitmapPut value bitmap bit = some bitmap' ∧
      ∀ i, bits bitmap' i = if i = bit then value else bits bitmap i := by
  have hword : bitmapWord bit < n := (bitmapWord_lt_iff bit).mpr h
  have hpos : bitmapBitInWord bit < 32 := by
    rw [bitmapBitInWord_eq]
    exact Nat.mod_lt _ (by decide)
  cases value with
  | true =>
    refine ⟨_, dif_pos hword, bits_set bitmap hword fun p => ?_⟩
    rw [getLsbD_or_bit _ hpos]
    by_cases hp : p = bitmapBitInWord bit <;> simp [hp]
  | false =>
    refine ⟨_, dif_pos hword, bits_set bitmap hword fun p => ?_⟩
    rw [getLsbD_and_not_bit]
    by_cases hp : p = bitmapBitInWord bit <;> simp [hp]

/-- Inside the array, `BitmapTest` reads its bit. -/
theorem bitmapTest_spec (bitmap : Vector U32 n) {bit : Nat} (h : bit < 32 * n) :
    bitmapTest bitmap bit = some (bits bitmap bit) := by
  have hword : bitmapWord bit < n := (bitmapWord_lt_iff bit).mpr h
  unfold bitmapTest bits
  rw [dif_pos hword, dif_pos hword]
  have hiff := and_bit_eq_zero_iff bitmap[bitmapWord bit] (bitmapBitInWord bit)
  cases hb : bitmap[bitmapWord bit].getLsbD (bitmapBitInWord bit) with
  | true  => simpa [hb] using hiff
  | false => simpa [hb] using hiff

/-- Past the array, neither operation has a result. -/
theorem bitmapPut_of_ge (value : Bool) (bitmap : Vector U32 n) {bit : Nat} (h : 32 * n ≤ bit) :
    bitmapPut value bitmap bit = none := by
  have hword : ¬ bitmapWord bit < n := fun hlt => by
    have := (bitmapWord_lt_iff bit).mp hlt
    omega
  cases value <;> exact dif_neg hword

end HtcLeo.Keypad

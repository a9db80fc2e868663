import Mathlib.Data.BitVec

namespace HtcLeo.BitMask

/-!
# Single-bit masks

Words used as sets of bits: setting, clearing and testing the one bit of the mask
`1 << i`, in a word of any width.

* `getLsbD_or_bit`, `getLsbD_and_not_bit` — what setting and clearing do to each bit.
* `and_bit_eq_zero_iff`, `and_bit_eq_bit_iff` — the tests `(x & (1 << i)) == 0` and
  `(x & (1 << i)) == (1 << i)`.
* `eq_zero_iff_getLsbD` — the test `x == 0`.
* `replace_and_mask`, `or_mask_and_mask` — fields of more than one bit.
* `toNat_and_not_low` — rounding down to a multiple of a power of two.
* `Within` — every bit of one word is a bit of another.
* `wordOf` — the word with given bits.
-/

variable {w : Nat}

/-- Or-ing the mask in sets its bit and no other. -/
theorem getLsbD_or_bit (x : BitVec w) {i : Nat} (hi : i < w) (j : Nat) :
    (x ||| 1#w <<< i).getLsbD j = (x.getLsbD j || decide (j = i)) := by
  rw [← BitVec.twoPow_eq, BitVec.getLsbD_or, BitVec.getLsbD_twoPow]
  by_cases h : i = j
  · simp [h, h ▸ hi]
  · simp [h, Ne.symm h]

/-- And-ing the complement of the mask clears its bit and no other. -/
theorem getLsbD_and_not_bit (x : BitVec w) (i j : Nat) :
    (x &&& ~~~(1#w <<< i)).getLsbD j = (x.getLsbD j && decide (j ≠ i)) := by
  rw [← BitVec.twoPow_eq, BitVec.getLsbD_and, BitVec.getLsbD_not, BitVec.getLsbD_twoPow]
  by_cases hj : j < w
  · -- inside the word the complement of the mask has every bit but `i`
    by_cases hji : j = i
    · subst hji
      simp [hj]
    · simp [hj, hji, Ne.symm hji]
  · rw [BitVec.getLsbD_of_ge x j (by omega)]
    simp

/-- The bit is clear exactly when the masked word is zero. -/
theorem and_bit_eq_zero_iff (x : BitVec w) (i : Nat) :
    x &&& 1#w <<< i = 0#w ↔ x.getLsbD i = false := by
  rw [← BitVec.twoPow_eq, BitVec.and_twoPow]
  by_cases hi : i < w
  · -- inside the word the mask is not zero, as its own bit shows
    have hne : BitVec.twoPow w i ≠ 0#w := by
      intro h0
      have hbit := congrArg (BitVec.getLsbD · i) h0
      simp [hi] at hbit
    cases x.getLsbD i <;> simp [hne]
  · -- past the word neither has a bit
    rw [BitVec.getLsbD_of_ge x i (by omega)]
    simp

/-- The bit is set exactly when the masked word is the mask. -/
theorem and_bit_eq_bit_iff (x : BitVec w) {i : Nat} (hi : i < w) :
    x &&& 1#w <<< i = 1#w <<< i ↔ x.getLsbD i = true := by
  have hbit : (1#w <<< i).getLsbD i = true := by
    rw [← BitVec.twoPow_eq, BitVec.getLsbD_twoPow]
    simp [hi]
  constructor
  · intro heq
    have hand := congrArg (BitVec.getLsbD · i) heq
    simp only [BitVec.getLsbD_and, hbit, Bool.and_true] at hand
    exact hand
  · intro hset
    rw [← BitVec.twoPow_eq, BitVec.and_twoPow, hset, if_pos rfl]

/-- A word is zero exactly when it has no bit. -/
theorem eq_zero_iff_getLsbD (x : BitVec w) : x = 0#w ↔ ∀ i, x.getLsbD i = false := by
  constructor
  · rintro rfl i
    exact BitVec.getLsbD_zero
  · intro h
    ext i hi
    rw [← BitVec.getLsbD_eq_getElem hi, h i, BitVec.getElem_zero]

/-! ### Fields -/

/-- Replacing the bits of a mask leaves there what has been or-ed in. -/
theorem replace_and_mask (x m v : BitVec w) : (x &&& ~~~m ||| v) &&& m = v &&& m := by
  rw [BitVec.and_or_distrib_right, BitVec.and_assoc, BitVec.not_and_self]
  simp

/-- Or-ing the mask in sets all its bits. -/
theorem or_mask_and_mask (x m : BitVec w) : (x ||| m) &&& m = m := by
  ext i hi
  rw [BitVec.getElem_and, BitVec.getElem_or]
  cases m[i] <;> simp

/-- And-ing the low `k` bits away rounds down to a multiple of `2 ^ k`. -/
theorem toNat_and_not_low (x : BitVec w) (k : Nat) :
    (x &&& ~~~BitVec.ofNat w (2 ^ k - 1)).toNat = 2 ^ k * (x.toNat / 2 ^ k) := by
  have hshift : x &&& ~~~BitVec.ofNat w (2 ^ k - 1) = x >>> k <<< k := by
    ext i hi
    rw [← BitVec.getLsbD_eq_getElem hi, ← BitVec.getLsbD_eq_getElem hi]
    rw [BitVec.getLsbD_and, BitVec.getLsbD_not, BitVec.getLsbD_ofNat,
      Nat.testBit_two_pow_sub_one, BitVec.getLsbD_shiftLeft, BitVec.getLsbD_ushiftRight]
    by_cases hlow : i < k
    · simp [hi, hlow]
    · have hat : k + (i - k) = i := by omega
      simp [hi, hlow, hat]
  have hle : 2 ^ k * (x.toNat / 2 ^ k) ≤ x.toNat := Nat.mul_div_le _ _
  have hlt := x.isLt
  rw [hshift, BitVec.toNat_shiftLeft, BitVec.toNat_ushiftRight, Nat.shiftRight_eq_div_pow,
    Nat.shiftLeft_eq, Nat.mul_comm, Nat.mod_eq_of_lt (by omega)]

/-! ### Sets of bits -/

/-- Every bit of `x` is one of `y`. -/
def Within (x y : BitVec w) : Prop := ∀ i, x.getLsbD i = true → y.getLsbD i = true

theorem and_eq_zero_iff (x y : BitVec w) :
    x &&& y = 0#w ↔ ∀ i, x.getLsbD i = true → y.getLsbD i = false := by
  rw [eq_zero_iff_getLsbD]
  refine forall_congr' fun i => ?_
  rw [BitVec.getLsbD_and]
  cases x.getLsbD i <;> simp

theorem within_iff (x y : BitVec w) : Within x y ↔ x &&& ~~~y = 0#w := by
  rw [and_eq_zero_iff]
  refine forall_congr' fun i => imp_congr_right fun hx => ?_
  have hi : i < w := BitVec.lt_of_getLsbD hx
  rw [BitVec.getLsbD_not]
  cases y.getLsbD i <;> simp [hi]

instance (x y : BitVec w) : Decidable (Within x y) := decidable_of_iff' _ (within_iff x y)

namespace Within

variable {x y z v : BitVec w}

theorem refl (x : BitVec w) : Within x x := fun _ h => h

theorem trans (h : Within x y) (h' : Within y z) : Within x z := fun i hx => h' i (h i hx)

theorem or_left (h : Within x y) : Within x (y ||| z) := by
  intro i hx
  rw [BitVec.getLsbD_or, h i hx, Bool.true_or]

theorem or_right (h : Within x z) : Within x (y ||| z) := by
  intro i hx
  rw [BitVec.getLsbD_or, h i hx, Bool.or_true]

theorem or (h : Within x z) (h' : Within y z) : Within (x ||| y) z := by
  intro i hi
  rw [BitVec.getLsbD_or, Bool.or_eq_true] at hi
  exact hi.elim (h i) (h' i)

theorem and_left (x y : BitVec w) : Within (x &&& y) x := by
  intro i hi
  rw [BitVec.getLsbD_and, Bool.and_eq_true] at hi
  exact hi.1

theorem and_right (x y : BitVec w) : Within (x &&& y) y := by
  intro i hi
  rw [BitVec.getLsbD_and, Bool.and_eq_true] at hi
  exact hi.2

/-- Clearing the same bits on both sides. -/
theorem and_not (h : Within x y) (v : BitVec w) : Within (x &&& ~~~v) (y &&& ~~~v) := by
  intro i hi
  rw [BitVec.getLsbD_and, Bool.and_eq_true] at hi ⊢
  exact ⟨h i hi.1, hi.2⟩

/-- Clearing other bits. -/
theorem and_not_of_disjoint (h : Within x y) (hv : x &&& v = 0#w) : Within x (y &&& ~~~v) := by
  intro i hx
  have hi : i < w := BitVec.lt_of_getLsbD hx
  rw [BitVec.getLsbD_and, BitVec.getLsbD_not, h i hx, (and_eq_zero_iff x v).mp hv i hx]
  simp [hi]

/-- What shares no bit with a word shares none with a part of it. -/
theorem and_eq_zero (h : Within x y) (hz : y &&& z = 0#w) : x &&& z = 0#w :=
  (and_eq_zero_iff x z).mpr fun i hx => (and_eq_zero_iff y z).mp hz i (h i hx)

theorem eq_zero (h : Within x 0#w) : x = 0#w :=
  (eq_zero_iff_getLsbD x).mpr fun i => by
    have hi := h i
    rw [BitVec.getLsbD_zero] at hi
    simpa using hi

end Within

/-! ### Words by their bits -/

/-- The word with the given bits. -/
def wordOf (f : Nat → Bool) : BitVec w :=
  (List.range w).foldl (fun x i => if f i then x ||| 1#w <<< i else x) 0#w

theorem getLsbD_wordOf (f : Nat → Bool) {i : Nat} (hi : i < w) :
    (wordOf f : BitVec w).getLsbD i = f i := by
  -- after `n` steps the bits below `n` are there
  have hsteps : ∀ n ≤ w, ((List.range n).foldl
      (fun (x : BitVec w) i => if f i then x ||| 1#w <<< i else x) 0#w).getLsbD i
        = (decide (i < n) && f i) := by
    intro n hn
    induction n with
    | zero => simp
    | succ n ih =>
      have hbelow : decide (i < n + 1) = (decide (i < n) || decide (i = n)) := by
        rw [← Bool.decide_or]
        exact decide_eq_decide.mpr (by omega)
      rw [List.range_succ, List.foldl_append, List.foldl_cons, List.foldl_nil, hbelow]
      cases hf : f n with
      | true =>
        rw [if_pos rfl, getLsbD_or_bit _ (by omega), ih (by omega)]
        by_cases hin : i = n
        · simp [hin, hf]
        · simp [hin]
      | false =>
        rw [if_neg Bool.false_ne_true, ih (by omega)]
        by_cases hin : i = n
        · simp [hin, hf]
        · simp [hin]
  simpa [wordOf, hi] using hsteps w le_rfl

end HtcLeo.BitMask

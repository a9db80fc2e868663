import Mathlib.Data.BitVec

namespace HtcLeo.SignedWord

/-!
# Words from signed parts

What becomes of signed words that are put together from two parts, or cut to fewer bits.

* `append_or_signExtend` — a lower part that is extended with its sign spoils the upper one.
* `saturate` — the nearest number in range; `bmod_eq_saturate_iff` says when cutting gives it.
-/

/-! ### Two parts -/

section Parts

variable {v w : Nat} (high : BitVec v) (low : BitVec w)

/-- The upper part with a lower one, extended with its sign, put into it. -/
theorem append_or_signExtend :
    (high ++ 0#w) ||| low.signExtend (v + w) =
      if low.msb then low.signExtend (v + w) else high ++ low := by
  ext i hi
  cases hmsb : low.msb with
  | false =>
    rw [if_neg (by simp), BitVec.signExtend_eq_setWidth_of_msb_false hmsb]
    by_cases hlow : i < w
    · simp [BitVec.getElem_append, hlow]
    · simp [BitVec.getElem_append, hlow, BitVec.getLsbD_of_ge low i (Nat.not_lt.mp hlow)]
  | true =>
    by_cases hlow : i < w
    · simp [BitVec.getElem_append, hlow]
    · simp [BitVec.getElem_append, BitVec.getElem_signExtend, hlow, hmsb]

end Parts

/-! ### Saturation -/

/-- The number from `-m` to `m - 1` that is nearest. -/
def saturate (m : Nat) (x : Int) : Int := max (-m) (min (m - 1) x)

/-- Cut to as many numbers, a number becomes the nearest one only if it is in range, or by
    accident. -/
theorem bmod_eq_saturate_iff {m : Nat} (hm : 0 < m) (x : Int) :
    x.bmod (2 * m) = saturate m x ↔
      (-m ≤ x ∧ x < m) ∨ (m ≤ x ∧ x % (2 * m) = m - 1) ∨ (x < -m ∧ x % (2 * m) = m) := by
  have hbmod : ∀ c : Int, -m ≤ c → c < m → (x.bmod (2 * m) = c ↔ x % (2 * m) = c % (2 * m)) := by
    intro c hlow hhigh
    have hlow' : -(2 * (m : Int) / 2) ≤ c := by omega
    have hhigh' : c < (2 * (m : Int) + 1) / 2 := by omega
    rw [Int.bmod_eq_iff (by omega), Int.emod_eq_emod_iff_emod_sub_eq_zero]
    push_cast
    rw [← Int.dvd_iff_emod_eq_zero, ← Int.dvd_neg, Int.neg_sub]
    exact ⟨fun h => h.2.2, fun h => ⟨hlow', hhigh', h⟩⟩
  unfold saturate
  rcases lt_or_ge x (-m) with hbelow | hlow
  · have hmod : (-(m : Int)) % (2 * m) = m := by
      rw [← Int.add_emod_right, Int.emod_eq_of_lt (by omega) (by omega)]
      omega
    rw [max_eq_left (by omega), hbmod _ (by omega) (by omega), hmod]
    omega
  · rcases lt_or_ge x m with hhigh | habove
    · rw [min_eq_right (by omega), max_eq_right hlow, hbmod _ hlow hhigh]
      omega
    · have hmod : ((m : Int) - 1) % (2 * m) = m - 1 := Int.emod_eq_of_lt (by omega) (by omega)
      rw [min_eq_left (by omega), max_eq_right (by omega), hbmod _ (by omega) (by omega), hmod]
      omega

end HtcLeo.SignedWord

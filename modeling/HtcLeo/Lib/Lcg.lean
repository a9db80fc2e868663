import Mathlib.Data.Nat.Count
import Mathlib.Data.ZMod.Basic
import Mathlib.Dynamics.PeriodicPts.Lemmas
import Mathlib.Tactic.Ring

namespace HtcLeo.Lcg

open Function

/-!
# Linear congruential generators

The map `x ↦ a x + c` over a commutative ring, iterated.

* `iterate_two_pow` — `2 ^ k` steps add `2 ^ k` times an odd element, where `a` is 1 more than a
  multiple of 4 and `c` is odd.
* `minimalPeriod_eq` — over `ZMod (2 ^ k)` such a generator goes through all elements.
* `bijOn_iterate_nextMod`, `card_filter_iterate` — the same of natural numbers modulo `2 ^ k`.
-/

section Ring

variable {R : Type*} [CommRing R]

/-- One step of the generator. -/
def next (a c x : R) : R := a * x + c

/-- **Doubling.**  For `a = 1 + 4 u` and `c = 1 + 2 v`, what `2 ^ k` steps do. -/
theorem iterate_two_pow (u v : R) (k : Nat) :
    ∃ s t : R, ∀ x, (next (1 + 4 * u) (1 + 2 * v))^[2 ^ k] x =
      x + 2 ^ k * (1 + 2 * s + 4 * t * x) := by
  induction k with
  | zero => exact ⟨v, u, fun x => by rw [pow_zero, iterate_one, next]; ring⟩
  | succ k ih =>
    obtain ⟨s, t, h⟩ := ih
    -- the second half starts from where the first one has ended
    refine ⟨s + 2 ^ k * t * (1 + 2 * s), t + 2 * 2 ^ k * t ^ 2, fun x => ?_⟩
    rw [pow_succ, mul_two, iterate_add_apply, h, h]
    ring

end Ring

/-- The power of two below the modulus is not zero. -/
theorem two_pow_ne_zero (k : Nat) : (2 ^ k : ZMod (2 ^ (k + 1))) ≠ 0 := by
  intro h
  have hdvd : 2 ^ (k + 1) ∣ 2 ^ k := by
    rw [← ZMod.natCast_eq_zero_iff]
    exact_mod_cast h
  have := Nat.le_of_dvd (Nat.two_pow_pos k) hdvd
  have := Nat.pow_lt_pow_right (a := 2) (by decide) (Nat.lt_succ_self k)
  omega

/-- **Full period.**  A generator with `a = 1 + 4 u` and an odd `c` goes through all elements of
    `ZMod (2 ^ k)` before it comes to one again. -/
theorem minimalPeriod_eq (k : Nat) (u v x : ZMod (2 ^ (k + 1))) :
    minimalPeriod (next (1 + 4 * u) (1 + 2 * v)) x = 2 ^ (k + 1) := by
  have hfact : Fact (Nat.Prime 2) := ⟨Nat.prime_two⟩
  have hmod : (2 ^ (k + 1) : ZMod (2 ^ (k + 1))) = 0 := by
    exact_mod_cast ZMod.natCast_self (2 ^ (k + 1))
  apply minimalPeriod_eq_prime_pow
  · obtain ⟨s, t, h⟩ := iterate_two_pow u v k
    intro hper
    have hstep : (2 ^ k : ZMod (2 ^ (k + 1))) * (1 + 2 * s + 4 * t * x) = 0 :=
      add_eq_left.mp ((h x).symm.trans hper)
    -- an odd multiple of half the modulus is half the modulus
    have hhalf : (2 ^ k : ZMod (2 ^ (k + 1))) * (1 + 2 * s + 4 * t * x) =
        2 ^ k + 2 ^ (k + 1) * (s + 2 * t * x) := by ring
    rw [hhalf, hmod, zero_mul, add_zero] at hstep
    exact two_pow_ne_zero k hstep
  · obtain ⟨s, t, h⟩ := iterate_two_pow u v (k + 1)
    have hzero := h x
    rw [hmod, zero_mul, add_zero] at hzero
    exact hzero

/-! ### On natural numbers -/

/-- One step of the generator modulo `m`. -/
def nextMod (m a c v : Nat) : Nat := (a * v + c) % m

theorem iterate_nextMod_lt {m : Nat} (a c : Nat) {v : Nat} (hv : v < m) (n : Nat) :
    (nextMod m a c)^[n] v < m := by
  cases n with
  | zero => exact hv
  | succ n =>
    rw [iterate_succ_apply']
    exact Nat.mod_lt _ (by omega)

theorem cast_iterate_nextMod (m a c v n : Nat) :
    (((nextMod m a c)^[n] v : Nat) : ZMod m) = (next (a : ZMod m) c)^[n] v := by
  induction n with
  | zero => rfl
  | succ n ih =>
    rw [iterate_succ_apply', iterate_succ_apply', ← ih, nextMod, next, ZMod.natCast_mod]
    push_cast
    rfl

/-- **One period.**  Where `a` is 1 more than a multiple of 4 and `c` is odd, each number comes at
    exactly one place of a period, from wherever it begins. -/
theorem bijOn_iterate_nextMod (k : Nat) {a c v : Nat} (ha : a % 4 = 1) (hc : c % 2 = 1)
    (hv : v < 2 ^ (k + 1)) :
    Set.BijOn (fun n => (nextMod (2 ^ (k + 1)) a c)^[n] v) (Finset.range (2 ^ (k + 1)))
      (Finset.range (2 ^ (k + 1))) := by
  obtain ⟨u, rfl⟩ : ∃ u, a = 1 + 4 * u := ⟨a / 4, by omega⟩
  obtain ⟨w, rfl⟩ : ∃ w, c = 1 + 2 * w := ⟨c / 2, by omega⟩
  have hmaps : Set.MapsTo (fun n => (nextMod (2 ^ (k + 1)) (1 + 4 * u) (1 + 2 * w))^[n] v)
      (Finset.range (2 ^ (k + 1))) (Finset.range (2 ^ (k + 1))) :=
    fun n _ => Finset.mem_coe.mpr (Finset.mem_range.mpr (iterate_nextMod_lt _ _ hv n))
  have hinj : Set.InjOn (fun n => (nextMod (2 ^ (k + 1)) (1 + 4 * u) (1 + 2 * w))^[n] v)
      (Finset.range (2 ^ (k + 1))) := by
    intro n hn n' hn' h
    have hperiod := minimalPeriod_eq k (u : ZMod (2 ^ (k + 1))) w v
    have hcast := congrArg (Nat.cast : Nat → ZMod (2 ^ (k + 1))) h
    dsimp only at hcast
    rw [cast_iterate_nextMod, cast_iterate_nextMod] at hcast
    push_cast at hcast
    rw [Finset.mem_coe, Finset.mem_range] at hn hn'
    exact iterate_injOn_Iio_minimalPeriod (Set.mem_Iio.mpr (by rwa [hperiod]))
      (Set.mem_Iio.mpr (by rwa [hperiod])) hcast
  exact ⟨hmaps, hinj, Finset.surjOn_of_injOn_of_card_le _ hmaps hinj le_rfl⟩

/-- How often a period comes to a number with a property. -/
theorem card_filter_iterate (k : Nat) {a c v : Nat} (ha : a % 4 = 1) (hc : c % 2 = 1)
    (hv : v < 2 ^ (k + 1)) (p : Nat → Prop) [DecidablePred p] :
    ((Finset.range (2 ^ (k + 1))).filter
      fun n => p ((nextMod (2 ^ (k + 1)) a c)^[n] v)).card = (2 ^ (k + 1)).count p := by
  obtain ⟨hmaps, hinj, hsurj⟩ := bijOn_iterate_nextMod k ha hc hv
  rw [Nat.count_eq_card_filter_range]
  refine Finset.card_bij (fun n _ => (nextMod (2 ^ (k + 1)) a c)^[n] v) ?_ ?_ ?_
  · intro n hn
    obtain ⟨hn, hp⟩ := Finset.mem_filter.mp hn
    exact Finset.mem_filter.mpr ⟨hmaps hn, hp⟩
  · intro n hn n' hn' h
    exact hinj (Finset.mem_filter.mp hn).1 (Finset.mem_filter.mp hn').1 h
  · intro y hy
    obtain ⟨hy, hp⟩ := Finset.mem_filter.mp hy
    obtain ⟨n, hn, rfl⟩ := hsurj hy
    exact ⟨n, Finset.mem_filter.mpr ⟨hn, hp⟩, rfl⟩

end HtcLeo.Lcg

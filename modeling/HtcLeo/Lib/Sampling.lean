import HtcLeo.Lib.Prog
import Mathlib.Data.Nat.Find

namespace HtcLeo.Sampling

open Prog

/-!
# Waiting on a sampled input

A program that reads an input whose successive values are `samples 0`, `samples 1`, …, such as a
hardware counter.  Its state is the number of samples it has taken.

* `next` — read the input.
* `waitUntil` — read it until its value says to stop.
* `FirstFrom` — the first index from a given one on at which something holds.
* `waitUntil_eq_some_iff` — a wait ends on the first sample that says so, and on no other.
-/

variable {α : Type} (samples : Nat → α)

/-- Read the input. -/
def next : Prog Nat α := query fun n => (samples n, n + 1)

/-- One round of a wait. -/
def waitStep (stop : α → Bool) (a : α) : Prog Nat (α ⊕ α) :=
  if stop a then pure (.inr a)
  else do
    let a' ← next samples
    return .inl a'

/-- Read the input until its value says to stop, beginning with a value read before. -/
def waitUntil (stop : α → Bool) (fuel : Nat) (a : α) : Prog Nat α :=
  loop (waitStep samples stop) fuel a

/-- `n` is the first index from `k` on with `p`. -/
structure FirstFrom (p : Nat → Prop) (k n : Nat) : Prop where
  le : k ≤ n
  holds : p n
  before : ∀ i, k ≤ i → i < n → ¬ p i

variable {p q : Nat → Prop} {k m n : Nat}

/-- There is one first index at most. -/
theorem FirstFrom.unique (h : FirstFrom p k n) (h' : FirstFrom p k m) : n = m := by
  rcases lt_trichotomy n m with hlt | heq | hgt
  · exact absurd h.holds (h'.before n h.le hlt)
  · exact heq
  · exact absurd h'.holds (h.before m h'.le hgt)

/-- Where there is an index, there is a first one. -/
theorem exists_firstFrom (hk : k ≤ n) (hn : p n) : ∃ m, m ≤ n ∧ FirstFrom p k m := by
  classical
  have hex : ∃ i, k ≤ i ∧ p i := ⟨n, hk, hn⟩
  obtain ⟨hle, hp⟩ := Nat.find_spec hex
  refine ⟨Nat.find hex, Nat.find_min' hex ⟨hk, hn⟩, hle, hp, ?_⟩
  intro i hi hlt hpi
  exact Nat.find_min hex hlt ⟨hi, hpi⟩

/-- What is first here, and holds wherever it is looked for, is first there. -/
theorem FirstFrom.congr (h : FirstFrom p k n) (hpq : ∀ i, k ≤ i → i ≤ n → (p i ↔ q i)) :
    FirstFrom q k n where
  le := h.le
  holds := (hpq n h.le le_rfl).mp h.holds
  before i hi hlt hq := h.before i hi hlt ((hpq i hi (Nat.le_of_lt hlt)).mpr hq)

/-- The index itself, where it has the property. -/
theorem firstFrom_self (h : p k) : FirstFrom p k k := ⟨le_rfl, h, fun _ hi hlt => by omega⟩

variable {samples} {stop : α → Bool} {fuel : Nat}

/-- One round of a wait with a sample in hand. -/
theorem waitUntil_succ :
    waitUntil samples stop (fuel + 1) (samples k) (k + 1) =
      if stop (samples k) then (some (samples k), k + 1)
      else waitUntil samples stop fuel (samples (k + 1)) (k + 1 + 1) := by
  unfold waitUntil
  rw [Prog.loop, bind_apply, waitStep]
  by_cases hstop : stop (samples k) = true
  · rw [if_pos hstop, if_pos hstop]
    rfl
  · rw [if_neg hstop, if_neg hstop]
    rfl

/-- A wait ends on the first sample that says to stop. -/
theorem waitUntil_of_first (h : FirstFrom (fun i => stop (samples i) = true) k n)
    (hfuel : n - k < fuel) :
    waitUntil samples stop fuel (samples k) (k + 1) = (some (samples n), n + 1) := by
  -- by induction on the fuel; the wait goes on from sample to sample
  induction fuel generalizing k with
  | zero => omega
  | succ fuel ih =>
    rw [waitUntil_succ]
    by_cases hstop : stop (samples k) = true
    · obtain rfl : k = n := (firstFrom_self hstop).unique h
      rw [if_pos hstop]
    · have hne : k ≠ n := by
        rintro rfl
        exact hstop h.holds
      have hle := h.le
      have hnext : FirstFrom (fun i => stop (samples i) = true) (k + 1) n :=
        ⟨by omega, h.holds, fun i hi hlt => h.before i (by omega) hlt⟩
      rw [if_neg hstop]
      exact ih hnext (by omega)

/-- A wait that ends has found the first sample that says to stop. -/
theorem first_of_waitUntil {r : α} {j : Nat}
    (h : waitUntil samples stop fuel (samples k) (k + 1) = (some r, j)) :
    ∃ n, FirstFrom (fun i => stop (samples i) = true) k n ∧ n - k < fuel ∧
      r = samples n ∧ j = n + 1 := by
  induction fuel generalizing k with
  | zero => exact absurd (congrArg Prod.fst h) (by simp [waitUntil, Prog.loop])
  | succ fuel ih =>
    rw [waitUntil_succ] at h
    by_cases hstop : stop (samples k) = true
    · rw [if_pos hstop] at h
      obtain ⟨hr, hj⟩ := Prod.mk.inj h
      exact ⟨k, firstFrom_self hstop, by omega, (Option.some.inj hr).symm, hj.symm⟩
    · rw [if_neg hstop] at h
      obtain ⟨n, hfirst, hlt, hr, hj⟩ := ih h
      have hle := hfirst.le
      refine ⟨n, ⟨by omega, hfirst.holds, ?_⟩, by omega, hr, hj⟩
      intro i hi hin
      rcases Nat.eq_or_lt_of_le hi with rfl | hki
      · exact hstop
      · exact hfirst.before i hki hin

/-- **Waiting.**  A wait ends on the first sample that says to stop, and on no other. -/
theorem waitUntil_eq_some_iff {r : α} {j : Nat} :
    waitUntil samples stop fuel (samples k) (k + 1) = (some r, j) ↔
      ∃ n, FirstFrom (fun i => stop (samples i) = true) k n ∧ n - k < fuel ∧
        r = samples n ∧ j = n + 1 := by
  refine ⟨first_of_waitUntil, ?_⟩
  rintro ⟨n, hfirst, hlt, rfl, rfl⟩
  exact waitUntil_of_first hfirst hlt

end HtcLeo.Sampling

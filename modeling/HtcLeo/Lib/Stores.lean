import Mathlib.Data.List.Basic
import Mathlib.Logic.Function.Basic

namespace HtcLeo

/-!
# Stores of whole cells

An array of cells that is changed by storing whole cells, one after the other, as the sectors of a
disk are.

* `storeAll` — a list of stores.
* `storeAll_of_not_mem` — a cell that is not stored stays as it is.
* `storeAll_last` — the last store of a cell is the one that counts.
-/

variable {ι β : Type} [DecidableEq ι]

/-- The cells after a list of stores, the first of them first. -/
def storeAll (stores : List (ι × β)) (d : ι → β) : ι → β :=
  stores.foldl (fun d s => Function.update d s.1 s.2) d

@[simp] theorem storeAll_nil (d : ι → β) : storeAll [] d = d := rfl

@[simp] theorem storeAll_cons (s : ι × β) (stores : List (ι × β)) (d : ι → β) :
    storeAll (s :: stores) d = storeAll stores (Function.update d s.1 s.2) := rfl

@[simp] theorem storeAll_append (l l' : List (ι × β)) (d : ι → β) :
    storeAll (l ++ l') d = storeAll l' (storeAll l d) := by
  simp [storeAll]

variable {stores : List (ι × β)} {n : ι}

/-- A cell that is not stored. -/
theorem storeAll_of_not_mem (d : ι → β) (h : ∀ s ∈ stores, s.1 ≠ n) :
    storeAll stores d n = d n := by
  induction stores generalizing d with
  | nil => rfl
  | cons s stores ih =>
    rw [List.forall_mem_cons] at h
    rw [storeAll_cons, ih _ h.2, Function.update_of_ne (Ne.symm h.1)]

/-- The last store of a cell. -/
theorem storeAll_last (l : List (ι × β)) (v : β) (d : ι → β) (h : ∀ s ∈ stores, s.1 ≠ n) :
    storeAll (l ++ (n, v) :: stores) d n = v := by
  rw [storeAll_append, storeAll_cons, storeAll_of_not_mem _ h, Function.update_self]

end HtcLeo

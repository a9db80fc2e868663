import Mathlib.Data.Sum.Basic

namespace HtcLeo

/-!
# Loops over an array with a bound of their own

A loop that goes through the indices of an array up to a bound that does not come from the array.
The body is given indices of the array only; where the loop comes to another one, nothing is said
of what follows.

* `arrayLoop` — the loop, with the indices that it visits.
* `visited_lt_iff` — when all of them are in the array.
-/

variable {σ α : Type*}

/-- What a loop returns, the state it comes to, and the indices that it has visited. -/
structure LoopRun (σ α : Type*) where
  result : Option α
  state : σ
  visited : List Nat

/-- From `i` on, `left` indices at most; the body returns with `.inl`. -/
def arrayLoop {size : Nat} (body : Fin size → σ → α ⊕ σ) : Nat → Nat → σ → LoopRun σ α
  | 0, _, s => ⟨none, s, []⟩
  | left + 1, i, s =>
      if h : i < size then
        match body ⟨i, h⟩ s with
        | .inl a => ⟨some a, s, [i]⟩
        | .inr s' =>
            let run := arrayLoop body left (i + 1) s'
            { run with visited := i :: run.visited }
      else ⟨none, s, [i]⟩

variable {size : Nat} {body : Fin size → σ → α ⊕ σ}

/-- **Indices in the array.**  A loop stays in the array exactly when its bound is that of the
    array at most, or it returns at an index on the way. -/
theorem visited_lt_iff {stop : Fin size → Prop}
    (hstop : ∀ k s, (body k s).isLeft = true ↔ stop k) (left : Nat) {i : Nat} (hi : i ≤ size)
    (s : σ) :
    (∀ k ∈ (arrayLoop body left i s).visited, k < size) ↔
      i + left ≤ size ∨ ∃ k : Fin size, i ≤ k.val ∧ stop k := by
  induction left generalizing i s with
  | zero => exact iff_of_true (fun k hk => absurd hk List.not_mem_nil) (Or.inl hi)
  | succ left ih =>
    rw [arrayLoop]
    split
    · next hlt =>
      have hbody := hstop ⟨i, hlt⟩ s
      split
      · next a heq =>
        rw [heq] at hbody
        exact iff_of_true (by simpa using hlt) (Or.inr ⟨⟨i, hlt⟩, Nat.le_refl _, hbody.mp rfl⟩)
      · next s' heq =>
        rw [heq] at hbody
        have hnot : ¬ stop ⟨i, hlt⟩ := fun h => Bool.false_ne_true (hbody.mpr h)
        rw [List.forall_mem_cons, and_iff_right hlt, ih hlt s', Nat.succ_add_eq_add_succ]
        refine or_congr_right (exists_congr fun k => and_congr_left fun hk => ?_)
        -- the loop has not returned at `i`
        have hne : i ≠ k.val := by
          rintro rfl
          exact hnot hk
        omega
    · next hge =>
      refine iff_of_false (fun h => hge (h i List.mem_cons_self)) ?_
      rintro (hle | ⟨k, hk, -⟩)
      · omega
      · exact hge (Nat.lt_of_le_of_lt hk k.isLt)

end HtcLeo

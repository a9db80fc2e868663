import HtcLeo.Lib.Prog

namespace HtcLeo.Prog

/-!
# What a program leaves, whatever becomes of it

`Ensures` speaks of the runs that have a result, and `Keeps` of an invariant.  Here a program is
described by all its runs, those included that end without a result in the middle of a loop.

* `Outcomes P x Q` — from a state with `P`, the result of `x`, if there is one, and the state it
  has come to are in `Q`.

The rules are those of `Ensures`, each with an obligation for the runs without a result.
-/

variable {σ α β : Type} {P R : σ → Prop}

/-- From a state with `P`, the result of `x` and the state it has come to are in `Q`; `none`
    stands for no result. -/
def Outcomes (P : σ → Prop) (x : Prog σ α) (Q : Option α → σ → Prop) : Prop :=
  ∀ s, P s → Q (x s).1 (x s).2

namespace Outcomes

variable {Q Q' : Option α → σ → Prop}

theorem pure {a : α} (h : ∀ s, P s → Q (some a) s) : Outcomes P (pure a : Prog σ α) Q := h

theorem mono {x : Prog σ α} (h : Outcomes P x Q) (hP : ∀ s, R s → P s)
    (hQ : ∀ r s, Q r s → Q' r s) : Outcomes R x Q' :=
  fun s hs => hQ _ _ (h s (hP s hs))

/-- A sequence: a run without a result ends in the first part or in the second. -/
theorem bind {x : Prog σ α} {f : α → Prog σ β} {M : Option α → σ → Prop}
    {Q : Option β → σ → Prop} (hx : Outcomes P x M)
    (hf : ∀ a, Outcomes (M (some a)) (f a) Q) (hnone : ∀ s, M none s → Q none s) :
    Outcomes P (x >>= f) Q := by
  intro s hs
  have hM := hx s hs
  rw [bind_apply]
  rcases hxs : x s with ⟨_ | a, s'⟩
  · rw [hxs] at hM
    exact hnone s' hM
  · rw [hxs] at hM
    exact hf a s' hM

/-- A program that keeps `I`. -/
theorem keeps {x : Prog σ α} {I : σ → Prop} (hI : Keeps I x) : Outcomes I x fun _ => I := hI

/-- **Loop rule.**  `Inv` relates accumulator and state at the head of the loop; out of fuel, the
    loop ends there. -/
theorem loop {body : β → Prog σ (β ⊕ α)} (Inv : β → σ → Prop)
    (h : ∀ b, Outcomes (Inv b) (body b) fun r s => match r with
      | some (.inl b') => Inv b' s
      | some (.inr a)  => Q (some a) s
      | none           => Q none s)
    (hend : ∀ b s, Inv b s → Q none s) (fuel : Nat) (b : β) :
    Outcomes (Inv b) (Prog.loop body fuel b) Q := by
  induction fuel generalizing b with
  | zero => exact fun s hs => hend b s hs
  | succ fuel ih =>
    refine bind (h b) (fun r => ?_) fun s hs => hs
    cases r with
    | inl b' => exact ih b'
    | inr a  => exact pure fun s hs => hs

end Outcomes

end HtcLeo.Prog

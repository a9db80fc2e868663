import Mathlib.Data.Fintype.Card
import Mathlib.Logic.Relation

namespace HtcLeo.Chains

open Relation

/-!
# Chains in a finite set

Going from one element to the next along a relation, as a program does that follows links.

* `Ends r a` — every chain along `r` from `a` on comes to an end.
* `Ends.acyclic` — such a chain does not come back to where it started.
* `ends_iff_acyclic` — in a finite set that is all it takes.
* `not_transGen_of_lt` — a measure that rises along the chain keeps it from coming back.
-/

variable {α : Type*} {r : α → α → Prop} {a b : α}

/-- Every chain along `r` from `a` on comes to an end. -/
def Ends (r : α → α → Prop) (a : α) : Prop := Acc (fun c b => r b c) a

/-- A chain ends where nothing follows. -/
theorem Ends.of_last (h : ∀ b, ¬ r a b) : Ends r a := Acc.intro a fun b hab => absurd hab (h b)

/-- A chain ends if it ends from the next element on, whichever that is. -/
theorem Ends.of_next (h : ∀ b, r a b → Ends r b) : Ends r a := Acc.intro a h

/-- The rest of a chain that ends. -/
theorem Ends.rest (h : Ends r a) (hab : ReflTransGen r a b) : Ends r b := by
  induction hab with
  | refl => exact h
  | tail _ hbc ih => exact ih.inv hbc

/-- A chain that ends does not come back to where it started. -/
theorem Ends.acyclic (h : Ends r a) : ¬ TransGen r a a := by
  -- by induction on the chain: one step along the cycle there is the same cycle
  induction h with
  | intro a _ ih =>
    intro hcycle
    obtain ⟨b, hab, hba⟩ := TransGen.head'_iff.mp hcycle
    exact ih b hab (TransGen.tail' hba hab)

/-- **In a finite set** the chains from `a` on end exactly when none of them comes to an element
    twice. -/
theorem ends_iff_acyclic [Finite α] :
    Ends r a ↔ ∀ b, ReflTransGen r a b → ¬ TransGen r b b := by
  constructor
  · intro h b hab
    exact (h.rest hab).acyclic
  · intro h
    -- going on, among the elements that are reached, is transitive and never goes nowhere
    let on : α → α → Prop := fun c b => ReflTransGen r a b ∧ TransGen r b c
    have htrans : IsTrans α on := by
      refine ⟨fun d c b hdc hcb => ?_⟩
      exact ⟨hcb.1, hcb.2.trans hdc.2⟩
    have hirrefl : Std.Irrefl on := ⟨fun b hb => h b hb.1 hb.2⟩
    have hwf : WellFounded on := Finite.wellFounded_of_trans_of_irrefl on
    have hends : ∀ b, ReflTransGen r a b → Ends r b := by
      intro b
      induction b using hwf.induction with
      | _ b ih =>
        intro hab
        apply Ends.of_next
        intro c hbc
        exact ih c ⟨hab, TransGen.single hbc⟩ (hab.tail hbc)
    exact hends a ReflTransGen.refl

/-- A measure that rises with every step from an element with `P`, where `P` is kept, keeps the
    chain from coming back. -/
theorem not_transGen_of_lt {P : α → Prop} (f : α → Nat)
    (hstep : ∀ b c, P b → r b c → f b < f c ∧ P c) (ha : P a) : ¬ TransGen r a a := by
  have hlt : ∀ b, TransGen r a b → f a < f b ∧ P b := by
    intro b hab
    induction hab with
    | single hab => exact hstep a _ ha hab
    | tail _ hbc ih =>
      obtain ⟨hlt, hP⟩ := hstep _ _ ih.2 hbc
      exact ⟨Nat.lt_trans ih.1 hlt, hP⟩
  intro hcycle
  exact Nat.lt_irrefl _ (hlt a hcycle).1

end HtcLeo.Chains

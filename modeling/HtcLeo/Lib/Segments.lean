import Mathlib.Data.List.TakeWhile

namespace HtcLeo

/-!
# Segments between delimiters

The segments of a list are its longest parts without a delimiter.

* `Segmented` — a list that is cut at its first segment, and so on behind it.
* `segments` — the segments; `settled` — the list up to the end of the first of them.
* `EndsAt` — where a segment ends and a delimiter follows.
-/

variable {α : Type*} (d : α → Bool)

/-- A list that is cut at its first segment `tok`, behind the delimiters `pre`. -/
inductive Segmented : List α → Prop
  | none {pre : List α} (hpre : ∀ b ∈ pre, d b = true) : Segmented pre
  | last {pre tok : List α} (hpre : ∀ b ∈ pre, d b = true) (htok : ∀ b ∈ tok, d b = false)
      (hne : tok ≠ []) : Segmented (pre ++ tok)
  | more {pre tok : List α} {c : α} {rest : List α} (hpre : ∀ b ∈ pre, d b = true)
      (htok : ∀ b ∈ tok, d b = false) (hne : tok ≠ []) (hc : d c = true)
      (hrest : Segmented rest) : Segmented (pre ++ (tok ++ c :: rest))

/-- The segments of `s`. -/
def segments (s : List α) : List (List α) := (s.splitOnP d).filter fun tok => !tok.isEmpty

/-- The list `s` up to the end of its first segment. -/
def settled (s : List α) : List α := s.takeWhile d ++ (s.dropWhile d).takeWhile fun b => !d b

/-- A segment ends at `i`, and a delimiter follows. -/
def EndsAt (s : List α) (i : Nat) : Prop :=
  (∃ b, s[i]? = some b ∧ d b = false) ∧ ∃ c, s[i + 1]? = some c ∧ d c = true

variable {d} {pre tok rest s : List α} {c : α}

/-! ### Cutting -/

theorem Segmented.cons_delim (hc : d c = true) (h : Segmented d s) : Segmented d (c :: s) := by
  cases h with
  | none hpre => exact Segmented.none (List.forall_mem_cons.mpr ⟨hc, hpre⟩)
  | last hpre htok hne => exact Segmented.last (List.forall_mem_cons.mpr ⟨hc, hpre⟩) htok hne
  | more hpre htok hne hc' hrest =>
    exact Segmented.more (List.forall_mem_cons.mpr ⟨hc, hpre⟩) htok hne hc' hrest

/-- A byte of a segment: it begins the first segment, or is one of its own before a delimiter. -/
theorem Segmented.cons_other (hc : d c = false) (h : Segmented d s) : Segmented d (c :: s) := by
  have hnil : ∀ b ∈ ([] : List α), d b = true := by simp
  have hone : ∀ b ∈ [c], d b = false := by simpa using hc
  cases h with
  | none hpre =>
    cases s with
    | nil => exact Segmented.last hnil hone (List.cons_ne_nil c [])
    | cons c' pre =>
      obtain ⟨hc', hpre⟩ := List.forall_mem_cons.mp hpre
      exact Segmented.more hnil hone (List.cons_ne_nil c []) hc' (Segmented.none hpre)
  | @last pre tok hpre htok hne =>
    cases pre with
    | nil =>
      exact Segmented.last hnil (List.forall_mem_cons.mpr ⟨hc, htok⟩) (List.cons_ne_nil c tok)
    | cons c' pre =>
      obtain ⟨hc', hpre⟩ := List.forall_mem_cons.mp hpre
      exact Segmented.more hnil hone (List.cons_ne_nil c []) hc' (Segmented.last hpre htok hne)
  | @more pre tok c₁ rest hpre htok hne hc₁ hrest =>
    cases pre with
    | nil =>
      exact Segmented.more hnil (List.forall_mem_cons.mpr ⟨hc, htok⟩) (List.cons_ne_nil c tok)
        hc₁ hrest
    | cons c' pre =>
      obtain ⟨hc', hpre⟩ := List.forall_mem_cons.mp hpre
      exact Segmented.more hnil hone (List.cons_ne_nil c []) hc'
        (Segmented.more hpre htok hne hc₁ hrest)

/-- Every list can be cut. -/
theorem segmented (s : List α) : Segmented d s := by
  induction s with
  | nil => exact Segmented.none (by simp)
  | cons c s ih =>
    cases hc : d c with
    | true => exact ih.cons_delim hc
    | false => exact ih.cons_other hc

/-! ### Segments -/

theorem segments_append_cons (u v : List α) (hc : d c = true) :
    segments d (u ++ c :: v) = segments d u ++ segments d v := by
  rw [segments, List.splitOnP_append_cons u v hc, List.filter_append]
  rfl

theorem segments_append (hpre : ∀ b ∈ pre, d b = true) (s : List α) :
    segments d (pre ++ s) = segments d s := by
  induction pre with
  | nil => rfl
  | cons c pre ih =>
    obtain ⟨hc, hpre⟩ := List.forall_mem_cons.mp hpre
    rw [List.cons_append, ← List.nil_append (c :: _), segments_append_cons [] _ hc, ih hpre]
    rfl

theorem segments_delims (hpre : ∀ b ∈ pre, d b = true) : segments d pre = [] := by
  rw [← List.append_nil pre, segments_append hpre]
  rfl

theorem segments_token (htok : ∀ b ∈ tok, d b = false) (hne : tok ≠ []) :
    segments d tok = [tok] := by
  rw [segments, List.splitOnP_eq_singleton htok, List.filter_eq_self]
  simpa using hne

theorem segments_more (hpre : ∀ b ∈ pre, d b = true) (htok : ∀ b ∈ tok, d b = false)
    (hne : tok ≠ []) (hc : d c = true) :
    segments d (pre ++ (tok ++ c :: rest)) = tok :: segments d rest := by
  rw [segments_append hpre, segments_append_cons tok rest hc, segments_token htok hne]
  rfl

theorem segments_last (hpre : ∀ b ∈ pre, d b = true) (htok : ∀ b ∈ tok, d b = false)
    (hne : tok ≠ []) : segments d (pre ++ tok) = [tok] := by
  rw [segments_append hpre, segments_token htok hne]

/-- A list has a segment exactly when it has more than delimiters. -/
theorem segments_eq_nil_iff : segments d s = [] ↔ ∀ b ∈ s, d b = true := by
  refine ⟨fun h => ?_, segments_delims⟩
  cases segmented (d := d) s with
  | none hpre => exact hpre
  | last hpre htok hne =>
    rw [segments_last hpre htok hne] at h
    exact absurd h (List.cons_ne_nil _ _)
  | more hpre htok hne hc hrest =>
    rw [segments_more hpre htok hne hc] at h
    exact absurd h (List.cons_ne_nil _ _)

/-! ### The first segment -/

theorem settled_append (hpre : ∀ b ∈ pre, d b = true) (s : List α) :
    settled d (pre ++ s) = pre ++ settled d s := by
  unfold settled
  rw [List.takeWhile_append_of_pos hpre, List.dropWhile_append_of_pos hpre, List.append_assoc]

theorem settled_delims (hpre : ∀ b ∈ pre, d b = true) : settled d pre = pre := by
  have happend := settled_append hpre []
  rwa [List.append_nil, show settled d [] = [] from rfl, List.append_nil] at happend

theorem settled_token (htok : ∀ b ∈ tok, d b = false) (hne : tok ≠ []) (v : List α) :
    settled d (tok ++ v) = tok ++ v.takeWhile fun b => !d b := by
  have htok' : ∀ b ∈ tok, (!d b) = true := fun b hb => by rw [htok b hb]; rfl
  have hstart : (tok ++ v).takeWhile d = [] ∧ (tok ++ v).dropWhile d = tok ++ v := by
    cases tok with
    | nil => exact absurd rfl hne
    | cons b tok =>
      have hb : d b = false := htok b List.mem_cons_self
      simp [hb]
  rw [settled, hstart.1, hstart.2, List.nil_append, List.takeWhile_append_of_pos htok']

theorem settled_last (hpre : ∀ b ∈ pre, d b = true) (htok : ∀ b ∈ tok, d b = false)
    (hne : tok ≠ []) : settled d (pre ++ tok) = pre ++ tok := by
  have htoken := settled_token htok hne []
  rw [List.takeWhile_nil, List.append_nil] at htoken
  rw [settled_append hpre, htoken]

theorem settled_more (hpre : ∀ b ∈ pre, d b = true) (htok : ∀ b ∈ tok, d b = false)
    (hne : tok ≠ []) (hc : d c = true) :
    settled d (pre ++ (tok ++ c :: rest)) = pre ++ tok := by
  rw [settled_append hpre, settled_token htok hne, List.takeWhile_cons_of_neg (by simp [hc]),
    List.append_nil]

/-- What is settled stays as it is. -/
theorem settled_settled (s : List α) : settled d (settled d s) = settled d s := by
  cases segmented (d := d) s with
  | none hpre => rw [settled_delims hpre, settled_delims hpre]
  | last hpre htok hne => rw [settled_last hpre htok hne, settled_last hpre htok hne]
  | more hpre htok hne hc hrest => rw [settled_more hpre htok hne hc, settled_last hpre htok hne]

/-- The first segment is what is left of the segments. -/
theorem getLast?_segments_settled (s : List α) :
    (segments d (settled d s)).getLast? = (segments d s).head? := by
  cases segmented (d := d) s with
  | none hpre =>
    rw [settled_delims hpre, segments_delims hpre]
    rfl
  | last hpre htok hne =>
    rw [settled_last hpre htok hne, segments_last hpre htok hne]
    rfl
  | more hpre htok hne hc hrest =>
    rw [settled_more hpre htok hne hc, segments_last hpre htok hne, segments_more hpre htok hne hc]
    rfl

theorem settled_length_le (s : List α) : (settled d s).length ≤ s.length := by
  cases segmented (d := d) s with
  | none hpre => rw [settled_delims hpre]
  | last hpre htok hne => rw [settled_last hpre htok hne]
  | more hpre htok hne hc hrest =>
    rw [settled_more hpre htok hne hc]
    simp only [List.length_append]
    omega

/-! ### Where segments end -/

/-- A segment ends where it does, whatever stands before it. -/
theorem EndsAt.append {i : Nat} (h : EndsAt d s i) (u : List α) :
    EndsAt d (u ++ s) (u.length + i) := by
  unfold EndsAt
  rw [Nat.add_assoc, List.getElem?_append_right (Nat.le_add_right _ _),
    List.getElem?_append_right (Nat.le_add_right _ _), Nat.add_sub_cancel_left,
    Nat.add_sub_cancel_left]
  exact h

/-- The first segment ends before the delimiter behind it. -/
theorem endsAt_more (htok : ∀ b ∈ tok, d b = false) (hne : tok ≠ []) (hc : d c = true)
    (pre rest : List α) :
    EndsAt d (pre ++ (tok ++ c :: rest)) (pre.length + (tok.length - 1)) := by
  have hlast : tok[tok.length - 1]? = some (tok.getLast hne) := by
    rw [← List.getLast?_eq_getElem?, List.getLast?_eq_some_getLast hne]
  have hpos : 0 < tok.length := List.length_pos_iff.mpr hne
  have hat : tok.length - 1 + 1 = tok.length := by omega
  refine EndsAt.append ⟨⟨tok.getLast hne, ?_, htok _ (List.getLast_mem hne)⟩, c, ?_, hc⟩ pre
  · rw [List.getElem?_append_left (by omega), hlast]
  · rw [hat, List.getElem?_append_right (Nat.le_refl _), Nat.sub_self]
    rfl

/-- In a settled list no delimiter follows a segment. -/
theorem not_endsAt_settled (s : List α) (i : Nat) : ¬ EndsAt d (settled d s) i := by
  have hpre : ∀ b ∈ s.takeWhile d, d b = true := fun b hb => List.mem_takeWhile_imp hb
  have htok : ∀ b ∈ (s.dropWhile d).takeWhile fun b => !d b, d b = false :=
    fun b hb => by simpa using List.mem_takeWhile_imp hb
  rintro ⟨⟨b, hb, hb'⟩, c, hc, hc'⟩
  rw [settled] at hb hc
  rcases Nat.lt_or_ge i (s.takeWhile d).length with hlt | hge
  · rw [List.getElem?_append_left hlt] at hb
    rw [hpre b (List.mem_of_getElem? hb)] at hb'
    exact Bool.noConfusion hb'
  · rw [List.getElem?_append_right (by omega)] at hc
    rw [htok c (List.mem_of_getElem? hc)] at hc'
    exact Bool.noConfusion hc'

end HtcLeo

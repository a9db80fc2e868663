import Mathlib.Algebra.BigOperators.Group.List.Basic
import Mathlib.Algebra.Ring.Nat

namespace HtcLeo.Compaction

/-!
# Taking elements out of a list, from its end

A list is gone through from its last element to its first.  An element that is to be dropped is
taken out: those before it move up by one place, a blank comes in at the front, and the same
place is looked at again.

* `compact` — what this comes to: the elements that stay, behind as many blanks as were dropped.
* `Compacting` — the state in between, with its steps `Compacting.remove` and `Compacting.keep`.
* `Compacting.finish` — at the front, the list is the compacted one.
-/

variable {α : Type*} (drop : α → Bool) (blank : α)

/-- The elements that stay, behind a blank for each one that was dropped. -/
def compact (all : List α) : List α :=
  List.replicate (all.countP drop) blank ++ all.filter (fun a => !drop a)

@[simp] theorem length_compact (all : List α) : (compact drop blank all).length = all.length := by
  have h : all.length = all.countP drop + all.countP (fun a => !drop a) := by
    simpa using List.length_eq_countP_add_countP (p := drop) (l := all)
  rw [compact, List.length_append, List.length_replicate, ← List.countP_eq_length_filter, h]

/-- Of the list `all`, which is `rows` by now, `n` places are left to look at, and `removed`
    elements have been dropped. -/
def Compacting (all rows : List α) (n removed : Nat) : Prop :=
  ∃ todo done, all = todo ++ done ∧
    rows = List.replicate removed blank ++ todo ++ done.filter (fun a => !drop a) ∧
    removed = done.countP drop ∧
    (n = removed + todo.length ∨ todo = [] ∧ n ≤ removed)

variable {drop blank} {all rows : List α} {n removed : Nat}

theorem Compacting.start : Compacting drop blank all all all.length 0 :=
  ⟨all, [], by simp, by simp, by simp, Or.inl (by simp)⟩

theorem Compacting.length (h : Compacting drop blank all rows n removed) :
    rows.length = all.length := by
  obtain ⟨todo, done, rfl, rfl, rfl, -⟩ := h
  have hdone := length_compact drop blank done
  rw [compact, List.length_append, List.length_replicate] at hdone
  simp only [List.length_append, List.length_replicate]
  omega

/-- No more is dropped than there is to drop. -/
theorem Compacting.removed_le (h : Compacting drop blank all rows n removed) :
    removed ≤ all.countP drop := by
  obtain ⟨todo, done, rfl, -, rfl, -⟩ := h
  rw [List.countP_append]
  exact Nat.le_add_left _ _

/-- The place that is looked at next holds a blank, or the last element not looked at. -/
theorem Compacting.place (h : Compacting drop blank all rows (n + 1) removed) :
    rows[n]? = some blank ∧ n < removed ∨
      ∃ todo last done, all = todo ++ last :: done ∧ n = removed + todo.length ∧
        removed = done.countP drop ∧
        rows = List.replicate removed blank ++ todo ++ last :: done.filter (fun a => !drop a) := by
  obtain ⟨todo, done, rfl, rfl, hremoved, hn⟩ := h
  rcases List.eq_nil_or_concat' todo with rfl | ⟨todo, last, rfl⟩
  · have hlt : n < removed := by
      rcases hn with hn | ⟨-, hn⟩
      · rw [List.length_nil] at hn
        omega
      · exact hn
    refine Or.inl ⟨?_, hlt⟩
    rw [List.append_assoc, List.getElem?_append_left (by simpa using hlt),
      List.getElem?_replicate_of_lt hlt]
  · refine Or.inr ⟨todo, last, done, by simp, ?_, hremoved, by simp⟩
    rcases hn with hn | ⟨habs, -⟩
    · rw [List.length_append, List.length_singleton] at hn
      omega
    · simp at habs

/-- **Dropping step.**  The element is taken out, and a blank comes in at the front. -/
theorem Compacting.remove (hblank : drop blank = false)
    (h : Compacting drop blank all rows (n + 1) removed) {a : α} (ha : rows[n]? = some a)
    (hdrop : drop a = true) :
    Compacting drop blank all (blank :: rows.eraseIdx n) (n + 1) (removed + 1) := by
  rcases h.place with ⟨hplace, -⟩ | ⟨todo, last, done, rfl, rfl, rfl, rfl⟩
  · rw [hplace, Option.some.injEq] at ha
    rw [← ha, hblank] at hdrop
    exact absurd hdrop (by decide)
  · have hlen : (List.replicate (done.countP drop) blank ++ todo).length =
        done.countP drop + todo.length := by simp
    rw [← hlen] at ha ⊢
    have hlast : last = a := by
      rw [List.getElem?_append_right Nat.le.refl, Nat.sub_self] at ha
      exact Option.some.inj ha
    subst hlast
    refine ⟨todo, last :: done, rfl, ?_, ?_, Or.inl ?_⟩
    · rw [List.eraseIdx_append_of_length_le Nat.le.refl, Nat.sub_self, List.eraseIdx_zero, List.tail_cons,
        List.filter_cons, hdrop]
      rfl
    · rw [List.countP_cons_of_pos hdrop]
    · rw [hlen]
      omega

/-- **Keeping step.** -/
theorem Compacting.keep (h : Compacting drop blank all rows (n + 1) removed) {a : α}
    (ha : rows[n]? = some a) (hdrop : drop a = false) :
    Compacting drop blank all rows n removed := by
  rcases h.place with ⟨-, hlt⟩ | ⟨todo, last, done, rfl, rfl, rfl, rfl⟩
  · obtain ⟨todo, done, hall, hrows, hremoved, hn⟩ := h
    refine ⟨todo, done, hall, hrows, hremoved, Or.inr ?_⟩
    rcases hn with hn | ⟨hnil, hn⟩
    · exact ⟨List.eq_nil_of_length_eq_zero (by omega), by omega⟩
    · exact ⟨hnil, by omega⟩
  · have hlast : last = a := by
      rw [List.getElem?_append_right (by simp)] at ha
      simpa using ha
    subst hlast
    refine ⟨todo, last :: done, rfl, ?_, ?_, Or.inl rfl⟩
    · rw [List.filter_cons, hdrop]
      rfl
    · rw [List.countP_cons_of_neg (by simp [hdrop])]

/-- **The end.**  With no place left, the list is the compacted one. -/
theorem Compacting.finish (h : Compacting drop blank all rows 0 removed) :
    rows = compact drop blank all ∧ removed = all.countP drop := by
  obtain ⟨todo, done, rfl, rfl, rfl, hn⟩ := h
  have hnil : todo = [] := by
    rcases hn with hn | ⟨hnil, -⟩
    · exact List.eq_nil_of_length_eq_zero (by omega)
    · exact hnil
  subst hnil
  exact ⟨by simp [compact], rfl⟩

/-- What is kept comes through with its weight, and blanks have none. -/
theorem sum_map_compact (weight : α → Nat) (hblank : weight blank = 0) (all : List α) :
    ((compact drop blank all).map weight).sum + ((all.filter drop).map weight).sum =
      (all.map weight).sum := by
  have hzero : ((List.replicate (all.countP drop) blank).map weight).sum = 0 := by
    simp [hblank]
  rw [compact, List.map_append, List.sum_append, hzero, Nat.zero_add]
  clear hzero
  induction all with
  | nil => rfl
  | cons a all ih =>
    cases ha : drop a <;> simp [ha] <;> omega

end HtcLeo.Compaction

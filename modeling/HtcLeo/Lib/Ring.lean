import Mathlib.Data.List.Basic
import Mathlib.Logic.Function.Basic
import Mathlib.Tactic.SplitIfs

namespace HtcLeo

/-!
# Ring buffers that drop their oldest entry

An array of `n` slots with a head and a tail index that wrap around.  One slot stays free, so
that equal indices mean the empty ring; a push that finds no second free slot drops the entry
at the head.

* `Ring.contents` — the entries a ring holds, the oldest first.
* `Ring.contents_of_pop`, `Ring.contents_push` — on valid indices the operations are those of
  a list bounded by `n - 1`: `pop` takes the first entry, `push` appends one, dropping the
  first where the list is full.
-/

/-- A ring of `n` slots.  Slots at or past `n` stand for the memory behind the array. -/
structure Ring (α : Type) (n : Nat) where
  buffer : Nat → α
  head : Nat
  tail : Nat

namespace Ring

variable {α : Type} {n : Nat}

/-- Equal indices mean the empty ring. -/
def isEmpty (r : Ring α n) : Bool := r.head == r.tail

/-- The tail has come up to the head from behind. -/
def isFull (r : Ring α n) : Bool := (r.tail + 1) % n == r.head

/-- Take the entry at the head. -/
def pop (r : Ring α n) : Option α × Ring α n :=
  if r.isEmpty then (none, r)
  else (some (r.buffer r.head), { r with head := (r.head + 1) % n })

/-- Store at the tail. -/
def store (r : Ring α n) (x : α) : Ring α n :=
  { r with buffer := Function.update r.buffer r.tail x, tail := (r.tail + 1) % n }

/-- Append at the tail; a full ring first loses the entry at its head. -/
def push (r : Ring α n) (x : α) : Ring α n :=
  if r.isFull then r.pop.2.store x else r.store x

/-- The empty ring, whatever its slots hold. -/
def clear (r : Ring α n) : Ring α n := { r with head := 0, tail := 0 }

/-! ### The list a ring stands for -/

/-- Both indices are inside the array. -/
structure Valid (r : Ring α n) : Prop where
  head_lt : r.head < n
  tail_lt : r.tail < n

/-- The number of entries, walking from head to tail. -/
def size (r : Ring α n) : Nat := if r.head ≤ r.tail then r.tail - r.head else r.tail + n - r.head

/-- The entries, from the head on. -/
def contents (r : Ring α n) : List α :=
  (List.range r.size).map fun i => r.buffer ((r.head + i) % n)

@[simp] theorem length_contents (r : Ring α n) : r.contents.length = r.size := by
  simp [contents]

/-- One slot always stays free. -/
theorem size_lt {r : Ring α n} (h : r.Valid) : r.size < n := by
  have hhead := h.head_lt
  have htail := h.tail_lt
  unfold size
  split <;> omega

/-- A wrapped index, without the remainder. -/
theorem wrap_eq {h i : Nat} (hh : h < n) (hi : i < n) :
    (h + i) % n = if h + i < n then h + i else h + i - n := by
  split
  · exact Nat.mod_eq_of_lt ‹_›
  · rw [Nat.mod_eq_sub_mod (by omega), Nat.mod_eq_of_lt (by omega)]

/-- The tail is `size` slots after the head. -/
theorem head_add_size {r : Ring α n} (h : r.Valid) : (r.head + r.size) % n = r.tail := by
  have hhead := h.head_lt
  have htail := h.tail_lt
  rw [wrap_eq hhead (size_lt h)]
  unfold size
  split <;> split <;> omega

theorem isEmpty_iff {r : Ring α n} (h : r.Valid) : r.isEmpty = true ↔ r.contents = [] := by
  have hhead := h.head_lt
  have htail := h.tail_lt
  rw [isEmpty, beq_iff_eq, ← List.length_eq_zero_iff, length_contents, size]
  split <;> omega

theorem isFull_iff {r : Ring α n} (h : r.Valid) :
    r.isFull = true ↔ r.contents.length = n - 1 := by
  have hhead := h.head_lt
  have htail := h.tail_lt
  rw [isFull, beq_iff_eq, length_contents, size]
  by_cases hlast : r.tail + 1 < n
  · rw [Nat.mod_eq_of_lt hlast]
    split <;> omega
  · -- the tail is the last slot
    have hwrap : r.tail + 1 = n := by omega
    rw [hwrap, Nat.mod_self]
    split <;> omega

/-! ### Clearing -/

theorem valid_clear (hn : 0 < n) (r : Ring α n) : r.clear.Valid := ⟨hn, hn⟩

@[simp] theorem contents_clear (r : Ring α n) : r.clear.contents = [] := by
  simp [contents, size, clear]

/-! ### Taking -/

theorem valid_pop {r : Ring α n} (h : r.Valid) : r.pop.2.Valid := by
  unfold pop
  split
  · exact h
  · exact ⟨Nat.mod_lt _ (Nat.zero_lt_of_lt h.head_lt), h.tail_lt⟩

theorem pop_of_nil {r : Ring α n} (h : r.Valid) (hc : r.contents = []) : r.pop = (none, r) :=
  if_pos ((isEmpty_iff h).mpr hc)

theorem pop_eq_some {r : Ring α n} {x : α} (h : r.pop.1 = some x) : r.pop = (some x, r.pop.2) :=
  Prod.ext h rfl

/-- A ring with entries starts with the one at its head; the others are one slot on. -/
theorem contents_eq_cons {r : Ring α n} (h : r.Valid) (hne : r.isEmpty = false) :
    r.contents = r.buffer r.head :: r.pop.2.contents := by
  have hhead := h.head_lt
  have htail := h.tail_lt
  have hpop : r.pop.2 = { r with head := (r.head + 1) % n } := by simp [pop, hne]
  have hdiff : r.head ≠ r.tail := by simpa [isEmpty] using hne
  have hsize : r.size = r.pop.2.size + 1 := by
    rw [hpop]
    unfold size
    dsimp only
    rw [wrap_eq hhead (by omega : 1 < n)]
    split <;> split <;> split <;> omega
  unfold contents
  rw [hsize, List.range_succ_eq_map, List.map_cons, List.map_map]
  congr 1
  · rw [Nat.add_zero, Nat.mod_eq_of_lt hhead]
  · apply List.map_congr_left
    intro i _
    rw [hpop]
    show r.buffer ((r.head + (i + 1)) % n) = r.buffer (((r.head + 1) % n + i) % n)
    rw [Nat.mod_add_mod]
    congr 2
    omega

/-- **Pop.**  The oldest entry is taken, the others stay in order. -/
theorem contents_of_pop {r : Ring α n} (h : r.Valid) {x : α} {xs : List α}
    (hc : r.contents = x :: xs) : r.pop.1 = some x ∧ r.pop.2.contents = xs := by
  have hne : r.isEmpty = false := by
    rw [← Bool.not_eq_true, isEmpty_iff h, hc]
    exact List.cons_ne_nil x xs
  rw [contents_eq_cons h hne] at hc
  obtain ⟨hx, hxs⟩ := List.cons.inj hc
  exact ⟨by simp [pop, hne, hx], hxs⟩

/-- The same as a pair: what `pop` gives, and the ring it leaves. -/
theorem pop_of_cons {r : Ring α n} (h : r.Valid) {x : α} {xs : List α}
    (hc : r.contents = x :: xs) : ∃ r', r.pop = (some x, r') ∧ r'.Valid ∧ r'.contents = xs :=
  ⟨r.pop.2, pop_eq_some (contents_of_pop h hc).1, valid_pop h, (contents_of_pop h hc).2⟩

theorem contents_pop {r : Ring α n} (h : r.Valid) : r.pop.2.contents = r.contents.tail := by
  cases hc : r.contents with
  | nil       => rw [pop_of_nil h hc, hc, List.tail_nil]
  | cons x xs => exact (contents_of_pop h hc).2

theorem pop_fst {r : Ring α n} (h : r.Valid) : r.pop.1 = r.contents.head? := by
  cases hc : r.contents with
  | nil       => rw [pop_of_nil h hc, List.head?_nil]
  | cons x xs => rw [(contents_of_pop h hc).1, List.head?_cons]

/-! ### Appending -/

theorem valid_store {r : Ring α n} (h : r.Valid) (x : α) : (r.store x).Valid :=
  ⟨h.head_lt, Nat.mod_lt _ (Nat.zero_lt_of_lt h.head_lt)⟩

theorem valid_push {r : Ring α n} (h : r.Valid) (x : α) : (r.push x).Valid := by
  unfold push
  split
  · exact valid_store (valid_pop h) x
  · exact valid_store h x

/-- Where a slot besides the reserved one is free, storing appends. -/
theorem contents_store {r : Ring α n} (h : r.Valid) (hroom : r.contents.length + 1 < n) (x : α) :
    (r.store x).contents = r.contents ++ [x] := by
  have hhead := h.head_lt
  have htail := h.tail_lt
  rw [length_contents] at hroom
  have hsize : (r.store x).size = r.size + 1 := by
    unfold store size at *
    dsimp only
    rw [wrap_eq htail (by omega : 1 < n)]
    split_ifs at * <;> omega
  unfold contents
  rw [hsize, List.range_succ, List.map_append, List.map_singleton]
  congr 1
  · -- the old entries are not in the slot that is written
    apply List.map_congr_left
    intro i hi
    have hlt : i < r.size := List.mem_range.mp hi
    have hother : (r.head + i) % n ≠ r.tail := by
      rw [← head_add_size h, wrap_eq hhead (by omega), wrap_eq hhead (size_lt h)]
      split <;> split <;> omega
    exact Function.update_of_ne hother x r.buffer
  · show [Function.update r.buffer r.tail x ((r.head + r.size) % n)] = [x]
    rw [head_add_size h, Function.update_self]

/-- **Push.**  The entry is appended; where the ring is full its oldest entry goes. -/
theorem contents_push (hn : 2 ≤ n) {r : Ring α n} (h : r.Valid) (x : α) :
    (r.push x).contents
      = (if r.contents.length = n - 1 then r.contents.tail else r.contents) ++ [x] := by
  have hlt : r.contents.length < n := by
    rw [length_contents]
    exact size_lt h
  unfold push
  by_cases hfull : r.contents.length = n - 1
  · -- the pop makes room
    have hroom : r.pop.2.contents.length + 1 < n := by
      rw [contents_pop h, List.length_tail]
      omega
    rw [if_pos ((isFull_iff h).mpr hfull), if_pos hfull, contents_store (valid_pop h) hroom,
      contents_pop h]
  · have hroom : r.contents.length + 1 < n := by omega
    rw [if_neg (mt (isFull_iff h).mp hfull), if_neg hfull, contents_store h hroom]

end Ring

end HtcLeo

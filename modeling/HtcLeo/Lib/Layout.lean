import HtcLeo.Lib.Memory
import Mathlib.Data.List.Basic
import Mathlib.Tactic.Common

namespace HtcLeo

/-!
# Records in memory

How values of a type lie in memory, as the C compiler lays out a `struct`: one field behind the
other, words with the low byte first.

* `Layout α` — so many bytes for a value, which is read back whatever follows it.
* `Layout.byte`, `Layout.word32`, `Layout.array`, `Layout.pair` — bytes, words, arrays and
  fields one behind the other.
* `Layout.iso` — the fields under the names of a record.
-/

universe u v

/-- How values of a type lie in memory. -/
structure Layout (α : Type u) where
  size : Nat
  store : α → List Byte
  load : List Byte → α
  length_store : ∀ a, (store a).length = size
  load_store : ∀ a rest, load (store a ++ rest) = a

namespace Layout

variable {α : Type u} {β : Type v}

attribute [simp] length_store

/-- A value is read back where nothing follows. -/
@[simp] theorem load_store_nil (L : Layout α) (a : α) : L.load (L.store a) = a := by
  have h := L.load_store a []
  rwa [List.append_nil] at h

/-- What follows a value is what is left behind its bytes. -/
theorem drop_store (L : Layout α) (a : α) (rest : List Byte) :
    (L.store a ++ rest).drop L.size = rest := by
  rw [← L.length_store a, List.drop_left]

/-! ### Bytes and words -/

/-- One byte. -/
def byte : Layout Byte where
  size := 1
  store b := [b]
  load bs := bs.headD 0
  length_store _ := rfl
  load_store _ _ := rfl

/-- A little-endian word. -/
def word32 : Layout (BitVec 32) where
  size := 4
  store w := [Memory.byteOf w 0, Memory.byteOf w 1, Memory.byteOf w 2, Memory.byteOf w 3]
  load bs := bs.getD 3 0 ++ bs.getD 2 0 ++ bs.getD 1 0 ++ bs.getD 0 0
  length_store _ := rfl
  load_store w _ := Memory.byteOf_append w

@[simp] theorem size_byte : byte.size = 1 := rfl
@[simp] theorem size_word32 : word32.size = 4 := rfl

/-! ### Arrays -/

/-- Behind `i` values of a list, the others. -/
theorem drop_flatMap {γ : Type v} {f : α → List γ} {k : Nat} (hf : ∀ a, (f a).length = k)
    (l : List α) (rest : List γ) {i : Nat} (h : i ≤ l.length) :
    (l.flatMap f ++ rest).drop (k * i) = (l.drop i).flatMap f ++ rest := by
  induction l generalizing i with
  | nil =>
    obtain rfl : i = 0 := by simpa using h
    simp
  | cons a l ih =>
    cases i with
    | zero => simp
    | succ i =>
      have hi : i ≤ l.length := by simpa using h
      have hsize : k * (i + 1) = (f a).length + k * i := by rw [Nat.mul_succ, hf, Nat.add_comm]
      rw [List.flatMap_cons, List.append_assoc, hsize, ← List.drop_drop, List.drop_left, ih hi,
        List.drop_succ_cons]

/-- Value `i` of a list, where it lies. -/
theorem drop_flatMap_getElem {γ : Type v} {f : α → List γ} {k : Nat}
    (hf : ∀ a, (f a).length = k) (l : List α) (rest : List γ) {i : Nat} (h : i < l.length) :
    (l.flatMap f ++ rest).drop (k * i) = f l[i] ++ ((l.drop (i + 1)).flatMap f ++ rest) := by
  rw [drop_flatMap hf l rest h.le, List.drop_eq_getElem_cons h, List.flatMap_cons,
    List.append_assoc]

theorem length_flatMap {γ : Type v} {f : α → List γ} {k : Nat} (hf : ∀ a, (f a).length = k)
    (l : List α) : (l.flatMap f).length = k * l.length := by
  induction l with
  | nil => rfl
  | cons a l ih =>
    rw [List.flatMap_cons, List.length_append, ih, hf, List.length_cons, Nat.mul_succ,
      Nat.add_comm]

/-- `n` values one behind the other. -/
def array (n : Nat) (L : Layout α) : Layout (Vector α n) where
  size := L.size * n
  store v := v.toList.flatMap L.store
  load bs := Vector.ofFn fun i : Fin n => L.load (bs.drop (L.size * i.val))
  length_store v := by rw [length_flatMap L.length_store, Vector.length_toList]
  load_store v rest := by
    ext i hi
    rw [Vector.getElem_ofFn]
    have hlen : i < v.toList.length := by rwa [Vector.length_toList]
    rw [drop_flatMap_getElem L.length_store v.toList rest hlen, L.load_store,
      Vector.getElem_toList]

@[simp] theorem size_array (n : Nat) (L : Layout α) : (L.array n).size = L.size * n := rfl

/-! ### Records -/

/-- One field behind another. -/
def pair (L : Layout α) (M : Layout β) : Layout (α × β) where
  size := L.size + M.size
  store p := L.store p.1 ++ M.store p.2
  load bs := (L.load bs, M.load (bs.drop L.size))
  length_store p := by rw [List.length_append, L.length_store, M.length_store]
  load_store p rest := by
    rw [List.append_assoc, L.load_store, drop_store, M.load_store]

@[simp] theorem size_pair (L : Layout α) (M : Layout β) : (L.pair M).size = L.size + M.size := rfl

/-- The fields under the names of a record. -/
def iso (L : Layout α) (pack : α → β) (fields : β → α) (h : ∀ b, pack (fields b) = b) :
    Layout β where
  size := L.size
  store b := L.store (fields b)
  load bs := pack (L.load bs)
  length_store b := L.length_store (fields b)
  load_store b rest := by rw [L.load_store, h]

@[simp] theorem size_iso (L : Layout α) (pack : α → β) (fields : β → α)
    (h : ∀ b, pack (fields b) = b) : (L.iso pack fields h).size = L.size := rfl

end Layout

end HtcLeo

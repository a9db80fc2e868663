import HtcLeo.Lib.AddressSpace
import Mathlib.Logic.Function.Iterate

namespace HtcLeo

/-!
# Bytes stored through a moving pointer

Loops that store bytes through a pointer they move on, in an address space that goes round.

* `Pen` — the pointer, and the bytes that have been stored through it; `put` and `skip` move it.
* `iterate_rule` — an invariant of a counting loop `f^[n]`, indexed by the iterations made.
* `Pen.At` — the pen is so many bytes behind the start of a region, and has stored inside the
  region only; `Strokes` — what code moves the pen on by, with its rules for sequence and loops.
* `applied` — the memory after the stores; `applied_row` says that bytes stored one behind the
  other fill a region.
-/

/-- **Counting loop.**  `Inv i` holds after `i` iterations. -/
theorem iterate_rule {α : Type*} {f : α → α} (Inv : Nat → α → Prop) {n : Nat}
    (hstep : ∀ i < n, ∀ a, Inv i a → Inv (i + 1) (f a)) {a : α} (h : Inv 0 a) :
    Inv n (f^[n] a) := by
  induction n with
  | zero => exact h
  | succ n ih =>
    rw [Function.iterate_succ_apply']
    exact hstep n (Nat.lt_succ_self n) _ (ih fun i hi => hstep i (Nat.lt_succ_of_lt hi))

variable {w : Nat}

/-- A byte of a region, however far it is behind the start. -/
theorem Region.has_ofNat {r : Region w} {off : Nat} (h : off < r.bytes) :
    r.Has (r.start + BitVec.ofNat w off) := by
  unfold Region.Has
  rw [BitVec.add_comm, BitVec.add_sub_cancel, BitVec.toNat_ofNat]
  exact Nat.lt_of_le_of_lt (Nat.mod_le _ _) h

/-- An address that is so many bytes behind another. -/
theorem eq_add_ofNat_iff {start x : BitVec w} {n : Nat} (hn : n < 2 ^ w) :
    x = start + BitVec.ofNat w n ↔ (x - start).toNat = n := by
  constructor
  · rintro rfl
    rw [BitVec.add_comm, BitVec.add_sub_cancel, BitVec.toNat_ofNat, Nat.mod_eq_of_lt hn]
  · intro h
    have hsub : x - start = BitVec.ofNat w n := by
      apply BitVec.eq_of_toNat_eq
      rw [h, BitVec.toNat_ofNat, Nat.mod_eq_of_lt hn]
    rw [← hsub, BitVec.add_comm, BitVec.sub_add_cancel]

/-- A pointer, and what has been stored through it, in order. -/
structure Pen (w : Nat) where
  pointer : BitVec w
  stores : List (BitVec w × Byte)
  deriving DecidableEq, Repr

namespace Pen

/-- `*p = b; p++;` -/
def put (b : Byte) (p : Pen w) : Pen w :=
  { pointer := p.pointer + 1, stores := p.stores ++ [(p.pointer, b)] }

/-- `p += n;` -/
def skip (n : BitVec w) (p : Pen w) : Pen w := { p with pointer := p.pointer + n }

/-- The pen is `off` bytes behind the start of the region, and has stored inside it only. -/
structure At (r : Region w) (off : Nat) (p : Pen w) : Prop where
  pointer : p.pointer = r.start + BitVec.ofNat w off
  inside : ∀ s ∈ p.stores, r.Has s.1

variable {r : Region w} {off : Nat} {p : Pen w}

/-- A byte is stored inside the region. -/
theorem At.put (h : p.At r off) (hoff : off < r.bytes) (b : Byte) : (p.put b).At r (off + 1) := by
  constructor
  · show p.pointer + 1#w = _
    rw [h.pointer, BitVec.ofNat_add, BitVec.add_assoc]
  · intro s hs
    rcases List.mem_append.mp hs with hold | hnew
    · exact h.inside s hold
    · rw [List.mem_singleton.mp hnew, h.pointer]
      exact Region.has_ofNat hoff

/-- Bytes are passed over. -/
theorem At.skip (h : p.At r off) (n : Nat) : (p.skip (BitVec.ofNat w n)).At r (off + n) := by
  constructor
  · show p.pointer + BitVec.ofNat w n = _
    rw [h.pointer, BitVec.ofNat_add, BitVec.add_assoc]
  · exact h.inside

/-- With room for `d` bytes in front of the pen, which is part of a state, `f` moves it on by so
    many, and stores among them only. -/
def Strokes {α : Type*} (r : Region w) (pen : α → Pen w) (f : α → α) (d : Nat) : Prop :=
  ∀ off a, off + d ≤ r.bytes → (pen a).At r off → (pen (f a)).At r (off + d)

section Strokes

variable {α : Type*} {pen : α → Pen w} {f g : α → α} {d e : Nat}

theorem Strokes.comp (hf : Strokes r pen f d) (hg : Strokes r pen g e) :
    Strokes r pen (fun a => g (f a)) (d + e) := by
  intro off a hroom ha
  rw [← Nat.add_assoc] at hroom ⊢
  exact hg _ _ hroom (hf _ _ (by omega) ha)

/-- A loop. -/
theorem Strokes.iterate (h : Strokes r pen f d) (n : Nat) : Strokes r pen f^[n] (n * d) := by
  intro off a hroom ha
  refine iterate_rule (fun i a => (pen a).At r (off + i * d)) ?_ (by simpa using ha)
  intro i hi a ha
  have hle : (i + 1) * d ≤ n * d := Nat.mul_le_mul_right d hi
  rw [Nat.succ_mul] at hle
  have hnext := h (off + i * d) a (by omega) ha
  rwa [Nat.add_assoc, ← Nat.succ_mul] at hnext

/-- Bytes that are passed over. -/
theorem Strokes.skip (n : Nat) : Strokes r id (Pen.skip (BitVec.ofNat w n)) n :=
  fun _ _ _ ha => ha.skip n

end Strokes

end Pen

/-! ### The memory after stores -/

/-- The memory after one store. -/
def storeAt (m : BitVec w → Byte) (s : BitVec w × Byte) : BitVec w → Byte :=
  fun x => if x = s.1 then s.2 else m x

/-- The memory after the stores. -/
def applied (stores : List (BitVec w × Byte)) (m : BitVec w → Byte) : BitVec w → Byte :=
  stores.foldl storeAt m

/-- `n` bytes, one behind the other. -/
def row (start : BitVec w) (f : Nat → Byte) (n : Nat) : List (BitVec w × Byte) :=
  (List.range n).map fun i => (start + BitVec.ofNat w i, f i)

theorem row_succ (start : BitVec w) (f : Nat → Byte) (n : Nat) :
    row start f (n + 1) = row start f n ++ [(start + BitVec.ofNat w n, f n)] := by
  unfold row
  rw [List.range_succ, List.map_append]
  rfl

/-- Bytes behind others. -/
theorem row_add (start : BitVec w) (f : Nat → Byte) (n k : Nat) :
    row start f (n + k)
      = row start f n ++ row (start + BitVec.ofNat w n) (fun i => f (n + i)) k := by
  induction k with
  | zero => simp [row]
  | succ k ih =>
    rw [← Nat.add_assoc, row_succ, ih, row_succ, BitVec.ofNat_add, BitVec.add_assoc,
      List.append_assoc]

/-- Only the bytes matter that there are. -/
theorem row_congr (start : BitVec w) {f g : Nat → Byte} {n : Nat} (h : ∀ i < n, f i = g i) :
    row start f n = row start g n := by
  refine List.map_congr_left fun i hi => ?_
  rw [h i (List.mem_range.mp hi)]

/-- Bytes stored one behind the other fill a region, if they do not go round. -/
theorem applied_row (start : BitVec w) (f : Nat → Byte) (m : BitVec w → Byte) {n : Nat}
    (hn : n ≤ 2 ^ w) : applied (row start f n) m = Region.fill ⟨start, n⟩ f m := by
  induction n with
  | zero =>
    funext x
    exact (Region.fill_outside f m (Nat.not_lt_zero _)).symm
  | succ n ih =>
    have hlast : applied (row start f (n + 1)) m
        = storeAt (applied (row start f n) m) (start + BitVec.ofNat w n, f n) := by
      rw [row_succ, applied, List.foldl_append]
      rfl
    funext x
    have hhas : ∀ k, (⟨start, k⟩ : Region w).Has x ↔ (x - start).toNat < k := fun _ => Iff.rfl
    have hx : x = start + BitVec.ofNat w n ↔ (x - start).toNat = n := eq_add_ofNat_iff (by omega)
    rw [hlast, ih (by omega)]
    unfold storeAt Region.fill
    dsimp only
    -- the last byte, one of those before it, or none of them
    by_cases heq : (x - start).toNat = n
    · rw [if_pos (hx.mpr heq), if_pos ((hhas _).mpr (by omega)), heq]
    · rw [if_neg (heq ∘ hx.mp)]
      by_cases hlt : (x - start).toNat < n
      · rw [if_pos ((hhas _).mpr hlt), if_pos ((hhas _).mpr (by omega))]
      · rw [if_neg (hlt ∘ (hhas _).mp), if_neg (fun h => by have := (hhas _).mp h; omega)]

end HtcLeo

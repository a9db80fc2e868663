import Mathlib.Data.BitVec
import Mathlib.Data.List.GetD
import Mathlib.Tactic.SplitIfs

namespace HtcLeo

/-!
# Byte memory

Memory as a map from addresses to bytes, with block copies and little-endian words.

* `blit` — replacing a range of bytes.  `blit_append` joins two adjacent ranges, and
  `blit_concat` one more byte, which is the step of every copying loop.
* `load32`, `store32` — little-endian words; `store32_load32` says that moving a word moves
  its four bytes, `load32_store32` that a word is read back as it was stored.
* `HoldsWords`, `storeWords` — words one behind the other.
-/

/-- A byte. -/
abbrev Byte := BitVec 8

/-- The contents of a memory. -/
abbrev Memory := Nat → Byte

namespace Memory

/-- The memory `m` with the `n` bytes from `dst` on replaced by `f 0, f 1, …`. -/
def blit (dst n : Nat) (f : Nat → Byte) (m : Memory) : Memory :=
  fun a => if dst ≤ a ∧ a < dst + n then f (a - dst) else m a

/-- The little-endian word at an address. -/
def load32 (m : Memory) (a : Nat) : BitVec 32 := m (a + 3) ++ m (a + 2) ++ m (a + 1) ++ m a

/-- Byte `i` of a word. -/
def byteOf (w : BitVec 32) (i : Nat) : Byte := w.extractLsb' (8 * i) 8

/-- Store a little-endian word. -/
def store32 (a : Nat) (w : BitVec 32) (m : Memory) : Memory := blit a 4 (byteOf w) m

@[simp] theorem blit_zero (dst : Nat) (f : Nat → Byte) (m : Memory) : blit dst 0 f m = m := by
  funext a
  have h : ¬ (dst ≤ a ∧ a < dst + 0) := by omega
  rw [blit, if_neg h]

/-- Inside the range the new bytes are read. -/
theorem blit_inside (dst : Nat) {n i : Nat} (f : Nat → Byte) (m : Memory) (h : i < n) :
    blit dst n f m (dst + i) = f i := by
  have hin : dst ≤ dst + i ∧ dst + i < dst + n := by omega
  rw [blit, if_pos hin, Nat.add_sub_cancel_left]

/-- Outside the range nothing changes. -/
theorem blit_outside {dst n a : Nat} (f : Nat → Byte) (m : Memory) (h : a < dst ∨ dst + n ≤ a) :
    blit dst n f m a = m a := by
  have hout : ¬ (dst ≤ a ∧ a < dst + n) := by omega
  rw [blit, if_neg hout]

/-- Only the bytes of the range matter. -/
theorem blit_congr {dst n : Nat} {f g : Nat → Byte} (m : Memory) (h : ∀ i, i < n → f i = g i) :
    blit dst n f m = blit dst n g m := by
  funext a
  unfold blit
  split
  · exact h _ (by omega)
  · rfl

/-- Two adjacent ranges of one source make one range. -/
theorem blit_append (dst n k : Nat) (f : Nat → Byte) (m : Memory) :
    blit (dst + n) k (fun i => f (n + i)) (blit dst n f m) = blit dst (n + k) f m := by
  funext a
  by_cases hsnd : dst + n ≤ a ∧ a < dst + n + k
  · -- the second range
    have hin : dst ≤ a ∧ a < dst + (n + k) := by omega
    simp only [blit, if_pos hsnd, if_pos hin]
    congr 1
    omega
  · by_cases hfst : dst ≤ a ∧ a < dst + n
    · -- the first one
      have hin : dst ≤ a ∧ a < dst + (n + k) := by omega
      simp only [blit, if_neg hsnd, if_pos hfst, if_pos hin]
    · have hout : ¬ (dst ≤ a ∧ a < dst + (n + k)) := by omega
      simp only [blit, if_neg hsnd, if_neg hfst, if_neg hout]

/-- One more byte behind a list of bytes. -/
theorem blit_concat (dst : Nat) (l : List Byte) (byte : Byte) (m : Memory) :
    blit (dst + l.length) 1 (fun _ => byte) (blit dst l.length (fun i => l.getD i 0) m)
      = blit dst (l.length + 1) (fun i => (l ++ [byte]).getD i 0) m := by
  have hold : blit dst l.length (fun i => l.getD i 0) m
      = blit dst l.length (fun i => (l ++ [byte]).getD i 0) m := by
    apply blit_congr
    intro i hi
    rw [List.getD_append _ _ _ _ hi]
  rw [hold, ← blit_append]
  -- the second range is the one byte behind the list
  apply blit_congr
  intro i hi
  obtain rfl : i = 0 := by omega
  rw [List.getD_append_right _ _ _ _ (Nat.le_add_right _ 0), Nat.add_zero, Nat.sub_self]
  rfl

/-- The bytes of a word are those it was loaded from. -/
theorem byteOf_load32 (m : Memory) (a : Nat) {i : Nat} (h : i < 4) :
    byteOf (load32 m a) i = m (a + i) := by
  have hcases : i = 0 ∨ i = 1 ∨ i = 2 ∨ i = 3 := by omega
  unfold byteOf load32
  apply BitVec.eq_of_getLsbD_eq
  intro j hj
  -- bit `8 * i + j` of the concatenation lies in the part for byte `i`
  rcases hcases with rfl | rfl | rfl | rfl
  all_goals
    simp only [BitVec.getLsbD_extractLsb', BitVec.getLsbD_append, hj, decide_true, Bool.true_and]
  · simp [hj]
  · have h1 : ¬ 8 * 1 + j < 8 := by omega
    have h2 : 8 * 1 + j - 8 = j := by omega
    simp only [h1, h2, hj, if_true, if_false]
  · have h1 : ¬ 8 * 2 + j < 8 := by omega
    have h2 : ¬ 8 * 2 + j - 8 < 8 := by omega
    have h3 : 8 * 2 + j - 8 - 8 = j := by omega
    simp only [h1, h2, h3, hj, if_true, if_false]
  · have h1 : ¬ 8 * 3 + j < 8 := by omega
    have h2 : ¬ 8 * 3 + j - 8 < 8 := by omega
    have h3 : ¬ 8 * 3 + j - 8 - 8 < 8 := by omega
    have h4 : 8 * 3 + j - 8 - 8 - 8 = j := by omega
    simp only [h1, h2, h3, h4, if_false]

/-- Storing a word that was loaded moves its four bytes. -/
theorem store32_load32 (src m : Memory) (a b : Nat) :
    store32 a (load32 src b) m = blit a 4 (fun i => src (b + i)) m :=
  blit_congr m fun _ hi => byteOf_load32 src b hi

/-- Only the four bytes of a word matter when it is loaded. -/
theorem load32_congr {m m' : Memory} {a : Nat} (h : ∀ i, i < 4 → m' (a + i) = m (a + i)) :
    load32 m' a = load32 m a := by
  have h0 := h 0 (by omega)
  rw [Nat.add_zero] at h0
  rw [load32, load32, h 3 (by omega), h 2 (by omega), h 1 (by omega), h0]

/-- A word is made of its four bytes. -/
theorem byteOf_append (w : BitVec 32) :
    byteOf w 3 ++ byteOf w 2 ++ byteOf w 1 ++ byteOf w 0 = w := by
  unfold byteOf
  ext i hi
  rw [← BitVec.getLsbD_eq_getElem hi, ← BitVec.getLsbD_eq_getElem hi]
  simp only [BitVec.getLsbD_append, BitVec.getLsbD_extractLsb']
  -- the part bit `i` lies in
  split_ifs with h0 h1 h2
  · simp [h0]
  · have hat : 8 * 1 + (i - 8) = i := by omega
    simp [h1, hat]
  · have hat : 8 * 2 + (i - 8 - 8) = i := by omega
    simp [h2, hat]
  · have h3 : i - 8 - 8 - 8 < 8 := by omega
    have hat : 8 * 3 + (i - 8 - 8 - 8) = i := by omega
    simp [h3, hat]

/-- A stored word is read back. -/
theorem load32_store32 (a : Nat) (w : BitVec 32) (m : Memory) : load32 (store32 a w m) a = w := by
  have hbyte : ∀ i, i < 4 → store32 a w m (a + i) = byteOf w i := by
    intro i hi
    exact blit_inside a (byteOf w) m hi
  have h0 := hbyte 0 (by omega)
  rw [Nat.add_zero] at h0
  rw [load32, hbyte 3 (by omega), hbyte 2 (by omega), hbyte 1 (by omega), h0]
  exact byteOf_append w

/-! ### Words one behind the other -/

/-- The words `ws` stand at `a`. -/
def HoldsWords (m : Memory) (a : Nat) : List (BitVec 32) → Prop
  | []      => True
  | w :: ws => load32 m a = w ∧ HoldsWords m (a + 4) ws

/-- Store the words `ws` at `a`. -/
def storeWords (a : Nat) : List (BitVec 32) → Memory → Memory
  | [],      m => m
  | w :: ws, m => storeWords (a + 4) ws (store32 a w m)

/-- Storing words leaves what is outside them. -/
theorem storeWords_outside {a b : Nat} (ws : List (BitVec 32)) (m : Memory)
    (h : b < a ∨ a + 4 * ws.length ≤ b) : storeWords a ws m b = m b := by
  induction ws generalizing a m with
  | nil => rfl
  | cons w ws ih =>
    rw [List.length_cons] at h
    rw [storeWords, ih (store32 a w m) (by omega)]
    exact blit_outside _ m (by omega)

/-- One more word behind a list of words. -/
theorem storeWords_concat (a : Nat) (ws : List (BitVec 32)) (w : BitVec 32) (m : Memory) :
    storeWords a (ws ++ [w]) m = store32 (a + 4 * ws.length) w (storeWords a ws m) := by
  induction ws generalizing a m with
  | nil => rfl
  | cons v ws ih =>
    have hend : a + 4 + 4 * ws.length = a + 4 * (ws.length + 1) := by omega
    rw [List.cons_append, storeWords, ih, storeWords, List.length_cons, hend]

/-- Only the bytes of the words matter. -/
theorem HoldsWords.congr {m m' : Memory} {a : Nat} {ws : List (BitVec 32)}
    (h : HoldsWords m a ws) (heq : ∀ b, a ≤ b → b < a + 4 * ws.length → m' b = m b) :
    HoldsWords m' a ws := by
  induction ws generalizing a with
  | nil => exact h
  | cons w ws ih =>
    obtain ⟨hw, hws⟩ := h
    rw [List.length_cons] at heq
    have hload : load32 m' a = load32 m a :=
      load32_congr fun i hi => heq (a + i) (by omega) (by omega)
    exact ⟨hload.trans hw, ih hws fun b hlo hhi => heq b (by omega) (by omega)⟩

/-- Stored words are read back. -/
theorem storeWords_holds (a : Nat) (ws : List (BitVec 32)) (m : Memory) :
    HoldsWords (storeWords a ws m) a ws := by
  induction ws generalizing a m with
  | nil => trivial
  | cons w ws ih =>
    have hload : load32 (storeWords (a + 4) ws (store32 a w m)) a
        = load32 (store32 a w m) a :=
      load32_congr fun i hi => storeWords_outside ws _ (by omega)
    exact ⟨hload.trans (load32_store32 a w m), ih (a + 4) (store32 a w m)⟩

end Memory

end HtcLeo

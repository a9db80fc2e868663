import HtcLeo.Lib.Memory
import HtcLeo.Lib.Prog

namespace HtcLeo

/-!
# Strings that end at a NUL

Strings as C programs keep them: the bytes of the string, none of them NUL, and a NUL behind
them.

* `HoldsString m a s` — the string `s` stands at `a`.
* `readString` — reading a string, byte by byte up to the NUL; `readString_spec`.
* `copyString` — `while ((*dst++ = *src++));`, with its effect in `copyString_spec`.
-/

/-- The string `s` stands at `a`, with a NUL behind it. -/
structure HoldsString (m : Memory) (a : Nat) (s : List Byte) : Prop where
  noNul : ∀ b ∈ s, b ≠ 0
  bytes : ∀ i, i ≤ s.length → m (a + i) = s.getD i 0

namespace HoldsString

variable {m m' : Memory} {a : Nat} {s : List Byte}

/-- Only the bytes of the string and its NUL matter. -/
theorem congr (h : HoldsString m a s) (heq : ∀ b, a ≤ b → b ≤ a + s.length → m' b = m b) :
    HoldsString m' a s := by
  refine ⟨h.noNul, fun i hi => ?_⟩
  rw [heq (a + i) (by omega) (by omega)]
  exact h.bytes i hi

/-- A string stands where its bytes and a NUL have been put. -/
theorem of_blit (hs : ∀ b ∈ s, b ≠ 0) (a : Nat) (m : Memory) :
    HoldsString (Memory.blit a (s.length + 1) (fun i => s.getD i 0) m) a s :=
  ⟨hs, fun _ hi => Memory.blit_inside a _ m (Nat.lt_succ_of_le hi)⟩

/-- One more byte before a string. -/
theorem cons (h : HoldsString m (a + 1) s) (hne : m a ≠ 0) : HoldsString m a (m a :: s) := by
  refine ⟨List.forall_mem_cons.mpr ⟨hne, h.noNul⟩, fun i hi => ?_⟩
  cases i with
  | zero => rfl
  | succ i =>
    have hbyte := h.bytes i (by rw [List.length_cons] at hi; omega)
    rw [List.getD_cons_succ, ← hbyte]
    congr 1
    omega

/-- Up to the first NUL a string stands. -/
theorem exists_of_nul {n : Nat} (h : m (a + n) = 0) :
    ∃ s, s.length ≤ n ∧ HoldsString m a s := by
  induction n generalizing a with
  | zero =>
    refine ⟨[], Nat.le_refl 0, by simp, fun i hi => ?_⟩
    obtain rfl : i = 0 := by simpa using hi
    exact h
  | succ n ih =>
    by_cases hzero : m a = 0
    · -- the first byte is a NUL
      refine ⟨[], Nat.zero_le _, by simp, fun i hi => ?_⟩
      obtain rfl : i = 0 := by simpa using hi
      exact hzero
    · have hnext : m (a + 1 + n) = 0 := by
        rw [Nat.add_right_comm]
        exact h
      obtain ⟨s, hlen, hs⟩ := ih hnext
      exact ⟨m a :: s, Nat.succ_le_succ hlen, hs.cons hzero⟩

/-- A byte of the string is NUL at its end only. -/
theorem byte_eq_zero_iff (h : HoldsString m a s) {i : Nat} (hi : i ≤ s.length) :
    s.getD i 0 = 0 ↔ i = s.length := by
  rcases Nat.lt_or_eq_of_le hi with hlt | rfl
  · have hmem : s.getD i 0 ∈ s := by
      rw [List.getD_eq_getElem s 0 hlt]
      exact List.getElem_mem hlt
    have hne := h.noNul _ hmem
    simp only [hne, false_iff]
    omega
  · simp

/-- A string begins with a NUL exactly when it is empty. -/
theorem first_eq_zero_iff (h : HoldsString m a s) : m a = 0 ↔ s = [] := by
  have hfirst := h.bytes 0 (Nat.zero_le _)
  rw [Nat.add_zero] at hfirst
  rw [hfirst, h.byte_eq_zero_iff (Nat.zero_le _), eq_comm, List.length_eq_zero_iff]

/-- A byte of the string, in memory. -/
theorem getElem?_eq_some_iff (h : HoldsString m a s) {i : Nat} (hi : i ≤ s.length) {b : Byte} :
    s[i]? = some b ↔ m (a + i) = b ∧ b ≠ 0 := by
  rw [h.bytes i hi, List.getD_eq_getElem?_getD]
  rcases Nat.lt_or_eq_of_le hi with hlt | rfl
  · have hne := h.noNul _ (List.getElem_mem hlt)
    rw [List.getElem?_eq_getElem hlt, Option.some.injEq, Option.getD_some]
    refine ⟨fun hb => ⟨hb, ?_⟩, And.left⟩
    rwa [← hb]
  · rw [List.getElem?_eq_none (Nat.le_refl _), Option.getD_none]
    refine iff_of_false (by simp) ?_
    rintro ⟨rfl, hne⟩
    exact hne rfl

/-- The NUL behind the string. -/
theorem nul (h : HoldsString m a s) : m (a + s.length) = 0 := by
  rw [h.bytes s.length (Nat.le_refl _), List.getD_eq_default _ _ (Nat.le_refl _)]

/-- The bytes that a string begins with. -/
theorem byte_mem {u v : List Byte} (h : HoldsString m a (u ++ v)) {i : Nat} (hi : i < u.length) :
    m (a + i) ∈ u := by
  have hlen : i ≤ (u ++ v).length := by rw [List.length_append]; omega
  rw [h.bytes i hlen, List.getD_append u v 0 i hi, List.getD_eq_getElem u 0 hi]
  exact List.getElem_mem hi

/-- The end of a string. -/
theorem append_right {u v : List Byte} (h : HoldsString m a (u ++ v)) :
    HoldsString m (a + u.length) v := by
  refine ⟨fun b hb => h.noNul b (List.mem_append_right u hb), fun i hi => ?_⟩
  rw [Nat.add_assoc, h.bytes (u.length + i) (by rw [List.length_append]; omega),
    List.getD_append_right u v 0 _ (Nat.le_add_right _ _), Nat.add_sub_cancel_left]

/-- A NUL stored in a string cuts it. -/
theorem cut {u v : List Byte} (h : HoldsString m a (u ++ v)) :
    HoldsString (Memory.blit (a + u.length) 1 (fun _ => 0) m) a u := by
  refine ⟨fun b hb => h.noNul b (List.mem_append_left v hb), fun i hi => ?_⟩
  rcases Nat.lt_or_eq_of_le hi with hlt | rfl
  · rw [Memory.blit_outside _ m (by omega), h.bytes i (by rw [List.length_append]; omega),
      List.getD_append u v 0 i hlt]
  · rw [List.getD_eq_default u 0 (Nat.le_refl _)]
    exact Memory.blit_inside (a + u.length) _ m Nat.zero_lt_one

/-- Up to `n` bytes of a string. -/
theorem takeWhile_range (h : HoldsString m a s) (n : Nat) :
    ((List.range n).map fun i => m (a + i)).takeWhile (· ≠ 0) = s.take n := by
  induction s generalizing a n with
  | nil =>
    cases n with
    | zero => rfl
    | succ n =>
      have hnul : m a = 0 := h.nul
      rw [List.range_succ_eq_map, List.map_cons, Nat.add_zero, hnul]
      rfl
  | cons b s ih =>
    cases n with
    | zero => rfl
    | succ n =>
      have hb : m a = b := h.bytes 0 (Nat.zero_le _)
      have hne : b ≠ 0 := h.noNul b List.mem_cons_self
      have htail : HoldsString m (a + 1) s := append_right (u := [b]) h
      rw [List.range_succ_eq_map, List.map_cons, Nat.add_zero, hb, List.map_map,
        List.takeWhile_cons_of_pos (by simpa using hne), List.take_succ_cons, ← ih htail n]
      congr 2
      refine List.map_congr_left fun i _ => ?_
      rw [Function.comp_apply, Nat.succ_eq_add_one, Nat.add_right_comm, Nat.add_assoc]

end HoldsString

/-! ### Reading -/

variable {σ : Type}

/-- Read the string at `a` with `fetch`. -/
def readString (fetch : Nat → Prog σ Byte) (fuel a : Nat) : Prog σ (List Byte) :=
  Prog.loop (fun s => do
    let b ← fetch (a + s.length)
    if b = 0 then pure (.inr s) else pure (.inl (s ++ [b]))) fuel []

/-- Reading a string gives it, if `fetch` gives its bytes. -/
theorem readString_spec {P : σ → Prop} {fetch : Nat → Prog σ Byte} {m : Memory} {a : Nat}
    {s : List Byte} (hs : HoldsString m a s)
    (hfetch : ∀ i, i ≤ s.length →
      Prog.Completes P (fetch (a + i)) fun b st => b = m (a + i) ∧ P st)
    {fuel : Nat} (hfuel : s.length < fuel) :
    Prog.Completes P (readString fetch fuel a) fun r st => r = s ∧ P st := by
  -- at the head of the loop the accumulator has all but the last `n` bytes
  let Inv : Nat → List Byte → σ → Prop :=
    fun n read st => (∃ rest, s = read ++ rest ∧ rest.length = n) ∧ P st
  have hloop : Prog.Completes (Inv s.length []) (readString fetch fuel a)
      (fun r st => r = s ∧ P st) := by
    apply Prog.Completes.loop Inv _ hfuel
    intro n read st hinv
    obtain ⟨⟨rest, hrest, hn⟩, hP⟩ := hinv
    have hlen : s.length = read.length + n := by rw [hrest, List.length_append, hn]
    obtain ⟨b, st', hrun, hb, hP'⟩ := hfetch read.length (by omega) st hP
    rw [hs.bytes read.length (by omega)] at hb
    have hzero := hs.byte_eq_zero_iff (by omega : read.length ≤ s.length)
    rw [← hb] at hzero
    by_cases hb0 : b = 0
    · -- the NUL: nothing is left
      have hnil : rest = [] := List.length_eq_zero_iff.mp (by have := hzero.mp hb0; omega)
      refine ⟨.inr read, st', Prog.bind_of hrun (by rw [if_pos hb0]; rfl), ?_, hP'⟩
      rw [hrest, hnil, List.append_nil]
    · -- one more byte
      refine ⟨.inl (read ++ [b]), st', Prog.bind_of hrun (by rw [if_neg hb0]; rfl), ?_⟩
      cases rest with
      | nil =>
        simp only [List.length_nil] at hn
        exact absurd (hzero.mpr (by omega)) hb0
      | cons c rest =>
        have hc : b = c := by
          rw [hb, hrest, List.getD_append_right _ _ _ _ (Nat.le_refl _), Nat.sub_self]
          rfl
        rw [List.length_cons] at hn
        exact ⟨rest.length, by omega, ⟨rest, by rw [hrest, hc]; simp, rfl⟩, hP'⟩
  intro st hP
  exact hloop st ⟨⟨s, rfl, rfl⟩, hP⟩

/-! ### Copying -/

/-- `while ((*dst++ = *src++));` -/
def copyString (fuel dst src : Nat) : Prog Memory Unit :=
  Prog.loop (fun (dst, src) => do
    let b ← Prog.query fun m => (m src, m)
    Prog.modify (Memory.blit dst 1 fun _ => b)
    if b = 0 then pure (.inr ()) else pure (.inl (dst + 1, src + 1))) fuel (dst, src)

/-- Copying a string to where it does not overlap itself copies its bytes and the NUL. -/
theorem copyString_spec {m : Memory} {dst src : Nat} {s : List Byte} (hs : HoldsString m src s)
    (hapart : dst + s.length < src ∨ src + s.length < dst) {fuel : Nat}
    (hfuel : s.length < fuel) :
    copyString fuel dst src m
      = (some (), Memory.blit dst (s.length + 1) (fun i => s.getD i 0) m) := by
  -- at the head of the loop the first `i` bytes have been copied
  let Inv : Nat → Nat × Nat → Memory → Prop := fun n p m' =>
    ∃ i, i + n = s.length ∧ p = (dst + i, src + i) ∧ m' = Memory.blit dst i (fun i => s.getD i 0) m
  have hloop : Prog.Completes (Inv s.length (dst, src)) (copyString fuel dst src)
      (fun _ m' => m' = Memory.blit dst (s.length + 1) (fun i => s.getD i 0) m) := by
    apply Prog.Completes.loop Inv _ hfuel
    intro n p m' hinv
    obtain ⟨i, hi, rfl, rfl⟩ := hinv
    let before := Memory.blit dst i (fun i => s.getD i 0) m
    let after := Memory.blit dst (i + 1) (fun i => s.getD i 0) m
    have hbyte : before (src + i) = s.getD i 0 :=
      (Memory.blit_outside _ m (by omega)).trans (hs.bytes i (by omega))
    have hread : Prog.query (fun m => (m (src + i), m)) before = (some (s.getD i 0), before) := by
      rw [Prog.query, hbyte]
    have hwrite : Memory.blit (dst + i) 1 (fun _ => s.getD i 0) before = after := by
      show _ = Memory.blit dst (i + 1) (fun i => s.getD i 0) m
      rw [← Memory.blit_append]
      apply Memory.blit_congr
      intro j hj
      obtain rfl : j = 0 := by omega
      rfl
    have hend := hs.byte_eq_zero_iff (by omega : i ≤ s.length)
    by_cases hzero : s.getD i 0 = 0
    · -- the NUL has been copied
      obtain rfl := hend.mp hzero
      refine ⟨.inr (), after, Prog.bind_of hread (Prog.bind_of rfl ?_), rfl⟩
      rw [if_pos hzero, hwrite]
      rfl
    · have hne : i ≠ s.length := fun h => hzero (hend.mpr h)
      refine ⟨.inl (dst + (i + 1), src + (i + 1)), after,
        Prog.bind_of hread (Prog.bind_of rfl ?_), n - 1, by omega, i + 1, by omega, rfl, rfl⟩
      rw [if_neg hzero, hwrite]
      rfl
  obtain ⟨⟨⟩, m', hrun, rfl⟩ := hloop m ⟨0, by omega, rfl, by simp⟩
  exact hrun

end HtcLeo

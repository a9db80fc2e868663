import HtcLeo.Lib.Memory

namespace HtcLeo

/-!
# Address spaces that go round

Memory behind addresses of a fixed width, where a pointer that leaves at the top comes back at the
bottom.

* `wrapped` — such a memory, as code with unbounded pointers would see it.
* `Region` — bytes one behind the other; `Region.apart_iff` says when two regions share no byte,
  in terms of the distances between their starts.
* `Region.fill` — a region filled with bytes.
-/

variable {w : Nat}

/-- The memory behind addresses that go round. -/
def wrapped (mem : BitVec w → Byte) : Memory := fun a => mem (BitVec.ofNat w a)

theorem ofNat_congr {a b : Nat} (h : a % 2 ^ w = b % 2 ^ w) :
    BitVec.ofNat w a = BitVec.ofNat w b := by
  apply BitVec.eq_of_toNat_eq
  rw [BitVec.toNat_ofNat, BitVec.toNat_ofNat, h]

/-- Addresses that differ by turns round the address space hold the same bytes. -/
theorem wrapped_congr (mem : BitVec w → Byte) {a b : Nat} (h : a % 2 ^ w = b % 2 ^ w) :
    wrapped mem a = wrapped mem b := by
  unfold wrapped
  rw [ofNat_congr h]

/-- And the same words. -/
theorem load32_wrapped_congr (mem : BitVec w → Byte) {a b : Nat} (h : a % 2 ^ w = b % 2 ^ w) :
    Memory.load32 (wrapped mem) a = Memory.load32 (wrapped mem) b := by
  have hbyte : ∀ i, wrapped mem (a + i) = wrapped mem (b + i) := by
    intro i
    apply wrapped_congr
    rw [Nat.add_mod, h, ← Nat.add_mod]
  have hfirst := hbyte 0
  rw [Nat.add_zero, Nat.add_zero] at hfirst
  rw [Memory.load32, Memory.load32, hbyte 3, hbyte 2, hbyte 1, hfirst]

/-! ### Regions -/

/-- The `bytes` bytes from `start` on. -/
structure Region (w : Nat) where
  start : BitVec w
  bytes : Nat

namespace Region

/-- The byte at `x` belongs to the region. -/
def Has (r : Region w) (x : BitVec w) : Prop := (x - r.start).toNat < r.bytes

instance (r : Region w) (x : BitVec w) : Decidable (r.Has x) :=
  inferInstanceAs (Decidable (_ < _))

/-- The regions share no byte. -/
def Apart (r s : Region w) : Prop := ∀ x, r.Has x → ¬ s.Has x

variable {r s : Region w}

theorem Apart.symm (h : r.Apart s) : s.Apart r := fun x hs hr => h x hr hs

/-- A region with bytes has its first one. -/
theorem has_start (h : r.bytes ≠ 0) : r.Has r.start := by
  unfold Has
  rw [BitVec.sub_self, BitVec.toNat_zero]
  omega

/-- The bytes of a region, counted from its start. -/
theorem has_add {i : Nat} (hi : i < r.bytes) (hw : i < 2 ^ w) :
    r.Has (r.start + BitVec.ofNat w i) := by
  unfold Has
  rw [BitVec.add_comm, BitVec.add_sub_cancel, BitVec.toNat_ofNat, Nat.mod_eq_of_lt hw]
  exact hi

/-- The two ways round from one address to another are all the way round. -/
theorem toNat_sub_add_toNat_sub {x y : BitVec w} (h : x ≠ y) :
    (x - y).toNat + (y - x).toNat = 2 ^ w := by
  have hx := x.isLt
  have hy := y.isLt
  have hne : x.toNat ≠ y.toNat := fun heq => h (BitVec.eq_of_toNat_eq heq)
  rw [BitVec.toNat_sub, BitVec.toNat_sub]
  rcases Nat.lt_or_gt_of_ne hne with hlt | hgt
  · have hlow : 2 ^ w - y.toNat + x.toNat < 2 ^ w := by omega
    have hhigh : 2 ^ w - x.toNat + y.toNat = 2 ^ w + (y.toNat - x.toNat) := by omega
    rw [Nat.mod_eq_of_lt hlow, hhigh, Nat.add_mod_left, Nat.mod_eq_of_lt (by omega)]
    omega
  · have hlow : 2 ^ w - x.toNat + y.toNat < 2 ^ w := by omega
    have hhigh : 2 ^ w - y.toNat + x.toNat = 2 ^ w + (x.toNat - y.toNat) := by omega
    rw [Nat.mod_eq_of_lt hlow, hhigh, Nat.add_mod_left, Nat.mod_eq_of_lt (by omega)]
    omega

/-- **Two regions are apart** when one of them has no bytes, or each ends before the other one
    starts, going up and round the address space. -/
theorem apart_iff : r.Apart s ↔ r.bytes = 0 ∨ s.bytes = 0 ∨
    (r.bytes ≤ (s.start - r.start).toNat ∧ s.bytes ≤ (r.start - s.start).toNat) := by
  constructor
  · intro h
    by_cases hr : r.bytes = 0
    · exact Or.inl hr
    · by_cases hs : s.bytes = 0
      · exact Or.inr (Or.inl hs)
      · -- the first byte of each is not in the other
        refine Or.inr (Or.inr ⟨?_, ?_⟩)
        · exact Nat.not_lt.mp fun hlt => h s.start hlt (has_start hs)
        · exact Nat.not_lt.mp fun hlt => h r.start (has_start hr) hlt
  · intro h x hr hs
    unfold Has at hr hs
    rcases h with hzero | hzero | ⟨hrs, hsr⟩
    · omega
    · omega
    · -- from the start of `r` to `x`, and back round to the start of `s`
      have hne : s.start ≠ r.start := by
        intro heq
        rw [heq, BitVec.sub_self, BitVec.toNat_zero] at hrs
        omega
      have hround := toNat_sub_add_toNat_sub hne
      have hsum : x - s.start = (x - r.start) + (r.start - s.start) :=
        (sub_add_sub_cancel x r.start s.start).symm
      have hlt : (x - r.start).toNat + (r.start - s.start).toNat < 2 ^ w := by omega
      rw [hsum, BitVec.toNat_add, Nat.mod_eq_of_lt hlt] at hs
      omega

/-! ### Filling a region -/

/-- The memory with the bytes of the region replaced. -/
def fill (r : Region w) (f : Nat → Byte) (m : BitVec w → Byte) : BitVec w → Byte :=
  fun x => if r.Has x then f (x - r.start).toNat else m x

/-- The bytes that have been filled in. -/
theorem fill_add {i : Nat} (f : Nat → Byte) (m : BitVec w → Byte) (hi : i < r.bytes)
    (hw : i < 2 ^ w) : r.fill f m (r.start + BitVec.ofNat w i) = f i := by
  rw [fill, if_pos (has_add hi hw), BitVec.add_comm, BitVec.add_sub_cancel, BitVec.toNat_ofNat,
    Nat.mod_eq_of_lt hw]

/-- The other bytes. -/
theorem fill_outside {x : BitVec w} (f : Nat → Byte) (m : BitVec w → Byte) (h : ¬ r.Has x) :
    r.fill f m x = m x := if_neg h

end Region

end HtcLeo

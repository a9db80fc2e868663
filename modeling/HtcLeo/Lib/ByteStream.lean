import HtcLeo.Lib.Memory
import Mathlib.Data.List.Basic
import Mathlib.Tactic.Common

namespace HtcLeo

/-!
# Reading a file

A file that is open for reading, as `stdio.h` has it: `fread` gives what is there, and sets the
end-of-file flag when that is less than was asked for.

* `ByteStream` — the bytes still to be read, and the flag.
* `Reader` — reading that either gives a value or fails, with `exactly n` for `n` bytes.
* `Behind s t` — `s` is `t` cut short.  A `Steady` reader that succeeds on a file succeeds in the
  same way on every longer one; readers made of steady readers are steady.
-/

universe u v

/-- A file open for reading. -/
structure ByteStream where
  rest : List Byte
  eof : Bool
  deriving DecidableEq, Repr

namespace ByteStream

/-- A file that has just been opened. -/
def ofBytes (bytes : List Byte) : ByteStream := ⟨bytes, false⟩

/-- `fread` of `n` bytes. -/
def fread (s : ByteStream) (n : Nat) : List Byte × ByteStream :=
  (s.rest.take n, ⟨s.rest.drop n, s.eof || decide (s.rest.length < n)⟩)

/-- When the bytes are there, they are read and the flag stays as it is. -/
theorem fread_append (bytes rest : List Byte) (eof : Bool) :
    fread ⟨bytes ++ rest, eof⟩ bytes.length = (bytes, ⟨rest, eof⟩) := by
  have hflag : ¬ (bytes ++ rest).length < bytes.length := by
    rw [List.length_append]
    omega
  rw [fread, List.take_left, List.drop_left, decide_eq_false hflag, Bool.or_false]

/-- Reading leaves no more than there was. -/
theorem fread_length (s : ByteStream) (n : Nat) : (s.fread n).2.rest.length ≤ s.rest.length := by
  change (s.rest.drop n).length ≤ s.rest.length
  rw [List.length_drop]
  omega

/-- A read that goes over the end gives what is left, and sets the flag. -/
theorem fread_short (s : ByteStream) {n : Nat} (h : s.rest.length < n) :
    s.fread n = (s.rest, ⟨[], true⟩) := by
  rw [fread, List.take_of_length_le h.le, List.drop_eq_nil_of_le h.le, decide_eq_true h,
    Bool.or_true]

/-- Two reads one after the other give what one read gives. -/
theorem fread_add (s : ByteStream) (m n : Nat) :
    s.fread (m + n)
      = ((s.fread m).1 ++ ((s.fread m).2.fread n).1, ((s.fread m).2.fread n).2) := by
  have hflag : decide (s.rest.length < m + n)
      = (decide (s.rest.length < m) || decide ((s.rest.drop m).length < n)) := by
    rw [List.length_drop, ← Bool.decide_or, decide_eq_decide]
    omega
  simp only [fread, List.take_add, List.drop_drop, hflag, Bool.or_assoc]
  rfl

/-! ### A file cut short -/

/-- `s` is `t` cut short. -/
structure Behind (s t : ByteStream) : Prop where
  rest : s.rest <+: t.rest
  eof : s.eof = t.eof

namespace Behind

variable {s t : ByteStream}

/-- What is read from the shorter file begins what is read from the longer one. -/
theorem fread_prefix (h : Behind s t) (n : Nat) : (s.fread n).1 <+: (t.fread n).1 :=
  h.rest.take n

/-- What the shorter file has in full is read from both in the same way. -/
theorem fread_full (h : Behind s t) {n : Nat} (hn : n ≤ s.rest.length) :
    (s.fread n).1 = (t.fread n).1 ∧ Behind (s.fread n).2 (t.fread n).2 := by
  obtain ⟨more, hmore⟩ := h.rest
  have htake : t.rest.take n = s.rest.take n := by
    rw [← hmore, List.take_append_of_le_length hn]
  have hdrop : t.rest.drop n = s.rest.drop n ++ more := by
    rw [← hmore, List.drop_append_of_le_length hn]
  have hlen : s.rest.length ≤ t.rest.length := h.rest.length_le
  have hs : ¬ s.rest.length < n := by omega
  have ht : ¬ t.rest.length < n := by omega
  refine ⟨htake.symm, ⟨⟨more, hdrop.symm⟩, ?_⟩⟩
  change (s.eof || decide (s.rest.length < n)) = (t.eof || decide (t.rest.length < n))
  rw [decide_eq_false hs, decide_eq_false ht, h.eof]

end Behind

/-! ### Readers -/

/-- Reading that gives a value or fails. -/
abbrev Reader (α : Type) := StateT ByteStream Option α

/-- `fread` of `n` bytes that must all be there. -/
def exactly (n : Nat) : Reader (List Byte) := fun s =>
  let r := s.fread n
  if r.1.length = n then some r else none

/-- `n` bytes are there exactly when so many are left. -/
theorem exactly_eq (n : Nat) (s : ByteStream) :
    exactly n s
      = if n ≤ s.rest.length then some (s.rest.take n, ⟨s.rest.drop n, s.eof⟩) else none := by
  have hlen : (s.fread n).1.length = min n s.rest.length := List.length_take
  by_cases hn : n ≤ s.rest.length
  · have hfull : (s.fread n).1.length = n := by omega
    have hflag : ¬ s.rest.length < n := by omega
    rw [exactly, if_pos hfull, if_pos hn, fread, decide_eq_false hflag, Bool.or_false]
  · have hshort : (s.fread n).1.length ≠ n := by omega
    rw [exactly, if_neg hshort, if_neg hn]

/-- What `exactly n` leaves is `n` bytes shorter. -/
theorem exactly_length {n : Nat} {s : ByteStream} {r : List Byte × ByteStream}
    (h : exactly n s = some r) : r.2.rest.length + n = s.rest.length := by
  rw [exactly_eq] at h
  split at h
  case isTrue hn =>
    obtain rfl := Option.some.inj h
    rw [List.length_drop]
    omega
  case isFalse => cases h

theorem exactly_append (bytes rest : List Byte) (eof : Bool) :
    exactly bytes.length ⟨bytes ++ rest, eof⟩ = some (bytes, ⟨rest, eof⟩) := by
  have hread := fread_append bytes rest eof
  unfold exactly
  rw [hread]
  exact if_pos rfl

/-- A success on a file is a success on every longer one. -/
def Steady {α : Type} (r : Reader α) : Prop :=
  ∀ s t a s', Behind s t → r s = some (a, s') → ∃ t', r t = some (a, t') ∧ Behind s' t'

namespace Steady

variable {α β : Type}

theorem pure (a : α) : Steady (Pure.pure a : Reader α) := by
  intro s t b s' hst hr
  change some (a, s) = some (b, s') at hr
  simp only [Option.some.injEq, Prod.mk.injEq] at hr
  obtain ⟨rfl, rfl⟩ := hr
  exact ⟨t, rfl, hst⟩

theorem bind {r : Reader α} {k : α → Reader β} (hr : Steady r) (hk : ∀ a, Steady (k a)) :
    Steady (r >>= k) := by
  intro s t b s' hst hrun
  change (r s).bind (fun p => k p.1 p.2) = some (b, s') at hrun
  obtain ⟨⟨a, s₁⟩, hfirst, hthen⟩ := Option.bind_eq_some_iff.mp hrun
  obtain ⟨t₁, hfirst', hst₁⟩ := hr s t a s₁ hst hfirst
  obtain ⟨t', hthen', hst'⟩ := hk a s₁ t₁ b s' hst₁ hthen
  refine ⟨t', ?_, hst'⟩
  change (r t).bind (fun p => k p.1 p.2) = some (b, t')
  rw [hfirst']
  exact hthen'

theorem exactly (n : Nat) : Steady (ByteStream.exactly n) := by
  intro s t a s' hst hr
  rw [exactly_eq] at hr
  split at hr
  case isTrue hn =>
    obtain ⟨rfl, rfl⟩ : s.rest.take n = a ∧ (⟨s.rest.drop n, s.eof⟩ : ByteStream) = s' := by
      simpa using hr
    obtain ⟨more, hmore⟩ := hst.rest
    have ht : n ≤ t.rest.length := hn.trans hst.rest.length_le
    refine ⟨⟨t.rest.drop n, t.eof⟩, ?_, ⟨⟨more, ?_⟩, hst.eof⟩⟩
    · rw [exactly_eq, if_pos ht, ← hmore, List.take_append_of_le_length hn]
    · rw [← hmore, List.drop_append_of_le_length hn]
  case isFalse => cases hr

end Steady

end ByteStream

end HtcLeo

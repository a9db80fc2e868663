import HtcLeo.Lib.Memory

namespace HtcLeo

/-!
# Strings of 16-bit characters

Strings as a memory or a file holds them: two bytes a character, the lower one first, and a
character 0 behind the last.

* `Char16.encode`, `Char16.decode` — characters and their bytes.
* `WideString` — characters in memory, among them a terminator; `name` is what stands before it.
* `stringAt` — the string at the start of some characters, if it ends among them.
-/

/-- `CHAR16`. -/
abbrev Char16 := BitVec 16

namespace Char16

/-- The bytes of characters. -/
def encode (chars : List Char16) : List Byte :=
  chars.flatMap fun c => [c.extractLsb' 0 8, c.extractLsb' 8 8]

/-- The characters that bytes are. -/
def decode : List Byte → List Char16
  | low :: high :: bytes => (high ++ low) :: decode bytes
  | _ => []

theorem encode_length (chars : List Char16) : (encode chars).length = 2 * chars.length := by
  induction chars with
  | nil => rfl
  | cons c chars ih =>
    show (_ :: _ :: encode chars).length = _
    rw [List.length_cons, List.length_cons, List.length_cons, ih]
    omega

theorem encode_append (chars more : List Char16) :
    encode (chars ++ more) = encode chars ++ encode more :=
  List.flatMap_append

/-- What has been encoded is decoded, whatever follows. -/
theorem decode_encode_append (chars : List Char16) (bytes : List Byte) :
    decode (encode chars ++ bytes) = chars ++ decode bytes := by
  induction chars with
  | nil => rfl
  | cons c chars ih =>
    have hchar : c.extractLsb' 8 8 ++ c.extractLsb' 0 8 = c := BitVec.extractLsb'_append_extractLsb'
    show (_ ++ _) :: decode (encode chars ++ bytes) = c :: (chars ++ decode bytes)
    rw [ih, hchar]

end Char16

/-- What stands before the first terminator. -/
theorem takeWhile_terminated {name : List Char16} (h : 0 ∉ name) (rest : List Char16) :
    (name ++ 0 :: rest).takeWhile (· ≠ 0) = name := by
  have hall : ∀ c ∈ name, decide (c ≠ 0) = true :=
    fun c hc => decide_eq_true (ne_of_mem_of_not_mem hc h)
  rw [List.takeWhile_append_of_pos hall, List.takeWhile_cons_of_neg (by simp), List.append_nil]

/-- Characters in memory, with a terminator among them. -/
structure WideString where
  memory : List Char16
  terminated : 0 ∈ memory

namespace WideString

/-- The characters up to the terminator. -/
def name (s : WideString) : List Char16 := s.memory.takeWhile (· ≠ 0)

/-- `StrSize`. -/
def strSize (s : WideString) : Nat := 2 * (s.name.length + 1)

/-- The terminator stands behind the name, and not in it. -/
theorem memory_eq (s : WideString) : 0 ∉ s.name ∧ ∃ rest, s.memory = s.name ++ 0 :: rest := by
  obtain ⟨before, rest, hsplit, hnot⟩ := List.eq_append_cons_of_mem s.terminated
  have hname : s.name = before := by
    unfold name
    rw [hsplit]
    exact takeWhile_terminated hnot rest
  rw [hname]
  exact ⟨hnot, rest, hsplit⟩

end WideString

/-- The string at the start of some characters, if it ends among them. -/
def stringAt (chars : List Char16) : Option (List Char16) :=
  if 0 ∈ chars then some (chars.takeWhile (· ≠ 0)) else none

/-- What stands behind the terminator does not matter. -/
theorem stringAt_append {name : List Char16} (h : 0 ∉ name) (rest : List Char16) :
    stringAt (name ++ 0 :: rest) = some name := by
  unfold stringAt
  rw [if_pos (by simp), takeWhile_terminated h]

end HtcLeo

import HtcLeo.Uefi
import HtcLeo.Lib.ByteStream
import HtcLeo.Lib.Layout

namespace HtcLeo.Nbh

open ByteStream

/-!
# The NBH format

What the generator and the extractor of `ImageResources/Leo/yang_src` share: `nbh.h` and `nbh.c`.
A NBH file holds a DBH, cut into blocks with a signature behind each; a DBH is a header that names
its sections, with the sections behind it.

* `HTCIMAGEHEADER` — the header, with its `layout` in the file.
* `bufferedReadWrite` — the copying loop; `bufferedReadWrite_eq` says that by its chunks it copies
  what one read would give.
-/

/-! ### The header -/

/-- `struct HTCIMAGEHEADER`. -/
structure HTCIMAGEHEADER where
  device : Vector Byte 32
  sectiontypes : Vector U32 32
  sectionoffsets : Vector U32 32
  sectionlengths : Vector U32 32
  CID : Vector Byte 32
  version : Vector Byte 16
  language : Vector Byte 16
  deriving DecidableEq

/-- How `struct HTCIMAGEHEADER` lies in a file. -/
def HTCIMAGEHEADER.layout : Layout HTCIMAGEHEADER :=
  let bytes (n : Nat) := Layout.byte.array n
  let words := Layout.word32.array 32
  Layout.iso
    ((bytes 32).pair (words.pair (words.pair (words.pair ((bytes 32).pair
      ((bytes 16).pair (bytes 16)))))))
    (fun p => ⟨p.1, p.2.1, p.2.2.1, p.2.2.2.1, p.2.2.2.2.1, p.2.2.2.2.2.1, p.2.2.2.2.2.2⟩)
    (fun h => (h.device, h.sectiontypes, h.sectionoffsets, h.sectionlengths, h.CID, h.version,
      h.language))
    fun _ => rfl

@[simp] theorem HTCIMAGEHEADER.size_layout : layout.size = 480 := rfl

/-- `magicHeader`: the letters of `HTCIMAGE`, each in a word of its own. -/
def magicHeader : List Byte :=
  ([0x48, 0x54, 0x43, 0x49, 0x4D, 0x41, 0x47, 0x45] : List U32).flatMap Layout.word32.store

/-- `magicHeader2`: `R000FF` and a newline. -/
def magicHeader2 : List Byte := [0x52, 0x30, 0x30, 0x30, 0x46, 0x46, 0x0A]

/-- `initialsignature`: `XDA-Developers! `. -/
def initialsignature : List Byte :=
  [0x58, 0x44, 0x41, 0x2D, 0x44, 0x65, 0x76, 0x65, 0x6C, 0x6F, 0x70, 0x65, 0x72, 0x73, 0x21, 0x20]

@[simp] theorem length_magicHeader : magicHeader.length = 32 := rfl
@[simp] theorem length_magicHeader2 : magicHeader2.length = 7 := rfl
@[simp] theorem length_initialsignature : initialsignature.length = 16 := rfl

/-! ### Copying -/

/-- `bufferedReadWrite`: whether all was copied, and the two files. -/
def bufferedReadWrite (input : ByteStream) (output : List Byte) (length : Nat) :
    Bool × ByteStream × List Byte :=
  if 0 < length then
    let read := input.fread (min length 2048)
    if _hread : read.1.length = 0 then (false, read.2, output)
    else bufferedReadWrite read.2 (output ++ read.1) (length - read.1.length)
  else (true, input, output)
termination_by length
decreasing_by exact Nat.sub_lt ‹0 < length› (Nat.pos_of_ne_zero _hread)

/-- Chunk by chunk, `bufferedReadWrite` copies what one read of that length gives. -/
theorem bufferedReadWrite_eq (input : ByteStream) (output : List Byte) (length : Nat) :
    bufferedReadWrite input output length
      = (decide (length ≤ input.rest.length), (input.fread length).2,
          output ++ (input.fread length).1) := by
  fun_induction bufferedReadWrite input output length with
  | case1 input output length hpos read hread =>
    -- nothing is left to read
    have hlen : (input.rest.take (min length 2048)).length = 0 := hread
    rw [List.length_take] at hlen
    obtain hnil : input.rest = [] := List.eq_nil_of_length_eq_zero (by omega)
    simp [read, fread, hnil, hpos]
    omega
  | case2 input output length hpos read hread ih =>
    rw [ih]
    by_cases hfull : min length 2048 ≤ input.rest.length
    · -- a whole chunk: the two reads make one
      have hlen : read.1.length = min length 2048 := by
        change (input.rest.take (min length 2048)).length = _
        rw [List.length_take]
        omega
      have hsum : length = min length 2048 + (length - min length 2048) := by omega
      have hsplit := fread_add input (min length 2048) (length - min length 2048)
      rw [← hsum] at hsplit
      have hrest : read.2.rest.length = input.rest.length - min length 2048 := List.length_drop
      rw [hsplit, hlen, hrest]
      simp only [List.append_assoc, read]
      congr 1
      simp only [decide_eq_decide]
      omega
    · -- the end of the file: the next chunk is empty
      have hlast : read = (input.rest, ⟨[], true⟩) := fread_short input (by omega)
      have hall : input.fread length = (input.rest, ⟨[], true⟩) := fread_short input (by omega)
      rw [hall, hlast]
      have hmore : length - input.rest.length ≠ 0 := by omega
      have hlong : ¬ length ≤ input.rest.length := by omega
      simp [fread, hmore, hlong]
  | case3 input output length hpos =>
    obtain rfl : length = 0 := by omega
    simp [fread]

/-- Copying leaves no more than there was. -/
theorem bufferedReadWrite_length (input : ByteStream) (output : List Byte) (length : Nat) :
    (bufferedReadWrite input output length).2.1.rest.length ≤ input.rest.length := by
  rw [bufferedReadWrite_eq]
  exact fread_length input length

end HtcLeo.Nbh

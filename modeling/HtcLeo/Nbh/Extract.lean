import HtcLeo.Nbh.Format

namespace HtcLeo.Nbh

open ByteStream

/-!
# Extracting a NBH file

`nbhextract.c`: `extractNBH` makes the DBH of a NBH file again, and cuts its sections out.

* `nbh2dbh` — the loop over the blocks, with the end that an overlong signature makes of it.
* `convertNB2BMP`, `extractNB`, `dbhExtract` — a splash screen, a section, all the sections.
* `extractNBH` — the whole, for any file.
-/

/-! ### From the NBH to the DBH -/

/-- What stands before a block. -/
structure Head where
  blockLen : U32
  signLen : U32
  flag : Byte
  deriving DecidableEq, Repr

/-- The three `fread` of the loop's condition, joined by `&&`. -/
def readHead : Reader Head := do
  let blockLen ← exactly 4
  let signLen ← exactly 4
  let flag ← exactly 1
  pure ⟨Layout.word32.load blockLen, Layout.word32.load signLen, Layout.byte.load flag⟩

theorem readHead_eq (s : ByteStream) :
    readHead s = (exactly 4 s).bind fun p => (exactly 4 p.2).bind fun q =>
      (exactly 1 q.2).bind fun r =>
        some (⟨Layout.word32.load p.1, Layout.word32.load q.1, Layout.byte.load r.1⟩, r.2) := rfl

/-- A head is nine bytes. -/
theorem readHead_length {s s' : ByteStream} {head : Head} (h : readHead s = some (head, s')) :
    s'.rest.length + 9 = s.rest.length := by
  rw [readHead_eq] at h
  obtain ⟨p, hp, h⟩ := Option.bind_eq_some_iff.mp h
  obtain ⟨q, hq, h⟩ := Option.bind_eq_some_iff.mp h
  obtain ⟨r, hr, h⟩ := Option.bind_eq_some_iff.mp h
  have hs : r.2 = s' := by simpa using congrArg (fun o => o.map Prod.snd) h
  have hp' := exactly_length hp
  have hq' := exactly_length hq
  have hr' := exactly_length hr
  rw [← hs]
  omega

/-- Where nine bytes are left, there is a head. -/
theorem readHead_full {s : ByteStream} (h : 9 ≤ s.rest.length) :
    ∃ head, readHead s = some (head, ⟨s.rest.drop 9, s.eof⟩) := by
  have h₁ : 4 ≤ s.rest.length := by omega
  have h₂ : 4 ≤ (s.rest.drop 4).length := by
    rw [List.length_drop]
    omega
  have h₃ : 1 ≤ (s.rest.drop 8).length := by
    rw [List.length_drop]
    omega
  rw [readHead_eq]
  simp only [exactly_eq, if_pos h₁, if_pos h₂, Option.bind_some, List.drop_drop, if_pos h₃]
  exact ⟨_, rfl⟩

/-- The size of `blockSign`. -/
def blockSignSize : Nat := 5000

/-- `blockLen`, as the loop adjusts it: `Android NBH detected, adjusting first block length.` -/
def adjustedLen (initsign : Nat) (blockIndex blockLen : U32) : U32 :=
  if initsign ≠ 16 ∧ blockIndex = 0 then 999999999 else blockLen

/-- The loop over the blocks, from block `blockIndex` on: what is in the output file when it ends.
    `none` stands for a signature that runs over the end of `blockSign`. -/
def nbh2dbh (initsign : Nat) (blockIndex : U32) (input : ByteStream) (output : List Byte) :
    Option (List Byte) :=
  if input.eof then some output
  else
    match _hhead : readHead input with
    | none => some output
    | some (head, input') =>
        let blockLen := adjustedLen initsign blockIndex head.blockLen
        let copy := bufferedReadWrite input' output blockLen.toNat
        if copy.1 = false then some copy.2.2
        else
          let sign := copy.2.1.fread head.signLen.toNat
          if blockSignSize < sign.1.length then none
          else if sign.1.length ≠ head.signLen.toNat then some copy.2.2
          else if head.flag = 2 then some copy.2.2
          else nbh2dbh initsign (blockIndex + 1) sign.2 copy.2.2
termination_by input.rest.length
decreasing_by
  have hhead := readHead_length _hhead
  have hcopy := bufferedReadWrite_length input' output
    (adjustedLen initsign blockIndex head.blockLen).toNat
  have hsign := fread_length copy.2.1 head.signLen.toNat
  refine Nat.lt_of_le_of_lt (hsign.trans hcopy) ?_
  omega

/-- One block: what is there of its bytes goes to the output, and the loop goes on when they, and
    the signature behind them, are there in full. -/
theorem nbh2dbh_some {input input' : ByteStream} {head : Head} (heof : input.eof = false)
    (hhead : readHead input = some (head, input')) (initsign : Nat) (blockIndex : U32)
    (output : List Byte) :
    nbh2dbh initsign blockIndex input output =
      let len := (adjustedLen initsign blockIndex head.blockLen).toNat
      let copied := output ++ (input'.fread len).1
      let sign := (input'.fread len).2.fread head.signLen.toNat
      if input'.rest.length < len then some copied
      else if blockSignSize < sign.1.length then none
      else if sign.1.length ≠ head.signLen.toNat then some copied
      else if head.flag = 2 then some copied
      else nbh2dbh initsign (blockIndex + 1) sign.2 copied := by
  have hcontinue : ¬ input.eof = true := by simp [heof]
  rw [nbh2dbh, if_neg hcontinue]
  split
  case h_1 heq =>
    rw [hhead] at heq
    cases heq
  case h_2 head₁ input₁ heq =>
    rw [hhead] at heq
    obtain ⟨rfl, rfl⟩ := Prod.mk.inj (Option.some.inj heq)
    simp only [bufferedReadWrite_eq, decide_eq_false_iff_not, Nat.not_le]

/-! ### Splash screens -/

/-- `bmphead1`. -/
def bmphead1 : List Byte :=
  [0x42, 0x4D, 0x36, 0x84, 0x03, 0x00, 0x00, 0x00, 0x00, 0x00, 0x36, 0x00, 0x00, 0x00,
    0x28, 0x00, 0x00, 0x00]

/-- `bmphead2`. -/
def bmphead2 : List Byte := [0x01, 0x00, 0x18, 0x00, 0x00, 0x00, 0x00, 0x00]

/-- `bmphead3`. -/
def bmphead3 : List Byte := List.replicate 16 0

/-- `((unsigned short *)data)[i]`. -/
def encodedAt (data : List Byte) (i : Nat) : BitVec 16 :=
  data.getD (2 * i + 1) 0 ++ data.getD (2 * i) 0

/-- `colors`, for one pixel. -/
def colors (encoded : BitVec 16) : List Byte :=
  [((encoded <<< 3).setWidth 8) &&& 0xF8, ((encoded >>> 3).setWidth 8) &&& 0xFC,
    ((encoded >>> 8).setWidth 8) &&& 0xF8]

/-- The pixels of the `.bmp` file, by the two loops of `convertNB2BMP`. -/
def bmpPixels (biWidth biHeight : Nat) (data : List Byte) : List Byte :=
  (List.range biHeight).flatMap fun y => (List.range biWidth).flatMap fun x =>
    colors (encodedAt data ((biHeight - (y + 1)) * biWidth + x))

/-- The `.bmp` file. -/
def bmpFile (biWidth biHeight : Nat) (data : List Byte) : List Byte :=
  bmphead1 ++ Layout.word32.store (BitVec.ofNat 32 biWidth)
    ++ Layout.word32.store (BitVec.ofNat 32 biHeight) ++ bmphead2
    ++ Layout.word32.store (BitVec.ofNat 32 (biWidth * biHeight * 3)) ++ bmphead3
    ++ bmpPixels biWidth biHeight data

/-- `convertNB2BMP`, for a picture that begins `start` bytes into the DBH: the `.bmp` file, when
    one is written. -/
def convertNB2BMP (dbh : List Byte) (biWidth biHeight dataLen start : Nat) :
    Option (List Byte) :=
  let data := ((ofBytes (dbh.drop start)).fread dataLen).1
  if data.length ≠ dataLen then none else some (bmpFile biWidth biHeight data)

/-- `isSectionImage`. -/
def isSectionImage (type : U32) : Bool := type = 0x600 ∨ type = 0x601

/-- The `switch` over the length of a splash screen: its width and its height. -/
def imageSize (len : U32) : Option (Nat × Nat) :=
  if len = 262144 ∨ len = 153600 then some (240, 320)
  else if len = 655360 ∨ len = 614912 then some (480, 640)
  else none

/-! ### Sections -/

/-- What `extractNB` leaves of a section: the two arguments that name its files, its answer, the
    `.nb` file, and the `.bmp` file where there is one. -/
structure NbFile where
  index : Nat
  type : U32
  retval : Bool
  data : List Byte
  bmp : Option (List Byte)

/-- `extractNB`. -/
def extractNB (dbh : List Byte) (index : Nat) (type start len : U32) : NbFile :=
  let copy := bufferedReadWrite (ofBytes (dbh.drop start.toNat)) [] len.toNat
  if isSectionImage type then
    match imageSize len with
    | none => ⟨index, type, false, copy.2.2, none⟩
    | some (biWidth, biHeight) =>
        ⟨index, type, copy.1, copy.2.2,
          convertNB2BMP dbh biWidth biHeight (biWidth * biHeight * 2) start.toNat⟩
  else ⟨index, type, copy.1, copy.2.2, none⟩

/-- The body of the loop over the sections of a header. -/
def extractSection (dbh : List Byte) (header : HTCIMAGEHEADER) (i : Nat) : Option NbFile :=
  let type := header.sectiontypes.getD i 0
  if i + 50 < 95 ∧ type ≠ 0 ∧ i ≠ 31 then
    some (extractNB dbh i type (header.sectionoffsets.getD i 0) (header.sectionlengths.getD i 0))
  else none

/-- The loop over the sections of a header. -/
def extractSections (dbh : List Byte) (header : HTCIMAGEHEADER) : List NbFile :=
  (List.range 32).filterMap (extractSection dbh header)

/-- The errors that end `extractNBH`. -/
inductive ExtractError
  /-- `is not a valid NBH file1`. -/
  | notNbh
  /-- `Could not read initial signature`. -/
  | noSignature
  /-- A signature runs over the end of `blockSign`. -/
  | overrun
  /-- `tempfile.dbh is not a valid .dbh file`. -/
  | notDbh
  /-- `Could not read header`. -/
  | noHeader
  deriving DecidableEq, Repr

/-- `DBHExtract`, the second half of `extractNBH`. -/
def dbhExtract (dbh : List Byte) : Except ExtractError (HTCIMAGEHEADER × List NbFile) :=
  match exactly magicHeader.length (ofBytes dbh) with
  | none => .error .notDbh
  | some (magic, tmpfile) =>
      if magic ≠ magicHeader then .error .notDbh
      else
        match exactly HTCIMAGEHEADER.layout.size tmpfile with
        | none => .error .noHeader
        | some (bytes, _) =>
            let header := HTCIMAGEHEADER.layout.load bytes
            .ok (header, extractSections dbh header)

/-- `extractNBH`. -/
def extractNBH (nbh : List Byte) : Except ExtractError (HTCIMAGEHEADER × List NbFile) :=
  match exactly magicHeader2.length (ofBytes nbh) with
  | none => .error .notNbh
  | some (magic, input) =>
      let initsign := if magic = magicHeader2 then 16 else 240
      match exactly initsign input with
      | none => .error .noSignature
      | some (_, input') =>
          match nbh2dbh initsign 0 input' [] with
          | none     => .error .overrun
          | some dbh => dbhExtract dbh

end HtcLeo.Nbh

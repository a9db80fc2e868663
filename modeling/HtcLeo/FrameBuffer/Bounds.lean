import HtcLeo.FrameBuffer.Console
import Mathlib.Tactic.Ring

namespace HtcLeo.FrameBuffer

open Pen

/-!
# Glyphs inside the frame buffer

Every loop of `FbConDrawglyph` moves its pointer on by whole pixels and lines, and stores no
further than that.

* `putPixel_strokes` … `glyphHalf_strokes` — how far each loop moves the pointer.
* `fbConDrawglyph_inside` — with room for its lines, a glyph is stored inside a region.
* `drawChar_inside` — there is room wherever a cell of the console is.
-/

variable {r : Region 32}

/-! ### The loops -/

/-- A pixel. -/
theorem putPixel_strokes (bytes colour : U32) :
    Strokes r id (putPixel bytes colour) bytes.toNat := by
  intro off p hroom hp
  -- byte by byte; the colour is part of the state
  have hbyte : Strokes r Prod.snd putByte 1 := fun off a hroom ha => ha.put (by omega) _
  have hbytes := hbyte.iterate bytes.toNat off (colour, p)
  rw [Nat.mul_one] at hbytes
  exact hbytes hroom hp

section Glyph

variable {width : Nat} {stride bytes scaleFactor : U32}

/-- The stride is what is left of a line of `width` pixels. -/
def IsStride (width : Nat) (stride scaleFactor : U32) : Prop :=
  fontWidth.toNat * scaleFactor.toNat ≤ width ∧
    stride = BitVec.ofNat 32 (width - fontWidth.toNat * scaleFactor.toNat)

/-- The bytes of a line, those of a row of the glyph and those behind it. -/
theorem row_bytes (h : IsStride width stride scaleFactor) (bytes : Nat) :
    fontWidth.toNat * (scaleFactor.toNat * bytes)
      + (width - fontWidth.toNat * scaleFactor.toNat) * bytes = width * bytes := by
  rw [← Nat.mul_assoc, ← Nat.add_mul, Nat.add_sub_cancel' h.1]

/-- What is behind a row of the glyph is passed over. -/
theorem skip_strokes (h : IsStride width stride scaleFactor) :
    Strokes r id (Pen.skip (stride * bytes))
      ((width - fontWidth.toNat * scaleFactor.toNat) * bytes.toNat) := by
  have hskip : stride * bytes
      = BitVec.ofNat 32 ((width - fontWidth.toNat * scaleFactor.toNat) * bytes.toNat) := by
    rw [h.2, BitVec.ofNat_mul, BitVec.ofNat_toNat, BitVec.setWidth_eq]
  rw [hskip]
  exact Strokes.skip _

theorem backgroundRow_strokes (h : IsStride width stride scaleFactor) (background : U32) :
    Strokes r id (backgroundRow stride bytes scaleFactor background) (width * bytes.toNat) := by
  have hpixels := ((putPixel_strokes (r := r) bytes background).iterate scaleFactor.toNat).iterate
    fontWidth.toNat
  have hskip : Strokes r id (Pen.skip (stride * bytes)) _ := skip_strokes h
  have hrow := hpixels.comp hskip
  rwa [row_bytes h] at hrow

theorem backgroundHalf_strokes (h : IsStride width stride scaleFactor) (background : U32) :
    Strokes r id (backgroundHalf stride bytes scaleFactor background)
      (6 * (scaleFactor.toNat * (width * bytes.toNat))) :=
  ((backgroundRow_strokes h background).iterate scaleFactor.toNat).iterate 6

theorem glyphBit_strokes (foreground : U32) :
    Strokes r Prod.snd (glyphBit bytes scaleFactor foreground)
      (scaleFactor.toNat * bytes.toNat) := by
  intro off a hroom ha
  unfold glyphBit
  dsimp only
  split
  · exact (putPixel_strokes bytes foreground).iterate scaleFactor.toNat off a.2 hroom ha
  · have hskip : Strokes r id (Pen.skip bytes) bytes.toNat := by
      have := Strokes.skip (r := r) bytes.toNat
      rwa [BitVec.ofNat_toNat, BitVec.setWidth_eq] at this
    exact hskip.iterate scaleFactor.toNat off a.2 hroom ha

theorem glyphRow_strokes (h : IsStride width stride scaleFactor) (foreground : U32) :
    Strokes r Prod.snd (glyphRow stride bytes scaleFactor foreground) (width * bytes.toNat) := by
  intro off a hroom ha
  have hrow := row_bytes h bytes.toNat
  have hbit : Strokes r Prod.snd (glyphBit bytes scaleFactor foreground) _ :=
    glyphBit_strokes foreground
  have hskip : Strokes r id (Pen.skip (stride * bytes)) _ := skip_strokes h
  have hbits := hbit.iterate fontWidth.toNat off a (by omega) ha
  have hnext := hskip _ _ (by omega) hbits
  rw [Nat.add_assoc, hrow] at hnext
  exact hnext

theorem glyphLine_strokes (h : IsStride width stride scaleFactor) (foreground : U32) :
    Strokes r Prod.snd (glyphLine stride bytes scaleFactor foreground)
      (scaleFactor.toNat * (width * bytes.toNat)) := by
  intro off a hroom ha
  have hrow : Strokes r Prod.snd
      (fun b : U32 × Pen 32 => glyphRow stride bytes scaleFactor foreground (a.1, b.2))
      (width * bytes.toNat) :=
    fun off b hroom hb => glyphRow_strokes h foreground off (a.1, b.2) hroom hb
  exact hrow.iterate scaleFactor.toNat off a hroom ha

theorem glyphHalf_strokes (h : IsStride width stride scaleFactor) (foreground data : U32) :
    Strokes r id (glyphHalf stride bytes scaleFactor foreground data)
      (6 * (scaleFactor.toNat * (width * bytes.toNat))) :=
  fun off p hroom hp => (glyphLine_strokes h foreground).iterate 6 off (data, p) hroom hp

/-- With room for its lines, a glyph is stored inside the region. -/
theorem fbConDrawglyph_inside {off : Nat} {widthU : U32}
    (hwidth : fontWidth.toNat * scaleFactor.toNat ≤ widthU.toNat)
    (hroom : off + 12 * (scaleFactor.toNat * (widthU.toNat * bytes.toNat)) ≤ r.bytes)
    (foreground background glyph0 glyph1 : U32) :
    ∀ s ∈ fbConDrawglyph foreground background (r.start + BitVec.ofNat 32 off) widthU bytes glyph0
      glyph1 scaleFactor, r.Has s.1 := by
  have hstride : IsStride widthU.toNat (widthU - fontWidth * scaleFactor) scaleFactor := by
    refine ⟨hwidth, BitVec.eq_of_toNat_eq ?_⟩
    have hlt := widthU.isLt
    have hmul : (fontWidth * scaleFactor).toNat = fontWidth.toNat * scaleFactor.toNat := by
      rw [BitVec.toNat_mul, Nat.mod_eq_of_lt (by omega)]
    rw [BitVec.toNat_sub, hmul, BitVec.toNat_ofNat]
    omega
  have hnew : ∀ stores : List (U32 × Byte), (∀ s ∈ stores, r.Has s.1) →
      (⟨r.start + BitVec.ofNat 32 off, stores⟩ : Pen 32).At r off := fun _ h => ⟨rfl, h⟩
  -- the background first, and then the glyph over it, from the same place
  have hback : Strokes r id (backgroundHalf _ bytes scaleFactor background) _ :=
    backgroundHalf_strokes hstride background
  have hhalf : ∀ data, Strokes r id (glyphHalf _ bytes scaleFactor foreground data) _ :=
    glyphHalf_strokes hstride foreground
  have hb := hback.comp hback off _ (by omega) (hnew [] (by simp))
  have hp := (hhalf glyph0).comp (hhalf glyph1) off _ (by omega) (hnew _ hb.inside)
  exact hp.inside

end Glyph

/-! ### The cells of the console -/

section Cells

variable {screen : Screen} {scaleFactor : U32}

/-- The cells of the console: how many of them a line has, and the lines. -/
def page (screen : Screen) (scaleFactor : U32) : Page where
  columns := (screen.width / (fontWidth + 1)).toNat / scaleFactor.toNat
  lineHeight := scaleFactor.toNat
  lastLine := ((screen.height - 1) / fontHeight).toNat - scaleFactor.toNat

/-- The limits that `FbConReset` computes leave a column, and more than two rows. -/
structure Limits (screen : Screen) (scaleFactor : U32) : Prop where
  column : scaleFactor.toNat ≤ (screen.width / (fontWidth + 1)).toNat
  rows : 2 * scaleFactor.toNat < ((screen.height - 1) / fontHeight).toNat

/-- And so many fit the screen; where it has no lines, `FbConReset` computes more rows than for
    any other. -/
structure Fits (screen : Screen) (scaleFactor : U32) : Prop extends Limits screen scaleFactor where
  height_pos : 0 < screen.height.toNat

/-- The cursor is on the page, before its last line. -/
def Inside (p : Page) (cur : Cursor) : Prop :=
  (cur.x < p.columns ∨ cur.x = 0) ∧ cur.y < p.lastLine

/-- The columns to the left of one on the page are on the screen. -/
theorem column_le (cur : Cursor) (h : Inside (page screen scaleFactor) cur) :
    6 * (cur.x * scaleFactor.toNat) ≤ screen.width.toNat := by
  have hmax : (screen.width / (fontWidth + 1)).toNat = screen.width.toNat / 6 := rfl
  have hle : cur.x * scaleFactor.toNat ≤ screen.width.toNat / 6 := by
    rcases h.1 with hlt | hzero
    · have hdiv := Nat.div_mul_le_self (screen.width.toNat / 6) scaleFactor.toNat
      exact (Nat.mul_le_mul_right _ (Nat.le_of_lt hlt)).trans hdiv
    · rw [hzero, Nat.zero_mul]
      exact Nat.zero_le _
  omega

/-- And so are the rows of a line before the last one. -/
theorem row_lt (hpos : 0 < screen.height.toNat) (cur : Cursor)
    (h : Inside (page screen scaleFactor) cur) :
    12 * (cur.y + scaleFactor.toNat) + 1 ≤ screen.height.toNat := by
  have hheight := screen.height.isLt
  have hsub : (screen.height - 1).toNat = screen.height.toNat - 1 := by
    rw [BitVec.toNat_sub, show (1 : U32).toNat = 1 from rfl]
    omega
  have hmax : ((screen.height - 1) / fontHeight).toNat = (screen.height.toNat - 1) / 12 := by
    rw [BitVec.toNat_udiv, hsub]
    rfl
  have hlt : cur.y < ((screen.height - 1) / fontHeight).toNat - scaleFactor.toNat := h.2
  omega

/-- A character at a cell of the page is stored inside the frame buffer. -/
theorem drawChar_inside (hfits : Fits screen scaleFactor) {s : Console}
    (h : Inside (page screen scaleFactor) ⟨s.x.toNat, s.y.toNat⟩) (c : Byte)
    (hstores : ∀ e ∈ s.stores, screen.region.Has e.1) :
    ∀ e ∈ (drawChar screen scaleFactor c s).stores, screen.region.Has e.1 := by
  let w := screen.width.toNat
  let b := screen.bytes.toNat
  let off := s.y.toNat * (b * 12 * w) + s.x.toNat * scaleFactor.toNat * (b * 6)
  have hpixels : screen.address + s.y * (screen.bytes * fontHeight * screen.width)
      + s.x * scaleFactor * (screen.bytes * (fontWidth + 1))
      = screen.region.start + BitVec.ofNat 32 off := by
    show _ = screen.address + BitVec.ofNat 32 (s.y.toNat * (screen.bytes.toNat * fontHeight.toNat
      * screen.width.toNat) + s.x.toNat * scaleFactor.toNat
      * (screen.bytes.toNat * (fontWidth + 1).toNat))
    simp only [BitVec.ofNat_add, BitVec.ofNat_mul, BitVec.ofNat_toNat, BitVec.setWidth_eq,
      BitVec.add_assoc]
  have hcolumn : 6 * (s.x.toNat * scaleFactor.toNat) ≤ w := column_le _ h
  have hrow : 12 * (s.y.toNat + scaleFactor.toNat) + 1 ≤ screen.height.toNat :=
    row_lt hfits.height_pos _ h
  have hroom : off + 12 * (scaleFactor.toNat * (w * b)) ≤ screen.region.bytes := by
    -- the lines above the character and its own, and the columns to the left of it
    calc off + 12 * (scaleFactor.toNat * (w * b))
        = 12 * (s.y.toNat + scaleFactor.toNat) * (w * b)
          + 6 * (s.x.toNat * scaleFactor.toNat) * b := by ring
      _ ≤ 12 * (s.y.toNat + scaleFactor.toNat) * (w * b) + w * b :=
          Nat.add_le_add_left (Nat.mul_le_mul_right b hcolumn) _
      _ = (12 * (s.y.toNat + scaleFactor.toNat) + 1) * (w * b) := (Nat.succ_mul _ _).symm
      _ ≤ screen.height.toNat * (w * b) := Nat.mul_le_mul_right _ hrow
      _ = screen.region.bytes := by
          show _ = screen.width.toNat * screen.height.toNat * screen.bytes.toNat
          ring
  have hwidth : fontWidth.toNat * scaleFactor.toNat ≤ w := by
    have hmax : (screen.width / (fontWidth + 1)).toNat = screen.width.toNat / 6 := rfl
    have hcolumn := hfits.column
    show 5 * scaleFactor.toNat ≤ screen.width.toNat
    omega
  intro e he
  rcases List.mem_append.mp he with hold | hnew
  · exact hstores e hold
  · rw [hpixels] at hnew
    exact fbConDrawglyph_inside hwidth hroom _ _ _ _ e hnew

/-- A new page is stored inside the frame buffer. -/
theorem newPage_inside {s : Console} (hstores : ∀ e ∈ s.stores, screen.region.Has e.1) :
    ∀ e ∈ (newPage screen s).stores, screen.region.Has e.1 := by
  intro e he
  rcases List.mem_append.mp he with hold | hnew
  · exact hstores e hold
  · rw [resetFb_stores] at hnew
    obtain ⟨i, hi, rfl⟩ := List.mem_map.mp hnew
    have hstart : screen.address = screen.region.start := rfl
    rw [hstart]
    exact Region.has_ofNat (List.mem_range.mp hi)

end Cells

end HtcLeo.FrameBuffer

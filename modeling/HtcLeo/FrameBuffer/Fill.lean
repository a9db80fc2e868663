import HtcLeo.Lib.Pen
import HtcLeo.Uefi

namespace HtcLeo.FrameBuffer

open Memory (byteOf)

/-!
# Filling the screen

`ResetFb` of `Library/FrameBufferSerialPortLib/FrameBufferSerialPortLib.c`, and the loop that was
copied from it, `PaintScreen` of `Library/FrameBufferConfigLib/FrameBufferConfigLib.c`.

* `putByte`, `putPixel` — a byte of a pixel is stored, and the colour shifted on to the next.
* `resetFb`, `paintScreen` — the loops over the pixels; only `ResetFb` loads the colour again.
* `resetFb_stores`, `paintScreen_stores` — what they store, byte for byte.
* `Fills` — every pixel has the bytes of a colour, and nothing else has changed.
* `paintsScreen_iff` — `PaintScreen` fills the screen exactly when the bytes of the colour repeat
  from pixel to pixel; `repeats_iff_zero` says that on a screen of some size only 0 does.
-/

/-! ### The code -/

/-- `FB_BGRA8888_BLACK`. -/
def fbBlack : U32 := 0xff000000

/-- The values of `PcdMipiFrameBufferAddress`, `PcdMipiFrameBufferWidth`,
    `PcdMipiFrameBufferHeight` and `PcdMipiFrameBufferPixelBpp`. -/
structure Screen where
  address : U32
  width : U32
  height : U32
  bpp : U32
  deriving DecidableEq, Repr

namespace Screen

/-- `gBpp / 8`. -/
def bytes (s : Screen) : U32 := s.bpp / 8

/-- The number of pixels. -/
def pixels (s : Screen) : Nat := s.width.toNat * s.height.toNat

/-- The frame buffer. -/
def region (s : Screen) : Region 32 := ⟨s.address, s.pixels * s.bytes.toNat⟩

end Screen

/-- `*Pixels = (unsigned char)BgColor; BgColor = BgColor >> 8; Pixels++;` -/
def putByte (a : U32 × Pen 32) : U32 × Pen 32 := (a.1 >>> 8, a.2.put (a.1.setWidth 8))

/-- The loop over the bytes of a pixel, after the colour has been loaded. -/
def putPixel (bytes colour : U32) (p : Pen 32) : Pen 32 := (putByte^[bytes.toNat] (colour, p)).2

/-- `ResetFb`. -/
def resetFb (s : Screen) : Pen 32 :=
  (fun p => (putPixel s.bytes fbBlack)^[s.height.toNat] p)^[s.width.toNat] ⟨s.address, []⟩

/-- The screen in the mode that `GlobalBpp` says; none is set yet if it is 0. -/
def Screen.mode (s : Screen) (globalBpp : U32) : Screen :=
  { s with bpp := if globalBpp = 0 then s.bpp else globalBpp }

/-- `PaintScreen`: `GlobalBpp` after it, and what it has stored. -/
def paintScreen (s : Screen) (globalBpp bgColor : U32) : U32 × Pen 32 :=
  let s := s.mode globalBpp
  (s.bpp, ((fun a => (fun a => putByte^[s.bytes.toNat] a)^[s.height.toNat] a)^[s.width.toNat]
    (bgColor, ⟨s.address, []⟩)).2)

/-! ### What is stored -/

/-- Byte `i` of a colour, shifted down to it. -/
theorem setWidth_ushiftRight (colour : U32) (i : Nat) :
    (colour >>> (8 * i)).setWidth 8 = byteOf colour i := by
  apply BitVec.eq_of_toNat_eq
  rw [byteOf, BitVec.toNat_setWidth, BitVec.toNat_ushiftRight, BitVec.extractLsb'_toNat]

/-- `n` bytes of a colour. -/
theorem putByte_iterate (colour : U32) (p : Pen 32) (n : Nat) :
    putByte^[n] (colour, p) = (colour >>> (8 * n),
      ⟨p.pointer + BitVec.ofNat 32 n, p.stores ++ row p.pointer (byteOf colour) n⟩) := by
  induction n with
  | zero => simp [row]
  | succ n ih =>
    rw [Function.iterate_succ_apply', ih, row_succ]
    unfold putByte Pen.put
    dsimp only
    rw [setWidth_ushiftRight, BitVec.ofNat_add, BitVec.add_assoc, List.append_assoc,
      ← BitVec.shiftRight_add]
    rfl

/-- The bytes that `PaintScreen` stores are those of the colour, one behind the other, across all
    pixels. -/
theorem paintScreen_stores (s : Screen) (globalBpp bgColor : U32) :
    (paintScreen s globalBpp bgColor).2.stores
      = row s.address (byteOf bgColor) (s.mode globalBpp).region.bytes := by
  let m := s.mode globalBpp
  have hbytes : m.bytes.toNat * (m.height.toNat * m.width.toNat) = m.region.bytes := by
    show _ = m.width.toNat * m.height.toNat * m.bytes.toNat
    rw [Nat.mul_comm, Nat.mul_comm m.height.toNat]
  show (((putByte^[m.bytes.toNat])^[m.height.toNat])^[m.width.toNat]
    (bgColor, ⟨s.address, []⟩)).2.stores = _
  rw [← Function.iterate_mul, ← Function.iterate_mul, hbytes, putByte_iterate]
  rfl

/-- Pixels of one colour. -/
theorem putPixel_iterate (bytes colour : U32) (p : Pen 32) (n : Nat) :
    (putPixel bytes colour)^[n] p
      = ⟨p.pointer + BitVec.ofNat 32 (n * bytes.toNat), p.stores ++
          row p.pointer (fun i => byteOf colour (i % bytes.toNat)) (n * bytes.toNat)⟩ := by
  induction n with
  | zero => simp [row]
  | succ n ih =>
    let start := p.pointer + BitVec.ofNat 32 (n * bytes.toNat)
    have hpixel : row start (byteOf colour) bytes.toNat
        = row start (fun i => byteOf colour ((n * bytes.toNat + i) % bytes.toNat)) bytes.toNat := by
      refine row_congr _ fun i hi => ?_
      rw [Nat.mul_add_mod', Nat.mod_eq_of_lt hi]
    rw [Function.iterate_succ_apply', ih, putPixel, putByte_iterate]
    dsimp only
    rw [hpixel, Nat.succ_mul, row_add, BitVec.ofNat_add, BitVec.add_assoc, List.append_assoc]

/-- Those that `ResetFb` stores begin again with each pixel. -/
theorem resetFb_stores (s : Screen) :
    (resetFb s).stores = row s.address (fun i => byteOf fbBlack (i % s.bytes.toNat))
      s.region.bytes := by
  show (((putPixel s.bytes fbBlack)^[s.height.toNat])^[s.width.toNat] ⟨s.address, []⟩).stores = _
  rw [← Function.iterate_mul, putPixel_iterate, Nat.mul_comm s.height.toNat]
  rfl

/-! ### What is on the screen -/

/-- Every pixel of the frame buffer has the bytes of the colour, the least significant first, and
    nothing outside it has changed. -/
structure Fills (s : Screen) (colour : U32) (before after : U32 → Byte) : Prop where
  pixels : ∀ pixel < s.pixels, ∀ i < s.bytes.toNat,
    after (s.address + BitVec.ofNat 32 (pixel * s.bytes.toNat + i)) = byteOf colour i
  outside : ∀ x, ¬ s.region.Has x → after x = before x

/-- Byte `i` of pixel `pixel` is in the frame buffer. -/
theorem pixel_lt {pixels pixel bytes i : Nat} (hpixel : pixel < pixels) (hi : i < bytes) :
    pixel * bytes + i < pixels * bytes := by
  have hle : (pixel + 1) * bytes ≤ pixels * bytes := Nat.mul_le_mul_right _ hpixel
  rw [Nat.succ_mul] at hle
  omega

/-- Bytes stored one behind the other over the whole frame buffer. -/
theorem fills_row_iff {s : Screen} (hsize : s.region.bytes ≤ 2 ^ 32) (colour : U32)
    (f : Nat → Byte) (before : U32 → Byte) :
    Fills s colour before (applied (row s.address f s.region.bytes) before) ↔
      ∀ pixel < s.pixels, ∀ i < s.bytes.toNat,
        f (pixel * s.bytes.toNat + i) = byteOf colour i := by
  have hfill : applied (row s.address f s.region.bytes) before = s.region.fill f before :=
    applied_row s.address f before hsize
  have hbyte : ∀ pixel < s.pixels, ∀ i < s.bytes.toNat,
      s.region.fill f before (s.address + BitVec.ofNat 32 (pixel * s.bytes.toNat + i))
        = f (pixel * s.bytes.toNat + i) := by
    intro pixel hpixel i hi
    have hlt : pixel * s.bytes.toNat + i < s.region.bytes := pixel_lt hpixel hi
    exact Region.fill_add f before hlt (by omega)
  rw [hfill]
  constructor
  · intro h pixel hpixel i hi
    rw [← hbyte pixel hpixel i hi]
    exact h.pixels pixel hpixel i hi
  · intro h
    refine ⟨fun pixel hpixel i hi => ?_, fun x hx => Region.fill_outside f before hx⟩
    rw [hbyte pixel hpixel i hi]
    exact h pixel hpixel i hi

/-- The bytes of the colour repeat from one pixel to the next, all over a screen of so many
    pixels; behind its fourth byte a colour has zeros. -/
def Repeats (colour : U32) (pixels bytes : Nat) : Prop :=
  ∀ i, i + bytes < pixels * bytes → byteOf colour (i + bytes) = byteOf colour i

/-- The bytes of every pixel are those of the first one exactly when they repeat. -/
theorem repeats_iff (colour : U32) (pixels bytes : Nat) :
    (∀ pixel < pixels, ∀ i < bytes, byteOf colour (pixel * bytes + i) = byteOf colour i) ↔
      Repeats colour pixels bytes := by
  constructor
  · intro h i hi
    -- byte `i` is one of some pixel, and the byte behind it the same one of the next
    have hbytes : 0 < bytes := by
      rcases Nat.eq_zero_or_pos bytes with hzero | hpos
      · rw [hzero] at hi
        omega
      · exact hpos
    have hmod := Nat.mod_lt i hbytes
    have hdiv : i / bytes * bytes + i % bytes = i := Nat.div_add_mod' i bytes
    have hnext : (i / bytes + 1) * bytes + i % bytes = i + bytes := by
      rw [Nat.succ_mul]
      omega
    have hpixel : i / bytes + 1 < pixels := by
      rw [← hnext] at hi
      exact Nat.lt_of_mul_lt_mul_right (Nat.lt_of_le_of_lt (Nat.le_add_right _ _) hi)
    have hthis := h (i / bytes) (by omega) _ hmod
    have hthat := h (i / bytes + 1) hpixel _ hmod
    rw [hdiv] at hthis
    rw [hnext] at hthat
    rw [hthat, hthis]
  · intro h pixel hpixel i hi
    induction pixel with
    | zero => rw [Nat.zero_mul, Nat.zero_add]
    | succ pixel ih =>
      have hlt := pixel_lt hpixel hi
      have hstep := h (pixel * bytes + i) (by rw [Nat.succ_mul] at hlt; omega)
      rw [Nat.succ_mul, Nat.add_right_comm, hstep]
      exact ih (by omega)

/-- The frame buffer, which is in the address space in the mode of either library. -/
structure Display where
  screen : Screen
  globalBpp : U32
  fits : screen.region.bytes ≤ 2 ^ 32
  modeFits : (screen.mode globalBpp).region.bytes ≤ 2 ^ 32

/-- Over whatever is on the screen, `PaintScreen` fills it with its colour, as `ResetFb` does with
    its own; for that colour the two do the same, in the same mode. -/
structure PaintsScreen (d : Display) (colour : U32) : Prop where
  paints : ∀ m, Fills (d.screen.mode d.globalBpp) colour m
    (applied (paintScreen d.screen d.globalBpp colour).2.stores m)
  resets : ∀ m, Fills d.screen fbBlack m (applied (resetFb d.screen).stores m)
  agrees : colour = fbBlack → d.screen.mode d.globalBpp = d.screen → ∀ m,
    applied (paintScreen d.screen d.globalBpp colour).2.stores m
      = applied (resetFb d.screen).stores m

/-- `ResetFb` fills the screen. -/
theorem resetFb_fills (d : Display) (m : U32 → Byte) :
    Fills d.screen fbBlack m (applied (resetFb d.screen).stores m) := by
  rw [resetFb_stores, fills_row_iff d.fits]
  intro pixel _ i hi
  rw [Nat.mul_add_mod', Nat.mod_eq_of_lt hi]

/-- `PaintScreen` fills the screen, whatever was on it, exactly when the bytes of its colour
    repeat. -/
theorem paintScreen_fills_iff (d : Display) (colour : U32) (m : U32 → Byte) :
    Fills (d.screen.mode d.globalBpp) colour m
        (applied (paintScreen d.screen d.globalBpp colour).2.stores m) ↔
      Repeats colour (d.screen.mode d.globalBpp).pixels
        (d.screen.mode d.globalBpp).bytes.toNat := by
  rw [paintScreen_stores, ← repeats_iff]
  exact fills_row_iff d.modeFits colour (byteOf colour) m

/-- With bytes that repeat, the two libraries store the same. -/
theorem stores_agree (d : Display) (hmode : d.screen.mode d.globalBpp = d.screen)
    (h : Repeats fbBlack d.screen.pixels d.screen.bytes.toNat) :
    (paintScreen d.screen d.globalBpp fbBlack).2.stores = (resetFb d.screen).stores := by
  rw [paintScreen_stores, resetFb_stores, hmode]
  refine row_congr _ fun i hi => ?_
  -- byte `i` is one of some pixel
  have hbytes : 0 < d.screen.bytes.toNat := Nat.pos_of_mul_pos_left (Nat.zero_lt_of_lt hi)
  have hpixel : i / d.screen.bytes.toNat < d.screen.pixels := by
    rw [Nat.div_lt_iff_lt_mul hbytes]
    exact hi
  have hbyte := (repeats_iff _ _ _).mpr h _ hpixel _ (Nat.mod_lt i hbytes)
  rwa [Nat.div_add_mod'] at hbyte

/-- **Filling the screen.**  `ResetFb` fills it; `PaintScreen`, which does not load its colour
    again, does so exactly when the bytes of the colour repeat from pixel to pixel. -/
theorem paintsScreen_iff (d : Display) (colour : U32) :
    PaintsScreen d colour ↔
      Repeats colour (d.screen.mode d.globalBpp).pixels
        (d.screen.mode d.globalBpp).bytes.toNat := by
  constructor
  · intro h
    exact (paintScreen_fills_iff d colour fun _ => 0).mp (h.paints fun _ => 0)
  · intro h
    refine ⟨fun m => (paintScreen_fills_iff d colour m).mpr h, resetFb_fills d, ?_⟩
    rintro rfl hmode m
    rw [hmode] at h
    rw [stores_agree d hmode h]

/-- A colour has four bytes. -/
theorem byteOf_of_ge (colour : U32) {i : Nat} (hi : 4 ≤ i) : byteOf colour i = 0 := by
  have hlt := colour.isLt
  have hpow : 2 ^ 32 ≤ 2 ^ (8 * i) := Nat.pow_le_pow_right (by decide) (by omega)
  apply BitVec.eq_of_toNat_eq
  rw [byteOf, BitVec.extractLsb'_toNat, Nat.shiftRight_eq_div_pow, Nat.div_eq_of_lt (by omega)]
  rfl

/-- With four bytes or more behind the first pixel, only the colour 0 repeats. -/
theorem repeats_iff_zero {pixels bytes : Nat} (hbytes : 0 < bytes)
    (hsize : 4 + bytes ≤ pixels * bytes) (colour : U32) :
    Repeats colour pixels bytes ↔ colour = 0 := by
  constructor
  · intro h
    -- by induction on how far it is to the bytes that are 0 anyway
    have hzero : ∀ d i, 4 ≤ i + d → byteOf colour i = 0 := by
      intro d
      induction d with
      | zero => exact fun i hi => byteOf_of_ge colour hi
      | succ d ih =>
        intro i hi
        by_cases hlt : i < 4
        · rw [← h i (by omega)]
          exact ih (i + bytes) (by omega)
        · exact byteOf_of_ge colour (by omega)
    have hload := Memory.load32_store32 0 colour fun _ => 0
    have hbyte : ∀ i < 4, Memory.store32 0 colour (fun _ => 0) (0 + i) = 0 := by
      intro i hi
      rw [Memory.store32, Memory.blit_inside 0 _ _ hi]
      exact hzero 4 i (by omega)
    rw [← hload, Memory.load32, hbyte 3 (by decide), hbyte 2 (by decide), hbyte 1 (by decide)]
    have hfirst := hbyte 0 (by decide)
    rw [Nat.zero_add] at hfirst
    rw [hfirst]
    rfl
  · rintro rfl i _
    simp [byteOf]

/-- The screen of the device, in the mode it starts in. -/
def leoDisplay : Display where
  screen := ⟨0x02A00000, 480, 800, 32⟩
  globalBpp := 0
  fits := by decide
  modeFits := by decide

/-- Painted black, the screen has one pixel that is `0xff000000`: the others are 0. -/
theorem black_not_painted : ¬ PaintsScreen leoDisplay fbBlack := by
  intro h
  have hrepeats := (paintScreen_fills_iff leoDisplay fbBlack fun _ => 0).mp (h.paints _)
  have hbyte := hrepeats 3 (by decide)
  exact absurd hbyte (by decide)

end HtcLeo.FrameBuffer

import HtcLeo.FrameBuffer.Fill
import HtcLeo.FrameBuffer.Terminal
import HtcLeo.Lib.Prog

namespace HtcLeo.FrameBuffer

open Prog

/-!
# FrameBufferSerialPortLib — the console

The console of `Library/FrameBufferSerialPortLib/FrameBufferSerialPortLib.c`.  `FbConFlush` writes
the data cache back and changes nothing here.

* `fbConDrawglyph` — the loops over the rows and columns of a glyph, and the bytes they store.
* `Console` — the variables of the library, the interrupt state of the processor, and (ghost) what
  has been stored and done.
* `paint`, `fbConPutCharWithFactor` — a character; `goto paint` goes round a loop.
* `serialPortInitialize`, `serialPortWrite` — the functions of the library class.
-/

/-! ### Glyphs -/

/-- `FONT_WIDTH`. -/
def fontWidth : U32 := 5
/-- `FONT_HEIGHT`. -/
def fontHeight : U32 := 12

/-- `font5x12`. -/
def font5x12 : List U32 :=
  [0x00000000, 0x00000000, 0x08421080, 0x00020084, 0x00052940, 0x00000000, 0x15f52800, 0x0000295f,
   0x1c52f880, 0x00023e94, 0x08855640, 0x0004d542, 0x04528800, 0x000b2725, 0x00021080, 0x00000000,
   0x04211088, 0x00821042, 0x10841082, 0x00221108, 0x09575480, 0x00000000, 0x3e420000, 0x00000084,
   0x00000000, 0x00223000, 0x3e000000, 0x00000000, 0x00000000, 0x00471000, 0x08844200, 0x00008442,
   0x2318a880, 0x00022a31, 0x08429880, 0x000f9084, 0x1108c5c0, 0x000f8444, 0x1c4443e0, 0x00074610,
   0x14a62100, 0x000423e9, 0x26d087e0, 0x00074610, 0x1e10c5c0, 0x00074631, 0x088443e0, 0x00010844,
   0x1d18c5c0, 0x00074631, 0x3d18c5c0, 0x00074610, 0x08e20000, 0x00471000, 0x08e20000, 0x00223000,
   0x02222200, 0x00082082, 0x01f00000, 0x000003e0, 0x20820820, 0x00008888, 0x1108c5c0, 0x00020084,
   0x2b98c5c0, 0x000f05b5, 0x2318a880, 0x0008c63f, 0x1d2949e0, 0x0007ca52, 0x0210c5c0, 0x00074421,
   0x252949e0, 0x0007ca52, 0x1e1087e0, 0x000f8421, 0x1e1087e0, 0x00008421, 0x0210c5c0, 0x00074639,
   0x3f18c620, 0x0008c631, 0x084211c0, 0x00071084, 0x10842380, 0x00032508, 0x0654c620, 0x0008c525,
   0x02108420, 0x000f8421, 0x2b5dc620, 0x0008c631, 0x2b59ce20, 0x0008c739, 0x2318c5c0, 0x00074631,
   0x1f18c5e0, 0x00008421, 0x2318c5c0, 0x01075631, 0x1f18c5e0, 0x0008c525, 0x1c10c5c0, 0x00074610,
   0x084213e0, 0x00021084, 0x2318c620, 0x00074631, 0x1518c620, 0x0002114a, 0x2b18c620, 0x000556b5,
   0x08a54620, 0x0008c54a, 0x08a54620, 0x00021084, 0x088443e0, 0x000f8442, 0x0421084e, 0x00e10842,
   0x08210420, 0x00084108, 0x1084210e, 0x00e42108, 0x0008a880, 0x00000000, 0x00000000, 0x01f00000,
   0x00000104, 0x00000000, 0x20e00000, 0x000b663e, 0x22f08420, 0x0007c631, 0x22e00000, 0x00074421,
   0x23e84200, 0x000f4631, 0x22e00000, 0x0007443f, 0x1e214980, 0x00010842, 0x22e00000, 0x1d187a31,
   0x26d08420, 0x0008c631, 0x08601000, 0x00071084, 0x10c02000, 0x0c94a108, 0x0a908420, 0x0008a4a3,
   0x084210c0, 0x00071084, 0x2ab00000, 0x0008d6b5, 0x26d00000, 0x0008c631, 0x22e00000, 0x00074631,
   0x22f00000, 0x0210be31, 0x23e00000, 0x21087a31, 0x26d00000, 0x00008421, 0x22e00000, 0x00074506,
   0x04f10800, 0x00064842, 0x23100000, 0x000b6631, 0x23100000, 0x00022951, 0x23100000, 0x000556b5,
   0x15100000, 0x0008a884, 0x23100000, 0x1d185b31, 0x11f00000, 0x000f8444, 0x06421098, 0x01821084,
   0x08421080, 0x00021084, 0x30421083, 0x00321084, 0x0004d640, 0x00000000, 0x00000000, 0x00000000]

/-- `FB_BGRA8888_WHITE`. -/
def fbWhite : U32 := 0xffffffff

section Glyph

-- `stride` is what is left of a line of the screen behind a row of the glyph
variable (stride bytes scaleFactor : U32)

/-- A row of the background. -/
def backgroundRow (background : U32) (p : Pen 32) : Pen 32 :=
  ((fun p => (putPixel bytes background)^[scaleFactor.toNat] p)^[fontWidth.toNat] p).skip
    (stride * bytes)

/-- Half of the background. -/
def backgroundHalf (background : U32) (p : Pen 32) : Pen 32 :=
  (fun p => (backgroundRow stride bytes scaleFactor background)^[scaleFactor.toNat]
    p)^[fontHeight.toNat / 2] p

/-- A bit of `data`: as many pixels as the scale says are drawn, or passed over. -/
def glyphBit (foreground : U32) (a : U32 × Pen 32) : U32 × Pen 32 :=
  (a.1 >>> 1,
    if a.1 &&& 1 ≠ 0 then (putPixel bytes foreground)^[scaleFactor.toNat] a.2
    else (Pen.skip bytes)^[scaleFactor.toNat] a.2)

/-- A row of the glyph. -/
def glyphRow (foreground : U32) (a : U32 × Pen 32) : U32 × Pen 32 :=
  let a := (glyphBit bytes scaleFactor foreground)^[fontWidth.toNat] a
  (a.1, a.2.skip (stride * bytes))

/-- The rows of a glyph that show the same bits. -/
def glyphLine (foreground : U32) (a : U32 × Pen 32) : U32 × Pen 32 :=
  let temp := a.1
  (fun a => glyphRow stride bytes scaleFactor foreground (temp, a.2))^[scaleFactor.toNat] a

/-- Half of a glyph. -/
def glyphHalf (foreground data : U32) (p : Pen 32) : Pen 32 :=
  ((glyphLine stride bytes scaleFactor foreground)^[fontHeight.toNat / 2] (data, p)).2

end Glyph

/-- `FbConDrawglyph`: what it stores, for the colours of `m_Color`. -/
def fbConDrawglyph (foreground background pixels stride bytes glyph0 glyph1 scaleFactor : U32) :
    List (U32 × Byte) :=
  let stride := stride - fontWidth * scaleFactor
  let b := backgroundHalf stride bytes scaleFactor background ⟨pixels, []⟩
  let b := backgroundHalf stride bytes scaleFactor background b
  let p := glyphHalf stride bytes scaleFactor foreground glyph0 ⟨pixels, b.stores⟩
  let p := glyphHalf stride bytes scaleFactor foreground glyph1 p
  p.stores

/-! ### The console -/

/-- What is recorded: an operation on the page or the cursor, or that the interrupts are enabled
    or disabled. -/
inductive Event
  | op (o : Op)
  | interrupts (on : Bool)
  deriving DecidableEq, Repr

/-- `m_Position`, `m_MaxPosition`, `m_Color` and `m_Initialized`; the interrupt state; (ghost)
    every byte that has been stored in the frame buffer, and the events. -/
structure Console where
  x : U32
  y : U32
  maxX : U32
  maxY : U32
  foreground : U32
  background : U32
  initialized : Bool
  interrupts : Bool
  stores : List (U32 × Byte)
  log : List Event

/-- `FbConMsgType`. -/
inductive FbConMsgType
  | common | unlockTitle | title | subtitle | yellow | orange | red | green | selectBgColor
  deriving DecidableEq, Repr

/-- Look at the variables. -/
def look : Prog Console Console := query fun s => (s, s)

/-- `ArmGetInterruptState`. -/
def armGetInterruptState : Prog Console Bool := query fun s => (s.interrupts, s)

/-- The console with the interrupts enabled or disabled. -/
def withInterrupts (on : Bool) (s : Console) : Console :=
  { s with interrupts := on, log := s.log ++ [.interrupts on] }

/-- `ArmEnableInterrupts`, `ArmDisableInterrupts`. -/
def armSetInterrupts (on : Bool) : Prog Console Unit := modify (withInterrupts on)

section

variable (screen : Screen) (scaleFactor : U32)

/-- `FbConReset`. -/
def fbConReset (s : Console) : Console :=
  { s with
    x := 0
    y := 0
    maxX := screen.width / (fontWidth + 1)
    maxY := (screen.height - 1) / fontHeight
    foreground := fbWhite
    background := fbBlack }

/-- A character is drawn at the cursor, and the cursor moved on. -/
def drawChar (c : Byte) (s : Console) : Console :=
  let pixels := screen.address + s.y * (screen.bytes * fontHeight * screen.width)
  let pixels := pixels + s.x * scaleFactor * (screen.bytes * (fontWidth + 1))
  let glyph := (c.toNat - 32) * 2
  { s with
    x := s.x + 1
    stores := s.stores ++ fbConDrawglyph s.foreground s.background pixels screen.width screen.bytes
      (font5x12.getD glyph 0) (font5x12.getD (glyph + 1) 0) scaleFactor
    log := s.log ++ [.op (.draw c s.x.toNat s.y.toNat), .op .advance] }

/-- `m_Position.y += scale_factor; m_Position.x = 0;` -/
def lineFeed (s : Console) : Console :=
  { s with y := s.y + scaleFactor, x := 0, log := s.log ++ [.op .lineFeed] }

/-- `ResetFb ()`, and `m_Position.y = 0;` -/
def newPage (s : Console) : Console :=
  { s with
    y := 0
    stores := s.stores ++ (resetFb screen).stores
    log := s.log ++ [.op .clear, .op .home] }

/-- What follows `newline:`; `.inl` is `goto paint`. -/
def newline (intstate : Bool) : Prog Console (Bool ⊕ Unit) := do
  modify (lineFeed scaleFactor)
  let s ← look
  if s.maxY - scaleFactor ≤ s.y then
    modify (newPage screen)
    if intstate then armSetInterrupts true
    return .inl intstate
  else
    if intstate then armSetInterrupts true
    return .inr ()

/-- What follows the declaration of `intstate`. -/
def paintGlyph (c : Byte) : Prog Console (Bool ⊕ Unit) := do
  let intstate ← armGetInterruptState
  armSetInterrupts false
  modify (drawChar screen scaleFactor c)
  let s ← look
  if (s.maxX / scaleFactor).sle s.x then newline screen scaleFactor intstate
  else
    if intstate then armSetInterrupts true
    return .inr ()

/-- The line ends where the glyph leaves no room for another. -/
theorem paintGlyph_apply (c : Byte) (s : Console) {u : Console}
    (hu : drawChar screen scaleFactor c (withInterrupts false s) = u) :
    paintGlyph screen scaleFactor c s =
      (if (u.maxX / scaleFactor).sle u.x then newline screen scaleFactor s.interrupts
      else
        (do if s.interrupts then armSetInterrupts true
            return .inr () : Prog Console (Bool ⊕ Unit))) u := by
  subst hu
  rfl

/-- What follows `paint:`, with what is in `intstate`. -/
def paint (type : FbConMsgType) (c : Byte) (intstate : Bool) : Prog Console (Bool ⊕ Unit) := do
  if 127 < c then return .inr ()
  else if c < 32 then
    if c = lf then newline screen scaleFactor intstate
    else if c = cr then
      modify fun s => { s with x := 0, log := s.log ++ [.op .carriageReturn] }
      return .inr ()
    else return .inr ()
  else
    let s ← look
    -- save some space
    if s.x = 0 ∧ c = space ∧ type ≠ .subtitle ∧ type ≠ .title then return .inr ()
    else paintGlyph screen scaleFactor c

/-- `FbConPutCharWithFactor`; `uninitialized` is what is found in `intstate` where it has not been
    set, and `fuel` limits the passes of `paint`. -/
def fbConPutCharWithFactor (fuel : Nat) (type : FbConMsgType) (c : Byte) (uninitialized : Bool) :
    Prog Console Unit := do
  let s ← look
  if s.initialized then loop (paint screen scaleFactor type c) fuel uninitialized
  else return ()

/-- `SerialPortInitialize`. -/
def serialPortInitialize : Prog Console Unit := do
  let s ← look
  if s.initialized then return ()
  else
    let interruptState ← armGetInterruptState
    armSetInterrupts false
    modify (fbConReset screen)
    modify fun s => { s with initialized := true }
    if interruptState then armSetInterrupts true

/-- The loop of `SerialPortWrite`, over the bytes, each with what the call for it finds in its
    `intstate`. -/
def writeBytes (fuel : Nat) (buffer : List (Byte × Bool)) : Prog Console Unit :=
  forM buffer fun b => fbConPutCharWithFactor screen scaleFactor fuel .common b.1 b.2

/-- `SerialPortWrite`. -/
def serialPortWrite (fuel : Nat) (buffer : List (Byte × Bool)) : Prog Console U32 := do
  let interruptState ← armGetInterruptState
  armSetInterrupts false
  writeBytes screen scaleFactor fuel buffer
  if interruptState then armSetInterrupts true
  return BitVec.ofNat 32 buffer.length

end

/-- The library before its first call. -/
def consoleStart (interrupts : Bool) : Console := ⟨0, 0, 0, 0, 0, 0, false, interrupts, [], []⟩

/-- And after `SerialPortInitialize`. -/
def console (screen : Screen) (interrupts : Bool) : Console :=
  (serialPortInitialize screen (consoleStart interrupts)).2

end HtcLeo.FrameBuffer

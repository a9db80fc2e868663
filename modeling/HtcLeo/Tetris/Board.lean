import HtcLeo.Lib.Prog
import HtcLeo.Tetris.Piece

namespace HtcLeo.Tetris

/-!
# TetrisApp — the board

`Application/TetrisApp/Board.h` and `Board.c`.  The board keeps the falling piece and the settled
blocks in one array, `fields`: a move takes the piece out of it, looks whether there is room, and
puts it in again.  What is drawn goes through `redrawField`, which writes the array as well.

A store outside of the array and an `ASSERT` that fails have no result, and neither has a loop
that does not end.
-/

/-- `BOARD_HEIGHT`. -/
def boardHeight : Int := 22

/-- `INVISIBLE_ROWS_COUNT`. -/
def invisibleRowsCount : Int := 2

/-- `BOARD_WIDTH`. -/
def boardWidth : Int := 10

/-- `BOARD_TOP_X`. -/
def boardTopX : Int := 25

/-- `BOARD_TOP_Y`. -/
def boardTopY : Int := 3

/-- `EMPTY_FIELD`, which is `EFI_BLACK`. -/
def emptyField : BitVec 8 := 0x00

/-- `PIECE_STARTING_POS`. -/
def pieceStartingPos : Point := ⟨4, 0⟩

/-- `DROP_BONUS_SCORE_PER_LINE`. -/
def dropBonusScorePerLine : U32 := 2

/-- `LINE_CLEAR_SCORE`. -/
def lineClearScore : U32 := 100

/-- `LINE_CLEAR_LEVEL_BONUS_SCORE`. -/
def lineClearLevelBonusScore : U32 := 50

/-- Colours by row and column: an array of fields, or the blocks on the screen. -/
abbrev Field := Int → Int → BitVec 8

/-- The field with one colour changed. -/
def Field.set (f : Field) (y x : Int) (color : BitVec 8) : Field :=
  fun y' x' => if y' = y ∧ x' = x then color else f y' x'

/-- `struct _Board`, with `previousValue` of `rand` and the colours of the blocks that were
    printed, by row and column of the screen. -/
structure Board where
  nextPiece : Piece
  activePiece : Piece
  fields : Field
  blocked : Bool
  level : U32
  lines : U32
  score : U32
  previousValue : U32
  screen : Field

/-- `ASSERT`. -/
def assertThat (c : Prop) [Decidable c] : Prog Board Unit :=
  fun b => (if c then some () else none, b)

/-- `this->fields[ y ][ x ]`. -/
def loadField (y x : Int) : Prog Board (BitVec 8) := do
  assertThat (0 ≤ y ∧ y < boardHeight ∧ 0 ≤ x ∧ x < boardWidth)
  Prog.query fun b => (b.fields y x, b)

/-- `this->fields[ y ][ x ] = color`. -/
def storeField (y x : Int) (color : BitVec 8) : Prog Board Unit := do
  assertThat (0 ≤ y ∧ y < boardHeight ∧ 0 ≤ x ∧ x < boardWidth)
  Prog.modify fun b => { b with fields := b.fields.set y x color }

/-- `putcharx` of a full block, after `setTextColor( color )`. -/
def putcharx (x y : Int) (color : BitVec 8) : Prog Board Unit :=
  Prog.modify fun b => { b with screen := b.screen.set y x color }

/-- `redrawField`. -/
def redrawField (x y : Int) (color : BitVec 8) : Prog Board Unit := do
  assertThat (0 ≤ x ∧ x < boardWidth)
  assertThat (0 ≤ y ∧ y < boardHeight)
  if y ≥ invisibleRowsCount then
    storeField y x color
    putcharx (boardTopX + 1 + 2 * x) (boardTopY - invisibleRowsCount + y) color
    putcharx (boardTopX + 1 + 2 * x + 1) (boardTopY - invisibleRowsCount + y) color

/-- `this->activePiece`. -/
def activePiece : Prog Board Piece := Prog.query fun b => (b.activePiece, b)

/-- `this->activePiece = piece`. -/
def setActivePiece (piece : Piece) : Prog Board Unit :=
  Prog.modify fun b => { b with activePiece := piece }

/-- `markFieldsOccupiedByPiece`. -/
def markFieldsOccupiedByPiece (color : BitVec 8) : Prog Board Unit := do
  let piece ← activePiece
  forM piece.body fun q => storeField (q.y + piece.pos.y) (q.x + piece.pos.x) color

/-- `drawFieldsOccupiedByPiece`. -/
def drawFieldsOccupiedByPiece (color : BitVec 8) : Prog Board Unit := do
  let piece ← activePiece
  forM piece.body fun q => redrawField (q.x + piece.pos.x) (q.y + piece.pos.y) color

/-- `isMovePossible`. -/
def isMovePossible (x y : Int) : Prog Board Bool := Prog.query fun b =>
  (b.activePiece.body.all fun q =>
    let fx := q.x + b.activePiece.pos.x + x
    let fy := q.y + b.activePiece.pos.y + y
    !(decide (fx < 0) || decide (fx ≥ boardWidth) || decide (fy < 0) || decide (fy ≥ boardHeight) ||
      b.fields fy fx != emptyField), b)

/-- `rotatePiece`. -/
def rotatePiece : Prog Board Unit := do
  markFieldsOccupiedByPiece emptyField
  setActivePiece (← activePiece).rotateCW
  if !(← isMovePossible 0 0) then
    setActivePiece (← activePiece).rotateCCW
    markFieldsOccupiedByPiece (← activePiece).color
  else
    setActivePiece (← activePiece).rotateCCW
    drawFieldsOccupiedByPiece emptyField
    setActivePiece (← activePiece).rotateCW
    drawFieldsOccupiedByPiece (← activePiece).color

/-- `movePieceLeft` and `movePieceRight`, which differ in the sign of `dx` alone. -/
def movePieceSideways (dx : Int) : Prog Board Unit := do
  markFieldsOccupiedByPiece emptyField
  if ← isMovePossible dx 0 then
    drawFieldsOccupiedByPiece emptyField
    setActivePiece ((← activePiece).shift dx 0)
    drawFieldsOccupiedByPiece (← activePiece).color
  markFieldsOccupiedByPiece (← activePiece).color

/-- `movePieceLeft`. -/
def movePieceLeft : Prog Board Unit := movePieceSideways (-1)

/-- `movePieceRight`. -/
def movePieceRight : Prog Board Unit := movePieceSideways 1

/-- `isGameOver`. -/
def isGameOver : Prog Board Bool := Prog.query fun b =>
  (b.activePiece.body.any fun q => decide (q.y + b.activePiece.pos.y < invisibleRowsCount), b)

/-- `loadNextPiece`: the two pieces change places, and `randomize` makes a new one of the old. -/
def loadNextPiece (b : Board) : Board :=
  let r := rand b.previousValue
  { b with
    activePiece := { b.nextPiece with pos := pieceStartingPos }
    nextPiece := b.activePiece.randomize r
    previousValue := r }

/-- The loop that computes `lineWasFull`. -/
def lineWasFull (i : Int) : Prog Board Bool := Prog.query fun b =>
  ((List.range boardWidth.toNat).all fun j => b.fields i j != emptyField, b)

/-- The two loops of `checkAndRemoveLines` for a full line; in the second one `j` is `i - n`. -/
def removeLine (i : Int) : Prog Board Unit := do
  forM (List.range boardWidth.toNat) fun (j : Nat) => redrawField j i emptyField
  forM (List.range i.toNat) fun (n : Nat) =>
    forM (List.range boardWidth.toNat) fun (k : Nat) => do
      let color ← loadField (i - n - 1) k
      redrawField k (i - n) color

/-- An iteration of the outer loop of `checkAndRemoveLines`; a line that was full is looked at
    again. -/
def checkLine : Int × Nat → Prog Board (Int × Nat ⊕ Nat)
  | (i, counter) =>
      if i ≥ invisibleRowsCount then do
        if ← lineWasFull i then
          removeLine i
          pure (.inl (i, counter + 1))
        else
          pure (.inl (i - 1, counter))
      else
        pure (.inr counter)

/-- `checkAndRemoveLines`.  Each of the twenty lines is looked at once more than it is full. -/
def checkAndRemoveLines : Prog Board Unit := do
  let counter ← Prog.loop checkLine 41 (boardHeight - 1, 0)
  Prog.modify fun b => { b with lines := b.lines + BitVec.ofNat 32 counter }
  if counter ≠ 0 then
    Prog.modify fun b => { b with score := b.score + lineClearScore <<< (counter - 1) }
    Prog.modify fun b => { b with score := b.score + lineClearLevelBonusScore * b.level }

/-- `placePiece`. -/
def placePiece : Prog Board Unit := do
  if ← isGameOver then
    Prog.modify fun b => { b with blocked := true }
  else
    checkAndRemoveLines
    Prog.modify loadNextPiece

/-- `movePieceDown`. -/
def movePieceDown : Prog Board Bool := do
  markFieldsOccupiedByPiece emptyField
  if ← isMovePossible 0 1 then
    drawFieldsOccupiedByPiece emptyField
    setActivePiece ((← activePiece).shift 0 1)
    drawFieldsOccupiedByPiece (← activePiece).color
    return true
  else
    markFieldsOccupiedByPiece (← activePiece).color
    placePiece
    return false

/-- The loop of `dropPiece`; `height` is the rows the piece has come down. -/
def descend (height : Nat) : Prog Board (Nat ⊕ Nat) := do
  if ← movePieceDown then
    pure (.inl (height + 1))
  else
    pure (.inr height)

/-- `dropPiece`. -/
def dropPiece : Prog Board Unit := do
  let height ← Prog.loop descend boardHeight.toNat 0
  Prog.modify fun b =>
    { b with score := b.score + dropBonusScorePerLine * BitVec.ofNat 32 height }

/-- `ConstructBoard`, with the seed of `rand`; the screen has been cleared before. -/
def constructBoard (seed : U32) : Board :=
  let (nextPiece, r) := constructPiece seed
  let (activePiece, r) := constructPiece r
  loadNextPiece
    { nextPiece, activePiece, fields := fun _ _ => 0, blocked := false, level := 1, lines := 0,
      score := 0, previousValue := r, screen := fun _ _ => 0 }

end HtcLeo.Tetris

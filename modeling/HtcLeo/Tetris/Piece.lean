import HtcLeo.Uefi
import Mathlib.Data.List.Basic

namespace HtcLeo.Tetris

/-!
# TetrisApp — the pieces

`Application/TetrisApp/Piece.h` and `Piece.c`: the seven tetriminos with their four bodies each,
the random numbers they are drawn with, and the rotations.

* `Piece.cells` — the squares a piece covers.
* `Tetrimino.body_nodup`, `Tetrimino.body_length` — always four of them.
* `Piece.rotateCCW_rotateCW` — turning back is the inverse of turning.
-/

/-- `Point`. -/
structure Point where
  x : Int
  y : Int
  deriving DecidableEq, Repr

/-- The shapes, in the order of the cases of `randomize`. -/
inductive Tetrimino
  | I | J | L | O | S | T | Z
  deriving DecidableEq, Repr

/-- The `TETRIMINO_*_BODY` tables: the body for each rotation. -/
def Tetrimino.bodies : Tetrimino → Fin 4 → List Point
  | .I => fun
    | 0 => [⟨0, 1⟩, ⟨1, 1⟩, ⟨2, 1⟩, ⟨3, 1⟩]
    | 1 => [⟨2, 0⟩, ⟨2, 1⟩, ⟨2, 2⟩, ⟨2, 3⟩]
    | 2 => [⟨0, 2⟩, ⟨1, 2⟩, ⟨2, 2⟩, ⟨3, 2⟩]
    | 3 => [⟨1, 0⟩, ⟨1, 1⟩, ⟨1, 2⟩, ⟨1, 3⟩]
  | .J => fun
    | 0 => [⟨0, 0⟩, ⟨0, 1⟩, ⟨1, 1⟩, ⟨2, 1⟩]
    | 1 => [⟨1, 2⟩, ⟨1, 1⟩, ⟨1, 0⟩, ⟨2, 0⟩]
    | 2 => [⟨0, 1⟩, ⟨1, 1⟩, ⟨2, 1⟩, ⟨2, 2⟩]
    | 3 => [⟨0, 2⟩, ⟨1, 2⟩, ⟨1, 1⟩, ⟨1, 0⟩]
  | .L => fun
    | 0 => [⟨0, 1⟩, ⟨1, 1⟩, ⟨2, 1⟩, ⟨2, 0⟩]
    | 1 => [⟨1, 2⟩, ⟨1, 1⟩, ⟨1, 0⟩, ⟨2, 2⟩]
    | 2 => [⟨0, 1⟩, ⟨1, 1⟩, ⟨2, 1⟩, ⟨0, 2⟩]
    | 3 => [⟨0, 0⟩, ⟨1, 2⟩, ⟨1, 1⟩, ⟨1, 0⟩]
  | .O => fun
    | 0 => [⟨1, 0⟩, ⟨1, 1⟩, ⟨2, 0⟩, ⟨2, 1⟩]
    | 1 => [⟨1, 0⟩, ⟨1, 1⟩, ⟨2, 0⟩, ⟨2, 1⟩]
    | 2 => [⟨1, 0⟩, ⟨1, 1⟩, ⟨2, 0⟩, ⟨2, 1⟩]
    | 3 => [⟨1, 0⟩, ⟨1, 1⟩, ⟨2, 0⟩, ⟨2, 1⟩]
  | .S => fun
    | 0 => [⟨0, 1⟩, ⟨1, 1⟩, ⟨1, 0⟩, ⟨2, 0⟩]
    | 1 => [⟨1, 0⟩, ⟨1, 1⟩, ⟨2, 1⟩, ⟨2, 2⟩]
    | 2 => [⟨0, 2⟩, ⟨1, 2⟩, ⟨1, 1⟩, ⟨2, 1⟩]
    | 3 => [⟨0, 0⟩, ⟨0, 1⟩, ⟨1, 1⟩, ⟨1, 2⟩]
  | .T => fun
    | 0 => [⟨0, 1⟩, ⟨1, 1⟩, ⟨2, 1⟩, ⟨1, 0⟩]
    | 1 => [⟨1, 0⟩, ⟨1, 1⟩, ⟨1, 2⟩, ⟨2, 1⟩]
    | 2 => [⟨0, 1⟩, ⟨1, 1⟩, ⟨2, 1⟩, ⟨1, 2⟩]
    | 3 => [⟨1, 0⟩, ⟨1, 1⟩, ⟨1, 2⟩, ⟨0, 1⟩]
  | .Z => fun
    | 0 => [⟨2, 1⟩, ⟨1, 1⟩, ⟨1, 0⟩, ⟨0, 0⟩]
    | 1 => [⟨1, 2⟩, ⟨1, 1⟩, ⟨2, 1⟩, ⟨2, 0⟩]
    | 2 => [⟨2, 2⟩, ⟨1, 2⟩, ⟨1, 1⟩, ⟨0, 1⟩]
    | 3 => [⟨0, 2⟩, ⟨0, 1⟩, ⟨1, 1⟩, ⟨1, 0⟩]

/-- The `TETRIMINO_*_COLOR`s. -/
def Tetrimino.color : Tetrimino → BitVec 8
  | .I => 0x0B  -- EFI_LIGHTCYAN
  | .J => 0x09  -- EFI_LIGHTBLUE
  | .L => 0x02  -- EFI_GREEN
  | .O => 0x0E  -- EFI_YELLOW
  | .S => 0x0A  -- EFI_LIGHTGREEN
  | .T => 0x05  -- EFI_MAGENTA
  | .Z => 0x0D  -- EFI_LIGHTMAGENTA

theorem firstRotation_lt : 0 < 4 := by decide

/-- The rotation of a new piece. -/
def firstRotation : Fin 4 := ⟨0, firstRotation_lt⟩

/-- `struct _Piece`.  `bodies` and `color` are those of the shape, and `body` points to the one
    of the rotation. -/
structure Piece where
  kind : Tetrimino
  rotation : Fin 4
  pos : Point
  deriving DecidableEq, Repr

/-- `( *this->body )`. -/
def Piece.body (this : Piece) : List Point := this.kind.bodies this.rotation

/-- `this->color`. -/
def Piece.color (this : Piece) : BitVec 8 := this.kind.color

/-- The static `M` of `rand`, as it is converted to `unsigned`. -/
def randM : U32 := 1 <<< 31

/-- `rand`: the next value of its static `previousValue`, which it returns. -/
def rand (previousValue : U32) : U32 := (69069 * previousValue + 1) % randM

/-- The case of `randomize` for a random number. -/
def Tetrimino.ofRand (r : U32) : Tetrimino :=
  match (r % 7).toNat with
  | 0 => .I
  | 1 => .J
  | 2 => .L
  | 3 => .O
  | 4 => .S
  | 5 => .T
  | _ => .Z

/-- `randomize`, when `rand` has returned `r`. -/
def Piece.randomize (this : Piece) (r : U32) : Piece :=
  { this with kind := .ofRand r, rotation := firstRotation }

theorem rotateCW_lt (r : Fin 4) : (r.val + 1) % 4 < 4 := Nat.mod_lt _ firstRotation_lt

theorem rotateCCW_lt (r : Fin 4) : (if r.val = 0 then 3 else r.val - 1) < 4 := by
  split <;> omega

/-- `rotateCW`. -/
def Piece.rotateCW (this : Piece) : Piece :=
  { this with rotation := ⟨(this.rotation.val + 1) % 4, rotateCW_lt this.rotation⟩ }

/-- `rotateCCW`. -/
def Piece.rotateCCW (this : Piece) : Piece :=
  { this with
    rotation := ⟨if this.rotation.val = 0 then 3 else this.rotation.val - 1,
      rotateCCW_lt this.rotation⟩ }

/-- `ConstructPiece`: one random number is thrown away, the next one makes the piece. -/
def constructPiece (previousValue : U32) : Piece × U32 :=
  let r := rand (rand previousValue)
  (⟨.ofRand r, firstRotation, ⟨0, 0⟩⟩, r)

/-! ### What a piece covers -/

/-- The squares a piece covers. -/
def Piece.cells (this : Piece) : List Point :=
  this.body.map fun q => ⟨q.x + this.pos.x, q.y + this.pos.y⟩

/-- The piece further to the right and further down. -/
def Piece.shift (this : Piece) (x y : Int) : Piece :=
  { this with pos := ⟨this.pos.x + x, this.pos.y + y⟩ }

@[simp] theorem Piece.shift_kind (p : Piece) (x y : Int) : (p.shift x y).kind = p.kind := rfl

@[simp] theorem Piece.shift_color (p : Piece) (x y : Int) : (p.shift x y).color = p.color := rfl

@[simp] theorem Piece.rotateCW_color (p : Piece) : p.rotateCW.color = p.color := rfl

@[simp] theorem Piece.shift_shift (p : Piece) (x y x' y' : Int) :
    (p.shift x y).shift x' y' = p.shift (x + x') (y + y') := by
  simp [Piece.shift, Int.add_assoc]

@[simp] theorem Piece.shift_zero (p : Piece) : p.shift 0 0 = p := by
  simp [Piece.shift]

theorem Piece.mem_shift_cells {p : Piece} {x y : Int} {q : Point} :
    q ∈ (p.shift x y).cells ↔ ⟨q.x - x, q.y - y⟩ ∈ p.cells := by
  obtain ⟨qx, qy⟩ := q
  simp only [Piece.cells, Piece.shift, Piece.body, List.mem_map, Point.mk.injEq]
  constructor
  · rintro ⟨b, hb, hx, hy⟩
    exact ⟨b, hb, by omega, by omega⟩
  · rintro ⟨b, hb, hx, hy⟩
    exact ⟨b, hb, by omega, by omega⟩

/-- Turning back is the inverse of turning. -/
@[simp] theorem Piece.rotateCCW_rotateCW (p : Piece) : p.rotateCW.rotateCCW = p := by
  obtain ⟨kind, rotation, pos⟩ := p
  rw [Piece.rotateCW, Piece.rotateCCW, Piece.mk.injEq]
  refine ⟨rfl, Fin.ext ?_, rfl⟩
  show (if (rotation.val + 1) % 4 = 0 then 3 else (rotation.val + 1) % 4 - 1) = rotation.val
  split <;> omega

theorem Tetrimino.body_length (kind : Tetrimino) (rotation : Fin 4) :
    (kind.bodies rotation).length = 4 := by
  cases kind <;> revert rotation <;> decide

theorem Tetrimino.body_nodup (kind : Tetrimino) (rotation : Fin 4) :
    (kind.bodies rotation).Nodup := by
  cases kind <;> revert rotation <;> decide

/-- A body that is not turned lies in the first two rows. -/
theorem Tetrimino.body_zero_range (kind : Tetrimino) {q : Point}
    (hq : q ∈ kind.bodies firstRotation) :
    0 ≤ q.x ∧ q.x ≤ 3 ∧ 0 ≤ q.y ∧ q.y ≤ 1 := by
  revert q
  cases kind <;> decide

theorem Tetrimino.color_ne_zero (kind : Tetrimino) : kind.color ≠ 0 := by
  cases kind <;> decide

@[simp] theorem Piece.cells_length (p : Piece) : p.cells.length = 4 := by
  rw [Piece.cells, List.length_map, Piece.body, Tetrimino.body_length]

theorem Piece.cells_nodup (p : Piece) : p.cells.Nodup := by
  refine List.Nodup.map ?_ (Tetrimino.body_nodup _ _)
  rintro ⟨ax, ay⟩ ⟨bx, bY⟩ hab
  simp only [Point.mk.injEq] at hab ⊢
  omega

theorem Piece.cells_ne_nil (p : Piece) : p.cells ≠ [] := by
  intro h
  have := p.cells_length
  rw [h] at this
  exact absurd this (by decide)

end HtcLeo.Tetris

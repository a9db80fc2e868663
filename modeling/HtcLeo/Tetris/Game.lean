import HtcLeo.Tetris.Lines
import Mathlib.Data.Nat.Find

namespace HtcLeo.Tetris

open Compaction

/-!
# TetrisApp — the game that the board is for

The settled blocks on one side and the falling piece on the other.  A piece moves where it fits; a
piece that can not come down any further becomes part of the stack, or ends the game when it sticks
out at the top.

* `Game.WellFormed` — the piece is in the stack's free squares, the stack does not reach the
  invisible rows, and it has no full line; every operation keeps this.
* `Field.count` — the settled blocks; `Game.count_settle` says what a settled piece adds to them.
-/

/-- The state of the game; `placed` pieces have become part of the stack. -/
structure Game where
  stack : Field
  piece : Piece
  next : Piece
  ended : Bool
  level : U32
  placed : Nat
  lines : Nat
  score : U32
  seed : U32

namespace Game

/-- All squares of `p` are on the board and free. -/
def Fits (g : Game) (p : Piece) : Prop :=
  ∀ q ∈ p.cells, OnBoard q.y q.x ∧ g.stack q.y q.x = emptyField

instance (g : Game) (p : Piece) : Decidable (g.Fits p) :=
  inferInstanceAs (Decidable (∀ q ∈ p.cells, OnBoard q.y q.x ∧ g.stack q.y q.x = emptyField))

/-- What fits does not depend on where the piece is. -/
theorem fits_with (g : Game) (p q : Piece) : ({ g with piece := p } : Game).Fits q ↔ g.Fits q :=
  Iff.rfl

/-- The stack with the piece in it. -/
def picture (g : Game) : Field :=
  fun y x => if (⟨x, y⟩ : Point) ∈ g.piece.cells then g.piece.color else g.stack y x

/-- The piece becomes `p`, where that fits. -/
def become (g : Game) (p : Piece) : Game := if g.Fits p then { g with piece := p } else g

/-- One column to the left or to the right. -/
def sideways (g : Game) (dx : Int) : Game := g.become (g.piece.shift dx 0)

/-- A quarter turn. -/
def rotate (g : Game) : Game := g.become g.piece.rotateCW

/-- A part of the piece is still in the invisible rows. -/
def SticksOut (g : Game) : Prop := ∃ q ∈ g.piece.cells, q.y < invisibleRowsCount

instance (g : Game) : Decidable g.SticksOut :=
  inferInstanceAs (Decidable (∃ q ∈ g.piece.cells, q.y < invisibleRowsCount))

/-- The piece becomes part of the stack, full lines go out, and the next piece comes in. -/
def settle (g : Game) : Game :=
  let cleared := g.picture.rows.countP isFull
  { g with
    stack := g.picture.clear
    piece := { g.next with pos := pieceStartingPos }
    next := g.piece.randomize (rand g.seed)
    placed := g.placed + 1
    lines := g.lines + cleared
    score := g.score + linesScore g.level cleared
    seed := rand g.seed }

/-- The piece has come to rest. -/
def land (g : Game) : Game := if g.SticksOut then { g with ended := true } else g.settle

/-- There is room below the piece. -/
def CanFall (g : Game) : Prop := g.Fits (g.piece.shift 0 1)

instance (g : Game) : Decidable g.CanFall :=
  inferInstanceAs (Decidable (g.Fits (g.piece.shift 0 1)))

/-- One row down, or the piece comes to rest. -/
def down (g : Game) : Game := if g.CanFall then { g with piece := g.piece.shift 0 1 } else g.land

/-- The piece `h` rows further down. -/
def lowered (g : Game) (h : Nat) : Game := { g with piece := g.piece.shift 0 h }

/-- No piece falls for ever. -/
theorem exists_not_canFall (g : Game) : ∃ h, ¬ (g.lowered h).CanFall := by
  obtain ⟨q, hq⟩ := List.exists_mem_of_ne_nil _ g.piece.cells_ne_nil
  refine ⟨(boardHeight - q.y).toNat, fun hfits => ?_⟩
  -- that far down, the square of the piece is below the board
  obtain ⟨⟨-, hlow, -⟩, -⟩ := hfits ⟨q.x, q.y + (boardHeight - q.y).toNat + 1⟩ (by
    simpa [lowered, Piece.mem_shift_cells] using hq)
  dsimp only at hlow
  omega

/-- The rows that the piece can fall. -/
def fall (g : Game) : Nat := Nat.find g.exists_not_canFall

/-- The piece falls as far as it can and comes to rest. -/
def drop (g : Game) : Game :=
  let landed := (g.lowered g.fall).land
  { landed with score := landed.score + dropBonusScorePerLine * BitVec.ofNat 32 g.fall }

/-! ### Well-formed games -/

/-- The piece is in free squares; there is nothing settled in the invisible rows, and there are no
    full lines. -/
structure WellFormed (g : Game) : Prop where
  fits : g.Fits g.piece
  invisible : ∀ y x, OnBoard y x → y < invisibleRowsCount → g.stack y x = emptyField
  noFull : ∀ row ∈ g.stack.rows, isFull row = false
  next : g.next.rotation = firstRotation

variable {g : Game}

/-- A piece comes in within the invisible rows. -/
theorem cells_start {p : Piece} (hp : p.rotation = firstRotation) {q : Point}
    (hq : q ∈ ({ p with pos := pieceStartingPos } : Piece).cells) :
    OnBoard q.y q.x ∧ q.y < invisibleRowsCount := by
  simp only [Piece.cells, Piece.body, hp, List.mem_map] at hq
  obtain ⟨b, hb, rfl⟩ := hq
  have hrange := p.kind.body_zero_range hb
  have hpos : pieceStartingPos = ⟨4, 0⟩ := rfl
  have hsize : boardHeight = 22 ∧ boardWidth = 10 ∧ invisibleRowsCount = 2 := ⟨rfl, rfl, rfl⟩
  simp only [hpos, OnBoard]
  omega

theorem WellFormed.become (h : g.WellFormed) (p : Piece) : (g.become p).WellFormed := by
  unfold Game.become
  split_ifs with hfits
  · exact ⟨hfits, h.invisible, h.noFull, h.next⟩
  · exact h

theorem WellFormed.sideways (h : g.WellFormed) (dx : Int) : (g.sideways dx).WellFormed :=
  h.become _

theorem WellFormed.rotate (h : g.WellFormed) : g.rotate.WellFormed := h.become _

/-- The squares of a piece that does not stick out are visible. -/
theorem visible_of_not_sticksOut (hout : ¬ g.SticksOut) {q : Point} (hq : q ∈ g.piece.cells) :
    invisibleRowsCount ≤ q.y := by
  by_contra hlt
  exact hout ⟨q, hq, by omega⟩

/-- Where the piece does not stick out, there is nothing in the invisible rows. -/
theorem WellFormed.picture_invisible (h : g.WellFormed) (hout : ¬ g.SticksOut) {y x : Int}
    (hyx : OnBoard y x) (hy : y < invisibleRowsCount) : g.picture y x = emptyField := by
  rw [picture, if_neg, h.invisible y x hyx hy]
  intro hq
  have : invisibleRowsCount ≤ y := visible_of_not_sticksOut hout hq
  omega

/-- A row of empty fields. -/
theorem row_empty {F : Field} {y : Int} (h : ∀ x, 0 ≤ x → x < boardWidth → F y x = emptyField) :
    F.row y = List.replicate 10 emptyField := by
  rw [List.eq_replicate_iff]
  refine ⟨F.length_row y, fun a ha => ?_⟩
  obtain ⟨x, hx, rfl⟩ := List.mem_map.mp ha
  rw [List.mem_range] at hx
  exact h x (by omega) (by omega)

theorem WellFormed.picture_row (h : g.WellFormed) (hout : ¬ g.SticksOut) :
    g.picture.row (invisibleRowsCount - 1) = List.replicate 10 emptyField :=
  row_empty fun x hx hxw =>
    h.picture_invisible hout ⟨by decide, by decide, hx, hxw⟩ (by decide)

theorem WellFormed.picture_row_not_full (h : g.WellFormed) (hout : ¬ g.SticksOut) :
    isFull (g.picture.row (invisibleRowsCount - 1)) = false := by
  rw [h.picture_row hout]
  decide

theorem WellFormed.settle (h : g.WellFormed) (hout : ¬ g.SticksOut) : g.settle.WellFormed := by
  have hinvisible : ∀ y x, OnBoard y x → y < invisibleRowsCount →
      g.picture.clear y x = emptyField := by
    intro y x hyx hy
    rw [Field.clear, if_neg (by omega)]
    exact h.picture_invisible hout hyx hy
  refine ⟨fun q hq => ?_, hinvisible, fun row hrow => ?_, rfl⟩
  · obtain ⟨hon, hy⟩ := cells_start h.next hq
    exact ⟨hon, hinvisible _ _ hon hy⟩
  · -- what stays was not full, and what comes in is empty
    change row ∈ g.picture.clear.rows at hrow
    rw [Field.rows_clear, compact, List.mem_append, List.mem_replicate, List.mem_filter] at hrow
    rcases hrow with ⟨-, rfl⟩ | ⟨-, hrow⟩
    · exact h.picture_row_not_full hout
    · simpa using hrow

theorem WellFormed.land (h : g.WellFormed) : g.land.WellFormed := by
  unfold Game.land
  split_ifs with hout
  · exact ⟨h.fits, h.invisible, h.noFull, h.next⟩
  · exact h.settle hout

theorem WellFormed.down (h : g.WellFormed) : g.down.WellFormed := by
  unfold Game.down
  split_ifs with hfits
  · exact ⟨hfits, h.invisible, h.noFull, h.next⟩
  · exact h.land

/-- On its way down the piece can fall on, until it is all the way down. -/
theorem canFall_lowered {n : Nat} (hn : n ≤ g.fall) : (g.lowered n).CanFall ↔ n < g.fall := by
  constructor
  · intro hfall
    refine lt_of_le_of_ne hn ?_
    rintro rfl
    exact Nat.find_spec g.exists_not_canFall hfall
  · intro hlt
    exact not_not.mp (Nat.find_min g.exists_not_canFall hlt)

/-- The piece fits all the way down. -/
theorem WellFormed.lowered (h : g.WellFormed) {n : Nat} (hn : n ≤ g.fall) :
    (g.lowered n).WellFormed := by
  refine ⟨?_, h.invisible, h.noFull, h.next⟩
  cases n with
  | zero => simpa [Game.lowered] using h.fits
  | succ n =>
    have hfall : (g.lowered n).CanFall := (canFall_lowered (by omega)).mpr (by omega)
    have hshift : g.piece.shift 0 (n + 1 : Nat) = (g.piece.shift 0 n).shift 0 1 := by simp
    show g.Fits (g.piece.shift 0 (n + 1 : Nat))
    rw [hshift]
    exact hfall

theorem WellFormed.drop (h : g.WellFormed) : g.drop.WellFormed := by
  obtain ⟨hfits, hinvisible, hfull, hnext⟩ := (h.lowered le_rfl).land
  exact ⟨hfits, hinvisible, hfull, hnext⟩

/-- A piece can not fall further than the board is high. -/
theorem WellFormed.fall_lt (h : g.WellFormed) : g.fall < boardHeight.toNat := by
  obtain ⟨q, hq⟩ := List.exists_mem_of_ne_nil _ g.piece.cells_ne_nil
  obtain ⟨⟨hy, -⟩, -⟩ := h.fits q hq
  obtain ⟨⟨-, hlow, -⟩, -⟩ := (h.lowered le_rfl).fits ⟨q.x, q.y + g.fall⟩ (by
    simpa [Game.lowered, Piece.mem_shift_cells] using hq)
  dsimp only at hlow
  omega

end Game

/-! ### Blocks -/

/-- The blocks in a row. -/
def blocks (row : List (BitVec 8)) : Nat := row.countP (· != emptyField)

/-- The blocks in the visible rows. -/
def Field.count (F : Field) : Nat := (F.rows.map blocks).sum

/-- The field with one colour in the given squares. -/
def Field.paint (F : Field) (cells : List Point) (color : BitVec 8) : Field :=
  cells.foldl (fun F q => F.set q.y q.x color) F

theorem Field.paint_nil (F : Field) (color : BitVec 8) : F.paint [] color = F := rfl

theorem Field.paint_cons (F : Field) (q : Point) (cells : List Point) (color : BitVec 8) :
    F.paint (q :: cells) color = (F.set q.y q.x color).paint cells color := rfl

theorem Field.paint_apply (F : Field) (cells : List Point) (color : BitVec 8) (y x : Int) :
    F.paint cells color y x = if (⟨x, y⟩ : Point) ∈ cells then color else F y x := by
  induction cells generalizing F with
  | nil => rfl
  | cons q cells ih =>
    obtain ⟨qx, qy⟩ := q
    rw [Field.paint_cons, ih, Field.set]
    by_cases hmem : (⟨x, y⟩ : Point) ∈ cells
    · rw [if_pos hmem, if_pos (List.mem_cons_of_mem _ hmem)]
    · have hiff : (⟨x, y⟩ : Point) ∈ ⟨qx, qy⟩ :: cells ↔ y = qy ∧ x = qx := by
        simp [hmem, and_comm]
      rw [if_neg hmem]
      exact if_congr hiff.symm rfl rfl

/-- A list in which one element weighs more. -/
theorem sum_map_set {α : Type*} (weight : α → Nat) {l : List α} {k : Nat} {a b : α} {d : Nat}
    (ha : l[k]? = some a) (hb : weight b = weight a + d) :
    ((l.set k b).map weight).sum = (l.map weight).sum + d := by
  induction l generalizing k with
  | nil => simp at ha
  | cons c l ih =>
    cases k with
    | zero =>
      rw [List.getElem?_cons_zero, Option.some.injEq] at ha
      simp only [List.set_cons_zero, List.map_cons, List.sum_cons, hb, ha]
      omega
    | succ k =>
      rw [List.getElem?_cons_succ] at ha
      simp only [List.set_cons_succ, List.map_cons, List.sum_cons, ih ha]
      omega

theorem Field.rows_set (F : Field) {y x : Int} (h : OnBoard y x) (hy : invisibleRowsCount ≤ y)
    (color : BitVec 8) : (F.set y x color).rows =
      F.rows.set (y - invisibleRowsCount).toNat ((F.row y).set x.toNat color) := by
  have hrow : (F.set y x color).row y = (F.row y).set x.toNat color := by
    apply List.ext_getElem?
    intro k
    rw [List.getElem?_set, Field.length_row, Field.row, Field.row, List.getElem?_map,
      List.getElem?_map]
    have h10 : boardWidth.toNat = 10 := rfl
    by_cases hk : k < 10
    · rw [h10, List.getElem?_range hk, Option.map_some, Option.map_some, Field.set]
      by_cases hx : x.toNat = k
      · rw [if_pos hx, if_pos (by omega), if_pos (by omega)]
      · rw [if_neg hx, if_neg (by omega)]
    · rw [List.getElem?_eq_none (by rw [List.length_range, h10]; omega)]
      split_ifs <;> first | omega | rfl
  apply List.ext_getElem?
  intro k
  rw [List.getElem?_set, Field.length_rows]
  by_cases hk : k < 20
  · rw [Field.getElem?_rows _ hk, Field.getElem?_rows _ hk]
    by_cases hyk : (y - invisibleRowsCount).toNat = k
    · have hy' : invisibleRowsCount + (k : Int) = y := by omega
      rw [if_pos hyk, if_pos (by omega), hy', hrow]
    · rw [if_neg hyk, Option.some.injEq]
      refine Field.row_congr fun x' _ _ => ?_
      rw [Field.set, if_neg (by omega)]
  · rw [List.getElem?_eq_none (by simpa using hk), List.getElem?_eq_none (by simpa using hk)]
    split_ifs <;> first | omega | rfl

/-- A block more. -/
theorem Field.count_set (F : Field) {y x : Int} (h : OnBoard y x) (hy : invisibleRowsCount ≤ y)
    (hempty : F y x = emptyField) {color : BitVec 8} (hcolor : color ≠ emptyField) :
    (F.set y x color).count = F.count + 1 := by
  have hk : (y - invisibleRowsCount).toNat < 20 := by
    have : boardHeight = 22 ∧ invisibleRowsCount = 2 := ⟨rfl, rfl⟩
    have := h.2.1
    omega
  have hrow : F.rows[(y - invisibleRowsCount).toNat]? = some (F.row y) := by
    rw [Field.getElem?_rows F hk]
    congr 2
    omega
  have hcell := F.getElem?_row y h.2.2.1 h.2.2.2
  obtain ⟨hlt, hget⟩ := List.getElem?_eq_some_iff.mp hcell
  rw [Field.count, Field.count, Field.rows_set F h hy]
  refine sum_map_set blocks hrow ?_
  rw [blocks, blocks, List.countP_set hlt, hget, hempty, if_neg (by decide),
    if_pos (by simpa using hcolor), Nat.sub_zero]

/-- As many blocks more as there are squares. -/
theorem Field.count_paint (F : Field) {cells : List Point} (hnodup : cells.Nodup)
    {color : BitVec 8} (hcolor : color ≠ emptyField)
    (h : ∀ q ∈ cells, OnBoard q.y q.x ∧ invisibleRowsCount ≤ q.y ∧ F q.y q.x = emptyField) :
    (F.paint cells color).count = F.count + cells.length := by
  induction cells generalizing F with
  | nil => rw [Field.paint_nil, List.length_nil, Nat.add_zero]
  | cons q cells ih =>
    obtain ⟨hq, hnodup⟩ := List.nodup_cons.mp hnodup
    obtain ⟨hon, hy, hempty⟩ := h q List.mem_cons_self
    rw [Field.paint_cons, ih (F.set q.y q.x color) hnodup, F.count_set hon hy hempty hcolor, List.length_cons]
    · omega
    · -- the squares that are left are other ones
      intro q' hq'
      obtain ⟨hon', hy', hempty'⟩ := h q' (List.mem_cons_of_mem q hq')
      refine ⟨hon', hy', ?_⟩
      rw [Field.set, if_neg, hempty']
      rintro ⟨hyy, hxx⟩
      apply hq
      obtain ⟨qx, qy⟩ := q
      obtain ⟨qx', qy'⟩ := q'
      dsimp only at hyy hxx
      rwa [← hyy, ← hxx]

/-- A full row has a block in each column. -/
theorem blocks_of_isFull {row : List (BitVec 8)} (h : isFull row = true) :
    blocks row = row.length := by
  rw [blocks, List.countP_eq_length]
  exact fun a ha => List.all_eq_true.mp h a ha

/-- Where the lowest invisible row is empty, each line that goes out takes ten blocks with it. -/
theorem Field.count_clear (F : Field)
    (hempty : F.row (invisibleRowsCount - 1) = List.replicate 10 emptyField) :
    F.clear.count + 10 * F.rows.countP isFull = F.count := by
  have hfull : ((F.rows.filter isFull).map blocks).sum = 10 * F.rows.countP isFull := by
    have hten : ∀ row ∈ F.rows.filter isFull, blocks row = 10 := by
      intro row hrow
      obtain ⟨hmem, hisFull⟩ := List.mem_filter.mp hrow
      obtain ⟨k, -, rfl⟩ := List.mem_map.mp hmem
      rw [blocks_of_isFull hisFull, Field.length_row]
    rw [List.map_congr_left hten, List.countP_eq_length_filter]
    simp [Nat.mul_comm]
  rw [Field.count, Field.count, Field.rows_clear, ← hfull]
  refine sum_map_compact blocks ?_ F.rows
  rw [hempty]
  decide

namespace Game

variable {g : Game}

theorem picture_eq_paint (g : Game) : g.picture = g.stack.paint g.piece.cells g.piece.color := by
  funext y x
  rw [Field.paint_apply, picture]

/-- **Settling.**  The stack has the four blocks of the piece more, and ten less for each line that
    has gone out. -/
theorem count_settle (h : g.WellFormed) (hout : ¬ g.SticksOut) :
    g.settle.stack.count + 10 * g.picture.rows.countP isFull = g.stack.count + 4 := by
  have hcolor : g.piece.color ≠ emptyField := g.piece.kind.color_ne_zero
  show g.picture.clear.count + _ = _
  rw [Field.count_clear _ (h.picture_row hout), picture_eq_paint,
    Field.count_paint _ g.piece.cells_nodup hcolor, Piece.cells_length]
  intro q hq
  obtain ⟨hon, hempty⟩ := h.fits q hq
  exact ⟨hon, visible_of_not_sticksOut hout hq, hempty⟩

/-- A line that is full has a part of the piece in it, so there are four of them at most. -/
theorem cleared_le_four (h : g.WellFormed) : g.picture.rows.countP isFull ≤ 4 := by
  rw [Field.rows, List.countP_map, List.countP_eq_length_filter]
  let full := (List.range (boardHeight - invisibleRowsCount).toNat).filter
    (isFull ∘ fun (k : Nat) => g.picture.row (invisibleRowsCount + k))
  let touched := g.piece.cells.map fun q => (q.y - invisibleRowsCount).toNat
  have hsub : full ⊆ touched := by
    intro k hk
    obtain ⟨hlt, hfull⟩ := List.mem_filter.mp hk
    by_contra hnot
    -- no part of the piece is in the row, so it is a row of the stack
    have hrow : g.picture.row (invisibleRowsCount + k) = g.stack.row (invisibleRowsCount + k) := by
      refine Field.row_congr fun x _ _ => ?_
      rw [picture, if_neg]
      intro hq
      refine hnot (List.mem_map.mpr ⟨_, hq, ?_⟩)
      dsimp only
      omega
    have hstack := h.noFull _ (List.mem_map.mpr ⟨k, hlt, rfl⟩)
    rw [Function.comp_apply, hrow, hstack] at hfull
    exact absurd hfull (by decide)
  have hle := ((List.nodup_range.filter _).subperm hsub).length_le
  rwa [List.length_map, Piece.cells_length] at hle

end Game

end HtcLeo.Tetris

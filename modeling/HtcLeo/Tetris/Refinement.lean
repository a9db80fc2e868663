import HtcLeo.Tetris.Game

namespace HtcLeo.Tetris

/-!
# TetrisApp — the board plays the game

Every operation of `Board.c` does to the array and the screen what the game does to its stack and
its piece.  It never stores outside of the array, no `ASSERT` fails, and its loops end.

* `Represents g b` — the board `b` stands for the game `g`: the fields are the stack with the piece
  in it, and the screen shows them.
* `movePieceSideways_refines`, `rotatePiece_refines`, `movePieceDown_refines`,
  `dropPiece_refines` — the operations, one by one.
-/

/-! ### The piece in the array -/

/-- The visible ones of the squares in one colour. -/
def Field.redrawAll (F : Field) (cells : List Point) (color : BitVec 8) : Field :=
  cells.foldl (fun F q => F.redraw q.y q.x color) F

theorem Field.redrawAll_apply (F : Field) (cells : List Point) (color : BitVec 8) (y x : Int) :
    F.redrawAll cells color y x =
      if (⟨x, y⟩ : Point) ∈ cells ∧ invisibleRowsCount ≤ y then color else F y x := by
  induction cells generalizing F with
  | nil => rfl
  | cons q cells ih =>
    obtain ⟨qx, qy⟩ := q
    have hcons : F.redrawAll (⟨qx, qy⟩ :: cells) color = (F.redraw qy qx color).redrawAll cells color :=
      rfl
    rw [hcons, ih]
    by_cases hmem : (⟨x, y⟩ : Point) ∈ cells ∧ invisibleRowsCount ≤ y
    · rw [if_pos hmem, if_pos ⟨List.mem_cons_of_mem _ hmem.1, hmem.2⟩]
    · rw [if_neg hmem, Field.redraw]
      by_cases hy : invisibleRowsCount ≤ qy
      · rw [if_pos hy, Field.set]
        refine if_congr ⟨?_, ?_⟩ rfl rfl
        · rintro ⟨rfl, rfl⟩
          exact ⟨List.mem_cons_self, hy⟩
        · rintro ⟨hq, hvisible⟩
          rcases List.mem_cons.mp hq with hq | hq
          · exact ⟨congrArg Point.y hq, congrArg Point.x hq⟩
          · exact absurd ⟨hq, hvisible⟩ hmem
      · rw [if_neg hy, if_neg]
        rintro ⟨hq, hvisible⟩
        rcases List.mem_cons.mp hq with hq | hq
        · have : y = qy := congrArg Point.y hq
          omega
        · exact hmem ⟨hq, hvisible⟩

theorem activePiece_of (b : Board) : activePiece b = (some b.activePiece, b) := rfl

theorem forM_storeField (pos : Point) (color : BitVec 8) (l : List Point)
    (h : ∀ q ∈ l, OnBoard (q.y + pos.y) (q.x + pos.x)) (b : Board) :
    forM l (fun q => storeField (q.y + pos.y) (q.x + pos.x) color) b =
      (some (), { b with
        fields := b.fields.paint (l.map fun q => ⟨q.x + pos.x, q.y + pos.y⟩) color }) := by
  induction l generalizing b with
  | nil => rfl
  | cons q l ih =>
    rw [List.forM_cons]
    refine Prog.bind_of (storeField_of (h q List.mem_cons_self) color b) ?_
    rw [ih fun q' hq' => h q' (List.mem_cons_of_mem q hq')]
    rfl

/-- `markFieldsOccupiedByPiece` of a piece on the board. -/
theorem markFieldsOccupiedByPiece_of {b : Board} (h : ∀ q ∈ b.activePiece.cells, OnBoard q.y q.x)
    (color : BitVec 8) :
    markFieldsOccupiedByPiece color b =
      (some (), { b with fields := b.fields.paint b.activePiece.cells color }) := by
  refine Prog.bind_of (activePiece_of b) ?_
  refine forM_storeField _ _ _ (fun q hq => ?_) b
  exact h ⟨q.x + b.activePiece.pos.x, q.y + b.activePiece.pos.y⟩
    (List.mem_map.mpr ⟨q, hq, rfl⟩)

theorem forM_redrawField {b : Board} (pos : Point) (color : BitVec 8) (l : List Point)
    (h : ∀ q ∈ l, OnBoard (q.y + pos.y) (q.x + pos.x)) (F P : Field) :
    Prog.Completes (Painted b F P)
      (forM l fun q => redrawField (q.x + pos.x) (q.y + pos.y) color)
      (fun _ => Painted b (F.redrawAll (l.map fun q => ⟨q.x + pos.x, q.y + pos.y⟩) color)
        (P.redrawAll (l.map fun q => ⟨q.x + pos.x, q.y + pos.y⟩) color)) := by
  induction l generalizing F P with
  | nil => exact Prog.Completes.pure fun b' hb' => hb'
  | cons q l ih =>
    rw [List.forM_cons]
    refine Prog.Completes.bind (redrawField_spec (h q List.mem_cons_self) color) fun _ => ?_
    exact ih (fun q' hq' => h q' (List.mem_cons_of_mem q hq')) _ _

/-- `drawFieldsOccupiedByPiece` of a piece on the board. -/
theorem drawFieldsOccupiedByPiece_spec {b : Board}
    (h : ∀ q ∈ b.activePiece.cells, OnBoard q.y q.x) (color : BitVec 8) (F P : Field) :
    Prog.Completes (Painted b F P) (drawFieldsOccupiedByPiece color)
      (fun _ => Painted b (F.redrawAll b.activePiece.cells color)
        (P.redrawAll b.activePiece.cells color)) := by
  intro b' hb'
  have hpiece : b'.activePiece = b.activePiece := by rw [hb'.1]
  obtain ⟨_, b'', hrun, hb''⟩ := forM_redrawField b.activePiece.pos color b.activePiece.body
    (fun q hq => h ⟨q.x + b.activePiece.pos.x, q.y + b.activePiece.pos.y⟩
      (List.mem_map.mpr ⟨q, hq, rfl⟩)) F P b' hb'
  refine ⟨(), b'', Prog.bind_of (activePiece_of b') ?_, hb''⟩
  rw [hpiece]
  exact hrun

/-! ### Boards and games -/

/-- The board and the game agree on all but the array and the screen. -/
structure Agrees (g : Game) (b : Board) : Prop where
  piece : b.activePiece = g.piece
  next : b.nextPiece = g.next
  blocked : b.blocked = g.ended
  level : b.level = g.level
  lines : b.lines = BitVec.ofNat 32 g.lines
  score : b.score = g.score
  seed : b.previousValue = g.seed

/-- **Representation.**  The fields are the stack with the piece in it, and the screen shows them;
    what the array has for a part of the piece in the invisible rows does not matter. -/
structure Represents (g : Game) (b : Board) : Prop where
  agrees : Agrees g b
  outside : ∀ y x, OnBoard y x → (⟨x, y⟩ : Point) ∉ g.piece.cells → b.fields y x = g.stack y x
  inside : ∀ q ∈ g.piece.cells, invisibleRowsCount ≤ q.y → b.fields q.y q.x = g.piece.color
  shows : Shows b.screen g.picture

/-- The piece is out of the array, and the screen shows `P`. -/
structure Lifted (g : Game) (P : Field) (b : Board) : Prop where
  agrees : Agrees g b
  fields : b.fields.Same g.stack
  shows : Shows b.screen P

/-- The array has the whole piece. -/
def Marked (g : Game) (b : Board) : Prop := Represents g b ∧ b.fields.Same g.picture

variable {g : Game}

theorem Game.WellFormed.onBoard (h : g.WellFormed) {q : Point} (hq : q ∈ g.piece.cells) :
    OnBoard q.y q.x := (h.fits q hq).1

/-- The piece is taken out of the array. -/
theorem lift_spec (h : g.WellFormed) :
    Prog.Completes (Represents g) (markFieldsOccupiedByPiece emptyField)
      (fun _ => Lifted g g.picture) := by
  intro b hb
  have hpiece := hb.agrees.piece
  refine ⟨(), _, markFieldsOccupiedByPiece_of (fun q hq => h.onBoard (hpiece ▸ hq)) _,
    ⟨hb.agrees.1, hb.agrees.2, hb.agrees.3, hb.agrees.4, hb.agrees.5, hb.agrees.6, hb.agrees.7⟩,
    ?_, hb.shows⟩
  intro y x hyx
  show b.fields.paint b.activePiece.cells emptyField y x = _
  rw [hpiece, Field.paint_apply]
  split_ifs with hq
  · exact (h.fits _ hq).2.symm
  · exact hb.outside y x hyx hq

/-- The piece is put into the array, where the screen shows it already. -/
theorem mark_of {b : Board} (h : g.WellFormed) (hagrees : Agrees g b)
    (houtside : ∀ y x, OnBoard y x → (⟨x, y⟩ : Point) ∉ g.piece.cells →
      b.fields y x = g.stack y x) (hshows : Shows b.screen g.picture) :
    ∃ b', markFieldsOccupiedByPiece b.activePiece.color b = (some (), b') ∧ Marked g b' := by
  have hpiece := hagrees.piece
  refine ⟨_, markFieldsOccupiedByPiece_of (fun q hq => h.onBoard (hpiece ▸ hq)) _, ?_⟩
  have hfields : ∀ y x, OnBoard y x →
      b.fields.paint b.activePiece.cells b.activePiece.color y x = g.picture y x := by
    intro y x hyx
    rw [hpiece, Field.paint_apply, Game.picture]
    split_ifs with hq
    · rfl
    · exact houtside y x hyx hq
  refine ⟨⟨⟨hagrees.1, hagrees.2, hagrees.3, hagrees.4, hagrees.5, hagrees.6, hagrees.7⟩, ?_, ?_,
    hshows⟩, hfields⟩
  · intro y x hyx hq
    refine (hfields y x hyx).trans ?_
    rw [Game.picture, if_neg hq]
  · intro q hq _
    refine (hfields q.y q.x (h.onBoard hq)).trans ?_
    rw [Game.picture, if_pos hq]

/-- `markFieldsOccupiedByPiece( this, this->activePiece->color )`. -/
theorem mark_spec (h : g.WellFormed) :
    Prog.Completes (fun b => Lifted g g.picture b ∨ Represents g b)
      (do markFieldsOccupiedByPiece (← activePiece).color) (fun _ => Marked g) := by
  rintro b (hb | hb)
  · obtain ⟨b', hrun, hb'⟩ := mark_of h hb.agrees (fun y x hyx _ => hb.fields y x hyx) hb.shows
    exact ⟨(), b', Prog.bind_of (activePiece_of b) hrun, hb'⟩
  · obtain ⟨b', hrun, hb'⟩ := mark_of h hb.agrees hb.outside hb.shows
    exact ⟨(), b', Prog.bind_of (activePiece_of b) hrun, hb'⟩

/-- `isMovePossible`, with the piece out of the array, says whether the piece fits there. -/
theorem isMovePossible_spec (P : Field) (x y : Int) :
    Prog.Completes (Lifted g P) (isMovePossible x y)
      (fun r b => r = decide (g.Fits (g.piece.shift x y)) ∧ Lifted g P b) := by
  refine Prog.Completes.query fun b hb => ⟨?_, hb⟩
  rw [Bool.eq_iff_iff, decide_eq_true_iff, List.all_eq_true, hb.agrees.piece]
  have hcell : ∀ q : Point,
      (!(decide (q.x + g.piece.pos.x + x < 0) || decide (q.x + g.piece.pos.x + x ≥ boardWidth) ||
        decide (q.y + g.piece.pos.y + y < 0) || decide (q.y + g.piece.pos.y + y ≥ boardHeight) ||
        b.fields (q.y + g.piece.pos.y + y) (q.x + g.piece.pos.x + x) != emptyField)) = true ↔
      OnBoard (q.y + g.piece.pos.y + y) (q.x + g.piece.pos.x + x) ∧
        g.stack (q.y + g.piece.pos.y + y) (q.x + g.piece.pos.x + x) = emptyField := by
    intro q
    by_cases hon : OnBoard (q.y + g.piece.pos.y + y) (q.x + g.piece.pos.x + x)
    · obtain ⟨hy, hyh, hx, hxw⟩ := hon
      rw [hb.fields _ _ ⟨hy, hyh, hx, hxw⟩]
      simp [OnBoard, hy, hyh, hx, hxw, not_lt.mpr hy, not_lt.mpr hx, not_le.mpr hyh,
        not_le.mpr hxw]
    · refine iff_of_false (fun hall => hon ?_) fun hall => hon hall.1
      simp only [Bool.not_eq_true', Bool.or_eq_false_iff, decide_eq_false_iff_not] at hall
      simp only [OnBoard]
      omega
  constructor
  · intro hall q hq
    simp only [Piece.cells, Piece.shift, List.mem_map] at hq
    obtain ⟨c, hc, rfl⟩ := hq
    have := (hcell c).mp (hall c hc)
    simpa only [Int.add_assoc] using this
  · intro hfits q hq
    refine (hcell q).mpr ?_
    have := hfits ⟨q.x + (g.piece.pos.x + x), q.y + (g.piece.pos.y + y)⟩
      (List.mem_map.mpr ⟨q, hq, rfl⟩)
    simpa only [Int.add_assoc] using this

/-! ### One operation after the other -/

theorem Agrees.painted {b b' : Board} {F P : Field} (h : Agrees g b) (hb' : Painted b F P b') :
    Agrees g b' := by
  rw [hb'.1]
  exact ⟨h.1, h.2, h.3, h.4, h.5, h.6, h.7⟩

theorem activePiece_spec {Q : Board → Prop} (h : ∀ b, Q b → Agrees g b) :
    Prog.Completes Q activePiece (fun p b => p = g.piece ∧ Q b) :=
  Prog.Completes.query fun b hb => ⟨(h b hb).piece, hb⟩

theorem setActivePiece_spec (P : Field) (p : Piece) :
    Prog.Completes (Lifted g P) (setActivePiece p) (fun _ => Lifted { g with piece := p } P) :=
  Prog.Completes.modify fun _ hb =>
    ⟨⟨rfl, hb.agrees.2, hb.agrees.3, hb.agrees.4, hb.agrees.5, hb.agrees.6, hb.agrees.7⟩,
      hb.fields, hb.shows⟩

/-- The piece goes from the screen. -/
theorem erase_spec (h : g.WellFormed) :
    Prog.Completes (Lifted g g.picture) (drawFieldsOccupiedByPiece emptyField)
      (fun _ => Lifted g g.stack) := by
  intro b hb
  have hpiece := hb.agrees.piece
  obtain ⟨_, b', hrun, hb'⟩ := drawFieldsOccupiedByPiece_spec
    (fun q hq => h.onBoard (hpiece ▸ hq)) emptyField g.stack g.picture b ⟨rfl, hb.fields, hb.shows⟩
  refine ⟨(), b', hrun, hb.agrees.painted hb', hb'.2.1.trans ?_, hb'.2.2.congr ?_⟩
  · intro y x _
    rw [hpiece, Field.redrawAll_apply]
    split_ifs with hq
    · exact (h.fits _ hq.1).2.symm
    · rfl
  · intro y x _ hy
    rw [hpiece, Field.redrawAll_apply, Game.picture]
    by_cases hq : (⟨x, y⟩ : Point) ∈ g.piece.cells
    · rw [if_pos ⟨hq, hy⟩]
      exact (h.fits _ hq).2.symm
    · rw [if_neg (fun hand => hq hand.1), if_neg hq]

/-- And it comes on the screen again, and so into the array. -/
theorem draw_spec (h : g.WellFormed) :
    Prog.Completes (Lifted g g.stack) (drawFieldsOccupiedByPiece g.piece.color)
      (fun _ => Represents g) := by
  intro b hb
  have hpiece := hb.agrees.piece
  obtain ⟨_, b', hrun, hb'⟩ := drawFieldsOccupiedByPiece_spec
    (fun q hq => h.onBoard (hpiece ▸ hq)) g.piece.color g.stack g.stack b ⟨rfl, hb.fields, hb.shows⟩
  rw [hpiece] at hb'
  refine ⟨(), b', hrun, hb.agrees.painted hb', ?_, ?_, hb'.2.2.congr ?_⟩
  · intro y x hyx hq
    rw [hb'.2.1 y x hyx, Field.redrawAll_apply, if_neg (fun hand => hq hand.1)]
  · intro q hq hy
    rw [hb'.2.1 q.y q.x (h.onBoard hq), Field.redrawAll_apply, if_pos ⟨hq, hy⟩]
  · intro y x _ hy
    rw [Field.redrawAll_apply, Game.picture]
    exact if_congr (and_iff_left hy) rfl rfl

/-- The piece goes from its place to another one that is free, on the screen too. -/
theorem become_spec {α : Type} (h : g.WellFormed) {f : Piece → Piece} (hfits : g.Fits (f g.piece))
    {k : Unit → Prog Board α} {Q : α → Board → Prop}
    (hk : Prog.Completes (Represents { g with piece := f g.piece }) (k ()) Q) :
    Prog.Completes (Lifted g g.picture)
      (do drawFieldsOccupiedByPiece emptyField
          setActivePiece (f (← activePiece))
          let r ← drawFieldsOccupiedByPiece (← activePiece).color
          k r) Q := by
  have h' : ({ g with piece := f g.piece } : Game).WellFormed :=
    ⟨hfits, h.invisible, h.noFull, h.next⟩
  refine Prog.Completes.bind (erase_spec h) fun _ => ?_
  refine Prog.Completes.bind_eq (activePiece_spec fun _ hb => hb.agrees) ?_
  refine Prog.Completes.bind (setActivePiece_spec g.stack (f g.piece)) fun _ => ?_
  refine Prog.Completes.bind_eq (activePiece_spec fun _ hb => hb.agrees) ?_
  exact Prog.Completes.bind (draw_spec h') fun _ => hk

/-- **Left and right.** -/
theorem movePieceSideways_refines (h : g.WellFormed) (dx : Int) :
    Prog.Completes (Represents g) (movePieceSideways dx)
      (fun _ => Represents (g.sideways dx)) := by
  refine Prog.Completes.bind (lift_spec h) fun _ => ?_
  refine Prog.Completes.bind_eq (isMovePossible_spec _ dx 0) ?_
  have hsideways := h.sideways dx
  by_cases hfits : g.Fits (g.piece.shift dx 0)
  · have hmove : g.sideways dx = { g with piece := g.piece.shift dx 0 } := if_pos hfits
    rw [hmove] at hsideways ⊢
    rw [decide_eq_true hfits]
    exact become_spec h hfits ((mark_spec hsideways).mono (fun _ hb => Or.inr hb)
      fun _ _ hb => hb.1)
  · have hmove : g.sideways dx = g := if_neg hfits
    rw [hmove, decide_eq_false hfits]
    exact (mark_spec h).mono (fun _ hb => Or.inl hb) fun _ _ hb => hb.1

/-- **Turning.** -/
theorem rotatePiece_refines (h : g.WellFormed) :
    Prog.Completes (Represents g) rotatePiece (fun _ => Represents g.rotate) := by
  refine Prog.Completes.bind (lift_spec h) fun _ => ?_
  refine Prog.Completes.bind_eq (activePiece_spec fun _ hb => hb.agrees) ?_
  refine Prog.Completes.bind (setActivePiece_spec g.picture g.piece.rotateCW) fun _ => ?_
  refine Prog.Completes.bind_eq (isMovePossible_spec _ 0 0) ?_
  -- whether it fits or not, the piece is turned back first
  have hback := setActivePiece_spec (g := { g with piece := g.piece.rotateCW }) g.picture
    g.piece.rotateCW.rotateCCW
  rw [Piece.rotateCCW_rotateCW] at hback
  have hagrees : ∀ b, Lifted { g with piece := g.piece.rotateCW } g.picture b →
      Agrees { g with piece := g.piece.rotateCW } b := fun _ hb => hb.agrees
  by_cases hfits : g.Fits g.piece.rotateCW
  · have hmove : g.rotate = { g with piece := g.piece.rotateCW } := if_pos hfits
    have hshift : ({ g with piece := g.piece.rotateCW } : Game).Fits
        (g.piece.rotateCW.shift 0 0) := by
      simpa only [Piece.shift_zero, Game.fits_with] using hfits
    rw [hmove, decide_eq_true hshift]
    refine Prog.Completes.bind_eq (activePiece_spec hagrees) ?_
    dsimp only
    rw [Piece.rotateCCW_rotateCW]
    refine Prog.Completes.bind hback fun _ => ?_
    have := become_spec h hfits (k := pure) (Q := fun _ =>
      Represents { g with piece := g.piece.rotateCW }) (Prog.Completes.pure fun _ hb => hb)
    simpa only [bind_pure] using this
  · have hmove : g.rotate = g := if_neg hfits
    have hshift : ¬ ({ g with piece := g.piece.rotateCW } : Game).Fits
        (g.piece.rotateCW.shift 0 0) := by
      simpa only [Piece.shift_zero, Game.fits_with] using hfits
    rw [hmove, decide_eq_false hshift]
    refine Prog.Completes.bind_eq (activePiece_spec hagrees) ?_
    dsimp only
    rw [Piece.rotateCCW_rotateCW]
    refine Prog.Completes.bind hback fun _ => ?_
    exact (mark_spec h).mono (fun _ hb => Or.inl hb) fun _ _ hb => hb.1

/-! ### Coming to rest -/

theorem Field.Same.clear {F G : Field} (h : F.Same G) : F.clear.Same G.clear := by
  intro y x hyx
  rw [Field.clear, Field.clear, h.rows, h.row (by decide) (by decide)]
  split_ifs
  · rfl
  · exact h y x hyx

theorem isGameOver_spec :
    Prog.Completes (Marked g) isGameOver (fun r b => r = decide g.SticksOut ∧ Marked g b) := by
  refine Prog.Completes.query fun b hb => ⟨?_, hb⟩
  rw [Bool.eq_iff_iff, decide_eq_true_iff, List.any_eq_true, hb.1.agrees.piece, Game.SticksOut]
  simp only [Piece.cells, List.mem_map, decide_eq_true_iff]
  constructor
  · rintro ⟨q, hq, hy⟩
    exact ⟨_, ⟨q, hq, rfl⟩, hy⟩
  · rintro ⟨_, ⟨q, hq, rfl⟩, hy⟩
    exact ⟨q, hq, hy⟩

/-- The lines go out, and the next piece comes in. -/
theorem settle_spec (h : g.WellFormed) (hout : ¬ g.SticksOut) :
    Prog.Completes (Marked g)
      (do checkAndRemoveLines
          Prog.modify loadNextPiece)
      (fun _ => Represents g.settle) := by
  rintro b ⟨hb, hfields⟩
  have hrow : isFull (b.fields.row (invisibleRowsCount - 1)) = false := by
    rw [hfields.row (by decide) (by decide)]
    exact h.picture_row_not_full hout
  have hshow : Shows b.screen b.fields := hb.shows.congr fun y x hyx _ => (hfields y x hyx).symm
  obtain ⟨b', hrun, hb'⟩ := checkAndRemoveLines_spec hrow hshow
  have hclear : b'.fields.Same g.settle.stack := hb'.2.1.trans hfields.clear
  -- no part of the next piece is visible
  have hstart : ∀ q ∈ g.settle.piece.cells, q.y < invisibleRowsCount :=
    fun q hq => (Game.cells_start h.next hq).2
  have hlines : b.fields.rows = g.picture.rows := hfields.rows
  refine ⟨(), loadNextPiece b', Prog.bind_of hrun rfl, ⟨?_, ?_, ?_, ?_, ?_, ?_, ?_⟩, ?_, ?_, ?_⟩
  · rw [hb'.1]
    show ({ b.nextPiece with pos := pieceStartingPos } : Piece) = _
    rw [hb.agrees.next]
    rfl
  · rw [hb'.1]
    show b.activePiece.randomize (rand b.previousValue) = _
    rw [hb.agrees.piece, hb.agrees.seed]
    rfl
  · rw [hb'.1]
    exact hb.agrees.blocked
  · rw [hb'.1]
    exact hb.agrees.level
  · rw [hb'.1]
    show b.lines + BitVec.ofNat 32 (b.fields.rows.countP isFull) = _
    rw [hb.agrees.lines, hlines, ← BitVec.ofNat_add]
    rfl
  · rw [hb'.1]
    show b.score + linesScore b.level (b.fields.rows.countP isFull) = _
    rw [hb.agrees.score, hb.agrees.level, hlines]
    rfl
  · rw [hb'.1]
    show rand b.previousValue = _
    rw [hb.agrees.seed]
    rfl
  · exact fun y x hyx _ => hclear y x hyx
  · intro q hq hy
    have := hstart q hq
    omega
  · refine hb'.2.2.congr fun y x hyx hy => ?_
    rw [Game.picture, if_neg]
    · exact hfields.clear y x hyx
    · intro hq
      have := hstart _ hq
      dsimp only at this
      omega

theorem placePiece_spec (h : g.WellFormed) :
    Prog.Completes (Marked g) placePiece (fun _ => Represents g.land) := by
  refine Prog.Completes.bind_eq isGameOver_spec ?_
  unfold Game.land
  by_cases hout : g.SticksOut
  · rw [decide_eq_true hout, if_pos hout]
    refine Prog.Completes.modify fun b hb => ⟨?_, hb.1.outside, hb.1.inside, hb.1.shows⟩
    obtain ⟨hpiece, hnext, -, hlevel, hlines, hscore, hseed⟩ := hb.1.agrees
    exact ⟨hpiece, hnext, rfl, hlevel, hlines, hscore, hseed⟩
  · rw [decide_eq_false hout, if_neg hout]
    exact settle_spec h hout

/-- **Down.** -/
theorem movePieceDown_refines (h : g.WellFormed) :
    Prog.Completes (Represents g) movePieceDown
      (fun r b => r = decide g.CanFall ∧ Represents g.down b) := by
  refine Prog.Completes.bind (lift_spec h) fun _ => ?_
  refine Prog.Completes.bind_eq (isMovePossible_spec _ 0 1) ?_
  unfold Game.down
  by_cases hfall : g.CanFall
  · have hfits : g.Fits (g.piece.shift 0 1) := hfall
    rw [decide_eq_true hfits, decide_eq_true hfall, if_pos hfall]
    exact become_spec h hfits (Prog.Completes.pure fun _ hb => ⟨rfl, hb⟩)
  · have hfits : ¬ g.Fits (g.piece.shift 0 1) := hfall
    rw [decide_eq_false hfits, decide_eq_false hfall, if_neg hfall]
    have hland := Prog.Completes.bind ((mark_spec h).mono (R := Lifted g g.picture)
      (fun _ hb => Or.inl hb) fun _ _ hb => hb) fun _ =>
        Prog.Completes.bind (placePiece_spec h) fun _ =>
          Prog.Completes.pure (a := false) (Q := fun r b => r = false ∧ Represents g.land b)
            fun _ hb => ⟨rfl, hb⟩
    simpa only [bind_assoc, Bool.false_eq_true, if_false] using hland

/-- An iteration of the loop in `dropPiece`: the piece is `height` rows further down, and there are
    `left` more rows to fall. -/
theorem descend_spec (h : g.WellFormed) (left height : Nat) :
    Prog.Completes (fun b => height + left = g.fall ∧ Represents (g.lowered height) b)
      (descend height)
      (fun r b => Sum.elim
        (fun height' => ∃ m, m < left ∧ height' + m = g.fall ∧ Represents (g.lowered height') b)
        (fun height' => height' = g.fall ∧ Represents (g.lowered g.fall).land b) r) := by
  rintro b ⟨hleft, hb⟩
  have hheight : height ≤ g.fall := by omega
  obtain ⟨r, b', hrun, hr, hb'⟩ := movePieceDown_refines (h.lowered hheight) b hb
  have hfall := Game.canFall_lowered hheight
  unfold Game.down at hb'
  by_cases hlt : height < g.fall
  · rw [decide_eq_true (hfall.mpr hlt)] at hr
    rw [if_pos (hfall.mpr hlt)] at hb'
    subst hr
    refine ⟨.inl (height + 1), b', Prog.bind_of hrun rfl, left - 1, by omega, by omega, ?_⟩
    have hshift : (g.lowered height).piece.shift 0 1 = (g.lowered (height + 1)).piece := by
      simp [Game.lowered]
    rwa [hshift] at hb'
  · have hnot : ¬ (g.lowered height).CanFall := fun hcan => hlt (hfall.mp hcan)
    have heq : height = g.fall := by omega
    rw [decide_eq_false hnot] at hr
    rw [if_neg hnot, heq] at hb'
    subst hr
    exact ⟨.inr height, b', Prog.bind_of hrun rfl, heq, hb'⟩

/-- **Dropping.**  The loop ends. -/
theorem dropPiece_refines (h : g.WellFormed) :
    Prog.Completes (Represents g) dropPiece (fun _ => Represents g.drop) := by
  have hloop := Prog.Completes.loop
    (fun left height b => height + left = g.fall ∧ Represents (g.lowered height) b)
    (descend_spec h) h.fall_lt 0
  intro b hb
  obtain ⟨height, b', hrun, rfl, hb'⟩ := hloop b ⟨Nat.zero_add _, by simpa [Game.lowered] using hb⟩
  refine ⟨(), _, Prog.bind_of hrun rfl, ⟨?_, hb'.outside, hb'.inside, hb'.shows⟩⟩
  obtain ⟨hpiece, hnext, hblocked, hlevel, hlines, hscore, hseed⟩ := hb'.agrees
  refine ⟨hpiece, hnext, hblocked, hlevel, hlines, ?_, hseed⟩
  show b'.score + _ = _
  rw [hscore]
  rfl

/-! ### The start -/

/-- The game that `ConstructBoard` starts. -/
def Game.start (seed : U32) : Game :=
  let b := constructBoard seed
  { stack := fun _ _ => emptyField, piece := b.activePiece, next := b.nextPiece, ended := false,
    level := 1, placed := 0, lines := 0, score := 0, seed := b.previousValue }

theorem Game.start_wellFormed (seed : U32) : (Game.start seed).WellFormed := by
  have hstart : ∀ row ∈ Field.rows fun _ _ => emptyField, isFull row = false := by
    intro row hrow
    obtain ⟨k, -, rfl⟩ := List.mem_map.mp hrow
    rw [Game.row_empty fun _ _ _ => rfl]
    decide
  refine ⟨fun q hq => ⟨(Game.cells_start ?_ hq).1, rfl⟩, fun _ _ _ _ => rfl, hstart, rfl⟩
  rfl

theorem constructBoard_represents (seed : U32) :
    Represents (Game.start seed) (constructBoard seed) := by
  have hstart : ∀ q ∈ (Game.start seed).piece.cells, q.y < invisibleRowsCount :=
    fun q hq => (Game.cells_start (by rfl) hq).2
  refine ⟨⟨rfl, rfl, rfl, rfl, rfl, rfl, rfl⟩, fun _ _ _ _ => rfl, fun q hq hy => ?_, ?_⟩
  · have := hstart q hq
    omega
  · intro y x _ hy
    have hnot : (⟨x, y⟩ : Point) ∉ (Game.start seed).piece.cells := by
      intro hq
      have := hstart _ hq
      dsimp only at this
      omega
    rw [Game.picture, if_neg hnot]
    exact ⟨rfl, rfl⟩

end HtcLeo.Tetris

import HtcLeo.Lib.Compaction
import HtcLeo.Tetris.Board
import Mathlib.Data.List.GetD

namespace HtcLeo.Tetris

open Compaction

/-!
# TetrisApp — full lines

`checkAndRemoveLines` goes through the lines from the lowest one up, moves everything above a full
line down by one, and looks at the same line again.

* `Painted b F P` — the board `b` where the fields are `F`, and the screen shows `P`.
* `removeLine_spec` — one line out: what was above it has come down.
* `checkLines_spec` — the loop ends, and has taken out the full lines and no others.
* `Field.clear` — the fields without their full lines.
-/

/-! ### Fields and what is shown of them -/

/-- A square of the board. -/
abbrev OnBoard (y x : Int) : Prop := 0 ≤ y ∧ y < boardHeight ∧ 0 ≤ x ∧ x < boardWidth

/-- The two fields are the same, square by square. -/
def Field.Same (f g : Field) : Prop := ∀ y x, OnBoard y x → f y x = g y x

/-- The screen shows the visible rows of the field, two blocks a square. -/
def Shows (screen f : Field) : Prop :=
  ∀ y x, OnBoard y x → invisibleRowsCount ≤ y →
    screen (boardTopY - invisibleRowsCount + y) (boardTopX + 1 + 2 * x) = f y x ∧
    screen (boardTopY - invisibleRowsCount + y) (boardTopX + 1 + 2 * x + 1) = f y x

/-- A colour at a visible square. -/
def Field.redraw (f : Field) (y x : Int) (color : BitVec 8) : Field :=
  if invisibleRowsCount ≤ y then f.set y x color else f

theorem Field.Same.refl (f : Field) : f.Same f := fun _ _ _ => rfl

theorem Field.Same.symm {f g : Field} (h : f.Same g) : g.Same f :=
  fun y x hyx => (h y x hyx).symm

theorem Field.Same.trans {f g k : Field} (h : f.Same g) (h' : g.Same k) : f.Same k :=
  fun y x hyx => (h y x hyx).trans (h' y x hyx)

theorem Shows.congr {screen f g : Field} (h : Shows screen f)
    (hfg : ∀ y x, OnBoard y x → invisibleRowsCount ≤ y → f y x = g y x) : Shows screen g := by
  intro y x hyx hy
  rw [← hfg y x hyx hy]
  exact h y x hyx hy

/-- Two blocks more on the screen, and the field that has them too. -/
theorem Shows.set {screen f : Field} (h : Shows screen f) (y x : Int) (color : BitVec 8) :
    Shows
      ((screen.set (boardTopY - invisibleRowsCount + y) (boardTopX + 1 + 2 * x) color).set
        (boardTopY - invisibleRowsCount + y) (boardTopX + 1 + 2 * x + 1) color)
      (f.set y x color) := by
  intro y' x' hyx hy
  obtain ⟨hfirst, hsecond⟩ := h y' x' hyx hy
  simp only [Field.set]
  by_cases hsame : y' = y ∧ x' = x
  · obtain ⟨rfl, rfl⟩ := hsame
    constructor <;> split_ifs <;> first | rfl | omega
  · rw [if_neg hsame, if_neg (by omega), if_neg (by omega), if_neg (by omega), if_neg (by omega)]
    exact ⟨hfirst, hsecond⟩

/-- The board, but with the fields `F`, and `P` on the screen. -/
def Painted (b : Board) (F P : Field) (b' : Board) : Prop :=
  b' = { b with fields := b'.fields, screen := b'.screen } ∧ b'.fields.Same F ∧
    Shows b'.screen P

/-- The board, but with the fields `F`, which are those that the screen shows. -/
abbrev Drawn (b : Board) (F : Field) : Board → Prop := Painted b F F

theorem Drawn.congr {b : Board} {F G : Field} (hFG : F.Same G) (b' : Board) (h : Drawn b F b') :
    Drawn b G b' :=
  ⟨h.1, h.2.1.trans hFG, h.2.2.congr fun y x hyx _ => hFG y x hyx⟩

/-! ### Stores -/

theorem assertThat_of {c : Prop} [Decidable c] (hc : c) (b : Board) :
    assertThat c b = (some (), b) := by
  rw [assertThat, if_pos hc]

theorem storeField_of {y x : Int} (h : OnBoard y x) (color : BitVec 8) (b : Board) :
    storeField y x color b = (some (), { b with fields := b.fields.set y x color }) :=
  Prog.bind_of (assertThat_of h b) rfl

theorem loadField_of {y x : Int} (h : OnBoard y x) (b : Board) :
    loadField y x b = (some (b.fields y x), b) :=
  Prog.bind_of (assertThat_of h b) rfl

/-- What `redrawField` makes of a board. -/
def Board.redrawn (b : Board) (x y : Int) (color : BitVec 8) : Board :=
  if invisibleRowsCount ≤ y then
    { b with
      fields := b.fields.set y x color
      screen := (b.screen.set (boardTopY - invisibleRowsCount + y) (boardTopX + 1 + 2 * x)
        color).set (boardTopY - invisibleRowsCount + y) (boardTopX + 1 + 2 * x + 1) color }
  else b

theorem redrawField_of {y x : Int} (h : OnBoard y x) (color : BitVec 8) (b : Board) :
    redrawField x y color b = (some (), b.redrawn x y color) := by
  obtain ⟨hy, hyh, hx, hxw⟩ := h
  refine Prog.bind_of (assertThat_of ⟨hx, hxw⟩ b) (Prog.bind_of (assertThat_of ⟨hy, hyh⟩ b) ?_)
  unfold Board.redrawn
  by_cases hvisible : invisibleRowsCount ≤ y
  · rw [if_pos hvisible, if_pos hvisible]
    exact Prog.bind_of (storeField_of ⟨hy, hyh, hx, hxw⟩ color b) rfl
  · rw [if_neg hvisible, if_neg hvisible]
    rfl

theorem Field.Same.redraw {f g : Field} (h : f.Same g) (y x : Int) (color : BitVec 8) :
    (f.redraw y x color).Same (g.redraw y x color) := by
  intro y' x' hyx
  unfold Field.redraw Field.set
  split_ifs with hy
  · dsimp only
    rw [h y' x' hyx]
  · exact h y' x' hyx

theorem Painted.redrawn {b b' : Board} {F P : Field} (h : Painted b F P b') (x y : Int)
    (color : BitVec 8) :
    Painted b (F.redraw y x color) (P.redraw y x color) (b'.redrawn x y color) := by
  obtain ⟨hb, hF, hshow⟩ := h
  have hsame := hF.redraw y x color
  unfold Board.redrawn Field.redraw at *
  by_cases hy : invisibleRowsCount ≤ y
  · simp only [if_pos hy] at hsame ⊢
    refine ⟨?_, hsame, hshow.set y x color⟩
    rw [hb]
  · simp only [if_neg hy] at hsame ⊢
    exact ⟨hb, hsame, hshow⟩

theorem redrawField_spec {b : Board} {F P : Field} {y x : Int} (h : OnBoard y x)
    (color : BitVec 8) :
    Prog.Completes (Painted b F P) (redrawField x y color)
      fun _ => Painted b (F.redraw y x color) (P.redraw y x color) :=
  fun b' hb' => ⟨(), _, redrawField_of h color b', hb'.redrawn x y color⟩

/-! ### One line out -/

/-- Row `j` with the colours `g` in its first `k` columns. -/
def Field.fillRow (F : Field) (j : Int) (g : Int → BitVec 8) (k : Int) : Field :=
  fun y x => if y = j ∧ invisibleRowsCount ≤ j ∧ x < k then g x else F y x

/-- A loop over the columns that draws row `j`. -/
theorem fillRow_spec {b : Board} {F : Field} {j : Int} {g : Int → BitVec 8}
    {body : Nat → Prog Board Unit}
    (h : ∀ k < boardWidth.toNat, Prog.Completes (Drawn b (F.fillRow j g k)) (body k)
      fun _ => Drawn b ((F.fillRow j g k).redraw j k (g k))) :
    Prog.Completes (Drawn b F) (forM (List.range boardWidth.toNat) body)
      fun _ => Drawn b (F.fillRow j g boardWidth) := by
  refine (Prog.Completes.forM_range (fun k => Drawn b (F.fillRow j g k)) boardWidth.toNat
    ?_).mono ?_ fun _ b' hb' => hb'
  · intro k hk
    refine (h k hk).mono (fun _ hb' => hb') fun _ => Drawn.congr ?_
    intro y x hyx
    -- the square that was drawn is the one that the next count adds
    simp only [Field.redraw, Nat.cast_add, Nat.cast_one]
    by_cases hvisible : invisibleRowsCount ≤ j
    · by_cases hyj : y = j
      · by_cases hx : x = k
        · simp [Field.set, Field.fillRow, hvisible, hyj, hx]
        · have hiff : x < (k : Int) + 1 ↔ x < k := by omega
          simp [Field.set, Field.fillRow, hvisible, hyj, hx, hiff]
      · simp [Field.set, Field.fillRow, hvisible, hyj]
    · simp [Field.fillRow, hvisible]
  · refine fun b' => Drawn.congr ?_ b'
    intro y x hyx
    rw [Field.fillRow, if_neg]
    rintro ⟨-, -, hx⟩
    exact absurd hyx.2.2.1 (by omega)

/-- The field after the iterations for the rows `i`, ..., `i - n + 1`. -/
def Field.partShift (F : Field) (i n : Int) : Field :=
  fun y x => if invisibleRowsCount ≤ y ∧ i - n < y ∧ y ≤ i then F (y - 1) x else F y x

/-- The field without row `i`: the rows above it have come down.  Nothing comes down to the
    invisible rows. -/
def Field.shift (F : Field) (i : Int) : Field :=
  fun y x => if invisibleRowsCount ≤ y ∧ y ≤ i then F (y - 1) x else F y x

/-- **One line out.** -/
theorem removeLine_spec {b : Board} {F : Field} {i : Int} (hi : invisibleRowsCount ≤ i)
    (hih : i < boardHeight) :
    Prog.Completes (Drawn b F) (removeLine i) fun _ => Drawn b (F.shift i) := by
  have h2 : invisibleRowsCount = 2 := rfl
  -- the line is drawn black
  refine Prog.Completes.bind (M := fun _ => Drawn b (F.fillRow i (fun _ => emptyField) boardWidth))
    (fillRow_spec fun k hk => ?_) fun _ => ?_
  · exact redrawField_spec ⟨by omega, hih, by omega, by omega⟩ emptyField
  generalize hE : F.fillRow i (fun _ => emptyField) boardWidth = E
  have habove : ∀ y x, y ≠ i → E y x = F y x := by
    intro y x hy
    rw [← hE, Field.fillRow, if_neg (fun h => hy h.1)]
  -- and every row from it upwards becomes the one above
  refine (Prog.Completes.forM_range (fun n => Drawn b (E.partShift i n)) i.toNat ?_).mono
    (fun b' => Drawn.congr ?_ b') fun _ => Drawn.congr ?_
  · intro n hn
    have hj : 0 < i - n ∧ i - n ≤ i := by omega
    refine (fillRow_spec (j := i - n) (g := fun x => E (i - n - 1) x) fun k hk => ?_).mono (fun _ hb' => hb') fun _ => Drawn.congr ?_
    · intro b' hb'
      have hload : OnBoard (i - n - 1) k := ⟨by omega, by omega, by omega, by omega⟩
      have hcolor : b'.fields (i - n - 1) k = E (i - n - 1) k := by
        rw [hb'.2.1 _ _ hload, Field.fillRow, if_neg (by omega), Field.partShift,
          if_neg (by omega)]
      refine ⟨(), _, Prog.bind_of (loadField_of hload b')
        (redrawField_of ⟨by omega, by omega, hload.2.2⟩ _ b'), ?_⟩
      rw [hcolor]
      exact hb'.redrawn _ _ _
    · intro y x hyx
      simp only [Field.fillRow, Field.partShift, Nat.cast_add, Nat.cast_one]
      by_cases hy : y = i - n
      · subst hy
        by_cases hvisible : invisibleRowsCount ≤ i - n
        · rw [if_pos ⟨rfl, hvisible, hyx.2.2.2⟩, if_pos (by omega)]
        · rw [if_neg (by omega), if_neg (by omega), if_neg (by omega)]
      · rw [if_neg (fun h => hy h.1)]
        by_cases hin : invisibleRowsCount ≤ y ∧ i - n < y ∧ y ≤ i
        · rw [if_pos hin, if_pos (by omega)]
        · rw [if_neg hin, if_neg (by omega)]
  · intro y x hyx
    rw [Field.partShift, if_neg (by omega)]
  · intro y x hyx
    rw [Field.partShift, Field.shift]
    by_cases hin : invisibleRowsCount ≤ y ∧ y ≤ i
    · rw [if_pos hin, if_pos (by omega), habove _ _ (by omega)]
    · rw [if_neg hin, if_neg (by omega), habove _ _ (by omega)]

/-! ### Rows -/

/-- Row `y`, column by column. -/
def Field.row (F : Field) (y : Int) : List (BitVec 8) :=
  (List.range boardWidth.toNat).map fun (x : Nat) => F y x

/-- The visible rows, from the top. -/
def Field.rows (F : Field) : List (List (BitVec 8)) :=
  (List.range (boardHeight - invisibleRowsCount).toNat).map fun (k : Nat) =>
    F.row (invisibleRowsCount + k)

/-- There is no empty field in the row. -/
def isFull (row : List (BitVec 8)) : Bool := row.all (· != emptyField)

@[simp] theorem Field.length_row (F : Field) (y : Int) : (F.row y).length = 10 := by
  rw [Field.row, List.length_map, List.length_range]
  rfl

@[simp] theorem Field.length_rows (F : Field) : F.rows.length = 20 := by
  rw [Field.rows, List.length_map, List.length_range]
  rfl

theorem Field.getElem?_rows (F : Field) {k : Nat} (hk : k < 20) :
    F.rows[k]? = some (F.row (invisibleRowsCount + k)) := by
  have h20 : (boardHeight - invisibleRowsCount).toNat = 20 := rfl
  rw [Field.rows, h20, List.getElem?_map, List.getElem?_range hk]
  rfl

theorem Field.row_congr {F G : Field} {y y' : Int}
    (h : ∀ x, 0 ≤ x → x < boardWidth → F y x = G y' x) : F.row y = G.row y' := by
  refine List.map_congr_left fun x hx => ?_
  rw [List.mem_range] at hx
  exact h x (by omega) (by omega)

theorem Field.Same.row {F G : Field} (h : F.Same G) {y : Int} (hy : 0 ≤ y)
    (hyh : y < boardHeight) : F.row y = G.row y :=
  Field.row_congr fun x hx hxw => h y x ⟨hy, hyh, hx, hxw⟩

theorem Field.Same.rows {F G : Field} (h : F.Same G) : F.rows = G.rows := by
  refine List.map_congr_left fun k hk => ?_
  rw [List.mem_range] at hk
  have h2 : invisibleRowsCount = 2 := rfl
  exact h.row (by omega) (by omega)

/-- In the list of rows, a line that goes out is taken out, and the lowest invisible row comes in
    at the top. -/
theorem Field.rows_shift (F : Field) {n : Nat} (hn : n < 20) :
    (F.shift (invisibleRowsCount + n)).rows = F.row (invisibleRowsCount - 1) :: F.rows.eraseIdx n := by
  have h2 : invisibleRowsCount = 2 := rfl
  apply List.ext_getElem?
  intro k
  by_cases hk : k < 20
  · rw [Field.getElem?_rows _ hk]
    cases k with
    | zero =>
      rw [List.getElem?_cons_zero, Option.some.injEq]
      refine Field.row_congr fun x _ _ => ?_
      rw [Field.shift, if_pos (by omega)]
      congr 1
    | succ k =>
      rw [List.getElem?_cons_succ, List.getElem?_eraseIdx]
      by_cases hkn : k < n
      · -- a row above the one that goes out
        rw [if_pos hkn, Field.getElem?_rows _ (by omega), Option.some.injEq]
        refine Field.row_congr fun x _ _ => ?_
        rw [Field.shift, if_pos (by omega)]
        congr 1
        omega
      · rw [if_neg hkn, Field.getElem?_rows _ hk, Option.some.injEq]
        refine Field.row_congr fun x _ _ => ?_
        rw [Field.shift, if_neg (by omega)]
  · rw [List.getElem?_eq_none (by rw [Field.length_rows]; omega), List.getElem?_eq_none]
    rw [List.length_cons, List.length_eraseIdx_of_lt (by rwa [Field.length_rows]),
      Field.length_rows]
    omega

/-- The invisible rows stay as they are. -/
theorem Field.row_shift (F : Field) (i : Int) {y : Int} (hy : y < invisibleRowsCount) :
    (F.shift i).row y = F.row y := by
  refine Field.row_congr fun x _ _ => ?_
  rw [Field.shift, if_neg (by omega)]

theorem lineWasFull_of (i : Int) (b : Board) :
    lineWasFull i b = (some (isFull (b.fields.row i)), b) := by
  show (some _, b) = _
  rw [isFull, Field.row, List.all_map]
  rfl

/-! ### All full lines out -/

/-- The loop of `checkAndRemoveLines` before an iteration: `n` lines are left to look at. -/
def Checking (b : Board) (left : Nat) : Int × Nat → Board → Prop
  | (i, counter), b' => ∃ (F : Field) (n : Nat), i = invisibleRowsCount - 1 + n ∧ n ≤ 20 ∧ Drawn b F b' ∧
      (∀ y < invisibleRowsCount, F.row y = b.fields.row y) ∧
      Compacting isFull (b.fields.row (invisibleRowsCount - 1)) b.fields.rows F.rows n counter ∧
      n + (b.fields.rows.countP isFull - counter) ≤ left

/-- The board with its full lines taken out, `counter` of them. -/
def Checked (b : Board) (counter : Nat) (b' : Board) : Prop :=
  ∃ F, Drawn b F b' ∧ (∀ y < invisibleRowsCount, F.row y = b.fields.row y) ∧
    F.rows = compact isFull (b.fields.row (invisibleRowsCount - 1)) b.fields.rows ∧
    counter = b.fields.rows.countP isFull

/-- An iteration looks at one line less, or takes one line out. -/
theorem checkLine_spec {b : Board}
    (hempty : isFull (b.fields.row (invisibleRowsCount - 1)) = false) (left : Nat)
    (a : Int × Nat) :
    Prog.Completes (Checking b left a) (checkLine a)
      (fun r b' => Sum.elim (fun a' => ∃ m, m < left ∧ Checking b m a' b') (Checked b · b') r) := by
  have h2 : invisibleRowsCount = 2 := rfl
  obtain ⟨i, counter⟩ := a
  rintro b' ⟨F, n, rfl, hn, hdrawn, habove, hcompact, hleft⟩
  cases n with
  | zero =>
    obtain ⟨hrows, hcounter⟩ := hcompact.finish
    refine ⟨.inr counter, b', ?_, F, hdrawn, habove, hrows, hcounter⟩
    rw [checkLine, if_neg (by omega)]
    rfl
  | succ n =>
    have hi : invisibleRowsCount - 1 + (n + 1 : Nat) = invisibleRowsCount + n := by omega
    have hih : invisibleRowsCount + (n : Int) < boardHeight := by
      have : boardHeight = 22 := rfl
      omega
    have hline : F.rows[n]? = some (b'.fields.row (invisibleRowsCount + n)) := by
      rw [Field.getElem?_rows F (by omega), hdrawn.2.1.row (by omega) hih]
    rw [hi, checkLine, if_pos (by omega)]
    cases hfull : isFull (b'.fields.row (invisibleRowsCount + n)) with
    | true =>
      obtain ⟨_, b'', hrun, hdrawn'⟩ := removeLine_spec (by omega) hih b' hdrawn
      have hcompact' := hcompact.remove hempty hline hfull
      refine ⟨.inl (invisibleRowsCount + n, counter + 1), b'', ?_,
        n + 1 + (b.fields.rows.countP isFull - (counter + 1)), ?_, _, n + 1, hi.symm, hn, hdrawn',
        ?_, ?_, le_rfl⟩
      · refine Prog.bind_of (lineWasFull_of _ b') ?_
        rw [hfull, if_pos rfl]
        exact Prog.bind_of hrun rfl
      · have := hcompact'.removed_le
        omega
      · intro y hy
        rw [Field.row_shift F _ hy, habove y hy]
      · rw [Field.rows_shift F (by omega), habove _ (by omega)]
        exact hcompact'
    | false =>
      refine ⟨.inl (invisibleRowsCount + n - 1, counter), b', ?_,
        n + (b.fields.rows.countP isFull - counter), by omega, F, n, by omega, by omega, hdrawn,
        habove, hcompact.keep hline hfull, le_rfl⟩
      refine Prog.bind_of (lineWasFull_of _ b') ?_
      rw [hfull, if_neg (by decide)]
      rfl

/-- **All full lines out.**  The loop ends, and has taken out the full lines and no others. -/
theorem checkLines_spec {b : Board}
    (hempty : isFull (b.fields.row (invisibleRowsCount - 1)) = false)
    (hshow : Shows b.screen b.fields) :
    ∃ b', Prog.loop checkLine 41 (boardHeight - 1, 0) b =
      (some (b.fields.rows.countP isFull), b') ∧ Checked b (b.fields.rows.countP isFull) b' := by
  have hcount : b.fields.rows.countP isFull ≤ 20 := by
    have := List.countP_le_length (p := isFull) (l := b.fields.rows)
    rwa [Field.length_rows] at this
  have hstart : Checking b 40 (boardHeight - 1, 0) b := by
    refine ⟨b.fields, 20, rfl, le_rfl, ⟨rfl, Field.Same.refl _, hshow⟩, fun _ _ => rfl, ?_, by omega⟩
    have hall : Compacting isFull (b.fields.row (invisibleRowsCount - 1)) b.fields.rows
        b.fields.rows b.fields.rows.length 0 := Compacting.start
    rwa [Field.length_rows] at hall
  obtain ⟨counter, b', hrun, hchecked⟩ := Prog.Completes.loop (Checking b)
    (checkLine_spec hempty) (by decide : 40 < 41) _ b hstart
  have hcounter : counter = b.fields.rows.countP isFull := by
    obtain ⟨F, -, -, -, h⟩ := hchecked
    exact h
  subst hcounter
  exact ⟨b', hrun, hchecked⟩

/-- The field without its full lines: those above have come down, and as many copies of the lowest
    invisible row have come in. -/
def Field.clear (F : Field) : Field := fun y x =>
  if invisibleRowsCount ≤ y then
    ((compact isFull (F.row (invisibleRowsCount - 1)) F.rows).getD
      (y - invisibleRowsCount).toNat []).getD x.toNat emptyField
  else F y x

theorem Field.getElem?_row (F : Field) (y : Int) {x : Int} (hx : 0 ≤ x) (hxw : x < boardWidth) :
    (F.row y)[x.toNat]? = some (F y x) := by
  rw [Field.row, List.getElem?_map, List.getElem?_range (by omega), Option.map_some,
    Int.toNat_of_nonneg hx]

/-- A field is known by its rows. -/
theorem Field.same_clear {F G : Field} (habove : ∀ y < invisibleRowsCount, G.row y = F.row y)
    (hrows : G.rows = compact isFull (F.row (invisibleRowsCount - 1)) F.rows) :
    G.Same F.clear := by
  intro y x hyx
  obtain ⟨-, hyh, hx, hxw⟩ := hyx
  have hG := G.getElem?_row y hx hxw
  unfold Field.clear
  split_ifs with hy
  · have hk : (y - invisibleRowsCount).toNat < 20 := by
      have h20 : boardHeight = 22 ∧ invisibleRowsCount = 2 := ⟨rfl, rfl⟩
      omega
    have hrow : G.rows[(y - invisibleRowsCount).toNat]? = some (G.row y) := by
      rw [Field.getElem?_rows G hk]
      congr 2
      omega
    rw [← hrows, List.getD_eq_getElem?_getD, List.getD_eq_getElem?_getD, hrow, Option.getD_some, hG,
      Option.getD_some]
  · rw [habove y (by omega), F.getElem?_row y hx hxw] at hG
    exact (Option.some.inj hG).symm

/-- All rows of the board are as long as it is wide. -/
theorem Field.length_of_mem_compact (F : Field) (y : Int) {row : List (BitVec 8)}
    (h : row ∈ compact isFull (F.row y) F.rows) : row.length = 10 := by
  rw [compact, List.mem_append, List.mem_replicate, List.mem_filter] at h
  rcases h with ⟨-, rfl⟩ | ⟨hrow, -⟩
  · exact F.length_row y
  · obtain ⟨k, -, rfl⟩ := List.mem_map.mp hrow
    exact F.length_row _

theorem Field.rows_clear (F : Field) :
    F.clear.rows = compact isFull (F.row (invisibleRowsCount - 1)) F.rows := by
  apply List.ext_getElem
  · simp
  intro k hk hk'
  have hlen := F.length_of_mem_compact _ (List.getElem_mem hk')
  have hrow : F.clear.rows[k]? = some (F.clear.row (invisibleRowsCount + k)) :=
    Field.getElem?_rows _ (by simpa using hk)
  rw [List.getElem?_eq_getElem hk, Option.some.injEq] at hrow
  rw [hrow]
  -- column by column
  apply List.ext_getElem
  · rw [hlen, Field.length_row]
  intro x hx hx'
  have hxw : (x : Int) < boardWidth := by
    rw [hlen] at hx'
    have : boardWidth = 10 := rfl
    omega
  have hcell := F.clear.getElem?_row (invisibleRowsCount + k) (Int.natCast_nonneg x) hxw
  rw [Int.toNat_natCast, List.getElem?_eq_getElem hx, Option.some.injEq] at hcell
  have hkk : (invisibleRowsCount + (k : Int) - invisibleRowsCount).toNat = k := by omega
  rw [hcell, Field.clear, if_pos (by omega), hkk, Int.toNat_natCast,
    List.getD_eq_getElem _ _ hk', List.getD_eq_getElem _ _ hx']

/-- What `checkAndRemoveLines` adds to the score for `counter` lines. -/
def linesScore (level : U32) (counter : Nat) : U32 :=
  if counter = 0 then 0
  else lineClearScore <<< (counter - 1) + lineClearLevelBonusScore * level

/-- The board after `checkAndRemoveLines`, but for fields and screen. -/
def Board.cleared (b : Board) : Board :=
  { b with
    lines := b.lines + BitVec.ofNat 32 (b.fields.rows.countP isFull)
    score := b.score + linesScore b.level (b.fields.rows.countP isFull) }

theorem checkAndRemoveLines_spec {b : Board}
    (hempty : isFull (b.fields.row (invisibleRowsCount - 1)) = false)
    (hshow : Shows b.screen b.fields) :
    ∃ b', checkAndRemoveLines b = (some (), b') ∧ Drawn b.cleared b.fields.clear b' := by
  obtain ⟨b', hrun, F, hdrawn, habove, hrows, -⟩ := checkLines_spec hempty hshow
  have hdrawn := hdrawn.congr (Field.same_clear habove hrows) b'
  obtain ⟨hb', hfields, hshows⟩ := hdrawn
  generalize hn : b.fields.rows.countP isFull = n at hrun
  refine ⟨{ b.cleared with fields := b'.fields, screen := b'.screen }, ?_, rfl, hfields, hshows⟩
  refine Prog.bind_of hrun (Prog.bind_of rfl ?_)
  rw [hb', Board.cleared, hn, linesScore]
  by_cases hzero : n = 0
  · have hscore : b.score + 0 = b.score := BitVec.add_zero _
    rw [if_neg (by simpa using hzero), if_pos hzero, hscore]
    rfl
  · rw [if_pos hzero, if_neg hzero, ← BitVec.add_assoc]
    rfl

/-- **Full lines.**  On every board whose lowest invisible row has an empty field, the loops of
    `checkAndRemoveLines` end.  The rows that are not full are left, in their order, below a copy
    of that row for each full one; the screen shows them; and only the two counters change apart
    from that. -/
theorem full_lines_removed (b : Board)
    (hempty : isFull (b.fields.row (invisibleRowsCount - 1)) = false)
    (hshow : Shows b.screen b.fields) :
    ∃ b', checkAndRemoveLines b = (some (), b') ∧
      b'.fields.rows = compact isFull (b.fields.row (invisibleRowsCount - 1)) b.fields.rows ∧
      (∀ y, 0 ≤ y → y < invisibleRowsCount → b'.fields.row y = b.fields.row y) ∧
      Shows b'.screen b'.fields ∧
      b' = { b with
        fields := b'.fields
        screen := b'.screen
        lines := b.lines + BitVec.ofNat 32 (b.fields.rows.countP isFull)
        score := b.score + linesScore b.level (b.fields.rows.countP isFull) } := by
  obtain ⟨b', hrun, hb', hfields, hshows⟩ := checkAndRemoveLines_spec hempty hshow
  refine ⟨b', hrun, ?_, ?_, hshows.congr fun y x hyx _ => (hfields y x hyx).symm, hb'⟩
  · rw [hfields.rows, Field.rows_clear]
  · intro y hy hyi
    have h22 : boardHeight = 22 ∧ invisibleRowsCount = 2 := ⟨rfl, rfl⟩
    rw [hfields.row hy (by omega)]
    refine Field.row_congr fun x _ _ => ?_
    rw [Field.clear, if_neg (by omega)]

/-- A board whose lowest line is full. -/
def bottomFull : Board :=
  { constructBoard 0 with
    fields := fun y _ => if y = 21 then 9 else 0
    screen := fun row _ => if row = 22 then 9 else 0 }

theorem full_lines_removed_bottom :
    ∃ b', checkAndRemoveLines bottomFull = (some (), b') ∧
      b'.fields.rows =
        compact isFull (bottomFull.fields.row (invisibleRowsCount - 1)) bottomFull.fields.rows ∧
      (∀ y, 0 ≤ y → y < invisibleRowsCount → b'.fields.row y = bottomFull.fields.row y) ∧
      Shows b'.screen b'.fields ∧
      b' = { bottomFull with
        fields := b'.fields
        screen := b'.screen
        lines := bottomFull.lines + BitVec.ofNat 32 (bottomFull.fields.rows.countP isFull)
        score := bottomFull.score +
          linesScore bottomFull.level (bottomFull.fields.rows.countP isFull) } := by
  refine full_lines_removed bottomFull (by decide) fun y x _ _ => ?_
  have hrow : boardTopY - invisibleRowsCount + y = 22 ↔ y = 21 := by
    have : boardTopY - invisibleRowsCount = 1 := rfl
    omega
  exact ⟨if_congr hrow rfl rfl, if_congr hrow rfl rfl⟩

end HtcLeo.Tetris

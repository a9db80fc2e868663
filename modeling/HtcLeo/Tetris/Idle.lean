import HtcLeo.Tetris.Sessions
import Mathlib.Algebra.Order.BigOperators.Group.List
import Mathlib.Algebra.Order.Ring.Nat

namespace HtcLeo.Tetris

open Keypad (Key)
open Menu (scanHome)
open Compaction Runs

/-!
# TetrisApp — a game that is left alone

The pieces of a game that nobody touches pile up in the columns where they come in, so that no line
is ever full, until there is no room for another one.

* `Game.Narrow` — the piece has not been moved, and the first column is empty.
* `Narrow.down` — every fall brings the end nearer, by `Game.progress`.
* `Session.Idle` — what holds of a game that only the clock has moved.
* `IsRound` — a stretch of a run in which the piece has to fall.
* `idle_game_ends` — how long it takes at most, however ticks and key reads follow each other.
* `game_over_final` — and then nothing changes any more.
-/

namespace Game

/-- Nobody has touched the pieces. -/
structure Narrow (g : Game) : Prop where
  wellFormed : g.WellFormed
  rotation : g.piece.rotation = firstRotation
  column : g.piece.pos.x = pieceStartingPos.x
  row : 0 ≤ g.piece.pos.y
  stack : ∀ y, OnBoard y 0 → g.stack y 0 = emptyField
  lines : g.lines = 0
  balanced : g.Balanced

variable {g : Game}

/-- A row with an empty field is not full. -/
theorem isFull_row {F : Field} {y x : Int} (hx : 0 ≤ x) (hxw : x < boardWidth)
    (h : F y x = emptyField) : isFull (F.row y) = false := by
  have hmem : emptyField ∈ F.row y := by
    rw [← h]
    exact List.mem_of_getElem? (F.getElem?_row y hx hxw)
  rw [isFull, List.all_eq_false]
  exact ⟨emptyField, hmem, by decide⟩

/-- Where no line is full, nothing goes out. -/
theorem same_clear_of {F : Field} (h : ∀ row ∈ F.rows, isFull row = false) : F.Same F.clear := by
  refine Field.same_clear (fun _ _ => rfl) ?_
  have hzero : F.rows.countP isFull = 0 :=
    List.countP_eq_zero.mpr fun row hrow => by rw [h row hrow]; decide
  have hall : F.rows.filter (fun row => !isFull row) = F.rows :=
    List.filter_eq_self.mpr fun row hrow => by rw [h row hrow]; rfl
  rw [compact, hzero, hall]
  rfl

/-- The piece is not in the first column. -/
theorem Narrow.picture (h : g.Narrow) {y : Int} (hy : OnBoard y 0) :
    g.picture y 0 = emptyField := by
  rw [Game.picture, if_neg, h.stack y hy]
  intro hq
  simp only [Piece.cells, Piece.body, h.rotation, List.mem_map, Point.mk.injEq] at hq
  obtain ⟨b, hb, hx, -⟩ := hq
  -- no part of a piece that nobody has turned lies left of where it comes in
  have hrange := g.piece.kind.body_zero_range hb
  have hcolumn := h.column
  have hpos : pieceStartingPos.x = 4 := rfl
  omega

theorem Narrow.noFull (h : g.Narrow) : ∀ row ∈ g.picture.rows, isFull row = false := by
  intro row hrow
  obtain ⟨k, hk, rfl⟩ := List.mem_map.mp hrow
  rw [List.mem_range] at hk
  have h2 : invisibleRowsCount = 2 := rfl
  exact isFull_row (le_refl 0) (by decide) (h.picture ⟨by omega, by omega, le_refl 0, by decide⟩)

theorem Narrow.settle (h : g.Narrow) (hout : ¬ g.SticksOut) : g.settle.Narrow := by
  have hzero : g.picture.rows.countP isFull = 0 :=
    List.countP_eq_zero.mpr fun row hrow => by rw [h.noFull row hrow]; decide
  refine ⟨h.wellFormed.settle hout, h.wellFormed.next, rfl, le_refl 0, fun y hy => ?_, ?_, ?_⟩
  · exact (same_clear_of h.noFull y 0 hy).symm.trans (h.picture hy)
  · show g.lines + g.picture.rows.countP isFull = 0
    rw [h.lines, hzero]
  · have hmoves := (moves_land h.wellFormed).1 h.balanced
    rwa [land, if_neg hout] at hmoves

/-- How far the game has come. -/
def progress (g : Game) : Nat := 23 * g.placed + g.piece.pos.y.toNat

/-- The lowest part of a piece that nobody has turned. -/
theorem Narrow.row_lt (h : g.Narrow) : g.piece.pos.y < 21 := by
  have hlow : ∃ q ∈ g.piece.kind.bodies firstRotation, q.y = 1 := by
    cases g.piece.kind <;> decide
  obtain ⟨q, hq, hy⟩ := hlow
  obtain ⟨⟨-, hrow, -⟩, -⟩ := h.wellFormed.fits ⟨q.x + g.piece.pos.x, q.y + g.piece.pos.y⟩
    (List.mem_map.mpr ⟨q, by rw [Piece.body, h.rotation]; exact hq, rfl⟩)
  have : boardHeight = 22 := rfl
  dsimp only at hrow
  omega

/-- **Progress.**  Every fall brings the end nearer. -/
theorem Narrow.down (h : g.Narrow) :
    g.down.Narrow ∧ (g.down.ended = true ∨ g.progress < g.down.progress) := by
  have hrow := h.row
  have hlow := h.row_lt
  have hwell := h.wellFormed.down
  unfold Game.down at *
  -- the piece goes down a row, or lands and the next one comes in
  by_cases hfall : g.CanFall
  · simp only [if_pos hfall] at hwell ⊢
    refine ⟨⟨hwell, h.rotation, ?_, ?_, h.stack, h.lines, h.balanced⟩, Or.inr ?_⟩
    · show g.piece.pos.x + 0 = _
      rw [Int.add_zero, h.column]
    · show 0 ≤ g.piece.pos.y + 1
      omega
    · show 23 * g.placed + g.piece.pos.y.toNat < 23 * g.placed + (g.piece.pos.y + 1).toNat
      omega
  · simp only [if_neg hfall] at hwell ⊢
    unfold land at *
    by_cases hout : g.SticksOut
    · simp only [if_pos hout] at hwell ⊢
      exact ⟨⟨hwell, h.rotation, h.column, h.row, h.stack, h.lines, h.balanced⟩, Or.inl trivial⟩
    · simp only [if_neg hout]
      refine ⟨h.settle hout, Or.inr ?_⟩
      show 23 * g.placed + g.piece.pos.y.toNat < 23 * (g.placed + 1) + (0 : Int).toNat
      omega

/-- There is room for two hundred blocks. -/
theorem count_le (F : Field) : F.count ≤ 200 := by
  have hle : ∀ n ∈ F.rows.map blocks, n ≤ 10 := by
    intro n hn
    obtain ⟨row, hrow, rfl⟩ := List.mem_map.mp hn
    obtain ⟨k, -, rfl⟩ := List.mem_map.mp hrow
    exact List.countP_le_length.trans (F.length_row _).le
  simpa [Field.count] using List.sum_le_card_nsmul _ _ hle

theorem Narrow.progress_lt (h : g.Narrow) : g.progress < 1171 := by
  have hcount := count_le g.stack
  -- no line has gone out, so the blocks of all pieces placed are on the board
  have hbalanced := h.balanced
  have hlow := h.row_lt
  unfold Balanced at hbalanced
  rw [h.lines] at hbalanced
  unfold progress
  omega

end Game

/-! ### Quiet runs -/

/-- A tick of the clock, or a pass of the loop that reads no key. -/
def Event.Quiet : Event → Prop
  | tick     => True
  | call key => key = none

/-- A pass of the loop: it reads a key or draws the window. -/
def Event.isCall : Event → Bool
  | tick   => false
  | call _ => true

variable {s : Session} {events : List Event} {n : Nat}

/-- A quiet event leaves a game that is over as it is. -/
theorem Session.over_step {e : Event} (he : e.Quiet) (h : s.state = .gameOver) :
    (s.step e).state = .gameOver := by
  have hnot : s.state ≠ .running := by
    rw [h]
    decide
  cases e with
  | tick =>
    rw [Session.step, Session.tick, if_neg hnot]
    exact h
  | call key =>
    obtain rfl : key = none := he
    unfold Session.step Session.draw
    simp only [hnot, false_and, if_false]
    split_ifs <;> exact h

theorem Session.over_run (hquiet : ∀ e ∈ events, e.Quiet) (h : s.state = .gameOver) :
    (events.foldl Session.step s).state = .gameOver := by
  -- by induction on the events
  induction events generalizing s with
  | nil => exact h
  | cons e events ih =>
    rw [List.forall_mem_cons] at hquiet
    exact ih hquiet.2 (Session.over_step hquiet.1 h)

/-- A pass of the loop that reads no key. -/
theorem Session.step_read (hat : ¬ s.atDraw = true) (hexit : s.state ≠ .exit) :
    s.step (.call none) = { s with atDraw := true } := by
  simp [Session.step, hat, hexit]

/-- A pass that draws the window. -/
theorem Session.falls_draw (hat : s.atDraw = true) :
    s.falls (.call none) = if s.ticks = 0 then 1 else 0 := by
  simp [Session.falls, hat]

/-- The falls after which a game that is left alone is over. -/
def idleFalls : Nat := 1172

/-- The clock has moved the piece `n` times, and nobody else has: the game is over, or one drawing
    of the window from it, or has come as far as `n`. -/
structure Session.Idle (n : Nat) (s : Session) : Prop where
  wellFormed : s.WellFormed
  narrow : s.game.Narrow
  course : s.state = .gameOver ∧ s.ticks ≠ 0 ∧ n ≤ idleFalls ∨
    s.state = .running ∧ (s.game.ended = true ∧ n < idleFalls ∨ n ≤ s.game.progress)

theorem Session.Idle.not_exit (h : s.Idle n) : s.state ≠ .exit := by
  rcases h.course with ⟨hstate, -⟩ | ⟨hstate, -⟩ <;> rw [hstate] <;> decide

/-- A running game has still a fall to go. -/
theorem Session.Idle.lt (h : s.Idle n) (hrunning : s.state = .running) : n < idleFalls := by
  have hlt := h.narrow.progress_lt
  have hmost : idleFalls = 1172 := rfl
  rcases h.course with ⟨hover, -⟩ | ⟨-, ⟨-, hn⟩ | hn⟩
  · rw [hover] at hrunning
    exact absurd hrunning (by decide)
  · exact hn
  · omega

/-- Drawing the window changes nothing when no fall is due and no end to be noticed. -/
theorem Session.draw_same (hend : ¬ (s.state = .running ∧ s.game.ended = true))
    (hticks : s.ticks ≠ 0) : s.draw = s := by
  unfold Session.draw
  dsimp only
  rw [if_neg hticks, if_neg hend]

theorem Session.draw_game (s : Session) :
    s.draw.game = if s.ticks = 0 then s.game.down else s.game := by
  unfold Session.draw
  dsimp only
  split_ifs <;> rfl

theorem Session.draw_state (s : Session) :
    s.draw.state = if s.state = .running ∧ s.game.ended = true then .gameOver else s.state := by
  unfold Session.draw
  dsimp only
  split_ifs <;> rfl

/-- Drawing the window: the end is noticed, and the piece falls if it is time. -/
theorem Session.Idle.draw (h : s.Idle n) :
    s.draw.Idle (n + if s.ticks = 0 then 1 else 0) := by
  have hmost : idleFalls = 1172 := rfl
  rcases h.course with ⟨hover, hticks, hn⟩ | ⟨hrunning, hcourse⟩
  · -- nothing is left to do
    have hend : ¬ (s.state = .running ∧ s.game.ended = true) := by
      rw [hover]
      exact fun hboth => absurd hboth.1 (by decide)
    rw [Session.draw_same hend hticks, if_neg hticks]
    exact h
  · have hlt := h.lt hrunning
    obtain ⟨hdown, hnext⟩ := h.narrow.down
    have hnarrow : s.draw.game.Narrow := by
      rw [s.draw_game]
      split_ifs
      · exact hdown
      · exact h.narrow
    by_cases hended : s.game.ended = true
    · -- the game is over, whether the piece falls once more or not
      refine ⟨h.wellFormed.draw, hnarrow, Or.inl ⟨?_, s.ticks_draw, ?_⟩⟩
      · rw [s.draw_state, if_pos ⟨hrunning, hended⟩]
      · split_ifs <;> omega
    · have hend : ¬ (s.state = .running ∧ s.game.ended = true) := fun hboth => hended hboth.2
      have hn := hcourse.resolve_left fun hleft => hended hleft.1
      have hprogress := h.narrow.progress_lt
      by_cases hzero : s.ticks = 0
      · -- the piece falls, and either lands for the last time or brings the end nearer
        have hgame : s.draw.game = s.game.down := by rw [s.draw_game, if_pos hzero]
        rw [if_pos hzero]
        refine ⟨h.wellFormed.draw, hnarrow, Or.inr ⟨?_, ?_⟩⟩
        · rw [s.draw_state, if_neg hend, hrunning]
        · rw [hgame]
          refine hnext.imp (fun hdone => ⟨hdone, ?_⟩) fun hfar => ?_
          · omega
          · omega
      · rw [Session.draw_same hend hzero, if_neg hzero]
        exact h

/-- What the loop does next does not matter. -/
theorem Session.Idle.turn (h : s.Idle n) (atDraw : Bool) : { s with atDraw }.Idle n :=
  ⟨⟨h.wellFormed.game, h.wellFormed.level, h.wellFormed.ticks⟩, h.narrow, h.course⟩

/-- **Step lemma.**  A quiet event moves the piece if it falls, and does nothing else to it. -/
theorem Session.Idle.step (h : s.Idle n) {e : Event} (he : e.Quiet) :
    (s.step e).Idle (n + s.falls e) := by
  cases e with
  | tick =>
    show s.tick.Idle n
    refine ⟨h.wellFormed.tick, ?_, ?_⟩
    · unfold Session.tick
      split_ifs <;> exact h.narrow
    · rcases h.course with ⟨hover, hcourse⟩ | hcourse
      · have hnot : ¬ s.state = .running := by
          rw [hover]
          decide
        rw [Session.tick, if_neg hnot]
        exact Or.inl ⟨hover, hcourse⟩
      · rw [Session.tick, if_pos hcourse.1]
        exact Or.inr hcourse
  | call key =>
    obtain rfl : key = none := he
    by_cases hat : s.atDraw = true
    · have hstep : s.step (.call none) = { s.draw with atDraw := false } := if_pos hat
      rw [hstep, Session.falls_draw hat]
      exact h.draw.turn false
    · have hfalls : s.falls (.call none) = 0 := if_neg fun hboth => hat hboth.1
      rw [Session.step_read hat h.not_exit, hfalls]
      exact h.turn true

/-- **Run lemma.**  In a quiet run only the clock moves the piece. -/
theorem Session.Idle.run (h : s.Idle n) (hquiet : ∀ e ∈ events, e.Quiet) :
    (events.foldl Session.step s).Idle (n + s.fallCount events) := by
  induction events generalizing s n with
  | nil => exact h
  | cons e events ih =>
    rw [List.forall_mem_cons] at hquiet
    rw [List.foldl_cons, Session.fallCount, ← Nat.add_assoc]
    exact ih (h.step hquiet.1) hquiet.2

/-- Key reads and drawings of the window take turns. -/
theorem Session.Idle.atDraw_run (h : s.Idle n) (hquiet : ∀ e ∈ events, e.Quiet) :
    (events.foldl Session.step s).atDraw = not^[events.countP Event.isCall] s.atDraw := by
  induction events generalizing s n with
  | nil => rfl
  | cons e events ih =>
    rw [List.forall_mem_cons] at hquiet
    rw [List.foldl_cons, ih (h.step hquiet.1) hquiet.2, List.countP_cons]
    cases e with
    | tick =>
      have hat : (s.step .tick).atDraw = s.atDraw := by
        show s.tick.atDraw = s.atDraw
        unfold Session.tick
        split_ifs <;> rfl
      rw [hat]
      rfl
    | call key =>
      obtain rfl : key = none := hquiet.1
      have hat : (s.step (.call none)).atDraw = !s.atDraw := by
        cases hatDraw : s.atDraw <;> simp [Session.step, hatDraw, h.not_exit]
      have hone : (if Event.isCall (.call none) = true then 1 else 0) = 1 := rfl
      rw [hat, hone, Function.iterate_succ_apply]

/-! ### Rounds of the clock -/

/-- A round: the clock ticks for a period, and then the loop goes on for two passes, of which one
    draws the window. -/
def IsRound (events : List Event) : Prop :=
  ∃ ticks calls, events = ticks ++ calls ∧ Session.period ≤ ticks.countP Event.isTick ∧
    2 ≤ calls.countP Event.isCall

theorem Session.fallCount_append (s : Session) (events later : List Event) :
    s.fallCount (events ++ later) =
      s.fallCount events + (events.foldl Session.step s).fallCount later := by
  induction events generalizing s with
  | nil => exact (Nat.zero_add _).symm
  | cons e events ih =>
    rw [List.cons_append, Session.fallCount, ih, Session.fallCount, List.foldl_cons, Nat.add_assoc]

/-- A quiet event of a game that runs on does not go to another state. -/
theorem Session.running_of_run (h : s.Idle n) (hquiet : ∀ e ∈ events, e.Quiet)
    (hend : (events.foldl Session.step s).state = .running) : s.state = .running := by
  rcases h.course with ⟨hover, -⟩ | ⟨hrunning, -⟩
  · rw [Session.over_run hquiet hover] at hend
    exact absurd hend (by decide)
  · exact hrunning

/-- Until the piece falls, every tick counts. -/
theorem Session.Idle.ticks_run (h : s.Idle n) (hquiet : ∀ e ∈ events, e.Quiet)
    (hend : (events.foldl Session.step s).state = .running) (hno : s.fallCount events = 0) :
    (events.foldl Session.step s).ticks = s.ticks - events.countP Event.isTick := by
  -- by induction on the events, none of which starts the counter again without a fall
  induction events generalizing s n with
  | nil => rfl
  | cons e events ih =>
    have hrunning := Session.running_of_run h hquiet hend
    rw [List.forall_mem_cons] at hquiet
    obtain ⟨hfirst, hrest⟩ := Nat.add_eq_zero_iff.mp hno
    rw [List.foldl_cons, ih (h.step hquiet.1) hquiet.2 hend hrest, List.countP_cons]
    cases e with
    | tick =>
      have htick : (s.step .tick).ticks = s.ticks - 1 := by
        show s.tick.ticks = _
        rw [Session.tick, if_pos hrunning]
      have hone : (if Event.isTick .tick = true then 1 else 0) = 1 := rfl
      rw [htick, hone]
      omega
    | call key =>
      obtain rfl : key = none := hquiet.1
      have hsame : (s.step (.call none)).ticks = s.ticks := by
        by_cases hat : s.atDraw = true
        · rw [Session.falls_draw hat] at hfirst
          have hnot : ¬ s.ticks = 0 := fun hzero => by simp [hzero] at hfirst
          simp [Session.step, Session.draw, hat, hnot]
        · rw [Session.step_read hat h.not_exit]
      rw [hsame]
      rfl

/-- When a fall is due, the window is not drawn any more before it. -/
theorem Session.Idle.calls_run (h : s.Idle n) (hquiet : ∀ e ∈ events, e.Quiet)
    (hend : (events.foldl Session.step s).state = .running) (hdue : s.ticks = 0)
    (hno : s.fallCount events = 0) :
    events.countP Event.isCall + (if s.atDraw then 1 else 0) ≤ 1 := by
  -- by induction on the events: at most a key read comes before the drawing
  induction events generalizing s n with
  | nil =>
    rw [List.countP_nil]
    split_ifs <;> omega
  | cons e events ih =>
    have hrunning := Session.running_of_run h hquiet hend
    rw [List.forall_mem_cons] at hquiet
    obtain ⟨hfirst, hrest⟩ := Nat.add_eq_zero_iff.mp hno
    have hnext := ih (h.step hquiet.1) hquiet.2 hend
    rw [List.countP_cons]
    cases e with
    | tick =>
      have hstep : s.step .tick = { s with ticks := s.ticks - 1 } := if_pos hrunning
      rw [hstep] at hnext hrest
      have hzero : s.ticks - 1 = 0 := by omega
      exact hnext hzero hrest
    | call key =>
      obtain rfl : key = none := hquiet.1
      by_cases hat : s.atDraw = true
      · -- the drawing would let the piece fall
        rw [Session.falls_draw hat, if_pos hdue] at hfirst
        exact absurd hfirst (by decide)
      · rw [Session.step_read hat h.not_exit] at hnext hrest
        have hlast := hnext hdue hrest
        have hone : (if Event.isCall (.call none) = true then 1 else 0) = 1 := rfl
        rw [if_pos rfl] at hlast
        rw [if_neg hat, hone]
        omega

/-- A round makes the piece fall, unless it comes to the end. -/
theorem Session.Idle.round (h : s.Idle n) (hquiet : ∀ e ∈ events, e.Quiet)
    (hround : IsRound events) :
    (events.foldl Session.step s).state = .gameOver ∨ 0 < s.fallCount events := by
  have hafter := h.run hquiet
  rcases hafter.course with ⟨hover, -⟩ | ⟨hend, -⟩
  · exact Or.inl hover
  · refine Or.inr (Nat.pos_of_ne_zero fun hno => ?_)
    obtain ⟨ticks, calls, rfl, hticks, hcalls⟩ := hround
    rw [List.forall_mem_append] at hquiet
    rw [Session.fallCount_append] at hno
    rw [List.foldl_append] at hend
    obtain ⟨hno₁, hno₂⟩ := Nat.add_eq_zero_iff.mp hno
    have hmid := h.run hquiet.1
    have hrunning := Session.running_of_run hmid hquiet.2 hend
    -- a period of ticks without a fall makes one due
    have hdue : (ticks.foldl Session.step s).ticks = 0 := by
      have hle := h.wellFormed.ticks
      rw [h.ticks_run hquiet.1 hrunning hno₁]
      omega
    have hfew := hmid.calls_run hquiet.2 hend hdue hno₂
    omega

/-- As many falls as rounds, unless the game is over before. -/
theorem Session.Idle.rounds (h : s.Idle n) {rounds : List (List Event)}
    (hquiet : ∀ e ∈ rounds.flatten, e.Quiet) (hrounds : ∀ r ∈ rounds, IsRound r) :
    (rounds.flatten.foldl Session.step s).state = .gameOver ∨
      rounds.length ≤ s.fallCount rounds.flatten := by
  -- by induction on the rounds: each of them has its own fall
  induction rounds generalizing s n with
  | nil => exact Or.inr (Nat.zero_le _)
  | cons r rounds ih =>
    rw [List.flatten_cons] at hquiet ⊢
    rw [List.forall_mem_append] at hquiet
    rw [List.forall_mem_cons] at hrounds
    rw [List.foldl_append, Session.fallCount_append, List.length_cons]
    rcases h.round hquiet.1 hrounds.1 with hover | hfall
    · exact Or.inl (Session.over_run hquiet.2 hover)
    · exact (ih (h.run hquiet.1) hquiet.2 hrounds.2).imp_right fun hle => by omega

/-! ### The end -/

/-- A key begins the game. -/
theorem Session.idle_start (seed : U32) (key : Key) :
    (Session.after seed [.call (some key)]).Idle 0 :=
  ⟨Session.after_wellFormed seed _,
    ⟨Game.start_wellFormed seed, rfl, rfl, le_refl 0, fun _ _ => rfl, rfl,
      Session.after_balanced seed [.call (some key)]⟩,
    Or.inr ⟨rfl, Or.inr (Nat.zero_le _)⟩⟩

/-- The game is over when there have been more rounds than falls. -/
theorem Session.idle_over (seed : U32) (key : Key) {rounds : List (List Event)}
    (hquiet : ∀ e ∈ rounds.flatten, e.Quiet) (hrounds : ∀ r ∈ rounds, IsRound r)
    (hlength : idleFalls ≤ rounds.length) :
    (Session.after seed (.call (some key) :: rounds.flatten)).state = .gameOver := by
  have hstart := Session.idle_start seed key
  have hend := hstart.run hquiet
  rcases hstart.rounds hquiet hrounds with hover | hmany
  · exact hover
  · rcases hend.course with ⟨hover, -⟩ | ⟨hrunning, -⟩
    · exact hover
    · have hlt := hend.lt hrunning
      omega

/-- After an odd number of passes the loop reads a key next. -/
theorem Session.idle_atDraw (seed : U32) (key : Key) (hquiet : ∀ e ∈ events, e.Quiet)
    (hodd : Odd (events.countP Event.isCall)) :
    (Session.after seed (.call (some key) :: events)).atDraw = false := by
  have hturns := (Session.idle_start seed key).atDraw_run hquiet
  rw [Bool.involutive_not.iterate_odd hodd] at hturns
  exact hturns

/-- **A game that is left alone ends.**  After the key that begins it only the clock goes on, and
    the loop reads no key.  Then no line is ever cleared, the application stays in its loop, and the
    piece falls 1172 times at most; after as many rounds of the clock the game is over, and it stays
    so.  After an odd number of passes the loop is where it reads a key. -/
theorem idle_game_ends (seed : U32) (key : Key) (quiet : List Event)
    (hquiet : ∀ e ∈ quiet, e.Quiet) :
    ∃ app, App.run (.call (some key) :: quiet) (App.start seed) = (some (), app) ∧
      app.core.board.lines = 0 ∧
      (app.core.gameState = .running ∨ app.core.gameState = .gameOver) ∧
      (Session.start seed).fallCount (.call (some key) :: quiet) ≤ idleFalls ∧
      (∀ rounds : List (List Event), quiet = rounds.flatten → (∀ r ∈ rounds, IsRound r) →
        idleFalls ≤ rounds.length → app.core.gameState = .gameOver) ∧
      (Odd (quiet.countP Event.isCall) → app.atDraw = false) := by
  obtain ⟨app, hrun, happ⟩ := run_spec seed (.call (some key) :: quiet)
  have hstart := Session.idle_start seed key
  have hend := hstart.run hquiet
  refine ⟨app, hrun, ?_, ?_, ?_, ?_, fun hodd => ?_⟩
  · have hlines : (Session.after seed (.call (some key) :: quiet)).game.lines = 0 :=
      hend.narrow.lines
    rw [happ.keeps.game.agrees.lines, hlines]
    rfl
  · rw [happ.keeps.state]
    rcases hend.course with ⟨hover, -⟩ | ⟨hrunning, -⟩
    · exact Or.inr hover
    · exact Or.inl hrunning
  · show 0 + (Session.after seed [.call (some key)]).fallCount quiet ≤ idleFalls
    rcases hend.course with ⟨-, -, hle⟩ | ⟨hrunning, -⟩
    · exact hle
    · exact (hend.lt hrunning).le
  · rintro rounds rfl hrounds hlength
    rw [happ.keeps.state]
    exact Session.idle_over seed key hquiet hrounds hlength
  · rw [happ.atDraw]
    exact Session.idle_atDraw seed key hquiet hodd

/-- A period of the clock, and then a key read that finds nothing and a drawing. -/
def round : List Event := List.replicate Session.period .tick ++ [.call none, .call none]

/-- The first drawing, and as many rounds as it takes. -/
def idleRounds : List (List Event) := (.call none :: round) :: List.replicate 1171 round

theorem idleRounds_length : idleFalls ≤ idleRounds.length := by
  rw [idleRounds, List.length_cons, List.length_replicate]
  rfl

theorem idleRounds_isRound : ∀ r ∈ idleRounds, IsRound r := by
  have hround : IsRound round := ⟨_, _, rfl, by decide, by decide⟩
  intro r hr
  rcases List.mem_cons.mp hr with rfl | hr
  · exact ⟨.call none :: List.replicate Session.period .tick, _, rfl, by decide, by decide⟩
  · rw [List.eq_of_mem_replicate hr]
    exact hround

theorem idleRounds_quiet : ∀ e ∈ idleRounds.flatten, e.Quiet := by
  have hround : ∀ e ∈ round, e.Quiet := by
    intro e he
    rcases List.mem_append.mp he with he | he
    · rw [List.eq_of_mem_replicate he]
      trivial
    · simp only [List.mem_cons, List.not_mem_nil, or_false, or_self] at he
      rw [he]
      rfl
  intro e he
  obtain ⟨r, hr, he⟩ := List.mem_flatten.mp he
  rcases List.mem_cons.mp hr with rfl | hr
  · rcases List.mem_cons.mp he with rfl | he
    · rfl
    · exact hround e he
  · rw [List.eq_of_mem_replicate hr] at he
    exact hround e he

theorem idleRounds_odd : Odd (idleRounds.flatten.countP Event.isCall) := by
  have hround : round.countP Event.isCall = 2 := by decide
  rw [idleRounds, List.flatten_cons, List.countP_append, List.countP_flatten, List.map_replicate,
    List.sum_replicate, List.countP_cons, hround]
  exact ⟨1172, rfl⟩

/-- In one pass of the loop after each period. -/
theorem idle_game_ends_rounds :
    ∃ app, App.run (.call (some ⟨0, 13⟩) :: idleRounds.flatten) (App.start 7) = (some (), app) ∧
      app.core.board.lines = 0 ∧ app.core.gameState = .gameOver ∧ app.atDraw = false := by
  obtain ⟨app, hrun, hlines, -, -, hover, hhead⟩ :=
    idle_game_ends 7 ⟨0, 13⟩ idleRounds.flatten idleRounds_quiet
  exact ⟨app, hrun, hlines, hover idleRounds rfl idleRounds_isRound idleRounds_length,
    hhead idleRounds_odd⟩

/-- **The end is final.**  When the loop reads a key after the game is over, no key and no tick
    changes the board any more, and the only thing that can still happen is that the application
    ends. -/
theorem game_over_final (seed : U32) (events later : List Event)
    (hhead : (Session.after seed events).atDraw = false)
    (hover : (Session.after seed events).state = .gameOver) :
    ∃ app', App.run (events ++ later) (App.start seed) = (some (), app') ∧
      (app'.core.gameState = .gameOver ∨ app'.core.gameState = .exit) ∧
      Represents (Session.after seed events).game app'.core.board := by
  obtain ⟨app', hrun', happ'⟩ := run_spec seed (events ++ later)
  have hall : Always Session.step Session.Over (Session.after seed events) later :=
    Always.of_invariant (P := Session.Over) (fun _ e h => h.step e) (Or.inl hover) later
  have hstart : (Session.after seed events).Stands (Session.after seed events).game :=
    ⟨rfl, Session.after_settled seed events (by rw [hover]; decide) hhead⟩
  have hstands := hstart.run (hall.mono fun s h => h.not_running)
  have hlast := hall.last
  rw [← Session.after_append] at hstands hlast
  refine ⟨app', hrun', ?_, ?_⟩
  · rwa [happ'.keeps.state]
  · rw [← hstands.1]
    exact happ'.keeps.game

/-- After a game that was left alone. -/
theorem game_over_final_idle :
    ∃ app', App.run (.call (some ⟨0, 13⟩) :: idleRounds.flatten
          ++ [.tick, .call (some ⟨scanHome, 0⟩), .call none]) (App.start 7) = (some (), app') ∧
      (app'.core.gameState = .gameOver ∨ app'.core.gameState = .exit) ∧
      Represents (Session.after 7 (.call (some ⟨0, 13⟩) :: idleRounds.flatten)).game
        app'.core.board :=
  game_over_final 7 _ _ (Session.idle_atDraw 7 ⟨0, 13⟩ idleRounds_quiet idleRounds_odd)
    (Session.idle_over 7 ⟨0, 13⟩ idleRounds_quiet idleRounds_isRound idleRounds_length)

end HtcLeo.Tetris

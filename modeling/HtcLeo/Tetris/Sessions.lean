import HtcLeo.Tetris.Core

namespace HtcLeo.Tetris

open Keypad (Key scanUp charCarriageReturn)
open Menu (scanHome)
open Runs

/-!
# TetrisApp — whole sessions

What holds however often the clock ticks and whatever keys are pressed.

* `app_plays_game` — the application plays the game, and never stops answering.
* `blocks_conserved` — no block is made or lost: four come with each piece, ten go with each line.
* `frozen` — while the game is not running, nothing on the board moves.
* `falls_rate` — the clock moves the piece once in a period at most.
-/

variable {s : Session}

/-- **The application plays the game.**  Whatever happens, no store is outside of the array, no
    `ASSERT` fails and every loop ends; the board, the screen and the counters are those of the
    session, whose piece is always on free squares, and which never leaves the first level. -/
theorem app_plays_game (seed : U32) (events : List Event) :
    ∃ app, App.run events (App.start seed) = (some (), app) ∧
      Plays (Session.after seed events) app ∧ (Session.after seed events).WellFormed := by
  obtain ⟨app, hrun, happ⟩ := run_spec seed events
  exact ⟨app, hrun, happ, Session.after_wellFormed seed events⟩

/-! ### Blocks -/

namespace Game

/-- Four blocks for each piece, less ten for each line. -/
def Balanced (g : Game) : Prop := g.stack.count + 10 * g.lines = 4 * g.placed

/-- At most one piece and four lines more, and as many blocks as that makes. -/
def Moves (g g' : Game) : Prop :=
  (g.Balanced → g'.Balanced) ∧ g'.lines ≤ g.lines + 4 ∧ g'.placed ≤ g.placed + 1

variable {g : Game}

theorem Moves.refl (g : Game) : g.Moves g := ⟨id, Nat.le_add_right _ _, Nat.le_add_right _ _⟩

/-- Only the stack and the two counts matter. -/
theorem Moves.congr {g' g'' : Game} (h : g.Moves g') (hstack : g''.stack = g'.stack)
    (hlines : g''.lines = g'.lines) (hplaced : g''.placed = g'.placed) : g.Moves g'' := by
  unfold Moves Balanced at *
  rwa [hstack, hlines, hplaced]

theorem moves_become (g : Game) (p : Piece) : g.Moves (g.become p) := by
  unfold become
  split_ifs
  · exact (Moves.refl g).congr rfl rfl rfl
  · exact Moves.refl g

theorem moves_land (h : g.WellFormed) : g.Moves g.land := by
  unfold land
  split_ifs with hout
  · exact (Moves.refl g).congr rfl rfl rfl
  · have hcount := count_settle h hout
    have hfour := cleared_le_four h
    have hlines : g.settle.lines = g.lines + g.picture.rows.countP isFull := rfl
    have hplaced : g.settle.placed = g.placed + 1 := rfl
    unfold Moves Balanced
    rw [hlines, hplaced]
    omega

theorem moves_down (h : g.WellFormed) : g.Moves g.down := by
  unfold down
  split_ifs
  · exact (Moves.refl g).congr rfl rfl rfl
  · exact moves_land h

theorem moves_drop (h : g.WellFormed) : g.Moves g.drop :=
  (moves_land (h.lowered le_rfl)).congr rfl rfl rfl

end Game

theorem Session.moves_input (hs : s.WellFormed) (key : Key) : s.game.Moves (s.input key).game := by
  rcases s.input_keyStep key with ⟨state, h, -⟩ | ⟨-, h | ⟨p, h⟩ | h⟩ <;> rw [h]
  · exact Game.Moves.refl s.game
  · exact Game.moves_drop hs.game
  · exact Game.moves_become s.game p
  · exact Game.moves_down hs.game

theorem Session.moves_draw (hs : s.WellFormed) : s.game.Moves s.draw.game := by
  unfold Session.draw
  dsimp only
  split_ifs
  · exact Game.moves_down hs.game
  · exact Game.moves_down hs.game
  · exact Game.Moves.refl s.game
  · exact Game.Moves.refl s.game

/-- An event places one piece at most and clears four lines at most. -/
theorem Session.moves_step (hs : s.WellFormed) (e : Event) : s.game.Moves (s.step e).game := by
  cases e with
  | tick =>
    unfold Session.step Session.tick
    dsimp only
    split_ifs <;> exact Game.Moves.refl _
  | call key =>
    unfold Session.step
    dsimp only
    split_ifs
    · exact Session.moves_draw hs
    · exact Game.Moves.refl _
    · cases key with
      | none => exact Game.Moves.refl _
      | some key => exact Session.moves_input hs key

theorem Session.after_balanced (seed : U32) (events : List Event) :
    (Session.after seed events).game.Balanced := by
  have hstart : (Session.start seed).game.Balanced := by
    show Field.count (fun _ _ => emptyField) + 10 * 0 = 4 * 0
    decide
  have hrun := Always.of_invariant (P := fun s : Session => s.WellFormed ∧ s.game.Balanced)
    (fun s e hs => ⟨hs.1.step e, (Session.moves_step hs.1 e).1 hs.2⟩)
    ⟨Session.start_wellFormed seed, hstart⟩ events
  exact hrun.last.2

/-- The array without the piece. -/
def Board.settled (b : Board) : Field := b.fields.paint b.activePiece.cells emptyField

theorem Represents.settled {g : Game} {b : Board} (h : Represents g b) (hg : g.WellFormed) :
    b.settled.Same g.stack := by
  intro y x hyx
  rw [Board.settled, Field.paint_apply, h.agrees.piece]
  split_ifs with hq
  · exact (hg.fits _ hq).2.symm
  · exact h.outside y x hyx hq

/-- **No block is made or lost.**  In every state of every session, the settled blocks and ten for
    each line that has gone out are four for each piece that has come to rest; and an event makes
    four lines go at most. -/
theorem blocks_conserved (seed : U32) (events : List Event) (e : Event) :
    ∃ app, App.run events (App.start seed) = (some (), app) ∧
      app.core.board.lines = BitVec.ofNat 32 (Session.after seed events).game.lines ∧
      app.core.board.settled.count + 10 * (Session.after seed events).game.lines =
        4 * (Session.after seed events).game.placed ∧
      (Session.after seed (events ++ [e])).game.lines ≤
        (Session.after seed events).game.lines + 4 ∧
      (Session.after seed (events ++ [e])).game.placed ≤
        (Session.after seed events).game.placed + 1 := by
  obtain ⟨app, hrun, happ⟩ := run_spec seed events
  have hwell := Session.after_wellFormed seed events
  have hgame := happ.keeps.game
  have hstep := Session.moves_step hwell e
  have hafter : Session.after seed (events ++ [e]) = (Session.after seed events).step e := by
    rw [Session.after, List.foldl_append]
    rfl
  refine ⟨app, hrun, hgame.agrees.lines, ?_, hafter ▸ hstep.2.1, hafter ▸ hstep.2.2⟩
  rw [Field.count, (hgame.settled hwell.game).rows]
  exact Session.after_balanced seed events

/-! ### Standing still -/

/-- Before a key is read, no fall is due unless the game is running. -/
def Session.Settled (s : Session) : Prop := s.state ≠ .running → s.atDraw = false → s.ticks ≠ 0

/-- After the window is drawn no fall is due. -/
theorem Session.ticks_draw (s : Session) : s.draw.ticks ≠ 0 := by
  unfold Session.draw
  dsimp only
  by_cases h : s.ticks = 0
  · rw [if_pos h]
    exact (by decide : period ≠ 0)
  · rw [if_neg h]
    exact h

theorem Session.Settled.step (h : s.Settled) (e : Event) : (s.step e).Settled := by
  cases e with
  | tick =>
    intro hstate hdraw
    unfold Session.step Session.tick at *
    by_cases hrunning : s.state = .running
    · simp only [hrunning, if_true, ne_eq, not_true_eq_false] at hstate
    · simp only [hrunning, if_false] at hdraw ⊢
      exact h hrunning hdraw
  | call key =>
    intro hstate hdraw
    unfold Session.step at *
    dsimp only at *
    split_ifs at * with hat hexit
    · exact s.ticks_draw
    · exact h hstate hdraw
    · -- the window is drawn next
      cases key with
      | none     => exact absurd hdraw (by simp)
      | some key => exact absurd hdraw (by simp)

theorem Session.after_settled (seed : U32) (events : List Event) :
    (Session.after seed events).Settled := by
  have hstart : (Session.start seed).Settled := fun _ _ => (by decide : period ≠ 0)
  exact (Always.of_invariant (P := Session.Settled) (fun _ e h => h.step e) hstart events).last

/-- What a key does when the game is not running. -/
theorem Session.input_not_running (h : s.state ≠ .running) (key : Key) :
    (s.input key).game = s.game ∧ (s.input key).ticks = s.ticks := by
  rcases s.input_keyStep key with ⟨state, hkey, -⟩ | ⟨hrunning, -⟩
  · rw [hkey]
    exact ⟨rfl, rfl⟩
  · exact absurd hrunning h

/-- The game is `g`, and the clock does not move the piece. -/
def Session.Stands (g : Game) (s : Session) : Prop := s.game = g ∧ s.ticks ≠ 0

/-- **Step lemma.**  While the game is not running, nothing moves. -/
theorem Session.Stands.step {g : Game} (h : s.Stands g) (hstate : s.state ≠ .running) (e : Event) :
    (s.step e).Stands g := by
  obtain ⟨rfl, hticks⟩ := h
  cases e with
  | tick =>
    unfold Session.step Session.tick
    simp only [hstate, if_false]
    exact ⟨rfl, hticks⟩
  | call key =>
    unfold Session.step
    dsimp only
    -- a drawing, a pass after the application has ended, and a key read
    split_ifs
    · unfold Session.draw
      simp only [hticks, if_false]
      exact ⟨rfl, hticks⟩
    · exact ⟨rfl, hticks⟩
    · cases key with
      | none => exact ⟨rfl, hticks⟩
      | some key =>
        obtain ⟨hgame, hkeep⟩ := Session.input_not_running hstate key
        refine ⟨hgame, ?_⟩
        dsimp only
        rwa [hkeep]

theorem Session.Stands.run {g : Game} {later : List Event} (h : s.Stands g)
    (hlater : Always Session.step (fun s => s.state ≠ .running) s later) :
    (later.foldl Session.step s).Stands g := by
  induction later generalizing s with
  | nil => exact h
  | cons e later ih => exact ih (h.step hlater.1 e) hlater.2

theorem Session.after_append (seed : U32) (events later : List Event) :
    Session.after seed (events ++ later) =
      later.foldl Session.step (Session.after seed events) := by
  rw [Session.after, List.foldl_append]

/-- **Standing still.**  From a point where a key is read, and as long as the game is not running,
    the board stands for the same game: nothing moves while it has not begun, is paused, or is
    over. -/
theorem frozen (seed : U32) (events later : List Event)
    (hhead : (Session.after seed events).atDraw = false)
    (hlater : Always Session.step (fun s => s.state ≠ .running)
      (Session.after seed events) later) :
    ∃ app app', App.run events (App.start seed) = (some (), app) ∧
      App.run (events ++ later) (App.start seed) = (some (), app') ∧
      Represents (Session.after seed events).game app.core.board ∧
      Represents (Session.after seed events).game app'.core.board := by
  obtain ⟨app, hrun, happ⟩ := run_spec seed events
  obtain ⟨app', hrun', happ'⟩ := run_spec seed (events ++ later)
  have hstart : (Session.after seed events).Stands (Session.after seed events).game :=
    ⟨rfl, Session.after_settled seed events hlater.head hhead⟩
  have hsame := (hstart.run hlater).1
  rw [← Session.after_append] at hsame
  refine ⟨app, app', hrun, hrun', happ.keeps.game, ?_⟩
  rw [← hsame]
  exact happ'.keeps.game

/-- A game that runs for a tick and is then paused. -/
def pausedGame : List Event :=
  [.call (some ⟨0, charCarriageReturn⟩), .call none, .tick, .call (some ⟨0, charBackspace⟩),
    .call none]

/-- The keys that would drop, move and turn the piece, with the clock going on. -/
def keysAndTicks : List Event :=
  [.tick, .call (some ⟨scanHome, 0⟩), .call none, .tick, .call (some ⟨scanUp, 0⟩), .tick,
    .call none, .call (some ⟨0, charTab⟩), .call none, .tick,
    .call (some ⟨0, charCarriageReturn⟩)]

/-- A paused game stands still. -/
theorem frozen_paused :
    ∃ app app', App.run pausedGame (App.start 7) = (some (), app) ∧
      App.run (pausedGame ++ keysAndTicks) (App.start 7) = (some (), app') ∧
      Represents (Session.after 7 pausedGame).game app.core.board ∧
      Represents (Session.after 7 pausedGame).game app'.core.board := by
  refine frozen 7 pausedGame keysAndTicks (by decide) ?_
  simp only [keysAndTicks, Always]
  decide

theorem Session.Over.not_running (h : s.Over) : s.state ≠ .running := by
  rcases h with h | h <;> rw [h] <;> decide

/-- Once the game is over, it stays over until the application ends. -/
theorem Session.Over.step (h : s.Over) (e : Event) : (s.step e).Over := by
  have hrunning := h.not_running
  cases e with
  | tick =>
    unfold Session.step Session.tick
    simp only [hrunning, if_false]
    exact h
  | call key =>
    unfold Session.step
    dsimp only
    split_ifs
    · unfold Session.Over Session.draw
      simp only [hrunning, false_and, if_false]
      split_ifs <;> exact h
    · exact h
    · cases key with
      | none => exact h
      | some key =>
        rcases s.input_keyStep key with ⟨state, hkey, hstate⟩ | ⟨habs, -⟩
        · show (s.input key).state = .gameOver ∨ (s.input key).state = .exit
          rw [hkey]
          rcases hstate h with rfl | rfl
          · exact Or.inr rfl
          · exact h
        · exact absurd habs hrunning

/-! ### The clock -/

/-- The event makes the clock move the piece. -/
def Session.falls (s : Session) : Event → Nat
  | .tick   => 0
  | .call _ => if s.atDraw ∧ s.ticks = 0 then 1 else 0

/-- How often the clock moves the piece. -/
def Session.fallCount (s : Session) : List Event → Nat
  | []          => 0
  | e :: events => s.falls e + (s.step e).fallCount events

/-- The event is a tick. -/
def Event.isTick : Event → Bool
  | tick   => true
  | call _ => false

theorem Session.ticks_input (s : Session) (key : Key) :
    (s.input key).ticks = period ∨ (s.input key).ticks = s.ticks := by
  rcases s.input_keyStep key with ⟨state, h, -⟩ | ⟨-, h | ⟨p, h⟩ | h⟩ <;> rw [h]
  · exact Or.inr rfl
  · exact Or.inl rfl
  · exact Or.inr rfl
  · show (if s.game.CanFall then s.ticks else period) = period ∨
      (if s.game.CanFall then s.ticks else period) = s.ticks
    split_ifs
    · exact Or.inr rfl
    · exact Or.inl rfl

/-- A call starts the counter again, or leaves it as it is when no fall is due. -/
theorem Session.ticks_call (s : Session) (key : Option Key) :
    (s.step (.call key)).ticks = period ∨
      (s.step (.call key)).ticks = s.ticks ∧ s.falls (.call key) = 0 := by
  by_cases hat : s.atDraw = true
  · have hstep : s.step (.call key) = { s.draw with atDraw := false } := if_pos hat
    rw [hstep]
    unfold Session.draw
    by_cases hzero : s.ticks = 0
    · exact Or.inl (by rw [if_pos hzero])
    · exact Or.inr ⟨by rw [if_neg hzero], if_neg fun h => hzero h.2⟩
  · have hfalls : s.falls (.call key) = 0 := if_neg fun h => hat h.1
    unfold Session.step
    dsimp only
    rw [if_neg hat]
    by_cases hexit : s.state = .exit
    · rw [if_pos hexit]
      exact Or.inr ⟨rfl, hfalls⟩
    · rw [if_neg hexit]
      cases key with
      | none     => exact Or.inr ⟨rfl, hfalls⟩
      | some key => exact (s.ticks_input key).imp_right fun h => ⟨h, hfalls⟩

/-- A tick brings the next fall nearer by one, and nothing else brings it nearer. -/
theorem Session.falls_step (hs : s.WellFormed) (e : Event) :
    period * s.falls e + (period - (s.step e).ticks) ≤
      (if e.isTick then 1 else 0) + (period - s.ticks) := by
  have hticks := hs.ticks
  cases e with
  | tick =>
    -- a tick takes one off the counter at most
    have htick : (s.step .tick).ticks = s.ticks - 1 ∨ (s.step .tick).ticks = s.ticks := by
      unfold Session.step Session.tick
      dsimp only
      split_ifs
      · exact Or.inl rfl
      · exact Or.inr rfl
    have hfalls : s.falls .tick = 0 := rfl
    have hone : (if Event.tick.isTick then 1 else 0) = 1 := rfl
    rw [hfalls, hone]
    omega
  | call key =>
    have hzero : (if (Event.call key).isTick then 1 else 0) = 0 := rfl
    have hle : s.falls (.call key) ≤ if s.ticks = 0 then 1 else 0 := by
      show (if s.atDraw ∧ s.ticks = 0 then 1 else 0) ≤ if s.ticks = 0 then 1 else 0
      split_ifs <;> omega
    rw [hzero]
    rcases s.ticks_call key with h | ⟨h, hfalls⟩
    · rw [h]
      split_ifs at hle with hticks0
      · rw [hticks0]
        have : period * s.falls (.call key) ≤ period * 1 := Nat.mul_le_mul_left _ hle
        omega
      · rw [Nat.le_zero.mp hle]
        omega
    · rw [h, hfalls]
      omega

theorem Session.fallCount_le (hs : s.WellFormed) (events : List Event) :
    period * s.fallCount events + (period - (events.foldl Session.step s).ticks) ≤
      events.countP Event.isTick + (period - s.ticks) := by
  induction events generalizing s with
  | nil => exact Nat.le_of_eq (by simp [Session.fallCount])
  | cons e events ih =>
    have hrest := ih (hs.step e)
    have hstep := Session.falls_step hs e
    rw [List.foldl_cons, List.countP_cons, Session.fallCount, Nat.mul_add]
    omega

/-- **The pace.**  In every session the clock moves the piece at most once for each 35 of its
    ticks, and the counter says how many ticks are left at least. -/
theorem falls_rate (seed : U32) (events : List Event) :
    ∃ app, App.run events (App.start seed) = (some (), app) ∧ app.core.tickCounter.toNat ≤ 35 ∧
      35 * (Session.start seed).fallCount events + (35 - app.core.tickCounter.toNat) ≤
        events.countP Event.isTick := by
  obtain ⟨app, hrun, happ⟩ := run_spec seed events
  have hle := Session.fallCount_le (Session.start_wellFormed seed) events
  refine ⟨app, hrun, ?_, ?_⟩
  · rw [happ.keeps.ticks]
    exact (Session.after_wellFormed seed events).ticks
  · rw [happ.keeps.ticks]
    exact hle

end HtcLeo.Tetris

import HtcLeo.Keypad.Press
import HtcLeo.Lib.Runs
import HtcLeo.Menu.Selection
import HtcLeo.Tetris.Refinement

namespace HtcLeo.Tetris

open Keypad (Key scanUp scanDown charCarriageReturn)
open Menu (scanHome scanEsc)
open Runs

/-!
# TetrisApp — the application

`Application/TetrisApp/Core.c` and the loop of `main.c`: the keys, the clock, which may tick
between any two calls of the loop, and the states of the game.

* `Core`, `App`, `App.run` — the application, with what its loop calls next.
* `Session`, `Session.step` — the same over the game instead of the board.
* `run_spec` — for every seed and in every run the application does what the session does.
-/

/-! ### The code -/

/-- `CHAR_TAB`. -/
def charTab : BitVec 16 := 9

/-- `CHAR_BACKSPACE`. -/
def charBackspace : BitVec 16 := 8

/-- `GAME_REFRESH_PERIOD`. -/
def gameRefreshPeriod : U32 := 35

/-- `GAME_STATE`. -/
inductive GameState
  | waitingForStart
  | running
  | paused
  | gameOver
  | exit
  deriving DecidableEq, Repr

/-- `struct _Core`. -/
structure Core where
  gameState : GameState
  board : Board
  tickCounter : U32

/-- A call of a function of the board. -/
def onBoard {α : Type} (x : Prog Board α) : Prog Core α :=
  Prog.zoom Core.board (fun b core => { core with board := b }) x

/-- `this->gameState`. -/
def gameState : Prog Core GameState := Prog.query fun core => (core.gameState, core)

/-- `this->gameState = state`. -/
def setGameState (state : GameState) : Prog Core Unit :=
  Prog.modify fun core => { core with gameState := state }

/-- `resetTickCounter`. -/
def resetTickCounter : Prog Core Unit := Prog.modify fun core =>
  { core with tickCounter := (gameRefreshPeriod * (11 - core.board.level)).sdiv 10 }

/-- `togglePause`. -/
def togglePause : Prog Core Unit := do
  if (← gameState) = .paused then setGameState .running else setGameState .paused

/-- `handleInput`; `key` is `none` for `EFI_NOT_READY`. -/
def handleInput (key : Option Key) : Prog Core Unit := do
  let state ← gameState
  match key with
  | none => pure ()
  | some key =>
      if state = .waitingForStart then setGameState .running
      else if key.scanCode = scanHome then
        if state = .running then
          onBoard dropPiece
          resetTickCounter
      else if key.scanCode = scanUp then
        if state = .running then onBoard movePieceLeft
      else if key.scanCode = scanDown then
        if state = .running then onBoard movePieceRight
      else if key.scanCode = scanEsc then setGameState .exit
      else if key.unicodeChar = charCarriageReturn then
        if state = .running then
          if !(← onBoard movePieceDown) then resetTickCounter
      else if key.unicodeChar = charTab then
        if state = .running then onBoard rotatePiece
      else if key.unicodeChar = charBackspace then
        if state = .running ∨ state = .paused then togglePause

/-- `drawWindow`; `drawBoard` only prints. -/
def drawWindow : Prog Core Unit := do
  let state ← gameState
  let blocked ← onBoard (Prog.query fun b => (b.blocked, b))
  if state = .running ∧ blocked = true then setGameState .gameOver
  if (← Prog.query fun core => (core.tickCounter, core)) = 0 then
    let _ ← onBoard movePieceDown
    resetTickCounter

/-- `timerCallback`. -/
def timerCallback : Prog Core Unit := Prog.modify fun core =>
  if core.gameState = .running ∧ core.tickCounter ≠ 0 then
    { core with tickCounter := core.tickCounter - 1 }
  else core

/-- `ConstructCore`. -/
def constructCore (seed : U32) : Core :=
  { gameState := .waitingForStart, board := constructBoard seed, tickCounter := gameRefreshPeriod }

/-- The application in the loop of `UefiMain`; `atDraw` when `drawWindow` is called next. -/
structure App where
  core : Core
  atDraw : Bool

/-- What happens: the clock ticks, or the loop makes its next call; a `ReadKeyStroke` in it finds
    `key`. -/
inductive Event
  | tick
  | call (key : Option Key)

/-- A call on the core. -/
def onCore (x : Prog Core Unit) : Prog App Unit :=
  Prog.zoom App.core (fun core app => { app with core := core }) x

/-- One event; `while ( core->gameState != GAME_STATE_EXIT )` stands before `handleInput`. -/
def App.step : Event → Prog App Unit
  | .tick => onCore timerCallback
  | .call key => do
      let app ← Prog.query fun app => (app, app)
      if app.atDraw then
        onCore drawWindow
        Prog.modify fun app => { app with atDraw := false }
      else if app.core.gameState ≠ .exit then
        onCore (handleInput key)
        Prog.modify fun app => { app with atDraw := true }

/-- The events one after the other. -/
def App.run (events : List Event) : Prog App Unit := forM events App.step

/-- `UefiMain` before its loop. -/
def App.start (seed : U32) : App := ⟨constructCore seed, false⟩

/-! ### The session -/

/-- The game with its clock. -/
structure Session where
  state : GameState
  game : Game
  ticks : Nat
  atDraw : Bool

namespace Session

/-- The rows of ticks between two falls. -/
def period : Nat := 35

/-- What a key does. -/
def input (s : Session) (key : Key) : Session :=
  if s.state = .waitingForStart then { s with state := .running }
  else if key.scanCode = scanHome then
    if s.state = .running then { s with game := s.game.drop, ticks := period } else s
  else if key.scanCode = scanUp then
    if s.state = .running then { s with game := s.game.sideways (-1) } else s
  else if key.scanCode = scanDown then
    if s.state = .running then { s with game := s.game.sideways 1 } else s
  else if key.scanCode = scanEsc then { s with state := .exit }
  else if key.unicodeChar = charCarriageReturn then
    if s.state = .running then
      { s with game := s.game.down, ticks := if s.game.CanFall then s.ticks else period }
    else s
  else if key.unicodeChar = charTab then
    if s.state = .running then { s with game := s.game.rotate } else s
  else if key.unicodeChar = charBackspace then
    if s.state = .running then { s with state := .paused }
    else if s.state = .paused then { s with state := .running }
    else s
  else s

/-- The window is drawn, and the piece falls if it is time. -/
def draw (s : Session) : Session :=
  let state := if s.state = .running ∧ s.game.ended = true then .gameOver else s.state
  if s.ticks = 0 then { s with state, game := s.game.down, ticks := period } else { s with state }

/-- The clock ticks. -/
def tick (s : Session) : Session :=
  if s.state = .running then { s with ticks := s.ticks - 1 } else s

/-- One event. -/
def step (s : Session) : Event → Session
  | .tick => s.tick
  | .call key =>
      if s.atDraw then { s.draw with atDraw := false }
      else if s.state = .exit then s
      else
        match key with
        | none     => { s with atDraw := true }
        | some key => { s.input key with atDraw := true }

/-- The session that a seed starts. -/
def start (seed : U32) : Session := ⟨.waitingForStart, .start seed, period, false⟩

end Session

/-! ### The application does what the session does -/

@[simp] theorem Game.level_become (g : Game) (p : Piece) : (g.become p).level = g.level := by
  unfold Game.become
  split_ifs <;> rfl

@[simp] theorem Game.level_land (g : Game) : g.land.level = g.level := by
  unfold Game.land
  split_ifs <;> rfl

@[simp] theorem Game.level_down (g : Game) : g.down.level = g.level := by
  unfold Game.down
  split_ifs
  · rfl
  · exact g.level_land

@[simp] theorem Game.level_drop (g : Game) : g.drop.level = g.level :=
  (g.lowered g.fall).level_land

/-- The game is well-formed, on the first level, and there is at most a period to go. -/
structure Session.WellFormed (s : Session) : Prop where
  game : s.game.WellFormed
  level : s.game.level = 1
  ticks : s.ticks ≤ period

/-- The core stands for the session. -/
structure Keeps (s : Session) (core : Core) : Prop where
  state : core.gameState = s.state
  game : Represents s.game core.board
  ticks : core.tickCounter.toNat = s.ticks

/-- And the application does. -/
structure Plays (s : Session) (app : App) : Prop where
  keeps : Keeps s app.core
  atDraw : app.atDraw = s.atDraw

variable {s : Session}

theorem gameState_spec :
    Prog.Completes (Keeps s) gameState (fun state core => state = s.state ∧ Keeps s core) :=
  Prog.Completes.query fun _ h => ⟨h.state, h⟩

theorem setGameState_spec (state : GameState) :
    Prog.Completes (Keeps s) (setGameState state) (fun _ => Keeps { s with state }) :=
  Prog.Completes.modify fun _ h => ⟨rfl, h.game, h.ticks⟩

theorem onBoard_spec {α : Type} {x : Prog Board α} {R : α → Prop} {g : Game}
    (h : Prog.Completes (Represents s.game) x (fun r b => R r ∧ Represents g b)) :
    Prog.Completes (Keeps s) (onBoard x)
      (fun r core => R r ∧ Keeps { s with game := g } core) := by
  intro core hcore
  obtain ⟨r, b, hrun, hr, hb⟩ := h core.board hcore.game
  exact ⟨r, _, Prog.zoom_of hrun, hr, hcore.state, hb, hcore.ticks⟩

theorem onBoard_unit_spec {x : Prog Board Unit} {g : Game}
    (h : Prog.Completes (Represents s.game) x (fun _ => Represents g)) :
    Prog.Completes (Keeps s) (onBoard x) (fun _ => Keeps { s with game := g }) :=
  (onBoard_spec (R := fun _ => True) (h.mono (fun _ hb => hb) fun _ _ hb => ⟨trivial, hb⟩)).mono
    (fun _ hb => hb) fun _ _ hb => hb.2

/-- On the first level the counter starts from the whole period. -/
theorem resetTickCounter_spec (hlevel : s.game.level = 1) :
    Prog.Completes (Keeps s) resetTickCounter
      (fun _ => Keeps { s with ticks := Session.period }) := by
  refine Prog.Completes.modify fun core h => ⟨h.state, h.game, ?_⟩
  show ((gameRefreshPeriod * (11 - core.board.level)).sdiv 10).toNat = Session.period
  rw [h.game.agrees.level, hlevel]
  decide

theorem togglePause_spec (h : s.state = .running ∨ s.state = .paused) :
    Prog.Completes (Keeps s) togglePause
      (fun _ => Keeps { s with state := if s.state = .running then .paused else .running }) := by
  refine Prog.Completes.bind_eq gameState_spec ?_
  rcases h with h | h
  · rw [h, if_neg (by decide), if_pos rfl]
    exact setGameState_spec _
  · rw [h, if_pos rfl, if_neg (by decide)]
    exact setGameState_spec _

theorem handleInput_spec (hs : s.WellFormed) (key : Key) :
    Prog.Completes (Keeps s) (handleInput (some key)) (fun _ => Keeps (s.input key)) := by
  have hsame : Prog.Completes (Keeps s) (pure () : Prog Core Unit) (fun _ => Keeps s) :=
    Prog.Completes.pure fun _ h => h
  refine Prog.Completes.bind_eq gameState_spec ?_
  unfold Session.input
  dsimp only
  by_cases hwaiting : s.state = .waitingForStart
  · rw [if_pos hwaiting, if_pos hwaiting]
    exact setGameState_spec _
  rw [if_neg hwaiting, if_neg hwaiting]
  by_cases hhome : key.scanCode = scanHome
  · rw [if_pos hhome, if_pos hhome]
    split_ifs
    · refine Prog.Completes.bind (onBoard_unit_spec (dropPiece_refines hs.game)) fun _ => ?_
      exact resetTickCounter_spec (by simpa using hs.level)
    · exact hsame
  rw [if_neg hhome, if_neg hhome]
  by_cases hup : key.scanCode = scanUp
  · rw [if_pos hup, if_pos hup]
    split_ifs
    · exact onBoard_unit_spec (movePieceSideways_refines hs.game (-1))
    · exact hsame
  rw [if_neg hup, if_neg hup]
  by_cases hdown : key.scanCode = scanDown
  · rw [if_pos hdown, if_pos hdown]
    split_ifs
    · exact onBoard_unit_spec (movePieceSideways_refines hs.game 1)
    · exact hsame
  rw [if_neg hdown, if_neg hdown]
  by_cases hesc : key.scanCode = scanEsc
  · rw [if_pos hesc, if_pos hesc]
    exact setGameState_spec _
  rw [if_neg hesc, if_neg hesc]
  by_cases hreturn : key.unicodeChar = charCarriageReturn
  · rw [if_pos hreturn, if_pos hreturn]
    by_cases hrunning : s.state = .running
    · rw [if_pos hrunning, if_pos hrunning]
      refine Prog.Completes.bind_eq (onBoard_spec (movePieceDown_refines hs.game)) ?_
      by_cases hfall : s.game.CanFall
      · rw [decide_eq_true hfall, if_pos hfall]
        exact Prog.Completes.pure fun _ h => h
      · rw [decide_eq_false hfall, if_neg hfall]
        exact resetTickCounter_spec (by simpa using hs.level)
    · rw [if_neg hrunning, if_neg hrunning]
      exact hsame
  rw [if_neg hreturn, if_neg hreturn]
  by_cases htab : key.unicodeChar = charTab
  · rw [if_pos htab, if_pos htab]
    split_ifs
    · exact onBoard_unit_spec (rotatePiece_refines hs.game)
    · exact hsame
  rw [if_neg htab, if_neg htab]
  by_cases hback : key.unicodeChar = charBackspace
  · rw [if_pos hback, if_pos hback]
    by_cases hrunning : s.state = .running
    · rw [if_pos (Or.inl hrunning), if_pos hrunning]
      simpa only [hrunning, if_true] using togglePause_spec (Or.inl hrunning)
    · rw [if_neg hrunning]
      by_cases hpaused : s.state = .paused
      · rw [if_pos (Or.inr hpaused), if_pos hpaused]
        simpa only [hrunning, if_false] using togglePause_spec (Or.inr hpaused)
      · rw [if_neg hpaused, if_neg (fun h => h.elim hrunning hpaused)]
        exact hsame
  rw [if_neg hback, if_neg hback]
  exact hsame

theorem drawWindow_spec (hs : s.WellFormed) :
    Prog.Completes (Keeps s) drawWindow (fun _ => Keeps s.draw) := by
  have hblocked : Prog.Completes (Keeps s) (onBoard (Prog.query fun b => (b.blocked, b)))
      (fun r core => r = s.game.ended ∧ Keeps s core) :=
    onBoard_spec (Prog.Completes.query fun b h => ⟨h.agrees.blocked, h⟩)
  have hfall : ∀ state, Prog.Completes (Keeps { s with state })
      (do if (← Prog.query fun core => (core.tickCounter, core)) = 0 then
            let _ ← onBoard movePieceDown
            resetTickCounter)
      (fun _ => Keeps (if s.ticks = 0 then
        { s with state, game := s.game.down, ticks := Session.period } else { s with state })) := by
    intro state
    have hticks : Prog.Completes (Keeps { s with state })
        (Prog.query fun core => (core.tickCounter, core))
        (fun r core => (r = 0 ↔ s.ticks = 0) ∧ Keeps { s with state } core) := by
      refine Prog.Completes.query fun core h => ⟨?_, h⟩
      rw [← h.ticks, ← BitVec.toNat_inj]
      rfl
    refine Prog.Completes.bind hticks fun r core hcore => ?_
    obtain ⟨hr, hcore⟩ := hcore
    by_cases hzero : s.ticks = 0
    · rw [if_pos hzero, if_pos (hr.mpr hzero)]
      exact Prog.Completes.bind
        (onBoard_spec (s := { s with state }) (movePieceDown_refines hs.game)) (fun _ => (resetTickCounter_spec (by simpa using hs.level)).mono (fun _ h => h.2)
          fun _ _ h => h) core hcore
    · rw [if_neg hzero, if_neg (fun h => hzero (hr.mp h))]
      exact ⟨(), core, rfl, hcore⟩
  refine Prog.Completes.bind_eq gameState_spec (Prog.Completes.bind_eq hblocked ?_)
  unfold Session.draw
  by_cases hover : s.state = .running ∧ s.game.ended = true
  · rw [if_pos hover, if_pos hover]
    exact Prog.Completes.bind (setGameState_spec .gameOver) fun _ => hfall .gameOver
  · rw [if_neg hover, if_neg hover]
    exact hfall s.state

theorem timerCallback_spec :
    Prog.Completes (Keeps s) timerCallback (fun _ => Keeps s.tick) := by
  refine Prog.Completes.modify fun core h => ?_
  unfold Session.tick
  have hzero : core.tickCounter = 0 ↔ s.ticks = 0 := by
    rw [← h.ticks, ← BitVec.toNat_inj]
    rfl
  by_cases hrunning : s.state = .running
  · rw [if_pos hrunning]
    by_cases hticks : core.tickCounter = 0
    · rw [if_neg (fun hand => hand.2 hticks)]
      exact ⟨h.state, h.game, by rw [h.ticks, hzero.mp hticks]⟩
    · rw [if_pos ⟨h.state.trans hrunning, hticks⟩]
      refine ⟨h.state, h.game, ?_⟩
      show (core.tickCounter - 1).toNat = s.ticks - 1
      have hpos : s.ticks ≠ 0 := fun h => hticks (hzero.mpr h)
      have hlt := core.tickCounter.isLt
      have hone : (1 : U32).toNat = 1 := rfl
      have hvalue := h.ticks
      rw [BitVec.toNat_sub, hone]
      omega
  · rw [if_neg hrunning, if_neg (fun hand => hrunning (h.state ▸ hand.1))]
    exact h

theorem onCore_spec {x : Prog Core Unit} {s' : Session}
    (h : Prog.Completes (Keeps s) x (fun _ => Keeps s')) (hdraw : s'.atDraw = s.atDraw) :
    Prog.Completes (Plays s) (onCore x) (fun _ => Plays s') := by
  intro app happ
  obtain ⟨_, core, hrun, hcore⟩ := h app.core happ.keeps
  exact ⟨(), _, Prog.zoom_of hrun, hcore, happ.atDraw.trans hdraw.symm⟩

theorem setAtDraw_spec (atDraw : Bool) :
    Prog.Completes (Plays s) (Prog.modify fun app => { app with atDraw })
      (fun _ => Plays { s with atDraw }) :=
  Prog.Completes.modify fun _ h => ⟨⟨h.keeps.state, h.keeps.game, h.keeps.ticks⟩, rfl⟩

@[simp] theorem Session.atDraw_draw (s : Session) : s.draw.atDraw = s.atDraw := by
  unfold Session.draw
  dsimp only
  split_ifs <;> rfl

@[simp] theorem Session.atDraw_tick (s : Session) : s.tick.atDraw = s.atDraw := by
  unfold Session.tick
  split_ifs <;> rfl

/-- The game is over, or the application too. -/
def Session.Over (s : Session) : Prop := s.state = .gameOver ∨ s.state = .exit

/-- What a key can do: change the state, or, in a running game, move the piece. -/
def Session.KeyStep (s t : Session) : Prop :=
  (∃ state, t = { s with state } ∧ (s.Over → state = .exit ∨ state = s.state)) ∨
  s.state = .running ∧
    (t = { s with game := s.game.drop, ticks := period } ∨
    (∃ p, t = { s with game := s.game.become p }) ∨
    t = { s with game := s.game.down, ticks := if s.game.CanFall then s.ticks else period })

theorem Session.input_keyStep (s : Session) (key : Key) : s.KeyStep (s.input key) := by
  have hset : ∀ state, ¬ s.Over ∨ state = .exit ∨ state = s.state → s.KeyStep { s with state } :=
    fun state h => Or.inl ⟨state, rfl, fun hover => h.resolve_left (not_not.mpr hover)⟩
  have hkeep : s.KeyStep s := hset s.state (Or.inr (Or.inr rfl))
  have hif : ∀ t, (s.state = .running → s.KeyStep t) →
      s.KeyStep (if s.state = .running then t else s) := by
    intro t ht
    split_ifs with hrunning
    · exact ht hrunning
    · exact hkeep
  have hnot : ∀ state, s.state = state → state ≠ .gameOver → state ≠ .exit → ¬ s.Over := by
    rintro state rfl hover hexit
    exact fun h => h.elim hover hexit
  unfold Session.input
  by_cases hwaiting : s.state = .waitingForStart
  · rw [if_pos hwaiting]
    exact hset _ (Or.inl (hnot _ hwaiting (by decide) (by decide)))
  rw [if_neg hwaiting]
  by_cases hhome : key.scanCode = scanHome
  · rw [if_pos hhome]
    exact hif _ fun h => Or.inr ⟨h, Or.inl rfl⟩
  rw [if_neg hhome]
  by_cases hup : key.scanCode = scanUp
  · rw [if_pos hup]
    exact hif _ fun h => Or.inr ⟨h, Or.inr (Or.inl ⟨_, rfl⟩)⟩
  rw [if_neg hup]
  by_cases hdown : key.scanCode = scanDown
  · rw [if_pos hdown]
    exact hif _ fun h => Or.inr ⟨h, Or.inr (Or.inl ⟨_, rfl⟩)⟩
  rw [if_neg hdown]
  by_cases hesc : key.scanCode = scanEsc
  · rw [if_pos hesc]
    exact hset _ (Or.inr (Or.inl rfl))
  rw [if_neg hesc]
  by_cases hreturn : key.unicodeChar = charCarriageReturn
  · rw [if_pos hreturn]
    exact hif _ fun h => Or.inr ⟨h, Or.inr (Or.inr rfl)⟩
  rw [if_neg hreturn]
  by_cases htab : key.unicodeChar = charTab
  · rw [if_pos htab]
    exact hif _ fun h => Or.inr ⟨h, Or.inr (Or.inl ⟨_, rfl⟩)⟩
  rw [if_neg htab]
  by_cases hback : key.unicodeChar = charBackspace
  · rw [if_pos hback]
    by_cases hrunning : s.state = .running
    · rw [if_pos hrunning]
      exact hset _ (Or.inl (hnot _ hrunning (by decide) (by decide)))
    rw [if_neg hrunning]
    by_cases hpaused : s.state = .paused
    · rw [if_pos hpaused]
      exact hset _ (Or.inl (hnot _ hpaused (by decide) (by decide)))
    · rw [if_neg hpaused]
      exact hkeep
  · rw [if_neg hback]
    exact hkeep

@[simp] theorem Session.atDraw_input (s : Session) (key : Key) :
    (s.input key).atDraw = s.atDraw := by
  rcases s.input_keyStep key with ⟨state, h, -⟩ | ⟨-, h | ⟨p, h⟩ | h⟩ <;> rw [h]

/-- **Step lemma.** -/
theorem step_spec (hs : s.WellFormed) (e : Event) :
    Prog.Completes (Plays s) (App.step e) (fun _ => Plays (s.step e)) := by
  cases e with
  | tick => exact onCore_spec timerCallback_spec s.atDraw_tick
  | call key =>
    intro app happ
    have hstate := happ.keeps.state
    have hdraw := happ.atDraw
    -- the loop is at one of its two calls, or has ended
    have hquery : (Prog.query fun app => (app, app) : Prog App App) app = (some app, app) := rfl
    unfold Session.step
    dsimp only
    by_cases hat : s.atDraw = true
    · rw [if_pos hat]
      obtain ⟨_, app', hrun, happ'⟩ := Prog.Completes.bind
        (onCore_spec (drawWindow_spec hs) s.atDraw_draw) (fun _ => setAtDraw_spec false) app happ
      refine ⟨(), app', Prog.bind_of hquery ?_, happ'⟩
      rw [if_pos (hdraw.trans hat)]
      exact hrun
    · rw [if_neg hat]
      have hat' : ¬ app.atDraw = true := fun h => hat (hdraw.symm.trans h)
      by_cases hexit : s.state = .exit
      · rw [if_pos hexit]
        refine ⟨(), app, Prog.bind_of hquery ?_, happ⟩
        rw [if_neg hat', if_neg (not_not.mpr (hstate.trans hexit))]
        rfl
      · rw [if_neg hexit]
        have hexit' : app.core.gameState ≠ .exit := fun h => hexit (hstate.symm.trans h)
        cases key with
        | none =>
          have hnone : Prog.Completes (Keeps s) (handleInput none) (fun _ => Keeps s) :=
            Prog.Completes.bind_eq gameState_spec (Prog.Completes.pure fun _ h => h)
          obtain ⟨_, app', hrun, happ'⟩ := Prog.Completes.bind (onCore_spec hnone rfl)
            (fun _ => setAtDraw_spec true) app happ
          refine ⟨(), app', Prog.bind_of hquery ?_, happ'⟩
          rw [if_neg hat', if_pos hexit']
          exact hrun
        | some key =>
          obtain ⟨_, app', hrun, happ'⟩ := Prog.Completes.bind
            (onCore_spec (handleInput_spec hs key) (s.atDraw_input key))
            (fun _ => setAtDraw_spec true) app happ
          refine ⟨(), app', Prog.bind_of hquery ?_, happ'⟩
          rw [if_neg hat', if_pos hexit']
          exact hrun

/-! ### Well-formed sessions -/

theorem Session.WellFormed.input (hs : s.WellFormed) (key : Key) : (s.input key).WellFormed := by
  obtain ⟨hgame, hlevel, hticks⟩ := hs
  rcases s.input_keyStep key with ⟨state, h, -⟩ | ⟨-, h | ⟨p, h⟩ | h⟩ <;> rw [h]
  · exact ⟨hgame, hlevel, hticks⟩
  · exact ⟨hgame.drop, by simpa using hlevel, le_rfl⟩
  · exact ⟨hgame.become p, by simpa using hlevel, hticks⟩
  · refine ⟨hgame.down, by simpa using hlevel, ?_⟩
    show (if s.game.CanFall then s.ticks else period) ≤ period
    split_ifs
    · exact hticks
    · exact le_rfl

theorem Session.WellFormed.draw (hs : s.WellFormed) : s.draw.WellFormed := by
  obtain ⟨hgame, hlevel, hticks⟩ := hs
  unfold Session.draw
  dsimp only
  split_ifs
  · exact ⟨hgame.down, by simpa using hlevel, le_rfl⟩
  · exact ⟨hgame.down, by simpa using hlevel, le_rfl⟩
  · exact ⟨hgame, hlevel, hticks⟩
  · exact ⟨hgame, hlevel, hticks⟩

theorem Session.WellFormed.tick (hs : s.WellFormed) : s.tick.WellFormed := by
  obtain ⟨hgame, hlevel, hticks⟩ := hs
  unfold Session.tick
  split_ifs
  · exact ⟨hgame, hlevel, (Nat.sub_le _ _).trans hticks⟩
  · exact ⟨hgame, hlevel, hticks⟩

theorem Session.WellFormed.step (hs : s.WellFormed) (e : Event) : (s.step e).WellFormed := by
  cases e with
  | tick => exact hs.tick
  | call key =>
    unfold Session.step
    dsimp only
    split_ifs
    · obtain ⟨hgame, hlevel, hticks⟩ := hs.draw
      exact ⟨hgame, hlevel, hticks⟩
    · exact hs
    · cases key with
      | none => exact ⟨hs.game, hs.level, hs.ticks⟩
      | some key =>
        obtain ⟨hgame, hlevel, hticks⟩ := hs.input key
        exact ⟨hgame, hlevel, hticks⟩

theorem Session.start_wellFormed (seed : U32) : (Session.start seed).WellFormed :=
  ⟨Game.start_wellFormed seed, rfl, le_rfl⟩

/-- The session after some events from the start. -/
abbrev Session.after (seed : U32) (events : List Event) : Session :=
  events.foldl Session.step (.start seed)

theorem Session.after_wellFormed (seed : U32) (events : List Event) :
    (Session.after seed events).WellFormed :=
  (Always.of_invariant (fun _ e hs => hs.step e) (Session.start_wellFormed seed) events).last

/-! ### Runs -/

theorem App.start_plays (seed : U32) : Plays (.start seed) (App.start seed) :=
  ⟨⟨rfl, constructBoard_represents seed, rfl⟩, rfl⟩

/-- **Run lemma.**  Whatever happens, the application goes on, and does what the session does. -/
theorem run_spec (seed : U32) (events : List Event) :
    ∃ app, App.run events (App.start seed) = (some (), app) ∧
      Plays (Session.after seed events) app := by
  have hstep : ∀ (s : Session) (e : Event),
      Prog.Completes (fun app => s.WellFormed ∧ Plays s app) (App.step e)
        (fun _ app => (s.step e).WellFormed ∧ Plays (s.step e) app) := by
    rintro s e app ⟨hs, happ⟩
    obtain ⟨_, app', hrun, happ'⟩ := step_spec hs e app happ
    exact ⟨(), app', hrun, hs.step e, happ'⟩
  obtain ⟨_, app, hrun, -, happ⟩ := Prog.Completes.forM_foldl
    (fun s app => Session.WellFormed s ∧ Plays s app) hstep events (Session.start seed)
    (App.start seed) ⟨Session.start_wellFormed seed, App.start_plays seed⟩
  exact ⟨app, hrun, happ⟩

end HtcLeo.Tetris

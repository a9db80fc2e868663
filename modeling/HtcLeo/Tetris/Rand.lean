import HtcLeo.Lib.Lcg
import HtcLeo.Tetris.Sessions
import Mathlib.Data.Int.CardIntervalMod

namespace HtcLeo.Tetris

open Lcg Runs

/-!
# TetrisApp — the sequence of the pieces

`rand` of `Piece.c` is a linear congruential generator modulo `2 ^ 31`, and each piece takes one
number of it.

* `rand_iterate` — the generator, by natural numbers.
* `Game.Dealt` — the pieces of a game are those of the next numbers.
* `pieces_dealt` — in every session, and how often each shape comes.
-/

/-- The numbers of `rand` are those of the generator. -/
theorem toNat_rand (r : U32) : (rand r).toNat = nextMod (2 ^ 31) 69069 1 r.toNat := by
  have hM : randM.toNat = 2 ^ 31 := by decide
  rw [rand, BitVec.toNat_umod, hM, BitVec.toNat_add, BitVec.toNat_mul, nextMod]
  have ha : (69069 : U32).toNat = 69069 := rfl
  have hc : (1 : U32).toNat = 1 := rfl
  rw [ha, hc]
  omega

theorem rand_iterate (r : U32) (n : Nat) :
    (rand^[n] r).toNat = (nextMod (2 ^ 31) 69069 1)^[n] r.toNat := by
  induction n with
  | zero => rfl
  | succ n ih => rw [Function.iterate_succ_apply', Function.iterate_succ_apply', toNat_rand, ih]

/-- The case of `randomize` that makes the shape. -/
def Tetrimino.case : Tetrimino → Nat
  | .I => 0
  | .J => 1
  | .L => 2
  | .O => 3
  | .S => 4
  | .T => 5
  | .Z => 6

theorem Tetrimino.ofRand_eq_iff (r : U32) (kind : Tetrimino) :
    Tetrimino.ofRand r = kind ↔ r.toNat % 7 = kind.case := by
  have hmod : (r % 7).toNat = r.toNat % 7 := BitVec.toNat_umod
  have hlt : r.toNat % 7 < 7 := Nat.mod_lt _ (by decide)
  rw [Tetrimino.ofRand, hmod]
  generalize r.toNat % 7 = k at hlt
  revert hlt
  match k with
  | 0 | 1 | 2 | 3 | 4 | 5 | 6 => cases kind <;> decide
  | k + 7 => exact fun h => absurd h (by omega)

/-- How often a shape comes in a period of the generator. -/
def Tetrimino.perPeriod (kind : Tetrimino) : Nat :=
  if kind = .I ∨ kind = .J then 306783379 else 306783378

theorem count_case (kind : Tetrimino) :
    (2 ^ 31).count (fun v => v % 7 = kind.case) = kind.perPeriod := by
  have hcase : kind.case % 7 = kind.case := by cases kind <;> rfl
  have hcount := Nat.count_modEq_card (2 ^ 31) (by decide : 0 < 7) kind.case
  rw [hcase] at hcount
  have hsame : (fun v => v % 7 = kind.case) = (fun v => v ≡ kind.case [MOD 7]) := by
    funext v
    rw [Nat.ModEq, hcase]
  simp only [hsame]
  rw [hcount]
  cases kind <;> decide

/-- In a period of `rand`, from wherever it begins, each shape comes as often as the other ones,
    or once more. -/
theorem card_shapes (r : U32) (kind : Tetrimino) :
    ((Finset.range (2 ^ 31)).filter
      fun n => Tetrimino.ofRand (rand^[n + 1] r) = kind).card = kind.perPeriod := by
  have hlt : (rand r).toNat < 2 ^ (30 + 1) := by
    rw [toNat_rand]
    exact Nat.mod_lt _ (by decide)
  have hcard := card_filter_iterate 30 (a := 69069) (c := 1) (by decide) (by decide) hlt
    fun v => v % 7 = kind.case
  rw [count_case] at hcard
  refine Eq.trans ?_ hcard
  refine congrArg Finset.card (Finset.filter_congr fun n _ => ?_)
  rw [Function.iterate_succ_apply, Tetrimino.ofRand_eq_iff, rand_iterate]

namespace Game

/-- After `n` numbers of the generator that `seed` starts, of which the last one has made the next
    piece. -/
def Dealt (seed : U32) (g : Game) : Prop :=
  g.seed = rand^[g.placed + 5] seed ∧ g.next.kind = .ofRand g.seed

variable {g : Game} {seed : U32}

theorem Dealt.congr {g' : Game} (h : g.Dealt seed) (hseed : g'.seed = g.seed)
    (hnext : g'.next = g.next) (hplaced : g'.placed = g.placed) : g'.Dealt seed := by
  unfold Dealt
  rw [hseed, hnext, hplaced]
  exact h

theorem Dealt.become (h : g.Dealt seed) (p : Piece) : (g.become p).Dealt seed := by
  unfold Game.become
  split_ifs
  · exact h.congr rfl rfl rfl
  · exact h

theorem Dealt.land (h : g.Dealt seed) : g.land.Dealt seed := by
  unfold Game.land
  split_ifs
  · exact h.congr rfl rfl rfl
  · refine ⟨?_, rfl⟩
    show rand g.seed = rand^[g.placed + 1 + 5] seed
    rw [h.1, Nat.add_right_comm]
    exact (Function.iterate_succ_apply' rand _ seed).symm

theorem Dealt.down (h : g.Dealt seed) : g.down.Dealt seed := by
  unfold Game.down
  split_ifs
  · exact h.congr rfl rfl rfl
  · exact h.land

theorem Dealt.drop (h : g.Dealt seed) : g.drop.Dealt seed := by
  have hlowered : (g.lowered g.fall).Dealt seed := h.congr rfl rfl rfl
  exact hlowered.land.congr rfl rfl rfl

end Game

/-- **Step lemma.**  The numbers are dealt one after the other. -/
theorem Session.dealt_step {s : Session} {seed : U32} (h : s.game.Dealt seed) (e : Event) :
    (s.step e).game.Dealt seed := by
  cases e with
  | tick =>
    unfold Session.step Session.tick
    dsimp only
    split_ifs <;> exact h
  | call key =>
    unfold Session.step
    dsimp only
    split_ifs
    · unfold Session.draw
      dsimp only
      split_ifs
      · exact h.down
      · exact h.down
      · exact h
      · exact h
    · exact h
    · cases key with
      | none => exact h
      | some key =>
        show (s.input key).game.Dealt seed
        rcases s.input_keyStep key with ⟨state, hkey, -⟩ | ⟨-, hkey | ⟨p, hkey⟩ | hkey⟩ <;> rw [hkey]
        · exact h
        · exact h.drop
        · exact h.become p
        · exact h.down

/-- **The pieces.**  In every session the piece that is shown as the next one is made by the next
    number of `rand`; and among any `2 ^ 31` numbers in a row each shape comes 306783378 times, or
    once more for the first two. -/
theorem pieces_dealt (seed : U32) :
    (∀ events, ∃ app, App.run events (App.start seed) = (some (), app) ∧
      app.core.board.nextPiece.kind =
        .ofRand (rand^[(Session.after seed events).game.placed + 5] seed)) ∧
    ∀ first kind, ((Finset.range (2 ^ 31)).filter
      fun n => Tetrimino.ofRand (rand^[n + 1 + first] seed) = kind).card = kind.perPeriod := by
  refine ⟨fun events => ?_, fun first kind => ?_⟩
  · obtain ⟨app, hrun, happ⟩ := run_spec seed events
    have hstart : (Session.start seed).game.Dealt seed := ⟨rfl, rfl⟩
    have hdealt := (Always.of_invariant (P := fun s : Session => s.game.Dealt seed)
      (fun _ e h => Session.dealt_step h e) hstart events).last
    refine ⟨app, hrun, ?_⟩
    rw [happ.keeps.game.agrees.next, hdealt.2, hdealt.1]
  · simp only [Function.iterate_add_apply rand _ first]
    exact card_shapes _ kind

end HtcLeo.Tetris

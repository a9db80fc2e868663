import HtcLeo.Lib.Memory
import HtcLeo.Lib.Runs
import Mathlib.Data.List.Count

namespace HtcLeo.FrameBuffer

open Runs

/-!
# A terminal that fills pages

What a console on a page of character cells is for, without its pixels: the terminal that the
frame buffer console is compared with.

* `Op` — what a terminal does to its page and its cursor.
* `Page.step` — what it does for a byte, and where the cursor is then.
* `Page.write` — the operations of a stream, one after the other.
* `Page.writeTwice` — the same, with a byte that ends a page processed once more on the new one.
* `writeTwice_eq_iff` — the two do the same over a stream exactly when every page in it is ended
  by a space.
-/

/-! ### Operations -/

/-- What is done to the page and the cursor. -/
inductive Op
  | draw (c : Byte) (x y : Nat)
  | advance
  | lineFeed
  | clear
  | home
  | carriageReturn
  deriving DecidableEq, Repr

/-- A position on the page. -/
structure Cursor where
  x : Nat
  y : Nat
  deriving DecidableEq, Repr

/-- A page: the columns of a line, how far one line is below the other, and the line on which the
    page is full. -/
structure Page where
  columns : Nat
  lineHeight : Nat
  lastLine : Nat
  deriving DecidableEq, Repr

/-- The bytes that are drawn. -/
def printable (c : Byte) : Bool := 32 ≤ c && c ≤ 127

/-- `'\n'`. -/
def lf : Byte := 10
/-- `'\r'`. -/
def cr : Byte := 13
/-- `' '`. -/
def space : Byte := 32

namespace Page

variable (p : Page)

/-- The next line; on the last one the page is cleared, and begun again at its top. -/
def newline (cur : Cursor) : List Op × Cursor :=
  if p.lastLine ≤ cur.y + p.lineHeight then ([.lineFeed, .clear, .home], ⟨0, 0⟩)
  else ([.lineFeed], ⟨0, cur.y + p.lineHeight⟩)

/-- What a byte does. -/
def step (cur : Cursor) (c : Byte) : List Op × Cursor :=
  if c = lf then p.newline cur
  else if c = cr then ([.carriageReturn], ⟨0, cur.y⟩)
  else if printable c = false then ([], cur)
  else if c = space ∧ cur.x = 0 then ([], cur)  -- saves some space
  else if p.columns ≤ cur.x + 1 then
    ([.draw c cur.x cur.y, .advance] ++ (p.newline cur).1, (p.newline cur).2)
  else ([.draw c cur.x cur.y, .advance], ⟨cur.x + 1, cur.y⟩)

/-- The byte ends the page. -/
def EndsPage (cur : Cursor) (c : Byte) : Prop := Op.clear ∈ (p.step cur c).1

instance (cur : Cursor) (c : Byte) : Decidable (p.EndsPage cur c) :=
  inferInstanceAs (Decidable (_ ∈ _))

/-- The operations so far, and one byte more. -/
def write (t : List Op × Cursor) (c : Byte) : List Op × Cursor :=
  (t.1 ++ (p.step t.2 c).1, (p.step t.2 c).2)

/-- The same, where a byte that ends the page is processed again. -/
def writeTwice (t : List Op × Cursor) (c : Byte) : List Op × Cursor :=
  if p.EndsPage t.2 c then p.write (p.write t c) c else p.write t c

/-! ### One byte -/

variable {p} {cur cur' : Cursor} {c : Byte}

/-- The number of characters drawn that are not spaces. -/
def glyphs (ops : List Op) : Nat :=
  ops.countP fun
    | .draw c _ _ => c ≠ space
    | _ => false

/-- The number of lines begun. -/
def lineFeeds (ops : List Op) : Nat := ops.countP (· = .lineFeed)

theorem glyphs_append (ops ops' : List Op) : glyphs (ops ++ ops') = glyphs ops + glyphs ops' :=
  List.countP_append

theorem lineFeeds_append (ops ops' : List Op) :
    lineFeeds (ops ++ ops') = lineFeeds ops + lineFeeds ops' :=
  List.countP_append

theorem newline_counts (cur : Cursor) :
    glyphs (p.newline cur).1 = 0 ∧ lineFeeds (p.newline cur).1 = 1 ∧ (p.newline cur).2.x = 0 := by
  unfold newline
  split
  · exact ⟨rfl, rfl, rfl⟩
  · exact ⟨rfl, rfl, rfl⟩

/-- A byte draws one character, if it is to be drawn and not a space; wherever the cursor is. -/
theorem step_glyphs (cur : Cursor) (c : Byte) :
    glyphs (p.step cur c).1 = if printable c = true ∧ c ≠ space then 1 else 0 := by
  have hline := (newline_counts (p := p) cur).1
  unfold step
  split
  · next hlf =>
    subst hlf
    rw [hline]
    rfl
  · split
    · next hcr =>
      subst hcr
      rfl
    · split
      · next hnot =>
        rw [if_neg (by simp [hnot])]
        rfl
      · next hprint =>
        rw [Bool.not_eq_false] at hprint
        split
        · next hspace =>
          rw [if_neg (fun h => h.2 hspace.1)]
          rfl
        · -- it is drawn, whatever follows
          have hdraw : glyphs [.draw c cur.x cur.y, .advance] = if c ≠ space then 1 else 0 := by
            by_cases hspace : c = space
            · simp [glyphs, hspace]
            · simp [glyphs, hspace]
          split
          · rw [glyphs_append, hline, hdraw]
            simp [hprint]
          · rw [hdraw]
            simp [hprint]

/-- The lines that a byte begins, and the column that it leads to, do not depend on the line. -/
theorem step_congr (h : cur.x = cur'.x) (c : Byte) :
    lineFeeds (p.step cur c).1 = lineFeeds (p.step cur' c).1 ∧
      (p.step cur c).2.x = (p.step cur' c).2.x := by
  obtain ⟨-, hfeed, hx⟩ := newline_counts (p := p) cur
  obtain ⟨-, hfeed', hx'⟩ := newline_counts (p := p) cur'
  unfold step
  rw [h]
  split
  · exact ⟨hfeed.trans hfeed'.symm, hx.trans hx'.symm⟩
  · split
    · exact ⟨rfl, rfl⟩
    · split
      · exact ⟨rfl, h⟩
      · split
        · exact ⟨rfl, h⟩
        · split
          · refine ⟨?_, hx.trans hx'.symm⟩
            rw [lineFeeds_append, lineFeeds_append, hfeed, hfeed']
            rfl
          · exact ⟨rfl, rfl⟩

/-- At the top of a page with room for a line, a byte ends no page. -/
theorem step_home (hroom : p.lineHeight < p.lastLine) (c : Byte) : ¬ p.EndsPage ⟨0, 0⟩ c := by
  have hline : p.newline ⟨0, 0⟩ = ([.lineFeed], ⟨0, 0 + p.lineHeight⟩) := by
    rw [newline, if_neg (by dsimp only; omega)]
  unfold EndsPage step
  rw [hline]
  split_ifs <;> simp

/-- Ending a page leads to its top. -/
theorem step_of_endsPage (h : p.EndsPage cur c) : (p.step cur c).2 = ⟨0, 0⟩ := by
  have hline : Op.clear ∈ (p.newline cur).1 → (p.newline cur).2 = ⟨0, 0⟩ := by
    unfold newline
    split
    · exact fun _ => rfl
    · simp
  unfold EndsPage at h
  unfold step at h ⊢
  split_ifs at h ⊢ with hlf hcr hnot hspace hedge
  · exact hline h
  · simp at h
  · simp at h
  · simp at h
  · refine hline ?_
    simpa using h
  · simp at h

/-- What is not drawn at the left edge leaves the cursor there. -/
theorem step_x_zero (h : cur.x = 0) (hglyphs : glyphs (p.step cur c).1 = 0) :
    (p.step cur c).2.x = 0 := by
  obtain ⟨-, -, hx⟩ := newline_counts (p := p) cur
  rw [step_glyphs] at hglyphs
  have hdrawn : ¬ (printable c = true ∧ c ≠ space) := by
    intro hdrawn
    rw [if_pos hdrawn] at hglyphs
    exact absurd hglyphs (by decide)
  unfold step
  split_ifs with hlf hcr hnot hspace hedge
  · exact hx
  · rfl
  · exact h
  · exact h
  · exact hx
  · exact absurd ⟨by simpa using hnot, fun heq => hspace ⟨heq, h⟩⟩ hdrawn

/-! ### Streams -/

variable (p) in
/-- The first terminal has drawn more than the second, or as much, but begun more lines; and then
    the two are in the same column. -/
def Apart (a b : List Op × Cursor) : Prop :=
  glyphs b.1 < glyphs a.1 ∨
    (glyphs b.1 = glyphs a.1 ∧ a.2.x = b.2.x ∧ lineFeeds b.1 < lineFeeds a.1)

variable {a b t : List Op × Cursor}

theorem Apart.ne (h : Apart a b) : a.1 ≠ b.1 := by
  intro heq
  rcases h with hglyphs | ⟨-, -, hfeed⟩
  · rw [heq] at hglyphs
    exact Nat.lt_irrefl _ hglyphs
  · rw [heq] at hfeed
    exact Nat.lt_irrefl _ hfeed

/-- A byte written by both. -/
theorem Apart.write (h : Apart a b) (c : Byte) : Apart (p.write a c) (p.write b c) := by
  unfold Apart Page.write
  rw [glyphs_append, glyphs_append, lineFeeds_append, lineFeeds_append, step_glyphs, step_glyphs]
  rcases h with hglyphs | ⟨hglyphs, hx, hfeed⟩
  · exact Or.inl (Nat.add_lt_add_right hglyphs _)
  · obtain ⟨hcount, hcolumn⟩ := step_congr (p := p) hx c
    refine Or.inr ⟨by rw [hglyphs], hcolumn, ?_⟩
    rw [hcount]
    exact Nat.add_lt_add_right hfeed _

/-- A byte that the first one, at the top of a page, processes once more. -/
theorem Apart.again (h : Apart a b) (ha : a.2 = ⟨0, 0⟩) (c : Byte) : Apart (p.write a c) b := by
  unfold Apart Page.write
  rw [glyphs_append, lineFeeds_append]
  rcases h with hglyphs | ⟨hglyphs, hx, hfeed⟩
  · exact Or.inl (Nat.lt_of_lt_of_le hglyphs (Nat.le_add_right _ _))
  · by_cases hnone : glyphs (p.step a.2 c).1 = 0
    · -- nothing but a space is drawn: the column is still the first
      have hzero : a.2.x = 0 := by rw [ha]
      have hcolumn : (p.step a.2 c).2.x = 0 := step_x_zero hzero hnone
      refine Or.inr ⟨by rw [hnone, hglyphs]; rfl, hcolumn.trans (hzero.symm.trans hx), ?_⟩
      exact Nat.lt_of_lt_of_le hfeed (Nat.le_add_right _ _)
    · exact Or.inl (by omega)

theorem Apart.writeTwice (h : Apart a b) (c : Byte) : Apart (p.writeTwice a c) (p.write b c) := by
  unfold Page.writeTwice
  split
  · next hends => exact (h.write c).again (step_of_endsPage hends) c
  · exact h.write c

/-- A space that ends a page is not drawn on the new one. -/
theorem writeTwice_of_space (h : p.EndsPage t.2 c → c = space) :
    p.writeTwice t c = p.write t c := by
  unfold Page.writeTwice
  split
  · next hends =>
    have hhome := step_of_endsPage hends
    obtain rfl := h hends
    have hskip : p.step ⟨0, 0⟩ space = ([], ⟨0, 0⟩) := rfl
    unfold Page.write
    dsimp only
    rw [hhome, hskip, List.append_nil]
  · rfl

/-- A page is ended by a line feed or by a character that is drawn. -/
theorem lf_or_printable (h : p.EndsPage cur c) : c = lf ∨ printable c = true := by
  unfold EndsPage step at h
  split_ifs at h with hlf hcr hnot hspace hedge
  · exact Or.inl hlf
  · simp at h
  · simp at h
  · simp at h
  · exact Or.inr (by simpa using hnot)
  · exact Or.inr (by simpa using hnot)

/-- Any other byte that ends a page sets the two apart. -/
theorem apart_of_not_space (hends : p.EndsPage t.2 c) (hc : c ≠ space) :
    Apart (p.writeTwice t c) (p.write t c) := by
  let u := p.write t c
  have hhome : u.2 = ⟨0, 0⟩ := step_of_endsPage hends
  have htwice : p.writeTwice t c = p.write u c := if_pos hends
  obtain ⟨hnone, hfeed, hx⟩ := newline_counts (p := p) u.2
  rw [htwice]
  show Apart (u.1 ++ (p.step u.2 c).1, (p.step u.2 c).2) u
  unfold Apart
  rw [glyphs_append, lineFeeds_append]
  rcases lf_or_printable hends with rfl | hprint
  · -- a line is begun twice
    have hstep : p.step u.2 lf = p.newline u.2 := rfl
    refine Or.inr ⟨?_, ?_, ?_⟩
    · rw [hstep, hnone, Nat.add_zero]
    · rw [hstep, hx, hhome]
    · rw [hstep, hfeed]
      exact Nat.lt_succ_self _
  · -- a character is drawn twice
    rw [step_glyphs, if_pos ⟨hprint, hc⟩]
    exact Or.inl (Nat.lt_succ_self _)

/-- **Doubled bytes.**  Over a stream, a terminal that processes the bytes that end a page twice
    does the same as one that does not exactly when they are all spaces. -/
theorem writeTwice_eq_iff (bytes : List Byte) :
    (bytes.foldl p.writeTwice t).1 = (bytes.foldl p.write t).1 ↔
      EveryStep p.write (fun t c => p.EndsPage t.2 c → c = space) t bytes := by
  have hapart : ∀ (bytes : List Byte) (a b : List Op × Cursor), Apart a b →
      Apart (bytes.foldl p.writeTwice a) (bytes.foldl p.write b) := by
    intro bytes
    induction bytes with
    | nil => exact fun _ _ h => h
    | cons c bytes ih => exact fun _ _ h => ih _ _ (h.writeTwice c)
  induction bytes generalizing t with
  | nil => exact iff_of_true rfl trivial
  | cons c bytes ih =>
    by_cases hc : p.EndsPage t.2 c → c = space
    · rw [List.foldl_cons, List.foldl_cons, writeTwice_of_space hc]
      exact (ih (t := p.write t c)).trans (and_iff_right hc).symm
    · obtain ⟨hends, hne⟩ := Classical.not_imp.mp hc
      refine iff_of_false ?_ fun h => hc h.1
      exact (hapart bytes _ _ (apart_of_not_space hends hne)).ne

end Page

end HtcLeo.FrameBuffer

import HtcLeo.FrameBuffer.Bounds

namespace HtcLeo.FrameBuffer

open Prog Runs

/-!
# The console and the terminal

A pass of `FbConPutCharWithFactor` is a step of the terminal; a page wrap makes it go round once
more, with the same character.

* `Shows` — the console has done what a terminal has, and stands where it stands.
* `paint_shows`, `fbConPutCharWithFactor_follows`, `serialPortWrite_follows` — one pass, one
  character and a stream.
* `serialPortWrite_inside` — every write ends, and stores inside the frame buffer only.
* `refinesTerminal_iff` — a stream is shown as the terminal shows it exactly when every page in it
  is ended by a space.
-/

/-! ### States -/

/-- The operations among the events. -/
def ops (log : List Event) : List Op :=
  log.filterMap fun
    | .op o => some o
    | .interrupts _ => none

theorem ops_append (log log' : List Event) : ops (log ++ log') = ops log ++ ops log' :=
  List.filterMap_append

section

variable {screen : Screen} {scaleFactor : U32}

/-- The console is set up for the screen, has done the operations of the terminal, has its cursor
    where the terminal has, and, of a screen with lines, has stored inside the frame buffer only. -/
structure Shows (screen : Screen) (t : List Op × Cursor) (s : Console) : Prop where
  initialized : s.initialized = true
  maxX : s.maxX = screen.width / (fontWidth + 1)
  maxY : s.maxY = (screen.height - 1) / fontHeight
  ops : ops s.log = t.1
  x : s.x.toNat = t.2.x
  y : s.y.toNat = t.2.y
  stores : 0 < screen.height.toNat → ∀ e ∈ s.stores, screen.region.Has e.1

variable {t : List Op × Cursor} {s : Console}

theorem Shows.withInterrupts (h : Shows screen t s) (on : Bool) :
    Shows screen t (withInterrupts on s) := by
  refine ⟨h.initialized, h.maxX, h.maxY, ?_, h.x, h.y, h.stores⟩
  show FrameBuffer.ops (s.log ++ [.interrupts on]) = t.1
  rw [ops_append, h.ops]
  exact List.append_nil _

/-- `if (intstate) ArmEnableInterrupts ();`, and what follows. -/
theorem Shows.restore {α : Type} (h : Shows screen t s) (intstate : Bool) (a : α) :
    ∃ s', (do if intstate then armSetInterrupts true
              return a : Prog Console α) s = (some a, s') ∧ Shows screen t s' := by
  cases intstate with
  | false => exact ⟨s, rfl, h⟩
  | true => exact ⟨_, rfl, h.withInterrupts true⟩

/-! ### One pass -/

theorem lineFeed_shows (hlimits : Limits screen scaleFactor) (h : Shows screen t s)
    (hy : t.2.y < (page screen scaleFactor).lastLine) :
    Shows screen (t.1 ++ [.lineFeed], ⟨0, t.2.y + scaleFactor.toNat⟩) (lineFeed scaleFactor s) := by
  have hrows := hlimits.rows
  have hlast : t.2.y < ((screen.height - 1) / fontHeight).toNat - scaleFactor.toNat := hy
  have hmax := ((screen.height - 1) / fontHeight).isLt
  refine ⟨h.initialized, h.maxX, h.maxY, ?_, rfl, ?_, h.stores⟩
  · show FrameBuffer.ops (s.log ++ [.op .lineFeed]) = t.1 ++ [.lineFeed]
    rw [ops_append, h.ops]
    rfl
  · show (s.y + scaleFactor).toNat = t.2.y + scaleFactor.toNat
    rw [BitVec.toNat_add, h.y, Nat.mod_eq_of_lt (by omega)]

theorem newPage_shows (h : Shows screen t s) (hx : t.2.x = 0) :
    Shows screen (t.1 ++ [.clear, .home], ⟨0, 0⟩) (newPage screen s) := by
  refine ⟨h.initialized, h.maxX, h.maxY, ?_, h.x.trans hx, rfl, ?_⟩
  · show FrameBuffer.ops (s.log ++ [.op .clear, .op .home]) = t.1 ++ [.clear, .home]
    rw [ops_append, h.ops]
    rfl
  · exact fun hpos => newPage_inside (h.stores hpos)

theorem drawChar_shows (hlimits : Limits screen scaleFactor) (h : Shows screen t s)
    (hin : Inside (page screen scaleFactor) t.2) (c : Byte) :
    Shows screen (t.1 ++ [.draw c t.2.x t.2.y, .advance], ⟨t.2.x + 1, t.2.y⟩)
      (drawChar screen scaleFactor c s) := by
  have hlt : t.2.x + 1 < 2 ^ 32 := by
    have hcolumns : (page screen scaleFactor).columns ≤ screen.width.toNat / 6 :=
      Nat.div_le_self _ _
    have hwidth := screen.width.isLt
    rcases hin.1 with hlt | hzero
    · omega
    · omega
  refine ⟨h.initialized, h.maxX, h.maxY, ?_, ?_, h.y, ?_⟩
  · show FrameBuffer.ops (s.log ++ [.op (.draw c s.x.toNat s.y.toNat), .op .advance]) = _
    rw [ops_append, h.ops, h.x, h.y]
    rfl
  · show (s.x + 1).toNat = t.2.x + 1
    rw [BitVec.toNat_add, h.x, show (1 : U32).toNat = 1 from rfl, Nat.mod_eq_of_lt hlt]
  · intro hpos
    refine drawChar_inside ⟨hlimits, hpos⟩ ?_ c (h.stores hpos)
    rw [h.x, h.y]
    exact hin

/-- What follows `newline:` is the terminal's, and goes round when the page is ended. -/
theorem newline_shows (hlimits : Limits screen scaleFactor) (h : Shows screen t s)
    (hy : t.2.y < (page screen scaleFactor).lastLine) (intstate : Bool) :
    ∃ r s', newline screen scaleFactor intstate s = (some r, s') ∧
      (r.isLeft = true ↔ Op.clear ∈ ((page screen scaleFactor).newline t.2).1) ∧
      Shows screen (t.1 ++ ((page screen scaleFactor).newline t.2).1,
        ((page screen scaleFactor).newline t.2).2) s' := by
  have hfeed := lineFeed_shows hlimits h hy
  have hlast : (s.maxY - scaleFactor).toNat = (page screen scaleFactor).lastLine := by
    have hrows := hlimits.rows
    have hmax := ((screen.height - 1) / fontHeight).isLt
    have hpage : (page screen scaleFactor).lastLine
        = ((screen.height - 1) / fontHeight).toNat - scaleFactor.toNat := rfl
    rw [h.maxY, BitVec.toNat_sub, hpage]
    omega
  have hfull : s.maxY - scaleFactor ≤ s.y + scaleFactor ↔
      (page screen scaleFactor).lastLine ≤ t.2.y + (page screen scaleFactor).lineHeight := by
    rw [BitVec.le_def, hlast]
    exact iff_of_eq (congrArg _ hfeed.y)
  have hnewline : newline screen scaleFactor intstate s =
      (if s.maxY - scaleFactor ≤ s.y + scaleFactor then
        (do modify (newPage screen)
            if intstate then armSetInterrupts true
            return .inl intstate : Prog Console (Bool ⊕ Unit))
      else
        (do if intstate then armSetInterrupts true
            return .inr () : Prog Console (Bool ⊕ Unit))) (lineFeed scaleFactor s) := rfl
  unfold Page.newline
  by_cases hends : (page screen scaleFactor).lastLine
      ≤ t.2.y + (page screen scaleFactor).lineHeight
  · obtain ⟨s', hrun, hs'⟩ := (newPage_shows hfeed rfl).restore intstate
      (.inl intstate : Bool ⊕ Unit)
    rw [if_pos hends]
    refine ⟨.inl intstate, s', ?_, iff_of_true rfl (by simp), ?_⟩
    · rw [hnewline, if_pos (hfull.mpr hends)]
      exact hrun
    · rwa [List.append_assoc] at hs'
  · obtain ⟨s', hrun, hs'⟩ := hfeed.restore intstate (.inr () : Bool ⊕ Unit)
    rw [if_neg hends]
    refine ⟨.inr (), s', ?_, iff_of_false (by simp) (by simp), hs'⟩
    rw [hnewline, if_neg (hends ∘ hfull.mp)]
    exact hrun

/-- A pass that leaves everything as it is, where the terminal does so, too. -/
theorem Shows.ignored (h : Shows screen t s) {c : Byte}
    (hstep : (page screen scaleFactor).step t.2 c = ([], t.2)) :
    ¬ (page screen scaleFactor).EndsPage t.2 c ∧
      Shows screen ((page screen scaleFactor).write t c) s := by
  unfold Page.EndsPage Page.write
  rw [hstep, List.append_nil]
  exact ⟨List.not_mem_nil, h⟩

theorem printable_iff (c : Byte) : printable c = true ↔ ¬ 127 < c ∧ ¬ c < 32 := by
  unfold printable
  rw [Bool.and_eq_true, decide_eq_true_iff, decide_eq_true_iff, BitVec.not_lt, BitVec.not_lt]
  exact and_comm

/-- A pass for a character that is not drawn. -/
theorem paint_unprintable {c : Byte} (hlf : c ≠ lf) (hcr : c ≠ cr) (h : printable c = false)
    (intstate : Bool) : paint screen scaleFactor .common c intstate s = (some (.inr ()), s) := by
  unfold paint
  by_cases hhigh : 127 < c
  · rw [if_pos hhigh]
    rfl
  · have hlow : c < 32 := by
      by_contra hlow
      rw [(printable_iff c).mpr ⟨hhigh, hlow⟩] at h
      exact Bool.noConfusion h
    rw [if_neg hhigh, if_pos hlow, if_neg hlf, if_neg hcr]
    rfl

/-- A pass for one that is, but for a space at the beginning of a line. -/
theorem paint_printable {c : Byte} (h : printable c = true) (intstate : Bool) :
    paint screen scaleFactor .common c intstate s =
      if s.x = 0 ∧ c = space then (some (.inr ()), s) else paintGlyph screen scaleFactor c s := by
  obtain ⟨hhigh, hlow⟩ := (printable_iff c).mp h
  unfold paint
  rw [if_neg hhigh, if_neg hlow]
  by_cases hspace : s.x = 0 ∧ c = space
  · have hskip : s.x = 0 ∧ c = space ∧ FbConMsgType.common ≠ .subtitle ∧
        FbConMsgType.common ≠ .title := ⟨hspace.1, hspace.2, by decide, by decide⟩
    rw [if_pos hspace]
    exact congrFun (if_pos hskip) s
  · rw [if_neg hspace]
    exact congrFun (if_neg fun hskip => hspace ⟨hskip.1, hskip.2.1⟩) s

/-- A character that is drawn; and the line ended, if it is full. -/
theorem paintGlyph_shows (hlimits : Limits screen scaleFactor) (h : Shows screen t s)
    (hin : Inside (page screen scaleFactor) t.2) (c : Byte) :
    ∃ r s', paintGlyph screen scaleFactor c s = (some r, s') ∧
      (r.isLeft = true ↔ (page screen scaleFactor).columns ≤ t.2.x + 1 ∧
        Op.clear ∈ ((page screen scaleFactor).newline t.2).1) ∧
      Shows screen (if (page screen scaleFactor).columns ≤ t.2.x + 1 then
        (t.1 ++ ([.draw c t.2.x t.2.y, .advance] ++ ((page screen scaleFactor).newline t.2).1),
          ((page screen scaleFactor).newline t.2).2)
        else (t.1 ++ [.draw c t.2.x t.2.y, .advance], ⟨t.2.x + 1, t.2.y⟩)) s' := by
  let u := drawChar screen scaleFactor c (withInterrupts false s)
  have hdraw : Shows screen _ u := drawChar_shows hlimits (h.withInterrupts false) hin c
  have hpaint := paintGlyph_apply screen scaleFactor c s (rfl : _ = u)
  have hedge : (u.maxX / scaleFactor).sle u.x = true ↔
      (page screen scaleFactor).columns ≤ t.2.x + 1 := by
    have hcolumns : (u.maxX / scaleFactor).toNat = (page screen scaleFactor).columns := by
      rw [hdraw.maxX, BitVec.toNat_udiv]
      rfl
    have hx : u.x.toNat = t.2.x + 1 := hdraw.x
    have hsmall : (page screen scaleFactor).columns ≤ screen.width.toNat / 6 := Nat.div_le_self _ _
    have hwidth := screen.width.isLt
    have hin := hin.1
    rw [BitVec.sle_eq_decide, decide_eq_true_iff, BitVec.toInt_eq_toNat_of_lt (by omega),
      BitVec.toInt_eq_toNat_of_lt (by omega), hcolumns, hx]
    omega
  by_cases hline : (page screen scaleFactor).columns ≤ t.2.x + 1
  · obtain ⟨r, s', hrun, hleft, hs'⟩ := newline_shows hlimits hdraw hin.2 s.interrupts
    rw [List.append_assoc] at hs'
    refine ⟨r, s', ?_, hleft.trans (and_iff_right hline).symm, ?_⟩
    · rwa [hpaint, if_pos (hedge.mpr hline)]
    · rwa [if_pos hline]
  · obtain ⟨s', hrun, hs'⟩ := hdraw.restore s.interrupts (.inr () : Bool ⊕ Unit)
    refine ⟨.inr (), s', ?_, iff_of_false (by simp) fun hends => hline hends.1, ?_⟩
    · rwa [hpaint, if_neg (hline ∘ hedge.mp)]
    · rwa [if_neg hline]

/-- **One pass.**  It is a step of the terminal, and goes round when the step ends the page. -/
theorem paint_shows (hlimits : Limits screen scaleFactor) (h : Shows screen t s)
    (hin : Inside (page screen scaleFactor) t.2) (c : Byte) (intstate : Bool) :
    ∃ r s', paint screen scaleFactor .common c intstate s = (some r, s') ∧
      (r.isLeft = true ↔ (page screen scaleFactor).EndsPage t.2 c) ∧
      Shows screen ((page screen scaleFactor).write t c) s' := by
  by_cases hlf : c = lf
  · subst hlf
    exact newline_shows hlimits h hin.2 intstate
  by_cases hcr : c = cr
  · subst hcr
    refine ⟨.inr (), _, rfl, iff_of_false (by simp) (by simp [Page.EndsPage, Page.step, cr, lf]),
      h.initialized, h.maxX, h.maxY, ?_, rfl, h.y, h.stores⟩
    show FrameBuffer.ops (s.log ++ [.op .carriageReturn]) = t.1 ++ [.carriageReturn]
    rw [ops_append, h.ops]
    rfl
  have hstep :
      (page screen scaleFactor).step t.2 c = if printable c = false then ([], t.2) else _ :=
    (if_neg hlf).trans (if_neg hcr)
  cases hprint : printable c with
  | false =>
    obtain ⟨hends, hs⟩ := h.ignored (hstep.trans (if_pos hprint))
    exact ⟨.inr (), s, paint_unprintable hlf hcr hprint intstate, iff_of_false (by simp) hends, hs⟩
  | true =>
    have hdrawn : ¬ printable c = false := by
      rw [hprint]
      exact Bool.noConfusion
    have hzero : s.x = 0 ↔ t.2.x = 0 := by
      rw [← h.x]
      exact BitVec.toNat_inj.symm
    rw [paint_printable hprint]
    by_cases hspace : c = space ∧ t.2.x = 0
    · obtain ⟨hends, hs⟩ := h.ignored (hstep.trans ((if_neg hdrawn).trans (if_pos hspace)))
      rw [if_pos ⟨hzero.mpr hspace.2, hspace.1⟩]
      exact ⟨.inr (), s, rfl, iff_of_false (by simp) hends, hs⟩
    · obtain ⟨r, s', hrun, hleft, hs'⟩ := paintGlyph_shows hlimits h hin c
      rw [if_neg fun hskip => hspace ⟨hskip.2, hzero.mp hskip.1⟩]
      refine ⟨r, s', hrun, ?_⟩
      have hstep := hstep.trans ((if_neg hdrawn).trans (if_neg hspace))
      unfold Page.EndsPage Page.write
      rw [hstep, hleft]
      split
      · next hline =>
        rw [if_pos hline] at hs'
        exact ⟨by simp [hline], hs'⟩
      · next hline =>
        rw [if_neg hline] at hs'
        exact ⟨by simp [hline], hs'⟩

/-! ### Characters and streams -/

/-- A step stays on the page. -/
theorem step_inside {p : Page} {cur : Cursor} (hpos : 0 < p.lastLine) (h : Inside p cur)
    (c : Byte) : Inside p (p.step cur c).2 := by
  have hline : Inside p (p.newline cur).2 := by
    unfold Page.newline
    split
    · exact ⟨Or.inr rfl, hpos⟩
    · next hlt => exact ⟨Or.inr rfl, Nat.not_le.mp hlt⟩
  unfold Page.step
  split_ifs with hlf hcr hnot hspace hedge
  · exact hline
  · exact ⟨Or.inr rfl, h.2⟩
  · exact h
  · exact h
  · exact hline
  · exact ⟨Or.inl (Nat.not_le.mp hedge), h.2⟩

/-- The console shows what the terminal does, and the cursor is on the page. -/
def Follows (screen : Screen) (scaleFactor : U32) (t : List Op × Cursor) (s : Console) : Prop :=
  Shows screen t s ∧ Inside (page screen scaleFactor) t.2

/-- **One character.**  It takes two passes at most: a page has room for a line. -/
theorem fbConPutCharWithFactor_follows (hlimits : Limits screen scaleFactor) (fuel : Nat)
    (c : Byte) (uninitialized : Bool) (t : List Op × Cursor) :
    Completes (Follows screen scaleFactor t)
      (fbConPutCharWithFactor screen scaleFactor (fuel + 2) .common c uninitialized)
      fun _ => Follows screen scaleFactor ((page screen scaleFactor).writeTwice t c) := by
  rintro s ⟨h, hin⟩
  have hroom : (page screen scaleFactor).lineHeight < (page screen scaleFactor).lastLine := by
    have hrows := hlimits.rows
    show scaleFactor.toNat < _ - scaleFactor.toNat
    omega
  have hinside : ∀ {cur}, Inside (page screen scaleFactor) cur →
      Inside (page screen scaleFactor) ((page screen scaleFactor).step cur c).2 :=
    fun hcur => step_inside (Nat.zero_lt_of_lt hroom) hcur c
  have hcall : fbConPutCharWithFactor screen scaleFactor (fuel + 2) .common c uninitialized s =
      loop (paint screen scaleFactor .common c) (fuel + 2) uninitialized s :=
    congrFun (if_pos h.initialized) s
  rw [hcall]
  obtain ⟨r, s', hrun, hleft, hs'⟩ := paint_shows hlimits h hin c uninitialized
  unfold Page.writeTwice
  cases r with
  | inr u =>
    rw [if_neg (fun hends => Bool.noConfusion (hleft.mpr hends))]
    exact ⟨(), s', bind_of hrun rfl, hs', hinside hin⟩
  | inl intstate =>
    -- `goto paint`, at the top of a page
    have hends := hleft.mp rfl
    have hhome : ((page screen scaleFactor).write t c).2 = ⟨0, 0⟩ := Page.step_of_endsPage hends
    rw [if_pos hends]
    obtain ⟨r, s'', hagain, hleft, hs''⟩ := paint_shows hlimits hs' (hinside hin) c intstate
    rw [hhome] at hleft
    cases r with
    | inl => exact absurd (hleft.mp rfl) (Page.step_home hroom c)
    | inr u =>
      exact ⟨(), s'', bind_of hrun (bind_of hagain rfl), hs'', hinside (hinside hin)⟩

/-- **A stream.** -/
theorem serialPortWrite_follows (hlimits : Limits screen scaleFactor) (fuel : Nat)
    (buffer : List (Byte × Bool)) (t : List Op × Cursor) :
    Completes (Follows screen scaleFactor t)
      (serialPortWrite screen scaleFactor (fuel + 2) buffer)
      fun n s => n = BitVec.ofNat 32 buffer.length ∧
        Follows screen scaleFactor
          ((buffer.map Prod.fst).foldl (page screen scaleFactor).writeTwice t) s := by
  rintro s ⟨h, hin⟩
  have hbytes : Completes (Follows screen scaleFactor t)
      (writeBytes screen scaleFactor (fuel + 2) buffer)
      fun _ => Follows screen scaleFactor
        ((buffer.map Prod.fst).foldl (page screen scaleFactor).writeTwice t) := by
    rw [List.foldl_map]
    exact Completes.forM_foldl (Follows screen scaleFactor)
      (fun t b => fbConPutCharWithFactor_follows hlimits fuel b.1 b.2 t) buffer t
  obtain ⟨u, s', hrun, hs', hin'⟩ := hbytes _ ⟨h.withInterrupts false, hin⟩
  obtain ⟨s'', hend, hs''⟩ := hs'.restore s.interrupts (BitVec.ofNat 32 buffer.length)
  exact ⟨_, s'', bind_of rfl (bind_of rfl (bind_of hrun hend)), rfl, hs'', hin'⟩

/-- The console after `SerialPortInitialize`, and the terminal that has done nothing. -/
theorem console_follows (hlimits : Limits screen scaleFactor) (interrupts : Bool) :
    Follows screen scaleFactor ([], ⟨0, 0⟩) (console screen interrupts) := by
  have hpos : 0 < (page screen scaleFactor).lastLine := by
    have hrows := hlimits.rows
    show 0 < _ - scaleFactor.toNat
    omega
  refine ⟨?_, Or.inr rfl, hpos⟩
  cases interrupts with
  | false => exact ⟨rfl, rfl, rfl, rfl, rfl, rfl, fun _ _ he => absurd he List.not_mem_nil⟩
  | true => exact ⟨rfl, rfl, rfl, rfl, rfl, rfl, fun _ _ he => absurd he List.not_mem_nil⟩

/-- Writes, one after the other. -/
theorem writes_follow (hlimits : Limits screen scaleFactor) (fuel : Nat) (interrupts : Bool)
    (writes : List (List (Byte × Bool))) :
    ∃ s, writes.mapM (serialPortWrite screen scaleFactor (fuel + 2)) (console screen interrupts)
        = (some (writes.map fun buffer => BitVec.ofNat 32 buffer.length), s) ∧
      Follows screen scaleFactor ((writes.flatten.map Prod.fst).foldl
        (page screen scaleFactor).writeTwice ([], ⟨0, 0⟩)) s := by
  have hall := Completes.mapM_foldl (Follows screen scaleFactor)
    (fun t buffer => serialPortWrite_follows hlimits fuel buffer t) writes ([], ⟨0, 0⟩)
  obtain ⟨ns, s, hrun, rfl, hs⟩ := hall _ (console_follows hlimits interrupts)
  refine ⟨s, hrun, ?_⟩
  rw [List.map_flatten, List.foldl_flatten, List.foldl_map]
  exact hs

/-! ### The frame buffer -/

/-- **Inside the frame buffer.**  From `SerialPortInitialize` on, every write comes to its end,
    and whatever is stored is stored in the frame buffer. -/
theorem serialPortWrite_inside (hfits : Fits screen scaleFactor) (fuel : Nat) (interrupts : Bool)
    (writes : List (List (Byte × Bool))) :
    ∃ s, writes.mapM (serialPortWrite screen scaleFactor (fuel + 2)) (console screen interrupts)
        = (some (writes.map fun buffer => BitVec.ofNat 32 buffer.length), s) ∧
      ∀ e ∈ s.stores, screen.region.Has e.1 := by
  obtain ⟨s, hrun, hs, -⟩ := writes_follow hfits.toLimits fuel interrupts writes
  exact ⟨s, hrun, hs.stores hfits.height_pos⟩

theorem leo_fits : Fits leoDisplay.screen 1 where
  column := by decide
  rows := by decide
  height_pos := by decide

/-- Two lines on the device. -/
theorem leo_lines_inside :
    ∃ s, [[(72, true), (105, false), (lf, true)], [(33, true)]].mapM
        (serialPortWrite leoDisplay.screen 1 2) (console leoDisplay.screen true)
        = (some [3, 1], s) ∧ ∀ e ∈ s.stores, leoDisplay.screen.region.Has e.1 :=
  serialPortWrite_inside leo_fits 0 true _

/-! ### The terminal -/

/-- The writes do to the page and the cursor what the terminal does. -/
def RefinesTerminal (screen : Screen) (scaleFactor : U32) (writes : List (List (Byte × Bool))) :
    Prop :=
  ∀ fuel interrupts,
    ops (writes.mapM (serialPortWrite screen scaleFactor (fuel + 2))
      (console screen interrupts)).2.log
      = ((writes.flatten.map Prod.fst).foldl (page screen scaleFactor).write ([], ⟨0, 0⟩)).1

theorem refinesTerminal_iff_writeTwice (hlimits : Limits screen scaleFactor)
    (writes : List (List (Byte × Bool))) :
    RefinesTerminal screen scaleFactor writes ↔
      ((writes.flatten.map Prod.fst).foldl (page screen scaleFactor).writeTwice ([], ⟨0, 0⟩)).1
        = ((writes.flatten.map Prod.fst).foldl (page screen scaleFactor).write ([], ⟨0, 0⟩)).1 := by
  have hops : ∀ fuel interrupts,
      ops (writes.mapM (serialPortWrite screen scaleFactor (fuel + 2))
        (console screen interrupts)).2.log = ((writes.flatten.map Prod.fst).foldl
          (page screen scaleFactor).writeTwice ([], ⟨0, 0⟩)).1 := by
    intro fuel interrupts
    obtain ⟨s, hrun, hs, -⟩ := writes_follow hlimits fuel interrupts writes
    rw [hrun]
    exact hs.ops
  constructor
  · exact fun h => (hops 0 false).symm.trans (h 0 false)
  · exact fun h fuel interrupts => (hops fuel interrupts).trans h

/-- **Refinement.**  The writes are shown as the terminal shows them exactly when every byte that
    ends a page is a space. -/
theorem refinesTerminal_iff (hlimits : Limits screen scaleFactor)
    (writes : List (List (Byte × Bool))) :
    RefinesTerminal screen scaleFactor writes ↔
      EveryStep (page screen scaleFactor).write
        (fun t c => (page screen scaleFactor).EndsPage t.2 c → c = space) ([], ⟨0, 0⟩)
        (writes.flatten.map Prod.fst) := by
  rw [refinesTerminal_iff_writeTwice hlimits]
  exact Page.writeTwice_eq_iff _

/-- A line feed, and a character, on the device. -/
theorem leo_line_refined :
    RefinesTerminal leoDisplay.screen 1 [[(lf, true), (72, false)]] ↔
      EveryStep (page leoDisplay.screen 1).write
        (fun t c => (page leoDisplay.screen 1).EndsPage t.2 c → c = space) ([], ⟨0, 0⟩) [lf, 72] :=
  refinesTerminal_iff leo_fits.toLimits _

/-- The line feed that fills the page of the device is counted on the next one again. -/
theorem leo_lines_not_refined :
    ¬ RefinesTerminal leoDisplay.screen 1 [List.replicate 65 (lf, false)] := by
  rw [refinesTerminal_iff_writeTwice leo_fits.toLimits]
  decide +kernel

end

end HtcLeo.FrameBuffer

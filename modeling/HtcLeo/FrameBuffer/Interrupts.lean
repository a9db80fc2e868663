import HtcLeo.FrameBuffer.Console
import HtcLeo.Lib.Runs

namespace HtcLeo.FrameBuffer

open Prog Runs

/-!
# The interrupts around a write

`SerialPortWrite` disables the interrupts and puts them back; `FbConPutCharWithFactor` does so
once more, for a character that it draws.  The way of a line feed around the second one takes
what it puts back from an `intstate` that has not been set.

* `Quiet` — nothing has enabled the interrupts since; `Spoiled` — something has.
* `paint_quiet`, `fbConPutCharWithFactor_spoils` — a character enables them only if it is a line
  feed, with another `intstate` than 0.
* `disciplined_iff` — a write keeps them disabled, and ends with those of its beginning, exactly
  when every line feed in it finds a 0.
-/

/-! ### What has happened since -/

variable {base events : List Event} {s s' : Console}

/-- Nothing has enabled the interrupts since the log was `base`, and they are disabled. -/
def Quiet (base : List Event) (s : Console) : Prop :=
  s.interrupts = false ∧ ∃ events, s.log = base ++ events ∧ .interrupts true ∉ events

/-- Something has enabled them. -/
def Spoiled (base : List Event) (s : Console) : Prop :=
  ∃ events, s.log = base ++ events ∧ .interrupts true ∈ events

theorem Spoiled.not_quiet (h : Spoiled base s) : ¬ Quiet base s := by
  obtain ⟨events, hlog, hon⟩ := h
  rintro ⟨-, events', hlog', hoff⟩
  rw [hlog, List.append_right_inj] at hlog'
  exact hoff (hlog' ▸ hon)

theorem Spoiled.extend (h : Spoiled base s) (hlog : s'.log = s.log ++ events) :
    Spoiled base s' := by
  obtain ⟨before, hbefore, hon⟩ := h
  refine ⟨before ++ events, ?_, List.mem_append_left _ hon⟩
  rw [hlog, hbefore, List.append_assoc]

theorem Quiet.extend (h : Quiet base s) (hoff : s'.interrupts = s.interrupts)
    (hlog : s'.log = s.log ++ events) (hevents : .interrupts true ∉ events) : Quiet base s' := by
  obtain ⟨hinterrupts, before, hbefore, hnone⟩ := h
  refine ⟨hoff.trans hinterrupts, before ++ events, ?_, ?_⟩
  · rw [hlog, hbefore, List.append_assoc]
  · rw [List.mem_append]
    exact fun h => h.elim hnone hevents

theorem Quiet.disabled (h : Quiet base s) : Quiet base (withInterrupts false s) := by
  obtain ⟨-, before, hbefore, hnone⟩ := h
  refine ⟨rfl, before ++ [.interrupts false], ?_, ?_⟩
  · show s.log ++ _ = _
    rw [hbefore, List.append_assoc]
  · simpa using hnone

/-- Where they are enabled, they have been. -/
theorem Quiet.enabled (h : Quiet base s) : Spoiled base (withInterrupts true s) := by
  obtain ⟨-, before, hbefore, -⟩ := h
  refine ⟨before ++ [.interrupts true], ?_, by simp⟩
  show s.log ++ _ = _
  rw [hbefore, List.append_assoc]

/-! ### A character -/

section

variable (screen : Screen) (scaleFactor : U32)

/-! What has happened stays. -/

theorem restore_keeps (intstate : Bool) (r : Bool ⊕ Unit) : Keeps (Spoiled base)
    (do if intstate then armSetInterrupts true
        return r : Prog Console (Bool ⊕ Unit)) := by
  cases intstate with
  | false => exact Keeps.pure r
  | true => exact fun s h => h.extend rfl

theorem newline_keeps (intstate : Bool) :
    Keeps (Spoiled base) (newline screen scaleFactor intstate) := by
  refine Keeps.bind (Keeps.modify fun s h => h.extend rfl) fun _ => ?_
  refine Keeps.bind (Keeps.query fun s h => h) fun s => ?_
  split
  · exact Keeps.bind (Keeps.modify fun s h => h.extend rfl) fun _ => restore_keeps intstate _
  · exact restore_keeps intstate _

theorem paintGlyph_keeps (c : Byte) :
    Keeps (Spoiled base) (paintGlyph screen scaleFactor c) := by
  refine Keeps.bind (Keeps.query fun s h => h) fun intstate => ?_
  refine Keeps.bind (Keeps.modify fun s h => h.extend rfl) fun _ => ?_
  refine Keeps.bind (Keeps.modify fun s h => h.extend rfl) fun _ => ?_
  refine Keeps.bind (Keeps.query fun s h => h) fun s => ?_
  split
  · exact newline_keeps screen scaleFactor intstate
  · exact restore_keeps intstate _

theorem paint_keeps (type : FbConMsgType) (c : Byte) (intstate : Bool) :
    Keeps (Spoiled base) (paint screen scaleFactor type c intstate) := by
  unfold paint
  split_ifs with hhigh hlow hlf hcr
  · exact Keeps.pure _
  · exact newline_keeps screen scaleFactor intstate
  · exact Keeps.bind (Keeps.modify fun s h => h.extend rfl) fun _ => Keeps.pure _
  · exact Keeps.pure _
  · refine Keeps.bind (Keeps.query fun s h => h) fun s => ?_
    split
    · exact Keeps.pure _
    · exact paintGlyph_keeps screen scaleFactor c

/-- A line feed, or a full line, enables the interrupts if `intstate` says so. -/
theorem newline_interrupts (h : Quiet base s) (intstate : Bool) :
    ∃ r s', newline screen scaleFactor intstate s = (some r, s') ∧
      (∀ b, r = .inl b → b = intstate) ∧ if intstate then Spoiled base s' else Quiet base s' := by
  have hfeed : Quiet base (lineFeed scaleFactor s) := h.extend rfl rfl (by simp)
  have hpage : Quiet base (newPage screen (lineFeed scaleFactor s)) :=
    hfeed.extend rfl rfl (by simp)
  let full := (lineFeed scaleFactor s).maxY - scaleFactor ≤ (lineFeed scaleFactor s).y
  cases intstate with
  | false =>
    by_cases hfull : full
    · exact ⟨.inl false, _, congrFun (if_pos hfull) _, by simp, hpage⟩
    · exact ⟨.inr (), _, congrFun (if_neg hfull) _, by simp, hfeed⟩
  | true =>
    by_cases hfull : full
    · exact ⟨.inl true, _, congrFun (if_pos hfull) _, by simp, hpage.enabled⟩
    · exact ⟨.inr (), _, congrFun (if_neg hfull) _, by simp, hfeed.enabled⟩

/-- What a character that is drawn saves is that they are disabled. -/
theorem paintGlyph_quiet (c : Byte) : Keeps (Quiet base) (paintGlyph screen scaleFactor c) := by
  intro s h
  let u := drawChar screen scaleFactor c (withInterrupts false s)
  have hdraw : Quiet base u := h.disabled.extend rfl rfl (by simp)
  rw [paintGlyph_apply screen scaleFactor c s (rfl : _ = u), h.1]
  split
  · obtain ⟨r, s', hrun, -, hs'⟩ := newline_interrupts screen scaleFactor hdraw false
    rw [hrun]
    exact hs'
  · exact hdraw

/-- Any pass but that of a line feed keeps them disabled. -/
theorem paint_quiet (type : FbConMsgType) {c : Byte} (hlf : c ≠ lf) (intstate : Bool) :
    Keeps (Quiet base) (paint screen scaleFactor type c intstate) := by
  unfold paint
  split_ifs with hhigh hlow hcr
  · exact Keeps.pure _
  · have hreturn : Keeps (Quiet base) (modify fun s : Console =>
        { s with x := 0, log := s.log ++ [.op .carriageReturn] }) :=
      fun s h => h.extend rfl (rfl : _ = s.log ++ [.op .carriageReturn]) (by simp)
    exact Keeps.bind hreturn fun _ => Keeps.pure _
  · exact Keeps.pure _
  · refine Keeps.bind (Keeps.query fun s h => h) fun s => ?_
    split
    · exact Keeps.pure _
    · exact paintGlyph_quiet screen scaleFactor c

/-- **A character.**  The interrupts stay disabled, unless it is a line feed with another
    `intstate` than 0. -/
theorem fbConPutCharWithFactor_quiet (fuel : Nat) (type : FbConMsgType) (c : Byte)
    (uninitialized : Bool) (h : Quiet base s)
    (hgood : s.initialized = true → c = lf → uninitialized = false) :
    Quiet base (fbConPutCharWithFactor screen scaleFactor fuel type c uninitialized s).2 := by
  unfold fbConPutCharWithFactor
  rw [bind_apply]
  show Quiet base ((if s.initialized then _ else _ : Prog Console Unit) s).2
  split
  · next hinit =>
    -- the flag matters for line feeds only
    refine Keeps.loop_of (fun intstate s => Quiet base s ∧ (c = lf → intstate = false)) ?_
      (fun _ _ hs => hs.1) fuel uninitialized ⟨h, hgood hinit⟩
    rintro intstate s ⟨hs, hzero⟩
    by_cases hlf : c = lf
    · obtain rfl := hzero hlf
      subst hlf
      obtain ⟨r, s', hrun, hr, hs'⟩ := newline_interrupts screen scaleFactor hs false
      have hpaint : paint screen scaleFactor type lf false s = (some r, s') := hrun
      rw [hpaint]
      exact ⟨hs', fun b hb => ⟨hs', fun _ => hr b (Option.some.inj hb)⟩⟩
    · have hpass := paint_quiet screen scaleFactor type hlf intstate s hs
      exact ⟨hpass, fun b _ => ⟨hpass, fun heq => absurd heq hlf⟩⟩
  · exact h

/-- And such a line feed enables them, whatever follows. -/
theorem fbConPutCharWithFactor_spoils (fuel : Nat) (type : FbConMsgType) (h : Quiet base s)
    (hinit : s.initialized = true) :
    Spoiled base (fbConPutCharWithFactor screen scaleFactor (fuel + 1) type lf true s).2 := by
  have hcall : fbConPutCharWithFactor screen scaleFactor (fuel + 1) type lf true s =
      loop (paint screen scaleFactor type lf) (fuel + 1) true s := congrFun (if_pos hinit) s
  obtain ⟨r, s', hrun, -, hs'⟩ := newline_interrupts screen scaleFactor h true
  have hpaint : paint screen scaleFactor type lf true s = (some r, s') := hrun
  rw [hcall]
  unfold loop
  rw [bind_apply, hpaint]
  cases r with
  | inl intstate => exact Keeps.loop (paint_keeps screen scaleFactor type lf) fuel intstate s' hs'
  | inr u => exact hs'

/-! ### A write -/

/-- A call of `FbConPutCharWithFactor` for a byte; `none` where one has not come to its end. -/
def putChar (fuel : Nat) (s : Option Console) (b : Byte × Bool) : Option Console :=
  s.bind fun s => match fbConPutCharWithFactor screen scaleFactor fuel .common b.1 b.2 s with
    | (some _, s') => some s'
    | (none, _) => none

/-- A line feed that is processed finds 0 in its `intstate`. -/
def FindsZero (s : Option Console) (b : Byte × Bool) : Prop :=
  ∀ u ∈ s, u.initialized = true → b.1 = lf → b.2 = false

theorem writeBytes_keeps (fuel : Nat) (buffer : List (Byte × Bool)) :
    Keeps (Spoiled base) (writeBytes screen scaleFactor fuel buffer) := by
  refine Keeps.forM (fun b => ?_) buffer
  refine Keeps.bind (Keeps.query fun s h => h) fun s => ?_
  split
  · exact Keeps.loop (paint_keeps screen scaleFactor .common b.1) fuel b.2
  · exact Keeps.pure ()

theorem writeBytes_quiet_iff (fuel : Nat) (buffer : List (Byte × Bool)) (h : Quiet base s) :
    Quiet base (writeBytes screen scaleFactor (fuel + 1) buffer s).2 ↔
      EveryStep (putChar screen scaleFactor (fuel + 1)) FindsZero (some s) buffer := by
  induction buffer generalizing s with
  | nil => exact iff_of_true h trivial
  | cons b buffer ih =>
    have hcons : writeBytes screen scaleFactor (fuel + 1) (b :: buffer) s =
        (fbConPutCharWithFactor screen scaleFactor (fuel + 1) .common b.1 b.2 >>=
          fun _ => writeBytes screen scaleFactor (fuel + 1) buffer) s := by
      unfold writeBytes
      rw [List.forM_cons]
    rw [hcons, bind_apply]
    by_cases hgood : s.initialized = true → b.1 = lf → b.2 = false
    · have hcall := fbConPutCharWithFactor_quiet screen scaleFactor (fuel + 1) .common b.1 b.2 h
        hgood
      have hnow : FindsZero (some s) b := by
        rintro u ⟨⟩
        exact hgood
      have hnext :
          EveryStep (putChar screen scaleFactor (fuel + 1)) FindsZero (some s) (b :: buffer)
          ↔ EveryStep (putChar screen scaleFactor (fuel + 1)) FindsZero
            (putChar screen scaleFactor (fuel + 1) (some s) b) buffer := and_iff_right hnow
      rw [hnext]
      unfold putChar
      rw [Option.bind_some]
      rcases hrun : fbConPutCharWithFactor screen scaleFactor (fuel + 1) .common b.1 b.2 s
        with ⟨_ | u, s'⟩
      · -- no further byte is processed
        rw [hrun] at hcall
        refine iff_of_true hcall ?_
        exact EveryStep.of_invariant (I := (· = none)) (fun _ _ hu => by rw [hu]; rfl)
          (fun _ _ hu => by rw [hu]; rintro u ⟨⟩) rfl buffer
      · rw [hrun] at hcall
        exact ih hcall
    · obtain ⟨hinit, hrest⟩ := Classical.not_imp.mp hgood
      obtain ⟨hlf, hone⟩ := Classical.not_imp.mp hrest
      have hspoiled := fbConPutCharWithFactor_spoils screen scaleFactor fuel .common h hinit
      rw [hlf, Bool.eq_true_of_not_eq_false hone]
      refine iff_of_false (Spoiled.not_quiet ?_) fun hsteps => hgood (hsteps.1 s rfl)
      rcases hrun : fbConPutCharWithFactor screen scaleFactor (fuel + 1) .common lf true s
        with ⟨_ | u, s'⟩
      · rw [hrun] at hspoiled
        exact hspoiled
      · rw [hrun] at hspoiled
        exact writeBytes_keeps screen scaleFactor (fuel + 1) buffer s' hspoiled

/-- A write keeps the interrupts disabled from its start to its end, and ends with those that it
    has found. -/
structure Disciplined (fuel : Nat) (s : Console) (buffer : List (Byte × Bool)) : Prop where
  disabled : Quiet (withInterrupts false s).log
    (writeBytes screen scaleFactor fuel buffer (withInterrupts false s)).2
  restored : ∀ n s', serialPortWrite screen scaleFactor fuel buffer s = (some n, s') →
    s'.interrupts = s.interrupts

/-- A write that has kept them disabled puts back those that it has found. -/
theorem restored_of_quiet {fuel : Nat} {buffer : List (Byte × Bool)}
    (h : Quiet base (writeBytes screen scaleFactor fuel buffer (withInterrupts false s)).2)
    {n : U32} (hrun : serialPortWrite screen scaleFactor fuel buffer s = (some n, s')) :
    s'.interrupts = s.interrupts := by
  have hwrite : serialPortWrite screen scaleFactor fuel buffer s =
      (writeBytes screen scaleFactor fuel buffer >>= fun _ =>
        (do if s.interrupts then armSetInterrupts true
            return BitVec.ofNat 32 buffer.length : Prog Console U32))
      (withInterrupts false s) := rfl
  rw [hwrite] at hrun
  obtain ⟨u, s'', hbytes, hend⟩ := bind_eq_some.mp hrun
  rw [hbytes] at h
  cases hfound : s.interrupts with
  | false =>
    rw [hfound] at hend
    obtain ⟨-, rfl⟩ := Prod.mk.inj hend
    exact h.1
  | true =>
    rw [hfound] at hend
    obtain ⟨-, rfl⟩ := Prod.mk.inj hend
    rfl

/-- **Interrupts.**  A write is disciplined exactly when every line feed that it processes finds 0
    in its `intstate`. -/
theorem disciplined_iff (fuel : Nat) (s : Console) (buffer : List (Byte × Bool)) :
    Disciplined screen scaleFactor (fuel + 1) s buffer ↔
      EveryStep (putChar screen scaleFactor (fuel + 1)) FindsZero
        (some (withInterrupts false s)) buffer := by
  have hstart : Quiet (withInterrupts false s).log (withInterrupts false s) :=
    ⟨rfl, [], (List.append_nil _).symm, List.not_mem_nil⟩
  rw [← writeBytes_quiet_iff screen scaleFactor fuel buffer hstart]
  constructor
  · exact fun h => h.disabled
  · exact fun h => ⟨h, fun _ _ hrun => restored_of_quiet screen scaleFactor h hrun⟩

end

/-- A line feed on the device that finds another value. -/
theorem leo_line_not_disciplined :
    ¬ Disciplined leoDisplay.screen 1 1 (console leoDisplay.screen false) [(lf, true)] := by
  intro h
  have hrestored := h.restored _ _ rfl
  exact absurd hrestored (by decide)

end HtcLeo.FrameBuffer

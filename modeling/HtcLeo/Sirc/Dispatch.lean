import HtcLeo.Sirc.Lines

namespace HtcLeo.Sirc

open BitMask

/-!
# SircDxe — what one interrupt serves

`SircInterruptHandler` with handlers that act: each call may change the registers, the counts and
everything outside the driver, but not the table of lines.

* `Behaviour` — what the registered handlers do.
* `sircInterruptHandlerWith` — the interrupt handler, with what the driver does kept as a log.
* `ServesExactly` — the lines that are pending and registered are counted, called and
  acknowledged, each once and in order, and no other line is.
* `serveCall`, `writeAck` — what a call and an acknowledgement do to the machine.
* `dispatch_exact` — every run serves exactly, and does to the machine what its log says.
* `sircInterruptHandler` — with handlers that do nothing: the calls, and the driver after them.
-/

variable {H C W : Type}

/-- What the handlers do when they are called, to the driver and to the rest of the machine. -/
structure Behaviour (H C W : Type) where
  act : H → Option C → SircDxe H C × W → SircDxe H C × W
  keepsTable : ∀ h c s, (act h c s).1.mLine = s.1.mLine

/-- Handlers that do nothing. -/
def Behaviour.idle : Behaviour H C W := ⟨fun _ _ s => s, fun _ _ _ => rfl⟩

/-- Handlers that leave `IrqCount` alone. -/
def Behaviour.KeepsCounts (b : Behaviour H C W) : Prop :=
  ∀ h c s, (b.act h c s).1.irqCount = s.1.irqCount

/-- What the driver does during an interrupt. -/
inductive Action (H C : Type)
  | counted (line : Fin numLines)
  | called (call : LineCall H C)
  | acknowledged (ack : U32)

/-- What the loop of `SircInterruptHandler` has come to. -/
structure Serving (H C W : Type) where
  drv : SircDxe H C
  world : W
  ack : U32
  log : List (Action H C)

/-- One iteration of the loop of `SircInterruptHandler`. -/
def serveLine (b : Behaviour H C W) (status : U32) (s : Serving H C W) (line : Fin numLines) :
    Serving H C W :=
  if status &&& lineBit line = 0#32 then s
  else match (s.drv.mLine line).handler with
    | none   => s
    | some h =>
        let context := (s.drv.mLine line).context
        let drv : SircDxe H C := { s.drv with
          irqCount := Function.update s.drv.irqCount line (s.drv.irqCount line + 1) }
        { drv := (b.act h context (drv, s.world)).1
          world := (b.act h context (drv, s.world)).2
          ack := s.ack ||| lineBit line
          log := s.log ++ [.counted line, .called ⟨line, h, context⟩] }

/-- The write to `SIRC_INT_ACK` after the loop. -/
def Serving.acknowledge (s : Serving H C W) : Serving H C W :=
  if s.ack ≠ 0#32 then
    { s with
      drv := { s.drv with regs := mmioWrite32 .intAck s.ack s.drv.regs }
      log := s.log ++ [.acknowledged s.ack] }
  else s

/-- `SircInterruptHandler`, with the handlers' behaviour. -/
def sircInterruptHandlerWith (b : Behaviour H C W) (d : SircDxe H C) (w : W) : Serving H C W :=
  let status := mmioRead32 .irq0Status d.regs
  if status = 0#32 then ⟨d, w, 0#32, []⟩
  else ((List.finRange numLines).foldl (serveLine b status) ⟨d, w, 0#32, []⟩).acknowledge

/-! ### What a log says -/

/-- The lines counted, in order. -/
def countedLines (log : List (Action H C)) : List (Fin numLines) :=
  log.filterMap fun
    | .counted line => some line
    | _             => none

/-- The calls made, in order. -/
def callsMade (log : List (Action H C)) : List (LineCall H C) :=
  log.filterMap fun
    | .called call => some call
    | _            => none

/-- The masks written to `SIRC_INT_ACK`. -/
def acksWritten (log : List (Action H C)) : List U32 :=
  log.filterMap fun
    | .acknowledged ack => some ack
    | _                 => none

/-- A line is pending in a status word and registered. -/
def Owed (d : SircDxe H C) (status : U32) (line : Fin numLines) : Prop :=
  status.getLsbD line = true ∧ (d.mLine line).handler.isSome = true

instance (d : SircDxe H C) (status : U32) (line : Fin numLines) :
    Decidable (Owed d status line) := inferInstanceAs (Decidable (_ ∧ _))

/-- The lines that are owed a call are served exactly. -/
structure ServesExactly (d : SircDxe H C) (status : U32) (log : List (Action H C)) : Prop where
  /-- Each call is to the handler of a line that is owed it, with the context of that line. -/
  calls : ∀ call, call ∈ callsMade log ↔ Owed d status call.line ∧
    d.mLine call.line = ⟨some call.handler, call.context⟩
  /-- The calls are in ascending order of the lines, and so none is made twice. -/
  ascending : (callsMade log).Pairwise fun call later => call.line < later.line
  /-- A line is counted once for its call. -/
  counts : countedLines log = (callsMade log).map LineCall.line
  /-- There is one mask, or none if no line is owed a call. -/
  acks : (acksWritten log).length = if callsMade log = [] then 0 else 1
  /-- The mask consists of the lines that are owed a call. -/
  mask : ∀ ack ∈ acksWritten log, ∀ i, ack.getLsbD i = true ↔
    ∃ line : Fin numLines, (line : Nat) = i ∧ Owed d status line

/-- What a call does: the line is counted, then its handler acts. -/
def serveCall (b : Behaviour H C W) (s : SircDxe H C × W) (call : LineCall H C) :
    SircDxe H C × W :=
  b.act call.handler call.context
    ({ s.1 with irqCount := Function.update s.1.irqCount call.line (s.1.irqCount call.line + 1) },
      s.2)

/-- What an acknowledgement does. -/
def writeAck (s : SircDxe H C × W) (ack : U32) : SircDxe H C × W :=
  ({ s.1 with regs := mmioWrite32 .intAck ack s.1.regs }, s.2)

/-! ### The loop -/

/-- The driver and the rest of the machine. -/
def Serving.machine (s : Serving H C W) : SircDxe H C × W := (s.drv, s.world)

/-- What the driver does for a call. -/
def callActions (call : LineCall H C) : List (Action H C) := [.counted call.line, .called call]

/-- One iteration does what the line is owed. -/
theorem serveLine_spec (b : Behaviour H C W) (status : U32) (s : Serving H C W)
    (line : Fin numLines) :
    (serveLine b status s line).drv.mLine = s.drv.mLine ∧
    (serveLine b status s line).log
      = s.log ++ (lineCall s.drv status line).toList.flatMap callActions ∧
    (serveLine b status s line).ack
      = (if (lineCall s.drv status line).isSome then s.ack ||| lineBit line else s.ack) ∧
    (serveLine b status s line).machine
      = (lineCall s.drv status line).toList.foldl (serveCall b) s.machine := by
  by_cases hbit : status.getLsbD line = true
  · have hne : ¬ status &&& lineBit line = 0#32 := by
      rw [lineBit, and_bit_eq_zero_iff]
      simp [hbit]
    simp only [serveLine, if_neg hne, lineCall, if_pos hbit]
    -- a pending line without a handler is passed over
    obtain hh | ⟨h, hh⟩ := Option.eq_none_or_eq_some (s.drv.mLine line).handler
    · simp [hh]
    · simp [hh, callActions, b.keepsTable, Serving.machine, serveCall]
  · have hz : status &&& lineBit line = 0#32 := by
      rw [lineBit, and_bit_eq_zero_iff]
      exact Bool.eq_false_iff.mpr hbit
    simp only [serveLine, if_pos hz, lineCall, if_neg hbit]
    simp

/-- The loop does what its lines are owed, in order. -/
theorem foldl_serveLine (b : Behaviour H C W) (status : U32) (lines : List (Fin numLines))
    (s : Serving H C W) :
    (lines.foldl (serveLine b status) s).drv.mLine = s.drv.mLine ∧
    (lines.foldl (serveLine b status) s).log
      = s.log ++ (lines.filterMap (lineCall s.drv status)).flatMap callActions ∧
    (∀ i, (lines.foldl (serveLine b status) s).ack.getLsbD i = true ↔
      s.ack.getLsbD i = true ∨
        ∃ line ∈ lines, (line : Nat) = i ∧ (lineCall s.drv status line).isSome = true) ∧
    (lines.foldl (serveLine b status) s).machine
      = (lines.filterMap (lineCall s.drv status)).foldl (serveCall b) s.machine := by
  -- by induction on the lines left; the table stays, so what they are owed is known before
  induction lines generalizing s with
  | nil => simp
  | cons line lines ih =>
    obtain ⟨hm, hlog, hack, hmachine⟩ := serveLine_spec b status s line
    obtain ⟨ihm, ihlog, ihack, ihmachine⟩ := ih (serveLine b status s line)
    rw [lineCall_congr hm] at ihlog ihack ihmachine
    refine ⟨ihm.trans hm, ?_, fun i => ?_, ?_⟩
    · rw [List.foldl_cons, ihlog, hlog, List.append_assoc, List.filterMap_cons]
      cases lineCall s.drv status line <;> simp
    · rw [List.foldl_cons, ihack, hack]
      have hlt : (line : Nat) < 32 := lt_trans line.isLt (by decide)
      cases hcall : lineCall s.drv status line with
      | none => simp [hcall]
      | some call =>
        simp only [Option.isSome_some, if_true, lineBit]
        rw [getLsbD_or_bit _ hlt]
        simp only [Bool.or_eq_true, decide_eq_true_eq, List.exists_mem_cons_iff, hcall,
          Option.isSome_some, and_true, or_assoc, @eq_comm Nat i]
    · rw [List.foldl_cons, ihmachine, hmachine, List.filterMap_cons]
      cases lineCall s.drv status line <;> simp

/-- A line is owed a call exactly when the loop makes one. -/
theorem lineCall_isSome_iff (d : SircDxe H C) (status : U32) (line : Fin numLines) :
    (lineCall d status line).isSome = true ↔ Owed d status line := by
  unfold lineCall Owed
  split
  · simp [*]
  · simp [*]

/-- The call a line is owed. -/
theorem lineCall_eq_some_iff (d : SircDxe H C) (status : U32) (line : Fin numLines)
    (call : LineCall H C) :
    lineCall d status line = some call ↔ call.line = line ∧ Owed d status line ∧
      d.mLine line = ⟨some call.handler, call.context⟩ := by
  obtain ⟨l, h, c⟩ := call
  obtain hh | ⟨h', hh⟩ := Option.eq_none_or_eq_some (d.mLine line).handler
  · simp only [lineCall, Owed, hh]
    simp
  · have hline : d.mLine line = ⟨some h', (d.mLine line).context⟩ := by rw [← hh]
    rw [hline]
    simp only [lineCall, Owed, hh]
    by_cases hbit : status.getLsbD line = true
    · simp [hbit, eq_comm]
    · simp [hbit]

/-! ### Reading the log of a run -/

section Log

variable (calls : List (LineCall H C))

theorem callsMade_actions : callsMade (calls.flatMap callActions) = calls := by
  induction calls with
  | nil => rfl
  | cons call calls ih =>
    rw [List.flatMap_cons, callsMade, List.filterMap_append]
    exact congrArg (call :: ·) ih

theorem countedLines_actions :
    countedLines (calls.flatMap callActions) = calls.map LineCall.line := by
  induction calls with
  | nil => rfl
  | cons call calls ih =>
    rw [List.flatMap_cons, countedLines, List.filterMap_append]
    exact congrArg (call.line :: ·) ih

theorem acksWritten_actions : acksWritten (calls.flatMap callActions) = [] := by
  induction calls with
  | nil => rfl
  | cons call calls ih =>
    rw [List.flatMap_cons, acksWritten, List.filterMap_append]
    exact ih

end Log

/-- What the log of the loop is, with the mask after it. -/
def served (calls : List (LineCall H C)) (ack : U32) : List (Action H C) :=
  calls.flatMap callActions ++ if ack ≠ 0#32 then [Action.acknowledged ack] else []

theorem callsMade_served (calls : List (LineCall H C)) (ack : U32) :
    callsMade (served calls ack) = calls := by
  rw [served, callsMade, List.filterMap_append, ← callsMade, callsMade_actions]
  split <;> simp

theorem acksWritten_served (calls : List (LineCall H C)) (ack : U32) :
    acksWritten (served calls ack) = if ack ≠ 0#32 then [ack] else [] := by
  rw [served, acksWritten, List.filterMap_append, ← acksWritten, acksWritten_actions]
  split <;> rfl

/-- The calls of the loop over all lines, and the mask it accumulates, serve exactly. -/
theorem servesExactly_of_calls (d : SircDxe H C) (status ack : U32)
    {calls : List (LineCall H C)}
    (hcalls : calls = (List.finRange numLines).filterMap (lineCall d status))
    (hack : ∀ i, ack.getLsbD i = true ↔
      ∃ line : Fin numLines, (line : Nat) = i ∧ Owed d status line) :
    ServesExactly d status (served calls ack) := by
  have hmem : ∀ call, call ∈ calls ↔ Owed d status call.line ∧
      d.mLine call.line = ⟨some call.handler, call.context⟩ := by
    intro call
    simp only [hcalls, List.mem_filterMap, List.mem_finRange, true_and, lineCall_eq_some_iff]
    exact ⟨fun ⟨line, hline, h⟩ => hline ▸ h, fun h => ⟨call.line, rfl, h⟩⟩
  -- no line is owed a call exactly when the mask is empty
  have hempty : ack ≠ 0#32 ↔ calls ≠ [] := by
    rw [not_iff_not, eq_zero_iff_getLsbD, hcalls, List.filterMap_eq_nil_iff]
    simp only [List.mem_finRange, forall_const, ← Option.not_isSome_iff_eq_none,
      lineCall_isSome_iff, ← Bool.not_eq_true, hack]
    exact ⟨fun h line howed => h line ⟨line, rfl, howed⟩,
      fun h i ⟨line, _, howed⟩ => h line howed⟩
  have hmade := callsMade_served calls ack
  have hacks := acksWritten_served calls ack
  refine ⟨?_, ?_, ?_, ?_, ?_⟩
  · rw [hmade]
    exact hmem
  · rw [hmade, hcalls, List.pairwise_filterMap]
    refine (List.pairwise_lt_finRange numLines).imp ?_
    intro line later hlt call hcall call' hcall'
    rw [((lineCall_eq_some_iff d status line call).mp hcall).1,
      ((lineCall_eq_some_iff d status later call').mp hcall').1]
    exact hlt
  · rw [hmade, served, countedLines, List.filterMap_append, ← countedLines, countedLines_actions]
    split <;> simp
  · rw [hacks, hmade]
    by_cases h : ack ≠ 0#32
    · rw [if_pos h, if_neg (hempty.mp h)]
      rfl
    · rw [if_neg h, if_pos (not_not.mp (mt hempty.mpr h))]
      rfl
  · intro a ha
    rw [hacks] at ha
    split at ha
    · rw [List.mem_singleton.mp ha]
      exact hack
    · exact absurd ha List.not_mem_nil

/-! ### The counts -/

/-- One iteration counts a line that is owed a call, where the handlers leave the counts alone. -/
theorem serveLine_counts {b : Behaviour H C W} (hb : b.KeepsCounts) (status : U32)
    (s : Serving H C W) (line : Fin numLines) :
    (serveLine b status s line).drv.irqCount
      = if Owed s.drv status line then
          Function.update s.drv.irqCount line (s.drv.irqCount line + 1)
        else s.drv.irqCount := by
  by_cases hbit : status.getLsbD line = true
  · have hne : ¬ status &&& lineBit line = 0#32 := by
      rw [lineBit, and_bit_eq_zero_iff]
      simp [hbit]
    simp only [serveLine, if_neg hne]
    obtain hh | ⟨h, hh⟩ := Option.eq_none_or_eq_some (s.drv.mLine line).handler
    · simp [hh, Owed]
    · simp [hh, Owed, hbit, hb h]
  · have hz : status &&& lineBit line = 0#32 := by
      rw [lineBit, and_bit_eq_zero_iff]
      exact Bool.eq_false_iff.mpr hbit
    have howed : ¬ Owed s.drv status line := fun h => hbit h.1
    simp only [serveLine, if_pos hz, if_neg howed]

/-- The loop counts each of its lines that is owed a call once. -/
theorem foldl_serveLine_counts {b : Behaviour H C W} (hb : b.KeepsCounts) (status : U32)
    {lines : List (Fin numLines)} (hnodup : lines.Nodup) (s : Serving H C W)
    (line : Fin numLines) :
    (lines.foldl (serveLine b status) s).drv.irqCount line
      = if line ∈ lines ∧ Owed s.drv status line then s.drv.irqCount line + 1
        else s.drv.irqCount line := by
  induction lines generalizing s with
  | nil => simp
  | cons l lines ih =>
    obtain ⟨hl, hnodup⟩ := List.nodup_cons.mp hnodup
    obtain ⟨hm, _⟩ := serveLine_spec b status s l
    have howed : Owed (serveLine b status s l).drv status line ↔ Owed s.drv status line := by
      rw [Owed, Owed, hm]
    rw [List.foldl_cons, ih hnodup, serveLine_counts hb]
    simp only [howed, List.mem_cons]
    by_cases heq : line = l
    · -- the line of this iteration does not come again
      subst heq
      simp only [hl, false_and, if_false, true_or, true_and]
      split
      · rw [Function.update_self]
      · rfl
    · have hother : (if Owed s.drv status l then
          Function.update s.drv.irqCount l (s.drv.irqCount l + 1)
        else s.drv.irqCount) line = s.drv.irqCount line := by
        split
        · rw [Function.update_of_ne heq]
        · rfl
      simp only [hother, heq, false_or]

/-! ### One interrupt -/

/-- The write to `SIRC_INT_ACK` changes no count. -/
theorem acknowledge_irqCount (s : Serving H C W) :
    s.acknowledge.drv.irqCount = s.drv.irqCount := by
  unfold Serving.acknowledge
  split
  · rfl
  · rfl

theorem acknowledge_log (s : Serving H C W) :
    s.acknowledge.log = s.log ++ if s.ack ≠ 0#32 then [Action.acknowledged s.ack] else [] := by
  unfold Serving.acknowledge
  split
  · rfl
  · simp

/-- A status word of 0 owes no call. -/
theorem not_owed_zero (d : SircDxe H C) (line : Fin numLines) : ¬ Owed d 0#32 line := by
  simp [Owed]

/-- The write to `SIRC_INT_ACK` does to the machine what it does. -/
theorem acknowledge_machine (s : Serving H C W) :
    s.acknowledge.machine = (if s.ack ≠ 0#32 then [s.ack] else []).foldl writeAck s.machine := by
  unfold Serving.acknowledge
  split
  · rfl
  · rfl

/-- One interrupt, as a whole: the calls that are owed, and the mask of their lines. -/
theorem sircInterruptHandlerWith_spec (b : Behaviour H C W) (d : SircDxe H C) (w : W) :
    let status := mmioRead32 .irq0Status d.regs
    let calls := (List.finRange numLines).filterMap (lineCall d status)
    ∃ ack, (∀ i, ack.getLsbD i = true ↔
        ∃ line : Fin numLines, (line : Nat) = i ∧ Owed d status line) ∧
      (sircInterruptHandlerWith b d w).log = served calls ack ∧
      (sircInterruptHandlerWith b d w).machine
        = (if ack ≠ 0#32 then [ack] else []).foldl writeAck
            (calls.foldl (serveCall b) (d, w)) := by
  unfold sircInterruptHandlerWith
  dsimp only
  generalize mmioRead32 .irq0Status d.regs = status
  by_cases hz : status = 0#32
  · -- the early return: no line is shown, and no call is owed
    subst hz
    have hnone : lineCall d 0#32 = fun _ => none := by
      funext line
      exact if_neg (by simp)
    refine ⟨0#32, fun i => ?_, ?_⟩
    · exact iff_of_false (by simp) fun ⟨line, _, howed⟩ => not_owed_zero d line howed
    · rw [if_pos rfl, hnone]
      simp [served, Serving.machine]
  · rw [if_neg hz]
    obtain ⟨_, hlog, hack, hmachine⟩ := foldl_serveLine b status (List.finRange numLines)
      (⟨d, w, 0#32, []⟩ : Serving H C W)
    refine ⟨_, fun i => ?_, by rw [acknowledge_log, hlog, List.nil_append]; rfl, ?_⟩
    · rw [hack]
      simp [lineCall_isSome_iff]
    · rw [acknowledge_machine, hmachine]
      rfl

/-- **Exact dispatch.**  One interrupt calls, counts and acknowledges exactly the lines that are
    pending and registered, each once and in ascending order, whatever the handlers do; and the
    machine it leaves is the one these calls, each counted and then acted, and that
    acknowledgement make. -/
theorem dispatch_exact (b : Behaviour H C W) (d : SircDxe H C) (w : W) :
    let run := sircInterruptHandlerWith b d w
    ServesExactly d (mmioRead32 .irq0Status d.regs) run.log ∧
    (run.drv, run.world)
      = (acksWritten run.log).foldl writeAck ((callsMade run.log).foldl (serveCall b) (d, w)) ∧
    (b.KeepsCounts → ∀ line, run.drv.irqCount line
      = if Owed d (mmioRead32 .irq0Status d.regs) line then d.irqCount line + 1
        else d.irqCount line) := by
  intro run
  obtain ⟨ack, hack, hlog, hmachine⟩ := sircInterruptHandlerWith_spec b d w
  refine ⟨?_, ?_, fun hb line => ?_⟩
  · rw [show run.log = _ from hlog]
    exact servesExactly_of_calls d _ ack rfl hack
  · rw [show run.log = _ from hlog, callsMade_served, acksWritten_served]
    exact hmachine
  · show (sircInterruptHandlerWith b d w).drv.irqCount line = _
    unfold sircInterruptHandlerWith
    dsimp only
    split
    · next hz => rw [hz, if_neg (not_owed_zero d line)]
    · rw [acknowledge_irqCount, foldl_serveLine_counts hb _ (List.nodup_finRange numLines)]
      simp only [List.mem_finRange, true_and]

/-! ### Handlers that do nothing -/

/-- `SircInterruptHandler`, where the handlers leave the driver alone: the calls it makes, in
    order, and the driver after it. -/
def sircInterruptHandler (d : SircDxe H C) : List (LineCall H C) × SircDxe H C :=
  let run := sircInterruptHandlerWith Behaviour.idle d ()
  (callsMade run.log, run.drv)

/-- The handler calls the handlers of the lines its status word shows, each with the context
    stored next to it. -/
theorem interrupt_calls (d : SircDxe H C) :
    (sircInterruptHandler d).1
      = (List.finRange numLines).filterMap (lineCall d (mmioRead32 .irq0Status d.regs)) := by
  obtain ⟨ack, _, hlog, _⟩ := sircInterruptHandlerWith_spec Behaviour.idle d ()
  show callsMade (sircInterruptHandlerWith Behaviour.idle d ()).log = _
  rw [hlog, callsMade_served]

/-- Such calls change counts only. -/
theorem foldl_serveCall_idle (calls : List (LineCall H C)) (s : SircDxe H C × W) :
    (calls.foldl (serveCall Behaviour.idle) s).1.mLine = s.1.mLine ∧
      (calls.foldl (serveCall Behaviour.idle) s).1.regs = s.1.regs := by
  induction calls generalizing s with
  | nil => exact ⟨rfl, rfl⟩
  | cons call calls ih => exact ih (serveCall Behaviour.idle s call)

/-- The handler leaves the lines alone, and of the registers touches only the latched ones. -/
theorem interrupt_frame (d : SircDxe H C) :
    (sircInterruptHandler d).2.mLine = d.mLine ∧
    ∀ r, r ≠ .rawStatus → (sircInterruptHandler d).2.regs r = d.regs r := by
  obtain ⟨ack, _, _, hmachine⟩ := sircInterruptHandlerWith_spec Behaviour.idle d ()
  obtain ⟨hlines, hregs⟩ := foldl_serveCall_idle ((List.finRange numLines).filterMap
    (lineCall d (mmioRead32 .irq0Status d.regs))) (d, ())
  have hdrv := congrArg Prod.fst hmachine
  show (sircInterruptHandlerWith Behaviour.idle d ()).drv.mLine = _ ∧
    ∀ r, r ≠ .rawStatus → (sircInterruptHandlerWith Behaviour.idle d ()).drv.regs r = _
  rw [show (sircInterruptHandlerWith Behaviour.idle d ()).drv = _ from hdrv]
  split
  · refine ⟨hlines, fun r hne => ?_⟩
    exact (Function.update_of_ne hne _ _).trans (congrFun hregs r)
  · exact ⟨hlines, fun r _ => congrFun hregs r⟩

end HtcLeo.Sirc

import HtcLeo.Interrupt.Vic
import HtcLeo.Lib.Runs

namespace HtcLeo.Interrupt

open Runs

/-!
# InterruptDxe — which VIC lines are enabled

Runs of `RegisterInterruptSource`, `EnableInterruptSource` and `DisableInterruptSource`
calls from driver initialisation, on any sources.

* `Monitored` — the driver together with the ghost record of which sources have been
  enabled explicitly since their last unregistration.
* `LineJustified line` — the line is enabled only if its source has a handler or was
  explicitly enabled.
* `KeepsLine line` — the condition under which one call keeps `LineJustified line`
  (`step_lineJustified_iff`).  `always_lineJustified_iff` lifts it to runs.
* `registryStep` — what the handler table is for: an abstract registry of handlers, which
  the table is after every run (`run_handlers`) and the dispatcher looks up.
-/

variable {H : Type}

/-- A call of the hardware interrupt protocol. -/
inductive IrqCall (H : Type)
  | register (source : U32) (handler : Option H)
  | enable (source : U32)
  | disable (source : U32)

/-- The driver, and (ghost) the sources enabled by `EnableInterruptSource` since their last
    successful unregistration. -/
structure Monitored (H : Type) where
  drv : IrqDxe H
  explicit : Nat → Bool

/-- One call on the monitored driver. -/
def IrqCall.step (m : Monitored H) : IrqCall H → Monitored H
  | .register source handler =>
      let r := registerInterruptSource source handler m.drv
      -- a successful unregistration ends what an explicit enabling stands for
      { drv := r.2
        explicit := if handler.isNone && decide (r.1 = .success)
          then Function.update m.explicit source.toNat false else m.explicit }
  | .enable source =>
      let r := enableInterruptSource source m.drv
      { drv := r.2
        explicit := if r.1 = .success
          then Function.update m.explicit source.toNat true else m.explicit }
  | .disable source => { m with drv := (disableInterruptSource source m.drv).2 }

/-- The driver after `InterruptDxeInitialize`, on a VIC whose registers hold `hw`: the
    table is a zero-initialised global, and `InitInterrupts` has programmed the VIC. -/
def interruptDxeInitialize (hw : Vic) : Monitored H where
  drv := initInterrupts ⟨hw, fun _ => none, []⟩
  explicit := fun _ => false

/-- The source of the line has a handler or was explicitly enabled. -/
def Claimed (m : Monitored H) (line : Nat) : Prop :=
  (m.drv.gRegisteredInterruptHandlers line).isSome = true ∨ m.explicit line = true

/-- The line is enabled only if its source has a handler or was explicitly enabled after its
    last unregistration. -/
def LineJustified (line : Fin 64) (m : Monitored H) : Prop :=
  lineEnabled m.drv line = true → Claimed m line

/-- The condition under which one call leaves the line justified.  A registration that goes
    through on the line's own source must install a handler, and a registration or enabling
    on another source that selects the line must find it claimed. -/
def KeepsLine (line : Fin 64) (m : Monitored H) : IrqCall H → Prop
  | .register source handler =>
      source.toNat ≤ nrIrqs →
      handler.isSome ≠ (m.drv.gRegisteredInterruptHandlers source.toNat).isSome →
      vicLine source = line →
      if source.toNat = line then handler.isSome = true else Claimed m line
  | .enable source =>
      source.toNat ≤ nrIrqs → vicLine source = line → source.toNat = line ∨ Claimed m line
  | .disable _ => True

/-! ### Initialisation -/

/-- `InitInterrupts` stores 1 in both enable masks: lines 0 and 32 are left enabled. -/
theorem initInterrupts_lineEnabled (d : IrqDxe H) (line : Fin 64) :
    lineEnabled (initInterrupts d) line = true ↔ line = 0 ∨ line = 32 := by
  have hen0 : (initInterrupts d).vic .intEn0 = 1#32 := by
    simp [initInterrupts, IrqDxe.write, mmioWrite32]
  have hen1 : (initInterrupts d).vic .intEn1 = 1#32 := by
    simp [initInterrupts, IrqDxe.write, mmioWrite32]
  have hone : ∀ i, (1#32).getLsbD i = true ↔ i = 0 := by
    intro i
    rw [BitVec.getLsbD_one]
    simp
  rw [lineEnabled, hen0, hen1]
  by_cases h : (line : Nat) < 32
  · rw [if_pos h, hone]
    omega
  · rw [if_neg h, hone]
    omega

/-- At the start a line is justified exactly when `InitInterrupts` does not enable it. -/
theorem init_lineJustified_iff (hw : Vic) (line : Fin 64) :
    LineJustified line (interruptDxeInitialize hw : Monitored H) ↔ line ≠ 0 ∧ line ≠ 32 := by
  have hclaim : ¬ Claimed (interruptDxeInitialize hw : Monitored H) line := by
    simp [Claimed, interruptDxeInitialize, initInterrupts, IrqDxe.write]
  have henabled := initInterrupts_lineEnabled (⟨hw, fun _ => none, []⟩ : IrqDxe H) line
  unfold LineJustified
  rw [show (interruptDxeInitialize hw : Monitored H).drv
    = initInterrupts ⟨hw, fun _ => none, []⟩ from rfl, henabled]
  refine ⟨fun h => ?_, fun h hl => absurd hl ?_⟩
  · exact ⟨fun h0 => hclaim (h (Or.inl h0)), fun h32 => hclaim (h (Or.inr h32))⟩
  · rw [not_or]
    exact h

/-! ### One call -/

theorem enable_success {source : U32} (h : source.toNat ≤ nrIrqs) (d : IrqDxe H) :
    (enableInterruptSource source d).1 = .success := by
  rw [enableInterruptSource, if_neg (Nat.not_lt.mpr h)]

/-- A registration that goes through stores the handler, forgets an explicit enabling when it
    unregisters, and enables the line of its source. -/
theorem step_register {source : U32} (h : source.toNat ≤ nrIrqs) (handler : Option H)
    (m : Monitored H)
    (hne : handler.isSome ≠ (m.drv.gRegisteredInterruptHandlers source.toNat).isSome) :
    (∀ line, lineEnabled (IrqCall.step m (.register source handler)).drv line
      = (lineEnabled m.drv line || decide (line = vicLine source))) ∧
    (IrqCall.step m (.register source handler)).drv.gRegisteredInterruptHandlers
      = Function.update m.drv.gRegisteredInterruptHandlers source.toNat handler ∧
    (IrqCall.step m (.register source handler)).explicit
      = if handler.isNone then Function.update m.explicit source.toNat false
        else m.explicit := by
  rcases register_cases h handler m.drv with ⟨heq, _⟩ | ⟨_, hr⟩
  · exact absurd heq hne
  · refine ⟨fun line => ?_, ?_, ?_⟩
    · show lineEnabled (registerInterruptSource source handler m.drv).2 line = _
      rw [hr, enable_lineEnabled h]
      rfl
    · show (registerInterruptSource source handler m.drv).2.gRegisteredInterruptHandlers = _
      rw [hr, enable_handlers]
      rfl
    · simp only [IrqCall.step, hr, enable_success h, decide_true, Bool.and_true]

/-- A registration that does not go through leaves lines, handlers and record alone. -/
theorem step_register_refused {source : U32} (handler : Option H) (m : Monitored H)
    (hno : ¬ (source.toNat ≤ nrIrqs ∧
      handler.isSome ≠ (m.drv.gRegisteredInterruptHandlers source.toNat).isSome)) :
    (∀ line, lineEnabled (IrqCall.step m (.register source handler)).drv line
      = lineEnabled m.drv line) ∧
    (IrqCall.step m (.register source handler)).drv.gRegisteredInterruptHandlers
      = m.drv.gRegisteredInterruptHandlers ∧
    (IrqCall.step m (.register source handler)).explicit = m.explicit := by
  by_cases h : source.toNat ≤ nrIrqs
  · rcases register_cases h handler m.drv with ⟨_, hfail, _, hr⟩ | ⟨hne, _⟩
    · simp [IrqCall.step, hr, hfail, IrqDxe.readHandler, lineEnabled]
    · exact absurd ⟨h, hne⟩ hno
  · simp [IrqCall.step, register_of_gt (Nat.not_le.mp h) handler m.drv]

/-- **Step lemma.**  From a state where the line is justified, a call leaves it justified
    exactly when it meets `KeepsLine`. -/
theorem step_lineJustified_iff (line : Fin 64) (m : Monitored H) (call : IrqCall H)
    (hm : LineJustified line m) :
    LineJustified line (call.step m) ↔ KeepsLine line m call := by
  cases call with
  | register source handler =>
    by_cases hgo : source.toNat ≤ nrIrqs ∧
        handler.isSome ≠ (m.drv.gRegisteredInterruptHandlers source.toNat).isSome
    · obtain ⟨hle, hne⟩ := hgo
      obtain ⟨hlines, hhandlers, hexplicit⟩ := step_register hle handler m hne
      simp only [LineJustified, KeepsLine, Claimed, hlines, hhandlers, hexplicit, hle, hne,
        ne_eq, not_false_eq_true, true_implies]
      by_cases hsel : vicLine source = line
      · by_cases hself : source.toNat = line
        · -- the line's own source: justified exactly if a handler was installed
          cases handler <;> simp [hsel, hself]
        · -- an alias: the line is now enabled, its own source untouched
          have hself' : (line : Nat) ≠ source.toNat := fun h => hself h.symm
          cases handler <;> simp [hsel, hself, Function.update_of_ne hself']
      · -- another line, and so another source
        have hself : (line : Nat) ≠ source.toNat := by
          intro h
          have hlt : source.toNat < 64 := h ▸ line.isLt
          exact hsel (by rw [vicLine_of_lt hlt, h])
        have hsel' : ¬ (line : Nat) = vicLine source := fun h => hsel h.symm
        have hkeep : lineEnabled m.drv line = true → Claimed m line := hm
        cases handler <;>
          simpa [hsel, hsel', Function.update_of_ne hself, Claimed] using hkeep
    · obtain ⟨hlines, hhandlers, hexplicit⟩ := step_register_refused handler m hgo
      have hkeep : lineEnabled m.drv line = true → Claimed m line := hm
      simp only [LineJustified, KeepsLine, Claimed, hlines, hhandlers, hexplicit]
      exact ⟨fun _ hle hne _ => absurd ⟨hle, hne⟩ hgo, fun _ => hkeep⟩
  | enable source =>
    have hkeep : lineEnabled m.drv line = true → Claimed m line := hm
    by_cases hle : source.toNat ≤ nrIrqs
    · simp only [LineJustified, KeepsLine, Claimed, IrqCall.step, enable_lineEnabled hle,
        enable_handlers, enable_success hle, if_true, hle, true_implies]
      by_cases hsel : vicLine source = line
      · by_cases hself : source.toNat = line
        · -- the line's own source is now recorded as explicitly enabled
          simp [hself]
        · -- an alias enables the line and leaves the record of its source alone
          have hself' : (line : Nat) ≠ source.toNat := fun h => hself h.symm
          simp [hsel, hself, Function.update_of_ne hself']
      · have hself : (line : Nat) ≠ source.toNat := by
          intro h
          have hlt : source.toNat < 64 := h ▸ line.isLt
          exact hsel (by rw [vicLine_of_lt hlt, h])
        have hsel' : ¬ (line : Nat) = vicLine source := fun h => hsel h.symm
        simpa [hsel, hsel', Function.update_of_ne hself, Claimed] using hkeep
    · -- a refused source changes nothing
      have hrej := enable_of_gt (Nat.not_le.mp hle) m.drv
      simp only [LineJustified, KeepsLine, Claimed, IrqCall.step, hrej, hle, false_implies,
        iff_true, reduceCtorEq, if_false]
      exact hkeep
  | disable source =>
    have hkeep : lineEnabled m.drv line = true → Claimed m line := hm
    simp only [LineJustified, KeepsLine, Claimed, IrqCall.step, disable_handlers, iff_true]
    intro hen
    apply hkeep
    -- disabling clears lines at most
    by_cases hle : source.toNat ≤ nrIrqs
    · rw [disable_lineEnabled hle m.drv line.isLt, Bool.and_eq_true] at hen
      exact hen.1
    · rw [disable_of_gt (Nat.not_le.mp hle)] at hen
      exact hen

/-! ### The handler registry -/

/-- The abstract registry: which handler, if any, serves a source. -/
abbrev Registry (H : Type) := Nat → Option H

/-- A call on the registry: an accepted registration of a free source, or unregistration of
    a served one, replaces the entry; nothing else does. -/
def IrqCall.registryStep (r : Registry H) : IrqCall H → Registry H
  | .register source handler =>
      if source.toNat ≤ nrIrqs ∧ handler.isSome ≠ (r source.toNat).isSome
      then Function.update r source.toNat handler else r
  | .enable _  => r
  | .disable _ => r

theorem step_handlers (m : Monitored H) (call : IrqCall H) :
    (call.step m).drv.gRegisteredInterruptHandlers
      = call.registryStep m.drv.gRegisteredInterruptHandlers := by
  cases call with
  | register source handler =>
    by_cases hgo : source.toNat ≤ nrIrqs ∧
        handler.isSome ≠ (m.drv.gRegisteredInterruptHandlers source.toNat).isSome
    · rw [(step_register hgo.1 handler m hgo.2).2.1, IrqCall.registryStep, if_pos hgo]
    · rw [(step_register_refused handler m hgo).2.1, IrqCall.registryStep, if_neg hgo]
  | enable source  => exact enable_handlers source m.drv
  | disable source => exact disable_handlers source m.drv

/-- **Refinement.**  After every run the handler table is the abstract registry. -/
theorem run_handlers (m : Monitored H) (calls : List (IrqCall H)) :
    (calls.foldl IrqCall.step m).drv.gRegisteredInterruptHandlers
      = calls.foldl IrqCall.registryStep m.drv.gRegisteredInterruptHandlers := by
  induction calls generalizing m with
  | nil => rfl
  | cons call calls ih => rw [List.foldl_cons, List.foldl_cons, ih, step_handlers]

/-- The driver when the VIC presents `vector` in `VIC_IRQ_VEC_RD`. -/
def IrqDxe.presenting (d : IrqDxe H) (vector : U32) : IrqDxe H :=
  { d with vic := Function.update d.vic .irqVecRd vector }

/-- The dispatcher calls the handler in the slot of the vector it reads, if there is one. -/
theorem irqInterruptHandler_calls (d : IrqDxe H) (vector : U32) :
    (irqInterruptHandler (d.presenting vector)).1
      = ((d.gRegisteredInterruptHandlers vector.toNat).map (·, vector)).toList := by
  have hvec : (d.presenting vector).vic .irqVecRd = vector := by simp [IrqDxe.presenting]
  have hslot : (d.presenting vector).gRegisteredInterruptHandlers
      = d.gRegisteredInterruptHandlers := rfl
  simp only [irqInterruptHandler, hvec, IrqDxe.readHandler, IrqDxe.write, hslot]
  cases d.gRegisteredInterruptHandlers vector.toNat <;> rfl

/-! ### Runs -/

/-- A line is justified in every state of a run exactly when `InitInterrupts` does not enable
    it and every call keeps it. -/
theorem always_lineJustified_iff (hw : Vic) (calls : List (IrqCall H)) (line : Fin 64) :
    Always IrqCall.step (LineJustified line) (interruptDxeInitialize hw) calls ↔
      (line ≠ 0 ∧ line ≠ 32) ∧
        EveryStep IrqCall.step (KeepsLine line) (interruptDxeInitialize hw) calls := by
  rw [← init_lineJustified_iff hw line (H := H)]
  exact always_iff_everyStep (I := fun _ => True) (fun _ _ h => h)
    (fun m call _ hm => step_lineJustified_iff line m call hm) trivial calls

/-- A successful unregistration leaves the line of its source enabled. -/
theorem unregister_lineEnabled (source : U32) (d : IrqDxe H)
    (hok : (registerInterruptSource source none d).1 = .success) :
    lineEnabled (registerInterruptSource source none d).2 (vicLine source) = true := by
  by_cases h : source.toNat ≤ nrIrqs
  · rcases register_cases h none d with ⟨_, hne, _, _⟩ | ⟨_, hr⟩
    · exact absurd hok hne
    · rw [hr, enable_lineEnabled h]
      simp
  · rw [register_of_gt (Nat.not_le.mp h)] at hok
    simp at hok

/-- **Interrupt controller invariant.**  Over any run of calls from initialisation:

    * a line is justified in every state reached exactly when it is neither 0 nor 32 and
      every call keeps it;
    * initialisation leaves lines 0 and 32 enabled and no other;
    * a successful unregistration always leaves its line enabled;
    * the dispatcher calls, for every vector, exactly the handler the registry has for it. -/
theorem interrupt_controller_exact (hw : Vic) (calls : List (IrqCall H)) (line : Fin 64) :
    (Always IrqCall.step (LineJustified line) (interruptDxeInitialize hw) calls ↔
      (line ≠ 0 ∧ line ≠ 32) ∧
        EveryStep IrqCall.step (KeepsLine line) (interruptDxeInitialize hw) calls) ∧
    (lineEnabled (interruptDxeInitialize hw : Monitored H).drv line = true ↔
      line = 0 ∨ line = 32) ∧
    (∀ (source : U32) (d : IrqDxe H), (registerInterruptSource source none d).1 = .success →
      lineEnabled (registerInterruptSource source none d).2 (vicLine source) = true) ∧
    (∀ vector : U32, vector.toNat < 64 →
      (irqInterruptHandler
        ((calls.foldl IrqCall.step (interruptDxeInitialize hw)).drv.presenting vector)).1
        = ((calls.foldl IrqCall.registryStep (fun _ => none) vector.toNat).map
            (·, vector)).toList) := by
  refine ⟨always_lineJustified_iff hw calls line, initInterrupts_lineEnabled _ line,
    unregister_lineEnabled, fun vector _ => ?_⟩
  rw [irqInterruptHandler_calls, run_handlers]
  rfl

/-- After initialisation line 0 is enabled and its source neither has a handler nor was
    enabled; registering and unregistering source 7 leaves line 7 in the same condition. -/
theorem lines_left_enabled :
    ¬ LineJustified 0 (interruptDxeInitialize (fun _ => 0) : Monitored Unit) ∧
    ¬ LineJustified 7 ([.register 7 (some ()), .register 7 none].foldl IrqCall.step
        (interruptDxeInitialize (fun _ => 0) : Monitored Unit)) := by
  refine ⟨fun h => ?_, fun h => ?_⟩
  · exact absurd (h (by decide)) (by simp only [Claimed]; decide)
  · exact absurd (h (by decide)) (by simp only [Claimed]; decide)

end HtcLeo.Interrupt

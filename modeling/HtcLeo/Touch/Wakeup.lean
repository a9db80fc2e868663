import HtcLeo.Gpio.Isr
import HtcLeo.Lib.Runs
import HtcLeo.Sirc.Lines
import HtcLeo.Touch.Position

namespace HtcLeo.Touch

open Gpio Runs

/-!
# TouchDxe — interrupts during a poll

`TsPollReport` and `TsInterruptHandler` step by step, with the two latches between the interrupt
line of the controller and the handler.  The handler may be entered between any two steps of a poll,
and a report may become available at any time.

* `Panel` — the record of the device, the latches of the TLMM and the SIRC, and where the poll and
  the handler stand.
* `Wakeful` — a report that is waiting will wake somebody, and an announcement of it stands.
* `Harmless` — the steps that do not spoil this.
* `wakeup_kept` — in a run of such steps every state is wakeful.
* `harmful_loses` — a poll that acknowledges a report that nobody has been told of loses it.
* `poll_uninterrupted`, `handler_uninterrupted` — a poll or a handler that nothing interrupts.
-/

/-! ### Steps -/

/-- Where `TsPollReport` stands. -/
inductive PollAt
  | idle                 -- outside, or before its first look at the line
  | read                 -- `TsReadReport`
  | note (buf : Report)  -- the fields of the report, and `ByInterrupt = Announced`
  | take (buf : Report)  -- `Announced = FALSE`, and the position
  | check                -- its second look at the line
  | ackTlmm              -- `TsAckInterrupt (TRUE)`
  | ackSirc
  deriving DecidableEq

/-- Where `TsInterruptHandler` stands, and `SircInterruptHandler` behind it. -/
inductive HandlerAt
  | idle | status | announce | clear | signal | ack | sircAck
  deriving DecidableEq

/-- What comes of `TsReadReport`; a transfer that fails may still have taken the report from the
    controller. -/
inductive Transfer
  | ok (buf : Report)
  | failed (taken : Bool)

/-- The bytes that `TsReadReport` stores, if the transfer succeeds. -/
def Transfer.buf : Transfer → Option Report
  | ok buf   => some buf
  | failed _ => none

/-- The touch screen with its interrupt.  The line is low while a report is waiting; of that report
    the ghosts say whether `WaitEvent` has been signalled since it became available, and whether
    the handler has announced it. -/
structure Panel where
  dev : TouchDevice
  tlmm : Tlmm
  sirc : Sirc.SircRegs
  waiting : Bool
  poll : PollAt
  handler : HandlerAt
  signalled : Bool
  announcedNew : Bool

/-- `1u << HTCLEO_SIRC_GPIO_GROUP1`. -/
def gpioGroup1Bit : U32 := 1#32 <<< 9

namespace Panel

/-- The TLMM has latched the interrupt of the touch screen. -/
def edge (p : Panel) : Bool := p.tlmm.bit 3 .intStatus 24

/-- The SIRC has latched that of the GPIO group. -/
def group (p : Panel) : Bool := (p.sirc .rawStatus).getLsbD 9

/-- The line goes low: a falling edge, if the TLMM looks for one. -/
def fall (t : Tlmm) : Tlmm :=
  if t.bit 3 .intEdge 24 && !t.bit 3 .intPos 24 then
    t.store 3 .intStatus (t.regs 3 .intStatus ||| tsIrqBankBit)
  else t

/-- A report becomes available, unless there is one already. -/
def report (p : Panel) : Panel :=
  if p.waiting then p
  else { p with waiting := true, tlmm := fall p.tlmm, signalled := false, announcedNew := false }

/-- The processor takes the interrupt, unless it is in the handler.  It may be for another pin of
    the group. -/
def interrupt (p : Panel) : Panel :=
  if p.handler = .idle then { p with handler := .status } else p

/-- The next step of the handler. -/
def handlerStep (p : Panel) : Panel :=
  match p.handler with
  | .idle     => p
  | .status   =>
      if p.tlmm.regs 3 .intStatus &&& tsIrqBankBit ≠ 0#32 then { p with handler := .announce }
      else { p with handler := .ack }
  | .announce =>
      { p with
        dev := { p.dev with announced := true }
        announcedNew := p.announcedNew || p.waiting
        handler := .clear }
  | .clear    => { p with tlmm := writel 3 .intClear tsIrqBankBit p.tlmm, handler := .signal }
  | .signal   => { p with signalled := true, handler := .ack }
  | .ack      =>
      { p with sirc := Sirc.mmioWrite32 .intAck gpioGroup1Bit p.sirc, handler := .sircAck }
  | .sircAck  =>
      { p with sirc := Sirc.mmioWrite32 .intAck gpioGroup1Bit p.sirc, handler := .idle }

/-- The next step of the poll. -/
def pollStep (p : Panel) (x : Transfer) : Panel :=
  match p.poll with
  | .idle => if p.dev.ready && p.waiting then { p with poll := .read } else p
  | .read =>
      match x with
      | .ok buf =>
          { p with
            waiting := false
            announcedNew := false
            poll := if buf.first ≠ tsWatermark then .idle else .note buf }
      | .failed taken =>
          { p with
            waiting := p.waiting && !taken
            announcedNew := p.announcedNew && !taken
            poll := .idle }
  | .note buf =>
      { p with
        dev := { p.dev with
          rawX := buf.x.setWidth 32
          rawY := buf.y.setWidth 32
          contacts := buf.points
          down := buf.points != 0
          byInterrupt := p.dev.announced }
        poll := .take buf }
  | .take buf =>
      { p with
        dev := { p.dev with
          announced := false
          panelX := p.dev.scaleX (buf.x.setWidth 32)
          panelY := p.dev.scaleY (buf.y.setWidth 32) }
        poll := .check }
  | .check   => { p with poll := if p.waiting then .ackTlmm else .idle }
  | .ackTlmm => { p with tlmm := writel 3 .intClear tsIrqBankBit p.tlmm, poll := .ackSirc }
  | .ackSirc => { p with sirc := Sirc.mmioWrite32 .intAck gpioGroup1Bit p.sirc, poll := .idle }

end Panel

/-- A step of the controller, of the processor's interrupt, of the handler, or of the poll with what
    comes of its transfer, if this is the step for it. -/
inductive PanelStep
  | report
  | interrupt
  | handler
  | poll (x : Transfer)

namespace Panel

/-- A step; the poll waits for the handler. -/
def exec (p : Panel) : PanelStep → Panel
  | .report    => p.report
  | .interrupt => p.interrupt
  | .handler   => p.handlerStep
  | .poll x    => if p.handler = .idle then p.pollStep x else p

/-- The line of the group is a level: the SIRC latches it as long as the TLMM holds an enabled
    interrupt. -/
def follow (p : Panel) : Panel :=
  { p with
    sirc :=
      if p.edge && p.tlmm.bit 3 .intEn 24 then
        Function.update p.sirc .rawStatus (p.sirc .rawStatus ||| gpioGroup1Bit)
      else p.sirc }

/-- A step, and the SIRC after it. -/
def step (p : Panel) (s : PanelStep) : Panel := (p.exec s).follow

/-- The panel when the driver has armed the interrupt; a report may be waiting then. -/
def start (dev : TouchDevice) (tlmm : Tlmm) (sirc : Sirc.SircRegs) (waiting : Bool) : Panel where
  dev := dev
  tlmm := tsArmInterrupt tlmm
  sirc := sirc
  waiting := waiting
  poll := .idle
  handler := .idle
  signalled := false
  announcedNew := false

end Panel

/-! ### What should hold -/

/-- **No wakeup is lost.**  If a report is waiting, there is a latched interrupt, or since the
    report became available the handler has signalled `WaitEvent`.  If the handler has announced
    the report, the announcement stands. -/
structure Wakeful (p : Panel) : Prop where
  wakeup : p.waiting = true → p.edge = true ∨ p.group = true ∨ p.signalled = true
  announcement : p.announcedNew = true → p.dev.announced = true

/-- The step does not spoil it.  Where the poll acknowledges, the handler has signalled for the
    report that is waiting, if there is one; where the poll takes `Announced` back, the handler has
    not announced a report that is waiting. -/
def Harmless (p : Panel) (s : PanelStep) : Prop :=
  match s with
  | .poll _ => p.handler = .idle →
      (p.poll = .ackTlmm → p.waiting = true → p.signalled = true) ∧
      (∀ buf, p.poll = .take buf → p.announcedNew = false)
  | _ => True

/-! ### The latches -/

/-- The TLMM looks for falling edges of the touch screen's line, and passes them on. -/
structure Armed (t : Tlmm) : Prop where
  edge : t.bit 3 .intEdge 24 = true
  pos : t.bit 3 .intPos 24 = false
  en : t.bit 3 .intEn 24 = true

theorem armed_tsArmInterrupt (t : Tlmm) : Armed (tsArmInterrupt t) := by
  constructor
  · simp [tsArmInterrupt, writel, Tlmm.bit, tsIrqBankBit]
  · exact tsArmInterrupt_intPos t
  · simp [tsArmInterrupt, writel, Tlmm.bit, tsIrqBankBit]

/-- Clearing the latch. -/
theorem clear_edge (t : Tlmm) :
    (writel 3 .intClear tsIrqBankBit t).bit 3 .intStatus 24 = false := by
  simp [writel, Tlmm.bit, tsIrqBankBit]

theorem Armed.clear {t : Tlmm} (h : Armed t) : Armed (writel 3 .intClear tsIrqBankBit t) :=
  ⟨h.edge, h.pos, h.en⟩

/-- A falling edge is latched. -/
theorem Armed.fall_edge {t : Tlmm} (h : Armed t) : (Panel.fall t).bit 3 .intStatus 24 = true := by
  rw [Panel.fall, h.edge, h.pos]
  simp [Tlmm.bit, tsIrqBankBit]

theorem Armed.fall {t : Tlmm} (h : Armed t) : Armed (Panel.fall t) := by
  rw [Panel.fall, h.edge, h.pos]
  exact ⟨h.edge, h.pos, h.en⟩

/-- What the handler looks at is the latch. -/
theorem status_ne_zero_iff (t : Tlmm) :
    t.regs 3 .intStatus &&& tsIrqBankBit ≠ 0#32 ↔ t.bit 3 .intStatus 24 = true := by
  rw [ne_eq, tsIrqBankBit, BitMask.and_bit_eq_zero_iff, Bool.not_eq_false]
  rfl

/-- The SIRC latches what the TLMM holds. -/
theorem Panel.follow_group (p : Panel) (h : Armed p.tlmm) :
    p.follow.group = (p.group || p.edge) := by
  unfold Panel.follow Panel.group
  cases hedge : p.edge with
  | true  => simp [h.en, gpioGroup1Bit]
  | false => simp

/-! ### The invariant -/

/-- What every step keeps, if the SIRC has latched what the TLMM holds: while the handler is on its
    way to clear the latch it is set, and until the handler signals after that, the SIRC holds the
    interrupt.  So a report that is waiting is in the latch, or has been signalled, or will be by
    the very next step of the handler. -/
structure Kept (p : Panel) : Prop where
  armed : Armed p.tlmm
  seen : p.handler = .announce ∨ p.handler = .clear → p.edge = true
  held : p.handler = .signal → p.edge = true ∨ p.group = true
  wakeup : p.waiting = true → p.edge = true ∨ p.signalled = true ∨ p.handler = .signal
  announcement : p.announcedNew = true → p.dev.announced = true

/-- The SIRC has latched what the TLMM holds. -/
structure Settled (p : Panel) : Prop extends Kept p where
  level : p.edge = true → p.group = true

/-- After the SIRC has followed. -/
theorem Kept.follow {p : Panel} (h : Kept p) : Settled p.follow := by
  have hgroup := p.follow_group h.armed
  refine ⟨⟨h.armed, h.seen, fun hsignal => ?_, h.wakeup, h.announcement⟩, fun hedge => ?_⟩
  · rw [hgroup]
    rcases h.held hsignal with hedge | hheld
    · exact Or.inl hedge
    · exact Or.inr (by simp [hheld])
  · have hlatched : p.edge = true := hedge
    simp [hgroup, hlatched]

/-- A settled panel is wakeful. -/
theorem Settled.wakeful {p : Panel} (h : Settled p) : Wakeful p := by
  refine ⟨fun hwaiting => ?_, h.announcement⟩
  rcases h.wakeup hwaiting with hedge | hsignalled | hsignal
  · exact Or.inl hedge
  · exact Or.inr (Or.inr hsignalled)
  · exact (h.held hsignal).imp_right Or.inl

/-- A step that leaves the latch, outside the part of the handler that matters. -/
theorem Settled.away {p q : Panel} (h : Settled p) (hsignal : p.handler ≠ .signal)
    (htlmm : q.tlmm = p.tlmm) (hwaiting : q.waiting = true → p.waiting = true)
    (hsignalled : q.signalled = p.signalled)
    (hannounced : q.announcedNew = true → q.dev.announced = true)
    (haway : q.handler ≠ .announce ∧ q.handler ≠ .clear ∧ q.handler ≠ .signal) : Kept q := by
  obtain ⟨hannounce, hclear, hsignal'⟩ := haway
  have hedge : q.edge = p.edge := by rw [Panel.edge, Panel.edge, htlmm]
  refine ⟨htlmm ▸ h.armed, ?_, fun hat => absurd hat hsignal', fun hwait => ?_, hannounced⟩
  · intro hat
    rcases hat with hat | hat
    · exact absurd hat hannounce
    · exact absurd hat hclear
  · rw [hedge, hsignalled]
    rcases h.wakeup (hwaiting hwait) with hlatched | hdone | hat
    · exact Or.inl hlatched
    · exact Or.inr (Or.inl hdone)
    · exact absurd hat hsignal

/-- A new report is latched. -/
theorem Settled.report {p : Panel} (h : Settled p) : Kept p.report := by
  unfold Panel.report
  split
  · exact h.toKept
  · have hedge : (Panel.fall p.tlmm).bit 3 .intStatus 24 = true := h.armed.fall_edge
    exact ⟨h.armed.fall, fun _ => hedge, fun _ => Or.inl hedge, fun _ => Or.inl hedge,
      fun hnew => absurd hnew Bool.false_ne_true⟩

theorem Settled.interrupt {p : Panel} (h : Settled p) : Kept p.interrupt := by
  unfold Panel.interrupt
  split
  · next hidle => exact h.away (by simp [hidle]) rfl id rfl h.announcement (by simp)
  · exact h.toKept

/-- The handler clears the latch only on its way to signal. -/
theorem Settled.handlerStep {p : Panel} (h : Settled p) : Kept p.handlerStep := by
  unfold Panel.handlerStep
  cases hat : p.handler with
  | idle => exact h.toKept
  | status =>
    dsimp only
    split
    · next hstatus =>
      have hedge : p.edge = true := (status_ne_zero_iff p.tlmm).mp hstatus
      exact ⟨h.armed, fun _ => hedge, fun _ => Or.inl hedge, fun _ => Or.inl hedge, h.announcement⟩
    · exact h.away (by simp [hat]) rfl id rfl h.announcement (by simp)
  | announce =>
    have hedge := h.seen (Or.inl hat)
    exact ⟨h.armed, fun _ => hedge, fun _ => Or.inl hedge, fun _ => Or.inl hedge, fun _ => rfl⟩
  | clear =>
    -- the SIRC holds the interrupt until the handler acknowledges it
    have hgroup := h.level (h.seen (Or.inr hat))
    exact ⟨h.armed.clear, by simp, fun _ => Or.inr hgroup, fun _ => Or.inr (Or.inr rfl),
      h.announcement⟩
  | signal => exact ⟨h.armed, by simp, by simp, fun _ => Or.inr (Or.inl rfl), h.announcement⟩
  | ack => exact h.away (by simp [hat]) rfl id rfl h.announcement (by simp)
  | sircAck => exact h.away (by simp [hat]) rfl id rfl h.announcement (by simp)

/-- A harmless step of the poll clears the latch only when nobody needs it. -/
theorem Settled.pollStep {p : Panel} (h : Settled p) (hidle : p.handler = .idle) (x : Transfer)
    (hharmless : Harmless p (.poll x)) : Kept (p.pollStep x) := by
  obtain ⟨hack, htake⟩ := hharmless hidle
  have hsignal : p.handler ≠ .signal := by simp [hidle]
  have haway : p.handler ≠ .announce ∧ p.handler ≠ .clear ∧ p.handler ≠ .signal := by simp [hidle]
  unfold Panel.pollStep
  cases hat : p.poll with
  | idle =>
    dsimp only
    split
    · exact h.away hsignal rfl id rfl h.announcement haway
    · exact h.toKept
  | read =>
    cases x with
    | ok buf =>
      -- the report is not waiting any more
      exact h.away hsignal rfl (fun hwait => absurd hwait Bool.false_ne_true) rfl
        (fun hnew => absurd hnew Bool.false_ne_true) haway
    | failed taken =>
      refine h.away hsignal rfl (fun hwait => ?_) rfl (fun hnew => ?_) haway
      · exact (Bool.and_eq_true_iff.mp hwait).1
      · exact h.announcement (Bool.and_eq_true_iff.mp hnew).1
  | note buf => exact h.away hsignal rfl id rfl h.announcement haway
  | take buf =>
    -- the announcement that is taken back is not that of a report that is waiting
    have hold := htake buf hat
    refine h.away hsignal rfl id rfl (fun hnew => ?_) haway
    exact absurd (hold.symm.trans hnew) Bool.false_ne_true
  | check => exact h.away hsignal rfl id rfl h.announcement haway
  | ackTlmm =>
    refine ⟨h.armed.clear, by simp [hidle], by simp [hidle], fun hwait => ?_, h.announcement⟩
    exact Or.inr (Or.inl (hack hat hwait))
  | ackSirc => exact h.away hsignal rfl id rfl h.announcement haway

/-- **One step.** -/
theorem Settled.step {p : Panel} (h : Settled p) {s : PanelStep} (hharmless : Harmless p s) :
    Settled (p.step s) := by
  apply Kept.follow
  cases s with
  | report    => exact h.report
  | interrupt => exact h.interrupt
  | handler   => exact h.handlerStep
  | poll x =>
    show Kept (if p.handler = .idle then p.pollStep x else p)
    split
    · next hidle => exact h.pollStep hidle x hharmless
    · exact h.toKept

/-- The panel is settled when the driver has armed the interrupt, if no report is waiting then. -/
theorem settled_start (dev : TouchDevice) (tlmm : Tlmm) (sirc : Sirc.SircRegs) :
    Settled (Panel.start dev tlmm sirc false) := by
  have hedge : (Panel.start dev tlmm sirc false).edge = false := by
    simp [Panel.start, Panel.edge, tsArmInterrupt, writel, Tlmm.bit, tsIrqBankBit]
  refine ⟨⟨armed_tsArmInterrupt tlmm, ?_, ?_, ?_, ?_⟩, ?_⟩
  · simp [Panel.start]
  · simp [Panel.start]
  · simp [Panel.start]
  · simp [Panel.start]
  · simp [hedge]

/-- **No wakeup is lost** in a run of harmless steps, whatever their order, if no report is waiting
    when the interrupt is armed. -/
theorem wakeup_kept (dev : TouchDevice) (tlmm : Tlmm) (sirc : Sirc.SircRegs) (waiting : Bool)
    (steps : List PanelStep) (hwaiting : waiting = false)
    (h : EveryStep Panel.step Harmless (Panel.start dev tlmm sirc waiting) steps) :
    Always Panel.step Wakeful (Panel.start dev tlmm sirc waiting) steps := by
  subst hwaiting
  have hsettled := (always_and_everyStep (I := Settled) (R := fun _ _ => True)
    (fun p s hp hs => ⟨hp.step hs, trivial⟩) (settled_start dev tlmm sirc) h).1
  exact hsettled.mono fun p hp => hp.wakeful

/-! ### A step that is not harmless -/

/-- Where the TLMM holds nothing, the SIRC has nothing to follow. -/
theorem Panel.follow_quiet {p : Panel} (h : p.edge = false) : p.follow = p := by
  simp [Panel.follow, h]

/-- A step of the poll outside the handler. -/
theorem Panel.step_poll {p : Panel} (h : p.handler = .idle) (x : Transfer) :
    p.step (.poll x) = (p.pollStep x).follow := by
  rw [Panel.step, Panel.exec, if_pos h]

/-- The SIRC's latch is cleared. -/
theorem ack_group (sirc : Sirc.SircRegs) :
    (Sirc.mmioWrite32 .intAck gpioGroup1Bit sirc .rawStatus).getLsbD 9 = false := by
  simp [Sirc.mmioWrite32, gpioGroup1Bit]

/-- The two writes of `TsAckInterrupt` leave no latch. -/
theorem ack_steps {p : Panel} (hpoll : p.poll = .ackTlmm) (hidle : p.handler = .idle)
    (x : Transfer) :
    (p.step (.poll x)).step (.poll x) =
      { p with
        tlmm := writel 3 .intClear tsIrqBankBit p.tlmm
        sirc := Sirc.mmioWrite32 .intAck gpioGroup1Bit p.sirc
        poll := .idle } := by
  have hfirst : p.step (.poll x) =
      { p with tlmm := writel 3 .intClear tsIrqBankBit p.tlmm, poll := .ackSirc } := by
    rw [Panel.step_poll hidle]
    unfold Panel.pollStep
    rw [hpoll]
    exact Panel.follow_quiet (clear_edge p.tlmm)
  have hsecond := Panel.step_poll (p :=
    { p with tlmm := writel 3 .intClear tsIrqBankBit p.tlmm, poll := .ackSirc }) hidle x
  rw [hfirst, hsecond]
  exact Panel.follow_quiet (clear_edge p.tlmm)

/-- **A step that is not harmless** loses the wakeup or the announcement before the poll is done, if
    nothing interrupts it. -/
theorem harmful_loses {p : Panel} {x : Transfer} (h : ¬ Harmless p (.poll x)) :
    ∃ n, ¬ Wakeful ((List.replicate n (.poll x)).foldl Panel.step p) := by
  simp only [Harmless, Classical.not_imp, not_and_or, not_forall] at h
  obtain ⟨hidle, h⟩ := h
  rcases h with ⟨hpoll, hwaiting, hsignalled⟩ | ⟨buf, hpoll, hnew⟩
  · -- both latches are cleared
    refine ⟨2, fun hwake => ?_⟩
    have hlost := hwake.wakeup
    rw [List.replicate_succ, List.replicate_one, List.foldl_cons, List.foldl_cons, List.foldl_nil,
      ack_steps hpoll hidle] at hlost
    rcases hlost hwaiting with hedge | hgroup | hdone
    · exact absurd ((clear_edge p.tlmm).symm.trans hedge) Bool.false_ne_true
    · exact absurd ((ack_group p.sirc).symm.trans hgroup) Bool.false_ne_true
    · exact hsignalled hdone
  · -- the announcement is taken back
    refine ⟨1, fun hwake => ?_⟩
    have hlost := hwake.announcement
    rw [List.replicate_one, List.foldl_cons, List.foldl_nil, Panel.step_poll hidle] at hlost
    unfold Panel.pollStep at hlost
    rw [hpoll] at hlost
    exact absurd (hlost (by simpa [Panel.follow] using hnew)) Bool.false_ne_true

/-! ### What nothing interrupts -/

/-- **A poll that nothing interrupts** does to the record what `tsPollReport` does. -/
theorem poll_uninterrupted {p : Panel} (hpoll : p.poll = .idle) (hhandler : p.handler = .idle)
    (x : Transfer) :
    ∃ n, 0 < n ∧ ((List.replicate n (.poll x)).foldl Panel.step p).poll = .idle ∧
      ((List.replicate n (.poll x)).foldl Panel.step p).dev
        = (tsPollReport ⟨p.waiting, x.buf⟩ p.dev).2 := by
  obtain ⟨dev, tlmm, sirc, waiting, poll, handler, signalled, announcedNew⟩ := p
  obtain rfl : poll = .idle := hpoll
  obtain rfl : handler = .idle := hhandler
  cases hready : dev.ready with
  | false =>
    refine ⟨1, by omega, ?_, ?_⟩
    · simp [Panel.step, Panel.exec, Panel.pollStep, Panel.follow, hready]
    · simp [Panel.step, Panel.exec, Panel.pollStep, Panel.follow, hready, tsPollReport]
  | true =>
    cases waiting with
    | false =>
      refine ⟨1, by omega, ?_, ?_⟩
      · simp [Panel.step, Panel.exec, Panel.pollStep, Panel.follow, hready]
      · simp [Panel.step, Panel.exec, Panel.pollStep, Panel.follow, hready, tsPollReport]
    | true =>
      cases x with
      | failed taken =>
        refine ⟨2, by omega, ?_, ?_⟩
        · simp [Panel.step, Panel.exec, Panel.pollStep, Panel.follow, hready]
        · simp [Panel.step, Panel.exec, Panel.pollStep, Panel.follow, hready, tsPollReport,
            Transfer.buf]
      | ok buf =>
        by_cases hmark : buf 0 = tsWatermark
        · have hfirst : buf.first = tsWatermark := hmark
          refine ⟨5, by omega, ?_, ?_⟩
          · simp [Panel.step, Panel.exec, Panel.pollStep, Panel.follow, hready, hfirst]
          · simp [Panel.step, Panel.exec, Panel.pollStep, Panel.follow, hready, tsPollReport,
              Transfer.buf, hfirst, hmark, TouchDevice.take, TouchDevice.scaleX, TouchDevice.scaleY]
        · have hfirst : buf.first ≠ tsWatermark := hmark
          refine ⟨2, by omega, ?_, ?_⟩
          · simp [Panel.step, Panel.exec, Panel.pollStep, Panel.follow, hready, hfirst]
          · simp [Panel.step, Panel.exec, Panel.pollStep, Panel.follow, hready, tsPollReport,
              Transfer.buf, hfirst, hmark]

/-- **A handler that nothing interrupts** announces the report and signals, if it finds the
    interrupt latched, and clears the latch. -/
theorem handler_uninterrupted {p : Panel} (hhandler : p.handler = .status) (hedge : p.edge = true) :
    let q := (List.replicate 6 .handler).foldl Panel.step p
    q.handler = .idle ∧ q.dev = { p.dev with announced := true } ∧ q.edge = false ∧
      q.signalled = true := by
  obtain ⟨dev, tlmm, sirc, waiting, poll, handler, signalled, announcedNew⟩ := p
  obtain rfl : handler = .status := hhandler
  have hstatus : tlmm.regs 3 .intStatus &&& tsIrqBankBit ≠ 0#32 :=
    (status_ne_zero_iff tlmm).mpr hedge
  have hclear := clear_edge tlmm
  refine ⟨?_, ?_, ?_, ?_⟩
  · simp [Panel.step, Panel.exec, Panel.handlerStep, Panel.follow, hstatus]
  · simp [Panel.step, Panel.exec, Panel.handlerStep, Panel.follow, hstatus]
  · simpa [Panel.step, Panel.exec, Panel.handlerStep, Panel.follow, hstatus, Panel.edge]
      using hclear
  · simp [Panel.step, Panel.exec, Panel.handlerStep, Panel.follow, hstatus]

/-! ### Two reports -/

/-- The panel of the HTC Leo, with no interrupt latched. -/
def quietPanel : Panel :=
  Panel.start (touchDxeInitialize 480 800 ⟨false, none⟩) ⟨fun _ _ => 0, []⟩ (fun _ => 0) false

/-- A report is polled, and the next one becomes available after that. -/
theorem wakeup_kept_second :
    Always Panel.step Wakeful quietPanel
      [.report, .poll (.ok cornerReport), .poll (.ok cornerReport), .poll (.ok cornerReport),
        .poll (.ok cornerReport), .poll (.ok cornerReport), .report] := by
  refine wakeup_kept _ _ _ false _ rfl ⟨trivial, ?_, ?_, ?_, ?_, ?_, trivial, trivial⟩
  · exact fun _ => ⟨by decide, fun _ _ => rfl⟩
  · exact fun _ => ⟨by decide, fun _ _ => rfl⟩
  · exact fun _ => ⟨by decide, fun _ _ => rfl⟩
  · exact fun _ => ⟨by decide, fun _ _ => rfl⟩
  · exact fun _ => ⟨by decide, fun _ _ => rfl⟩

/-- The next report becomes available before the poll looks at the line again, and the poll
    acknowledges it: the line stays low, and nobody has been told. -/
theorem secondReport_not_wakeful :
    ¬ ∀ (dev : TouchDevice) (tlmm : Tlmm) (sirc : Sirc.SircRegs) (steps : List PanelStep),
      Always Panel.step Wakeful (Panel.start dev tlmm sirc false) steps := by
  intro h
  have hrun := h (touchDxeInitialize 480 800 ⟨false, none⟩) ⟨fun _ _ => 0, []⟩ (fun _ => 0)
    [.report, .poll (.ok cornerReport), .poll (.ok cornerReport), .poll (.ok cornerReport),
      .poll (.ok cornerReport), .report, .poll (.ok cornerReport), .poll (.ok cornerReport),
      .poll (.ok cornerReport)]
  have hlost := hrun.last.wakeup (by decide)
  exact absurd hlost (by decide)

end HtcLeo.Touch

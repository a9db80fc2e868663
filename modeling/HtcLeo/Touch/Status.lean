import HtcLeo.Touch.Position

namespace HtcLeo.Touch

open Runs

/-!
# TouchDxe — the published status

When the status that `TsGetStatus` returns is that of the last valid report.

* `Published` — what the status says about the last report; `World.published` — what it should
  say.
* `Tracks` — the record itself follows the reports, but for the flag that a reset clears.
* `Publishes` — the calls after which the status is current again: only `TsPoll` refreshes it,
  and only `TsPoll` counts.
* `status_current_iff` — the status is current all along a run exactly when every call publishes.
-/

/-! ### What should be published -/

/-- The fields of the status that describe the last report. -/
structure Published where
  rawX : U32
  rawY : U32
  contacts : U32
  lastReportByInterrupt : Bool
  deriving DecidableEq

/-- The fields of a status. -/
def TouchStatus.published (s : TouchStatus) : Published :=
  ⟨s.rawX, s.rawY, s.contacts, s.lastReportByInterrupt⟩

/-- The fields for a report; `byInterrupt` says that an interrupt had announced it. -/
def Report.published (buf : Report) (byInterrupt : Bool) : Published :=
  ⟨buf.x.setWidth 32, buf.y.setWidth 32, buf.points, byInterrupt⟩

/-- The fields for the last valid report; before the first they are zero. -/
def World.published (w : World) : Published :=
  (w.reports.head?.map fun r => r.1.published r.2).getD ⟨0, 0, 0, false⟩

/-- The status is that of the last valid report, and counts them all. -/
structure Current (w : World) : Prop where
  published : (tsGetStatus w.dev).published = w.published
  reportCount : (tsGetStatus w.dev).reportCount.toNat = w.reports.length

/-- The record follows the reports; a reset clears the flag of the last one. -/
structure Tracks (w : World) : Prop where
  rawX : w.dev.rawX = w.published.rawX
  rawY : w.dev.rawY = w.published.rawY
  contacts : w.dev.contacts = w.published.contacts
  byInterrupt : w.dev.byInterrupt = (w.published.lastReportByInterrupt && !w.resetSince)

/-! ### The calls -/

/-- The call publishes what it has read: a `Poll` with a valid report counts it, unless the counter
    is full; without one it does not publish a flag that a reset has cleared.  Neither `GetState`
    reads a valid report. -/
def Publishes (w : World) (call : Call) : Prop :=
  match call with
  | .poll i _ =>
      match i.valid w.dev with
      | some _ => w.reports.length + 1 < 2 ^ 64
      | none   => ¬ (w.resetSince = true ∧ w.published.lastReportByInterrupt = true)
  | .absoluteGetState i _ => i.valid w.dev = none
  | .simpleGetState i _   => i.valid w.dev = none
  | _                     => True

/-- A call without a valid report leaves the reports. -/
theorem step_reports_none {w : World} {call : Call} (h : call.valid w.dev = none) :
    (w.step call).reports = w.reports := by
  show w.nextReports call = _
  rw [World.nextReports, h]

/-- A call with a valid report adds it. -/
theorem step_reports_some {w : World} {call : Call} {buf : Report}
    (h : call.valid w.dev = some buf) :
    (w.step call).reports = (buf, w.dev.announced) :: w.reports := by
  show w.nextReports call = _
  rw [World.nextReports, h]

/-- A call without a valid report leaves what should be published. -/
theorem step_published_none {w : World} {call : Call} (h : call.valid w.dev = none) :
    (w.step call).published = w.published := by
  unfold World.published
  rw [step_reports_none h]

/-- After a valid report that one should be published. -/
theorem step_published_some {w : World} {call : Call} {buf : Report}
    (h : call.valid w.dev = some buf) :
    (w.step call).published = buf.published w.dev.announced := by
  unfold World.published
  rw [step_reports_some h]
  rfl

/-- Without a valid report there is a reset since the last one if there was, or if the call is
    one. -/
theorem step_resetSince_none {w : World} {call : Call} (h : call.valid w.dev = none) :
    (w.step call).resetSince = (w.resetSince || call.isReset) := by
  show ((call.valid w.dev).isNone && (w.resetSince || call.isReset)) = _
  rw [h]
  rfl

/-- The status after a `GetState` is the one before. -/
theorem exec_status_getState {t : TouchDevice} {call : Call}
    (h : (∃ i wanted, call = .absoluteGetState i wanted) ∨
      ∃ i wanted, call = .simpleGetState i wanted) : (call.exec t).status = t.status := by
  have hpoll : ∀ i, (tsPollReport i t).2.status = t.status := by
    intro i
    rw [tsPollReport_snd]
    split
    · rfl
    · rfl
  rcases h with ⟨i, wanted, rfl⟩ | ⟨i, wanted, rfl⟩
  · show (tsAbsoluteGetState i wanted t).2.2.status = _
    rw [tsAbsoluteGetState_dev, hpoll]
  · show (tsSimpleGetState i wanted t).2.2.status = _
    obtain ⟨lastX, lastY, heq⟩ := tsSimpleGetState_dev i wanted t
    rw [heq]
    exact hpoll i

/-- The flag of the record after a poll is whether the report had been announced. -/
theorem tsPollReport_byInterrupt (i : PollInput) (t : TouchDevice) :
    (tsPollReport i t).2.byInterrupt
      = if (i.valid t).isSome then t.announced else t.byInterrupt := by
  rw [tsPollReport_snd]
  cases i.valid t with
  | some buf => rfl
  | none => rfl

/-- The flag of the record after a call; a reset clears it. -/
theorem exec_byInterrupt (t : TouchDevice) (call : Call) :
    (call.exec t).byInterrupt
      = if (call.valid t).isSome then t.announced else t.byInterrupt && !call.isReset := by
  cases call with
  | interrupt       => exact (Bool.and_true _).symm
  | absoluteReset _ => exact (Bool.and_false _).symm
  | simpleReset _   => exact (Bool.and_false _).symm
  | poll i l =>
    show (tsPoll i l t).2.byInterrupt
      = if (i.valid t).isSome then t.announced else t.byInterrupt && true
    rw [Bool.and_true]
    cases hvalid : i.valid t with
    | some buf =>
      rw [tsPoll_valid hvalid]
      rfl
    | none =>
      rw [tsPoll_invalid hvalid]
      rfl
  | absoluteGetState i wanted =>
    show (tsAbsoluteGetState i wanted t).2.2.byInterrupt
      = if (i.valid t).isSome then t.announced else t.byInterrupt && true
    rw [Bool.and_true, tsAbsoluteGetState_dev, tsPollReport_byInterrupt]
  | simpleGetState i wanted =>
    show (tsSimpleGetState i wanted t).2.2.byInterrupt
      = if (i.valid t).isSome then t.announced else t.byInterrupt && true
    obtain ⟨lastX, lastY, heq⟩ := tsSimpleGetState_dev i wanted t
    rw [Bool.and_true, heq]
    exact tsPollReport_byInterrupt i t

/-! ### The record -/

/-- The record follows the reports through every call. -/
theorem Tracks.step {w : World} (h : Tracks w) (call : Call) : Tracks (w.step call) := by
  obtain ⟨status, down, announced, byInterrupt, lastX, lastY, hexec⟩ := exec_frame w.dev call
  have hflag := exec_byInterrupt w.dev call
  have hdev : (w.step call).dev = call.exec w.dev := rfl
  unfold Call.taken at hexec
  cases hvalid : call.valid w.dev with
  | some buf =>
    rw [hvalid] at hexec hflag
    have hreset : (w.step call).resetSince = false := by
      show ((call.valid w.dev).isNone && (w.resetSince || call.isReset)) = false
      rw [hvalid]
      rfl
    constructor
    · rw [step_published_some hvalid, hdev, hexec]
      rfl
    · rw [step_published_some hvalid, hdev, hexec]
      rfl
    · rw [step_published_some hvalid, hdev, hexec]
      rfl
    · rw [step_published_some hvalid, hdev, hflag, hreset]
      exact (Bool.and_true _).symm
  | none =>
    rw [hvalid] at hexec hflag
    constructor
    · rw [step_published_none hvalid, hdev, hexec]
      exact h.rawX
    · rw [step_published_none hvalid, hdev, hexec]
      exact h.rawY
    · rw [step_published_none hvalid, hdev, hexec]
      exact h.contacts
    · rw [step_published_none hvalid, step_resetSince_none hvalid, hdev, hflag]
      show (w.dev.byInterrupt && !call.isReset) = _
      rw [h.byInterrupt, Bool.not_or, Bool.and_assoc]

/-! ### The status -/

/-- What a refresh publishes of a record that follows the reports: everything, unless a reset has
    cleared the flag of a report that an interrupt had announced. -/
theorem Tracks.refresh_iff {w : World} (h : Tracks w) (l : Lines) :
    (tsRefreshStatus l w.dev).status.published = w.published ↔
      ¬ (w.resetSince = true ∧ w.published.lastReportByInterrupt = true) := by
  have hfields : (tsRefreshStatus l w.dev).status.published
      = ⟨w.published.rawX, w.published.rawY, w.published.contacts,
          w.published.lastReportByInterrupt && !w.resetSince⟩ := by
    rw [← h.rawX, ← h.rawY, ← h.contacts, ← h.byInterrupt]
    rfl
  rw [hfields]
  generalize w.published = p
  obtain ⟨rawX, rawY, contacts, byInterrupt⟩ := p
  rw [Published.mk.injEq]
  cases byInterrupt <;> cases w.resetSince <;> simp

/-- A call that leaves status and reports keeps the status current. -/
theorem Current.congr {w w' : World} (hstatus : w'.dev.status = w.dev.status)
    (hreports : w'.reports = w.reports) (h : Current w) : Current w' := by
  have hpublished : w'.published = w.published := by
    unfold World.published
    rw [hreports]
  constructor
  · rw [hpublished, ← h.published]
    exact congrArg TouchStatus.published hstatus
  · rw [hreports, ← h.reportCount]
    exact congrArg (fun s : TouchStatus => s.reportCount.toNat) hstatus

/-- A report that is read but not counted leaves a count that is too low. -/
theorem not_current_of_uncounted {w w' : World} (hstatus : w'.dev.status = w.dev.status)
    {r : Report × Bool} (hreports : w'.reports = r :: w.reports) (h : Current w) :
    ¬ Current w' := by
  intro h'
  have hcount := h'.reportCount
  have hsame : (tsGetStatus w'.dev).reportCount = (tsGetStatus w.dev).reportCount :=
    congrArg TouchStatus.reportCount hstatus
  rw [hsame, h.reportCount, hreports, List.length_cons] at hcount
  omega

/-- After a `GetState` the status is current exactly when no report was read. -/
theorem current_getState_iff {w : World} {call : Call} (h : Current w)
    (hcall : (∃ i wanted, call = .absoluteGetState i wanted) ∨
      ∃ i wanted, call = .simpleGetState i wanted) :
    Current (w.step call) ↔ call.valid w.dev = none := by
  have hstatus : (w.step call).dev.status = w.dev.status := exec_status_getState hcall
  cases hvalid : call.valid w.dev with
  | some buf =>
    have hstale := not_current_of_uncounted hstatus (step_reports_some hvalid) h
    exact ⟨fun hcur => absurd hcur hstale, fun heq => by cases heq⟩
  | none => exact ⟨fun _ => rfl, fun _ => h.congr hstatus (step_reports_none hvalid)⟩

/-- After a `Poll` the status is current exactly when the call publishes. -/
theorem current_poll_iff {w : World} (htracks : Tracks w) (h : Current w) (i : PollInput)
    (l : Lines) : Current (w.step (.poll i l)) ↔ Publishes w (.poll i l) := by
  have hdev : (w.step (.poll i l)).dev = (tsPoll i l w.dev).2 := rfl
  have hcount := h.reportCount
  unfold Publishes
  dsimp only
  cases hvalid : i.valid w.dev with
  | some buf =>
    have hvalid' : (Call.poll i l).valid w.dev = some buf := hvalid
    have hlast := step_published_some hvalid'
    have hreports := step_reports_some hvalid'
    rw [tsPoll_valid hvalid] at hdev
    have hstep : (tsGetStatus (w.step (.poll i l)).dev).reportCount.toNat
        = (w.reports.length + 1) % 2 ^ 64 := by
      rw [hdev, ← hcount]
      exact BitVec.toNat_add _ _
    constructor
    · intro hcur
      have hfull := hcur.reportCount
      rw [hstep, hreports, List.length_cons] at hfull
      exact Nat.mod_eq_iff_lt (by decide) |>.mp hfull
    · intro hroom
      constructor
      · rw [hlast, hdev]
        rfl
      · rw [hstep, hreports, List.length_cons]
        exact Nat.mod_eq_of_lt hroom
  | none =>
    have hvalid' : (Call.poll i l).valid w.dev = none := hvalid
    have hlast := step_published_none hvalid'
    have hreports := step_reports_none hvalid'
    rw [tsPoll_invalid hvalid] at hdev
    dsimp only
    rw [← htracks.refresh_iff l]
    constructor
    · intro hcur
      have hpub := hcur.published
      rw [hlast, hdev] at hpub
      exact hpub
    · intro hpub
      constructor
      · rw [hlast, hdev]
        exact hpub
      · rw [hreports, hdev]
        exact hcount

/-- **One call.**  From a current status, the status after a call is current exactly when the call
    publishes. -/
theorem current_step_iff {w : World} (htracks : Tracks w) (h : Current w) (call : Call) :
    Current (w.step call) ↔ Publishes w call := by
  cases call with
  | poll i l => exact current_poll_iff htracks h i l
  | absoluteGetState i wanted => exact current_getState_iff h (.inl ⟨i, wanted, rfl⟩)
  | simpleGetState i wanted => exact current_getState_iff h (.inr ⟨i, wanted, rfl⟩)
  | interrupt => exact ⟨fun _ => trivial, fun _ => Current.congr (w := w) rfl rfl h⟩
  | absoluteReset _ => exact ⟨fun _ => trivial, fun _ => Current.congr (w := w) rfl rfl h⟩
  | simpleReset _ => exact ⟨fun _ => trivial, fun _ => Current.congr (w := w) rfl rfl h⟩

end HtcLeo.Touch

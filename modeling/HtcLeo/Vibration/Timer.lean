import HtcLeo.Lib.Runs
import HtcLeo.Uefi

namespace HtcLeo.Vibration

open Runs

/-!
# HtcLeoVibrationLib — the timed vibration

`htcleo_vibrate_timer` of `GPLLibrary/HtcLeoVibrationLib/HtcLeoVibrationLib.c` switches the motor
on, creates an event and sets a timer for it, whose notification switches the motor off.  The
timer is periodic, and nothing cancels it.

* `Vibrator` — the motor, and the firmware's timers and queue of notifications.
* `htcleoVibrateTimer`, `htcleoDiableVibratTimer` — the functions; `Act`, `exec` — what can
  happen.
* `offWhenElapsed_always` — the motor is off once all intervals are over and served, in every run.
* `vibration_iff` — it runs as long as asked for, and is left alone then, exactly in the runs
  whose notifications are each the first since the latest call, with all intervals over.
-/

/-! ### The functions -/

/-- An event with its timer: the period, and when it is due. -/
structure Timer where
  event : Nat
  period : Nat
  due : Nat
  deriving DecidableEq, Repr

/-- A call of `htcleo_vibrate_timer`: when, and for how many milliseconds. -/
structure Call where
  time : Nat
  msecs : U32
  deriving DecidableEq, Repr

/-- `EFI_TIMER_PERIOD_MILLISECONDS`, in units of 100 ns. -/
def timerPeriodMilliseconds (msecs : U32) : Nat := msecs.toNat * 10000

/-- When the interval of a call is over. -/
def Call.over (c : Call) : Nat := c.time + timerPeriodMilliseconds c.msecs

/-- The motor, and `m_CallbackTimer`; the events created so far, the timers set, the notifications
    queued, in order, and the time; (ghost) the calls, and the notifications delivered since the
    latest. -/
structure Vibrator where
  motor : Bool
  mCallbackTimer : Option Nat
  created : Nat
  timers : List Timer
  queued : List Nat
  now : Nat
  calls : List Call
  delivered : Nat
  deriving DecidableEq, Repr

/-- `htcleo_vibrate`. -/
def htcleoVibrate (enable : U32) (s : Vibrator) : Vibrator := { s with motor := enable ≠ 0 }

/-- `CreateEvent` into `m_CallbackTimer`. -/
def createEvent (s : Vibrator) : Vibrator :=
  { s with mCallbackTimer := some s.created, created := s.created + 1 }

/-- `htcleo_diable_vibrat_timer`. -/
def htcleoDiableVibratTimer (s : Vibrator) : Vibrator := htcleoVibrate 0 s

section

-- the period of the firmware's own timer
variable (tick : Nat)

/-- The period of a timer that is set with `trigger`: 0 stands for every tick. -/
def periodOf (trigger : Nat) : Nat := if trigger = 0 then tick else trigger

/-- `SetTimer` with `TimerPeriodic`. -/
def setTimerPeriodic (event : Option Nat) (trigger : Nat) (s : Vibrator) : Vibrator :=
  match event with
  | none => s
  | some e => { s with
      timers := s.timers.filter (·.event ≠ e) ++
        [⟨e, periodOf tick trigger, s.now + periodOf tick trigger⟩] }

/-- `htcleo_vibrate_timer`. -/
def htcleoVibrateTimer (msecs : U32) (s : Vibrator) : Vibrator :=
  let s := htcleoVibrate 1 s
  let s := createEvent s
  setTimerPeriodic tick s.mCallbackTimer (timerPeriodMilliseconds msecs) s

/-- What can happen: a call, time passing, the expiry of a timer that is due, and the delivery of
    the notification that has been queued longest. -/
inductive Act
  | call (msecs : U32)
  | elapse (time : Nat)
  | expire (event : Nat)
  | deliver
  deriving DecidableEq, Repr

/-- The timer is set anew when it expires. -/
def Timer.again (now : Nat) (t : Timer) : Timer := { t with due := max (t.due + t.period) now }

/-- What happens; an event that is queued is not queued again. -/
def exec (s : Vibrator) : Act → Vibrator
  | .call msecs =>
    { htcleoVibrateTimer tick msecs s with calls := s.calls ++ [⟨s.now, msecs⟩], delivered := 0 }
  | .elapse time => { s with now := s.now + time }
  | .expire event =>
    if ∃ t ∈ s.timers, t.event = event ∧ t.due ≤ s.now then
      { s with
        timers := s.timers.map fun t => if t.event = event then t.again s.now else t
        queued := if event ∈ s.queued then s.queued else s.queued ++ [event] }
    else s
  | .deliver =>
    match s.queued with
    | [] => s
    | _ :: queued =>
      { htcleoDiableVibratTimer { s with queued } with delivered := s.delivered + 1 }

/-- The start: the motor is off, and nothing has been created. -/
def start : Vibrator := ⟨false, none, 0, [], [], 0, [], 0⟩

/-! ### What is meant to hold -/

/-- The motor is on during every interval. -/
def StaysOn (s : Vibrator) : Prop := ∀ c ∈ s.calls, s.now < c.over → s.motor = true

/-- No timer is due, and no notification is queued. -/
def Quiet (s : Vibrator) : Prop := (∀ t ∈ s.timers, s.now < t.due) ∧ s.queued = []

/-- It is off once all intervals are over, and the timers have been served at a tick since. -/
def OffWhenElapsed (s : Vibrator) : Prop :=
  Quiet s → (∀ c ∈ s.calls, c.over ≤ s.now ∧ c.time + tick ≤ s.now) → s.motor = false

/-- A notification finds the motor on. -/
def NotTouched (s : Vibrator) (a : Act) : Prop :=
  a = .deliver → s.queued ≠ [] → s.motor = true

/-- A notification comes when every interval is over, and is the first since the latest call. -/
def InTime (s : Vibrator) (a : Act) : Prop :=
  a = .deliver → s.queued ≠ [] → s.delivered = 0 ∧ ∀ c ∈ s.calls, c.over ≤ s.now

/-! ### In every run -/

/-- What holds in every run: a motor that is on has a timer on its way that is due when the
    interval of a call is over, or at the tick behind the call. -/
structure Law (s : Vibrator) : Prop where
  motor : s.motor = true ↔ s.calls ≠ [] ∧ s.delivered = 0
  timers : s.timers ≠ [] → s.calls ≠ []
  queued : s.queued ≠ [] → s.calls ≠ []
  onWay : s.motor = true → s.queued ≠ [] ∨
    ∃ t ∈ s.timers, ∃ c ∈ s.calls, t.due ≤ max c.over (c.time + tick)

variable {tick} {s : Vibrator}

/-- A call arms a timer for the end of its interval, or for the next tick. -/
theorem htcleoVibrateTimer_timers (tick : Nat) (msecs : U32) (s : Vibrator) :
    ∃ t ∈ (htcleoVibrateTimer tick msecs s).timers,
      t.due ≤ max (Call.over ⟨s.now, msecs⟩) (s.now + tick) := by
  refine ⟨⟨s.created, periodOf tick (timerPeriodMilliseconds msecs),
    s.now + periodOf tick (timerPeriodMilliseconds msecs)⟩, ?_, ?_⟩
  · exact List.mem_append_right _ List.mem_cons_self
  · unfold periodOf Call.over
    dsimp only
    split <;> omega

theorem Law.exec (h : Law tick s) (a : Act) : Law tick (exec tick s a) := by
  cases a with
  | call msecs =>
    have hcalls : s.calls ++ [⟨s.now, msecs⟩] ≠ [] := List.append_ne_nil_of_right_ne_nil _ (by simp)
    refine ⟨iff_of_true rfl ⟨hcalls, rfl⟩, fun _ => hcalls, fun _ => hcalls, fun _ => Or.inr ?_⟩
    obtain ⟨t, ht, hdue⟩ := htcleoVibrateTimer_timers tick msecs s
    exact ⟨t, ht, _, List.mem_append_right _ List.mem_cons_self, hdue⟩
  | elapse time => exact ⟨h.motor, h.timers, h.queued, h.onWay⟩
  | expire event =>
    rw [Vibration.exec]
    split
    · next hdue =>
      obtain ⟨t, ht, -⟩ := hdue
      have hcalls := h.timers (List.ne_nil_of_mem ht)
      refine ⟨h.motor, fun _ => hcalls, fun _ => hcalls, fun _ => Or.inl ?_⟩
      show (if event ∈ s.queued then s.queued else s.queued ++ [event]) ≠ []
      split
      · next hin => exact List.ne_nil_of_mem hin
      · simp
    · exact h
  | deliver =>
    rw [Vibration.exec]
    split
    · exact h
    · next e queued hqueued =>
      have hcalls := h.queued (by simp [hqueued])
      refine ⟨iff_of_false Bool.false_ne_true ?_, h.timers, fun _ => hcalls, ?_⟩
      · exact fun hboth => Nat.succ_ne_zero _ hboth.2
      · exact fun hon => absurd hon Bool.false_ne_true

theorem law_start : Law tick start :=
  ⟨by decide, fun h => absurd rfl h, fun h => absurd rfl h, fun h => absurd h Bool.false_ne_true⟩

/-- A motor that is on is waiting for a timer. -/
theorem Law.offWhenElapsed (h : Law tick s) : OffWhenElapsed tick s := by
  rintro ⟨hdue, hqueued⟩ hover
  by_contra hon
  rcases h.onWay (Bool.eq_true_of_not_eq_false hon) with hne | ⟨t, ht, c, hc, hle⟩
  · exact hne hqueued
  · have hlt := hdue t ht
    have hserved := hover c hc
    omega

/-- The motor is off once all intervals are over and served, in every run. -/
theorem offWhenElapsed_always (acts : List Act) :
    Always (exec tick) (OffWhenElapsed tick) start acts := by
  have hlaw : Always (exec tick) (Law tick) start acts :=
    Always.of_invariant (fun _ a h => h.exec a) law_start acts
  exact hlaw.mono fun _ h => h.offWhenElapsed

/-! ### In time -/

/-- **Step lemma.**  A step leaves the motor on in every interval exactly when it delivers no
    notification before they are over. -/
theorem exec_staysOn_iff (h : StaysOn s) (a : Act) :
    StaysOn (exec tick s a) ↔
      (a = .deliver → s.queued ≠ [] → ∀ c ∈ s.calls, c.over ≤ s.now) := by
  cases a with
  | call msecs => exact iff_of_true (fun _ _ _ => rfl) fun heq => by cases heq
  | elapse time =>
    refine iff_of_true (fun c hc hlt => h c hc ?_) fun heq => by cases heq
    exact Nat.lt_of_le_of_lt (Nat.le_add_right _ _) hlt
  | expire event =>
    refine iff_of_true ?_ fun heq => by cases heq
    rw [exec]
    split
    · exact h
    · exact h
  | deliver =>
    rw [exec]
    split
    · next hqueued => exact iff_of_true h fun _ hne => absurd hqueued hne
    · next e queued hqueued =>
      -- the motor is off then
      constructor
      · intro hoff _ _ c hc
        by_contra hlt
        exact Bool.false_ne_true (hoff c hc (Nat.not_le.mp hlt))
      · intro hover c hc hlt
        have hle := hover rfl (by simp [hqueued]) c hc
        exact absurd hlt (Nat.not_lt.mpr hle)

/-- **Vibration.**  In a run the motor stays on in every interval, is off once they are over and
    served, and is then left alone, exactly when every notification comes when all intervals are
    over, and is the first since the latest call. -/
theorem vibration_iff (tick : Nat) (acts : List Act) :
    (Always (exec tick) (fun s => StaysOn s ∧ OffWhenElapsed tick s) start acts ∧
      EveryStep (exec tick) NotTouched start acts) ↔
    EveryStep (exec tick) InTime start acts := by
  have hlaw : ∀ s a, Law tick s → Law tick (exec tick s a) := fun _ a h => h.exec a
  have hstep : ∀ s a, Law tick s → (StaysOn s ∧ OffWhenElapsed tick s) →
      ((StaysOn (exec tick s a) ∧ OffWhenElapsed tick (exec tick s a)) ↔
        (a = .deliver → s.queued ≠ [] → ∀ c ∈ s.calls, c.over ≤ s.now)) := by
    intro s a h hs
    rw [← exec_staysOn_iff hs.1 a]
    exact and_iff_left (h.exec a).offWhenElapsed
  have hstart : StaysOn start ∧ OffWhenElapsed tick start :=
    ⟨fun c hc => absurd hc List.not_mem_nil, law_start.offWhenElapsed⟩
  rw [always_iff_everyStep hlaw hstep law_start, and_iff_right hstart, everyStep_and]
  refine everyStep_congr hlaw ?_ law_start acts
  intro s a h
  constructor
  · rintro ⟨hover, htouched⟩ ha hqueued
    exact ⟨(h.motor.mp (htouched ha hqueued)).2, hover ha hqueued⟩
  · intro hin
    refine ⟨fun ha hqueued => (hin ha hqueued).2, fun ha hqueued => ?_⟩
    exact h.motor.mpr ⟨h.queued hqueued, (hin ha hqueued).1⟩

/-- The timer of 500 ms goes on, and ends a second vibration, of 1000 ms, after 500. -/
theorem second_vibration_cut :
    ¬ (Always (exec 10000) (fun s => StaysOn s ∧ OffWhenElapsed 10000 s) start
        [.call 500, .elapse 5000000, .expire 0, .deliver, .call 1000, .elapse 5000000, .expire 0,
          .deliver] ∧
      EveryStep (exec 10000) NotTouched start
        [.call 500, .elapse 5000000, .expire 0, .deliver, .call 1000, .elapse 5000000, .expire 0,
          .deliver]) := by
  rintro ⟨hall, -⟩
  have hon := hall.last.1 ⟨5000000, 1000⟩ (by decide) (by decide)
  exact absurd hon (by decide)

end

end HtcLeo.Vibration

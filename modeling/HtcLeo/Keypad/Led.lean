import HtcLeo.Lib.Runs

namespace HtcLeo.Keypad

open Runs

/-!
# KeypadDeviceImplLib — the backlight timer

The keypad backlight of `Library/KeypadDeviceImplLib`: a poll that sees an LED key pressed turns
the LED on and starts a timer, whose notification turns it off.  Polls run at `TPL_NOTIFY`, the
notification at `TPL_CALLBACK`, so an expired timer's notification may wait, queued, while polls
go on.

* `Backlight` — the LED, the library's variables, and the firmware's timers and queue.
* `enableKeypadLedWithTimer`, `disableKeyPadLed` — the functions; `Act`, `exec` — what can happen.
* `onHasTimer_always` — an LED that is on has a timer, armed or expired, in every run.
* `backlight_law` — the whole law, in every run in which no poll that sees an LED key finds a
  notification queued; `exec_queued_breaks` — such a poll breaks it.
-/

/-! ### The functions -/

/-- `EFI_TIMER_PERIOD_MILLISECONDS (5000)`, in units of 100 ns. -/
def ledPeriod : Nat := 5000 * 10000

/-- The LED, `timerRunning`, `m_CallbackTimer`; the events created so far, those armed with the
    time they are due, the notifications queued, in order, and the time; (ghost) when a poll last
    saw an LED key pressed. -/
structure Backlight where
  ledOn : Bool
  timerRunning : Bool
  mCallbackTimer : Option Nat
  created : Nat
  armed : List (Nat × Nat)
  queued : List Nat
  now : Nat
  lastSeen : Option Nat
  deriving DecidableEq, Repr

/-- `CreateEvent` into `m_CallbackTimer`. -/
def createEvent (s : Backlight) : Backlight :=
  { s with mCallbackTimer := some s.created, created := s.created + 1 }

/-- `SetTimer` with `TimerCancel`: a notification that is queued stays queued. -/
def cancelTimer (event : Option Nat) (s : Backlight) : Backlight :=
  { s with armed := s.armed.filter fun timer => some timer.1 ≠ event }

/-- `SetTimer` with `TimerRelative`. -/
def setTimerRelative (event : Option Nat) (period : Nat) (s : Backlight) : Backlight :=
  match event with
  | none => s
  | some e => { cancelTimer event s with
      armed := (cancelTimer event s).armed ++ [(e, s.now + period)] }

/-- `DisableKeyPadLed`. -/
def disableKeyPadLed (s : Backlight) : Backlight :=
  { s with ledOn := false, timerRunning := false }

/-- `EnableKeypadLedWithTimer`. -/
def enableKeypadLedWithTimer (s : Backlight) : Backlight :=
  let s :=
    if s.timerRunning then { cancelTimer s.mCallbackTimer s with timerRunning := false } else s
  let s := { s with ledOn := true }
  let s := createEvent s
  let s := setTimerRelative s.mCallbackTimer ledPeriod s
  { s with timerRunning := true }

/-- What can happen: the turn of a poll for one key (a poll is a turn for each key, one after the
    other), time passing, the expiry of a timer that is due, and the delivery of the notification
    that has been queued longest. -/
inductive LedAct
  | key (isPressed enableKeyPadLed : Bool)
  | elapse (time : Nat)
  | expire (event : Nat)
  | deliver
  deriving DecidableEq, Repr

/-- The LED part of a turn of the loop of `KeypadDeviceImplGetKeys`. -/
def getKey (isPressed enableKeyPadLed : Bool) (s : Backlight) : Backlight :=
  if isPressed && enableKeyPadLed then
    { enableKeypadLedWithTimer s with lastSeen := some s.now }
  else s

/-- What happens. -/
def execLed (s : Backlight) : LedAct → Backlight
  | .key isPressed enableKeyPadLed => getKey isPressed enableKeyPadLed s
  | .elapse time => { s with now := s.now + time }
  | .expire event =>
    if ∃ timer ∈ s.armed, timer.1 = event ∧ timer.2 ≤ s.now then
      { s with
        armed := s.armed.filter fun timer => timer.1 ≠ event
        queued := s.queued ++ [event] }
    else s
  | .deliver =>
    match s.queued with
    | [] => s
    | _ :: queued => disableKeyPadLed { s with queued }

/-- The start: the LED is off, and no timer has been created. -/
def ledStart : Backlight := ⟨false, false, none, 0, [], [], 0, none⟩

/-! ### What is meant to hold -/

/-- An LED that is on has a timer, armed or expired with its notification queued. -/
def OnHasTimer (s : Backlight) : Prop := s.ledOn = true → s.armed ≠ [] ∨ s.queued ≠ []

/-- The states: one timer at most is armed, and an LED that is on has a timer. -/
structure LedLaw (s : Backlight) : Prop where
  oneTimer : s.armed.length ≤ 1
  onHasTimer : OnHasTimer s

/-- The steps: the LED is switched off only 5 s after a poll last saw an LED key. -/
def NotEarly (s : Backlight) (a : LedAct) : Prop :=
  s.ledOn = true → (execLed s a).ledOn = false → ∀ t, s.lastSeen = some t → t + ledPeriod ≤ s.now

/-- The condition: a poll that sees an LED key pressed finds no notification queued. -/
def NoneQueued (s : Backlight) : LedAct → Prop
  | .key isPressed enableKeyPadLed => isPressed && enableKeyPadLed → s.queued = []
  | _ => True

/-! ### In every run -/

/-- Turning the LED on arms a timer. -/
theorem enableKeypadLedWithTimer_armed (s : Backlight) :
    ∃ timers, (enableKeypadLedWithTimer s).armed = timers ++ [(s.created, s.now + ledPeriod)] := by
  unfold enableKeypadLedWithTimer
  split <;> exact ⟨_, rfl⟩

/-- Turning the LED on. -/
theorem enableKeypadLedWithTimer_ledOn (s : Backlight) :
    (enableKeypadLedWithTimer s).ledOn = true := by
  unfold enableKeypadLedWithTimer
  split <;> rfl

/-- Turning the LED on leaves the queue and the time alone. -/
theorem enableKeypadLedWithTimer_rest (s : Backlight) :
    (enableKeypadLedWithTimer s).queued = s.queued ∧ (enableKeypadLedWithTimer s).now = s.now := by
  unfold enableKeypadLedWithTimer
  split <;> exact ⟨rfl, rfl⟩

/-- Every step keeps a timer for an LED that is on. -/
theorem OnHasTimer.exec {s : Backlight} (h : OnHasTimer s) (a : LedAct) :
    OnHasTimer (execLed s a) := by
  intro hon
  cases a with
  | key isPressed enableKeyPadLed =>
    rw [execLed, getKey] at hon ⊢
    split at hon
    · next hseen =>
      obtain ⟨timers, harmed⟩ := enableKeypadLedWithTimer_armed s
      rw [if_pos hseen]
      left
      simp [harmed]
    · next hseen =>
      rw [if_neg hseen]
      exact h hon
  | elapse time => exact h hon
  | expire event =>
    rw [execLed] at hon ⊢
    split
    · right
      simp
    · next hdue =>
      rw [if_neg hdue] at hon
      exact h hon
  | deliver =>
    rw [execLed] at hon ⊢
    cases hqueued : s.queued with
    | nil =>
      rw [hqueued] at hon
      have harmed := h hon
      simpa [hqueued] using harmed
    | cons e queued =>
      -- the LED is switched off
      rw [hqueued] at hon
      exact absurd hon Bool.false_ne_true

/-- An LED that is on has a timer, in every run. -/
theorem onHasTimer_always (acts : List LedAct) : Always execLed OnHasTimer ledStart acts :=
  Always.of_invariant (fun _ a h => h.exec a) (fun hon => absurd hon Bool.false_ne_true) acts

/-! ### In runs that meet the condition -/

/-- The timer of an LED that is on, and when a poll last saw an LED key. -/
inductive TimerState (s : Backlight) : Prop
  /-- The LED is off, and there is no timer. -/
  | off (hon : s.ledOn = false) (hrunning : s.timerRunning = false) (harmed : s.armed = [])
      (hqueued : s.queued = [])
  /-- The LED is on, and its timer is armed for 5 s after the poll. -/
  | running (e t : Nat) (hrunning : s.timerRunning = true) (htimer : s.mCallbackTimer = some e)
      (hseen : s.lastSeen = some t) (harmed : s.armed = [(e, t + ledPeriod)])
      (hqueued : s.queued = [])
  /-- The timer has expired. -/
  | expired (e t : Nat) (harmed : s.armed = []) (hqueued : s.queued = [e])
      (hseen : s.lastSeen = some t) (hdue : t + ledPeriod ≤ s.now)

theorem TimerState.oneTimer {s : Backlight} (h : TimerState s) : s.armed.length ≤ 1 := by
  rcases h with ⟨_, _, harmed, _⟩ | ⟨e, t, _, _, _, harmed, _⟩ | ⟨e, t, harmed, _, _, _⟩
  all_goals simp [harmed]

/-- With no notification queued, a poll that sees an LED key leaves one timer, just armed. -/
theorem TimerState.enable {s : Backlight} (h : TimerState s) (hnone : s.queued = []) :
    TimerState { enableKeypadLedWithTimer s with lastSeen := some s.now } := by
  rcases h with ⟨hon, hrunning, harmed, hqueued⟩ |
    ⟨e, t, hrunning, htimer, hseen, harmed, hqueued⟩ | ⟨e, t, harmed, hqueued, hseen, hdue⟩
  · refine .running s.created s.now ?_ ?_ ?_ ?_ ?_ <;>
      simp [enableKeypadLedWithTimer, createEvent, setTimerRelative, cancelTimer, hrunning,
        harmed, hqueued]
  · refine .running s.created s.now ?_ ?_ ?_ ?_ ?_ <;>
      simp [enableKeypadLedWithTimer, createEvent, setTimerRelative, cancelTimer, hrunning,
        htimer, harmed, hqueued]
  · rw [hqueued] at hnone
    exact absurd hnone (List.cons_ne_nil _ _)

/-- A timer that is due expires. -/
theorem TimerState.expire {s : Backlight} (h : TimerState s) (event : Nat) :
    TimerState (execLed s (.expire event)) := by
  rw [execLed]
  split
  · next hdue =>
    obtain ⟨timer, hmem, rfl, htime⟩ := hdue
    rcases h with ⟨_, _, harmed, _⟩ | ⟨e, t, _, _, hseen, harmed, hqueued⟩ |
      ⟨_, _, harmed, _⟩
    · simp [harmed] at hmem
    · obtain rfl : timer = (e, t + ledPeriod) := by simpa [harmed] using hmem
      exact .expired e t (by simp [harmed]) (by simp [hqueued]) hseen htime
    · simp [harmed] at hmem
  · exact h

/-- **Step lemma.**  A step that meets the condition keeps the state of the timer, and does not
    switch the LED off early. -/
theorem TimerState.exec {s : Backlight} (h : TimerState s) {a : LedAct} (ha : NoneQueued s a) :
    TimerState (execLed s a) ∧ NotEarly s a := by
  cases a with
  | key isPressed enableKeyPadLed =>
    by_cases hseen : isPressed && enableKeyPadLed
    · rw [NotEarly, execLed, getKey, if_pos hseen]
      refine ⟨h.enable (ha hseen), fun _ hoff => ?_⟩
      dsimp only at hoff
      rw [enableKeypadLedWithTimer_ledOn] at hoff
      exact absurd hoff Bool.true_eq_false.mp
    · rw [NotEarly, execLed, getKey, if_neg hseen]
      exact ⟨h, fun hon hoff => absurd (hon.symm.trans hoff) Bool.true_eq_false.mp⟩
  | elapse time =>
    refine ⟨?_, fun hon hoff => absurd (hon.symm.trans hoff) Bool.true_eq_false.mp⟩
    rcases h with ⟨hon, hrunning, harmed, hqueued⟩ |
      ⟨e, t, hrunning, htimer, hseen, harmed, hqueued⟩ | ⟨e, t, harmed, hqueued, hseen, hdue⟩
    · exact .off hon hrunning harmed hqueued
    · exact .running e t hrunning htimer hseen harmed hqueued
    · exact .expired e t harmed hqueued hseen (Nat.le_add_right_of_le hdue)
  | expire event =>
    refine ⟨h.expire event, fun hon hoff => ?_⟩
    have hkept : (execLed s (.expire event)).ledOn = s.ledOn := by
      rw [execLed]
      split <;> rfl
    rw [hkept, hon] at hoff
    exact absurd hoff Bool.true_eq_false.mp
  | deliver =>
    rcases h with ⟨hon, hrunning, harmed, hqueued⟩ |
      ⟨e, t, hrunning, htimer, hseen, harmed, hqueued⟩ | ⟨e, t, harmed, hqueued, hseen, hdue⟩
    · have hidle : execLed s .deliver = s := by simp [execLed, hqueued]
      rw [NotEarly, hidle]
      exact ⟨.off hon hrunning harmed hqueued,
        fun hon hoff => absurd (hon.symm.trans hoff) Bool.true_eq_false.mp⟩
    · have hidle : execLed s .deliver = s := by simp [execLed, hqueued]
      rw [NotEarly, hidle]
      exact ⟨.running e t hrunning htimer hseen harmed hqueued,
        fun hon hoff => absurd (hon.symm.trans hoff) Bool.true_eq_false.mp⟩
    · -- the timer's own notification, 5 s after the poll
      have hoff : execLed s .deliver = disableKeyPadLed { s with queued := [] } := by
        simp [execLed, hqueued]
      refine ⟨?_, fun _ _ t' hseen' => ?_⟩
      · rw [hoff]
        exact .off rfl rfl harmed rfl
      · rw [hseen] at hseen'
        obtain rfl := Option.some.inj hseen'
        exact hdue

/-- **Backlight law.**  In every run in which no poll that sees an LED key finds a notification
    queued, one timer at most is armed at any time, an LED that is on has a timer, armed or
    expired with its notification queued, and the LED is switched off only 5 s after a poll last
    saw an LED key. -/
theorem backlight_law (acts : List LedAct) (h : EveryStep execLed NoneQueued ledStart acts) :
    Always execLed LedLaw ledStart acts ∧ EveryStep execLed NotEarly ledStart acts := by
  have hstep : ∀ s a, TimerState s ∧ OnHasTimer s → NoneQueued s a →
      (TimerState (execLed s a) ∧ OnHasTimer (execLed s a)) ∧ NotEarly s a := by
    intro s a hs ha
    obtain ⟨hnext, hearly⟩ := hs.1.exec ha
    exact ⟨⟨hnext, hs.2.exec a⟩, hearly⟩
  have hstart : TimerState ledStart ∧ OnHasTimer ledStart :=
    ⟨.off rfl rfl rfl rfl, fun hon => absurd hon Bool.false_ne_true⟩
  obtain ⟨halways, hsteps⟩ := always_and_everyStep hstep hstart h
  exact ⟨halways.mono fun s hs => ⟨hs.1.oneTimer, hs.2⟩, hsteps⟩

/-- A key is held, its timer expires and its notification is delivered. -/
def heldOnce : List LedAct :=
  [.key true true, .elapse ledPeriod, .expire 0, .deliver, .key true true]

theorem backlight_law_heldOnce :
    Always execLed LedLaw ledStart heldOnce ∧ EveryStep execLed NotEarly ledStart heldOnce :=
  backlight_law heldOnce (by simp [heldOnce, EveryStep, NoneQueued]; decide)

/-- A poll that sees an LED key while a notification is queued breaks the law with the delivery of
    that notification. -/
theorem exec_queued_breaks {s : Backlight} (h : s.queued ≠ []) :
    ¬ EveryStep execLed NotEarly s [.key true true, .deliver] := by
  intro hboth
  obtain ⟨_, hearly, _⟩ := hboth
  have hpoll : execLed s (.key true true)
      = { enableKeypadLedWithTimer s with lastSeen := some s.now } := rfl
  rw [hpoll] at hearly
  have hrest := enableKeypadLedWithTimer_rest s
  have hoff : (execLed { enableKeypadLedWithTimer s with lastSeen := some s.now } .deliver).ledOn
      = false := by
    obtain ⟨e, queued, hqueued⟩ := List.exists_cons_of_ne_nil h
    simp [execLed, hrest.1, hqueued, disableKeyPadLed]
  have hlate := hearly (enableKeypadLedWithTimer_ledOn s) hoff s.now rfl
  dsimp only at hlate
  rw [hrest.2] at hlate
  unfold ledPeriod at hlate
  omega

/-- A key is held, its timer expires, a poll sees the key before the notification is delivered, and
    so does another one. -/
theorem backlight_two_timers :
    ¬ (Always execLed LedLaw ledStart
        [.key true true, .elapse ledPeriod, .expire 0, .key true true, .deliver, .key true true] ∧
      EveryStep execLed NotEarly ledStart
        [.key true true, .elapse ledPeriod, .expire 0, .key true true, .deliver,
          .key true true]) := by
  intro h
  obtain ⟨hlaw, hearly⟩ := h
  have htwo := hlaw.last.oneTimer
  exact absurd htwo (by decide)

end HtcLeo.Keypad

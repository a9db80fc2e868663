import HtcLeo.Keypad.Fifo
import HtcLeo.Timer.Gpt

namespace HtcLeo.Keypad

open Timer

/-!
# KeypadDxe — the time between two polls

`KeypadTimerHandler` of `Drivers/KeypadDxe/KeypadController.c` with the performance counter it
reads, and the `Delta` it passes to `GetKeys`.

* `TimedConsole` — the console with `Last`, the counter value of the poll before.
* `timedTimerHandler` — a poll; on the console it is `keypadTimerHandler`.
* `MeasuresTime` — the `Delta` is the time that the 32-bit counter shows.
* `measuresTime_iff` — it is exactly when the counter has not wrapped.
-/

variable {F : Type}

/-- The console with `ConsoleIn->Last`. -/
structure TimedConsole (F : Type) where
  console : ConsoleIn F
  last : BitVec 64

/-- `KeypadTimerHandler` when the counter holds `count`: the `Delta` it passes to `GetKeys`, if it
    calls it, and the console.  `getKeys` are the keys `GetKeys` pushes for a `Delta`. -/
def timedTimerHandler (getKeys : BitVec 64 → List KeyData) (count : U32) (t : TimedConsole F) :
    Option (BitVec 64) × TimedConsole F :=
  if t.console.keypadErr then (none, t)
  else
    let currentCounterValue := getPerformanceCounter count
    let deltaCounter := currentCounterValue - t.last
    let delta := getTimeInNanoSecond deltaCounter
    (some delta, ⟨keypadTimerHandler (getKeys delta) t.console, currentCounterValue⟩)

/-- The time in nanoseconds that a counter going from `last` to `now` shows, rounded down. -/
def timeBetween (last now : U32) : Nat :=
  (now - last).toNat * 1000000000 / getPerformanceCounterProperties.toNat

/-- A poll at `now`, after one at `last`, passes the time between them; `between` is what is done
    with the console from the one to the other. -/
def MeasuresTime (t : TimedConsole F) (getKeys getKeys' : BitVec 64 → List KeyData)
    (between : ConsoleIn F → ConsoleIn F) (last now : U32) : Prop :=
  let first := (timedTimerHandler getKeys last t).2
  ∃ delta, (timedTimerHandler getKeys' now { first with console := between first.console }).1
      = some delta ∧ delta.toNat = timeBetween last now

/-- A poll does not report an error. -/
theorem keypadTimerHandler_keypadErr (keys : List KeyData) (c : ConsoleIn F) :
    (keypadTimerHandler keys c).keypadErr = c.keypadErr := by
  unfold keypadTimerHandler
  split
  · rfl
  · -- by induction on the keys the poll pushes
    induction keys generalizing c with
    | nil => rfl
    | cons k keys ih =>
      have hpush : (keypadReturnApiPushEfikeyBufTail c k).keypadErr = c.keypadErr := by
        unfold keypadReturnApiPushEfikeyBufTail
        split
        · rfl
        · exact (foldl_pushForNotify_frame k c.notifyList c).2.2.1
      rw [List.foldl_cons, ih _ (by rwa [hpush]), hpush]

/-- What a poll passes and leaves, without an error. -/
theorem timedTimerHandler_of_ok {t : TimedConsole F} (h : t.console.keypadErr = false)
    (getKeys : BitVec 64 → List KeyData) (count : U32) :
    timedTimerHandler getKeys count t =
      (some (getTimeInNanoSecond (getPerformanceCounter count - t.last)),
        ⟨keypadTimerHandler
            (getKeys (getTimeInNanoSecond (getPerformanceCounter count - t.last))) t.console,
          getPerformanceCounter count⟩) := by
  unfold timedTimerHandler
  rw [h]
  rfl

/-- The difference of the two counter values in 64 bits. -/
theorem deltaCounter_toNat (last now : U32) :
    (getPerformanceCounter now - getPerformanceCounter last).toNat
      = if last ≤ now then (now - last).toNat else (now - last).toNat + (2 ^ 64 - 2 ^ 32) := by
  have hlast := last.isLt
  have hnow := now.isLt
  simp only [getPerformanceCounter, BitVec.toNat_sub, BitVec.toNat_setWidth, BitVec.le_def]
  split <;> omega

/-- In nanoseconds it is the time between the two values exactly when the counter has not
    wrapped. -/
theorem delta_eq_timeBetween_iff (last now : U32) :
    (getTimeInNanoSecond (getPerformanceCounter now - getPerformanceCounter last)).toNat
      = timeBetween last now ↔ last ≤ now := by
  have hlt := (now - last).isLt
  rw [getTimeInNanoSecond_toNat, deltaCounter_toNat, timeBetween, frequency_toNat]
  by_cases hle : last ≤ now
  · rw [if_pos hle]
    exact iff_of_true (Nat.mod_eq_of_lt (by omega)) hle
  · rw [if_neg hle]
    refine iff_of_false ?_ hle
    -- the 2 ^ 64 - 2 ^ 32 ticks too many, in nanoseconds
    have hmore : ((now - last).toNat + (2 ^ 64 - 2 ^ 32)) * 1000000000 / 32765
          = (now - last).toNat * 1000000000 / 32765 + 563001497616804038455669 ∨
        ((now - last).toNat + (2 ^ 64 - 2 ^ 32)) * 1000000000 / 32765
          = (now - last).toNat * 1000000000 / 32765 + 563001497616804038455670 := by
      omega
    -- are no multiple of 2 ^ 64
    rcases hmore with h | h
    · rw [h]
      omega
    · rw [h]
      omega

/-- **Time between polls.**  The `Delta` of a poll is the time since the poll before it exactly
    when the counter has not wrapped in between. -/
theorem measuresTime_iff (t : TimedConsole F) (ht : t.console.keypadErr = false)
    (getKeys getKeys' : BitVec 64 → List KeyData) (between : ConsoleIn F → ConsoleIn F)
    (hbetween : ∀ c, c.keypadErr = false → (between c).keypadErr = false) (last now : U32) :
    MeasuresTime t getKeys getKeys' between last now ↔ last ≤ now := by
  have hfirst := timedTimerHandler_of_ok ht getKeys last
  have herr : (between (timedTimerHandler getKeys last t).2.console).keypadErr = false := by
    apply hbetween
    rw [hfirst, keypadTimerHandler_keypadErr, ht]
  unfold MeasuresTime
  dsimp only
  rw [timedTimerHandler_of_ok herr, ← delta_eq_timeBetween_iff]
  simp [hfirst]

/-- Two polls of a console fresh from its start, 100 ticks apart. -/
theorem measuresTime_start :
    MeasuresTime (⟨keypadControllerDriverStart, 0⟩ : TimedConsole Unit) (fun _ => []) (fun _ => [])
      id 1000 1100 :=
  (measuresTime_iff ⟨keypadControllerDriverStart, 0⟩ rfl (fun _ => []) (fun _ => []) id
    (fun _ h => h) 1000 1100).mpr (by decide)

/-- Two polls 100 ticks apart, with the wrap of the counter between them. -/
theorem wrapped_not_measured :
    ¬ MeasuresTime (⟨keypadControllerDriverStart, 0⟩ : TimedConsole Unit) (fun _ => [])
      (fun _ => []) id 0xFFFFFFCE 50 := by
  rintro ⟨delta, hdelta, htime⟩
  have hnow : timedTimerHandler (fun _ => []) 50
      (timedTimerHandler (fun _ => []) 0xFFFFFFCE
        (⟨keypadControllerDriverStart, 0⟩ : TimedConsole Unit)).2
      = (some (getTimeInNanoSecond
          (getPerformanceCounter 50 - getPerformanceCounter 0xFFFFFFCE)), _) := rfl
  obtain rfl := Option.some.inj (hdelta.symm.trans (congrArg Prod.fst hnow))
  rw [delta_eq_timeBetween_iff] at htime
  exact absurd htime (by decide)

end HtcLeo.Keypad

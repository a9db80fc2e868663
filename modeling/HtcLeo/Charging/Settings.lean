import HtcLeo.Charging.Charger
import HtcLeo.Lib.Runs

namespace HtcLeo.Charging

open Gpio MicroP Runs

/-!
# The settings of the charger, at the end of a tick and within it

`SetCharger` changes two pins one after the other, and a tick leaves them alone when `gState` says
that they are as they should be.

* `Consistent` — the pins are as `gState` says; kept by every tick.
* `transients_iff` — once the pins have been programmed, the charger is never enabled at high
  current without AC, not even between two calls of `SetCharger`, exactly when every tick that
  decides for USB finds the charger set for USB already.
* `pins_iff`, `leds_iff` — after each tick the pins are as the tick decided exactly when the first
  tick, if it sees no USB, finds the pins set to off; the LED is exactly when each tick finds it
  showing the colour already, or has its command for the LED taken.
* `settings_iff` — both.
-/

/-- The pins are as `gState` says. -/
def Consistent (s : Charger) : Prop := levels s.tlmm = settingLevels s.gState

/-- After `SetCharger` the pins are as `gState` says. -/
theorem setCharger_consistent (acOnline : Bool) (state : PsyChargerState) (s : Charger) :
    Consistent (setCharger acOnline state s) := by
  obtain ⟨hstate, hlevels, _⟩ := setCharger_spec acOnline state s
  rw [Consistent, hstate, hlevels]

/-- A tick keeps the pins as `gState` says. -/
theorem Consistent.tick {s : Charger} (h : Consistent s) (tick : Tick) :
    Consistent (wantsCharging s tick) := by
  rw [wantsCharging_eq]
  split
  · exact setCharger_consistent _ _ _
  · exact h

/-- After a tick `gState` is what it decided. -/
theorem wantsCharging_gState (s : Charger) (tick : Tick) :
    (wantsCharging s tick).gState = (chargeDecision tick).1 := by
  rw [wantsCharging_eq]
  split
  · next hne => exact (setCharger_spec _ _ _).1
  · next heq => exact not_ne_iff.mp heq

/-! ### Within a tick -/

/-- The charger is enabled, at high current. -/
def Levels.EnabledHigh (l : Levels) : Prop := l.enable = some false ∧ l.current = some true

/-- After every call of `SetCharger` to a pin, the charger is enabled at high current only with
    AC. -/
def TransientsSafe (s : Charger) : Prop := ∀ e ∈ s.transients, e.1.EnabledHigh → e.2 = true

/-- The tick decides for USB: there is USB without AC, and the battery is not full. -/
def UsbTick (tick : Tick) : Prop :=
  checkUsbStatus tick = true ∧ tick.voltage < voltage4100 ∧ isAcOnline tick = false

theorem chargeDecision_usbLow (tick : Tick) :
    (chargeDecision tick).1 = .chgUsbLow ↔ UsbTick tick := by
  unfold chargeDecision UsbTick
  cases checkUsbStatus tick <;> by_cases hvoltage : tick.voltage < voltage4100 <;>
    cases isAcOnline tick <;> simp [hvoltage]

theorem chargeDecision_ac {tick : Tick} (h : (chargeDecision tick).1 = .chgAc) :
    isAcOnline tick = true := by
  unfold chargeDecision at h
  split_ifs at h with husb hvoltage hac
  exact hac

theorem chargeDecision_ne_usbHigh (tick : Tick) : (chargeDecision tick).1 ≠ .chgUsbHigh := by
  unfold chargeDecision
  split_ifs <;> simp

/-- **Tick lemma.**  With the pins as `gState` says, a tick is safe exactly when it does not switch
    to USB. -/
theorem tick_transients_iff {s : Charger} (h : Consistent s) (hsafe : TransientsSafe s)
    (tick : Tick) :
    TransientsSafe (wantsCharging s tick) ↔ (UsbTick tick → s.gState = .chgUsbLow) := by
  rw [wantsCharging_eq, ← chargeDecision_usbLow]
  by_cases hsame : s.gState = (chargeDecision tick).1
  · -- the pins stay as they are
    rw [if_neg (not_ne_iff.mpr hsame)]
    exact iff_of_true hsafe fun husb => hsame.trans husb
  · rw [if_pos hsame]
    have htransients := (setCharger_spec (isAcOnline tick) (chargeDecision tick).1
      (prepareUsb (chargeDecision tick).1 s)).2.2
    rw [prepareUsb_transients, prepareUsb_tlmm, h] at htransients
    have hiff : TransientsSafe (ledSetMode tick.ledWrite (chargeDecision tick).2
        (setCharger (isAcOnline tick) (chargeDecision tick).1
          (prepareUsb (chargeDecision tick).1 s))) ↔
        ((transition (chargeDecision tick).1 (settingLevels s.gState)).1.EnabledHigh →
          isAcOnline tick = true) ∧
        ((transition (chargeDecision tick).1 (settingLevels s.gState)).2.EnabledHigh →
          isAcOnline tick = true) := by
      rw [TransientsSafe, show (ledSetMode tick.ledWrite (chargeDecision tick).2
        (setCharger (isAcOnline tick) (chargeDecision tick).1
          (prepareUsb (chargeDecision tick).1 s))).transients = _ from htransients]
      simp only [List.mem_append, or_imp, forall_and, List.mem_cons, List.not_mem_nil,
        forall_eq, or_false]
      constructor
      · intro hboth
        obtain ⟨_, hfirst, _, hsecond, _⟩ := hboth
        exact ⟨hfirst, hsecond⟩
      · intro hboth
        obtain ⟨hfirst, hsecond⟩ := hboth
        exact ⟨hsafe, hfirst, hfirst, hsecond, hsecond⟩
    rw [hiff]
    have hac : (chargeDecision tick).1 = .chgAc → isAcOnline tick = true := chargeDecision_ac
    have husb := chargeDecision_usbLow tick
    cases hdecision : (chargeDecision tick).1 with
    | chgOff => simp [transition, Levels.EnabledHigh]
    | chgOffFullBat => simp [transition, Levels.EnabledHigh]
    | chgAc => simp [hac hdecision]
    | chgUsbHigh => exact absurd hdecision (chargeDecision_ne_usbHigh tick)
    | chgUsbLow =>
      -- the enable pin is set while the current pin is still high
      rw [hdecision] at hsame husb
      obtain ⟨_, _, hnoAc⟩ := husb.mp rfl
      cases hstate : s.gState <;>
        simp [hstate, transition, settingLevels, Levels.EnabledHigh, hnoAc] at hsame ⊢

/-- The state after a call of `SetCharger`, the record of the calls started anew. -/
def programmed (state : PsyChargerState) (s : Charger) : Charger :=
  { setCharger false state s with transients := [] }

/-- **Transients.**  Once `SetCharger` has programmed both pins, over every sequence of ticks, the
    charger is enabled at high current after a call to a pin only with AC in the same tick exactly
    when every tick that decides for USB finds the charger set for USB. -/
theorem transients_iff (state : PsyChargerState) (s : Charger) (ticks : List Tick) :
    Always wantsCharging TransientsSafe (programmed state s) ticks ↔
      EveryStep wantsCharging (fun s tick => UsbTick tick → s.gState = .chgUsbLow)
        (programmed state s) ticks := by
  have hstart : Consistent (programmed state s) := by
    obtain ⟨hstate, hlevels, _⟩ := setCharger_spec false state s
    simp only [Consistent, programmed, hstate, hlevels]
  have hsafe : TransientsSafe (programmed state s) := by
    simp [TransientsSafe, programmed]
  have hkeep : ∀ s tick, Consistent s → Consistent (wantsCharging s tick) :=
    fun s tick h => h.tick tick
  have htick : ∀ s tick, Consistent s → TransientsSafe s → (TransientsSafe (wantsCharging s tick) ↔
      (UsbTick tick → s.gState = .chgUsbLow)) :=
    fun s tick h hsafe => tick_transients_iff h hsafe tick
  rw [always_iff_everyStep (I := Consistent) hkeep htick hstart, and_iff_right hsafe]

/-- The first attempt to send the command is taken, and the transfer says so. -/
def takenAtOnce : Write := ⟨true, fun _ => ⟨1, true⟩⟩

/-- The charger is off, and a tick sees USB without AC. -/
theorem usb_after_off_unsafe :
    ¬ Always wantsCharging TransientsSafe
      (programmed .chgOff ⟨.chgOff, ⟨fun _ _ => 0, []⟩, 0, [], [], []⟩)
      [⟨1, 3700, 0, takenAtOnce⟩] := by
  intro h
  have hhigh := h.2 (⟨some false, some true⟩, false) (by decide +kernel)
  exact absurd (hhigh ⟨rfl, rfl⟩) Bool.false_ne_true

/-! ### After a tick -/

/-- The pins after the tick are as it decided. -/
def PinsAsDecided (s : Charger) (tick : Tick) : Prop :=
  levels (wantsCharging s tick).tlmm = settingLevels (chargeDecision tick).1

/-- The LED after the tick is as it decided. -/
def LedAsDecided (s : Charger) (tick : Tick) : Prop :=
  (wantsCharging s tick).led = (chargeDecision tick).2

/-- The pins and the LED after the tick are as it decided. -/
def AsDecided (s : Charger) (tick : Tick) : Prop := PinsAsDecided s tick ∧ LedAsDecided s tick

/-- With the pins as `gState` says, a tick leaves them as it decided. -/
theorem Consistent.pinsAsDecided {s : Charger} (h : Consistent s) (tick : Tick) :
    PinsAsDecided s tick := by
  have hafter := h.tick tick
  rw [Consistent, wantsCharging_gState] at hafter
  exact hafter

/-- A tick that decides something else than `gState` says sets the pins. -/
theorem consistent_of_ne {s : Charger} {tick : Tick} (h : s.gState ≠ (chargeDecision tick).1) :
    Consistent (wantsCharging s tick) := by
  rw [wantsCharging_eq, if_pos h]
  exact setCharger_consistent _ _ _

/-- The driver before its first tick, with whatever the pins and the LED are. -/
def chargerStart (tlmm : Tlmm) (led : U32) : Charger := ⟨.chgOff, tlmm, led, [], [], []⟩

theorem chargeDecision_off (tick : Tick) :
    (chargeDecision tick).1 = .chgOff ↔ checkUsbStatus tick = false := by
  unfold chargeDecision
  split_ifs with husb hvoltage hac <;> simp_all

/-- If the first tick sees no USB, it finds the pins set to off. -/
def FoundOff (tlmm : Tlmm) (ticks : List Tick) : Prop :=
  ∀ tick rest, ticks = tick :: rest → checkUsbStatus tick = false →
    levels tlmm = settingLevels .chgOff

/-- **Pins.**  Over every sequence of ticks the pins are as decided after each tick exactly when
    the first tick, if it sees no USB, finds them set to off. -/
theorem pins_iff (tlmm : Tlmm) (led : U32) (ticks : List Tick) :
    EveryStep wantsCharging PinsAsDecided (chargerStart tlmm led) ticks ↔ FoundOff tlmm ticks := by
  cases ticks with
  | nil => exact iff_of_true trivial fun _ _ h => absurd h.symm (List.cons_ne_nil _ _)
  | cons tick rest =>
    have hrest : Consistent (wantsCharging (chargerStart tlmm led) tick) →
        EveryStep wantsCharging PinsAsDecided (wantsCharging (chargerStart tlmm led) tick) rest :=
      fun h => EveryStep.of_invariant (fun _ t hs => hs.tick t) (fun _ t hs => hs.pinsAsDecided t)
        h rest
    by_cases husb : checkUsbStatus tick = false
    · -- nothing is written: the pins are as they were
      have hoff := (chargeDecision_off tick).mpr husb
      have hpins : (wantsCharging (chargerStart tlmm led) tick).tlmm = tlmm := by
        rw [wantsCharging_eq, hoff]
        rfl
      constructor
      · intro hboth _ _ _ _
        obtain ⟨hlevels, _⟩ := hboth
        rwa [PinsAsDecided, hpins, hoff] at hlevels
      · intro hfirst
        have hlevels := hfirst tick rest rfl husb
        have hstart : Consistent (chargerStart tlmm led) := hlevels
        exact ⟨hstart.pinsAsDecided tick, hrest (hstart.tick tick)⟩
    · -- the first tick sets the pins
      have hne : (chargerStart tlmm led).gState ≠ (chargeDecision tick).1 :=
        fun heq => husb ((chargeDecision_off tick).mp heq.symm)
      have hafter := consistent_of_ne hne
      refine iff_of_true ⟨?_, hrest hafter⟩ ?_
      · rw [Consistent, wantsCharging_gState] at hafter
        exact hafter
      · intro tick' rest' heq hno
        obtain ⟨rfl, _⟩ : tick = tick' ∧ rest = rest' := by simpa using heq
        exact absurd hno husb

/-- Each tick finds the LED showing its colour already, which is that of the tick before, or has
    its command for the LED taken. -/
def LedFollows : U32 → List Tick → Prop
  | _, [] => True
  | led, tick :: rest =>
    (tick.ledWrite.Taken ∨ led = (chargeDecision tick).2) ∧
      LedFollows (chargeDecision tick).2 rest

/-- One tick. -/
theorem ledAsDecided_iff (s : Charger) (tick : Tick) :
    LedAsDecided s tick ↔ tick.ledWrite.Taken ∨ s.led = (chargeDecision tick).2 := by
  obtain ⟨htaken, hlost⟩ := wantsCharging_led s tick
  unfold LedAsDecided
  by_cases h : tick.ledWrite.Taken
  · exact iff_of_true (htaken h) (Or.inl h)
  · rw [hlost h, or_iff_right h]

/-- **LED.**  Over every sequence of ticks the LED is as decided after each tick exactly when no
    command that changes its colour is lost. -/
theorem leds_iff (s : Charger) (ticks : List Tick) :
    EveryStep wantsCharging LedAsDecided s ticks ↔ LedFollows s.led ticks := by
  -- by induction on the ticks: each leaves the LED as the next one finds it
  induction ticks generalizing s with
  | nil => exact Iff.rfl
  | cons tick rest ih =>
    unfold EveryStep LedFollows
    rw [ledAsDecided_iff, ih]
    refine and_congr_right fun hfound => ?_
    rw [(ledAsDecided_iff s tick).mpr hfound]

/-- **Settings.**  Whatever the pins and the LED are before, over every sequence of ticks, they are
    as decided after each tick exactly when the first tick, if it sees no USB, finds the pins set
    to off, and no command that changes the colour of the LED is lost. -/
theorem settings_iff (tlmm : Tlmm) (led : U32) (ticks : List Tick) :
    EveryStep wantsCharging AsDecided (chargerStart tlmm led) ticks ↔
      FoundOff tlmm ticks ∧ LedFollows led ticks := by
  have hboth : EveryStep wantsCharging AsDecided (chargerStart tlmm led) ticks ↔
      EveryStep wantsCharging PinsAsDecided (chargerStart tlmm led) ticks ∧
        EveryStep wantsCharging LedAsDecided (chargerStart tlmm led) ticks := everyStep_and.symm
  rw [hboth, pins_iff, leds_iff]
  rfl

/-- The charger was left enabled, and the first tick sees no USB. -/
theorem left_enabled_not_off :
    ¬ EveryStep wantsCharging AsDecided
      (chargerStart ⟨fun _ r => if r = .oe then 0xffffffff else 0, []⟩ ledOff)
      [⟨0, 3700, 0, takenAtOnce⟩] := by
  intro h
  obtain ⟨⟨hlevels, _⟩, _⟩ := h
  unfold PinsAsDecided at hlevels
  exact absurd hlevels (by decide +kernel)

end HtcLeo.Charging

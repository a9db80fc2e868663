import HtcLeo.Charging.MicroP
import HtcLeo.Gpio.Banks

namespace HtcLeo.Charging

open Gpio MicroP

/-!
# ChargingDxe — the charger

The driver of `GPLDrivers/ChargingDxe/ChargingDxe.c`, which every 100 ms decides from the USB
state, the battery voltage and the line status whether and how to charge, and sets the two pins of
the charger and the LED.

* `setChargerCalls`, `setCharger` — the calls that set the pins, each of them recorded.
* `wantsCharging`, `exitBootServicesEvent` — the driver's functions.
* `settingLevels`, `chargeDecision` — the setting of a charger state, and the decision rules.
* `setCharger_spec` — the levels of the pins after `SetCharger`, and after each of its calls.
* `wantsCharging_eq` — a tick: what it decides, and whether it sets the pins.
-/

/-! ### The driver -/

/-- `PSY_CHARGER_STATE`. -/
inductive PsyChargerState
  | chgOff | chgAc | chgUsbLow | chgUsbHigh | chgOffFullBat
  deriving DecidableEq, Repr

/-- `HTCLEO_GPIO_BATTERY_CHARGER_ENABLE`: 0 enables. -/
def chargerEnable : Nat := 22
/-- `HTCLEO_GPIO_BATTERY_CHARGER_CURRENT`: 1 is the high current. -/
def chargerCurrent : Nat := 16

/-- `LED_OFF`. -/
def ledOff : U32 := 0
/-- `LED_GREEN`. -/
def ledGreen : U32 := 1
/-- `LED_AMBER`. -/
def ledAmber : U32 := 2

/-- The levels of the pins of the charger. -/
structure Levels where
  enable : Option Bool
  current : Option Bool
  deriving DecidableEq, Repr

/-- The levels as the registers have them; pins 22 and 16 are bits 6 and 0 of the bank that starts
    at pin 16. -/
def levels (t : Tlmm) : Levels := ⟨pinLevel 1 6 t, pinLevel 1 0 t⟩

/-- `gState`, the pins, the LED, the writes to the USB controller, and (ghost) the levels after
    each call of `SetCharger` to the pins, each with `IsAcOnline` of its tick. -/
structure Charger where
  gState : PsyChargerState
  tlmm : Tlmm
  led : U32
  usbCmd : List U32
  ulpi : List (U32 × U32)
  transients : List (Levels × Bool)

/-- A call of `SetCharger` to the `TLMM_GPIO` protocol. -/
inductive GpioCall
  | set (n : Nat) (on : U32)
  | config (n : Nat) (flags : U32)

/-- What the call does. -/
def GpioCall.run : GpioCall → Tlmm → Tlmm
  | .set n on, t => gpioSet n on t
  | .config n flags, t => (gpioConfig n flags t).2

/-- The calls of `SetCharger`. -/
def setChargerCalls : PsyChargerState → List GpioCall
  | .chgUsbLow =>
    [.set chargerEnable 0, .config chargerEnable gpioOutput,
      .set chargerCurrent 0, .config chargerCurrent gpioOutput]
  | .chgAc | .chgUsbHigh =>
    [.set chargerCurrent 1, .config chargerCurrent gpioOutput,
      .set chargerEnable 0, .config chargerEnable gpioOutput]
  | .chgOffFullBat | .chgOff =>
    -- 0 enable; 1 disable
    [.set chargerEnable 1, .config chargerEnable gpioOutput,
      .set chargerCurrent 1, .config chargerCurrent gpioOutput]

/-- A call, recorded. -/
def callGpio (acOnline : Bool) (s : Charger) (c : GpioCall) : Charger :=
  let tlmm := c.run s.tlmm
  { s with tlmm, transients := s.transients ++ [(levels tlmm, acOnline)] }

/-- `SetCharger`, in a tick with this `IsAcOnline`. -/
def setCharger (acOnline : Bool) (state : PsyChargerState) (s : Charger) : Charger :=
  (setChargerCalls state).foldl (callGpio acOnline) { s with gState := state }

/-- What a tick meets: the word at `MSM_SHARED_BASE + USB_STATUS`, the voltage, `USB_PORTSC`, and
    what becomes of its command for the LED. -/
structure Tick where
  usbStatus : U32
  voltage : U32
  portsc : U32
  ledWrite : Write

/-- `PORTSC_LS`. -/
def portscLs : U32 := 3 <<< 10

/-- `CheckUsbStatus`. -/
def checkUsbStatus (tick : Tick) : Bool := tick.usbStatus ≠ 0

/-- `IsAcOnline`. -/
def isAcOnline (tick : Tick) : Bool := tick.portsc &&& portscLs = portscLs

/-- `default_chg_voltage_threshold[VOLTAGE_4100]`. -/
def voltage4100 : U32 := 4100

/-- The write to `USB_USBCMD`. -/
def writeUsbCmd (v : U32) (s : Charger) : Charger := { s with usbCmd := s.usbCmd ++ [v] }

/-- `UlpiWrite`. -/
def ulpiWrite (val reg : U32) (s : Charger) : Charger := { s with ulpi := s.ulpi ++ [(val, reg)] }

/-- `LedSetMode` of the `HTCLEO_MICROP_PROTOCOL`. -/
def ledSetMode (w : Write) (mode : U32) (s : Charger) : Charger :=
  { s with led := htcleoLedSetMode w (mode.setWidth 8) s.led }

/-- `WantsCharging`. -/
def wantsCharging (s : Charger) (tick : Tick) : Charger :=
  if checkUsbStatus tick then
    if tick.voltage < voltage4100 then
      let s :=
        if isAcOnline tick then
          if s.gState ≠ .chgAc then
            setCharger (isAcOnline tick) .chgAc (ulpiWrite 0x48 0x04 (writeUsbCmd 0x00080000 s))
          else s
        else
          if s.gState ≠ .chgUsbLow then
            setCharger (isAcOnline tick) .chgUsbLow (writeUsbCmd 0x00080001 s)
          else s
      ledSetMode tick.ledWrite ledAmber s
    else
      -- battery is full
      let s :=
        if s.gState ≠ .chgOffFullBat then
          setCharger (isAcOnline tick) .chgOffFullBat (writeUsbCmd 0x00080001 s)
        else s
      ledSetMode tick.ledWrite ledGreen s
  else
    let s :=
      if s.gState ≠ .chgOff then
        setCharger (isAcOnline tick) .chgOff (writeUsbCmd 0x00080001 s)
      else s
    ledSetMode tick.ledWrite ledOff s

/-- `ExitBootServicesEvent`; the port is read as in a tick for the record only. -/
def exitBootServicesEvent (s : Charger) (portsc : U32) (w : Write) : Charger :=
  let tick : Tick := ⟨0, 0, portsc, w⟩
  let s :=
    if s.gState ≠ .chgOff then
      setCharger (isAcOnline tick) .chgOff (writeUsbCmd 0x00080001 s)
    else s
  ledSetMode w ledOff s

/-! ### The decision rules -/

/-- The levels a charger state stands for. -/
def settingLevels : PsyChargerState → Levels
  | .chgUsbLow => ⟨some false, some false⟩
  | .chgAc | .chgUsbHigh => ⟨some false, some true⟩
  | .chgOffFullBat | .chgOff => ⟨some true, some true⟩

/-- What a tick is to decide: the charger state and the LED. -/
def chargeDecision (tick : Tick) : PsyChargerState × U32 :=
  if ¬ checkUsbStatus tick then (.chgOff, ledOff)
  else if ¬ tick.voltage < voltage4100 then (.chgOffFullBat, ledGreen)
  else if isAcOnline tick then (.chgAc, ledAmber)
  else (.chgUsbLow, ledAmber)

/-- What else a tick does before `SetCharger`. -/
def prepareUsb (state : PsyChargerState) (s : Charger) : Charger :=
  if state = .chgAc then ulpiWrite 0x48 0x04 (writeUsbCmd 0x00080000 s)
  else writeUsbCmd 0x00080001 s

/-- **Tick.**  A tick sets the pins for what it decides unless `gState` says they are, and always
    sends the command for the LED. -/
theorem wantsCharging_eq (s : Charger) (tick : Tick) :
    wantsCharging s tick = ledSetMode tick.ledWrite (chargeDecision tick).2
      (if s.gState ≠ (chargeDecision tick).1 then
        setCharger (isAcOnline tick) (chargeDecision tick).1
          (prepareUsb (chargeDecision tick).1 s)
      else s) := by
  unfold wantsCharging chargeDecision
  cases husb : checkUsbStatus tick with
  | false => simp [prepareUsb]
  | true =>
    by_cases hvoltage : tick.voltage < voltage4100
    · cases hac : isAcOnline tick <;> simp [hvoltage, prepareUsb]
    · simp [hvoltage, prepareUsb]

/-- `ExitBootServicesEvent` does what a tick without USB does. -/
theorem exitBootServicesEvent_eq (s : Charger) (portsc : U32) (w : Write) :
    exitBootServicesEvent s portsc w = wantsCharging s ⟨0, 0, portsc, w⟩ := by
  simp [exitBootServicesEvent, wantsCharging, checkUsbStatus]

@[simp] theorem prepareUsb_tlmm (state : PsyChargerState) (s : Charger) :
    (prepareUsb state s).tlmm = s.tlmm := by
  unfold prepareUsb
  split <;> rfl

@[simp] theorem prepareUsb_led (state : PsyChargerState) (s : Charger) :
    (prepareUsb state s).led = s.led := by
  unfold prepareUsb
  split <;> rfl

@[simp] theorem prepareUsb_transients (state : PsyChargerState) (s : Charger) :
    (prepareUsb state s).transients = s.transients := by
  unfold prepareUsb
  split <;> rfl

/-! ### The pins -/

theorem levels_setEnable (on : U32) (t : Tlmm) :
    levels (gpioSet chargerEnable on t) = ⟨some (decide (on ≠ 0)), (levels t).current⟩ := by
  have hset := fun p' (hp' : HasPin 1 p') =>
    pinLevel_gpioSet (i := 1) (p := 6) (by decide) (by decide) on t hp'
  have henable : chargerEnable = (bank 1).start + 6 := rfl
  simp only [levels, henable, hset 6 (by decide), hset 0 (by decide)]
  simp

theorem levels_setCurrent (on : U32) (t : Tlmm) :
    levels (gpioSet chargerCurrent on t) = ⟨(levels t).enable, some (decide (on ≠ 0))⟩ := by
  have hset := fun p' (hp' : HasPin 1 p') =>
    pinLevel_gpioSet (i := 1) (p := 0) (by decide) (by decide) on t hp'
  have hcurrent : chargerCurrent = (bank 1).start + 0 := rfl
  simp only [levels, hcurrent, hset 6 (by decide), hset 0 (by decide)]
  simp

/-- A pin with a level is an output. -/
theorem oe_of_pinLevel {i p : Nat} {t : Tlmm} {on : Bool} (h : pinLevel i p t = some on) :
    t.bit i .oe p = true := by
  unfold pinLevel at h
  split at h
  · assumption
  · exact absurd h (by simp)

theorem levels_configEnable {t : Tlmm} {on : Bool} (h : (levels t).enable = some on) :
    levels (gpioConfig chargerEnable gpioOutput t).2 = levels t := by
  have hconfig := fun p' (hp' : HasPin 1 p') =>
    pinLevel_gpioConfig (i := 1) (p := 6) (by decide) (by decide) (oe_of_pinLevel h) hp'
  have henable : chargerEnable = (bank 1).start + 6 := rfl
  simp only [levels, henable, hconfig 6 (by decide), hconfig 0 (by decide)]

theorem levels_configCurrent {t : Tlmm} {on : Bool} (h : (levels t).current = some on) :
    levels (gpioConfig chargerCurrent gpioOutput t).2 = levels t := by
  have hconfig := fun p' (hp' : HasPin 1 p') =>
    pinLevel_gpioConfig (i := 1) (p := 0) (by decide) (by decide) (oe_of_pinLevel h) hp'
  have hcurrent : chargerCurrent = (bank 1).start + 0 := rfl
  simp only [levels, hcurrent, hconfig 6 (by decide), hconfig 0 (by decide)]

/-- Setting a pin takes two calls. -/
def pairCalls (n : Nat) (on : U32) : List GpioCall := [.set n on, .config n gpioOutput]

theorem pairCalls_enable (acOnline : Bool) (on : U32) (s : Charger) :
    let s' := (pairCalls chargerEnable on).foldl (callGpio acOnline) s
    let l : Levels := ⟨some (decide (on ≠ 0)), (levels s.tlmm).current⟩
    s'.gState = s.gState ∧ levels s'.tlmm = l ∧
      s'.transients = s.transients ++ [(l, acOnline), (l, acOnline)] := by
  have hset := levels_setEnable on s.tlmm
  have hconfig := levels_configEnable (congrArg Levels.enable hset)
  simp [pairCalls, callGpio, GpioCall.run, hconfig, hset]

theorem pairCalls_current (acOnline : Bool) (on : U32) (s : Charger) :
    let s' := (pairCalls chargerCurrent on).foldl (callGpio acOnline) s
    let l : Levels := ⟨(levels s.tlmm).enable, some (decide (on ≠ 0))⟩
    s'.gState = s.gState ∧ levels s'.tlmm = l ∧
      s'.transients = s.transients ++ [(l, acOnline), (l, acOnline)] := by
  have hset := levels_setCurrent on s.tlmm
  have hconfig := levels_configCurrent (congrArg Levels.current hset)
  simp [pairCalls, callGpio, GpioCall.run, hconfig, hset]

/-- `SetCharger` sets the enable pin first, but for the high current. -/
theorem setChargerCalls_eq (state : PsyChargerState) : setChargerCalls state = match state with
    | .chgUsbLow => pairCalls chargerEnable 0 ++ pairCalls chargerCurrent 0
    | .chgAc | .chgUsbHigh => pairCalls chargerCurrent 1 ++ pairCalls chargerEnable 0
    | .chgOffFullBat | .chgOff => pairCalls chargerEnable 1 ++ pairCalls chargerCurrent 1 := by
  cases state <;> rfl

/-- The levels after the first of the two pins is set, and after both. -/
def transition : PsyChargerState → Levels → Levels × Levels
  | .chgUsbLow, l => (⟨some false, l.current⟩, ⟨some false, some false⟩)
  | .chgAc, l | .chgUsbHigh, l => (⟨l.enable, some true⟩, ⟨some false, some true⟩)
  | .chgOffFullBat, l | .chgOff, l => (⟨some true, l.current⟩, ⟨some true, some true⟩)

/-- **Pins lemma.**  What `SetCharger` does to the pins: its calls, one by one, and their end. -/
theorem setCharger_spec (acOnline : Bool) (state : PsyChargerState) (s : Charger) :
    (setCharger acOnline state s).gState = state ∧
    levels (setCharger acOnline state s).tlmm = settingLevels state ∧
    (setCharger acOnline state s).transients = s.transients ++
      [((transition state (levels s.tlmm)).1, acOnline),
        ((transition state (levels s.tlmm)).1, acOnline),
        ((transition state (levels s.tlmm)).2, acOnline),
        ((transition state (levels s.tlmm)).2, acOnline)] := by
  have henable := fun (on : U32) (s : Charger) => pairCalls_enable acOnline on s
  have hcurrent := fun (on : U32) (s : Charger) => pairCalls_current acOnline on s
  dsimp only at henable hcurrent
  unfold setCharger
  rw [setChargerCalls_eq]
  cases state <;> dsimp only <;> rw [List.foldl_append]
  all_goals
    simp [(henable _ _).1, (henable _ _).2.1, (henable _ _).2.2, (hcurrent _ _).1,
      (hcurrent _ _).2.1, (hcurrent _ _).2.2, transition, settingLevels]

/-! ### The LED -/

/-- `SetCharger` leaves the LED alone. -/
@[simp] theorem setCharger_led (acOnline : Bool) (state : PsyChargerState) (s : Charger) :
    (setCharger acOnline state s).led = s.led := by
  have hcalls : ∀ (calls : List GpioCall) (s : Charger),
      (calls.foldl (callGpio acOnline) s).led = s.led := by
    intro calls
    induction calls with
    | nil => exact fun _ => rfl
    | cons call calls ih => exact fun s => ih (callGpio acOnline s call)
  exact hcalls (setChargerCalls state) { s with gState := state }

/-- After a tick the LED is as decided if the microcontroller has taken the command, and else as
    it was. -/
theorem wantsCharging_led (s : Charger) (tick : Tick) :
    (tick.ledWrite.Taken → (wantsCharging s tick).led = (chargeDecision tick).2) ∧
      (¬ tick.ledWrite.Taken → (wantsCharging s tick).led = s.led) := by
  have hmode : (chargeDecision tick).2.setWidth 8 ≤ 2#8 ∧
      ((chargeDecision tick).2.setWidth 8).setWidth 32 = (chargeDecision tick).2 := by
    unfold chargeDecision
    split_ifs <;> decide
  have hled : ∀ s', s'.led = s.led →
      (tick.ledWrite.Taken →
        (ledSetMode tick.ledWrite (chargeDecision tick).2 s').led = (chargeDecision tick).2) ∧
      (¬ tick.ledWrite.Taken →
        (ledSetMode tick.ledWrite (chargeDecision tick).2 s').led = s.led) := by
    intro s' hs'
    obtain ⟨htaken, hlost⟩ := htcleoLedSetMode_eq tick.ledWrite hmode.1 s'.led
    exact ⟨fun h => (htaken h).trans hmode.2, fun h => (hlost h).trans hs'⟩
  rw [wantsCharging_eq]
  apply hled
  split
  · simp
  · rfl

end HtcLeo.Charging

import HtcLeo.Atags.ParseAtags
import HtcLeo.Gpio.Pins
import HtcLeo.Keypad.Led
import HtcLeo.Keypad.Press

namespace HtcLeo.Keypad

open Atags (DeviceType)
open Gpio Prog

/-!
# KeypadDeviceImplLib — the keys of a device and their poll

`KeypadDeviceImplConstructor`, `KeypadDeviceImplReset` and `KeypadDeviceImplGetKeys` of
`Library/KeypadDeviceImplLib/KeypadDeviceImplLib.c`: which keys a device has, on which pins, and a
poll of them through the `TLMM_GPIO` protocol.

* `KeyContextPrivate`, `KeyName`, `keyList` — the static contexts.
* `keypadDeviceImplConstructor`, `keypadDeviceImplReset` — how they are filled in.
* `keypadDeviceImplGetKeys` — a poll, over any wiring of the input pins.
-/

/-- `KEY_DEVICE_TYPE`. -/
inductive KeyDeviceType
  | unknown | legacy | keymatrix | tlmm | pm8x41 | pm8x41Pon
  deriving DecidableEq, Repr

/-- `KEY_CONTEXT_PRIVATE`. -/
structure KeyContextPrivate where
  efiKeyContext : KeyContext
  isValid : Bool
  deviceType : KeyDeviceType
  gpio : Nat
  activeLow : Bool
  gpioIn : Nat
  gpioOut : Nat
  enableKeyPadLed : Bool
  deriving DecidableEq, Repr

/-- The static contexts, `KeyContextPower` to `KeyContextDial`. -/
inductive KeyName
  | power | volumeUp | volumeDown | back | windows | home | dial
  deriving DecidableEq, Repr

/-- `KeyList`. -/
def keyList : List KeyName := [.power, .volumeUp, .volumeDown, .back, .windows, .home, .dial]

theorem mem_keyList (k : KeyName) : k ∈ keyList := by cases k <;> decide

theorem keyList_nodup : keyList.Nodup := by decide

/-- The contexts, by name. -/
abbrev Contexts := KeyName → KeyContextPrivate

/-! ### The constructor -/

/-- `KeypadInitializeKeyContextPrivate`. -/
def keypadInitializeKeyContextPrivate (context : KeyContextPrivate) : KeyContextPrivate :=
  { context with
    isValid := false
    gpio := 0
    gpioOut := 0
    gpioIn := 0
    deviceType := .unknown
    activeLow := false
    enableKeyPadLed := false }

/-- `KeypadKeyCodeToKeyContext`; `none` is `NULL`. -/
def keypadKeyCodeToKeyContext (keyCode : Nat) : Option KeyName :=
  if keyCode = 114 then some .volumeDown
  else if keyCode = 115 then some .volumeUp
  else if keyCode = 116 then some .power
  else if keyCode = 117 then some .back
  else if keyCode = 118 then some .windows
  else if keyCode = 119 then some .home
  else if keyCode = 120 then some .dial
  else none

/-- The context of a key code, changed; no code of the constructor is without one. -/
def setContext (keyCode : Nat) (f : KeyContextPrivate → KeyContextPrivate) (contexts : Contexts) :
    Contexts :=
  match keypadKeyCodeToKeyContext keyCode with
  | none => contexts
  | some k => Function.update contexts k (f (contexts k))

/-- A key with a pin of its own. -/
def setLegacy (keyCode gpio : Nat) (enableKeyPadLed : Bool) : Contexts → Contexts :=
  setContext keyCode fun c => { c with
    deviceType := .legacy, gpio := gpio, activeLow := true, enableKeyPadLed := enableKeyPadLed,
    isValid := true }

/-- A key at a crossing of the matrix. -/
def setKeymatrix (keyCode gpioOut gpioIn : Nat) (enableKeyPadLed : Bool) : Contexts → Contexts :=
  setContext keyCode fun c => { c with
    deviceType := .keymatrix, gpioOut := gpioOut, gpioIn := gpioIn, activeLow := true,
    enableKeyPadLed := enableKeyPadLed, isValid := true }

/-- The switch over the device; the keys of LEO are followed by the case of BRAVO, which has
    none. -/
def deviceKeys : DeviceType → Contexts → Contexts
  | .schubert => fun contexts =>
      setLegacy 118 42 true (setLegacy 120 90 false (setLegacy 114 41 false
        (setLegacy 115 94 false contexts)))
  | .leo => fun contexts =>
      setKeymatrix 119 31 41 true (setKeymatrix 118 32 42 true (setKeymatrix 117 31 42 true
        (setLegacy 116 94 true contexts)))
  | .bravo | .passion | .unknown => id

/-- The keys that LEO, BRAVO and PASSION share. -/
def commonKeys (device : DeviceType) (contexts : Contexts) : Contexts :=
  if device = .leo ∨ device = .bravo ∨ device = .passion then
    setKeymatrix 114 33 41 false (setKeymatrix 115 33 42 false (setKeymatrix 120 32 41 true contexts))
  else contexts

/-- `KeypadDeviceImplConstructor`: what it makes of the contexts. -/
def keypadDeviceImplConstructor (device : DeviceType) (contexts : Contexts) : Contexts :=
  commonKeys device (deviceKeys device fun k => keypadInitializeKeyContextPrivate (contexts k))

/-- The key of a context. -/
def keyOf : KeyName → Key
  | .power      => ⟨0x17, 0⟩  -- `SCAN_ESC`
  | .volumeUp   => ⟨scanUp, 0⟩
  | .volumeDown => ⟨scanDown, 0⟩
  | .back       => ⟨0, 8⟩  -- `CHAR_BACKSPACE`
  | .windows    => ⟨0, 9⟩  -- `CHAR_TAB`
  | .home       => ⟨5, 0⟩  -- `SCAN_HOME`
  | .dial       => ⟨0, charCarriageReturn⟩

/-- `KeypadDeviceImplReset`. -/
def keypadDeviceImplReset (contexts : Contexts) : Contexts := fun k =>
  { contexts k with efiKeyContext := libKeyInitializeKeyContext ⟨keyOf k, 0, 0⟩ }

/-! ### The poll -/

/-- The registers of the pins, the backlight, the bitmaps, the contexts, and (ghost) what each turn
    of a key has pushed. -/
structure KeypadDevice where
  tlmm : Tlmm
  backlight : Backlight
  maps : KeyMaps
  contexts : Contexts
  pushed : KeyName → List (List KeyData)

/-- `HTCLEO_GPIO_KP_LED`. -/
def htcleoGpioKpLed : Nat := 48

/-- `gGpio->Set`. -/
def setPin (n : Nat) (on : U32) : Prog KeypadDevice Unit :=
  modify fun s => { s with tlmm := gpioSet n on s.tlmm }

/-- `gGpio->Get`; `wires` is what the `in` registers hold, for what the pins are driven to once the
    pin is an input. -/
def getPin (wires : Tlmm → Nat → U32) (n : Nat) : Prog KeypadDevice U32 :=
  query fun s =>
    let inp := wires (gpioConfig n gpioInput s.tlmm).2
    ((gpioGet n inp s.tlmm).1, { s with tlmm := (gpioGet n inp s.tlmm).2 })

/-- The status of a key; `none` for a context that is not polled. -/
def getStatus (wires : Tlmm → Nat → U32) (context : KeyContextPrivate) :
    Prog KeypadDevice (Option U32) :=
  if !context.isValid then pure none
  else match context.deviceType with
    | .legacy => do
        let status ← getPin wires context.gpio
        return some status
    | .keymatrix => do
        setPin context.gpioOut 0
        let status ← getPin wires context.gpioIn
        setPin context.gpioOut 1
        return some status
    | _ => pure none

/-- `EnableKeypadLedWithTimer`, with the LED on its pin, for a key that lights it. -/
def enableLed (lit : Bool) : Prog KeypadDevice Unit :=
  if lit then do
    setPin htcleoGpioKpLed 1
    modify fun s => { s with backlight := getKey true true s.backlight }
  else pure ()

/-- `LibKeyUpdateKeyStatus` on a context; no result past the bitmaps. -/
def updateKeyStatus (k : KeyName) (isPressed : Bool) (delta : BitVec 64) :
    Prog KeypadDevice Unit := fun s =>
  match libKeyUpdateKeyStatus (s.contexts k).efiKeyContext s.maps isPressed delta with
  | none => (none, s)
  | some (events, context, maps) => (some (), { s with
      maps := maps
      contexts := Function.update s.contexts k { s.contexts k with efiKeyContext := context }
      pushed := Function.update s.pushed k (s.pushed k ++ [events]) })

/-- A turn of the loop of `KeypadDeviceImplGetKeys`. -/
def turn (wires : Tlmm → Nat → U32) (delta : BitVec 64) (k : KeyName) :
    Prog KeypadDevice Unit := do
  let context ← query fun s => (s.contexts k, s)
  match ← getStatus wires context with
  | none => pure ()
  | some gpioStatus => do
      let isPressed := (gpioStatus ≠ 0) ^^ context.activeLow
      enableLed (isPressed && context.enableKeyPadLed)
      updateKeyStatus k isPressed delta

/-- `KeypadDeviceImplGetKeys`. -/
def keypadDeviceImplGetKeys (wires : Tlmm → Nat → U32) (delta : BitVec 64) :
    Prog KeypadDevice Unit :=
  forM keyList (turn wires delta)

/-- The contexts of a device, as the driver starts with them. -/
def startContexts (device : DeviceType) : Contexts :=
  keypadDeviceImplReset (keypadDeviceImplConstructor device fun _ =>
    ⟨libKeyInitializeKeyContext ⟨⟨0, 0⟩, 0, 0⟩, false, .unknown, 0, false, 0, 0, false⟩)

/-- The start, with any content of the registers. -/
def KeypadDevice.start (device : DeviceType) (tlmm : Tlmm) : KeypadDevice :=
  ⟨tlmm, ledStart, .zero, startContexts device, fun _ => []⟩

end HtcLeo.Keypad

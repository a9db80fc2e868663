import HtcLeo.Keypad.KeyState
import HtcLeo.Lib.Ring

namespace HtcLeo.Keypad

/-!
# KeypadDxe — the console input device

The driver of `Drivers/KeypadDxe`: the two key queues of a `KEYPAD_CONSOLE_IN_DEV`, the
function through which the keypad device pushes keys, and the functions of its text-input
protocols.

* `pushEfikeyBufTail`, `popEfikeyBufHead` — the ring of `KeypadTextIn.c`.
* `keypadReturnApiPushEfikeyBufTail` — a pushed key goes to the notify queue, once for each
  registration it matches, and to the console queue.
* `keypadTimerHandler` — a poll; the keys `GetKeys` pushes during it are its argument.
* `keypadReadKeyStrokeWorker`, `readKeyStrokePass`, `keypadWaitForKey`, `initKeypad` — the
  readers, the wait notification and the reset.
* `Event` — what has happened to the console queue since the last reset, kept as a ghost log.
-/

/-- `KEYPAD_EFI_KEY_MAX_COUNT`. -/
abbrev keypadEfiKeyMaxCount : Nat := 256

/-- `EFI_KEY_DATA`: the key with its `KeyShiftState` and `KeyToggleState`. -/
structure KeyData where
  key : Key
  keyShiftState : U32
  keyToggleState : BitVec 8
  deriving DecidableEq, Repr

/-- A partial keystroke: `SCAN_NULL` with `CHAR_NULL`. -/
def KeyData.isNull (k : KeyData) : Bool := k.key.scanCode == 0#16 && k.key.unicodeChar == 0#16

/-! ### The key queues -/

/-- `EFI_KEY_QUEUE`. -/
abbrev EfiKeyQueue := Ring KeyData keypadEfiKeyMaxCount

/-- `IsEfikeyBufEmpty`. -/
abbrev isEfikeyBufEmpty (queue : EfiKeyQueue) : Bool := queue.isEmpty

/-- `PopEfikeyBufHead`; `none` is `EFI_NOT_READY`. -/
abbrev popEfikeyBufHead (queue : EfiKeyQueue) : Option KeyData × EfiKeyQueue := queue.pop

/-- `PushEfikeyBufTail`: a full queue first loses the key at its head. -/
abbrev pushEfikeyBufTail (queue : EfiKeyQueue) (keyData : KeyData) : EfiKeyQueue :=
  queue.push keyData

/-- What a reader is handed: the `EFI_KEY_DATA` of `ReadKeyStrokeEx`, or the `EFI_INPUT_KEY`
    of `ReadKeyStroke`. -/
inductive Handed
  | keyData (k : KeyData)
  | inputKey (key : Key)
  deriving DecidableEq, Repr

/-- What happens to the console queue: a push (and the key it makes the queue lose), a partial
    key skipped, a key delivered to a reader. -/
inductive Event
  | pushed (k : KeyData) (lost : Option KeyData)
  | skipped (k : KeyData)
  | delivered (k : KeyData) (handed : Handed)
  deriving DecidableEq, Repr

/-- `KEYPAD_CONSOLE_IN_EX_NOTIFY`: a registration, with a notification function from `F`. -/
structure Notify (F : Type) where
  keyData : KeyData
  keyNotificationFn : F
  deriving DecidableEq

/-- The fields of `KEYPAD_CONSOLE_IN_DEV` that decide about keys.  Ghosts: the events at the
    console queue since the last reset, and the calls of notification functions. -/
structure ConsoleIn (F : Type) where
  efiKeyQueue : EfiKeyQueue
  efiKeyQueueForNotify : EfiKeyQueue
  isSupportPartialKey : Bool
  keypadErr : Bool
  notifyList : List (Notify F)
  /-- `KeyNotifyProcessEvent` has been signalled. -/
  keyNotifyProcessEvent : Bool
  log : List Event
  calls : List (F × KeyData)

variable {F : Type}

/-! ### Pushing -/

/-- `IsKeyRegistered`: a zero shift or toggle state of the registration is ignored. -/
def isKeyRegistered (registeredData inputData : KeyData) : Bool :=
  if registeredData.key.scanCode ≠ inputData.key.scanCode ∨
      registeredData.key.unicodeChar ≠ inputData.key.unicodeChar then false
  else if registeredData.keyShiftState ≠ 0#32 ∧
      registeredData.keyShiftState ≠ inputData.keyShiftState then false
  else if registeredData.keyToggleState ≠ 0#8 ∧
      registeredData.keyToggleState ≠ inputData.keyToggleState then false
  else true

/-- Push to the console queue. -/
def pushConsole (c : ConsoleIn F) (k : KeyData) : ConsoleIn F :=
  let lost := if c.efiKeyQueue.isFull then (popEfikeyBufHead c.efiKeyQueue).1 else none
  { c with
    efiKeyQueue := pushEfikeyBufTail c.efiKeyQueue k
    log := c.log ++ [.pushed k lost] }

/-- One pass of the loop over `NotifyList`: queue the key for a registration it matches. -/
def pushForNotify (k : KeyData) (c : ConsoleIn F) (currentNotify : Notify F) : ConsoleIn F :=
  if isKeyRegistered currentNotify.keyData k then
    { c with
      efiKeyQueueForNotify := pushEfikeyBufTail c.efiKeyQueueForNotify k
      keyNotifyProcessEvent := true }
  else c

/-- The key can not be converted: a partial key while those are not supported. -/
def isRefused (c : ConsoleIn F) (k : KeyData) : Bool := k.isNull && !c.isSupportPartialKey

/-- `KeypadReturnApiPushEfikeyBufTail`. -/
def keypadReturnApiPushEfikeyBufTail (c : ConsoleIn F) (k : KeyData) : ConsoleIn F :=
  if isRefused c k then c
  else pushConsole (c.notifyList.foldl (pushForNotify k) c) k

/-- `KeypadTimerHandler`, during which the device's `GetKeys` pushes `keys`. -/
def keypadTimerHandler (keys : List KeyData) (c : ConsoleIn F) : ConsoleIn F :=
  if c.keypadErr then c else keys.foldl keypadReturnApiPushEfikeyBufTail c

/-! ### Reading -/

/-- `EFI_LEFT_CONTROL_PRESSED | EFI_RIGHT_CONTROL_PRESSED`. -/
def controlPressed : U32 := 0x08#32 ||| 0x04#32

/-- The letters of control characters: ctrl-a is 1, ctrl-Z is 26. -/
def translateControl (k : KeyData) : Key :=
  let unicodeChar := k.key.unicodeChar
  if k.keyShiftState &&& controlPressed ≠ 0#32 then
    if 97#16 ≤ unicodeChar ∧ unicodeChar ≤ 122#16 then
      { k.key with unicodeChar := unicodeChar - 97#16 + 1#16 }
    else if 65#16 ≤ unicodeChar ∧ unicodeChar ≤ 90#16 then
      { k.key with unicodeChar := unicodeChar - 65#16 + 1#16 }
    else k.key
  else k.key

/-- `KeypadReadKeyStrokeWorker` with a buffer: poll, then take the oldest key. -/
def keypadReadKeyStrokeWorker (keys : List KeyData) (c : ConsoleIn F) :
    Except EfiStatus KeyData × ConsoleIn F :=
  let c := keypadTimerHandler keys c
  if c.keypadErr then (.error .deviceError, c)
  else match popEfikeyBufHead c.efiKeyQueue with
    | (some keyData, queue) => (.ok keyData, { c with efiKeyQueue := queue })
    | (none, queue)         => (.error .notReady, { c with efiKeyQueue := queue })

/-- `KeypadReadKeyStrokeEx`; a `NULL` buffer is refused. -/
def keypadReadKeyStrokeEx (keyDataIsNull : Bool) (keys : List KeyData) (c : ConsoleIn F) :
    Except EfiStatus KeyData × ConsoleIn F :=
  if keyDataIsNull then (.error .invalidParameter, c)
  else match keypadReadKeyStrokeWorker keys c with
    | (.error status, c) => (.error status, c)
    | (.ok keyData, c)   =>
      (.ok keyData, { c with log := c.log ++ [.delivered keyData (.keyData keyData)] })

/-- How a pass of the loop of `KeypadReadKeyStroke` ends. -/
inductive Pass
  | failed (status : EfiStatus)
  | skipped
  | read (key : Key)
  deriving DecidableEq, Repr

/-- One pass of the loop of `KeypadReadKeyStroke`.  Nothing else is done between two passes,
    so that other functions may run there. -/
def readKeyStrokePass (keys : List KeyData) (c : ConsoleIn F) : Pass × ConsoleIn F :=
  match keypadReadKeyStrokeWorker keys c with
  | (.error status, c) => (.failed status, c)
  | (.ok keyData, c) =>
    if keyData.isNull then (.skipped, { c with log := c.log ++ [.skipped keyData] })
    else
      let key := translateControl keyData
      (.read key, { c with log := c.log ++ [.delivered keyData (.inputKey key)] })

/-- `KeypadReadKeyStroke`; the poll of each pass pushes one of the lists.  When they are used up
    the loop is still running, and there is no result. -/
def keypadReadKeyStroke : List (List KeyData) → ConsoleIn F →
    Option (Except EfiStatus Key) × ConsoleIn F
  | [], c => (none, c)
  | keys :: polls, c =>
    match readKeyStrokePass keys c with
    | (.failed status, c) => (some (.error status), c)
    | (.skipped, c)       => keypadReadKeyStroke polls c
    | (.read key, c)      => (some (.ok key), c)

/-- The loop of `KeypadWaitForKey`: whether the event is signalled; `none` where `fuel` passes
    do not end it. -/
def waitForKeyLoop : Nat → ConsoleIn F → Option Bool × ConsoleIn F
  | 0, c => (none, c)
  | fuel + 1, c =>
    if isEfikeyBufEmpty c.efiKeyQueue then (some false, c)
    else
      let keyData := c.efiKeyQueue.buffer c.efiKeyQueue.head
      if keyData.isNull then
        waitForKeyLoop fuel
          { c with
            efiKeyQueue := (popEfikeyBufHead c.efiKeyQueue).2
            log := c.log ++ [.skipped keyData] }
      else (some true, c)

/-- `KeypadWaitForKey`: whether it signals the event. -/
def keypadWaitForKey (keys : List KeyData) (c : ConsoleIn F) : Option Bool × ConsoleIn F :=
  let c := keypadTimerHandler keys c
  if c.keypadErr then (some false, c) else waitForKeyLoop keypadEfiKeyMaxCount c

/-! ### Reset and state -/

/-- `InitKeypad`; the log starts anew with it. -/
def initKeypad (c : ConsoleIn F) : ConsoleIn F :=
  { c with
    efiKeyQueue := c.efiKeyQueue.clear
    efiKeyQueueForNotify := c.efiKeyQueueForNotify.clear
    isSupportPartialKey := false
    log := [] }

/-- `KeypadEfiReset`, `KeypadEfiResetEx`. -/
def keypadEfiReset (c : ConsoleIn F) : EfiStatus × ConsoleIn F :=
  if c.keypadErr then (.deviceError, c) else (.success, initKeypad c)

/-- `EFI_TOGGLE_STATE_VALID`. -/
def efiToggleStateValid : BitVec 8 := 0x80#8
/-- `EFI_KEY_STATE_EXPOSED`. -/
def efiKeyStateExposed : BitVec 8 := 0x40#8

/-- `KeypadSetState` with a toggle state, as far as it decides about partial keys. -/
def keypadSetState (keyToggleState : BitVec 8) (c : ConsoleIn F) : EfiStatus × ConsoleIn F :=
  if c.keypadErr then (.deviceError, c)
  else if keyToggleState &&& efiToggleStateValid ≠ efiToggleStateValid then (.unsupported, c)
  else (.success,
    { c with
      isSupportPartialKey := keyToggleState &&& efiKeyStateExposed == efiKeyStateExposed })

/-- The device as `KeypadControllerDriverStart` leaves it: zeroed memory, then a reset. -/
def keypadControllerDriverStart : ConsoleIn F :=
  let zeroed : EfiKeyQueue := ⟨fun _ => ⟨⟨0, 0⟩, 0, 0⟩, 0, 0⟩
  (keypadEfiReset ⟨zeroed, zeroed, false, false, [], false, [], []⟩).2

/-! ### Notification -/

/-- `KeypadRegisterKeyNotify`; `allocated` says whether the pool has room for the entry. -/
def keypadRegisterKeyNotify [DecidableEq F] (keyData : KeyData) (keyNotificationFn : F)
    (allocated : Bool) (c : ConsoleIn F) : EfiStatus × ConsoleIn F :=
  if c.notifyList.any fun current => isKeyRegistered current.keyData keyData &&
      current.keyNotificationFn == keyNotificationFn then (.success, c)
  else if !allocated then (.outOfResources, c)
  else (.success, { c with notifyList := c.notifyList ++ [⟨keyData, keyNotificationFn⟩] })

/-- The calls one key taken from the notify queue leads to. -/
def callsFor (notifyList : List (Notify F)) (k : KeyData) : List (F × KeyData) :=
  (notifyList.filter fun current => isKeyRegistered current.keyData k).map
    fun current => (current.keyNotificationFn, k)

/-- One pass of the loop of `KeyNotifyProcessHandler`, and whether the loop goes on. -/
def keyNotifyProcessPass (c : ConsoleIn F) : Bool × ConsoleIn F :=
  match popEfikeyBufHead c.efiKeyQueueForNotify with
  | (none, _) => (false, c)
  | (some keyData, queue) =>
    (true,
      { c with
        efiKeyQueueForNotify := queue
        calls := c.calls ++ callsFor c.notifyList keyData })

end HtcLeo.Keypad

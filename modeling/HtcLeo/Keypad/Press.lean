import HtcLeo.Keypad.Console
import Mathlib.Data.Nat.Basic

namespace HtcLeo.Keypad

/-!
# KeypadDeviceHelperLib — from key samples to key events

`LibKeyUpdateKeyStatus` of `Include/Library/KeypadDeviceHelperLib.h`: the state machine that
turns the samples of one key (pressed or not, and the time since the last one) into the keys it
pushes.

* `KeyContext.advance`, `libKeyUpdateKeyStatus`, `run` — the function, and its runs.
* `Press` — a completed press: pressed samples and the released samples after them.
  `exists_presses` cuts every sequence of samples into these.
* `Press.events` — the events a press is meant to lead to, sample by sample.
* `run_eq` — a run of the function, without its tests of the key.
-/

/-! ### The state machine -/

/-- `KEY_STATE`. -/
inductive KeyState
  | released | pressed | longpressRelease
  deriving DecidableEq, Repr

/-- `KEY_CONTEXT`; `keyRepeat` is its `Repeat`. -/
structure KeyContext where
  keyData : KeyData
  time : BitVec 64
  state : KeyState
  keyRepeat : Bool
  longpress : Bool
  deriving DecidableEq, Repr

/-- `MS2NS`. -/
def ms2ns (ms : Nat) : BitVec 64 := BitVec.ofNat 64 ms * 1000000#64

/-- `CHAR_CARRIAGE_RETURN`. -/
def charCarriageReturn : BitVec 16 := 0x0d
/-- `SCAN_UP`. -/
def scanUp : BitVec 16 := 1
/-- `SCAN_DOWN`. -/
def scanDown : BitVec 16 := 2

/-- `gKeyDataPowerDown`, an `s`. -/
def gKeyDataPowerDown : KeyData := ⟨⟨0, 0x73⟩, 0, 0⟩
/-- `gKeyDataPowerUp`, an `e`. -/
def gKeyDataPowerUp : KeyData := ⟨⟨0, 0x65⟩, 0, 0⟩
/-- `gKeyDataPowerLongpress`, a space. -/
def gKeyDataPowerLongpress : KeyData := ⟨⟨0, 0x20⟩, 0, 0⟩

/-- `LibKeyInitializeKeyContext`, after which `KeypadDeviceImplReset` fills in the key. -/
def libKeyInitializeKeyContext (keyData : KeyData) : KeyContext :=
  ⟨keyData, 0, .released, false, false⟩

/-- The key states the function may read: `KeyGetState (SCAN_DOWN, 0)`,
    `KeyGetState (SCAN_UP, 0)` and `KeyGetState (0, CHAR_CARRIAGE_RETURN)`. -/
structure Readings where
  down : Bool
  up : Bool
  enter : Bool
  deriving DecidableEq, Repr

/-- The key is Enter. -/
def KeyData.isEnter (k : KeyData) : Bool := k.key.unicodeChar == charCarriageReturn

/-- What a long press of Enter reports. -/
def comboKey (r : Readings) : KeyData :=
  if r.down then gKeyDataPowerDown
  else if r.up then gKeyDataPowerUp
  else gKeyDataPowerLongpress

/-- The switch of `LibKeyUpdateKeyStatus`: the keys pushed, and the context after it. -/
def KeyContext.advance (r : Readings) (isPressed : Bool) (delta : BitVec 64)
    (context : KeyContext) : List KeyData × KeyContext :=
  let context := { context with time := context.time + delta }
  match context.state with
  | .released =>
    if isPressed then ([], { context with time := 0, state := .pressed }) else ([], context)
  | .pressed =>
    if isPressed then
      if context.keyRepeat ∧ ms2ns 200 ≤ context.time then
        ([context.keyData], { context with time := 0, keyRepeat := true })
      else if ¬ context.longpress ∧ ms2ns 500 ≤ context.time then
        if context.keyData.isEnter then ([comboKey r], { context with longpress := true })
        -- only start repeating if this is not part of a combination with Enter
        else if ¬ r.enter then
          ([context.keyData], { context with time := 0, keyRepeat := true, longpress := true })
        else ([], { context with longpress := true })
      else ([], context)
    else if ¬ context.longpress then
      ([context.keyData], { context with state := .longpressRelease })
    else if ms2ns 10 ≤ context.time then
      ([], { context with time := 0, keyRepeat := false, longpress := false, state := .released })
    else ([], context)
  | .longpressRelease =>
    ([], { context with time := 0, keyRepeat := false, longpress := false, state := .released })

/-- `KeySetState` of the key, and then the readings; no result past the bitmaps. -/
def keyReadings (key : Key) (isPressed : Bool) (maps : KeyMaps) : Option (Readings × KeyMaps) := do
  let maps ← keySetState key isPressed maps
  let down ← keyGetState ⟨scanDown, 0⟩ maps
  let up ← keyGetState ⟨scanUp, 0⟩ maps
  let enter ← keyGetState ⟨0, charCarriageReturn⟩ maps
  return (⟨down, up, enter⟩, maps)

/-- `LibKeyUpdateKeyStatus`: the keys pushed, the context and the bitmaps. -/
def libKeyUpdateKeyStatus (context : KeyContext) (maps : KeyMaps) (isPressed : Bool)
    (delta : BitVec 64) : Option (List KeyData × KeyContext × KeyMaps) := do
  let (r, maps) ← keyReadings context.keyData.key isPressed maps
  let (events, context) := context.advance r isPressed delta
  return (events, context, maps)

/-- One call: the sample, and the bitmaps as the calls for other keys have left them. -/
structure Sample where
  isPressed : Bool
  delta : BitVec 64
  maps : KeyMaps

/-- The keys pushed at each of a sequence of samples, and the context after them. -/
def run (context : KeyContext) : List Sample → Option (List (List KeyData) × KeyContext)
  | [] => some ([], context)
  | s :: samples => do
    let (events, context, _) ← libKeyUpdateKeyStatus context s.maps s.isPressed s.delta
    let (rest, context) ← run context samples
    return (events :: rest, context)

/-! ### What a press is meant to lead to -/

/-- The length of a sample, in nanoseconds. -/
def Sample.ns (s : Sample) : Nat := s.delta.toNat

/-- The time of a sequence of samples. -/
def totalNs (samples : List Sample) : Nat := (samples.map Sample.ns).sum

/-- A completed press: its first pressed sample, the later ones, the first released sample, and
    the released samples after it. -/
structure Press where
  first : Sample
  held : List Sample
  release : Sample
  idle : List Sample
  first_pressed : first.isPressed = true
  held_pressed : ∀ s ∈ held, s.isPressed = true
  release_released : release.isPressed = false
  idle_released : ∀ s ∈ idle, s.isPressed = false

namespace Press

/-- All samples of a press. -/
def samples (p : Press) : List Sample := p.first :: p.held ++ p.release :: p.idle

/-- The released samples. -/
def releasedRun (p : Press) : List Sample := p.release :: p.idle

/-- The pressed time: the time after the first pressed sample, up to the last one. -/
def time (p : Press) : Nat := totalNs p.held

/-- The released run is long enough to end the press: two samples, and ten milliseconds. -/
def Separated (p : Press) : Prop := p.idle ≠ [] ∧ 10000000 ≤ totalNs p.releasedRun

/-- The time of the press, with its release up to the sample that completes ten milliseconds,
    fits a `UINT64`. -/
def Fits (p : Press) : Prop :=
  ∀ before s after, p.releasedRun = before ++ s :: after → totalNs before < 10000000 →
    p.time + totalNs before + s.ns < 2 ^ 64

end Press

/-- The readings of a call for a key. -/
def Sample.readings (key : Key) (s : Sample) : Readings :=
  ((keyReadings key s.isPressed s.maps).map Prod.fst).getD ⟨false, false, false⟩

/-- Repeating: an event whenever 200 ms have accumulated since the last one. -/
def repeats (key : KeyData) : Nat → List Sample → List (List KeyData)
  | _, [] => []
  | since, s :: samples =>
    if 200000000 ≤ since + s.ns then [key] :: repeats key 0 samples
    else [] :: repeats key (since + s.ns) samples

/-- The events of the held samples, after a pressed time of `time` below 500 ms. -/
def heldEvents (key : KeyData) : Nat → List Sample → List (List KeyData)
  | _, [] => []
  | time, s :: samples =>
    if 500000000 ≤ time + s.ns then
      -- the sample at which the pressed time first reaches 500 ms
      if key.isEnter then [comboKey (s.readings key.key)] :: samples.map fun _ => []
      else if (s.readings key.key).enter then [] :: samples.map fun _ => []
      else [key] :: repeats key 0 samples
    else [] :: heldEvents key (time + s.ns) samples

/-- The events of a press: those of the held samples, and for a short press the key itself at
    the first released sample. -/
def Press.events (key : KeyData) (p : Press) : List (List KeyData) :=
  [] :: heldEvents key 0 p.held
    ++ (if p.time < 500000000 then [key] else []) :: p.idle.map fun _ => []

/-- Every sequence of samples is a released run, completed presses, and pressed samples. -/
theorem exists_presses (samples : List Sample) :
    ∃ (lead : List Sample) (presses : List Press) (tail : List Sample),
      samples = lead ++ presses.flatMap Press.samples ++ tail ∧
      (∀ s ∈ lead, s.isPressed = false) ∧ ∀ s ∈ tail, s.isPressed = true := by
  induction samples with
  | nil => exact ⟨[], [], [], by simp⟩
  | cons s samples ih =>
    obtain ⟨lead, presses, tail, rfl, hlead, htail⟩ := ih
    cases hs : s.isPressed with
    | false => exact ⟨s :: lead, presses, tail, by simp, by simpa [hs] using hlead, htail⟩
    | true =>
      cases lead with
      | cons r idle =>
        -- a new press, released with the first sample of what was the lead
        have hr : r.isPressed = false := hlead r List.mem_cons_self
        have hidle : ∀ t ∈ idle, t.isPressed = false :=
          fun t ht => hlead t (List.mem_cons_of_mem r ht)
        refine ⟨[], ⟨s, [], r, idle, hs, by simp, hr, hidle⟩ :: presses, tail, ?_, by simp, htail⟩
        simp [Press.samples]
      | nil =>
        cases presses with
        | nil => exact ⟨[], [], s :: tail, by simp, by simp, by simpa [hs] using htail⟩
        | cons p presses =>
          -- one more sample for the press that comes first
          have hheld : ∀ t ∈ p.first :: p.held, t.isPressed = true := by
            simpa [p.first_pressed] using p.held_pressed
          refine ⟨[], ⟨s, p.first :: p.held, p.release, p.idle, hs, hheld, p.release_released,
            p.idle_released⟩ :: presses, tail, ?_, by simp, htail⟩
          simp [Press.samples]

/-! ### Runs without the bitmaps -/

/-- The run of the switch alone, with the readings of each sample. -/
def advanceAll (context : KeyContext) : List Sample → List (List KeyData) × KeyContext
  | [] => ([], context)
  | s :: samples =>
    let step := context.advance (s.readings context.keyData.key) s.isPressed s.delta
    let rest := advanceAll step.2 samples
    (step.1 :: rest.1, rest.2)

/-- The switch does not touch the key. -/
@[simp] theorem advance_keyData (r : Readings) (isPressed : Bool) (delta : BitVec 64)
    (context : KeyContext) : (context.advance r isPressed delta).2.keyData = context.keyData := by
  unfold KeyContext.advance
  dsimp only
  split
  · split_ifs <;> rfl
  · split_ifs <;> rfl
  · rfl

/-- A call that has a result is a step of the switch. -/
theorem libKeyUpdateKeyStatus_eq {context : KeyContext} {s : Sample}
    {res : List KeyData × KeyContext × KeyMaps}
    (h : libKeyUpdateKeyStatus context s.maps s.isPressed s.delta = some res) :
    (res.1, res.2.1)
      = context.advance (s.readings context.keyData.key) s.isPressed s.delta := by
  unfold libKeyUpdateKeyStatus at h
  unfold Sample.readings
  cases hr : keyReadings context.keyData.key s.isPressed s.maps with
  | none => simp [hr] at h
  | some reading =>
    obtain rfl : _ = res := by simpa [hr] using h
    rfl

/-- **Partial correctness.**  A run that has a result is a run of the switch. -/
theorem run_eq {context : KeyContext} {samples : List Sample}
    {res : List (List KeyData) × KeyContext} (h : run context samples = some res) :
    res = advanceAll context samples := by
  induction samples generalizing context res with
  | nil => simpa [run, advanceAll, eq_comm] using h
  | cons s samples ih =>
    unfold run at h
    cases hcall : libKeyUpdateKeyStatus context s.maps s.isPressed s.delta with
    | none => simp [hcall] at h
    | some call =>
      obtain ⟨events, next, maps⟩ := call
      have hstep := libKeyUpdateKeyStatus_eq hcall
      cases hrest : run next samples with
      | none => simp [hcall, hrest] at h
      | some rest =>
        obtain rfl : _ = res := by simpa [hcall, hrest] using h
        rw [ih hrest, advanceAll, ← hstep]

/-- A key whose `KeySetState` stays inside the bitmaps can be recorded, and the readings lie
    inside the bitmaps. -/
theorem keyReadings_some {key : Key}
    (hin : unicodeTracked key = true → key.scanCode.toNat < 128) (isPressed : Bool)
    (maps : KeyMaps) : ∃ r maps', keyReadings key isPressed maps = some (r, maps') := by
  obtain ⟨m, hset, _⟩ := keySetState_spec key isPressed maps hin
  have hdown := keyGetState_spec ⟨scanDown, 0⟩ m (by decide)
  have hup := keyGetState_spec ⟨scanUp, 0⟩ m (by decide)
  have henter := keyGetState_spec ⟨0, charCarriageReturn⟩ m (by decide)
  exact ⟨_, m, by simp only [keyReadings, hset, hdown, hup, henter, Option.bind_eq_bind,
    Option.bind_some]; rfl⟩

/-- **Totality.**  Such a key always has a result. -/
theorem run_isSome {context : KeyContext} (hin : unicodeTracked context.keyData.key = true →
    context.keyData.key.scanCode.toNat < 128) (samples : List Sample) :
    (run context samples).isSome = true := by
  induction samples generalizing context with
  | nil => rfl
  | cons s samples ih =>
    obtain ⟨r, maps', hr⟩ := keyReadings_some hin s.isPressed s.maps
    have hcall : libKeyUpdateKeyStatus context s.maps s.isPressed s.delta
        = some ((context.advance r s.isPressed s.delta).1,
          (context.advance r s.isPressed s.delta).2, maps') := by
      simp [libKeyUpdateKeyStatus, hr]
    have hnext : (run (context.advance r s.isPressed s.delta).2 samples).isSome = true :=
      ih (by simpa using hin)
    obtain ⟨rest, hrest⟩ := Option.isSome_iff_exists.mp hnext
    simp [run, hcall, hrest]

theorem advanceAll_append (context : KeyContext) (samples samples' : List Sample) :
    advanceAll context (samples ++ samples')
      = ((advanceAll context samples).1 ++ (advanceAll (advanceAll context samples).2 samples').1,
        (advanceAll (advanceAll context samples).2 samples').2) := by
  induction samples generalizing context with
  | nil => rfl
  | cons s samples ih => simp [advanceAll, ih]

end HtcLeo.Keypad

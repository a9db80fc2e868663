import HtcLeo.Lib.Memory
import HtcLeo.Uefi

namespace HtcLeo.Touch

/-!
# TouchDxe — the touch screen

The entry points of `GPLDrivers/TouchDxe/TouchDxe.c` over the record of the device, `TOUCH_DEVICE`.

* `TouchDevice`, `TouchStatus` — the record, and the status it publishes.
* `PollInput` — what a poll finds: the interrupt line, and what is read over I2C.
* `tsPollReport` — reading a report; `PollInput.valid` is the report that passes all its checks.
* `tsPoll`, `tsGetStatus`, `tsAbsoluteGetState`, `tsAbsoluteReset`, `tsSimpleGetState`,
  `tsSimpleReset` — the entry points.
* `tsPollReport_valid`, `tsPollReport_invalid` — what a poll changes.
-/

/-! ### Reports -/

/-- The bytes of a report, `TS_REPORT_LEN` of them. -/
abbrev Report := Fin 9 → Byte

/-- `Buf[0]` of a report. -/
def Report.first (buf : Report) : Byte := buf 0

/-- `TS_WATERMARK`. -/
def tsWatermark : Byte := 0x5A

/-- `HTCLEO_TOUCH_X_MIN` and its siblings. -/
def touchXMin : U32 := 6
def touchXMax : U32 := 576
def touchYMin : U32 := 6
def touchYMax : U32 := 952

/-- The number of contacts in a report. -/
def Report.points (buf : Report) : U32 :=
  let points := ((buf 8).setWidth 32 >>> 1) &&& 3#32
  if 2#32 < points then 2#32 else points

/-- `X` of a report, a `UINT16`. -/
def Report.x (buf : Report) : BitVec 16 :=
  ((buf 2).setWidth 32 ||| (((buf 1).setWidth 32 >>> 4) &&& 0x0F#32) <<< 8).setWidth 16

/-- `Y` of a report, a `UINT16`. -/
def Report.y (buf : Report) : BitVec 16 :=
  ((buf 3).setWidth 32 ||| ((buf 1).setWidth 32 &&& 0x0F#32) <<< 8).setWidth 16

/-- `TsScale`. -/
def tsScale (value min max resolution : U32) : U32 :=
  if value ≤ min then 0
  else if max ≤ value then resolution - 1
  else (value - min) * (resolution - 1) / (max - min)

/-! ### The device -/

/-- `HTCLEO_TOUCH_STATUS`. -/
structure TouchStatus where
  version : U32
  controllerType : U32
  resolutionX : U32
  resolutionY : U32
  contacts : U32
  rawX : U32
  rawY : U32
  irqActive : Bool
  irqCount : BitVec 64
  reportCount : BitVec 64
  lastReportByInterrupt : Bool
  deriving DecidableEq

/-- `TOUCH_DEVICE`, as far as the entry points use it; `absoluteMaxX` and `absoluteMaxY` are
    those of `AbsoluteMode`. -/
structure TouchDevice where
  status : TouchStatus
  absoluteMaxX : BitVec 64
  absoluteMaxY : BitVec 64
  panelX : U32
  panelY : U32
  rawX : U32
  rawY : U32
  contacts : U32
  down : Bool
  ready : Bool
  announced : Bool
  byInterrupt : Bool
  lastX : U32
  lastY : U32

/-- What a poll finds: whether the interrupt line is low at first, and the bytes that
    `TsReadReport` stores, if the transfer succeeds. -/
structure PollInput where
  irqLow : Bool
  buf : Option Report

/-- What the functions read of the rest of the machine: the level of the interrupt line, and the
    interrupts counted by the SIRC driver, if there is one. -/
structure Lines where
  irqLow : Bool
  irqCount : Option (BitVec 64)

/-- The horizontal position on the panel. -/
def TouchDevice.scaleX (t : TouchDevice) (x : U32) : U32 :=
  tsScale x touchXMin touchXMax (t.absoluteMaxX.setWidth 32)

/-- The vertical position on the panel. -/
def TouchDevice.scaleY (t : TouchDevice) (y : U32) : U32 :=
  tsScale y touchYMin touchYMax (t.absoluteMaxY.setWidth 32)

/-- A report is taken over into the record. -/
def TouchDevice.take (t : TouchDevice) (buf : Report) : TouchDevice :=
  { t with
    rawX := buf.x.setWidth 32
    rawY := buf.y.setWidth 32
    contacts := buf.points
    down := buf.points != 0
    byInterrupt := t.announced
    announced := false
    panelX := t.scaleX (buf.x.setWidth 32)
    panelY := t.scaleY (buf.y.setWidth 32) }

/-- `TsPollReport`, on the record; the acknowledgement it ends with writes registers only. -/
def tsPollReport (i : PollInput) (t : TouchDevice) : EfiStatus × TouchDevice :=
  if !t.ready then (.notReady, t)
  else if !i.irqLow then (.notReady, t)
  else match i.buf with
    | none     => (.deviceError, t)
    | some buf => if buf 0 ≠ tsWatermark then (.deviceError, t) else (.success, t.take buf)

/-- `TsRefreshStatus`. -/
def tsRefreshStatus (l : Lines) (t : TouchDevice) : TouchDevice :=
  { t with
    status :=
      { t.status with
        controllerType := 3  -- `HTCLEO_TOUCH_TYPE_2A`
        resolutionX := t.absoluteMaxX.setWidth 32 + 1
        resolutionY := t.absoluteMaxY.setWidth 32 + 1
        contacts := t.contacts
        rawX := t.rawX
        rawY := t.rawY
        irqActive := l.irqLow
        irqCount := l.irqCount.getD 0
        lastReportByInterrupt := t.byInterrupt } }

/-- `TsPoll`. -/
def tsPoll (i : PollInput) (l : Lines) (t : TouchDevice) : EfiStatus × TouchDevice :=
  let (status, t) := tsPollReport i t
  let t :=
    if status = .success then
      { t with status := { t.status with reportCount := t.status.reportCount + 1 } }
    else t
  (status, tsRefreshStatus l t)

/-- `TsGetStatus`, for a `Status` that is not `NULL`. -/
def tsGetStatus (t : TouchDevice) : TouchStatus := t.status

/-- What the resets clear. -/
def TouchDevice.release (t : TouchDevice) : TouchDevice :=
  { t with down := false, announced := false, byInterrupt := false }

/-- The result of `TsEnableController`, which may fail to write the command. -/
def tsEnableController (written : Bool) : EfiStatus := if written then .success else .deviceError

/-- `TsAbsoluteReset`. -/
def tsAbsoluteReset (written : Bool) (t : TouchDevice) : EfiStatus × TouchDevice :=
  (tsEnableController written, t.release)

/-- `EFI_ABSOLUTE_POINTER_STATE`. -/
structure AbsoluteState where
  currentX : BitVec 64
  currentY : BitVec 64
  currentZ : BitVec 64
  activeButtons : U32

/-- `TsAbsoluteGetState`; `wanted` says that `State` is not `NULL`. -/
def tsAbsoluteGetState (i : PollInput) (wanted : Bool) (t : TouchDevice) :
    EfiStatus × Option AbsoluteState × TouchDevice :=
  let (status, t) := tsPollReport i t
  if status.isError && status != .notReady && !wanted then (status, none, t)
  else if !wanted then (.success, none, t)
  else
    (.success, some ⟨t.panelX.setWidth 64, t.panelY.setWidth 64, 0, if t.down then 1 else 0⟩, t)

/-- `TsSimpleReset`. -/
def tsSimpleReset (written : Bool) (t : TouchDevice) : EfiStatus × TouchDevice :=
  let t := { t with lastX := t.panelX, lastY := t.panelY }
  (tsEnableController written, t.release)

/-- `EFI_SIMPLE_POINTER_STATE`; the movements are `INT32`. -/
structure SimpleState where
  relativeMovementX : U32
  relativeMovementY : U32
  leftButton : Bool
  rightButton : Bool

/-- `TsSimpleGetState`; `wanted` says that `State` is not `NULL`. -/
def tsSimpleGetState (i : PollInput) (wanted : Bool) (t : TouchDevice) :
    EfiStatus × Option SimpleState × TouchDevice :=
  let (status, t) := tsPollReport i t
  if status.isError && status == .deviceError && !wanted then (status, none, t)
  else
    let x := t.panelX
    let y := t.panelY
    let state := if wanted then some ⟨x - t.lastX, y - t.lastY, t.down, false⟩ else none
    (.success, state, { t with lastX := x, lastY := y })

/-- The record after `TouchDxeInitialize`, on a screen of `panelX` by `panelY` pixels. -/
def touchDxeInitialize (panelX panelY : U32) (l : Lines) : TouchDevice :=
  tsRefreshStatus l
    { status := ⟨1, 0, 0, 0, 0, 0, 0, false, 0, 0, false⟩
      absoluteMaxX := (panelX - 1).setWidth 64
      absoluteMaxY := (panelY - 1).setWidth 64
      panelX := 0, panelY := 0, rawX := 0, rawY := 0, contacts := 0
      down := false, ready := true, announced := false, byInterrupt := false
      lastX := 0, lastY := 0 }

/-! ### What a poll changes -/

/-- The report that passes all checks of a poll. -/
def PollInput.valid (i : PollInput) (t : TouchDevice) : Option Report :=
  if t.ready && i.irqLow then i.buf.filter fun buf => buf 0 == tsWatermark else none

/-- A poll that finds a valid report takes it over. -/
theorem tsPollReport_valid {i : PollInput} {t : TouchDevice} {buf : Report}
    (h : i.valid t = some buf) : tsPollReport i t = (.success, t.take buf) := by
  unfold PollInput.valid at h
  split at h
  · next hlow =>
    obtain ⟨hready, hlow⟩ := Bool.and_eq_true_iff.mp hlow
    obtain ⟨hbuf, hmark⟩ := Option.filter_eq_some_iff.mp h
    simp only [beq_iff_eq] at hmark
    simp [tsPollReport, hready, hlow, hbuf, hmark]
  · exact absurd h (Option.some_ne_none buf).symm

/-- A poll that finds none fails, and changes nothing. -/
theorem tsPollReport_invalid {i : PollInput} {t : TouchDevice} (h : i.valid t = none) :
    (tsPollReport i t).1 ≠ .success ∧ (tsPollReport i t).2 = t := by
  unfold PollInput.valid at h
  unfold tsPollReport
  cases hready : t.ready with
  | false => simp
  | true =>
    cases hlow : i.irqLow with
    | false => simp
    | true =>
      rw [hready, hlow] at h
      cases hbuf : i.buf with
      | none => simp
      | some buf =>
        have hmark : buf 0 ≠ tsWatermark := by
          intro heq
          simp [hbuf, heq] at h
        simp [hmark]

/-- The record after a poll. -/
theorem tsPollReport_snd (i : PollInput) (t : TouchDevice) :
    (tsPollReport i t).2 = match i.valid t with
      | some buf => t.take buf
      | none     => t := by
  cases h : i.valid t with
  | some buf => rw [tsPollReport_valid h]
  | none     => exact (tsPollReport_invalid h).2

/-- `TsPoll` counts a valid report. -/
theorem tsPoll_valid {i : PollInput} {l : Lines} {t : TouchDevice} {buf : Report}
    (h : i.valid t = some buf) :
    (tsPoll i l t).2 = tsRefreshStatus l { t.take buf with
      status := { t.status with reportCount := t.status.reportCount + 1 } } := by
  unfold tsPoll
  rw [tsPollReport_valid h]
  rfl

/-- Without a valid report `TsPoll` refreshes the status only. -/
theorem tsPoll_invalid {i : PollInput} {l : Lines} {t : TouchDevice} (h : i.valid t = none) :
    (tsPoll i l t).2 = tsRefreshStatus l t := by
  obtain ⟨hstatus, hsame⟩ := tsPollReport_invalid h
  unfold tsPoll
  dsimp only
  rw [if_neg hstatus, hsame]

/-- `TsAbsoluteGetState` does what its poll does. -/
theorem tsAbsoluteGetState_dev (i : PollInput) (wanted : Bool) (t : TouchDevice) :
    (tsAbsoluteGetState i wanted t).2.2 = (tsPollReport i t).2 := by
  unfold tsAbsoluteGetState
  dsimp only
  split
  · rfl
  · split <;> rfl

/-- `TsSimpleGetState` does what its poll does, and may set the last position. -/
theorem tsSimpleGetState_dev (i : PollInput) (wanted : Bool) (t : TouchDevice) :
    ∃ lastX lastY, (tsSimpleGetState i wanted t).2.2
      = { (tsPollReport i t).2 with lastX := lastX, lastY := lastY } := by
  unfold tsSimpleGetState
  dsimp only
  split
  · exact ⟨_, _, rfl⟩
  · exact ⟨_, _, rfl⟩

/-- Where the state is wanted, `TsSimpleGetState` hands out the movement from the last
    position. -/
theorem tsSimpleGetState_wanted (i : PollInput) (t : TouchDevice) :
    tsSimpleGetState i true t =
      (.success,
        some ⟨(tsPollReport i t).2.panelX - (tsPollReport i t).2.lastX,
          (tsPollReport i t).2.panelY - (tsPollReport i t).2.lastY, (tsPollReport i t).2.down,
          false⟩,
        { (tsPollReport i t).2 with
          lastX := (tsPollReport i t).2.panelX, lastY := (tsPollReport i t).2.panelY }) := by
  simp [tsSimpleGetState]

end HtcLeo.Touch

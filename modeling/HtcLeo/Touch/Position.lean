import HtcLeo.Lib.Runs
import HtcLeo.Touch.Device
import Mathlib.Algebra.Group.Prod
import Mathlib.Algebra.BigOperators.Group.List.Basic

namespace HtcLeo.Touch

open Runs

/-!
# TouchDxe — positions over a history of calls

What the record of the device says about the reports that have been read, over every sequence of
calls of its entry points, with interrupts between them.

* `Call` — a call, with what it finds; `World` — the record with the history of the calls.
* `Decodes` — the readings of the record are those of the last valid report.
* `Telescopes`, `SumsUp` — the movements handed out since the last reset of the simple pointer
  sum up to the change of the panel position, as `INT32` and as numbers.
* `touch_positions` — this holds in every state of every run.
-/

/-! ### Histories -/

/-- A call of an entry point, or an interrupt of the touch screen. -/
inductive Call
  | interrupt
  | poll (i : PollInput) (l : Lines)
  | absoluteGetState (i : PollInput) (wanted : Bool)
  | absoluteReset (written : Bool)
  | simpleGetState (i : PollInput) (wanted : Bool)
  | simpleReset (written : Bool)

/-- The report a call reads that passes all checks. -/
def Call.valid (t : TouchDevice) : Call → Option Report
  | poll i _             => i.valid t
  | absoluteGetState i _ => i.valid t
  | simpleGetState i _   => i.valid t
  | _                    => none

/-- The call resets a pointer. -/
def Call.isReset : Call → Bool
  | absoluteReset _ => true
  | simpleReset _   => true
  | _               => false

/-- The record after a call; an interrupt announces a report. -/
def Call.exec (t : TouchDevice) : Call → TouchDevice
  | interrupt                 => { t with announced := true }
  | poll i l                  => (tsPoll i l t).2
  | absoluteGetState i wanted => (tsAbsoluteGetState i wanted t).2.2
  | absoluteReset written     => (tsAbsoluteReset written t).2
  | simpleGetState i wanted   => (tsSimpleGetState i wanted t).2.2
  | simpleReset written       => (tsSimpleReset written t).2

/-- The movement a call hands out. -/
def Call.movement (t : TouchDevice) : Call → Option (U32 × U32)
  | simpleGetState i wanted =>
      (tsSimpleGetState i wanted t).2.1.map fun st => (st.relativeMovementX, st.relativeMovementY)
  | _ => none

/-- The record, and what has happened: the valid reports, the latest first, each with whether an
    interrupt had announced it; whether there was a reset since the latest; the movements handed
    out since the last reset of the simple pointer; the panel position at that reset, and at the
    last `GetState` of the simple pointer since then. -/
structure World where
  dev : TouchDevice
  reports : List (Report × Bool)
  resetSince : Bool
  moves : List (U32 × U32)
  resetAt : U32 × U32
  seenAt : U32 × U32

/-- The panel position. -/
def TouchDevice.position (t : TouchDevice) : U32 × U32 := (t.panelX, t.panelY)

/-- The valid reports after a call. -/
def World.nextReports (w : World) (call : Call) : List (Report × Bool) :=
  match call.valid w.dev with
  | some buf => (buf, w.dev.announced) :: w.reports
  | none     => w.reports

/-- A call, and what it adds to the history. -/
def World.step (w : World) (call : Call) : World where
  dev := call.exec w.dev
  reports := w.nextReports call
  resetSince := (call.valid w.dev).isNone && (w.resetSince || call.isReset)
  moves := match call with
    | .simpleReset _ => []
    | _              => (call.movement w.dev).toList ++ w.moves
  resetAt := match call with
    | .simpleReset _ => (call.exec w.dev).position
    | _              => w.resetAt
  seenAt := match call with
    | .simpleReset _      => (call.exec w.dev).position
    | .simpleGetState _ _ => (call.exec w.dev).position
    | _                   => w.seenAt

/-- The world after the driver has started. -/
def World.start (panelX panelY : U32) (l : Lines) : World :=
  let dev := touchDxeInitialize panelX panelY l
  ⟨dev, [], false, [], dev.position, dev.position⟩

/-! ### The readings -/

/-- What the record says about the last report. -/
structure Readings where
  rawX : U32
  rawY : U32
  contacts : U32
  panelX : U32
  panelY : U32

/-- The readings of the record. -/
def TouchDevice.readings (t : TouchDevice) : Readings :=
  ⟨t.rawX, t.rawY, t.contacts, t.panelX, t.panelY⟩

/-- The readings that decode a report, on a screen whose last pixel is at `maxX`, `maxY`. -/
def Report.decode (maxX maxY : BitVec 64) (buf : Report) : Readings where
  rawX := buf.x.setWidth 32
  rawY := buf.y.setWidth 32
  contacts := buf.points
  panelX := tsScale (buf.x.setWidth 32) touchXMin touchXMax (maxX.setWidth 32)
  panelY := tsScale (buf.y.setWidth 32) touchYMin touchYMax (maxY.setWidth 32)

/-- The readings before any report. -/
def Readings.none : Readings := ⟨0, 0, 0, 0, 0⟩

/-- The readings are those of the last valid report, for a screen that does not change. -/
structure Decodes (maxX maxY : BitVec 64) (w : World) : Prop where
  limitX : w.dev.absoluteMaxX = maxX
  limitY : w.dev.absoluteMaxY = maxY
  readings : w.dev.readings
    = (w.reports.head?.map fun r => r.1.decode maxX maxY).getD Readings.none

/-- The record after the poll of a call. -/
def Call.taken (t : TouchDevice) (call : Call) : TouchDevice :=
  match call.valid t with
  | some buf => t.take buf
  | none     => t

/-- Apart from the poll, a call changes only the status, the flags, and the position that the
    simple pointer has seen last. -/
theorem exec_frame (t : TouchDevice) (call : Call) :
    ∃ status down announced byInterrupt lastX lastY,
      call.exec t = { call.taken t with
        status := status, down := down, announced := announced, byInterrupt := byInterrupt,
        lastX := lastX, lastY := lastY } := by
  cases call with
  | interrupt       => exact ⟨_, _, _, _, _, _, rfl⟩
  | absoluteReset _ => exact ⟨_, _, _, _, _, _, rfl⟩
  | simpleReset _   => exact ⟨_, _, _, _, _, _, rfl⟩
  | poll i l =>
    show ∃ status down announced byInterrupt lastX lastY, (tsPoll i l t).2 = _
    unfold Call.taken
    cases hvalid : i.valid t with
    | some buf =>
      rw [tsPoll_valid hvalid, show (Call.poll i l).valid t = some buf from hvalid]
      exact ⟨_, _, _, _, _, _, rfl⟩
    | none =>
      rw [tsPoll_invalid hvalid, show (Call.poll i l).valid t = none from hvalid]
      exact ⟨_, _, _, _, _, _, rfl⟩
  | absoluteGetState i wanted =>
    show ∃ status down announced byInterrupt lastX lastY, (tsAbsoluteGetState i wanted t).2.2 = _
    rw [tsAbsoluteGetState_dev, tsPollReport_snd]
    exact ⟨_, _, _, _, _, _, rfl⟩
  | simpleGetState i wanted =>
    show ∃ status down announced byInterrupt lastX lastY, (tsSimpleGetState i wanted t).2.2 = _
    obtain ⟨lastX, lastY, heq⟩ := tsSimpleGetState_dev i wanted t
    rw [heq, tsPollReport_snd]
    exact ⟨_, _, _, _, lastX, lastY, rfl⟩

/-- A call keeps the decoding. -/
theorem Decodes.step {maxX maxY : BitVec 64} {w : World} (h : Decodes maxX maxY w) (call : Call) :
    Decodes maxX maxY (w.step call) := by
  obtain ⟨status, down, announced, byInterrupt, lastX, lastY, hexec⟩ := exec_frame w.dev call
  have hdev : (w.step call).dev = call.exec w.dev := rfl
  have hreports : (w.step call).reports = w.nextReports call := rfl
  unfold Call.taken at hexec
  unfold World.nextReports at hreports
  cases hvalid : call.valid w.dev with
  | some buf =>
    rw [hvalid] at hexec hreports
    constructor
    · rw [hdev, hexec]
      exact h.limitX
    · rw [hdev, hexec]
      exact h.limitY
    · rw [hdev, hexec, hreports]
      show (w.dev.take buf).readings = buf.decode maxX maxY
      rw [← h.limitX, ← h.limitY]
      rfl
  | none =>
    rw [hvalid] at hexec hreports
    constructor
    · rw [hdev, hexec]
      exact h.limitX
    · rw [hdev, hexec]
      exact h.limitY
    · rw [hdev, hexec, hreports]
      exact h.readings

/-! ### The simple pointer -/

/-- The movements since the last reset of the simple pointer, added up as `INT32`, are the change
    of the panel position from that reset to the last `GetState`. -/
def Telescopes (w : World) : Prop := w.moves.sum = w.seenAt - w.resetAt

/-- A movement as numbers. -/
def signed (m : U32 × U32) : ℤ × ℤ := (m.1.toInt, m.2.toInt)

/-- A position as numbers. -/
def unsigned (p : U32 × U32) : ℤ × ℤ := (p.1.toNat, p.2.toNat)

/-- The same for the movements as numbers. -/
def SumsUp (w : World) : Prop := (w.moves.map signed).sum = unsigned w.seenAt - unsigned w.resetAt

/-- A position that is not negative as `INT32`. -/
def Small (p : U32 × U32) : Prop := p.1.toNat < 2 ^ 31 ∧ p.2.toNat < 2 ^ 31

/-- The state is wanted. -/
def Call.Wanted : Call → Prop
  | simpleGetState _ wanted => wanted = true
  | _                       => True

/-- The last position of the record is the one the simple pointer has seen. -/
def Seen (w : World) : Prop := (w.dev.lastX, w.dev.lastY) = w.seenAt

/-- A poll leaves the last position. -/
theorem tsPollReport_last (i : PollInput) (t : TouchDevice) :
    (tsPollReport i t).2.lastX = t.lastX ∧ (tsPollReport i t).2.lastY = t.lastY := by
  rw [tsPollReport_snd]
  split
  · exact ⟨rfl, rfl⟩
  · exact ⟨rfl, rfl⟩

/-- The movement handed out is the change of the position since it was last seen. -/
theorem movement_simpleGetState (i : PollInput) (t : TouchDevice) :
    (Call.simpleGetState i true).movement t
      = some (((Call.simpleGetState i true).exec t).position - (t.lastX, t.lastY)) := by
  obtain ⟨hx, hy⟩ := tsPollReport_last i t
  simp only [Call.movement, Call.exec, tsSimpleGetState_wanted, TouchDevice.position,
    Option.map_some, hx, hy]
  rfl

/-- `TsPoll` leaves it, too. -/
theorem tsPoll_last (i : PollInput) (l : Lines) (t : TouchDevice) :
    (tsPoll i l t).2.lastX = t.lastX ∧ (tsPoll i l t).2.lastY = t.lastY := by
  cases hvalid : i.valid t with
  | some buf =>
    rw [tsPoll_valid hvalid]
    exact ⟨rfl, rfl⟩
  | none =>
    rw [tsPoll_invalid hvalid]
    exact ⟨rfl, rfl⟩

/-- The calls that are not of the simple pointer leave what it has seen. -/
theorem step_other {w : World} {call : Call} (hget : ∀ i wanted, call ≠ .simpleGetState i wanted)
    (hreset : ∀ written, call ≠ .simpleReset written) (h : Seen w) :
    Seen (w.step call) ∧ (w.step call).moves = w.moves ∧ (w.step call).resetAt = w.resetAt ∧
      (w.step call).seenAt = w.seenAt := by
  unfold Seen at h ⊢
  cases call with
  | simpleGetState i wanted => exact absurd rfl (hget i wanted)
  | simpleReset written     => exact absurd rfl (hreset written)
  | interrupt               => exact ⟨h, rfl, rfl, rfl⟩
  | absoluteReset written   => exact ⟨h, rfl, rfl, rfl⟩
  | poll i l =>
    obtain ⟨hx, hy⟩ := tsPoll_last i l w.dev
    refine ⟨?_, rfl, rfl, rfl⟩
    show ((tsPoll i l w.dev).2.lastX, (tsPoll i l w.dev).2.lastY) = w.seenAt
    rw [hx, hy, h]
  | absoluteGetState i wanted =>
    obtain ⟨hx, hy⟩ := tsPollReport_last i w.dev
    refine ⟨?_, rfl, rfl, rfl⟩
    show ((tsAbsoluteGetState i wanted w.dev).2.2.lastX,
      (tsAbsoluteGetState i wanted w.dev).2.2.lastY) = w.seenAt
    rw [tsAbsoluteGetState_dev, hx, hy, h]

/-- A `GetState` hands out the change since the last one, and the position is seen. -/
theorem step_simpleGetState {w : World} (i : PollInput) (h : Seen w) :
    Seen (w.step (.simpleGetState i true)) ∧
      (w.step (.simpleGetState i true)).moves
        = ((w.step (.simpleGetState i true)).dev.position - w.seenAt) :: w.moves ∧
      (w.step (.simpleGetState i true)).resetAt = w.resetAt ∧
      (w.step (.simpleGetState i true)).seenAt
        = (w.step (.simpleGetState i true)).dev.position := by
  unfold Seen at h ⊢
  refine ⟨?_, ?_, rfl, rfl⟩
  · show ((tsSimpleGetState i true w.dev).2.2.lastX, (tsSimpleGetState i true w.dev).2.2.lastY)
      = (tsSimpleGetState i true w.dev).2.2.position
    rw [tsSimpleGetState_wanted]
    rfl
  · show ((Call.simpleGetState i true).movement w.dev).toList ++ w.moves = _
    rw [movement_simpleGetState, h]
    rfl

/-- A reset of the simple pointer starts over at the position of the record. -/
theorem step_simpleReset (w : World) (written : Bool) :
    Seen (w.step (.simpleReset written)) ∧
      (w.step (.simpleReset written)).moves = [] ∧
      (w.step (.simpleReset written)).resetAt = (w.step (.simpleReset written)).dev.position ∧
      (w.step (.simpleReset written)).seenAt = (w.step (.simpleReset written)).dev.position :=
  ⟨rfl, rfl, rfl, rfl⟩

/-- What a call does to the history of the simple pointer: nothing, one movement, or a new
    start. -/
theorem step_moves {w : World} {call : Call} (hwanted : call.Wanted) (h : Seen w) :
    Seen (w.step call) ∧
      (((w.step call).moves = w.moves ∧ (w.step call).resetAt = w.resetAt ∧
          (w.step call).seenAt = w.seenAt) ∨
        ((w.step call).moves = ((w.step call).dev.position - w.seenAt) :: w.moves ∧
          (w.step call).resetAt = w.resetAt ∧ (w.step call).seenAt = (w.step call).dev.position) ∨
        ((w.step call).moves = [] ∧ (w.step call).resetAt = (w.step call).dev.position ∧
          (w.step call).seenAt = (w.step call).dev.position)) := by
  by_cases hget : ∃ i wanted, call = .simpleGetState i wanted
  · obtain ⟨i, wanted, rfl⟩ := hget
    have hwanted : wanted = true := hwanted
    subst hwanted
    obtain ⟨hseen, hrest⟩ := step_simpleGetState i h
    exact ⟨hseen, .inr (.inl hrest)⟩
  · by_cases hreset : ∃ written, call = .simpleReset written
    · obtain ⟨written, rfl⟩ := hreset
      obtain ⟨hseen, hrest⟩ := step_simpleReset w written
      exact ⟨hseen, .inr (.inr hrest)⟩
    · obtain ⟨hseen, hrest⟩ := step_other (fun i wanted heq => hget ⟨i, wanted, heq⟩)
        (fun written heq => hreset ⟨written, heq⟩) h
      exact ⟨hseen, .inl hrest⟩

/-- A call keeps the sum of the movements. -/
theorem Telescopes.step {w : World} {call : Call} (hwanted : call.Wanted) (hseen : Seen w)
    (h : Telescopes w) : Telescopes (w.step call) := by
  unfold Telescopes at h ⊢
  obtain ⟨-, ⟨hmoves, hreset, hat⟩ | ⟨hmoves, hreset, hat⟩ | ⟨hmoves, hreset, hat⟩⟩ :=
    step_moves hwanted hseen
  · rw [hmoves, hreset, hat, h]
  · rw [hmoves, hreset, hat, List.sum_cons, h, sub_add_sub_cancel]
  · rw [hmoves, hreset, hat, List.sum_nil, sub_self]

/-! ### The movements as numbers -/

/-- The movement between two positions that are not negative is their difference. -/
theorem signed_sub {p q : U32 × U32} (hp : Small p) (hq : Small q) :
    signed (p - q) = unsigned p - unsigned q := by
  obtain ⟨px, py⟩ := p
  obtain ⟨qx, qy⟩ := q
  obtain ⟨hpx, hpy⟩ := hp
  obtain ⟨hqx, hqy⟩ := hq
  simp only at hpx hpy hqx hqy
  simp only [signed, unsigned, Prod.mk_sub_mk, Prod.mk.injEq, BitVec.toInt_eq_toNat_bmod,
    BitVec.toNat_sub, Int.bmod_def]
  constructor
  · omega
  · omega

/-- A scaled reading is not negative, on a screen with pixels beyond the first. -/
theorem tsScale_small {value min max resolution : U32} (hres : resolution ≠ 0)
    (hmax : resolution.toNat ≤ 2 ^ 31) (hrange : 2 ≤ (max - min).toNat) :
    (tsScale value min max resolution).toNat < 2 ^ 31 := by
  have hpos : resolution.toNat ≠ 0 := fun heq => hres (BitVec.eq_of_toNat_eq heq)
  unfold tsScale
  split
  · decide
  · split
    · rw [BitVec.toNat_sub]
      show (2 ^ 32 - 1 + resolution.toNat) % 2 ^ 32 < 2 ^ 31
      omega
    · rw [BitVec.toNat_udiv]
      have hprod := ((value - min) * (resolution - 1)).isLt
      have hhalf : ((value - min) * (resolution - 1)).toNat / (max - min).toNat
          ≤ ((value - min) * (resolution - 1)).toNat / 2 := Nat.div_le_div_left hrange (by omega)
      omega

/-- The origin is not negative. -/
theorem small_zero : Small (0, 0) := ⟨by decide, by decide⟩

/-- The limits leave room for the positions. -/
def Fits (maxX maxY : BitVec 64) : Prop :=
  (0 < maxX.toNat ∧ maxX.toNat ≤ 2 ^ 31) ∧ (0 < maxY.toNat ∧ maxY.toNat ≤ 2 ^ 31)

/-- The width of a limit that leaves room. -/
theorem limit_setWidth {m : BitVec 64} (hpos : 0 < m.toNat) (hle : m.toNat ≤ 2 ^ 31) :
    m.setWidth 32 ≠ 0 ∧ (m.setWidth 32).toNat ≤ 2 ^ 31 := by
  have hnat : (m.setWidth 32).toNat = m.toNat := by
    rw [BitVec.toNat_setWidth]
    omega
  constructor
  · intro heq
    rw [heq] at hnat
    exact absurd hnat.symm (by show m.toNat ≠ 0; omega)
  · omega

/-- The position of the record is that of a report, or the origin; it is not negative. -/
theorem Decodes.small {maxX maxY : BitVec 64} {w : World} (h : Decodes maxX maxY w)
    (hfits : Fits maxX maxY) : Small w.dev.position := by
  obtain ⟨⟨hposX, hleX⟩, hposY, hleY⟩ := hfits
  obtain ⟨hneX, hleX⟩ := limit_setWidth hposX hleX
  obtain ⟨hneY, hleY⟩ := limit_setWidth hposY hleY
  have hx : w.dev.panelX = _ := congrArg Readings.panelX h.readings
  have hy : w.dev.panelY = _ := congrArg Readings.panelY h.readings
  unfold Small TouchDevice.position
  rw [hx, hy]
  cases w.reports.head? with
  | none => exact small_zero
  | some r => exact ⟨tsScale_small hneX hleX (by decide), tsScale_small hneY hleY (by decide)⟩

/-- A call keeps the sum of the movements as numbers. -/
theorem SumsUp.step {maxX maxY : BitVec 64} {w : World} {call : Call} (hwanted : call.Wanted)
    (hseen : Seen w) (hdecodes : Decodes maxX maxY w) (hfits : Fits maxX maxY)
    (hsmall : Small w.seenAt) (h : SumsUp w) :
    SumsUp (w.step call) ∧ Small (w.step call).seenAt := by
  unfold SumsUp at h ⊢
  have hnext : Small (w.step call).dev.position := (hdecodes.step call).small hfits
  obtain ⟨-, ⟨hmoves, hreset, hat⟩ | ⟨hmoves, hreset, hat⟩ | ⟨hmoves, hreset, hat⟩⟩ :=
    step_moves hwanted hseen
  · rw [hmoves, hreset, hat, h]
    exact ⟨rfl, hsmall⟩
  · rw [hmoves, hreset, hat, List.map_cons, List.sum_cons, h, signed_sub hnext hsmall,
      sub_add_sub_cancel]
    exact ⟨rfl, hnext⟩
  · rw [hmoves, hreset, hat, List.map_nil, List.sum_nil, sub_self]
    exact ⟨rfl, hnext⟩

/-! ### Every run -/

/-- A property that every wanted call keeps holds all along a run of wanted calls. -/
theorem always_of_wanted {P : World → Prop}
    (hstep : ∀ w call, P w → call.Wanted → P (w.step call)) {w : World} (hw : P w)
    {calls : List Call} (hwanted : ∀ call ∈ calls, call.Wanted) :
    Always World.step P w calls := by
  induction calls generalizing w with
  | nil => exact hw
  | cons call calls ih =>
    obtain ⟨hcall, hrest⟩ := List.forall_mem_cons.mp hwanted
    exact ⟨hw, ih (hstep w call hw hcall) hrest⟩

/-- The driver starts at the origin, without a report. -/
theorem decodes_start (panelX panelY : U32) (l : Lines) :
    Decodes ((panelX - 1).setWidth 64) ((panelY - 1).setWidth 64)
      (World.start panelX panelY l) :=
  ⟨rfl, rfl, rfl⟩

/-- The limits of a screen of at least two and at most `2 ^ 31` pixels leave room. -/
theorem fits_screen {panelX panelY : U32} (hx : 2 ≤ panelX.toNat ∧ panelX.toNat ≤ 2 ^ 31)
    (hy : 2 ≤ panelY.toNat ∧ panelY.toNat ≤ 2 ^ 31) :
    Fits ((panelX - 1).setWidth 64) ((panelY - 1).setWidth 64) := by
  have hlimit : ∀ p : U32, 2 ≤ p.toNat ∧ p.toNat ≤ 2 ^ 31 →
      0 < ((p - 1).setWidth 64).toNat ∧ ((p - 1).setWidth 64).toNat ≤ 2 ^ 31 := by
    intro p hp
    have hone : (1 : U32).toNat = 1 := rfl
    rw [BitVec.toNat_setWidth, BitVec.toNat_sub, hone]
    omega
  exact ⟨hlimit panelX hx, hlimit panelY hy⟩

/-- **The position.**  For every sequence of calls, with interrupts between them and every outcome
    of the checks, the readings are those of the last report that passed them all, and the
    movements handed out since the last reset of the simple pointer sum up to the change of the
    panel position; this is so for the `INT32` movements, and for the numbers they stand for
    unless the screen has only one pixel, or more than `2 ^ 31`, in a direction. -/
theorem touch_positions (panelX panelY : U32) (l : Lines) (calls : List Call)
    (hwanted : ∀ call ∈ calls, call.Wanted) :
    Always World.step
        (fun w => Decodes ((panelX - 1).setWidth 64) ((panelY - 1).setWidth 64) w ∧ Telescopes w)
        (World.start panelX panelY l) calls ∧
      ((2 ≤ panelX.toNat ∧ panelX.toNat ≤ 2 ^ 31) → (2 ≤ panelY.toNat ∧ panelY.toNat ≤ 2 ^ 31) →
        Always World.step SumsUp (World.start panelX panelY l) calls) := by
  constructor
  · have halways : Always World.step
        (fun w => (Decodes ((panelX - 1).setWidth 64) ((panelY - 1).setWidth 64) w ∧
          Telescopes w) ∧ Seen w) (World.start panelX panelY l) calls := by
      refine always_of_wanted (fun w call ⟨⟨hdecodes, htele⟩, hseen⟩ hcall => ?_)
        ⟨⟨decodes_start panelX panelY l, (sub_self _).symm⟩, rfl⟩ hwanted
      exact ⟨⟨hdecodes.step call, htele.step hcall hseen⟩, (step_moves hcall hseen).1⟩
    exact halways.mono fun w h => h.1
  · intro hx hy
    have hfits := fits_screen hx hy
    have halways : Always World.step
        (fun w => SumsUp w ∧ Small w.seenAt ∧ Seen w ∧
          Decodes ((panelX - 1).setWidth 64) ((panelY - 1).setWidth 64) w)
        (World.start panelX panelY l) calls := by
      refine always_of_wanted (fun w call ⟨hsum, hsmall, hseen, hdecodes⟩ hcall => ?_)
        ⟨(sub_self _).symm, small_zero, rfl, decodes_start panelX panelY l⟩ hwanted
      obtain ⟨hsum, hsmall⟩ := hsum.step hcall hseen hdecodes hfits hsmall
      exact ⟨hsum, hsmall, (step_moves hcall hseen).1, hdecodes.step call⟩
    exact halways.mono fun w h => h.1

/-- A finger at the far corner of the controller. -/
def cornerReport : Report := fun i => [0x5A, 0x23, 0x40, 0xB8, 0, 0, 0, 0, 2].getD i 0

/-- The corner is polled, and the simple pointer reads it. -/
theorem touch_positions_corner :
    Always World.step SumsUp (World.start 480 800 ⟨false, none⟩)
      [.interrupt, .poll ⟨true, some cornerReport⟩ ⟨true, none⟩,
        .simpleGetState ⟨false, none⟩ true, .simpleReset true] :=
  (touch_positions 480 800 ⟨false, none⟩ _ (by simp [Call.Wanted])).2
    ⟨by decide, by decide⟩ ⟨by decide, by decide⟩

end HtcLeo.Touch

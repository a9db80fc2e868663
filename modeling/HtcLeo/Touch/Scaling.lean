import HtcLeo.Touch.Device

namespace HtcLeo.Touch

/-!
# TouchDxe — from raw to panel coordinates

What `TsPollReport` stores in `PanelX` and `PanelY` for the raw coordinates of a report.  It passes
`AbsoluteMaxX` and `AbsoluteMaxY`, the greatest coordinates, where `TsScale` expects a resolution.

* `scaled` — `TsScale` in unbounded arithmetic; `tsScale_toNat` says where the code computes it.
* `ScalesRight` — the stored coordinate is monotone, in range, and reaches both ends of the panel.
* `scalesRight_iff` — it does so exactly below the maximum of the controller.
-/

/-- The two coordinates. -/
inductive Axis
  | x | y
  deriving DecidableEq

namespace Axis

/-- The raw coordinate of a report. -/
def raw (buf : Report) : Axis → Nat
  | .x => buf.x.toNat
  | .y => buf.y.toNat

/-- `PanelX` or `PanelY`. -/
def panel (t : TouchDevice) : Axis → U32
  | .x => t.panelX
  | .y => t.panelY

/-- `AbsoluteMaxX` or `AbsoluteMaxY`. -/
def absoluteMax (t : TouchDevice) : Axis → BitVec 64
  | .x => t.absoluteMaxX
  | .y => t.absoluteMaxY

/-- The least raw coordinate of the controller. -/
def rawMin : Axis → Nat
  | .x => touchXMin.toNat
  | .y => touchYMin.toNat

/-- The greatest raw coordinate of the controller. -/
def rawMax : Axis → Nat
  | .x => touchXMax.toNat
  | .y => touchYMax.toNat

end Axis

/-! ### The scaling -/

/-- `TsScale`, in unbounded arithmetic. -/
def scaled (value min max resolution : Nat) : Nat :=
  if value ≤ min then 0
  else if max ≤ value then resolution - 1
  else (value - min) * (resolution - 1) / (max - min)

/-- The scaling is monotone. -/
theorem scaled_mono {value value' min max : Nat} (hlt : min < max) (h : value ≤ value')
    (resolution : Nat) :
    scaled value min max resolution ≤ scaled value' min max resolution := by
  unfold scaled
  by_cases hmin : value ≤ min
  · rw [if_pos hmin]
    exact Nat.zero_le _
  · rw [if_neg hmin, if_neg (show ¬ value' ≤ min by omega)]
    by_cases hmax : max ≤ value
    · rw [if_pos hmax, if_pos (show max ≤ value' by omega)]
    · rw [if_neg hmax]
      split
      · -- below the maximum the quotient is not more than `resolution - 1`
        refine Nat.div_le_of_le_mul ?_
        exact Nat.mul_le_mul_right _ (by omega)
      · exact Nat.div_le_div_right (Nat.mul_le_mul_right _ (by omega))

/-- Where the greatest product fits 32 bits, the code computes it. -/
theorem tsScale_toNat {value min max resolution : U32} (hres : resolution ≠ 0)
    (hlt : min.toNat < max.toNat)
    (hfit : (max.toNat - min.toNat) * (resolution.toNat - 1) < 2 ^ 32) :
    (tsScale value min max resolution).toNat
      = scaled value.toNat min.toNat max.toNat resolution.toNat := by
  have hres' : resolution.toNat ≠ 0 := by
    rw [ne_eq, ← BitVec.toNat_inj] at hres
    exact hres
  have hpred : (resolution - 1).toNat = resolution.toNat - 1 := by
    have := resolution.isLt
    rw [BitVec.toNat_sub, show (1 : U32).toNat = 1 from rfl]
    omega
  simp only [tsScale, scaled, BitVec.le_def]
  by_cases hmin : value.toNat ≤ min.toNat
  · rw [if_pos hmin, if_pos hmin]
    rfl
  · rw [if_neg hmin, if_neg hmin]
    by_cases hmax : max.toNat ≤ value.toNat
    · rw [if_pos hmax, if_pos hmax, hpred]
    · rw [if_neg hmax, if_neg hmax]
      have hdiff : (value - min).toNat = value.toNat - min.toNat :=
        BitVec.toNat_sub_of_le (by rw [BitVec.le_def]; omega)
      have hspan : (max - min).toNat = max.toNat - min.toNat :=
        BitVec.toNat_sub_of_le (by rw [BitVec.le_def]; omega)
      have hprod : (value.toNat - min.toNat) * (resolution.toNat - 1) < 2 ^ 32 :=
        lt_of_le_of_lt (Nat.mul_le_mul_right _ (by omega)) hfit
      rw [BitVec.toNat_udiv, BitVec.toNat_mul, hdiff, hspan, hpred, Nat.mod_eq_of_lt hprod]

/-! ### The stored coordinate -/

/-- The coordinate that is stored for a report. -/
def coordinate (axis : Axis) (t : TouchDevice) (buf : Report) : Nat :=
  (axis.panel (t.take buf)).toNat

/-- The coordinate of a report is scaled as it should be. -/
structure ScalesRight (axis : Axis) (t : TouchDevice) (buf : Report) : Prop where
  monotone : ∀ buf', axis.raw buf' ≤ axis.raw buf →
    coordinate axis t buf' ≤ coordinate axis t buf
  inRange : coordinate axis t buf ≤ (axis.absoluteMax t).toNat
  atMin : axis.raw buf ≤ axis.rawMin → coordinate axis t buf = 0
  atMax : axis.rawMax ≤ axis.raw buf → coordinate axis t buf = (axis.absoluteMax t).toNat
  /-- The 32-bit computation is the unbounded one. -/
  noOverflow : coordinate axis t buf
    = scaled (axis.raw buf) axis.rawMin axis.rawMax (axis.absoluteMax t).toNat

section

variable {axis : Axis} {t : TouchDevice} {size : Nat} (hpos : 2 ≤ size) (hsize : size ≤ 65536)
  (hmax : (axis.absoluteMax t).toNat = size - 1)

include hpos hsize hmax

/-- The coordinate is the raw one scaled to `size - 1` pixels. -/
theorem coordinate_eq (buf : Report) :
    coordinate axis t buf = scaled (axis.raw buf) axis.rawMin axis.rawMax (size - 1) := by
  have hscale : ∀ (value : BitVec 16) {min max : U32}, min.toNat < max.toNat →
      max.toNat - min.toNat < 2 ^ 10 →
      (tsScale (value.setWidth 32) min max ((axis.absoluteMax t).setWidth 32)).toNat
        = scaled value.toNat min.toNat max.toNat (size - 1) := by
    intro value min max hlt hspan
    have hvalue : (value.setWidth 32).toNat = value.toNat := by
      have := value.isLt
      rw [BitVec.toNat_setWidth]
      omega
    have hres : ((axis.absoluteMax t).setWidth 32).toNat = size - 1 := by
      rw [BitVec.toNat_setWidth, hmax]
      omega
    have hne : (axis.absoluteMax t).setWidth 32 ≠ (0 : U32) := by
      rw [ne_eq, ← BitVec.toNat_inj, hres]
      show ¬ size - 1 = 0
      omega
    have hfit : (max.toNat - min.toNat) * (size - 1 - 1) ≤ 2 ^ 10 * 2 ^ 16 :=
      Nat.mul_le_mul (by omega) (by omega)
    rw [tsScale_toNat hne hlt (by rw [hres]; omega), hvalue, hres]
  cases axis with
  | x => exact hscale buf.x (by decide) (by decide)
  | y => exact hscale buf.y (by decide) (by decide)

/-- All but the last column holds for every report. -/
theorem scalesRight_of_atMax {buf : Report}
    (hend : axis.rawMax ≤ axis.raw buf → coordinate axis t buf = (axis.absoluteMax t).toNat) :
    ScalesRight axis t buf := by
  have hlt : axis.rawMin < axis.rawMax := by
    cases axis with
    | x => decide
    | y => decide
  refine ⟨fun buf' h => ?_, ?_, fun h => ?_, hend, ?_⟩
  · rw [coordinate_eq hpos hsize hmax, coordinate_eq hpos hsize hmax]
    exact scaled_mono hlt h _
  · -- not more than the coordinate at the maximum, `size - 2`
    rw [coordinate_eq hpos hsize hmax, hmax]
    have hmono := scaled_mono hlt (Nat.le_max_left (axis.raw buf) axis.rawMax) (size - 1)
    refine hmono.trans ?_
    unfold scaled
    rw [if_neg (by omega), if_pos (by omega)]
    omega
  · rw [coordinate_eq hpos hsize hmax, scaled, if_pos h]
  · rw [coordinate_eq hpos hsize hmax, hmax]

/-- At the maximum of the controller the coordinate is one short of the last. -/
theorem coordinate_atMax {buf : Report} (h : axis.rawMax ≤ axis.raw buf) :
    coordinate axis t buf = size - 2 := by
  have hlt : axis.rawMin < axis.rawMax := by
    cases axis with
    | x => decide
    | y => decide
  rw [coordinate_eq hpos hsize hmax, scaled, if_neg (by omega), if_pos h]
  omega

end

/-- **Coordinate scaling.**  On every panel, the stored coordinate of a report is right exactly
    where the raw coordinate is below the maximum of the controller. -/
theorem scalesRight_iff (axis : Axis) (t : TouchDevice) (size : Nat) (hpos : 2 ≤ size)
    (hsize : size ≤ 65536) (hmax : (axis.absoluteMax t).toNat = size - 1) (buf : Report) :
    ScalesRight axis t buf ↔ axis.raw buf < axis.rawMax := by
  constructor
  · intro h
    by_contra hge
    have hend := h.atMax (by omega)
    rw [coordinate_atMax hpos hsize hmax (by omega), hmax] at hend
    omega
  · intro hlt
    exact scalesRight_of_atMax hpos hsize hmax fun hge => by omega

/-- The panel of the device, and a report of a touch in its middle. -/
theorem scalesRight_middle :
    ScalesRight .x (touchDxeInitialize 480 800 ⟨false, none⟩)
      (fun i => [0x5A, 0x11, 0x23, 0xDC, 0, 0, 0, 0, 2].getD i 0) :=
  (scalesRight_iff .x (touchDxeInitialize 480 800 ⟨false, none⟩) 480 (by decide) (by decide) rfl
    (fun i => [0x5A, 0x11, 0x23, 0xDC, 0, 0, 0, 0, 2].getD i 0)).mpr (by decide)

/-- A report of a touch at the right edge, raw 576: stored as 478, one short of `AbsoluteMaxX`. -/
theorem rightEdge_not_reached :
    ¬ ScalesRight .x (touchDxeInitialize 480 800 ⟨false, none⟩)
      (fun i => [0x5A, 0x21, 0x40, 0xDC, 0, 0, 0, 0, 2].getD i 0) := by
  intro h
  have hmax : (Axis.absoluteMax (touchDxeInitialize 480 800 ⟨false, none⟩) .x).toNat = 480 - 1 :=
    rfl
  have hend := h.atMax (by decide)
  rw [coordinate_atMax (by decide) (by decide) hmax (by decide), hmax] at hend
  exact absurd hend (by decide)

end HtcLeo.Touch

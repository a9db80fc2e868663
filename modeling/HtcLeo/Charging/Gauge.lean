import HtcLeo.Lib.Memory
import HtcLeo.Lib.SignedWord
import HtcLeo.Uefi

namespace HtcLeo.Charging

open SignedWord

/-!
# DS2746Lib — the battery gauge

The readings of `Library/DS2746Lib/DS2746.c`, from the bytes that are in `s0` and `s1` after the
two reads; what the reads return is not looked at.

* `ds2746Voltage`, `ds2746Current`, `ds2745Temperature` — the functions of the library.
* `join` — the two bytes as current and temperature take them, the lower one with a sign.
* `gauge_iff` — for which bytes and resistances they give what the registers say.
-/

/-! ### The functions -/

/-- `DS2746_VOLTAGE_RES`. -/
def ds2746VoltageRes : U32 := 2440
/-- `DS2746_CURRENT_ACCUM_RES`. -/
def ds2746CurrentAccumRes : U32 := 645
/-- `DS2745_TEMPERATURE_RES`. -/
def ds2745TemperatureRes : U32 := 125

/-- `ds2746_voltage`. -/
def ds2746Voltage (s0 s1 : Byte) : U32 :=
  let vol : U32 := s0.setWidth 32 <<< 8
  let vol := vol ||| s1.setWidth 32
  (vol >>> 4) * ds2746VoltageRes / 1000

/-- `cur = s0 << 8; cur |= s1;`, with two bytes of type `int8_t`. -/
def join (s0 s1 : Byte) : BitVec 16 :=
  let cur : BitVec 16 := (s0.signExtend 32 <<< 8).setWidth 16
  (cur.signExtend 32 ||| s1.signExtend 32).setWidth 16

/-- `ds2746_current`. -/
def ds2746Current (s0 s1 : Byte) (resistance : BitVec 16) : BitVec 16 :=
  let cur := join s0 s1
  (((cur.signExtend 32).sshiftRight 2 * ds2746CurrentAccumRes).sdiv
    (resistance.setWidth 32)).setWidth 16

/-- `ds2745_temperature`. -/
def ds2745Temperature (s0 s1 : Byte) : BitVec 16 :=
  let temp := join s0 s1
  ((temp.signExtend 32).sshiftRight 5 * ds2745TemperatureRes).setWidth 16

/-! ### What the registers say -/

/-- The signed number `MSB:LSB`. -/
def register (s0 s1 : Byte) : Int := (s0 ++ s1).toInt

/-- The current, in unbounded integers. -/
def currentOf (v : Int) (resistance : BitVec 16) : Int := (v / 4 * 645).tdiv resistance.toNat

/-- The temperature. -/
def temperatureOf (v : Int) : Int := v / 32 * 125

/-- The current is that of the registers, saturated where it does not fit. -/
def CurrentRight (s0 s1 : Byte) (resistance : BitVec 16) : Prop :=
  (ds2746Current s0 s1 resistance).toInt = saturate 32768 (currentOf (register s0 s1) resistance)

/-- And so is the temperature. -/
def TemperatureRight (s0 s1 : Byte) : Prop :=
  (ds2745Temperature s0 s1).toInt = saturate 32768 (temperatureOf (register s0 s1))

/-! ### What the code computes -/

/-- The voltage is that of the register, without its lowest four bits. -/
theorem ds2746Voltage_toNat (s0 s1 : Byte) :
    (ds2746Voltage s0 s1).toNat = (s0 ++ s1).toNat / 16 * 2440 / 1000 := by
  have hvol : (s0.setWidth 32 <<< 8 ||| s1.setWidth 32 : U32).toNat = (s0 ++ s1).toNat := by
    have hs0 := s0.isLt
    have hs1 := s1.isLt
    have hshift : s0.toNat <<< 8 = s0.toNat * 256 := Nat.shiftLeft_eq _ _
    rw [BitVec.toNat_or, BitVec.toNat_shiftLeft, BitVec.toNat_setWidth, BitVec.toNat_setWidth,
      BitVec.toNat_append, Nat.mod_eq_of_lt (by omega : s0.toNat < 2 ^ 32),
      Nat.mod_eq_of_lt (by omega), Nat.mod_eq_of_lt (by omega : s1.toNat < 2 ^ 32)]
  have hlt := (s0 ++ s1).isLt
  show ((s0.setWidth 32 <<< 8 ||| s1.setWidth 32 : U32) >>> 4 * ds2746VoltageRes / 1000).toNat = _
  rw [BitVec.toNat_udiv, BitVec.toNat_mul, BitVec.toNat_ushiftRight, hvol,
    Nat.shiftRight_eq_div_pow]
  show _ * 2440 % _ / 1000 = _
  rw [Nat.mod_eq_of_lt (by omega)]

theorem join_eq (s0 s1 : Byte) : join s0 s1 = (s0 ++ 0#8) ||| s1.signExtend 16 := by
  have happend : ∀ i (hi : i < 16), (s0 ++ 0#8)[i] =
      if h : i < 8 then (0#8)[i] else s0[i - 8] := fun i hi => BitVec.getElem_append hi
  unfold join
  ext i hi
  have h32 : i < 32 := by omega
  rw [BitVec.getElem_or, happend i hi]
  by_cases hlow : i < 8
  · simp [BitVec.getElem_signExtend, BitVec.getLsbD_signExtend, hi, h32, hlow]
  · have hhigh : i - 8 < 8 := by omega
    have h32' : i - 8 < 32 := by omega
    simp [BitVec.getElem_signExtend, hi, h32, hlow, h32', hhigh]

/-- The sign of the lower byte is the sign of both. -/
theorem join_toInt (s0 s1 : Byte) :
    (join s0 s1).toInt = if s1.msb then s1.toInt else register s0 s1 := by
  rw [join_eq, append_or_signExtend s0 s1]
  split
  · exact BitVec.toInt_signExtend_of_le (by decide)
  · rfl

/-- A result that is returned as an `int16_t`. -/
theorem toInt_cut (x : BitVec 32) : (x.setWidth 16).toInt = x.toInt.bmod (2 * 32768) := by
  rw [BitVec.toInt_setWidth, BitVec.toInt_eq_toNat_bmod]
  exact (Int.bmod_bmod_of_dvd (by decide)).symm

/-- A number of 16 bits, shifted and scaled, fits in 32. -/
theorem toInt_scaled (x : BitVec 16) {n : Nat} {scale : U32} {c : Int} (hscale : scale.toInt = c)
    (hc : 0 ≤ c ∧ c ≤ 645) :
    ((x.signExtend 32).sshiftRight n * scale).toInt = x.toInt / 2 ^ n * c := by
  have hlow : -32768 ≤ x.toInt := BitVec.le_toInt x
  have hhigh : x.toInt < 32768 := BitVec.toInt_lt
  have hpow : (1 : Int) ≤ 2 ^ n := Int.pow_pos (by decide)
  have hlow' : -32768 ≤ x.toInt / 2 ^ n := (Int.le_ediv_iff_mul_le hpow).mpr (by omega)
  have hhigh' : x.toInt / 2 ^ n ≤ 32768 := Int.ediv_le_of_le_mul hpow (by omega)
  have hlow'' : -32768 * c ≤ x.toInt / 2 ^ n * c := Int.mul_le_mul_of_nonneg_right hlow' hc.1
  have hhigh'' : x.toInt / 2 ^ n * c ≤ 32768 * c := Int.mul_le_mul_of_nonneg_right hhigh' hc.1
  rw [BitVec.toInt_mul, BitVec.toInt_sshiftRight, BitVec.toInt_signExtend_of_le (by decide),
    Int.shiftRight_eq_div_pow, hscale]
  push_cast
  exact Int.bmod_eq_of_le (by omega) (by omega)

theorem ds2746Current_toInt (s0 s1 : Byte) (resistance : BitVec 16) :
    (ds2746Current s0 s1 resistance).toInt
      = (currentOf (join s0 s1).toInt resistance).bmod (2 * 32768) := by
  have hresistance : (resistance.setWidth 32).toInt = resistance.toNat := by
    have hlt := resistance.isLt
    rw [BitVec.toInt_setWidth]
    exact Int.bmod_eq_of_le (by omega) (by omega)
  show ((((join s0 s1).signExtend 32).sshiftRight 2 * ds2746CurrentAccumRes).sdiv
    (resistance.setWidth 32) |>.setWidth 16).toInt = _
  rw [toInt_cut, BitVec.toInt_sdiv, toInt_scaled _ rfl (by decide), hresistance]
  exact Int.bmod_bmod_of_dvd (by decide)

theorem ds2745Temperature_toInt (s0 s1 : Byte) :
    (ds2745Temperature s0 s1).toInt = (temperatureOf (join s0 s1).toInt).bmod (2 * 32768) := by
  show ((((join s0 s1).signExtend 32).sshiftRight 5 * ds2745TemperatureRes).setWidth 16).toInt = _
  rw [toInt_cut, toInt_scaled _ rfl (by decide)]
  rfl

/-! ### Right readings -/

/-- The sign of the lower byte does no harm. -/
def SignHarmless (s0 s1 : Byte) : Prop := s1.msb = false ∨ s0 = 0xff

theorem register_eq (s0 s1 : Byte) : register s0 s1 = 256 * s0.toInt + s1.toNat :=
  BitVec.toInt_append

theorem join_harmless {s0 s1 : Byte} (h : SignHarmless s0 s1) :
    (join s0 s1).toInt = register s0 s1 := by
  rw [join_toInt]
  split
  · next hmsb =>
    obtain rfl := h.resolve_left (by simp [hmsb])
    rw [register_eq, BitVec.toInt_eq_msb_cond, if_pos hmsb, show (0xff : Byte).toInt = -1 by decide]
    omega
  · rfl

/-- Where it does, the two bytes are the lower one, and wrong by a multiple of 256. -/
theorem join_harmed {s0 s1 : Byte} (h : ¬ SignHarmless s0 s1) :
    ∃ k : Int, k ≠ 0 ∧ -127 ≤ k ∧ k ≤ 128 ∧ -128 ≤ (join s0 s1).toInt ∧ (join s0 s1).toInt < 0 ∧
      register s0 s1 = 256 * k + (join s0 s1).toInt := by
  obtain ⟨hmsb, hff⟩ := not_or.mp h
  have hlow : -128 ≤ s0.toInt := BitVec.le_toInt s0
  have hhigh : s0.toInt < 128 := BitVec.toInt_lt
  have hlt := s1.isLt
  have hs1 := BitVec.toInt_eq_msb_cond s1
  rw [Bool.not_eq_false] at hmsb
  rw [if_pos hmsb] at hs1
  have hs1' : s1.toInt < 0 := BitVec.toInt_neg_of_msb_true hmsb
  have hs1'' : -128 ≤ s1.toInt := BitVec.le_toInt s1
  have hne : s0.toInt ≠ -1 := fun heq => hff (BitVec.toInt_inj.mp (heq.trans (by decide)))
  rw [join_toInt, if_pos hmsb, register_eq]
  exact ⟨s0.toInt + 1, by omega, by omega, by omega, hs1'', hs1', by omega⟩

theorem register_bounds (s0 s1 : Byte) : -32768 ≤ register s0 s1 ∧ register s0 s1 < 32768 :=
  ⟨BitVec.le_toInt (s0 ++ s1), BitVec.toInt_lt⟩

/-- A number that is in range, or becomes the nearest one in range by accident when it is cut. -/
def CutRight (x : Int) : Prop :=
  (-32768 ≤ x ∧ x < 32768) ∨ (32768 ≤ x ∧ x % 65536 = 32767) ∨ (x < -32768 ∧ x % 65536 = 32768)

/-- The temperature is right exactly when the sign does no harm and it fits. -/
theorem temperatureRight_iff (s0 s1 : Byte) :
    TemperatureRight s0 s1 ↔ SignHarmless s0 s1 ∧ -32768 ≤ temperatureOf (register s0 s1) ∧
      temperatureOf (register s0 s1) < 32768 := by
  have hbounds := register_bounds s0 s1
  unfold TemperatureRight
  rw [ds2745Temperature_toInt]
  by_cases h : SignHarmless s0 s1
  · rw [join_harmless h, bmod_eq_saturate_iff (by decide), and_iff_right h]
    unfold temperatureOf
    push_cast
    -- a multiple of 125 does not hit the nearest number
    omega
  · obtain ⟨k, hk, hlow, hhigh, hlow', hhigh', hregister⟩ := join_harmed h
    refine iff_of_false ?_ fun hboth => h hboth.1
    rw [hregister, Int.bmod_eq_of_le (by unfold temperatureOf; omega)
      (by unfold temperatureOf; omega)]
    unfold temperatureOf saturate
    push_cast
    omega

/-- Quotients of numbers that are far apart are the same only if both are 0. -/
theorem ediv_eq_min_iff {a b r : Int} (hr : 0 < r) (ha : 0 ≤ a) (ha' : a ≤ 20640)
    (hb : a + 41280 ≤ b) : a / r = min (b / r) 32768 ↔ b < r := by
  have hle : a / r ≤ a := Int.ediv_le_self r ha
  constructor
  · intro heq
    by_contra hge
    have hpos : 1 ≤ b / r := (Int.le_ediv_iff_mul_le hr).mpr (by omega)
    have hsame : a / r = b / r := by omega
    -- with the same quotient, they are less than the divisor apart
    have hleft : a / r * r ≤ a := Int.ediv_mul_le a (by omega)
    have hright : b < (b / r + 1) * r := Int.lt_ediv_add_one_mul_self b hr
    have hone : 1 * r ≤ a / r * r := Int.mul_le_mul_of_nonneg_right (by omega) (by omega)
    rw [← hsame, Int.add_mul] at hright
    omega
  · intro hlt
    rw [Int.ediv_eq_zero_of_lt ha (by omega), Int.ediv_eq_zero_of_lt (by omega) hlt]
    rfl

/-- A quotient that is not positive, and a saturated one that is not negative. -/
theorem neg_ediv_eq_min_iff {a b r : Int} (hr : 0 < r) (ha : 0 ≤ a) (hb : a ≤ b) :
    -(a / r) = min (b / r) 32767 ↔ b < r := by
  have hquotient : 0 ≤ a / r := Int.ediv_nonneg ha (by omega)
  constructor
  · intro heq
    by_contra hge
    have hpos : 1 ≤ b / r := (Int.le_ediv_iff_mul_le hr).mpr (by omega)
    omega
  · intro hlt
    rw [Int.ediv_eq_zero_of_lt ha (by omega), Int.ediv_eq_zero_of_lt (by omega) hlt]
    rfl

/-- The division rounds towards 0. -/
theorem currentOf_of_nonneg {v b : Int} (resistance : BitVec 16) (h : v / 4 * 645 = b)
    (hb : 0 ≤ b) : currentOf v resistance = b / resistance.toNat := by
  rw [currentOf, h, Int.tdiv_eq_ediv_of_nonneg hb]

theorem currentOf_of_neg {v a : Int} (resistance : BitVec 16) (h : v / 4 * 645 = -a)
    (ha : 0 ≤ a) : currentOf v resistance = -(a / resistance.toNat) := by
  rw [currentOf, h, Int.neg_tdiv, Int.tdiv_eq_ediv_of_nonneg ha]

/-- The current is right when the sign does no harm and it fits; or else when both are 0. -/
theorem currentRight_iff (s0 s1 : Byte) {resistance : BitVec 16} (hr : resistance ≠ 0) :
    CurrentRight s0 s1 resistance ↔
      (SignHarmless s0 s1 ∧ CutRight (currentOf (register s0 s1) resistance)) ∨
      (¬ SignHarmless s0 s1 ∧ (register s0 s1 / 4 * 645).natAbs < resistance.toNat) := by
  unfold CurrentRight
  rw [ds2746Current_toInt]
  by_cases h : SignHarmless s0 s1
  · rw [join_harmless h, bmod_eq_saturate_iff (by decide)]
    simp only [h, not_true, false_and, or_false, true_and]
    exact Iff.rfl
  · obtain ⟨k, hk, hlow, hhigh, hlow', hhigh', hregister⟩ := join_harmed h
    simp only [h, not_false_iff, false_and, false_or, true_and]
    have hrpos : 0 < (resistance.toNat : Int) := by
      have hne : resistance.toNat ≠ 0 := fun heq => hr (BitVec.eq_of_toNat_eq heq)
      omega
    obtain ⟨a, ha⟩ : ∃ a, a = -((join s0 s1).toInt / 4 * 645) := ⟨_, rfl⟩
    have hjoin : currentOf (join s0 s1).toInt resistance = -(a / resistance.toNat) :=
      currentOf_of_neg resistance (by omega) (by omega)
    have hquotient : 0 ≤ a / resistance.toNat := Int.ediv_nonneg (by omega) (by omega)
    have hquotient' : a / resistance.toNat ≤ a := Int.ediv_le_self _ (by omega)
    rw [hjoin, Int.bmod_eq_of_le (by omega) (by omega)]
    rcases lt_or_gt_of_ne hk with hbelow | habove
    · obtain ⟨b, hb⟩ : ∃ b, b = -(register s0 s1 / 4 * 645) := ⟨_, rfl⟩
      have hcurrent : currentOf (register s0 s1) resistance = -(b / resistance.toNat) :=
        currentOf_of_neg resistance (by omega) (by omega)
      have hnonneg : 0 ≤ b / resistance.toNat := Int.ediv_nonneg (by omega) (by omega)
      have hiff := ediv_eq_min_iff hrpos (by omega : 0 ≤ a) (by omega) (by omega : a + 41280 ≤ b)
      rw [hcurrent]
      unfold saturate
      push_cast
      omega
    · obtain ⟨b, hb⟩ : ∃ b, b = register s0 s1 / 4 * 645 := ⟨_, rfl⟩
      have hcurrent : currentOf (register s0 s1) resistance = b / resistance.toNat :=
        currentOf_of_nonneg resistance hb.symm (by omega)
      have hnonneg : 0 ≤ b / resistance.toNat := Int.ediv_nonneg (by omega) (by omega)
      have hiff := neg_ediv_eq_min_iff hrpos (by omega : 0 ≤ a) (by omega : a ≤ b)
      rw [hcurrent]
      unfold saturate
      push_cast
      omega

/-- **Gauge.**  Either reading is right exactly when the sign of the lower byte does no harm and
    the result fits, or by accident: a current that is cut to the nearest, or that is 0 with the
    wrong bytes as well. -/
theorem gauge_iff (s0 s1 : Byte) {resistance : BitVec 16} (hr : resistance ≠ 0) :
    (CurrentRight s0 s1 resistance ↔
      (SignHarmless s0 s1 ∧ CutRight (currentOf (register s0 s1) resistance)) ∨
      (¬ SignHarmless s0 s1 ∧ (register s0 s1 / 4 * 645).natAbs < resistance.toNat)) ∧
    (TemperatureRight s0 s1 ↔ SignHarmless s0 s1 ∧ -32768 ≤ temperatureOf (register s0 s1) ∧
      temperatureOf (register s0 s1) < 32768) :=
  ⟨currentRight_iff s0 s1 hr, temperatureRight_iff s0 s1⟩

theorem gauge_default :
    (CurrentRight 0x02 0x40 1500 ↔
      (SignHarmless 0x02 0x40 ∧ CutRight (currentOf (register 0x02 0x40) 1500)) ∨
      (¬ SignHarmless 0x02 0x40 ∧
        (register 0x02 0x40 / 4 * 645).natAbs < (1500 : BitVec 16).toNat)) ∧
    (TemperatureRight 0x02 0x40 ↔
      SignHarmless 0x02 0x40 ∧ -32768 ≤ temperatureOf (register 0x02 0x40) ∧
        temperatureOf (register 0x02 0x40) < 32768) :=
  gauge_iff 0x02 0x40 (by decide)

/-- A current of 41 is read as -13, and a temperature of 1500 as -500. -/
theorem sign_spoils_reading :
    ¬ CurrentRight 0x01 0x80 1500 ∧ ¬ TemperatureRight 0x01 0x80 := by
  unfold CurrentRight TemperatureRight
  decide

end HtcLeo.Charging

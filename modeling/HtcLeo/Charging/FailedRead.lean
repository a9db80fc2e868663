import HtcLeo.Charging.Gauge
import HtcLeo.Charging.Settings

namespace HtcLeo.Charging

/-!
# A battery voltage that could not be read

A tick of the charging driver, from the transfers on the bus to the pins of the charger.

* `msmI2cRead` — a read of one byte with its retries: a status, and what is in the buffer then.
* `wantsChargingRead` — a tick, with the voltage that `ds2746_voltage` makes of two such reads.
* `NotRaised` — the charger is not switched on, and its current not raised, at any call of the
  tick.
* `notRaised_iff` — which ticks with a failed read leave it so.
-/

/-! ### The reads -/

/-- `ERR_NOT_READY`. -/
def errNotReady : Int := -3

/-- `MSM_I2C_READ_RETRY_TIMES`. -/
def msmI2cReadRetryTimes : Nat := 16

/-- What a `msm_i2c_xfer` returns, and what is in the buffer of its read after it. -/
structure Transfer where
  ret : Int
  byte : Byte

/-- A call of `msm_i2c_read` for one byte: whether the driver is installed, the transfers it may
    come to, and what the buffer holds before. -/
structure Read where
  installed : Bool
  transfers : Nat → Transfer
  buf : Byte

/-- The loop over the retries, with those that are left. -/
def retryRead (transfers : Nat → Transfer) : Nat → Nat → Byte → Int × Byte
  | 0, _, buf => (errNotReady, buf)
  | left + 1, retry, _ =>
      if (transfers retry).ret = 2 then (0, (transfers retry).byte)
      else retryRead transfers left (retry + 1) (transfers retry).byte

/-- `msm_i2c_read`: what it returns, and what is in the buffer. -/
def msmI2cRead (r : Read) : Int × Byte :=
  if r.installed then retryRead r.transfers (msmI2cReadRetryTimes + 1) 0 r.buf
  else (errNotReady, r.buf)

/-! ### A tick -/

/-- What a tick meets: the USB state, the two reads of the voltage, `USB_PORTSC`, and what becomes
    of its command for the LED. -/
structure ReadTick where
  usbStatus : U32
  msb : Read
  lsb : Read
  portsc : U32
  ledWrite : MicroP.Write

/-- One of the reads has failed. -/
def ReadTick.Failed (t : ReadTick) : Prop := (msmI2cRead t.msb).1 ≠ 0 ∨ (msmI2cRead t.lsb).1 ≠ 0

/-- The voltage as `ds2746_voltage` returns it: it does not look at what the reads return. -/
def ReadTick.tick (t : ReadTick) : Tick where
  usbStatus := t.usbStatus
  voltage := ds2746Voltage (msmI2cRead t.msb).2 (msmI2cRead t.lsb).2
  portsc := t.portsc
  ledWrite := t.ledWrite

/-- `WantsCharging`. -/
def wantsChargingRead (s : Charger) (t : ReadTick) : Charger := wantsCharging s t.tick

/-! ### The rank of the levels -/

/-- How much the charger gives: nothing, the low current, or the high one. -/
def Levels.rank (l : Levels) : Nat :=
  if l.enable = some false then if l.current = some true then 2 else 1 else 0

/-- From one state to another with more calls recorded, the charger has not been switched on, nor
    its current raised. -/
def NotRaised (s s' : Charger) : Prop :=
  (levels s'.tlmm).rank ≤ (levels s.tlmm).rank ∧
    ∀ e ∈ s'.transients.drop s.transients.length, e.1.rank ≤ (levels s.tlmm).rank

/-- `SetCharger` does not raise it exactly when none of the levels that it goes through is
    higher. -/
theorem setCharger_notRaised_iff (acOnline : Bool) (state : PsyChargerState) (s : Charger) :
    NotRaised s (setCharger acOnline state s) ↔
      (settingLevels state).rank ≤ (levels s.tlmm).rank ∧
        (transition state (levels s.tlmm)).1.rank ≤ (levels s.tlmm).rank := by
  obtain ⟨-, hlevels, htransients⟩ := setCharger_spec acOnline state s
  have hlast : (transition state (levels s.tlmm)).2 = settingLevels state := by
    cases state <;> rfl
  unfold NotRaised
  rw [hlevels, htransients, List.drop_left, hlast]
  simp only [List.forall_mem_cons, List.not_mem_nil, false_imp_iff, implies_true, and_true]
  constructor
  · exact fun h => ⟨h.1, h.2.1⟩
  · exact fun h => ⟨h.1, h.2, h.2, h.1, h.1⟩

/-- A tick does not raise it exactly when it leaves the pins alone, or none of those levels is
    higher. -/
theorem wantsCharging_notRaised_iff (s : Charger) (tick : Tick) :
    NotRaised s (wantsCharging s tick) ↔ s.gState = (chargeDecision tick).1 ∨
      ((settingLevels (chargeDecision tick).1).rank ≤ (levels s.tlmm).rank ∧
        (transition (chargeDecision tick).1 (levels s.tlmm)).1.rank ≤ (levels s.tlmm).rank) := by
  rw [wantsCharging_eq]
  by_cases hsame : s.gState = (chargeDecision tick).1
  · rw [if_neg (not_ne_iff.mpr hsame)]
    refine iff_of_true ⟨Nat.le_refl _, fun e he => ?_⟩ (Or.inl hsame)
    have hnone : e ∈ s.transients.drop s.transients.length := he
    rw [List.drop_length] at hnone
    exact absurd hnone List.not_mem_nil
  · rw [if_pos hsame]
    have hset := setCharger_notRaised_iff (isAcOnline tick) (chargeDecision tick).1
      (prepareUsb (chargeDecision tick).1 s)
    unfold NotRaised at hset
    rw [prepareUsb_tlmm, prepareUsb_transients] at hset
    exact hset.trans (or_iff_right hsame).symm

/-! ### Failed reads -/

/-- The number in the buffers of the two reads, whatever has put it there. -/
def ReadTick.found (t : ReadTick) : Nat := ((msmI2cRead t.msb).2 ++ (msmI2cRead t.lsb).2).toNat

/-- 4100 mV are reached from `0x6910` on. -/
theorem voltage_lt_iff (t : ReadTick) : t.tick.voltage < voltage4100 ↔ t.found < 0x6910 := by
  have hvoltage : t.tick.voltage.toNat = t.found / 16 * 2440 / 1000 := ds2746Voltage_toNat _ _
  have h4100 : voltage4100.toNat = 4100 := rfl
  rw [BitVec.lt_def, hvoltage, h4100]
  omega

/-- The charger gives as much already as the line state asks for, or `gState` says so. -/
def AlreadyCharging (s : Charger) (acOnline : Bool) : Prop :=
  if acOnline then s.gState = .chgAc ∨ levels s.tlmm = ⟨some false, some true⟩
  else s.gState = .chgUsbLow ∨ (levels s.tlmm).enable = some false

theorem ac_rank_iff (l : Levels) :
    ((settingLevels .chgAc).rank ≤ l.rank ∧ (transition .chgAc l).1.rank ≤ l.rank) ↔
      l = ⟨some false, some true⟩ := by
  obtain ⟨_ | _ | _, _ | _ | _⟩ := l <;> decide

theorem usbLow_rank_iff (l : Levels) :
    ((settingLevels .chgUsbLow).rank ≤ l.rank ∧ (transition .chgUsbLow l).1.rank ≤ l.rank) ↔
      l.enable = some false := by
  obtain ⟨_ | _ | _, _ | _ | _⟩ := l <;> decide

theorem off_rank (l : Levels) :
    ((settingLevels .chgOff).rank ≤ l.rank ∧ (transition .chgOff l).1.rank ≤ l.rank) ∧
      ((settingLevels .chgOffFullBat).rank ≤ l.rank ∧
        (transition .chgOffFullBat l).1.rank ≤ l.rank) :=
  ⟨⟨Nat.zero_le _, Nat.zero_le _⟩, Nat.zero_le _, Nat.zero_le _⟩

/-- **Failed reads.**  A tick with a failed read does not switch the charger on or raise its
    current exactly when there is no USB, the bytes in the buffers make 4100 mV, or the charger
    gives as much already. -/
theorem notRaised_iff (s : Charger) (t : ReadTick) :
    (t.Failed → NotRaised s (wantsChargingRead s t)) ↔
      (t.Failed → checkUsbStatus t.tick = true → t.found < 0x6910 →
        AlreadyCharging s (isAcOnline t.tick)) := by
  refine forall_congr' fun _ => ?_
  have hvoltage := voltage_lt_iff t
  unfold wantsChargingRead
  rw [wantsCharging_notRaised_iff]
  unfold chargeDecision AlreadyCharging
  obtain ⟨hoff, hfull⟩ := off_rank (levels s.tlmm)
  by_cases husb : checkUsbStatus t.tick = true
  · by_cases hlow : t.found < 0x6910
    · rw [if_neg (not_not.mpr husb), if_neg (not_not.mpr (hvoltage.mpr hlow))]
      cases hac : isAcOnline t.tick with
      | true => simp [husb, hlow, ac_rank_iff]
      | false => simp [husb, hlow, usbLow_rank_iff]
    · rw [if_neg (not_not.mpr husb), if_pos (hlow ∘ hvoltage.mp)]
      exact iff_of_true (Or.inr hfull) fun _ h => absurd h hlow
  · rw [if_pos husb]
    exact iff_of_true (Or.inr hoff) fun h => absurd h husb

/-- The bus does not answer, the buffers hold 0, and USB is there. -/
def silentBus : ReadTick where
  usbStatus := 1
  msb := ⟨true, fun _ => ⟨-3, 0⟩, 0⟩
  lsb := ⟨true, fun _ => ⟨-3, 0⟩, 0⟩
  portsc := 0
  ledWrite := ⟨true, fun _ => ⟨-3, false⟩⟩

theorem silentBus_raises :
    ¬ (silentBus.Failed → NotRaised (programmed .chgOff (chargerStart ⟨fun _ _ => 0, []⟩ ledOff))
      (wantsChargingRead (programmed .chgOff (chargerStart ⟨fun _ _ => 0, []⟩ ledOff))
        silentBus)) := by
  intro h
  have hraised := h (Or.inl (by decide))
  exact absurd hraised.1 (by decide +kernel)

end HtcLeo.Charging

import HtcLeo.Interrupt.Vic

namespace HtcLeo.Timer

open Interrupt

/-!
# TimerDxe — the period of the timer interrupt

The functions of `Drivers/TimerDxe/Timer.c` over the debug timer (DGT), which counts at `DGT_HZ`
and starts again when it reaches its match value.

* `TimerDxe` — the registers of the timer and the variables of the driver.
* `timerDriverSetTimerPeriod` — programming a period, in units of 100 ns.
* `SetsPeriod` — what its contract asks for: the period is rounded up to one the hardware
  supports, reported as it is programmed, and refused where the hardware cannot hold it.
* `setsPeriod_iff` — when it does: for whole milliseconds whose ticks fit the match register.
-/

/-- `DGT_HZ`. -/
def dgtHz : Nat := 4800000
/-- `DGT_ENABLE_EN | DGT_ENABLE_CLR_ON_MATCH_EN`. -/
def dgtEnableBits : U32 := 1 ||| 2
/-- `gVector`, `INT_DEBUG_TIMER_EXP`. -/
def gVector : U32 := 8

/-- The timer and the driver: the DGT registers, the interrupt controller, `mTimerPeriod` and
    `mTimerNotifyFunction`, a function from `F` or `NULL`. -/
structure TimerDxe (H F : Type) where
  dgtMatchVal : U32
  dgtEnable : U32
  dgtClear : U32
  gInterrupt : IrqDxe H
  mTimerPeriod : BitVec 64
  mTimerNotifyFunction : Option F

variable {H F : Type}

/-- `TimerCount`, the milliseconds of a period. -/
def timerCount (timerPeriod : BitVec 64) : BitVec 64 := timerPeriod / 10000#64

/-- `TimerDriverSetTimerPeriod`. -/
def timerDriverSetTimerPeriod (timerPeriod : BitVec 64) (t : TimerDxe H F) :
    EfiStatus × TimerDxe H F :=
  if timerPeriod = 0 then
    let (status, gInterrupt) := disableInterruptSource gVector t.gInterrupt
    (status,
      { t with
        dgtEnable := 0
        dgtClear := 0
        gInterrupt := gInterrupt
        mTimerPeriod := timerPeriod })
  else
    let (_, gInterrupt) := disableInterruptSource gVector t.gInterrupt
    -- `MmioWrite32` takes the low half of the 64-bit product
    let matchVal : U32 :=
      (timerCount timerPeriod * BitVec.ofNat 64 (dgtHz / 1000)).setWidth 32
    let (status, gInterrupt) := enableInterruptSource gVector gInterrupt
    (status,
      { t with
        dgtMatchVal := matchVal
        dgtClear := 0
        dgtEnable := dgtEnableBits
        gInterrupt := gInterrupt
        mTimerPeriod := timerPeriod })

/-- `TimerInterruptHandler`: the notify function it calls, and the time it passes. -/
def timerInterruptHandler (t : TimerDxe H F) : Option (F × BitVec 64) :=
  t.mTimerNotifyFunction.map fun notify => (notify, t.mTimerPeriod)

/-! ### The contract -/

/-- Some match value makes the timer run for the period or longer. -/
def Holdable (timerPeriod : BitVec 64) : Prop :=
  ∃ matchVal : U32, timerPeriod.toNat * dgtHz ≤ matchVal.toNat * 10000000

/-- A period is programmed, rounded up.  Times are compared in units of 100 ns times `DGT_HZ`, as
    a match value of `n` stands for `n * 10000000 / DGT_HZ` such units. -/
structure Programmed (timerPeriod : BitVec 64) (t : TimerDxe H F) : Prop where
  running : t.dgtMatchVal ≠ 0
  notTruncated : t.dgtMatchVal.toNat = timerPeriod.toNat / 10000 * (dgtHz / 1000)
  atLeast : timerPeriod.toNat * dgtHz ≤ t.dgtMatchVal.toNat * 10000000
  reported : ∀ notify elapsed, timerInterruptHandler t = some (notify, elapsed) →
    elapsed.toNat * dgtHz = t.dgtMatchVal.toNat * 10000000

/-- `TimerDriverSetTimerPeriod` does what its contract says: a period it accepts is programmed,
    and one that the timer cannot hold is refused. -/
structure SetsPeriod (timerPeriod : BitVec 64) (t : TimerDxe H F) : Prop where
  programmed : (timerDriverSetTimerPeriod timerPeriod t).1 = .success →
    Programmed timerPeriod (timerDriverSetTimerPeriod timerPeriod t).2
  refused : ¬ Holdable timerPeriod → (timerDriverSetTimerPeriod timerPeriod t).1 ≠ .success

/-! ### What the code does -/

/-- Every period is accepted. -/
theorem setTimerPeriod_success (timerPeriod : BitVec 64) (t : TimerDxe H F) :
    (timerDriverSetTimerPeriod timerPeriod t).1 = .success := by
  unfold timerDriverSetTimerPeriod
  split
  · rfl
  · rfl

/-- The match value, and the period that is kept. -/
theorem setTimerPeriod_state {timerPeriod : BitVec 64} (h : timerPeriod ≠ 0) (t : TimerDxe H F) :
    (timerDriverSetTimerPeriod timerPeriod t).2.dgtMatchVal.toNat
        = timerPeriod.toNat / 10000 * 4800 % 2 ^ 32 ∧
      (timerDriverSetTimerPeriod timerPeriod t).2.mTimerPeriod = timerPeriod := by
  unfold timerDriverSetTimerPeriod
  rw [if_neg h]
  refine ⟨?_, rfl⟩
  have hperiod := timerPeriod.isLt
  show ((timerPeriod / 10000#64 * 4800#64).setWidth 32).toNat = _
  simp only [BitVec.toNat_setWidth, BitVec.toNat_mul, BitVec.toNat_udiv, BitVec.toNat_ofNat,
    Nat.reducePow, Nat.reduceMod]
  omega

/-- What the timer holds is at least the period exactly for a whole number of milliseconds whose
    ticks fit the match register. -/
theorem atLeast_iff (period : Nat) :
    period * dgtHz ≤ period / 10000 * 4800 % 2 ^ 32 * 10000000 ↔
      10000 ∣ period ∧ period / 10000 * 4800 < 2 ^ 32 := by
  have hmod := Nat.mod_le (period / 10000 * 4800) (2 ^ 32)
  unfold dgtHz
  constructor
  · intro h
    have hround : period ≤ period / 10000 * 10000 := by omega
    refine ⟨by omega, ?_⟩
    by_contra hbig
    have hlt := Nat.mod_lt (period / 10000 * 4800) (show 2 ^ 32 > 0 by decide)
    omega
  · rintro ⟨⟨k, rfl⟩, hfit⟩
    rw [Nat.mod_eq_of_lt hfit]
    omega

/-- **Timer period.**  `TimerDriverSetTimerPeriod` does what its contract says exactly for the
    periods that are a whole number of milliseconds with ticks that fit the match register. -/
theorem setsPeriod_iff (timerPeriod : BitVec 64) (h : timerPeriod ≠ 0) (t : TimerDxe H F) :
    SetsPeriod timerPeriod t ↔
      10000 ∣ timerPeriod.toNat ∧ timerPeriod.toNat / 10000 * 4800 < 2 ^ 32 := by
  obtain ⟨hmatch, hkept⟩ := setTimerPeriod_state h t
  constructor
  · intro hsets
    have hleast := (hsets.programmed (setTimerPeriod_success timerPeriod t)).atLeast
    rw [hmatch] at hleast
    exact (atLeast_iff timerPeriod.toNat).mp hleast
  · intro hcond
    have hleast := (atLeast_iff timerPeriod.toNat).mpr hcond
    have hne : timerPeriod.toNat ≠ 0 := by
      rw [ne_eq, ← BitVec.toNat_inj] at h
      exact h
    obtain ⟨⟨k, hk⟩, hfit⟩ := hcond
    rw [hk] at hfit hne
    refine ⟨fun _ => ⟨?_, ?_, by rwa [hmatch], ?_⟩, fun hnot => absurd ?_ hnot⟩
    · rw [ne_eq, ← BitVec.toNat_inj, hmatch, hk, Nat.mod_eq_of_lt hfit]
      show ¬ 10000 * k / 10000 * 4800 = 0
      omega
    · rw [hmatch, hk, Nat.mod_eq_of_lt hfit]
      rfl
    · intro notify elapsed hcall
      obtain ⟨_, _, hpair⟩ := Option.map_eq_some_iff.mp hcall
      obtain ⟨_, rfl⟩ := Prod.mk.inj hpair
      rw [hkept, hmatch, hk, Nat.mod_eq_of_lt hfit]
      unfold dgtHz
      omega
    · exact ⟨_, by rwa [← hmatch] at hleast⟩

/-- The timer before its first use. -/
def dgtReset : TimerDxe Unit Unit := ⟨0, 0, 0, ⟨fun _ => 0, fun _ => none, []⟩, 0, some ()⟩

/-- A period of 10 ms. -/
theorem setsPeriod_tenMilliseconds : SetsPeriod 100000 dgtReset :=
  (setsPeriod_iff 100000 (by decide) dgtReset).mpr (by decide)

/-- A period of 1.5 ms is programmed as 1 ms. -/
theorem fraction_not_set : ¬ SetsPeriod 15000 dgtReset := by
  intro hsets
  have hleast := (hsets.programmed (setTimerPeriod_success 15000 dgtReset)).atLeast
  rw [(setTimerPeriod_state (by decide) dgtReset).1] at hleast
  exact absurd hleast (by decide)

end HtcLeo.Timer

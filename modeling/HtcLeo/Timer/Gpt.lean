import HtcLeo.Uefi
import HtcLeo.Lib.Sampling
import Mathlib.Tactic.IntervalCases

namespace HtcLeo.Timer

open Prog Sampling

/-!
# GPTTimerLib — the general purpose timer

The functions of `Library/GPTTimerLib/GPTTimerLib.c` over `GPT_COUNT_VAL`, a free-running 32-bit
counter of which a program sees samples.

* `microSecondDelay` — the wait, first for the counter to wrap and then for the deadline.
* `getTimeInNanoSecond` — ticks converted to nanoseconds; `getTimeInNanoSecond_toNat` says what
  the 64-bit arithmetic gives.
* `Exact` — the wait returns at the first sample at which the requested ticks have elapsed.
* `microSecondDelay_exact_iff` — when it does: unless the deadline is before the wrap and the
  first sample to reach it behind.
-/

/-! ### The code -/

/-- `GetPerformanceCounterProperties`: the frequency it returns. -/
def getPerformanceCounterProperties : BitVec 64 := 32765

/-- `GetPerformanceCounter`, when `GPT_COUNT_VAL` holds `count`. -/
def getPerformanceCounter (count : U32) : BitVec 64 := count.setWidth 64

/-- `GetTimeInNanoSecond`; the remainder is a `UINT32`. -/
def getTimeInNanoSecond (ticks : BitVec 64) : BitVec 64 :=
  let frequency := getPerformanceCounterProperties
  let remainder : U32 := (ticks % frequency).setWidth 32
  let nanoSeconds := ticks / frequency * 1000000000#64
  nanoSeconds + remainder.setWidth 64 * 1000000000#64 / frequency

/-- `Ticks` of `MicroSecondDelay`. -/
def delayTicks (microSeconds : U32) : BitVec 64 :=
  (microSeconds.setWidth 64 * 33#64 + 1000#64 - 33#64) / 1000#64

/-- `MicroSecondDelay`, over the values `GPT_COUNT_VAL` is seen with. -/
def microSecondDelay (samples : Nat → U32) (fuel : Nat) (microSeconds : U32) : Prog Nat U32 := do
  let ticks := delayTicks microSeconds
  let count ← next samples
  let initCount : BitVec 64 := count.setWidth 64
  let timeout : BitVec 64 := (count.setWidth 64 + ticks) &&& 0xFFFFFFFF#64
  -- wait for the counter to wrap, where the deadline is behind the wrap
  let count ← waitUntil samples (fun count : U32 =>
    !(decide (timeout < count.setWidth 64) && decide (initCount ≤ count.setWidth 64))) fuel count
  let _ ← waitUntil samples (fun count : U32 => !decide (count.setWidth 64 < timeout)) fuel count
  return microSeconds

/-! ### Conversion to nanoseconds -/

@[simp] theorem frequency_toNat : getPerformanceCounterProperties.toNat = 32765 := rfl

/-- The remainder of a division by the frequency fits a `UINT32`. -/
theorem remainder_toNat (ticks : BitVec 64) :
    (((ticks % getPerformanceCounterProperties).setWidth 32 : U32).setWidth 64).toNat
      = ticks.toNat % 32765 := by
  have hrem : ticks.toNat % 32765 < 32765 := Nat.mod_lt _ (by decide)
  rw [BitVec.toNat_setWidth, BitVec.toNat_setWidth, BitVec.toNat_umod, frequency_toNat]
  omega

/-- `GetTimeInNanoSecond` gives the low 64 bits of the ticks in nanoseconds, rounded down. -/
theorem getTimeInNanoSecond_toNat (ticks : BitVec 64) :
    (getTimeInNanoSecond ticks).toNat = ticks.toNat * 1000000000 / 32765 % 2 ^ 64 := by
  have hrem : ticks.toNat % 32765 < 32765 := Nat.mod_lt _ (by decide)
  have hsplit : ticks.toNat * 1000000000 / 32765
      = ticks.toNat / 32765 * 1000000000 + ticks.toNat % 32765 * 1000000000 / 32765 := by
    omega
  have hnano : (1000000000#64).toNat = 1000000000 := rfl
  unfold getTimeInNanoSecond
  dsimp only
  rw [BitVec.toNat_add, BitVec.toNat_udiv, BitVec.toNat_mul, BitVec.toNat_mul, BitVec.toNat_udiv,
    remainder_toNat, frequency_toNat, hnano, hsplit]
  -- the product with the remainder fits 64 bits; the one with the quotient may wrap
  rw [Nat.mod_eq_of_lt (by omega : ticks.toNat % 32765 * 1000000000 < 2 ^ 64), Nat.mod_add_mod]

/-! ### The delay -/

/-- The ticks of a delay, without wrapping. -/
theorem delayTicks_toNat (microSeconds : U32) :
    (delayTicks microSeconds).toNat = (microSeconds.toNat * 33 + 967) / 1000 := by
  have hlt := microSeconds.isLt
  simp only [delayTicks, BitVec.toNat_udiv, BitVec.toNat_sub, BitVec.toNat_add, BitVec.toNat_mul,
    BitVec.toNat_setWidth, BitVec.toNat_ofNat, Nat.reducePow, Nat.reduceMod]
  omega

/-- A delay takes less than half a counter period. -/
theorem delayTicks_lt (microSeconds : U32) : (delayTicks microSeconds).toNat < 2 ^ 31 := by
  have hlt := microSeconds.isLt
  rw [delayTicks_toNat]
  omega

section Delay

variable (samples : Nat → U32) (microSeconds : U32)

/-- The ticks elapsed since the start, modulo the counter period. -/
def elapsed (n : Nat) : Nat := (samples n - samples 0).toNat

/-- The ticks from one sample to the next. -/
def gap (n : Nat) : Nat := (samples (n + 1) - samples n).toNat

/-- The requested ticks have elapsed. -/
def Reached (n : Nat) : Prop := (delayTicks microSeconds).toNat ≤ elapsed samples n

/-- The wait returns with sample `n` the last it has taken. -/
def ReturnsAt (n : Nat) : Prop :=
  ∃ fuel, microSecondDelay samples fuel microSeconds 0 = (some microSeconds, n + 1)

/-- The wait returns at the first sample at which the requested ticks have elapsed. -/
def Exact : Prop :=
  ∀ n, ReturnsAt samples microSeconds n ↔ FirstFrom (Reached samples microSeconds) 0 n

variable {samples microSeconds}

/-- The counter value at a sample. -/
theorem value_eq (n : Nat) :
    (samples n).toNat = ((samples 0).toNat + elapsed samples n) % 2 ^ 32 := by
  have h0 := (samples 0).isLt
  have hn := (samples n).isLt
  rw [elapsed, BitVec.toNat_sub]
  omega

theorem elapsed_lt (n : Nat) : elapsed samples n < 2 ^ 32 := (samples n - samples 0).isLt

@[simp] theorem elapsed_zero : elapsed samples 0 = 0 := by simp [elapsed]

/-- Before the deadline no step is lost. -/
theorem elapsed_succ {n : Nat} (hgap : gap samples n < 2 ^ 31)
    (hn : elapsed samples n < 2 ^ 31) :
    elapsed samples (n + 1) = elapsed samples n + gap samples n := by
  have h0 := (samples 0).isLt
  have hn' := (samples n).isLt
  have hs := (samples (n + 1)).isLt
  simp only [elapsed, gap, BitVec.toNat_sub] at hgap hn ⊢
  omega

/-- `Timeout`, modulo the counter period. -/
def timeoutOf (samples : Nat → U32) (microSeconds : U32) : Nat :=
  ((samples 0).toNat + (delayTicks microSeconds).toNat) % 2 ^ 32

/-- The first wait is over. -/
def WrapSeen (samples : Nat → U32) (microSeconds : U32) (i : Nat) : Prop :=
  ¬ (timeoutOf samples microSeconds < (samples i).toNat ∧ (samples 0).toNat ≤ (samples i).toNat)

/-- The second wait is over. -/
def DeadlineSeen (samples : Nat → U32) (microSeconds : U32) (i : Nat) : Prop :=
  timeoutOf samples microSeconds ≤ (samples i).toNat

/-- A count in 64 bits. -/
theorem count_toNat (count : U32) : (count.setWidth 64).toNat = count.toNat := by
  have hlt := count.isLt
  rw [BitVec.toNat_setWidth]
  omega

theorem timeout_toNat : (((samples 0).setWidth 64 + delayTicks microSeconds)
    &&& 0xFFFFFFFF#64).toNat = timeoutOf samples microSeconds := by
  have hticks := delayTicks_lt microSeconds
  have h0 := (samples 0).isLt
  rw [BitVec.toNat_and, BitVec.toNat_add, BitVec.toNat_setWidth,
    show (0xFFFFFFFF#64).toNat = 2 ^ 32 - 1 from rfl, Nat.and_two_pow_sub_one_eq_mod, timeoutOf]
  omega

/-- The condition of the first wait. -/
theorem firstWait_iff (i : Nat) :
    (!(decide (((samples 0).setWidth 64 + delayTicks microSeconds)
        &&& 0xFFFFFFFF#64 < (samples i).setWidth 64) &&
        decide ((samples 0).setWidth 64 ≤ (samples i).setWidth 64))) = true ↔
      WrapSeen samples microSeconds i := by
  simp only [Bool.not_eq_true', Bool.and_eq_false_iff, decide_eq_false_iff_not, BitVec.lt_def,
    BitVec.le_def, timeout_toNat, count_toNat, WrapSeen]
  omega

/-- The condition of the second wait. -/
theorem secondWait_iff (i : Nat) :
    (!decide ((samples i).setWidth 64 <
        ((samples 0).setWidth 64 + delayTicks microSeconds) &&& 0xFFFFFFFF#64)) = true ↔
      DeadlineSeen samples microSeconds i := by
  simp only [Bool.not_eq_true', decide_eq_false_iff_not, BitVec.lt_def, timeout_toNat,
    count_toNat, DeadlineSeen]
  omega

/-- The wait returns where its two waits, one after the other, end. -/
theorem returnsAt_iff (n : Nat) :
    ReturnsAt samples microSeconds n ↔
      ∃ m, FirstFrom (WrapSeen samples microSeconds) 0 m ∧
        FirstFrom (DeadlineSeen samples microSeconds) m n := by
  constructor
  · rintro ⟨fuel, hrun⟩
    -- the first wait has taken the samples up to `m`, the second those up to `n`
    obtain ⟨_, _, hnext, hrun⟩ := bind_eq_some.mp hrun
    obtain ⟨rfl, rfl⟩ := Prod.mk.inj hnext |>.imp_left Option.some.inj
    obtain ⟨_, _, hfirst, hrun⟩ := bind_eq_some.mp hrun
    obtain ⟨m, hm, _, rfl, rfl⟩ := waitUntil_eq_some_iff.mp hfirst
    obtain ⟨_, _, hsecond, hrun⟩ := bind_eq_some.mp hrun
    obtain ⟨j, hj, _, rfl, rfl⟩ := waitUntil_eq_some_iff.mp hsecond
    obtain rfl : j = n := Nat.succ.inj (congrArg Prod.snd hrun)
    exact ⟨m, hm.congr fun i _ _ => firstWait_iff i, hj.congr fun i _ _ => secondWait_iff i⟩
  · rintro ⟨m, hm, hn⟩
    have hle := hn.le
    refine ⟨n + 1, bind_eq_some.mpr ⟨samples 0, 1, rfl, ?_⟩⟩
    refine bind_eq_some.mpr ⟨samples m, m + 1, ?_, ?_⟩
    · exact waitUntil_of_first (hm.congr fun i _ _ => (firstWait_iff i).symm) (by omega)
    · refine bind_eq_some.mpr ⟨samples n, n + 1, ?_, rfl⟩
      exact waitUntil_of_first (hn.congr fun i _ _ => (secondWait_iff i).symm) (by omega)

/-- Up to the first sample at which the ticks have elapsed, time does not go back. -/
theorem elapsed_mono (hgap : ∀ n, gap samples n < 2 ^ 31) {m n : Nat} (hmn : m ≤ n)
    (h : ∀ i, i < n → ¬ Reached samples microSeconds i) :
    elapsed samples m ≤ elapsed samples n := by
  have hticks := delayTicks_lt microSeconds
  induction n with
  | zero => rw [Nat.le_zero.mp hmn]
  | succ n ih =>
    rcases Nat.eq_or_lt_of_le hmn with rfl | hlt
    · exact le_rfl
    · have hn : elapsed samples n < (delayTicks microSeconds).toNat :=
        Nat.lt_of_not_le (h n (by omega))
      rw [elapsed_succ (hgap n) (by omega)]
      exact (ih (by omega) fun i hi => h i (by omega)).trans (Nat.le_add_right _ _)

/-- Where the deadline is before the wrap, only a sample before the wrap is seen to reach it. -/
theorem returnsAt_iff_of_lt
    (hlt : (samples 0).toNat + (delayTicks microSeconds).toNat < 2 ^ 32) (n : Nat) :
    ReturnsAt samples microSeconds n ↔
      FirstFrom (fun i => Reached samples microSeconds i ∧ samples 0 ≤ samples i) 0 n := by
  have htimeout : timeoutOf samples microSeconds
      = (samples 0).toNat + (delayTicks microSeconds).toNat := Nat.mod_eq_of_lt hlt
  have hwrap : FirstFrom (WrapSeen samples microSeconds) 0 0 := by
    refine firstFrom_self ?_
    rw [WrapSeen, htimeout]
    omega
  have hseen : ∀ i, DeadlineSeen samples microSeconds i ↔
      (Reached samples microSeconds i ∧ samples 0 ≤ samples i) := by
    intro i
    have hvalue : (samples i).toNat = _ := value_eq i
    have helapsed : elapsed samples i < 2 ^ 32 := elapsed_lt i
    have h0 := (samples 0).isLt
    rw [DeadlineSeen, Reached, htimeout, BitVec.le_def]
    omega
  rw [returnsAt_iff]
  constructor
  · rintro ⟨m, hm, hn⟩
    rw [hm.unique hwrap] at hn
    exact hn.congr fun i _ _ => hseen i
  · intro hn
    exact ⟨0, hwrap, hn.congr fun i _ _ => (hseen i).symm⟩

section Behind

variable (hge : 2 ^ 32 ≤ (samples 0).toNat + (delayTicks microSeconds).toNat)
include hge

theorem timeoutOf_of_ge : timeoutOf samples microSeconds
    = (samples 0).toNat + (delayTicks microSeconds).toNat - 2 ^ 32 := by
  have hticks := delayTicks_lt microSeconds
  have h0 := (samples 0).isLt
  rw [timeoutOf]
  omega

/-- Where the deadline is behind the wrap, the wrap is seen exactly at the samples behind it. -/
theorem wrapSeen_iff (i : Nat) :
    WrapSeen samples microSeconds i ↔ 2 ^ 32 ≤ (samples 0).toNat + elapsed samples i := by
  have htimeout := timeoutOf_of_ge hge
  have hticks := delayTicks_lt microSeconds
  have h0 := (samples 0).isLt
  have hvalue : (samples i).toNat = _ := value_eq i
  have helapsed : elapsed samples i < 2 ^ 32 := elapsed_lt i
  rw [WrapSeen, htimeout]
  omega

/-- Behind the wrap, the deadline is seen exactly when it is reached. -/
theorem deadlineSeen_iff {i : Nat} (hi : WrapSeen samples microSeconds i) :
    DeadlineSeen samples microSeconds i ↔ Reached samples microSeconds i := by
  have htimeout := timeoutOf_of_ge hge
  have hvalue : (samples i).toNat = _ := value_eq i
  have helapsed : elapsed samples i < 2 ^ 32 := elapsed_lt i
  have hbehind := (wrapSeen_iff hge i).mp hi
  have h0 := (samples 0).isLt
  rw [DeadlineSeen, Reached, htimeout]
  omega

/-- Before the wrap, the deadline is not reached. -/
theorem not_reached_of_not_wrapSeen {i : Nat} (hi : ¬ WrapSeen samples microSeconds i) :
    ¬ Reached samples microSeconds i := by
  rw [wrapSeen_iff hge] at hi
  rw [Reached]
  omega

/-- Once the wrap is seen, it is seen up to the deadline. -/
theorem WrapSeen.later (hgap : ∀ n, gap samples n < 2 ^ 31) {m i : Nat}
    (hm : WrapSeen samples microSeconds m) (hmi : m ≤ i)
    (hbefore : ∀ j, j < i → ¬ Reached samples microSeconds j) :
    WrapSeen samples microSeconds i := by
  have hmono := elapsed_mono hgap hmi hbefore
  rw [wrapSeen_iff hge] at hm ⊢
  omega

/-- Where the deadline is behind the wrap, the wait returns at the first sample to reach it. -/
theorem returnsAt_iff_of_ge (hgap : ∀ n, gap samples n < 2 ^ 31) (n : Nat) :
    ReturnsAt samples microSeconds n ↔ FirstFrom (Reached samples microSeconds) 0 n := by
  rw [returnsAt_iff]
  constructor
  · rintro ⟨m, hm, hn⟩
    -- none of the samples before `n` has reached the deadline
    have hbefore : ∀ i, i < n → ¬ Reached samples microSeconds i := by
      intro i
      induction i using Nat.strong_induction_on with
      | _ i ih =>
        intro hin
        by_cases him : i < m
        · exact not_reached_of_not_wrapSeen hge (hm.before i (Nat.zero_le i) him)
        · have hi : WrapSeen samples microSeconds i :=
            hm.holds.later hge hgap (by omega) fun j hj => ih j hj (by omega)
          exact fun h => hn.before i (by omega) hin ((deadlineSeen_iff hge hi).mpr h)
    have hnwrap : WrapSeen samples microSeconds n := hm.holds.later hge hgap hn.le hbefore
    refine ⟨Nat.zero_le n, ?_, fun i _ hin => hbefore i hin⟩
    exact (deadlineSeen_iff hge hnwrap).mp hn.holds
  · intro hn
    have hbefore : ∀ i, i < n → ¬ Reached samples microSeconds i :=
      fun i hin => hn.before i (Nat.zero_le i) hin
    -- the first wait ends at or before `n`, and from there to `n` the second does not
    have hnwrap : WrapSeen samples microSeconds n := by
      by_contra h
      exact not_reached_of_not_wrapSeen hge h hn.holds
    obtain ⟨m, hmn, hm⟩ := exists_firstFrom (Nat.zero_le n) hnwrap
    refine ⟨m, hm, hmn, (deadlineSeen_iff hge hnwrap).mpr hn.holds, ?_⟩
    intro i hmi hin hseen
    have hi : WrapSeen samples microSeconds i :=
      hm.holds.later hge hgap hmi fun j hj => hbefore j (by omega)
    exact hbefore i hin ((deadlineSeen_iff hge hi).mp hseen)

end Behind

/-- Where the deadline is before the wrap, the wait is exact if the first sample to reach it is
    before the wrap too. -/
theorem exact_iff_of_lt
    (hlt : (samples 0).toNat + (delayTicks microSeconds).toNat < 2 ^ 32) :
    Exact samples microSeconds ↔
      ∀ n, FirstFrom (Reached samples microSeconds) 0 n → samples 0 ≤ samples n := by
  have hreturns := returnsAt_iff_of_lt hlt
  constructor
  · intro hexact n hn
    exact ((hreturns n).mp ((hexact n).mpr hn)).holds.2
  · intro hbefore n
    rw [hreturns]
    constructor
    · intro hn
      -- the first sample to reach the deadline is before the wrap, and so it is this one
      obtain ⟨m, hmn, hm⟩ := exists_firstFrom (Nat.zero_le n) hn.holds.1
      have hmseen : FirstFrom (fun i => Reached samples microSeconds i ∧ samples 0 ≤ samples i)
          0 m := ⟨hm.le, ⟨hm.holds, hbefore m hm⟩, fun i hi hlt h => hm.before i hi hlt h.1⟩
      rwa [hn.unique hmseen]
    · intro hn
      exact ⟨hn.le, ⟨hn.holds, hbefore n hn⟩, fun i hi hlt h => hn.before i hi hlt h.1⟩

end Delay

/-- **Exact delay.**  The wait returns at the first sample at which the requested ticks have
    elapsed exactly when the deadline is behind the wrap of the counter, or the first sample to
    reach it is before. -/
theorem microSecondDelay_exact_iff (samples : Nat → U32) (hgap : ∀ n, gap samples n < 2 ^ 31)
    (microSeconds : U32) :
    Exact samples microSeconds ↔
      2 ^ 32 ≤ (samples 0).toNat + (delayTicks microSeconds).toNat ∨
      ∀ n, FirstFrom (Reached samples microSeconds) 0 n → samples 0 ≤ samples n := by
  rcases Nat.lt_or_ge ((samples 0).toNat + (delayTicks microSeconds).toNat) (2 ^ 32)
    with hlt | hge
  · rw [exact_iff_of_lt hlt]
    exact ⟨Or.inr, fun h => h.resolve_left (by omega)⟩
  · exact iff_of_true (fun n => returnsAt_iff_of_ge hge hgap n) (Or.inl hge)

/-- A wait over a counter that is read at every tick, from 0 on. -/
theorem microSecondDelay_exact_steady : Exact (fun n => BitVec.ofNat 32 n) 1000 := by
  refine (microSecondDelay_exact_iff (fun n => BitVec.ofNat 32 n) ?_ 1000).mpr (Or.inr ?_)
  · intro n
    simp only [gap, BitVec.toNat_sub, BitVec.toNat_ofNat]
    omega
  · intro n _
    simp [BitVec.le_def]

/-- A counter 256 ticks before its wrap, read after 156 ticks and again after 105 more. -/
def skipping : Nat → U32
  | 0 => 0xFFFFFF00
  | 1 => 0xFFFFFF9C
  | _ => 5

/-- A wait of 6 ms, 198 ticks, that misses the 58 ticks from its deadline to the wrap: it does not
    return at the sample 261 ticks after its start. -/
theorem skipping_not_exact :
    (∀ n, gap skipping n < 2 ^ 31) ∧ ¬ Exact skipping 6000 := by
  refine ⟨?_, ?_⟩
  · rintro (_ | _ | n)
    · decide
    · decide
    · show ((5 : U32) - 5).toNat < 2 ^ 31
      decide
  · rw [exact_iff_of_lt (by decide)]
    intro hbefore
    have hfirst : FirstFrom (Reached skipping 6000) 0 2 := by
      refine ⟨by decide, by rw [Reached]; decide, ?_⟩
      intro i _ hi
      rw [Reached]
      interval_cases i
      · decide
      · decide
    exact absurd (hbefore 2 hfirst) (by decide)

end HtcLeo.Timer

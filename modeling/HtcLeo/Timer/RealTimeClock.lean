import HtcLeo.Timer.Gpt

namespace HtcLeo.Timer

/-!
# VirtualRealTimeClockLib — the clock

`LibGetTime` of `Library/VirtualRealTimeClockLib/VirtualRealTimeClockLib.c`, which splits the
performance counter into days, hours, minutes and seconds.

* `EfiTime` — the time it reports.
* `libGetTime_encodes` — the fields are the exact split of the counter at the rate of
  `PcdMsmDgtTimerFreq`, with days counted from 0.
* `TellsTime` — the fields are in range and encode the seconds of the counter at its own rate.
* `tellsTime_iff` — no call that reports a time meets this.
-/

/-- `PcdMsmDgtTimerFreq`. -/
def pcdMsmDgtTimerFreq : U32 := 4800000

/-- `EFI_TIME`. -/
structure EfiTime where
  year : BitVec 16
  month : BitVec 8
  day : BitVec 8
  hour : BitVec 8
  minute : BitVec 8
  second : BitVec 8
  nanosecond : U32
  timeZone : BitVec 16
  daylight : BitVec 8

/-- `EFI_TIME_CAPABILITIES`. -/
structure EfiTimeCapabilities where
  resolution : U32
  accuracy : U32
  setsToZero : Bool

/-- `BaseTime`, as far as it is used. -/
structure BaseTime where
  year : BitVec 16
  month : BitVec 8

/-- `LibRtcInitialize`. -/
def libRtcInitialize : BaseTime := ⟨2019, 1⟩

/-- The time `LibGetTime` stores for a number of seconds. -/
def splitSeconds (baseTime : BaseTime) (elapsedSeconds : BitVec 64) : EfiTime where
  year := baseTime.year
  month := baseTime.month
  day := (elapsedSeconds / 86400#64).setWidth 8
  hour := (elapsedSeconds % 86400#64 / 3600#64).setWidth 8
  minute := (elapsedSeconds % 86400#64 % 3600#64 / 60#64).setWidth 8
  second := (elapsedSeconds % 86400#64 % 3600#64 % 60#64).setWidth 8
  nanosecond := 0
  timeZone := 0
  daylight := 0

/-- `LibGetTime` when the counter holds `count`: the status, and what it stores at `Time` and at
    `Capabilities`; `wanted` and `capable` say that these are not `NULL`. -/
def libGetTime (baseTime : BaseTime) (count : U32) (wanted capable : Bool) :
    EfiStatus × Option EfiTime × Option EfiTimeCapabilities :=
  let freq := pcdMsmDgtTimerFreq
  if !wanted then (.invalidParameter, none, none)
  else if freq = 0 then (.deviceError, none, none)
  else
    let capabilities := if capable then some ⟨freq, 0, false⟩ else none
    let elapsedSeconds := getPerformanceCounter count / freq.setWidth 64
    (.success, some (splitSeconds baseTime elapsedSeconds), capabilities)

/-- The seconds that a day, counted from 0, and a time of day stand for. -/
def EfiTime.secondsFrom (day : Nat) (time : EfiTime) : Nat :=
  day * 86400 + time.hour.toNat * 3600 + time.minute.toNat * 60 + time.second.toNat

/-- A time is in range, and encodes the seconds that the counter shows at its own frequency, from
    the first instant of day 1 on. -/
structure TellsTime (count : U32) (time : EfiTime) : Prop where
  day_pos : 1 ≤ time.day.toNat
  hour_lt : time.hour.toNat < 24
  minute_lt : time.minute.toNat < 60
  second_lt : time.second.toNat < 60
  encodes : time.secondsFrom (time.day.toNat - 1)
    = (getPerformanceCounter count).toNat / getPerformanceCounterProperties.toNat

/-- The parts of a number of seconds. -/
theorem splitSeconds_spec (baseTime : BaseTime) {elapsedSeconds : BitVec 64}
    (h : elapsedSeconds.toNat < 256 * 86400) :
    (splitSeconds baseTime elapsedSeconds).secondsFrom
        (splitSeconds baseTime elapsedSeconds).day.toNat = elapsedSeconds.toNat ∧
      (splitSeconds baseTime elapsedSeconds).hour.toNat < 24 ∧
      (splitSeconds baseTime elapsedSeconds).minute.toNat < 60 ∧
      (splitSeconds baseTime elapsedSeconds).second.toNat < 60 := by
  simp only [EfiTime.secondsFrom, splitSeconds, BitVec.toNat_setWidth, BitVec.toNat_udiv,
    BitVec.toNat_umod, BitVec.toNat_ofNat, Nat.reducePow, Nat.reduceMod]
  omega

/-- The seconds that `LibGetTime` counts. -/
theorem elapsedSeconds_toNat (count : U32) :
    (getPerformanceCounter count / pcdMsmDgtTimerFreq.setWidth 64).toNat
      = count.toNat / 4800000 := by
  have hcount := count.isLt
  have hfreq : (pcdMsmDgtTimerFreq.setWidth 64).toNat = 4800000 := rfl
  rw [BitVec.toNat_udiv, hfreq, getPerformanceCounter, BitVec.toNat_setWidth]
  omega

/-- What a call reports. -/
theorem libGetTime_time {baseTime : BaseTime} {count : U32} {wanted capable : Bool} {time : EfiTime}
    (h : (libGetTime baseTime count wanted capable).2.1 = some time) :
    wanted = true ∧ time = splitSeconds baseTime
      (getPerformanceCounter count / pcdMsmDgtTimerFreq.setWidth 64) := by
  unfold libGetTime at h
  cases wanted with
  | false => exact absurd h (by simp)
  | true => exact ⟨rfl, (Option.some.inj h).symm⟩

/-- The fields reported are in range, and encode the counter at 4.8 MHz, with days counted
    from 0. -/
theorem libGetTime_encodes {baseTime : BaseTime} {count : U32} {wanted capable : Bool}
    {time : EfiTime} (h : (libGetTime baseTime count wanted capable).2.1 = some time) :
    time.secondsFrom time.day.toNat = count.toNat / 4800000 ∧
      time.hour.toNat < 24 ∧ time.minute.toNat < 60 ∧ time.second.toNat < 60 := by
  obtain ⟨_, rfl⟩ := libGetTime_time h
  have hcount := count.isLt
  rw [← elapsedSeconds_toNat]
  apply splitSeconds_spec
  rw [elapsedSeconds_toNat]
  omega

/-- The counter wraps within the first day: the day reported is always 0. -/
theorem libGetTime_day {baseTime : BaseTime} {count : U32} {wanted capable : Bool}
    {time : EfiTime} (h : (libGetTime baseTime count wanted capable).2.1 = some time) :
    time.day.toNat = 0 := by
  have hcount := count.isLt
  obtain ⟨hsum, _⟩ := libGetTime_encodes h
  rw [EfiTime.secondsFrom] at hsum
  omega

/-- With days counted from 0, the time is right for the first second only: the counter runs at
    another rate than `PcdMsmDgtTimerFreq`. -/
theorem libGetTime_rate_iff {baseTime : BaseTime} {count : U32} {wanted capable : Bool}
    {time : EfiTime} (h : (libGetTime baseTime count wanted capable).2.1 = some time) :
    time.secondsFrom time.day.toNat
        = (getPerformanceCounter count).toNat / getPerformanceCounterProperties.toNat ↔
      count.toNat < 32765 := by
  have hcount := count.isLt
  rw [(libGetTime_encodes h).1, getPerformanceCounter, BitVec.toNat_setWidth, frequency_toNat]
  omega

/-- **Virtual clock.**  Every time that `LibGetTime` reports is wrong: what it should be is met
    only by calls that are refused for a `NULL` pointer. -/
theorem tellsTime_iff (baseTime : BaseTime) (count : U32) (wanted capable : Bool) :
    (∀ time, (libGetTime baseTime count wanted capable).1 = .success →
      (libGetTime baseTime count wanted capable).2.1 = some time → TellsTime count time) ↔
      wanted = false := by
  cases wanted with
  | false => exact iff_of_true (fun time hstatus => absurd hstatus (by simp [libGetTime])) rfl
  | true =>
    refine iff_of_false ?_ (by simp)
    intro h
    obtain ⟨time, htime⟩ : ∃ time, (libGetTime baseTime count true capable).2.1 = some time :=
      ⟨_, rfl⟩
    have htells := h time rfl htime
    have hday := libGetTime_day htime
    exact absurd htells.day_pos (by omega)

/-- A minute after the start of the counter. -/
theorem minute_not_told :
    ¬ ∀ time, (libGetTime libRtcInitialize 1965900 true false).1 = .success →
      (libGetTime libRtcInitialize 1965900 true false).2.1 = some time →
        TellsTime 1965900 time := by
  intro h
  have htells := h _ rfl rfl
  exact absurd htells.day_pos (by decide)

end HtcLeo.Timer

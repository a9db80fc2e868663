import HtcLeo.Uefi
import HtcLeo.Lib.Memory

namespace HtcLeo.MicroP

/-!
# MicroPDxe — the LED behind the microcontroller

`microp_i2c_write` of `Drivers/MicroPDxe/MicroPDxe.c`, and `htcleo_led_set_mode`, which sends a
command by it and does not look at what it returns.

* `Attempt`, `Write` — what becomes of the attempts to send a message.
* `micropI2cWrite` — the message with its retries; `micropI2cWrite_taken_iff` says when the
  microcontroller gets it.
* `htcleoLedSetMode_eq` — the LED shows the mode if the command is taken, else what it did.
-/

/-- What a `Xfer` of one message returns, and whether the microcontroller has taken the message. -/
structure Attempt where
  ret : Int
  taken : Bool

/-- A call of `microp_i2c_write`: whether `pdata` is set, and the attempts it may come to. -/
structure Write where
  pdata : Bool
  attempts : Nat → Attempt

/-- `MSM_I2C_WRITE_RETRY_TIMES`. -/
def msmI2cWriteRetryTimes : Nat := 16

/-- `MICROP_I2C_WRITE_BLOCK_SIZE`. -/
def micropI2cWriteBlockSize : Nat := 21

/-- `MICROP_I2C_WCMD_LED_CTRL`. -/
def micropI2cWcmdLedCtrl : Byte := 0x51

/-- The loop over the retries, with those that are left: what the function returns, and whether
    the message has been taken. -/
def retryWrite (attempts : Nat → Attempt) : Nat → Nat → Int × Bool
  | 0, _ => (-1, false)
  | left + 1, retry =>
    if (attempts retry).ret = 1 then (0, (attempts retry).taken)
    else
      let (rc, taken) := retryWrite attempts left (retry + 1)
      (rc, (attempts retry).taken || taken)

/-- `microp_i2c_write`: what it returns, and the message, if that has been taken. -/
def micropI2cWrite (w : Write) (addr : Byte) (cmd : List Byte) : Int × Option (List Byte) :=
  if !w.pdata then (-1, none)
  else if micropI2cWriteBlockSize ≤ cmd.length then (-1, none)
  else
    let (rc, taken) := retryWrite w.attempts (msmI2cWriteRetryTimes + 1) 0
    (rc, if taken then some (addr :: cmd) else none)

/-- The colour of the LED after a message: the last byte of the command for it. -/
def ledAfter (led : U32) : Option (List Byte) → U32
  | some [addr, _, colour] => if addr = micropI2cWcmdLedCtrl then colour.setWidth 32 else led
  | _ => led

/-- `htcleo_led_set_mode`, for the colour of the LED before. -/
def htcleoLedSetMode (w : Write) (mode : Byte) (led : U32) : U32 :=
  let data1 : Byte := if mode = 0x01 then 0x01 else if mode = 0x02 then 0x02 else 0x00
  ledAfter led (micropI2cWrite w micropI2cWcmdLedCtrl [0x00, data1]).2

/-! ### When the command is taken -/

/-- One of the attempts that are made is taken: none before it has returned 1. -/
def Write.Taken (w : Write) : Prop :=
  w.pdata = true ∧ ∃ k ≤ msmI2cWriteRetryTimes, (∀ j < k, (w.attempts j).ret ≠ 1) ∧
    (w.attempts k).taken = true

/-- **Retries.**  From an attempt on, the message is taken by one of those that are made. -/
theorem retryWrite_taken_iff (attempts : Nat → Attempt) (left retry : Nat) :
    (retryWrite attempts left retry).2 = true ↔
      ∃ k < left, (∀ j < k, (attempts (retry + j)).ret ≠ 1) ∧
        (attempts (retry + k)).taken = true := by
  -- by induction on the retries left; one is made only while none before has returned 1
  induction left generalizing retry with
  | zero => simp [retryWrite]
  | succ left ih =>
    unfold retryWrite
    by_cases hret : (attempts retry).ret = 1
    · -- the last attempt
      rw [if_pos hret]
      constructor
      · intro htaken
        exact ⟨0, Nat.succ_pos left, fun j hj => absurd hj (Nat.not_lt_zero j), htaken⟩
      · rintro ⟨k, _, hbefore, htaken⟩
        obtain rfl : k = 0 := by
          by_contra hk
          exact hbefore 0 (Nat.pos_of_ne_zero hk) hret
        exact htaken
    · -- this one is taken, or one of those that follow
      rw [if_neg hret]
      dsimp only
      rw [Bool.or_eq_true, ih]
      constructor
      · rintro (htaken | ⟨k, hk, hbefore, htaken⟩)
        · exact ⟨0, Nat.succ_pos left, fun j hj => absurd hj (Nat.not_lt_zero j), htaken⟩
        · refine ⟨k + 1, Nat.succ_lt_succ hk, ?_, by rwa [← Nat.succ_add_eq_add_succ]⟩
          intro j hj
          cases j with
          | zero => exact hret
          | succ j =>
            rw [← Nat.succ_add_eq_add_succ]
            exact hbefore j (Nat.lt_of_succ_lt_succ hj)
      · rintro ⟨k, hk, hbefore, htaken⟩
        cases k with
        | zero => exact Or.inl htaken
        | succ k =>
          refine Or.inr ⟨k, Nat.lt_of_succ_lt_succ hk, ?_, by rwa [Nat.succ_add_eq_add_succ]⟩
          intro j hj
          rw [Nat.succ_add_eq_add_succ]
          exact hbefore (j + 1) (Nat.succ_lt_succ hj)

/-- A short message is taken exactly when one of the attempts is. -/
theorem micropI2cWrite_taken_iff (w : Write) (addr : Byte) {cmd : List Byte}
    (hcmd : cmd.length < micropI2cWriteBlockSize) :
    (micropI2cWrite w addr cmd).2 = some (addr :: cmd) ↔ w.Taken := by
  unfold micropI2cWrite Write.Taken
  cases w.pdata with
  | false => simp
  | true =>
    have htaken := retryWrite_taken_iff w.attempts (msmI2cWriteRetryTimes + 1) 0
    simp only [Nat.zero_add, Nat.lt_succ_iff] at htaken
    simp [Nat.not_le.mpr hcmd, htaken]

/-- A message is taken whole or not at all. -/
theorem micropI2cWrite_snd (w : Write) (addr : Byte) (cmd : List Byte) :
    (micropI2cWrite w addr cmd).2 = some (addr :: cmd) ∨ (micropI2cWrite w addr cmd).2 = none := by
  unfold micropI2cWrite
  split_ifs
  · exact Or.inr rfl
  · exact Or.inr rfl
  · dsimp only
    split_ifs
    · exact Or.inl rfl
    · exact Or.inr rfl

/-- **LED.**  For the modes there are, the LED shows the mode if the command is taken, and else
    what it did before. -/
theorem htcleoLedSetMode_eq (w : Write) {mode : Byte} (hmode : mode ≤ 2) (led : U32) :
    (w.Taken → htcleoLedSetMode w mode led = mode.setWidth 32) ∧
      (¬ w.Taken → htcleoLedSetMode w mode led = led) := by
  -- the switch passes the mode on as it is
  have hcolour : (if mode = 0x01 then 0x01 else if mode = 0x02 then 0x02 else 0x00 : Byte)
      = mode := by
    have hall : ∀ mode : Byte, mode ≤ 2 →
        (if mode = 0x01 then 0x01 else if mode = 0x02 then 0x02 else 0x00 : Byte) = mode := by
      decide
    exact hall mode hmode
  have hshort : [0x00, mode].length < micropI2cWriteBlockSize := by
    show 2 < 21
    decide
  have hiff := micropI2cWrite_taken_iff w micropI2cWcmdLedCtrl hshort
  unfold htcleoLedSetMode
  dsimp only
  rw [hcolour]
  constructor
  · intro htaken
    rw [hiff.mpr htaken]
    simp only [ledAfter, if_true]
  · intro hlost
    rw [(micropI2cWrite_snd w _ _).resolve_left (mt hiff.mp hlost)]
    rfl

end HtcLeo.MicroP

import HtcLeo.SdCard.Latch

namespace HtcLeo.SdCard

open Prog BitMask

/-!
# SdCardDxe — errors that the card reports

A single-block transfer can fail on two channels: the status of the controller, and the card's
`R1` responses to its commands.

* `cardStatusErrors` — the error bits of an `R1` response.
* `Latch.DataPhaseOk` — all words were moved, and the status that reported the end of the block
  showed no error.
* `NoticesReadErrors`, `NoticesWriteErrors` — a transfer that returns `TRUE` had no error on either
  channel.
* `noticesErrors_iff` — the status of the controller is looked at, the responses are not.
-/

/-! ### Error-free transfers -/

/-- The error bits of the card status in an `R1` response: `OUT_OF_RANGE`, `ADDRESS_ERROR`,
    `BLOCK_LEN_ERROR`, `ERASE_SEQ_ERROR`, `ERASE_PARAM`, `WP_VIOLATION`, `LOCK_UNLOCK_FAILED`,
    `COM_CRC_ERROR`, `ILLEGAL_COMMAND`, `CARD_ECC_FAILED`, `CC_ERROR`, `ERROR`, `CSD_OVERWRITE`,
    `WP_ERASE_SKIP` and `AKE_SEQ_ERROR`. -/
def cardStatusErrors : U32 := 0xFDF98008

/-- The `R1` response to a command. -/
def r1 (response : BitVec 16 → Fin 4 → U32) (cmdIndex : BitVec 16) : U32 :=
  response cmdIndex ⟨0, by decide⟩

/-- The status that reported the end of the block, once all its words were moved, showed none of
    the errors; one that is held until it is cleared shows there whenever it was met before. -/
def Latch.DataPhaseOk (errors : U32) (s : Latch) : Prop :=
  ∃ status, s.blockEnd = some status ∧ hasBit status errors = false

variable (held : U32) (response : BitVec 16 → Fin 4 → U32)

/-- `read_a_block` returns `TRUE` only when the card has reported no error and the data phase has
    completed without one, whatever the status shows. -/
def NoticesReadErrors : Prop :=
  ∀ (fuel : Nat) (highCapacity : Bool) (block : U32) (buffer : Nat) (c : Conditions)
    (m m' : Machine Latch), c.response = response →
    readABlock (latch held) fuel highCapacity block buffer { m with dev := m.dev.start c }
      = (some true, m') →
    hasBit (r1 response cmd17) cardStatusErrors = false ∧ m'.dev.DataPhaseOk readErrors

/-- `write_a_block` likewise. -/
def NoticesWriteErrors : Prop :=
  ∀ (fuel : Nat) (highCapacity : Bool) (block : U32) (buffer : Nat) (rca : BitVec 16)
    (c : Conditions) (m m' : Machine Latch), c.response = response →
    writeABlock (latch held) fuel highCapacity block buffer rca { m with dev := m.dev.start c }
      = (some true, m') →
    (hasBit (r1 response cmd24) cardStatusErrors = false ∧
      hasBit (r1 response cmd13) cardStatusErrors = false) ∧ m'.dev.DataPhaseOk writeErrors

variable {held response}

/-! ### The data phase -/

/-- `k` words have been moved, and the end of the block has not been reported. -/
def Latch.Moving (k : Nat) (s : Latch) : Prop := s.moved = k ∧ s.blockEnd = none

/-- Before the last word is moved, no status reports the end of the block. -/
theorem Latch.Moving.poll {k : Nat} {s : Latch} (h : s.Moving k) (hk : k < 128) (held : U32) :
    (s.poll held).Moving k := by
  obtain ⟨hmoved, hend⟩ := h
  have hnone : s.endsBlock (s.shown held) = false := by
    unfold endsBlock
    rw [hmoved, decide_eq_false (by omega), Bool.and_false, Bool.false_and]
  refine ⟨hmoved, ?_⟩
  show (if s.endsBlock (s.shown held) then some (s.shown held) else s.blockEnd) = none
  rw [hnone, hend]
  rfl

theorem moving_polled {k : Nat} (hk : k < 128) {clears : List U32} :
    Polled (latch held) clears fun m => m.dev.Moving k where
  status := fun _ hm => Latch.Moving.poll hm hk held
  resp := fun _ _ hm => hm
  clear := fun _ _ _ hm => hm

theorem moving_write {k : Nat} {r : MciReg} (hr : r ≠ .fifo) (v : U32) :
    Keeps (fun m : Machine Latch => m.dev.Moving k) (ioWrite32 (latch held) r v) := by
  intro m hm
  cases r with
  | fifo => exact absurd rfl hr
  | _ => exact hm

/-- The end of the block is reported once. -/
theorem dataPhaseOk_polled {errors : U32} {clears : List U32} :
    Polled (latch held) clears fun m => m.dev.DataPhaseOk errors where
  status := by
    rintro m ⟨status, hend, hok⟩
    refine ⟨status, ?_, hok⟩
    have hagain : m.dev.endsBlock (m.dev.shown held) = false := by
      unfold Latch.endsBlock
      rw [hend, Option.isNone_some, Bool.false_and, Bool.false_and]
    show (if m.dev.endsBlock (m.dev.shown held) then some (m.dev.shown held)
      else m.dev.blockEnd) = some status
    rw [hagain, hend]
    rfl
  resp := fun _ _ hm => hm
  clear := fun _ _ _ hm => hm

theorem dataPhaseOk_write {errors : U32} {r : MciReg} (v : U32) :
    Keeps (fun m : Machine Latch => m.dev.DataPhaseOk errors) (ioWrite32 (latch held) r v) := by
  intro m hm
  cases r with
  | _ => exact hm

/-- A command of a transfer, before the first word is moved. -/
theorem sdccSendCmd_moving (fuel : Nat) (cmd : BitVec 16) (arg : U32) :
    Keeps (fun m : Machine Latch => m.dev.Moving 0) (sdccSendCmd (latch held) fuel cmd arg) :=
  (moving_polled (by decide)).sdccSendCmd (moving_write (by decide) _)
    (moving_write (by decide) _) fuel

/-- As many words have been moved as the cursor says. -/
def MovedTo (c : Cursor) (m : Machine Latch) : Prop :=
  ∃ k, m.dev.Moving k ∧ c.byteCount = 4 * k ∧ k ≤ 128

/-- At its end the cursor has moved all words. -/
theorem MovedTo.all {c : Cursor} {m : Machine Latch} (h : MovedTo c m)
    (hend : ¬ c.byteCount < blockSize) : m.dev.Moving 128 := by
  obtain ⟨k, hmoving, hcount, hk⟩ := h
  have hend' : ¬ c.byteCount < 512 := hend
  obtain rfl : k = 128 := by omega
  exact hmoving

/-- Before its end it has a word to move. -/
theorem movedTo_status (c : Cursor) (hlt : c.byteCount < blockSize) :
    Ensures (MovedTo c) (ioRead32 (latch held) .status) (fun _ => MovedTo c) := by
  refine latch_status_ensures fun m hm => ?_
  obtain ⟨k, hmoving, hcount, hk⟩ := hm
  have hlt' : c.byteCount < 512 := hlt
  exact ⟨k, hmoving.poll (by omega) held, hcount, hk⟩

/-- One more word. -/
theorem MovedTo.next {c : Cursor} {m : Machine Latch} (h : MovedTo c m)
    (hlt : c.byteCount < blockSize) (mem : Memory) :
    MovedTo c.next ⟨{ m.dev with moved := m.dev.moved + 1 }, mem⟩ := by
  obtain ⟨k, ⟨hmoved, hnone⟩, hcount, hk⟩ := h
  have hlt' : c.byteCount < 512 := hlt
  refine ⟨k + 1, ⟨?_, hnone⟩, ?_, by omega⟩
  · show m.dev.moved + 1 = k + 1
    rw [hmoved]
  · show c.byteCount + 4 = 4 * (k + 1)
    omega

theorem readLoop_moves (fuel buffer : Nat) :
    Ensures (fun m : Machine Latch => m.dev.Moving 0) (readLoop (latch held) fuel ⟨buffer, 0⟩)
      (fun ok m => ok = true → m.dev.Moving 128) := by
  refine Ensures.mono (P := MovedTo ⟨buffer, 0⟩) ?_ (fun m hm => ⟨0, hm, rfl, Nat.zero_le _⟩)
    (fun _ _ h => h)
  refine Ensures.loop MovedTo (fun c => ?_) fuel _
  split
  · next hlt =>
    refine Ensures.bind (movedTo_status c hlt) fun status => ?_
    split
    · -- the word that is there
      intro m r m' hm heq
      obtain ⟨rfl, rfl⟩ := Prod.mk.inj heq |>.imp_left Option.some.inj
      exact hm.next hlt _
    · split
      · exact Ensures.pure fun _ hm => hm
      · -- an error has been shown, and the loop gives up
        exact Ensures.pure fun _ _ h => absurd h (by decide)
  · next hend => exact Ensures.pure fun m hm _ => hm.all hend

theorem writeLoop_moves (fuel buffer : Nat) :
    Ensures (fun m : Machine Latch => m.dev.Moving 0) (writeLoop (latch held) fuel ⟨buffer, 0⟩)
      (fun ok m => ok = true → m.dev.Moving 128) := by
  refine Ensures.mono (P := MovedTo ⟨buffer, 0⟩) ?_ (fun m hm => ⟨0, hm, rfl, Nat.zero_le _⟩)
    (fun _ _ h => h)
  refine Ensures.loop MovedTo (fun c => ?_) fuel _
  split
  · next hlt =>
    refine Ensures.bind (movedTo_status c hlt) fun status => ?_
    have hpush : Ensures (MovedTo c) (pushWord (latch held) status c) (fun c' => MovedTo c') := by
      unfold pushWord
      split
      · -- the FIFO is full
        exact Ensures.pure fun _ hm => hm
      · intro m r m' hm heq
        obtain ⟨rfl, rfl⟩ := Prod.mk.inj heq |>.imp_left Option.some.inj
        exact hm.next hlt _
    refine Ensures.bind hpush fun c' => ?_
    split
    · exact Ensures.pure fun _ _ h => absurd h (by decide)
    · exact Ensures.pure fun _ hm => hm
  · next hend => exact Ensures.pure fun m hm _ => hm.all hend

/-- The check after a block passes only if its end has been reported without an error. -/
theorem checkClearStatus_reports (fuel : Nat) (errors cleared : U32) :
    Ensures (fun m : Machine Latch => m.dev.Moving 128)
      (checkClearStatus (latch held) fuel errors cleared)
      (fun ok m => ok = true → m.dev.DataPhaseOk errors) := by
  have hpoll : Ensures (fun m : Machine Latch => m.dev.Moving 128)
      (pollStatus (latch held) fuel fun s => hasBit s errors || hasBit s statusDataBlkEnd)
      (fun w m => hasBit w errors = false → m.dev.DataPhaseOk errors) := by
    refine pollStatus_ensures (latch_status_ensures fun m hm => ?_) fuel
    obtain ⟨hmoved, hnone⟩ := hm
    have hends : m.dev.endsBlock (m.dev.shown held)
        = hasBit (m.dev.shown held) statusDataBlkEnd := by
      unfold Latch.endsBlock
      rw [hnone, hmoved, Option.isNone_none, decide_eq_true (Nat.le_refl 128), Bool.true_and,
        Bool.true_and]
    constructor
    · -- the wait has ended without an error, so at the end of the block
      intro hstop hok
      rw [hok, Bool.false_or] at hstop
      refine ⟨m.dev.shown held, ?_, hok⟩
      show (if m.dev.endsBlock (m.dev.shown held) then _ else m.dev.blockEnd) = _
      rw [hends, hstop]
      rfl
    · intro hgo
      obtain ⟨-, hblock⟩ := Bool.or_eq_false_iff.mp hgo
      refine ⟨hmoved, ?_⟩
      show (if m.dev.endsBlock (m.dev.shown held) then _ else m.dev.blockEnd) = none
      rw [hends, hblock, hnone]
      rfl
  have hpolled : Polled (latch held) (blockClears cleared)
      fun m => m.dev.DataPhaseOk errors := dataPhaseOk_polled
  refine Ensures.bind hpoll fun w => ?_
  cases hok : hasBit w errors with
  | true => exact Ensures.pure fun _ _ h => absurd h (by decide)
  | false =>
    have hrest := hpolled.clearBlock fuel
    exact hrest.ensures.mono (fun _ hm => hm rfl) (fun _ _ hm _ => hm)

/-! ### The transfers -/

/-- A new operation has moved nothing. -/
theorem Latch.moving_start (c : Conditions) (s : Latch) : (s.start c).Moving 0 := ⟨rfl, rfl⟩

/-- A `read_a_block` that returns `TRUE` has had a data phase without an error. -/
theorem readABlock_dataPhase (fuel : Nat) (highCapacity : Bool) (block : U32) (buffer : Nat) :
    Ensures (fun m : Machine Latch => m.dev.Moving 0)
      (readABlock (latch held) fuel highCapacity block buffer)
      (fun ok m => ok = true → m.dev.DataPhaseOk readErrors) := by
  refine readABlock_ensures (fun r hr v => (moving_write ?_ v).ensures)
    (sdccSendCmd_moving fuel _ _).ensures (readLoop_moves fuel buffer) ?_
    (fun _ _ h => absurd h (by decide))
  · rintro rfl
    simp at hr
  · exact (checkClearStatus_reports fuel _ _).mono (fun _ hm => hm rfl) (fun _ _ h => h)

/-- So has a `write_a_block`. -/
theorem writeABlock_dataPhase (fuel : Nat) (highCapacity : Bool) (block : U32) (buffer : Nat)
    (rca : BitVec 16) :
    Ensures (fun m : Machine Latch => m.dev.Moving 0)
      (writeABlock (latch held) fuel highCapacity block buffer rca)
      (fun ok m => ok = true → m.dev.DataPhaseOk writeErrors) := by
  have hend : Keeps (fun m : Machine Latch => m.dev.DataPhaseOk writeErrors)
      (writeEnd (latch held) fuel rca) :=
    dataPhaseOk_polled.writeEnd (fun arg => dataPhaseOk_write arg)
      (fun v => dataPhaseOk_write v) fuel
  refine writeABlock_ensures (C := fun ok m => ok = true → m.dev.DataPhaseOk writeErrors)
    (fun r hr v => (moving_write ?_ v).ensures) (sdccSendCmd_moving fuel _ _).ensures
    (fun v => (moving_write (by decide) v).ensures) (writeLoop_moves fuel buffer) ?_ ?_
    (fun _ _ h => absurd h (by decide))
  · rintro rfl
    simp at hr
  · exact (checkClearStatus_reports fuel _ _).mono (fun _ hm => hm rfl) (fun _ _ h => h)
  · exact hend.ensures.mono (fun _ hm => hm rfl) (fun _ _ hm _ => hm)

/-- On a prompt controller both return `TRUE`, whatever the card responds. -/
theorem prompt_succeeds (held : U32) (response : BitVec 16 → Fin 4 → U32) :
    ∃ m m', readABlock (latch held) 129 true 0 0
        { newMachine with dev := newMachine.dev.start (promptConditions response) }
          = (some true, m) ∧
      writeABlock (latch held) 129 true 0 0 0
        { newMachine with dev := newMachine.dev.start (promptConditions response) }
          = (some true, m') := by
  have hprompt : IsPrompt Latch.Busy Latch.Idle
      { newMachine with dev := newMachine.dev.start (promptConditions response) } :=
    Or.inl ⟨⟨rfl, fun _ => rfl, rfl⟩, rfl⟩
  have hfuel : 128 < 129 := by decide
  obtain ⟨_, m, hread, rfl, -⟩ := latch_alternates.readABlock hfuel true 0 0 _ hprompt
  obtain ⟨_, m', hwrite, rfl, -⟩ := latch_alternates.writeABlock hfuel true 0 0 0 _ hprompt
  exact ⟨m, m', hread, hwrite⟩

/-- **The two channels.**  Whatever the status shows, an error of the data phase is noticed; an
    error in a response is not.  So a transfer notices all errors exactly when the card's responses
    to its commands carry none. -/
theorem noticesErrors_iff (held : U32) (response : BitVec 16 → Fin 4 → U32) :
    (NoticesReadErrors held response ↔
        hasBit (r1 response cmd17) cardStatusErrors = false) ∧
      (NoticesWriteErrors held response ↔
        hasBit (r1 response cmd24) cardStatusErrors = false ∧
          hasBit (r1 response cmd13) cardStatusErrors = false) := by
  -- a transfer that succeeds, whatever the responses: a noticed error would contradict it
  obtain ⟨m, m', hread, hwrite⟩ := prompt_succeeds held response
  constructor
  · constructor
    · exact fun h => (h 129 true 0 0 _ newMachine m rfl hread).1
    · intro hcard fuel highCapacity block buffer c m m' _ hrun
      exact ⟨hcard, readABlock_dataPhase fuel highCapacity block buffer _ true m'
        (m.dev.moving_start c) hrun rfl⟩
  · constructor
    · exact fun h => (h 129 true 0 0 0 _ newMachine m' rfl hwrite).1
    · intro hcard fuel highCapacity block buffer rca c m m' _ hrun
      exact ⟨hcard, writeABlock_dataPhase fuel highCapacity block buffer rca _ true m'
        (m.dev.moving_start c) hrun rfl⟩

/-- A card that refuses every write with `WP_VIOLATION`: the write is reported as done. -/
theorem writeViolation_not_noticed :
    ¬ NoticesWriteErrors errorBits (fun _ _ => 0x04000000) := by
  intro h
  obtain ⟨_, m', -, hwrite⟩ := prompt_succeeds errorBits (fun _ _ => 0x04000000)
  have hcard := (h 129 true 0 0 0 _ newMachine m' rfl hwrite).1.1
  exact absurd hcard (by decide)

end HtcLeo.SdCard

import HtcLeo.SdCard.Mci

namespace HtcLeo.SdCard

open Prog

/-!
# SdCardDxe — prompt controllers

On a controller whose polls show, in turn, every flag the driver waits to see set and every flag
it waits to see cleared, commands with a response and single-block transfers have a result, and
succeed.

* `busyStatus`, `idleStatus` — what such a controller shows.
* `Alternates` — its states: those before the one word, and those before the other.
* `Alternates.pollStatus` — a poll that waits for something one of the two words shows ends.
* `Alternates.readABlock`, `Alternates.writeABlock` — the transfers succeed.
-/

/-- The flags of a command and a block transfer that went well, all set. -/
def busyStatus : U32 :=
  statusProgDone ||| statusRxdataAvlbl ||| statusDataBlkEnd ||| statusDataend |||
    statusCmdResponseEnd

/-- A word can be read from and written to the FIFO; nothing else is set. -/
def idleStatus : U32 := statusRxdataAvlbl

/-- Both words in turn. -/
def promptStatus (n : Nat) : U32 := if n % 2 = 0 then busyStatus else idleStatus

/-- The controller shows the one word in a state of `busy`, the other in one of `idle`, and a poll
    leads from each to the other; no other access does. -/
structure Alternates {σ : Type} (io : Mci σ) (busy idle : σ → Prop) : Prop where
  showsBusy : ∀ s, busy s → (io.read .status s).1 = busyStatus ∧ idle (io.read .status s).2
  showsIdle : ∀ s, idle s → (io.read .status s).1 = idleStatus ∧ busy (io.read .status s).2
  read : ∀ r s, r ≠ .status →
    (busy s → busy (io.read r s).2) ∧ (idle s → idle (io.read r s).2)
  write : ∀ r v s, (busy s → busy (io.write r v s)) ∧ (idle s → idle (io.write r v s))

/-- The controller is in one of the states. -/
def IsPrompt {σ : Type} (busy idle : σ → Prop) (m : Machine σ) : Prop := busy m.dev ∨ idle m.dev

namespace Alternates

variable {σ : Type} {io : Mci σ} {busy idle : σ → Prop} {fuel : Nat}

/-! ### Accesses -/

theorem ioWrite32 (h : Alternates io busy idle) (r : MciReg) (v : U32) :
    Completes (IsPrompt busy idle) (SdCard.ioWrite32 io r v) (fun _ => IsPrompt busy idle) :=
  fun m hm => ⟨(), _, rfl, hm.imp (h.write r v m.dev).1 (h.write r v m.dev).2⟩

theorem ioRead32 (h : Alternates io busy idle) {r : MciReg} (hr : r ≠ .status) :
    Completes (IsPrompt busy idle) (SdCard.ioRead32 io r) (fun _ => IsPrompt busy idle) :=
  fun m hm => ⟨_, _, rfl, hm.imp (h.read r m.dev hr).1 (h.read r m.dev hr).2⟩

theorem readResponse (h : Alternates io busy idle) :
    Completes (IsPrompt busy idle) (SdCard.readResponse io) (fun _ => IsPrompt busy idle) := by
  refine Completes.bind (Completes.mapM (fun n => h.ioRead32 ?_) _) fun _ => ?_
  · exact MciReg.noConfusion
  · exact Completes.pure fun _ hm => hm

/-- A read of the status shows one of the two words, and leaves the other to be shown next. -/
theorem ioRead32_status (h : Alternates io busy idle) :
    Completes (IsPrompt busy idle) (SdCard.ioRead32 io .status)
      (fun s m => s = busyStatus ∧ idle m.dev ∨ s = idleStatus ∧ busy m.dev) := by
  intro m hm
  refine ⟨_, _, rfl, ?_⟩
  rcases hm with hbusy | hidle
  · exact Or.inl (h.showsBusy m.dev hbusy)
  · exact Or.inr (h.showsIdle m.dev hidle)

/-- What both words show, every read of the status shows. -/
theorem ioRead32_status_both (h : Alternates io busy idle) {shown : U32 → Bool}
    (hbusy : shown busyStatus = true) (hidle : shown idleStatus = true) :
    Completes (IsPrompt busy idle) (SdCard.ioRead32 io .status)
      (fun s m => shown s = true ∧ IsPrompt busy idle m) := by
  refine h.ioRead32_status.mono (fun _ hm => hm) ?_
  rintro s m (⟨rfl, hm⟩ | ⟨rfl, hm⟩)
  · exact ⟨hbusy, Or.inr hm⟩
  · exact ⟨hidle, Or.inl hm⟩

/-! ### Polls -/

/-- A wait for something that one of the two words shows ends after two polls at most. -/
theorem pollStatus (h : Alternates io busy idle) (hfuel : 1 < fuel) {stop : U32 → Bool}
    (hstop : stop busyStatus = true ∨ stop idleStatus = true) :
    Completes (IsPrompt busy idle) (SdCard.pollStatus io fuel stop)
      (fun s m => IsPrompt busy idle m ∧ stop s = true ∧ (s = busyStatus ∨ s = idleStatus)) := by
  -- with no more poll to come, the next one shows what is waited for
  let Inv (n : Nat) (_ : Unit) (m : Machine σ) : Prop :=
    1 ≤ n ∧ IsPrompt busy idle m ∨ busy m.dev ∧ stop busyStatus = true ∨
      idle m.dev ∧ stop idleStatus = true
  have hloop : Completes (Inv 1 ()) (SdCard.pollStatus io fuel stop)
      (fun s m => IsPrompt busy idle m ∧ stop s = true ∧ (s = busyStatus ∨ s = idleStatus)) := by
    refine Completes.loop Inv (fun n _ => ?_) hfuel ()
    intro m hm
    refine ⟨_, _, rfl, ?_⟩
    rcases hm with ⟨hn, hbusy | hidle⟩ | ⟨hbusy, hend⟩ | ⟨hidle, hend⟩
    · obtain ⟨hshow, hnext⟩ := h.showsBusy m.dev hbusy
      rw [hshow]
      cases hend : stop busyStatus with
      | true => exact ⟨Or.inr hnext, hend, Or.inl rfl⟩
      | false =>
        have hidle : stop idleStatus = true := hstop.resolve_left (by simp [hend])
        exact ⟨0, by omega, Or.inr (Or.inr ⟨hnext, hidle⟩)⟩
    · obtain ⟨hshow, hnext⟩ := h.showsIdle m.dev hidle
      rw [hshow]
      cases hend : stop idleStatus with
      | true => exact ⟨Or.inl hnext, hend, Or.inr rfl⟩
      | false =>
        have hbusy : stop busyStatus = true := hstop.resolve_right (by simp [hend])
        exact ⟨0, by omega, Or.inr (Or.inl ⟨hnext, hbusy⟩)⟩
    · obtain ⟨hshow, hnext⟩ := h.showsBusy m.dev hbusy
      rw [hshow, hend]
      exact ⟨Or.inr hnext, hend, Or.inl rfl⟩
    · obtain ⟨hshow, hnext⟩ := h.showsIdle m.dev hidle
      rw [hshow, hend]
      exact ⟨Or.inl hnext, hend, Or.inr rfl⟩
  exact hloop.mono (fun m hm => Or.inl ⟨Nat.le_refl 1, hm⟩) (fun _ _ hq => hq)

/-- A wait for something only the busy word shows ends on it. -/
theorem pollStatus_busy (h : Alternates io busy idle) (hfuel : 1 < fuel) {stop : U32 → Bool}
    (hbusy : stop busyStatus = true) (hidle : stop idleStatus = false) :
    Completes (IsPrompt busy idle) (SdCard.pollStatus io fuel stop)
      (fun s m => s = busyStatus ∧ IsPrompt busy idle m) := by
  refine (h.pollStatus hfuel (Or.inl hbusy)).mono (fun _ hm => hm) ?_
  rintro s m ⟨hm, hstop, rfl | rfl⟩
  · exact ⟨rfl, hm⟩
  · rw [hidle] at hstop
    exact absurd hstop (by decide)

/-- A wait for a flag to be cleared ends. -/
theorem pollStatus_cleared (h : Alternates io busy idle) (hfuel : 1 < fuel) {stop : U32 → Bool}
    (hidle : stop idleStatus = true) :
    Completes (IsPrompt busy idle) (SdCard.pollStatus io fuel stop)
      (fun _ => IsPrompt busy idle) :=
  (h.pollStatus hfuel (Or.inr hidle)).mono (fun _ hm => hm) (fun _ _ hq => hq.1)

/-! ### Commands -/

/-- The wait for a response ends on the busy word, with its flag. -/
theorem awaitCmd (h : Alternates io busy idle) (hfuel : 1 < fuel) {cmd : BitVec 16}
    (hresponse : hasBit cmd cmdResponse = true) (arg : U32) :
    Completes (IsPrompt busy idle) (SdCard.awaitCmd io fuel cmd arg)
      (fun r m => r.1 = true ∧ IsPrompt busy idle m) := by
  have hend : hasBit busyStatus statusCmdResponseEnd = true := by decide
  have hbusy : cmdDone cmd (cmdFlags cmd busyStatus) = true := by
    simp only [cmdDone, cmdFlags, hend, Bool.or_true, Bool.true_or]
  have hidle : cmdDone cmd (cmdFlags cmd idleStatus) = false := by
    have hend' : hasBit idleStatus statusCmdResponseEnd = false := by decide
    have hcrc : hasBit idleStatus statusCmdCrcFail = false := by decide
    have htimeout : hasBit idleStatus statusCmdTimeout = false := by decide
    simp only [cmdDone, cmdFlags, hend', hcrc, htimeout, Bool.and_false, Bool.or_false]
  have hresult : cmdResult cmd arg (cmdFlags cmd busyStatus) = true := by
    simp only [cmdResult, cmdFlags, hend, Bool.true_or, if_true]
  unfold SdCard.awaitCmd
  rw [if_pos hresponse]
  refine Completes.bind (h.pollStatus_busy hfuel hbusy hidle) fun s => ?_
  rintro m ⟨rfl, hm⟩
  refine Completes.bind (h.ioWrite32 _ _) (fun _ => ?_) m hm
  refine Completes.bind (h.pollStatus_cleared hfuel (by decide)) fun _ => ?_
  refine Completes.bind (h.ioWrite32 _ _) fun _ => ?_
  refine Completes.bind (h.ioWrite32 _ _) fun _ => ?_
  refine Completes.bind h.readResponse fun _ => ?_
  exact Completes.pure fun m hm => ⟨hresult, hm⟩

/-- A command with a response succeeds. -/
theorem sdccSendCmd (h : Alternates io busy idle) (hfuel : 1 < fuel) {cmd : BitVec 16}
    (hresponse : hasBit cmd cmdResponse = true) (arg : U32) :
    Completes (IsPrompt busy idle) (SdCard.sdccSendCmd io fuel cmd arg)
      (fun r m => r.1 = true ∧ IsPrompt busy idle m) := by
  refine Completes.bind (h.ioWrite32 _ _) fun _ => ?_
  refine Completes.bind (h.ioWrite32 _ _) fun _ => ?_
  exact h.awaitCmd hfuel hresponse arg

/-! ### Blocks -/

/-- The check after a block succeeds, whichever error bits it looks at. -/
theorem checkClearStatus (h : Alternates io busy idle) (hfuel : 1 < fuel) {errors : U32}
    (hbusy : hasBit busyStatus errors = false) (hidle : hasBit idleStatus errors = false)
    (cleared : U32) :
    Completes (IsPrompt busy idle) (SdCard.checkClearStatus io fuel errors cleared)
      (fun ok m => ok = true ∧ IsPrompt busy idle m) := by
  have hstop : (hasBit busyStatus errors || hasBit busyStatus statusDataBlkEnd) = true := by
    rw [hbusy]
    decide
  have hgo : (hasBit idleStatus errors || hasBit idleStatus statusDataBlkEnd) = false := by
    rw [hidle]
    decide
  refine Completes.bind (h.pollStatus_busy hfuel hstop hgo) fun s => ?_
  rintro m ⟨rfl, hm⟩
  rw [hbusy]
  refine Completes.bind (h.ioWrite32 _ _) (fun _ => ?_) m hm
  refine Completes.bind (h.ioWrite32 _ _) fun _ => ?_
  refine Completes.bind (h.pollStatus_busy hfuel (by decide) (by decide)) fun _ => ?_
  rintro m ⟨-, hm⟩
  refine Completes.bind (h.ioWrite32 _ _) (fun _ => ?_) m hm
  refine Completes.bind (h.pollStatus_cleared hfuel (by decide)) fun _ => ?_
  refine Completes.bind (h.ioWrite32 _ _) fun _ => ?_
  exact Completes.pure fun m hm => ⟨rfl, hm⟩

/-- The loops of the transfers take one poll for each of the 128 words. -/
theorem readLoop (h : Alternates io busy idle) (hfuel : 128 < fuel) (buffer : Nat) :
    Completes (IsPrompt busy idle) (SdCard.readLoop io fuel ⟨buffer, 0⟩)
      (fun ok m => ok = true ∧ IsPrompt busy idle m) := by
  let Inv (n : Nat) (c : Cursor) (m : Machine σ) : Prop :=
    c.byteCount + 4 * n = 512 ∧ IsPrompt busy idle m
  have hloop : Completes (Inv 128 ⟨buffer, 0⟩) (SdCard.readLoop io fuel ⟨buffer, 0⟩)
      (fun ok m => ok = true ∧ IsPrompt busy idle m) := by
    refine Completes.loop Inv (fun n c => ?_) hfuel _
    split
    · next hlt =>
      rintro m ⟨hn, hm⟩
      have hlt' : c.byteCount < 512 := hlt
      have hnext : c.next.byteCount + 4 * (n - 1) = 512 := by
        show c.byteCount + 4 + 4 * (n - 1) = 512
        omega
      have havlbl : Completes (IsPrompt busy idle) (SdCard.ioRead32 io .status)
          (fun s m => hasBit s statusRxdataAvlbl = true ∧ IsPrompt busy idle m) :=
        h.ioRead32_status_both (by decide) (by decide)
      refine Completes.bind havlbl (fun s => ?_) m hm
      rintro m ⟨hbit, hm⟩
      rw [if_pos hbit]
      refine Completes.bind (h.ioRead32 MciReg.noConfusion) (fun w => ?_) m hm
      exact fun m hm => ⟨_, _, rfl, n - 1, by omega, hnext, hm⟩
    · exact Completes.pure fun m hm => ⟨rfl, hm.2⟩
  exact hloop.mono (fun m hm => ⟨rfl, hm⟩) (fun _ _ hq => hq)

theorem writeLoop (h : Alternates io busy idle) (hfuel : 128 < fuel) (buffer : Nat) :
    Completes (IsPrompt busy idle) (SdCard.writeLoop io fuel ⟨buffer, 0⟩)
      (fun ok m => ok = true ∧ IsPrompt busy idle m) := by
  let Inv (n : Nat) (c : Cursor) (m : Machine σ) : Prop :=
    c.byteCount + 4 * n = 512 ∧ IsPrompt busy idle m
  have hloop : Completes (Inv 128 ⟨buffer, 0⟩) (SdCard.writeLoop io fuel ⟨buffer, 0⟩)
      (fun ok m => ok = true ∧ IsPrompt busy idle m) := by
    refine Completes.loop Inv (fun n c => ?_) hfuel _
    split
    · next hlt =>
      rintro m ⟨hn, hm⟩
      have hlt' : c.byteCount < 512 := hlt
      have hnext : c.next.byteCount + 4 * (n - 1) = 512 := by
        show c.byteCount + 4 + 4 * (n - 1) = 512
        omega
      have hroom : Completes (IsPrompt busy idle) (SdCard.ioRead32 io .status)
          (fun s m => decide (hasBit s statusTxfifoFull = false ∧
            hasBit s (statusCmdCrcFail ||| statusDataTimeout ||| statusTxUnderrun) = false) = true ∧
            IsPrompt busy idle m) :=
        h.ioRead32_status_both (by decide) (by decide)
      refine Completes.bind hroom (fun s => ?_) m hm
      rintro m ⟨hshown, hm⟩
      obtain ⟨hfull, herr⟩ := of_decide_eq_true hshown
      unfold pushWord
      rw [hfull, herr]
      exact ⟨_, _, rfl, n - 1, by omega, hnext, hm.imp (h.write .fifo _ m.dev).1
        (h.write .fifo _ m.dev).2⟩
    · exact Completes.pure fun m hm => ⟨rfl, hm.2⟩
  exact hloop.mono (fun m hm => ⟨rfl, hm⟩) (fun _ _ hq => hq)

/-- `read_a_block` succeeds. -/
theorem readABlock (h : Alternates io busy idle) (hfuel : 128 < fuel) (highCapacity : Bool)
    (block : U32) (buffer : Nat) :
    Completes (IsPrompt busy idle) (SdCard.readABlock io fuel highCapacity block buffer)
      (fun ok m => ok = true ∧ IsPrompt busy idle m) := by
  refine Completes.bind (h.ioWrite32 _ _) fun _ => ?_
  refine Completes.bind (h.ioWrite32 _ _) fun _ => ?_
  refine Completes.bind (h.ioWrite32 _ _) fun _ => ?_
  refine Completes.bind (h.sdccSendCmd (by omega) (by decide) _) fun r => ?_
  rintro m ⟨hr, hm⟩
  rw [hr]
  refine Completes.bind (h.readLoop hfuel buffer) (fun ok => ?_) m hm
  rintro m ⟨rfl, hm⟩
  exact h.checkClearStatus (by omega) (by decide) (by decide) _ m hm

theorem writeEnd (h : Alternates io busy idle) (hfuel : 1 < fuel) (rca : BitVec 16) :
    Completes (IsPrompt busy idle) (SdCard.writeEnd io fuel rca)
      (fun ok m => ok = true ∧ IsPrompt busy idle m) := by
  refine Completes.bind (h.sdccSendCmd hfuel (by decide) _) fun r => ?_
  rintro m ⟨hr, hm⟩
  rw [hr]
  refine Completes.bind (h.pollStatus_busy hfuel (by decide) (by decide)) (fun _ => ?_) m hm
  rintro m ⟨-, hm⟩
  refine Completes.bind (h.ioWrite32 _ _) (fun _ => ?_) m hm
  refine Completes.bind (h.pollStatus_cleared hfuel (by decide)) fun _ => ?_
  exact Completes.pure fun m hm => ⟨rfl, hm⟩

/-- `write_a_block` succeeds. -/
theorem writeABlock (h : Alternates io busy idle) (hfuel : 128 < fuel) (highCapacity : Bool)
    (block : U32) (buffer : Nat) (rca : BitVec 16) :
    Completes (IsPrompt busy idle) (SdCard.writeABlock io fuel highCapacity block buffer rca)
      (fun ok m => ok = true ∧ IsPrompt busy idle m) := by
  refine Completes.bind (h.ioWrite32 _ _) fun _ => ?_
  refine Completes.bind (h.ioWrite32 _ _) fun _ => ?_
  refine Completes.bind (h.sdccSendCmd (by omega) (by decide) _) fun r => ?_
  rintro m ⟨hr, hm⟩
  rw [hr]
  refine Completes.bind (h.ioWrite32 _ _) (fun _ => ?_) m hm
  refine Completes.bind (h.writeLoop hfuel buffer) fun ok => ?_
  rintro m ⟨rfl, hm⟩
  refine Completes.bind (h.checkClearStatus (by omega) (by decide) (by decide) _)
    (fun clear => ?_) m hm
  rintro m ⟨rfl, hm⟩
  exact h.writeEnd (by omega) rca m hm

end Alternates

end HtcLeo.SdCard

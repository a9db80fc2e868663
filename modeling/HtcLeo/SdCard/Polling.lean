import HtcLeo.SdCard.Mci

namespace HtcLeo.SdCard

open Prog

/-!
# SdCardDxe — what the polling parts keep

A command, and the check after a block, do nothing to the controller but read `MCI_STATUS` and the
response and write to `MCI_CLEAR`.  What these accesses keep, on any controller, the polling parts
keep.

* `Polled` — the accesses keep a property, the writes those of the values in a list.
* `pollStatus_ensures` — the rule for a wait.
* `Polled.awaitCmd`, `Polled.checkClearStatus` — so do the polling parts.
* `Polled.sdccSendCmd`, `Polled.writeEnd` — and whole commands, if the programming keeps it too.
* `Polled.readLoop`, `Polled.writeLoop` — and the loops over the words, if moving them does.
* `readABlock_ensures`, `writeABlock_ensures` — the rules for the transfers.
-/

/-- Reading `MCI_STATUS`, reading the response, and writing one of `clears` to `MCI_CLEAR` keep
    `I`. -/
structure Polled {σ : Type} (io : Mci σ) (clears : List U32) (I : Machine σ → Prop) : Prop where
  status : Keeps I (ioRead32 io .status)
  resp : ∀ n, Keeps I (ioRead32 io (.resp n))
  clear : ∀ v ∈ clears, Keeps I (ioWrite32 io .clear v)

/-- What `sdcc_send_cmd` clears. -/
def commandClears : List U32 :=
  [statusCmdResponseEnd, statusCmdTimeout, statusCmdCrcFail, statusCmdSent]

/-- What the checks after a block clear. -/
def blockClears (cleared : U32) : List U32 := [statusDataBlkEnd, cleared, statusDataend]

/-- A wait: a read of the status that does not end it keeps `P`, and one that does leads to `Q`. -/
theorem pollStatus_ensures {σ : Type} {io : Mci σ} {P : Machine σ → Prop}
    {Q : U32 → Machine σ → Prop} {stop : U32 → Bool}
    (hread : Ensures P (ioRead32 io .status) fun w m =>
      (stop w = true → Q w m) ∧ (stop w = false → P m))
    (fuel : Nat) : Ensures P (pollStatus io fuel stop) Q := by
  refine Ensures.loop (fun _ => P) (fun _ => ?_) fuel ()
  refine Ensures.bind hread fun w => ?_
  cases stop w with
  | true => exact Ensures.pure fun _ hm => hm.1 rfl
  | false => exact Ensures.pure fun _ hm => hm.2 rfl

namespace Polled

variable {σ : Type} {io : Mci σ} {clears : List U32} {I : Machine σ → Prop}

/-- Fewer values. -/
theorem mono {clears' : List U32} (h : Polled io clears I) (hsub : ∀ v ∈ clears', v ∈ clears) :
    Polled io clears' I :=
  ⟨h.status, h.resp, fun v hv => h.clear v (hsub v hv)⟩

theorem pollStatus (h : Polled io clears I) (fuel : Nat) (stop : U32 → Bool) :
    Keeps I (SdCard.pollStatus io fuel stop) :=
  Keeps.loop (fun _ => Keeps.bind h.status fun _ => Keeps.pure _) fuel ()

theorem readResponse (h : Polled io clears I) : Keeps I (SdCard.readResponse io) :=
  Keeps.bind (Keeps.mapM h.resp _) fun _ => Keeps.pure _

/-- The wait for a command. -/
theorem awaitCmd (h : Polled io commandClears I) (fuel : Nat) (cmd : BitVec 16) (arg : U32) :
    Keeps I (SdCard.awaitCmd io fuel cmd arg) := by
  unfold SdCard.awaitCmd
  split
  · refine Keeps.bind (h.pollStatus fuel _) fun _ => ?_
    refine Keeps.bind (h.clear _ (by simp [commandClears])) fun _ => ?_
    refine Keeps.bind (h.pollStatus fuel _) fun _ => ?_
    refine Keeps.bind (h.clear _ (by simp [commandClears])) fun _ => ?_
    refine Keeps.bind (h.clear _ (by simp [commandClears])) fun _ => ?_
    exact Keeps.bind h.readResponse fun _ => Keeps.pure _
  · refine Keeps.bind (h.pollStatus fuel _) fun _ => ?_
    refine Keeps.bind (h.clear _ (by simp [commandClears])) fun _ => ?_
    exact Keeps.bind (h.pollStatus fuel _) fun _ => Keeps.pure _

/-- What follows when a block has ended without an error. -/
theorem clearBlock {cleared : U32} (h : Polled io (blockClears cleared) I) (fuel : Nat) :
    Keeps I (do
      ioWrite32 io .clear statusDataBlkEnd
      ioWrite32 io .clear cleared
      let _ ← SdCard.pollStatus io fuel (fun s => hasBit s statusDataend)
      ioWrite32 io .clear statusDataend
      let _ ← SdCard.pollStatus io fuel (fun s => !hasBit s statusDataend)
      ioWrite32 io .clear statusDataBlkEnd
      return true) := by
  refine Keeps.bind (h.clear _ (by simp [blockClears])) fun _ => ?_
  refine Keeps.bind (h.clear _ (by simp [blockClears])) fun _ => ?_
  refine Keeps.bind (h.pollStatus fuel _) fun _ => ?_
  refine Keeps.bind (h.clear _ (by simp [blockClears])) fun _ => ?_
  refine Keeps.bind (h.pollStatus fuel _) fun _ => ?_
  exact Keeps.bind (h.clear _ (by simp [blockClears])) fun _ => Keeps.pure _

/-- The check after a block. -/
theorem checkClearStatus {cleared : U32} (h : Polled io (blockClears cleared) I) (fuel : Nat)
    (errors : U32) : Keeps I (SdCard.checkClearStatus io fuel errors cleared) := by
  refine Keeps.bind (h.pollStatus fuel _) fun _ => ?_
  split
  · exact Keeps.pure _
  · exact h.clearBlock fuel

/-- A command whose programming keeps the property. -/
theorem sdccSendCmd (h : Polled io commandClears I) {cmd : BitVec 16} {arg : U32}
    (hargument : Keeps I (ioWrite32 io .argument arg))
    (hcmd : Keeps I (ioWrite32 io .cmd (cmd.setWidth 32))) (fuel : Nat) :
    Keeps I (SdCard.sdccSendCmd io fuel cmd arg) := by
  refine Keeps.bind hargument fun _ => ?_
  refine Keeps.bind hcmd fun _ => ?_
  exact h.awaitCmd fuel cmd arg

/-- The end of a write. -/
theorem writeEnd (h : Polled io (statusProgDone :: commandClears) I) {rca : BitVec 16}
    (hargument : ∀ arg, Keeps I (ioWrite32 io .argument arg))
    (hcmd : ∀ v, Keeps I (ioWrite32 io .cmd v)) (fuel : Nat) :
    Keeps I (SdCard.writeEnd io fuel rca) := by
  have hcommand : Polled io commandClears I := h.mono fun v hv => List.mem_cons_of_mem _ hv
  refine Keeps.bind (hcommand.sdccSendCmd (hargument _) (hcmd _) fuel) fun r => ?_
  split
  · exact Keeps.pure _
  · refine Keeps.bind (h.pollStatus fuel _) fun _ => ?_
    refine Keeps.bind (h.clear _ List.mem_cons_self) fun _ => ?_
    exact Keeps.bind (h.pollStatus fuel _) fun _ => Keeps.pure _

/-- The words of a read, where taking them from the FIFO and storing them keeps the property. -/
theorem readLoop (h : Polled io clears I) (hfifo : Keeps I (ioRead32 io .fifo))
    (hstore : ∀ p w, Keeps I (storeWord p w)) (fuel : Nat) (c : Cursor) :
    Keeps I (SdCard.readLoop io fuel c) := by
  refine Keeps.loop (fun c => ?_) fuel c
  split
  · refine Keeps.bind h.status fun status => ?_
    split
    · refine Keeps.bind hfifo fun w => ?_
      exact Keeps.bind (hstore _ _) fun _ => Keeps.pure _
    · split
      · exact Keeps.pure _
      · exact Keeps.pure _
  · exact Keeps.pure _

/-- The words of a write, where loading them and putting them into the FIFO keeps the property. -/
theorem writeLoop (h : Polled io clears I) (hload : ∀ p, Keeps I (loadWord p))
    (hfifo : ∀ w, Keeps I (ioWrite32 io .fifo w)) (fuel : Nat) (c : Cursor) :
    Keeps I (SdCard.writeLoop io fuel c) := by
  refine Keeps.loop (fun c => ?_) fuel c
  split
  · refine Keeps.bind h.status fun status => ?_
    refine Keeps.bind ?_ fun c' => ?_
    · unfold pushWord
      split
      · exact Keeps.pure _
      · refine Keeps.bind (hload _) fun w => ?_
        exact Keeps.bind (hfifo w) fun _ => Keeps.pure _
    · split
      · exact Keeps.pure _
      · exact Keeps.pure _
  · exact Keeps.pure _

end Polled

/-! ### Rules for the transfers -/

section Transfers

variable {σ : Type} {io : Mci σ} {P A : Machine σ → Prop} {B C Q : Bool → Machine σ → Prop}
  {fuel : Nat} {highCapacity : Bool} {block : U32} {buffer : Nat}

/-- **`read_a_block`**, part by part: its registers are set up in `P`, and `A` holds after the
    command, `B` after the words, `Q` at the end. -/
theorem readABlock_ensures
    (hconfig : ∀ r ∈ [MciReg.dataTimer, .dataLength, .dataCtl], ∀ v,
      Ensures P (ioWrite32 io r v) fun _ => P)
    (hcmd : Ensures P (sdccSendCmd io fuel (cmd17 ||| cmdEnable ||| cmdResponse)
      (commandAddress highCapacity block)) fun _ => A)
    (hloop : Ensures A (readLoop io fuel ⟨buffer, 0⟩) B)
    (hcheck : Ensures (B true) (checkClearReadStatus io fuel) Q)
    (hfail : ∀ m, A m ∨ B false m → Q false m) :
    Ensures P (readABlock io fuel highCapacity block buffer) Q := by
  refine Ensures.bind (hconfig _ (by simp) _) fun _ => ?_
  refine Ensures.bind (hconfig _ (by simp) _) fun _ => ?_
  refine Ensures.bind (hconfig _ (by simp) _) fun _ => ?_
  refine Ensures.bind hcmd fun r => ?_
  split
  · exact Ensures.pure fun m hm => hfail m (Or.inl hm)
  · refine Ensures.bind hloop fun ok => ?_
    cases ok with
    | false => exact Ensures.pure fun m hm => hfail m (Or.inr hm)
    | true => exact hcheck

/-- **`write_a_block`**, part by part: as before, with `C` after the check. -/
theorem writeABlock_ensures {rca : BitVec 16}
    (hconfig : ∀ r ∈ [MciReg.dataTimer, .dataLength], ∀ v,
      Ensures P (ioWrite32 io r v) fun _ => P)
    (hcmd : Ensures P (sdccSendCmd io fuel (cmd24 ||| cmdEnable ||| cmdResponse)
      (commandAddress highCapacity block)) fun _ => A)
    (hctl : ∀ v, Ensures A (ioWrite32 io .dataCtl v) fun _ => A)
    (hloop : Ensures A (writeLoop io fuel ⟨buffer, 0⟩) B)
    (hcheck : Ensures (B true) (checkClearWriteStatus io fuel) C)
    (hend : Ensures (C true) (writeEnd io fuel rca) Q)
    (hfail : ∀ m, A m ∨ B false m ∨ C false m → Q false m) :
    Ensures P (writeABlock io fuel highCapacity block buffer rca) Q := by
  refine Ensures.bind (hconfig _ (by simp) _) fun _ => ?_
  refine Ensures.bind (hconfig _ (by simp) _) fun _ => ?_
  refine Ensures.bind hcmd fun r => ?_
  split
  · exact Ensures.pure fun m hm => hfail m (Or.inl hm)
  · refine Ensures.bind (hctl _) fun _ => ?_
    refine Ensures.bind hloop fun ok => ?_
    cases ok with
    | false => exact Ensures.pure fun m hm => hfail m (Or.inr (Or.inl hm))
    | true =>
      refine Ensures.bind hcheck fun clear => ?_
      cases clear with
      | false => exact Ensures.pure fun m hm => hfail m (Or.inr (Or.inr hm))
      | true => exact hend

end Transfers

end HtcLeo.SdCard

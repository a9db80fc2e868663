import HtcLeo.SdCard.Latch
import HtcLeo.Lib.Runs

namespace HtcLeo.SdCard

open Prog BitMask Runs

/-!
# SdCardDxe — after a failure

Commands and single-block transfers one after another, each under conditions of its own, on the
controller that keeps its errors until they are cleared.

* `Operation`, `Attempt.perform` — an operation, and what it comes to under its conditions.
* `Recovers` — an operation that meets no error succeeds, if it does on a controller without one.
* `recovers_of_commandErrorsOnly` — a run that meets errors of the command path only, while one of
  its commands is under way, recovers all along.
* `dataErrors_stay` — an error of the data path is never cleared, and the transfers that look at
  it fail ever after.
-/

/-! ### Operations -/

/-- What the card is asked for. -/
inductive Operation
  | command (cmd : BitVec 16) (arg : U32)
  | read (block : U32) (buffer : Nat)
  | write (block : U32) (buffer : Nat) (rca : BitVec 16)

/-- The function that is called; its result says whether it has succeeded. -/
def Operation.run (fuel : Nat) (highCapacity : Bool) : Operation → Prog (Machine Latch) Bool
  | command cmd arg => do
      let r ← sdccSendCmd (latch errorBits) fuel cmd arg
      return r.1
  | read block buffer => readABlock (latch errorBits) fuel highCapacity block buffer
  | write block buffer rca => writeABlock (latch errorBits) fuel highCapacity block buffer rca

/-- The errors of the data path that an operation looks at. -/
def Operation.dataErrors : Operation → U32
  | command _ _ => 0#32
  | read _ _    => readErrors
  | write _ _ _ => writeErrors

/-- An operation, and what happens during it. -/
structure Attempt where
  operation : Operation
  conditions : Conditions

section Run

variable (fuel : Nat) (highCapacity : Bool)

/-- What an attempt comes to. -/
def Attempt.perform (a : Attempt) (m : Machine Latch) : Option Bool × Machine Latch :=
  a.operation.run fuel highCapacity { m with dev := m.dev.start a.conditions }

/-- The machine after an attempt; there is none when it has not returned. -/
def performStep (m : Option (Machine Latch)) (a : Attempt) : Option (Machine Latch) :=
  m.bind fun m =>
    if (a.perform fuel highCapacity m).1.isSome then some (a.perform fuel highCapacity m).2
    else none

/-- No error is met. -/
def Conditions.Quiet (c : Conditions) : Prop :=
  ∀ n, c.status n &&& errorBits = 0#32 ∧ c.commandErrors n &&& commandErrorBits = 0#32

/-- No error is met but those of the command under way. -/
def Conditions.CommandErrorsOnly (c : Conditions) : Prop := ∀ n, c.status n &&& errorBits = 0#32

/-- The machine with no error latched. -/
def Machine.withoutErrors (m : Machine Latch) : Machine Latch :=
  { m with dev := { m.dev with latched := 0#32, pending := 0#32 } }

/-- What has been left behind does no harm: an operation that meets no error succeeds, if it does
    on a controller without one. -/
def Recovers (m : Machine Latch) : Prop :=
  ∀ a : Attempt, a.conditions.Quiet →
    (a.perform fuel highCapacity m.withoutErrors).1 = some true →
    (a.perform fuel highCapacity m).1 = some true

end Run

/-! ### Errors of the command path -/

namespace Latch

/-- No error is met or latched but those of the command under way. -/
structure CommandOnly (s : Latch) : Prop where
  status : ∀ n, s.conditions.status n &&& errorBits = 0#32
  latched : Within s.latched s.pending
  pending : Within s.pending commandErrorBits

/-- And no command is under way. -/
def Settled (s : Latch) : Prop := s.CommandOnly ∧ s.pending = 0#32

variable {s : Latch}

theorem CommandOnly.read (h : s.CommandOnly) (held : U32) (r : MciReg) :
    ((latch held).read r s).2.CommandOnly := by
  cases r with
  | status => exact ⟨h.status, h.latched.or (met_within_pending h.status), h.pending⟩
  | _ => exact ⟨h.status, h.latched, h.pending⟩

theorem CommandOnly.write (h : s.CommandOnly) (held : U32) (r : MciReg) (v : U32) :
    ((latch held).write r v s).CommandOnly := by
  cases r with
  | cmd =>
    refine ⟨h.status, ?_, ?_⟩
    · show Within s.latched (if _ then commandErrorBits else s.pending)
      split
      · exact h.latched.trans h.pending
      · exact h.latched
    · show Within (if _ then commandErrorBits else s.pending) commandErrorBits
      split
      · exact Within.refl _
      · exact h.pending
  | clear => exact ⟨h.status, h.latched.and_not v, (Within.and_left _ _).trans h.pending⟩
  | _ => exact ⟨h.status, h.latched, h.pending⟩

theorem Settled.read (h : s.Settled) (held : U32) (r : MciReg) :
    ((latch held).read r s).2.Settled := by
  refine ⟨h.1.read held r, ?_⟩
  cases r with
  | _ => exact h.2

theorem Settled.write (h : s.Settled) (held : U32) {r : MciReg} (hr : r ≠ .cmd) (v : U32) :
    ((latch held).write r v s).Settled := by
  refine ⟨h.1.write held r v, ?_⟩
  cases r with
  | cmd => exact absurd rfl hr
  | clear =>
    show s.pending &&& ~~~v = 0#32
    rw [h.2, BitVec.zero_and]
  | _ => exact h.2

end Latch

section Command

variable {held : U32} {clears : List U32}

theorem commandOnly_polled : Polled (latch held) clears fun m => m.dev.CommandOnly where
  status := fun _ hm => Latch.CommandOnly.read hm held .status
  resp := fun n _ hm => Latch.CommandOnly.read hm held (.resp n)
  clear := fun v _ _ hm => Latch.CommandOnly.write hm held .clear v

theorem settled_write {r : MciReg} (hr : r ≠ .cmd) (v : U32) :
    Keeps (fun m : Machine Latch => m.dev.Settled) (ioWrite32 (latch held) r v) :=
  fun _ hm => Latch.Settled.write hm held hr v

theorem settled_polled : Polled (latch held) clears fun m => m.dev.Settled where
  status := fun _ hm => Latch.Settled.read hm held .status
  resp := fun n _ hm => Latch.Settled.read hm held (.resp n)
  clear := fun v _ => settled_write (by decide) v

/-- Waiting for a response ends with both errors of the command path cleared. -/
theorem awaitCmd_settles (fuel : Nat) {cmd : BitVec 16} (hresponse : hasBit cmd cmdResponse = true)
    (arg : U32) :
    Ensures (fun m : Machine Latch => m.dev.CommandOnly) (awaitCmd (latch held) fuel cmd arg)
      (fun _ m => m.dev.Settled) := by
  have hpolled : Polled (latch held) commandClears fun m => m.dev.CommandOnly := commandOnly_polled
  unfold awaitCmd
  rw [if_pos hresponse]
  refine Ensures.bind (hpolled.pollStatus fuel _).ensures fun _ => ?_
  refine Ensures.bind (hpolled.clear _ (by simp [commandClears])).ensures fun _ => ?_
  refine Ensures.bind (hpolled.pollStatus fuel _).ensures fun _ => ?_
  -- what is pending goes with the two writes
  have htimeout : Ensures (fun m : Machine Latch => m.dev.CommandOnly)
      (ioWrite32 (latch held) .clear statusCmdTimeout)
      (fun _ m => m.dev.CommandOnly ∧ Within m.dev.pending statusCmdCrcFail) := by
    refine Ensures.modify fun m hm => ⟨hm.write held .clear statusCmdTimeout, ?_⟩
    exact (hm.pending.and_not statusCmdTimeout).trans (by decide)
  have hcrc : Ensures
      (fun m : Machine Latch => m.dev.CommandOnly ∧ Within m.dev.pending statusCmdCrcFail)
      (ioWrite32 (latch held) .clear statusCmdCrcFail) (fun _ m => m.dev.Settled) := by
    refine Ensures.modify fun m hm => ⟨hm.1.write held .clear statusCmdCrcFail, ?_⟩
    exact ((hm.2.and_not statusCmdCrcFail).trans (by decide)).eq_zero
  refine Ensures.bind htimeout fun _ => ?_
  refine Ensures.bind hcrc fun _ => ?_
  have hsettled : Polled (latch held) [] fun m => m.dev.Settled := settled_polled
  refine Ensures.bind hsettled.readResponse.ensures fun _ => ?_
  exact Ensures.pure fun _ hm => hm

/-- **Commands.**  Whatever a command meets on its way is cleared when it is over. -/
theorem sdccSendCmd_settles (fuel : Nat) (cmd : BitVec 16) (arg : U32) :
    Ensures (fun m : Machine Latch => m.dev.Settled) (sdccSendCmd (latch held) fuel cmd arg)
      (fun _ m => m.dev.Settled) := by
  by_cases hresponse : hasBit cmd cmdResponse = true
  · have hprogram : Ensures (fun m : Machine Latch => m.dev.Settled)
        (ioWrite32 (latch held) .cmd (cmd.setWidth 32)) (fun _ m => m.dev.CommandOnly) :=
      Ensures.modify fun m hm => hm.1.write held .cmd _
    refine Ensures.bind (settled_write (by decide) arg).ensures fun _ => ?_
    refine Ensures.bind hprogram fun _ => ?_
    exact awaitCmd_settles fuel hresponse arg
  · -- a command without a response meets no error
    refine (settled_polled.sdccSendCmd (settled_write (by decide) arg) ?_ fuel).ensures
    intro m hm
    refine ⟨hm.1.write held .cmd _, ?_⟩
    have hcmd : (cmd.setWidth 32).setWidth 16 = cmd := by simp
    show (if hasBit ((cmd.setWidth 32).setWidth 16) cmdResponse then commandErrorBits
      else m.dev.pending) = 0#32
    rw [hcmd, if_neg hresponse]
    exact hm.2

/-- `read_a_block`. -/
theorem readABlock_settles (fuel : Nat) (highCapacity : Bool) (block : U32) (buffer : Nat) :
    Ensures (fun m : Machine Latch => m.dev.Settled)
      (readABlock (latch held) fuel highCapacity block buffer) (fun _ m => m.dev.Settled) := by
  have hpolled : Polled (latch held) [] fun m => m.dev.Settled := settled_polled
  have hloop := hpolled.readLoop (fun _ hm => Latch.Settled.read hm held .fifo)
    (fun _ _ _ hm => hm) fuel
  refine readABlock_ensures (fun r hr v => (settled_write ?_ v).ensures)
    (sdccSendCmd_settles fuel _ _) (hloop _).ensures
    (settled_polled.checkClearStatus fuel _).ensures (fun _ hm => hm.elim id id)
  rintro rfl
  simp at hr

/-- `write_a_block`. -/
theorem writeABlock_settles (fuel : Nat) (highCapacity : Bool) (block : U32) (buffer : Nat)
    (rca : BitVec 16) :
    Ensures (fun m : Machine Latch => m.dev.Settled)
      (writeABlock (latch held) fuel highCapacity block buffer rca)
      (fun _ m => m.dev.Settled) := by
  have hpolled : Polled (latch held) [statusProgDone] fun m => m.dev.Settled := settled_polled
  have hloop := hpolled.writeLoop (fun _ _ hm => hm) (settled_write (by decide)) fuel
  have hend : Ensures (fun m : Machine Latch => m.dev.Settled) (writeEnd (latch held) fuel rca)
      (fun _ m => m.dev.Settled) := by
    refine Ensures.bind (sdccSendCmd_settles fuel _ _) fun r => ?_
    split
    · exact Ensures.pure fun _ hm => hm
    · refine Ensures.bind (hpolled.pollStatus fuel _).ensures fun _ => ?_
      refine Ensures.bind (hpolled.clear _ List.mem_cons_self).ensures fun _ => ?_
      refine Ensures.bind (hpolled.pollStatus fuel _).ensures fun _ => ?_
      exact Ensures.pure fun _ hm => hm
  refine writeABlock_ensures (fun r hr v => (settled_write ?_ v).ensures)
    (sdccSendCmd_settles fuel _ _) (fun v => (settled_write (by decide) v).ensures)
    (hloop _).ensures (settled_polled.checkClearStatus fuel _).ensures hend
    (fun _ hm => hm.elim id fun h => h.elim id id)
  rintro rfl
  simp at hr

end Command

/-! ### Errors of the data path -/

section Data

variable {held x : U32}

/-- What has a bit of a mask within another word shows it there. -/
theorem hasBit_of_within {w errors : U32} (h : Within x w) (hx : x &&& errors ≠ 0#32) :
    hasBit w errors = true := by
  by_contra hnone
  have hzero : w &&& errors = 0#32 := by simpa [hasBit] using hnone
  exact hx (h.and_eq_zero hzero)

/-- Latched errors that are not among those cleared stay. -/
theorem holds_polled {clears : List U32} (h : ∀ v ∈ clears, x &&& v = 0#32) :
    Polled (latch held) clears fun m => Within x m.dev.latched where
  status := fun m hm => by
    show Within x (m.dev.latched ||| m.dev.met held)
    exact hm.or_left
  resp := fun _ _ hm => hm
  clear := fun v hv m hm => by
    show Within x (m.dev.latched &&& ~~~v)
    exact hm.and_not_of_disjoint (h v hv)

/-- The check after a block keeps them; it fails if they are among those it looks at. -/
theorem checkClearStatus_holds (hx : Within x dataErrorBits) {errors cleared : U32}
    (hcleared : Within cleared errors) (fuel : Nat) :
    Ensures (fun m : Machine Latch => Within x m.dev.latched)
      (checkClearStatus (latch held) fuel errors cleared)
      (fun ok m => Within x m.dev.latched ∧ (ok = true → x &&& errors = 0#32)) := by
  by_cases hnone : x &&& errors = 0#32
  · have hother : x &&& cleared = 0#32 := by
      rw [BitVec.and_comm] at hnone ⊢
      exact hcleared.and_eq_zero hnone
    have hclears : ∀ v ∈ blockClears cleared, x &&& v = 0#32 := by
      unfold blockClears
      rw [List.forall_mem_cons, List.forall_mem_cons, List.forall_mem_singleton]
      exact ⟨hx.and_eq_zero (by decide), hother, hx.and_eq_zero (by decide)⟩
    exact ((holds_polled hclears).checkClearStatus fuel errors).ensures.mono (fun _ hm => hm)
      (fun _ _ hm => ⟨hm, fun _ => hnone⟩)
  · -- every status shows them, the one that ends the wait too
    have hpoll : Ensures (fun m : Machine Latch => Within x m.dev.latched)
        (pollStatus (latch held) fuel fun s => hasBit s errors || hasBit s statusDataBlkEnd)
        (fun w m => hasBit w errors = true ∧ Within x m.dev.latched) := by
      refine pollStatus_ensures (latch_status_ensures fun m hm => ?_) fuel
      have hshown : hasBit (m.dev.shown held) errors = true :=
        hasBit_of_within (hm.trans (m.dev.latched_within_shown held)) hnone
      have hstay : Within x (m.dev.latched ||| m.dev.met held) := hm.or_left
      exact ⟨fun _ => ⟨hshown, hstay⟩, fun _ => hstay⟩
    refine Ensures.bind hpoll fun w => Ensures.assume fun hw => ?_
    rw [if_pos hw]
    exact Ensures.pure fun _ hm => ⟨hm, fun h => absurd h (by decide)⟩

/-- Nothing that a command or the end of a write clears is an error of the data path. -/
theorem commandClears_dataErrors (hx : Within x dataErrorBits) :
    ∀ v ∈ statusProgDone :: commandClears, x &&& v = 0#32 := by
  unfold commandClears
  rw [List.forall_mem_cons, List.forall_mem_cons, List.forall_mem_cons, List.forall_mem_cons,
    List.forall_mem_singleton]
  exact ⟨hx.and_eq_zero (by decide), hx.and_eq_zero (by decide), hx.and_eq_zero (by decide),
    hx.and_eq_zero (by decide), hx.and_eq_zero (by decide)⟩

/-- Writes to other registers latch and clear nothing. -/
theorem holds_write {r : MciReg} (hr : r ≠ .clear) (v : U32) :
    Keeps (fun m : Machine Latch => Within x m.dev.latched) (ioWrite32 (latch held) r v) := by
  intro m hm
  cases r with
  | clear => exact absurd rfl hr
  | _ => exact hm

theorem sdccSendCmd_holds (hx : Within x dataErrorBits) (fuel : Nat) (cmd : BitVec 16)
    (arg : U32) :
    Keeps (fun m : Machine Latch => Within x m.dev.latched)
      (sdccSendCmd (latch held) fuel cmd arg) := by
  have hclears := commandClears_dataErrors hx
  exact (holds_polled fun v hv => hclears v (List.mem_cons_of_mem _ hv)).sdccSendCmd
    (holds_write (by decide) _) (holds_write (by decide) _) fuel

/-- `read_a_block` keeps an error of the data path, and fails if it is one it looks at. -/
theorem readABlock_holds (hx : Within x dataErrorBits) (fuel : Nat) (highCapacity : Bool)
    (block : U32) (buffer : Nat) :
    Ensures (fun m : Machine Latch => Within x m.dev.latched)
      (readABlock (latch held) fuel highCapacity block buffer)
      (fun ok m => Within x m.dev.latched ∧ (ok = true → x &&& readErrors = 0#32)) := by
  have hpolled : Polled (latch held) [] fun m => Within x m.dev.latched := holds_polled (by simp)
  have hloop := hpolled.readLoop (fun _ hm => hm) (fun _ _ _ hm => hm) fuel
  refine readABlock_ensures (fun r hr v => (holds_write ?_ v).ensures)
    (sdccSendCmd_holds hx fuel _ _).ensures (hloop _).ensures
    (checkClearStatus_holds hx (by decide) fuel)
    (fun _ hm => ⟨hm.elim id id, fun h => absurd h (by decide)⟩)
  rintro rfl
  simp at hr

/-- `write_a_block` likewise. -/
theorem writeABlock_holds (hx : Within x dataErrorBits) (fuel : Nat) (highCapacity : Bool)
    (block : U32) (buffer : Nat) (rca : BitVec 16) :
    Ensures (fun m : Machine Latch => Within x m.dev.latched)
      (writeABlock (latch held) fuel highCapacity block buffer rca)
      (fun ok m => Within x m.dev.latched ∧ (ok = true → x &&& writeErrors = 0#32)) := by
  have hpolled : Polled (latch held) [] fun m => Within x m.dev.latched := holds_polled (by simp)
  have hloop := hpolled.writeLoop (fun _ _ hm => hm) (holds_write (by decide)) fuel
  have hend : Keeps (fun m : Machine Latch => Within x m.dev.latched)
      (writeEnd (latch held) fuel rca) :=
    (holds_polled (commandClears_dataErrors hx)).writeEnd (holds_write (by decide))
      (holds_write (by decide)) fuel
  refine writeABlock_ensures (fun r hr v => (holds_write ?_ v).ensures)
    (sdccSendCmd_holds hx fuel _ _).ensures (fun v => (holds_write (by decide) v).ensures)
    (hloop _).ensures (checkClearStatus_holds hx (by decide) fuel) ?_ ?_
  · rintro rfl
    simp at hr
  · -- where the check has passed, none of the errors is one it looks at
    intro m ok m' hm heq
    exact ⟨hend.ensures m ok m' hm.1 heq, fun _ => hm.2 rfl⟩
  · rintro m (hm | hm | hm)
    · exact ⟨hm, fun h => absurd h (by decide)⟩
    · exact ⟨hm, fun h => absurd h (by decide)⟩
    · exact ⟨hm.1, fun h => absurd h (by decide)⟩

end Data

/-! ### Runs -/

section Runs

variable (fuel : Nat) (highCapacity : Bool)

/-- No error is latched, and no command is under way. -/
def Latch.Clean (s : Latch) : Prop := s.latched = 0#32 ∧ s.pending = 0#32

variable {fuel highCapacity}

theorem Operation.run_settles (o : Operation) :
    Ensures (fun m : Machine Latch => m.dev.Settled) (o.run fuel highCapacity)
      (fun _ m => m.dev.Settled) := by
  cases o with
  | command cmd arg =>
    exact Ensures.bind (sdccSendCmd_settles fuel cmd arg) fun r => Ensures.pure fun _ hm => hm
  | read block buffer => exact readABlock_settles fuel highCapacity block buffer
  | write block buffer rca => exact writeABlock_settles fuel highCapacity block buffer rca

theorem Operation.run_holds {x : U32} (hx : Within x dataErrorBits) (o : Operation) :
    Ensures (fun m : Machine Latch => Within x m.dev.latched) (o.run fuel highCapacity)
      (fun ok m => Within x m.dev.latched ∧ (ok = true → x &&& o.dataErrors = 0#32)) := by
  cases o with
  | command cmd arg =>
    refine Ensures.bind (sdccSendCmd_holds hx fuel cmd arg).ensures fun r => ?_
    exact Ensures.pure fun _ hm => ⟨hm, fun _ => BitVec.and_zero⟩
  | read block buffer => exact readABlock_holds hx fuel highCapacity block buffer
  | write block buffer rca => exact writeABlock_holds hx fuel highCapacity block buffer rca

/-- A property that an operation ensures when it returns holds after an attempt. -/
theorem performStep_ensures {I J : Machine Latch → Prop} {a : Attempt}
    (hrun : Ensures I (a.operation.run fuel highCapacity) fun _ => J)
    {m : Option (Machine Latch)} (hm : ∀ v ∈ m, I { v with dev := v.dev.start a.conditions }) :
    ∀ v ∈ performStep fuel highCapacity m a, J v := by
  intro v hv
  obtain ⟨w, hw, hstep⟩ := Option.bind_eq_some_iff.mp hv
  cases hresult : (a.perform fuel highCapacity w).1 with
  | none =>
    rw [hresult] at hstep
    cases hstep
  | some ok =>
    rw [hresult] at hstep
    obtain rfl := Option.some.inj hstep
    exact hrun _ ok _ (hm w hw) (Prod.ext hresult rfl)

/-- An attempt that meets errors of the command path only leaves none behind. -/
theorem performStep_clean {a : Attempt} (ha : a.conditions.CommandErrorsOnly)
    {m : Option (Machine Latch)} (hm : ∀ v ∈ m, v.dev.Clean) :
    ∀ v ∈ performStep fuel highCapacity m a, v.dev.Clean := by
  have hsettled : ∀ v ∈ performStep fuel highCapacity m a, v.dev.Settled := by
    refine performStep_ensures (Operation.run_settles a.operation) fun v hv => ?_
    obtain ⟨hlatched, hpending⟩ := hm v hv
    refine ⟨⟨ha, ?_, ?_⟩, hpending⟩
    · show Within v.dev.latched v.dev.pending
      rw [hlatched, hpending]
      exact Within.refl _
    · show Within v.dev.pending commandErrorBits
      rw [hpending]
      decide
  intro v hv
  obtain ⟨hcommand, hpending⟩ := hsettled v hv
  have hlatched := hcommand.latched
  rw [hpending] at hlatched
  exact ⟨hlatched.eq_zero, hpending⟩

/-- A clean controller is one without errors. -/
theorem recovers_of_clean {m : Machine Latch} (h : m.dev.Clean) : Recovers fuel highCapacity m := by
  intro a _ hsucceeds
  have hsame : m.withoutErrors = m := by
    obtain ⟨⟨conditions, polls, moved, latched, pending, index, blockEnd⟩, mem⟩ := m
    obtain ⟨hlatched, hpending⟩ := h
    subst hlatched hpending
    rfl
  rwa [hsame] at hsucceeds

/-- **Recovery.**  A run from a clean controller in which no error is met but errors of the command
    path, each while a command with a response is under way, recovers all along. -/
theorem recovers_of_commandErrorsOnly (m : Machine Latch) (hm : m.dev.Clean) (run : List Attempt)
    (h : ∀ a ∈ run, a.conditions.CommandErrorsOnly) :
    Always (performStep fuel highCapacity) (fun m => ∀ v ∈ m, Recovers fuel highCapacity v)
      (some m) run := by
  have hstart : ∀ v ∈ some m, v.dev.Clean := by simpa using hm
  have hsteps : EveryStep (performStep fuel highCapacity)
      (fun _ a => a.conditions.CommandErrorsOnly) (some m) run := everyStep_of_forall h
  have hclean : Always (performStep fuel highCapacity) (fun m => ∀ v ∈ m, v.dev.Clean)
      (some m) run := by
    refine (always_and_everyStep (I := fun m : Option (Machine Latch) => ∀ v ∈ m, v.dev.Clean)
      (R := fun _ _ => True) ?_ hstart hsteps).1
    exact fun _ _ hv ha => ⟨performStep_clean ha hv, trivial⟩
  exact hclean.mono fun m hm v hv => recovers_of_clean (hm v hv)

/-- An attempt that looks at a latched error fails. -/
theorem perform_holds {x : U32} (hx : Within x dataErrorBits) {m : Machine Latch}
    (hm : Within x m.dev.latched) {a : Attempt}
    (hsuccess : (a.perform fuel highCapacity m).1 = some true) :
    x &&& a.operation.dataErrors = 0#32 := by
  have hstart : Within x ({ m with dev := m.dev.start a.conditions } : Machine Latch).dev.latched :=
    hm
  exact (Operation.run_holds hx a.operation _ true _ hstart (Prod.ext hsuccess rfl)).2 rfl

/-- A read whose response has a wrong checksum. -/
def crcRead : Attempt where
  operation := .read 0 0
  conditions :=
    { status := fun _ => 0#32
      commandErrors := fun _ => statusCmdCrcFail
      response := fun _ _ => 0#32
      fifo := fun _ => 0#32 }

/-- A run of two reads with that error. -/
theorem recovers_of_commandErrorsOnly_crc :
    Always (performStep 129 true) (fun m => ∀ v ∈ m, Recovers 129 true v) (some newMachine)
      [crcRead, crcRead] := by
  refine recovers_of_commandErrorsOnly newMachine ⟨rfl, rfl⟩ [crcRead, crcRead] ?_
  intro a ha
  obtain rfl : a = crcRead := by simpa using ha
  exact fun _ => BitVec.zero_and

/-- **Stale errors.**  Errors of the data path that are latched stay latched in every run, and an
    operation that looks at one of them fails at every point of it, whatever its conditions. -/
theorem dataErrors_stay {x : U32} (hx : Within x dataErrorBits) {m : Machine Latch}
    (hm : Within x m.dev.latched) (run : List Attempt) :
    Always (performStep fuel highCapacity)
      (fun m => ∀ v ∈ m, Within x v.dev.latched ∧ ∀ a : Attempt,
        x &&& a.operation.dataErrors ≠ 0#32 → (a.perform fuel highCapacity v).1 ≠ some true)
      (some m) run := by
  have hstart : ∀ v ∈ some m, Within x v.dev.latched := by simpa using hm
  have hholds : Always (performStep fuel highCapacity)
      (fun m => ∀ v ∈ m, Within x v.dev.latched) (some m) run := by
    have hkeeps : ∀ (m : Option (Machine Latch)) (a : Attempt),
        (∀ v ∈ m, Within x v.dev.latched) →
          ∀ v ∈ performStep fuel highCapacity m a, Within x v.dev.latched := by
      intro m a hv
      refine performStep_ensures (I := fun m => Within x m.dev.latched) ?_ hv
      exact (Operation.run_holds hx a.operation).mono (fun _ h => h) (fun _ _ h => h.1)
    exact Always.of_invariant hkeeps hstart run
  refine hholds.mono fun m hv v hmem => ⟨hv v hmem, fun a ha hsuccess => ?_⟩
  exact ha (perform_holds hx (hv v hmem) hsuccess)

/-- A block read on a prompt controller. -/
def promptRead : Attempt := ⟨.read 0 0, promptConditions fun _ _ => 0⟩
/-- A block write on a prompt controller. -/
def promptWrite : Attempt := ⟨.write 0 0 0, promptConditions fun _ _ => 0⟩

theorem promptConditions_quiet (response : BitVec 16 → Fin 4 → U32) :
    (promptConditions response).Quiet :=
  fun n => ⟨promptStatus_and_errorBits n, BitVec.zero_and⟩

/-- On a controller without an error both succeed. -/
theorem prompt_succeed (highCapacity : Bool) (hfuel : 128 < fuel) (m : Machine Latch) :
    (promptRead.perform fuel highCapacity m.withoutErrors).1 = some true ∧
      (promptWrite.perform fuel highCapacity m.withoutErrors).1 = some true := by
  have hprompt : IsPrompt Latch.Busy Latch.Idle { m.withoutErrors with
      dev := m.withoutErrors.dev.start (promptConditions fun _ _ => 0) } :=
    Or.inl ⟨⟨rfl, fun _ => rfl, rfl⟩, rfl⟩
  obtain ⟨_, _, hread, rfl, -⟩ := latch_alternates.readABlock hfuel highCapacity 0 0 _ hprompt
  obtain ⟨_, _, hwrite, rfl, -⟩ := latch_alternates.writeABlock hfuel highCapacity 0 0 0 _ hprompt
  exact ⟨congrArg Prod.fst hread, congrArg Prod.fst hwrite⟩

/-- With an error of the data path latched, a controller does not recover. -/
theorem not_recovers_of_dataError (hfuel : 128 < fuel) {m : Machine Latch}
    (h : m.dev.latched &&& dataErrorBits ≠ 0#32) : ¬ Recovers fuel highCapacity m := by
  intro hrecovers
  obtain ⟨hread, hwrite⟩ := prompt_succeed highCapacity hfuel m
  have hquiet := promptConditions_quiet fun _ _ => 0
  have hread' := hrecovers promptRead hquiet hread
  have hwrite' := hrecovers promptWrite hquiet hwrite
  have hx := Within.and_right m.dev.latched dataErrorBits
  have hm := Within.and_left m.dev.latched dataErrorBits
  -- it is one that reads look at, or one that writes look at
  have hr := perform_holds hx hm hread'
  have hw := perform_holds hx hm hwrite'
  have hall : readErrors ||| writeErrors = dataErrorBits := by decide
  have hnone : m.dev.latched &&& dataErrorBits &&& (readErrors ||| writeErrors) = 0#32 := by
    rw [BitVec.and_or_distrib_left]
    show _ &&& promptRead.operation.dataErrors ||| _ &&& promptWrite.operation.dataErrors = _
    rw [hr, hw, BitVec.zero_or]
  rw [hall, BitVec.and_assoc, BitVec.and_self] at hnone
  exact h hnone

/-- A read whose response comes, and whose data time out. -/
def timedOutRead : Attempt where
  operation := .read 0 0
  conditions :=
    { status := fun n => [statusCmdResponseEnd, 0#32].getD n statusDataTimeout
      commandErrors := fun _ => 0#32
      response := fun _ _ => 0#32
      fifo := fun _ => 0#32 }

/-- A read whose data time out fails, and the next one fails because of it. -/
theorem dataTimeout_not_recovered :
    (timedOutRead.perform 129 true newMachine).1 = some false ∧
      ¬ ∀ m ∈ performStep 129 true (some newMachine) timedOutRead, Recovers 129 true m := by
  refine ⟨by rfl, fun h => ?_⟩
  have hlatched : (timedOutRead.perform 129 true newMachine).2.dev.latched = statusDataTimeout := by
    rfl
  have hrecovers := h (timedOutRead.perform 129 true newMachine).2 rfl
  refine not_recovers_of_dataError (by decide) ?_ hrecovers
  rw [hlatched]
  decide

end Runs

end HtcLeo.SdCard

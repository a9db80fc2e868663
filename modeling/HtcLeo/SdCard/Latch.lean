import HtcLeo.Lib.BitMask
import HtcLeo.SdCard.Polling
import HtcLeo.SdCard.Prompt

namespace HtcLeo.SdCard

open Prog BitMask

/-!
# SdCardDxe — a controller that keeps its errors

A controller whose error bits stay in `MCI_STATUS` until `MCI_CLEAR` is written with them.  What
its status shows, and which errors it meets, is arbitrary for every operation.

* `Conditions` — what the controller and the card do during an operation.
* `Latch`, `latch` — the controller and its registers.
* `latch_alternates` — under prompt conditions, and without an error, it is a prompt controller.
-/

/-! ### The controller -/

/-- The error bits of `MCI_STATUS`. -/
def errorBits : U32 :=
  statusStartBitErr ||| statusRxOverrun ||| statusTxUnderrun ||| statusDataTimeout |||
    statusCmdTimeout ||| statusDataCrcFail ||| statusCmdCrcFail

/-- Those of the command path. -/
def commandErrorBits : U32 := statusCmdTimeout ||| statusCmdCrcFail

/-- Those of the data path. -/
def dataErrorBits : U32 :=
  statusStartBitErr ||| statusRxOverrun ||| statusTxUnderrun ||| statusDataTimeout |||
    statusDataCrcFail

/-- Those that `check_clear_read_status` looks at. -/
def readErrors : U32 :=
  statusDataCrcFail ||| statusDataTimeout ||| statusRxOverrun ||| statusStartBitErr

/-- Those that `check_clear_write_status` looks at. -/
def writeErrors : U32 :=
  statusDataCrcFail ||| statusDataTimeout ||| statusTxUnderrun ||| statusStartBitErr

/-- What happens during an operation: what each read of `MCI_STATUS` finds, errors met included;
    the errors of the command path that the command under way has met when the status is read; the
    response to a command; and the words in the FIFO. -/
structure Conditions where
  status : Nat → U32
  commandErrors : Nat → U32
  response : BitVec 16 → Fin 4 → U32
  fifo : Nat → U32

/-- State of the controller: the conditions of the operation, how often the status has been read
    and a word been moved in it, the errors that are latched, those that the command under way can
    still meet, and the index of the last command.  Ghost: the status that has reported the end of
    the block, once all its words were moved. -/
structure Latch where
  conditions : Conditions
  polls : Nat
  moved : Nat
  latched : U32
  pending : U32
  index : BitVec 16
  blockEnd : Option U32

namespace Latch

/-- The errors of `held` that a read of the status finds for the first time. -/
def met (held : U32) (s : Latch) : U32 :=
  s.conditions.status s.polls &&& (held &&& errorBits) |||
    s.conditions.commandErrors s.polls &&& s.pending

/-- What a read of the status shows. -/
def shown (held : U32) (s : Latch) : U32 :=
  s.conditions.status s.polls ||| (s.latched ||| s.met held)

/-- The block has been moved, and a status reports its end. -/
def endsBlock (s : Latch) (status : U32) : Bool :=
  s.blockEnd.isNone && decide (128 ≤ s.moved) && hasBit status statusDataBlkEnd

/-- A read of the status. -/
def poll (held : U32) (s : Latch) : Latch :=
  { s with
    polls := s.polls + 1
    latched := s.latched ||| s.met held
    blockEnd := if s.endsBlock (s.shown held) then some (s.shown held) else s.blockEnd }

/-- A write to `MCI_CMD`: a command with a response can meet the errors of the command path. -/
def command (v : U32) (s : Latch) : Latch :=
  { s with
    index := v.setWidth 16 &&& cmdIndexMask
    pending := if hasBit (v.setWidth 16) cmdResponse then commandErrorBits else s.pending }

/-- A write to `MCI_CLEAR`. -/
def clear (v : U32) (s : Latch) : Latch :=
  { s with latched := s.latched &&& ~~~v, pending := s.pending &&& ~~~v }

/-- A new operation. -/
def start (conditions : Conditions) (s : Latch) : Latch :=
  { s with conditions := conditions, polls := 0, moved := 0, blockEnd := none }

end Latch

/-- The registers of the controller, which keeps the errors of `held`, and those of a command. -/
def latch (held : U32) : Mci Latch where
  read r s := match r with
    | .status => (s.shown held, s.poll held)
    | .fifo   => (s.conditions.fifo s.moved, { s with moved := s.moved + 1 })
    | .resp n => (s.conditions.response s.index n, s)
    | _       => (0#32, s)
  write r v s := match r with
    | .cmd   => s.command v
    | .clear => s.clear v
    | .fifo  => { s with moved := s.moved + 1 }
    | _      => s

/-- A read of the status. -/
theorem latch_status_ensures {held : U32} {P : Machine Latch → Prop}
    {Q : U32 → Machine Latch → Prop}
    (h : ∀ m, P m → Q (m.dev.shown held) { m with dev := m.dev.poll held }) :
    Ensures P (ioRead32 (latch held) .status) Q :=
  Ensures.query h

/-! ### What is shown -/

namespace Latch

variable {held : U32} {s : Latch}

/-- Every latched error is shown. -/
theorem latched_within_shown (held : U32) (s : Latch) : Within s.latched (s.shown held) :=
  (Within.refl _).or_left.or_right

/-- Where the status finds no error of its own, only the command under way meets one. -/
theorem met_eq (h : ∀ n, s.conditions.status n &&& errorBits = 0#32) :
    s.met held = s.conditions.commandErrors s.polls &&& s.pending := by
  unfold met
  rw [BitVec.and_comm held, ← BitVec.and_assoc, h, BitVec.zero_and, BitVec.zero_or]

theorem met_within_pending (h : ∀ n, s.conditions.status n &&& errorBits = 0#32) :
    Within (s.met held) s.pending := by
  rw [met_eq h]
  exact Within.and_right _ _

/-- And none is met where it meets none. -/
theorem met_eq_zero (h : ∀ n, s.conditions.status n &&& errorBits = 0#32)
    (hcommand : ∀ n, s.conditions.commandErrors n = 0#32) : s.met held = 0#32 := by
  rw [met_eq h, hcommand, BitVec.zero_and]

end Latch

/-! ### A prompt card -/

/-- Neither of the two words of a prompt controller has an error. -/
theorem promptStatus_and_errorBits (n : Nat) : promptStatus n &&& errorBits = 0#32 := by
  unfold promptStatus
  split <;> decide

/-- The conditions of a prompt controller, with the responses of a card. -/
def promptConditions (response : BitVec 16 → Fin 4 → U32) : Conditions where
  status := promptStatus
  commandErrors _ := 0#32
  response := response
  fifo _ := 0#32

/-- A controller that has met nothing yet. -/
def newMachine : Machine Latch where
  dev := ⟨promptConditions fun _ _ => 0, 0, 0, 0#32, 0#32, 0#16, none⟩
  mem _ := 0#8

/-- The controller works under such conditions, without an error. -/
def Latch.IsPrompt (s : Latch) : Prop :=
  s.conditions.status = promptStatus ∧ (∀ n, s.conditions.commandErrors n = 0#32) ∧ s.latched = 0#32

/-- The next poll shows the first word. -/
def Latch.Busy (s : Latch) : Prop := s.IsPrompt ∧ s.polls % 2 = 0
/-- The next poll shows the second word. -/
def Latch.Idle (s : Latch) : Prop := s.IsPrompt ∧ ¬ s.polls % 2 = 0

variable {held : U32}

/-- A poll shows the word of the conditions, and meets no error. -/
theorem Latch.IsPrompt.poll {s : Latch} (h : s.IsPrompt) :
    s.shown held = promptStatus s.polls ∧ (s.poll held).IsPrompt := by
  obtain ⟨hstatus, hcommand, hlatched⟩ := h
  have hmet : s.met held = 0#32 := by
    refine met_eq_zero (fun n => ?_) hcommand
    rw [hstatus]
    exact promptStatus_and_errorBits n
  have hnone : s.latched ||| s.met held = 0#32 := by rw [hlatched, hmet, BitVec.zero_or]
  refine ⟨?_, hstatus, hcommand, hnone⟩
  unfold Latch.shown
  rw [hnone, hstatus, BitVec.or_zero]

/-- Other accesses change neither the conditions nor the number of polls, and latch no error. -/
theorem latch_write_frame (held : U32) (r : MciReg) (v : U32) (s : Latch) :
    ((latch held).write r v s).polls = s.polls ∧
      (s.IsPrompt → ((latch held).write r v s).IsPrompt) := by
  cases r with
  | clear =>
    refine ⟨rfl, ?_⟩
    rintro ⟨hstatus, hcommand, hlatched⟩
    refine ⟨hstatus, hcommand, ?_⟩
    show s.latched &&& ~~~v = 0#32
    rw [hlatched, BitVec.zero_and]
  | _ => exact ⟨rfl, id⟩

theorem latch_alternates : Alternates (latch held) Latch.Busy Latch.Idle where
  showsBusy := by
    rintro s ⟨hprompt, heven⟩
    have hodd : ¬ (s.polls + 1) % 2 = 0 := by omega
    refine ⟨?_, hprompt.poll.2, hodd⟩
    show s.shown held = busyStatus
    rw [hprompt.poll.1, promptStatus, if_pos heven]
  showsIdle := by
    rintro s ⟨hprompt, hodd⟩
    have heven : (s.polls + 1) % 2 = 0 := by omega
    refine ⟨?_, hprompt.poll.2, heven⟩
    show s.shown held = idleStatus
    rw [hprompt.poll.1, promptStatus, if_neg hodd]
  read := by
    intro r s hr
    cases r with
    | status => exact absurd rfl hr
    | _ => exact ⟨id, id⟩
  write := by
    intro r v s
    obtain ⟨hpolls, hprompt⟩ := latch_write_frame held r v s
    unfold Latch.Busy Latch.Idle
    rw [hpolls]
    exact ⟨And.imp_left hprompt, And.imp_left hprompt⟩

end HtcLeo.SdCard

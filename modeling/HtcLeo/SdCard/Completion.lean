import HtcLeo.SdCard.Controller
import HtcLeo.SdCard.Prompt

namespace HtcLeo.SdCard

open Prog

/-!
# SdCardDxe — transfers that succeed

The controller with a card is a prompt one when its polls show the two words in turn; then its
single-block transfers have a result, and succeed.

* `sdcc_alternates` — its states before the one word and before the other.
* `readABlock_completes`, `writeABlock_completes` — the transfers succeed.
-/

/-- The polls show the two words in turn. -/
def Prompt (m : Machine Sdcc) : Prop := m.dev.status = promptStatus

/-- The next poll shows the first word. -/
def Sdcc.Busy (s : Sdcc) : Prop := s.status = promptStatus ∧ s.polls % 2 = 0
/-- The next poll shows the second word. -/
def Sdcc.Idle (s : Sdcc) : Prop := s.status = promptStatus ∧ ¬ s.polls % 2 = 0

/-- A machine is prompt before an even poll, and before an odd one. -/
theorem prompt_iff (m : Machine Sdcc) : IsPrompt Sdcc.Busy Sdcc.Idle m ↔ Prompt m := by
  constructor
  · rintro (h | h)
    · exact h.1
    · exact h.1
  · intro h
    by_cases heven : m.dev.polls % 2 = 0
    · exact Or.inl ⟨h, heven⟩
    · exact Or.inr ⟨h, heven⟩

/-- Writes leave what the polls show and how many there were. -/
theorem sdcc_write_frame (highCapacity : Bool) (r : MciReg) (v : U32) (s : Sdcc) :
    ((sdcc highCapacity).write r v s).status = s.status ∧
      ((sdcc highCapacity).write r v s).polls = s.polls := by
  cases r with
  | cmd =>
    show (s.command highCapacity v).status = _ ∧ (s.command highCapacity v).polls = _
    unfold Sdcc.command
    dsimp only
    split
    · exact ⟨rfl, rfl⟩
    · split
      · exact ⟨rfl, rfl⟩
      · exact ⟨rfl, rfl⟩
  | fifo =>
    show (s.push v).status = _ ∧ (s.push v).polls = _
    unfold Sdcc.push
    split
    · exact ⟨rfl, rfl⟩
    · exact ⟨rfl, rfl⟩
  | _ => exact ⟨rfl, rfl⟩

variable {highCapacity : Bool} {fuel : Nat}

theorem sdcc_alternates : Alternates (sdcc highCapacity) Sdcc.Busy Sdcc.Idle where
  showsBusy := by
    rintro s ⟨hstatus, heven⟩
    have hodd : ¬ (s.polls + 1) % 2 = 0 := by omega
    refine ⟨?_, hstatus, hodd⟩
    show s.status s.polls = busyStatus
    rw [hstatus, promptStatus, if_pos heven]
  showsIdle := by
    rintro s ⟨hstatus, hodd⟩
    have heven : (s.polls + 1) % 2 = 0 := by omega
    refine ⟨?_, hstatus, heven⟩
    show s.status s.polls = idleStatus
    rw [hstatus, promptStatus, if_neg hodd]
  read := by
    intro r s hr
    cases r with
    | status => exact absurd rfl hr
    | _ => exact ⟨id, id⟩
  write := by
    intro r v s
    obtain ⟨hstatus, hpolls⟩ := sdcc_write_frame highCapacity r v s
    unfold Sdcc.Busy Sdcc.Idle
    rw [hstatus, hpolls]
    exact ⟨id, id⟩

/-- `read_a_block` succeeds. -/
theorem readABlock_completes (hfuel : 128 < fuel) (block : U32) (buffer : Nat) :
    Completes Prompt (readABlock (sdcc highCapacity) fuel highCapacity block buffer)
      (fun ok m => ok = true ∧ Prompt m) :=
  (sdcc_alternates.readABlock hfuel highCapacity block buffer).mono
    (fun m hm => (prompt_iff m).mpr hm) (fun _ m hq => ⟨hq.1, (prompt_iff m).mp hq.2⟩)

/-- `write_a_block` succeeds. -/
theorem writeABlock_completes (hfuel : 128 < fuel) (block : U32) (buffer : Nat)
    (rca : BitVec 16) :
    Completes Prompt (writeABlock (sdcc highCapacity) fuel highCapacity block buffer rca)
      (fun ok m => ok = true ∧ Prompt m) :=
  (sdcc_alternates.writeABlock hfuel highCapacity block buffer rca).mono
    (fun m hm => (prompt_iff m).mpr hm) (fun _ m hq => ⟨hq.1, (prompt_iff m).mp hq.2⟩)

end HtcLeo.SdCard

import HtcLeo.Lib.Outcomes
import HtcLeo.SdCard.Controller

namespace HtcLeo.SdCard

open Prog

/-!
# SdCardDxe — what a transfer leaves

What `read_a_block` and `write_a_block` leave behind on a controller with a card, whatever its polls
show: also when they fail, and when one of their waits does not end.

* `readABlock_outcomes` — the card is as before, and the buffer holds the first words of the block.
* `writeABlock_outcomes` — the memory is as before, and the card either is too or has the whole
  block.
* `transferAll_outcomes` — what a loop over blocks leaves, from what its transfers do.
-/

/-- A command leads from `P` to what holds once it is programmed, with or without a result. -/
theorem sdccSendCmd_outcomes {highCapacity : Bool} {P I : Machine Sdcc → Prop} (hI : PollFree I)
    {cmd : BitVec 16} {arg : U32} (h : ∀ m, P m → I (m.issue highCapacity cmd arg)) (fuel : Nat) :
    Outcomes P (sdccSendCmd (sdcc highCapacity) fuel cmd arg) (fun _ => I) := by
  intro m hm
  rw [sdccSendCmd_apply]
  exact awaitCmd_keeps hI fuel cmd arg _ (h m hm)

/-! ### A read -/

section Read

variable (content mem : Memory) (a buffer : Nat)

/-- The first `j` words of the block at `a` have been copied, and nothing else has happened. -/
def WordsRead (j : Nat) (m : Machine Sdcc) : Prop :=
  j ≤ 128 ∧ m.dev.content = content ∧
    m.mem = Memory.blit buffer (4 * j) (fun i => content (a + i)) mem

/-- What a read leaves: some words of the block, and all of them if it succeeds. -/
def ReadLeft (r : Option Bool) (m : Machine Sdcc) : Prop :=
  ∃ j, WordsRead content mem a buffer j m ∧ (r = some true → j = 128)

variable {content mem a buffer} {log : List (BitVec 16 × U32)}

theorem ReadInv.wordsRead {c : Cursor} {m : Machine Sdcc} {j : Nat}
    (h : ReadInv content mem log a buffer c m j) : WordsRead content mem a buffer j m :=
  ⟨h.le, h.card, h.copied⟩

theorem readLoop_outcomes (highCapacity : Bool) (fuel : Nat) (c : Cursor) :
    Outcomes (fun m => ∃ j, ReadInv content mem log a buffer c m j)
      (readLoop (sdcc highCapacity) fuel c) (ReadLeft content mem a buffer) := by
  have hstop : ∀ (r : Option Bool) (c : Cursor) (m : Machine Sdcc), r ≠ some true →
      (∃ j, ReadInv content mem log a buffer c m j) → ReadLeft content mem a buffer r m := by
    rintro r c m hr ⟨j, hj⟩
    exact ⟨j, hj.wordsRead, fun h => absurd h hr⟩
  refine Outcomes.loop (fun c m => ∃ j, ReadInv content mem log a buffer c m j) (fun c => ?_)
    (fun c m h => hstop none c m (by simp) h) fuel c
  split
  · rename_i hlt
    have hfree := ReadInv.pollFree content mem log a buffer c
    refine Outcomes.bind (Outcomes.keeps (ioRead32_status_keeps hfree)) (fun status => ?_)
      fun m h => hstop none c m (by simp) h
    split
    · -- a word is there: read it and store it
      rintro m ⟨j, hj⟩
      exact ⟨j + 1, hj.next hlt⟩
    · split
      · exact Outcomes.pure fun m h => h
      · exact Outcomes.pure fun m h => hstop (some false) c m (by simp) h
  · -- the count has reached the block size: all words have been read
    rename_i hge
    refine Outcomes.pure ?_
    rintro m ⟨j, hj⟩
    have hc : c.byteCount = 4 * j := by rw [hj.cursor]
    have hle := hj.le
    have hge' : ¬ c.byteCount < 512 := hge
    exact ⟨j, hj.wordsRead, fun _ => by omega⟩

/-- **`read_a_block`**, whatever becomes of it: it copies words of the block to the buffer, the
    first ones first, and all of them if it succeeds. -/
theorem readABlock_outcomes (highCapacity : Bool) (fuel : Nat) (block : U32) (content mem : Memory)
    (log : List (BitVec 16 × U32)) (buffer : Nat) :
    Outcomes (fun m => m.dev.content = content ∧ m.dev.log = log ∧ m.mem = mem)
      (readABlock (sdcc highCapacity) fuel highCapacity block buffer)
      (ReadLeft content mem
        (byteAddress highCapacity (commandAddress highCapacity block)) buffer) := by
  let arg := commandAddress highCapacity block
  let a := byteAddress highCapacity arg
  let P (m : Machine Sdcc) : Prop := m.dev.content = content ∧ m.dev.log = log ∧ m.mem = mem
  let Start (m : Machine Sdcc) : Prop :=
    ∃ j, ReadInv content mem ((cmd17, arg) :: log) a buffer ⟨buffer, 0⟩ m j
  have hnone : ∀ m, P m → ReadLeft content mem a buffer none m := by
    rintro m ⟨rfl, -, rfl⟩
    exact ⟨0, ⟨Nat.zero_le _, rfl, by simp⟩, by simp⟩
  have hstart : ∀ r m, r ≠ some true → Start m → ReadLeft content mem a buffer r m := by
    rintro r m hr ⟨j, hj⟩
    exact ⟨j, hj.wordsRead, fun h => absurd h hr⟩
  have hconfig : ∀ (r : MciReg) (_ : r.passive = true) (v : U32),
      Outcomes P (ioWrite32 (sdcc highCapacity) r v) fun _ => P :=
    fun r hr v => Outcomes.keeps (ioWrite32_keeps hr v)
  have hcmd : Outcomes P (sdccSendCmd (sdcc highCapacity) fuel
      (cmd17 ||| cmdEnable ||| cmdResponse) arg) fun _ => Start := by
    refine sdccSendCmd_outcomes (ReadInv.pollFree content mem ((cmd17, arg) :: log) a buffer _)
      ?_ fuel
    -- the command presents the block in the FIFO
    rintro m ⟨rfl, rfl, rfl⟩
    rw [issue_read]
    exact ⟨0, Nat.zero_le _, rfl, rfl, rfl, rfl, by rw [Nat.mul_zero, Memory.blit_zero]⟩
  refine Outcomes.bind (hconfig _ rfl _) (fun _ => ?_) hnone
  refine Outcomes.bind (hconfig _ rfl _) (fun _ => ?_) hnone
  refine Outcomes.bind (hconfig _ rfl _) (fun _ => ?_) hnone
  refine Outcomes.bind hcmd (fun r => ?_) fun m h => hstart none m (by simp) h
  split
  · exact Outcomes.pure fun m h => hstart (some false) m (by simp) h
  · refine Outcomes.bind (readLoop_outcomes highCapacity fuel _) (fun ok => ?_) fun m h => h
    cases ok with
    | false => exact Outcomes.pure fun m h => h
    | true =>
      -- the check after the block touches neither the card nor the memory
      intro m hm
      obtain ⟨j, hj, hall⟩ := hm
      have hfree : PollFree (WordsRead content mem a buffer j) := fun _ _ h => h
      exact ⟨j, checkClearStatus_keeps hfree fuel _ _ m hj, fun _ => hall rfl⟩

end Read

/-! ### A write -/

section Write

variable (content mem : Memory) (a buffer : Nat)

/-- The block at `a` has been stored, or nothing has happened. -/
def BlockStored (stored : Bool) (m : Machine Sdcc) : Prop :=
  m.mem = mem ∧ m.dev.content
    = if stored then Memory.blit a 512 (fun i => mem (buffer + i)) content else content

/-- What a write leaves: the whole block or nothing of it, and the block if it succeeds. -/
def WriteLeft (r : Option Bool) (m : Machine Sdcc) : Prop :=
  ∃ stored, BlockStored content mem a buffer stored m ∧ (r = some true → stored = true)

variable {content mem a buffer} {log : List (BitVec 16 × U32)}

/-- The card has the block as soon as the last word has been written. -/
theorem WriteInv.blockStored {c : Cursor} {m : Machine Sdcc} {j : Nat}
    (h : WriteInv content mem log a buffer c m j) :
    BlockStored content mem a buffer (decide (j = 128)) m := by
  refine ⟨h.unchanged, ?_⟩
  by_cases hj : j = 128
  · simp [hj, h.stored hj]
  · have hlt : j < 128 := lt_of_le_of_ne h.le hj
    simp [hj, (h.tx hlt).2]

theorem writeLoop_outcomes (highCapacity : Bool) (fuel : Nat) (c : Cursor) :
    Outcomes (fun m => ∃ j, WriteInv content mem log a buffer c m j)
      (writeLoop (sdcc highCapacity) fuel c) (WriteLeft content mem a buffer) := by
  have hstop : ∀ (r : Option Bool) (c : Cursor) (m : Machine Sdcc), r ≠ some true →
      (∃ j, WriteInv content mem log a buffer c m j) → WriteLeft content mem a buffer r m := by
    rintro r c m hr ⟨j, hj⟩
    exact ⟨_, hj.blockStored, fun h => absurd h hr⟩
  refine Outcomes.loop (fun c m => ∃ j, WriteInv content mem log a buffer c m j) (fun c => ?_)
    (fun c m h => hstop none c m (by simp) h) fuel c
  split
  · rename_i hlt
    have hfree := WriteInv.pollFree content mem log a buffer c
    have hpush : ∀ status, Outcomes (fun m => ∃ j, WriteInv content mem log a buffer c m j)
        (pushWord (sdcc highCapacity) status c) fun r m => ∃ c', (∀ b, r = some b → b = c') ∧
          ∃ j, WriteInv content mem log a buffer c' m j := by
      intro status
      unfold pushWord
      split
      · exact Outcomes.pure fun m h => ⟨c, by simp, h⟩
      · rintro m ⟨j, hj⟩
        exact ⟨c.next, fun b hb => (Option.some.inj hb).symm, j + 1, hj.next hlt⟩
    refine Outcomes.bind (Outcomes.keeps (ioRead32_status_keeps hfree)) (fun status => ?_)
      fun m h => hstop none c m (by simp) h
    refine Outcomes.bind (hpush status) (fun c' => ?_) fun m h => ?_
    · split
      · refine Outcomes.pure fun m h => ?_
        obtain ⟨c'', -, hc''⟩ := h
        exact hstop (some false) c'' m (by simp) hc''
      · refine Outcomes.pure fun m h => ?_
        obtain ⟨c'', heq, hc''⟩ := h
        rw [heq c' rfl]
        exact hc''
    · obtain ⟨c'', -, hc''⟩ := h
      exact hstop none c'' m (by simp) hc''
  · -- the count has reached the block size: the last word has made the card store the block
    rename_i hge
    refine Outcomes.pure ?_
    rintro m ⟨j, hj⟩
    have hc : c.byteCount = 4 * j := by rw [hj.cursor]
    have hle := hj.le
    have hge' : ¬ c.byteCount < 512 := hge
    exact ⟨_, hj.blockStored, fun _ => by simp; omega⟩

/-- **`write_a_block`**, whatever becomes of it: the card stores the whole block or nothing of it,
    and the block if it succeeds. -/
theorem writeABlock_outcomes (highCapacity : Bool) (fuel : Nat) (block : U32) (rca : BitVec 16)
    (content mem : Memory) (log : List (BitVec 16 × U32)) (buffer : Nat) :
    Outcomes (fun m => m.dev.content = content ∧ m.dev.log = log ∧ m.mem = mem)
      (writeABlock (sdcc highCapacity) fuel highCapacity block buffer rca)
      (WriteLeft content mem
        (byteAddress highCapacity (commandAddress highCapacity block)) buffer) := by
  let arg := commandAddress highCapacity block
  let a := byteAddress highCapacity arg
  let P (m : Machine Sdcc) : Prop := m.dev.content = content ∧ m.dev.log = log ∧ m.mem = mem
  let Start (m : Machine Sdcc) : Prop :=
    ∃ j, WriteInv content mem ((cmd24, arg) :: log) a buffer ⟨buffer, 0⟩ m j
  have hnone : ∀ m, P m → WriteLeft content mem a buffer none m := by
    rintro m ⟨rfl, -, rfl⟩
    exact ⟨false, ⟨rfl, rfl⟩, by simp⟩
  have hstart : ∀ r m, r ≠ some true → Start m → WriteLeft content mem a buffer r m := by
    rintro r m hr ⟨j, hj⟩
    exact ⟨_, hj.blockStored, fun h => absurd h hr⟩
  have hfree := WriteInv.pollFree content mem ((cmd24, arg) :: log) a buffer ⟨buffer, 0⟩
  have hconfig : ∀ (r : MciReg) (_ : r.passive = true) (v : U32),
      Outcomes P (ioWrite32 (sdcc highCapacity) r v) fun _ => P :=
    fun r hr v => Outcomes.keeps (ioWrite32_keeps hr v)
  have hcmd : Outcomes P (sdccSendCmd (sdcc highCapacity) fuel
      (cmd24 ||| cmdEnable ||| cmdResponse) arg) fun _ => Start := by
    refine sdccSendCmd_outcomes hfree ?_ fuel
    -- the command sets where the block goes
    rintro m ⟨rfl, rfl, rfl⟩
    rw [issue_write]
    exact ⟨0, Nat.zero_le _, rfl, rfl, fun _ => ⟨rfl, rfl⟩, fun h => absurd h (by decide), rfl, rfl⟩
  -- nothing after the loop touches the card or the memory
  have hrest : ∀ stored, Keeps (BlockStored content mem a buffer stored)
      (checkClearWriteStatus (sdcc highCapacity) fuel >>= fun clear =>
        if !clear then pure false else writeEnd (sdcc highCapacity) fuel rca) := by
    intro stored
    have hfree : PollFree (BlockStored content mem a buffer stored) := fun _ _ h => h
    refine Keeps.bind (checkClearStatus_keeps hfree fuel _ _) fun clear => ?_
    split
    · exact Keeps.pure _
    · exact writeEnd_keeps hfree (fun _ _ h => h) fuel rca
  refine Outcomes.bind (hconfig _ rfl _) (fun _ => ?_) hnone
  refine Outcomes.bind (hconfig _ rfl _) (fun _ => ?_) hnone
  refine Outcomes.bind hcmd (fun r => ?_) fun m h => hstart none m (by simp) h
  split
  · exact Outcomes.pure fun m h => hstart (some false) m (by simp) h
  · refine Outcomes.bind (Outcomes.keeps (ioWrite32_keeps rfl _)) (fun _ => ?_)
      fun m h => hstart none m (by simp) h
    refine Outcomes.bind (writeLoop_outcomes highCapacity fuel _) (fun ok => ?_) fun m h => h
    cases ok with
    | false => exact Outcomes.pure fun m h => h
    | true =>
      intro m hm
      obtain ⟨stored, hstored, hall⟩ := hm
      exact ⟨stored, hrest stored m hstored, fun _ => hall rfl⟩

end Write

/-! ### Consecutive blocks -/

variable {σ : Type}

/-- Where the transfer of block `j` leads from `Block j` to `Block (j + 1)` if it succeeds, and to
    `Failed j` if not, a loop over `n` blocks leads to `Block n` with the count of all of them, or
    to `Failed j` for one of them, with the count of those before it if it has a result. -/
theorem transferAll_outcomes {single : U32 → Nat → Prog σ Bool} (Block Failed : Nat → σ → Prop)
    (n : Nat) (block : U32) (buffer : Nat) (run : U32)
    (hstep : ∀ j, j < n → Outcomes (Block j)
      (single (block + BitVec.ofNat 32 j) (buffer + blockSize * j))
      (fun r s => if r = some true then Block (j + 1) s else Failed j s)) :
    Outcomes (Block 0) (transferAll single n block buffer run) (fun r s =>
      (r = some (run + BitVec.ofNat 32 n) ∧ Block n s) ∨
        ∃ j < n, Failed j s ∧ ∀ ret, r = some ret → ret = run + BitVec.ofNat 32 j) := by
  induction n generalizing Block Failed block buffer run with
  | zero => exact Outcomes.pure fun s hs => Or.inl ⟨by simp, hs⟩
  | succ n ih =>
    have hfirst := hstep 0 (Nat.succ_pos n)
    rw [BitVec.add_zero, Nat.mul_zero, Nat.add_zero] at hfirst
    refine Outcomes.bind hfirst (fun ok => ?_)
      fun s hs => Or.inr ⟨0, Nat.succ_pos n, by simpa using hs, by simp⟩
    cases ok with
    | false => exact Outcomes.pure fun s hs => Or.inr ⟨0, Nat.succ_pos n, by simpa using hs, by simp⟩
    | true =>
      -- the blocks after the first, counted from the second
      have hnext : ∀ j, j < n → Outcomes (Block (j + 1))
          (single (block + 1#32 + BitVec.ofNat 32 j) (buffer + blockSize + blockSize * j))
          (fun r s => if r = some true then Block (j + 1 + 1) s else Failed (j + 1) s) := by
        intro j hj
        rw [← block_succ, ← buffer_succ]
        exact hstep (j + 1) (Nat.succ_lt_succ hj)
      have hrest := ih (fun j => Block (j + 1)) (fun j => Failed (j + 1)) (block + 1#32)
        (buffer + blockSize) (run + 1#32) hnext
      refine hrest.mono (fun s hs => by simpa using hs) fun r s h => ?_
      rcases h with ⟨hr, hs⟩ | ⟨j, hj, hs, hr⟩
      · exact Or.inl ⟨by rw [hr, block_succ run n], hs⟩
      · exact Or.inr ⟨j + 1, Nat.succ_lt_succ hj, hs, fun ret hret => by
          rw [hr ret hret, block_succ run j]⟩

end HtcLeo.SdCard

import HtcLeo.SdCard.BlockIo
import HtcLeo.SdCard.Polling

namespace HtcLeo.SdCard

open Prog

/-!
# SdCardDxe — a controller with a card

A controller whose card is an array of bytes: `CMD17` presents the block at its argument in
the FIFO, and the words written to the FIFO after a `CMD24` replace the block at its argument.
What the polls of `MCI_STATUS` show is arbitrary.

* `Sdcc`, `sdcc` — the controller and its registers.
* `readABlock_spec`, `writeABlock_spec` — whatever the polls show, a `read_a_block` that
  succeeds has copied the 512 bytes at its command argument, and a `write_a_block` that
  succeeds has replaced them.
-/

/-- State of the controller: what the polls of `MCI_STATUS` show and how many there were, the
    response words, the argument register, the words to be read from and those written to the
    FIFO, where the block being written begins, the bytes of the card, and (ghost) the data
    commands issued with their arguments, the latest first. -/
structure Sdcc where
  status : Nat → U32
  polls : Nat
  response : Fin 4 → U32
  argument : U32
  rx : List U32
  tx : List U32
  target : Nat
  content : Memory
  log : List (BitVec 16 × U32)

/-- Where on the card the block at a command argument begins: the argument counts bytes on a
    standard-capacity card, and units of 512 bytes on a high-capacity card. -/
def byteAddress (highCapacity : Bool) (argument : U32) : Nat :=
  if highCapacity then argument.toNat * 512 else argument.toNat

/-- The words of the block that begins at byte `a`. -/
def blockWords (content : Memory) (a : Nat) : List U32 :=
  (List.range 128).map fun i => Memory.load32 content (a + 4 * i)

namespace Sdcc

/-- A write to `MCI_CMD`. -/
def command (highCapacity : Bool) (cmd : U32) (s : Sdcc) : Sdcc :=
  let index := cmd.setWidth 16 &&& cmdIndexMask
  if index = cmd17 then
    -- the block is read at once; it does not change while the words are fetched
    { s with
      rx := blockWords s.content (byteAddress highCapacity s.argument)
      log := (cmd17, s.argument) :: s.log }
  else if index = cmd24 then
    { s with
      tx := []
      target := byteAddress highCapacity s.argument
      log := (cmd24, s.argument) :: s.log }
  else s

/-- A word written to `MCI_FIFO`; the last of a block makes the card store it. -/
def push (w : U32) (s : Sdcc) : Sdcc :=
  if s.tx.length + 1 = 128 then
    { s with tx := [], content := Memory.storeWords s.target (s.tx ++ [w]) s.content }
  else { s with tx := s.tx ++ [w] }

end Sdcc

/-- The registers of the controller. -/
def sdcc (highCapacity : Bool) : Mci Sdcc where
  read r s := match r with
    | .status => (s.status s.polls, { s with polls := s.polls + 1 })
    | .fifo   => (s.rx.headD 0#32, { s with rx := s.rx.tail })
    | .resp n => (s.response n, s)
    | _       => (0#32, s)
  write r v s := match r with
    | .argument => { s with argument := v }
    | .cmd      => s.command highCapacity v
    | .fifo     => s.push v
    | _         => s

/-- The transfer functions of `mmc.c` on the controller; the data mover is not used. -/
def cardTransfers (highCapacity : Bool) (fuel : Nat) (rca : BitVec 16)
    (dm : U32 → U32 → Nat → Prog (Machine Sdcc) Bool) : Transfers (Machine Sdcc) where
  readABlock := readABlock (sdcc highCapacity) fuel highCapacity
  readABlockDm := dm
  writeABlock := fun block buffer =>
    writeABlock (sdcc highCapacity) fuel highCapacity block buffer rca
  writeABlockDm := dm

/-! ### What the polling parts keep -/

/-- A property of the machine that does not depend on the number of polls. -/
def PollFree (I : Machine Sdcc → Prop) : Prop :=
  ∀ m n, I m → I { m with dev := { m.dev with polls := n } }

section Keeps

variable {highCapacity : Bool} {I : Machine Sdcc → Prop}

/-- The registers whose writes only configure the controller. -/
def MciReg.passive : MciReg → Bool
  | .argument | .cmd | .fifo => false
  | _ => true

theorem ioWrite32_keeps {r : MciReg} (hr : r.passive = true) (v : U32) :
    Keeps I (ioWrite32 (sdcc highCapacity) r v) := by
  intro m hm
  cases r <;> first | exact hm | exact absurd hr (by decide)

theorem ioRead32_status_keeps (hI : PollFree I) :
    Keeps I (ioRead32 (sdcc highCapacity) .status) := fun m hm => hI m (m.dev.polls + 1) hm

theorem ioRead32_resp_keeps (n : Fin 4) :
    Keeps I (ioRead32 (sdcc highCapacity) (.resp n)) := fun _ hm => hm

/-- Such a property is kept by the accesses of the polling parts. -/
theorem PollFree.polled (hI : PollFree I) (clears : List U32) :
    Polled (sdcc highCapacity) clears I :=
  ⟨ioRead32_status_keeps hI, ioRead32_resp_keeps, fun _ _ => ioWrite32_keeps rfl _⟩

theorem pollStatus_keeps (hI : PollFree I) (fuel : Nat) (stop : U32 → Bool) :
    Keeps I (pollStatus (sdcc highCapacity) fuel stop) :=
  (hI.polled []).pollStatus fuel stop

theorem awaitCmd_keeps (hI : PollFree I) (fuel : Nat) (cmd : BitVec 16) (arg : U32) :
    Keeps I (awaitCmd (sdcc highCapacity) fuel cmd arg) :=
  (hI.polled _).awaitCmd fuel cmd arg

theorem checkClearStatus_keeps (hI : PollFree I) (fuel : Nat) (errors cleared : U32) :
    Keeps I (checkClearStatus (sdcc highCapacity) fuel errors cleared) :=
  (hI.polled _).checkClearStatus fuel errors

end Keeps

/-! ### Commands -/

/-- The machine once a command is programmed. -/
def Machine.issue (highCapacity : Bool) (cmd : BitVec 16) (arg : U32) (m : Machine Sdcc) :
    Machine Sdcc :=
  { m with dev := { m.dev with argument := arg }.command highCapacity (cmd.setWidth 32) }

/-- `READ_SINGLE_BLOCK` presents the block at its argument in the FIFO. -/
theorem issue_read (highCapacity : Bool) (arg : U32) (m : Machine Sdcc) :
    m.issue highCapacity (cmd17 ||| cmdEnable ||| cmdResponse) arg
      = { m with dev := { m.dev with
          argument := arg
          rx := blockWords m.dev.content (byteAddress highCapacity arg)
          log := (cmd17, arg) :: m.dev.log } } := by
  have h17 : ((cmd17 ||| cmdEnable ||| cmdResponse).setWidth 32).setWidth 16 &&& cmdIndexMask
      = cmd17 := by decide
  simp only [Machine.issue, Sdcc.command, if_pos h17]

/-- `WRITE_BLOCK` sets where the words written to the FIFO go. -/
theorem issue_write (highCapacity : Bool) (arg : U32) (m : Machine Sdcc) :
    m.issue highCapacity (cmd24 ||| cmdEnable ||| cmdResponse) arg
      = { m with dev := { m.dev with
          argument := arg
          tx := []
          target := byteAddress highCapacity arg
          log := (cmd24, arg) :: m.dev.log } } := by
  have h17 : ¬ ((cmd24 ||| cmdEnable ||| cmdResponse).setWidth 32).setWidth 16 &&& cmdIndexMask
      = cmd17 := by decide
  have h24 : ((cmd24 ||| cmdEnable ||| cmdResponse).setWidth 32).setWidth 16 &&& cmdIndexMask
      = cmd24 := by decide
  simp only [Machine.issue, Sdcc.command, if_neg h17, if_pos h24]

/-- `SEND_STATUS` leaves the card alone. -/
theorem issue_sendStatus (highCapacity : Bool) (arg : U32) (m : Machine Sdcc) :
    m.issue highCapacity (cmd13 ||| cmdEnable ||| cmdResponse ||| cmdProgEna) arg
      = { m with dev := { m.dev with argument := arg } } := by
  have h17 : ¬ ((cmd13 ||| cmdEnable ||| cmdResponse ||| cmdProgEna).setWidth 32).setWidth 16
      &&& cmdIndexMask = cmd17 := by decide
  have h24 : ¬ ((cmd13 ||| cmdEnable ||| cmdResponse ||| cmdProgEna).setWidth 32).setWidth 16
      &&& cmdIndexMask = cmd24 := by decide
  simp only [Machine.issue, Sdcc.command, if_neg h17, if_neg h24]

theorem sdccSendCmd_apply (highCapacity : Bool) (fuel : Nat) (cmd : BitVec 16) (arg : U32)
    (m : Machine Sdcc) :
    sdccSendCmd (sdcc highCapacity) fuel cmd arg m
      = awaitCmd (sdcc highCapacity) fuel cmd arg (m.issue highCapacity cmd arg) := rfl

/-- What holds once the command is programmed holds when it is over. -/
theorem sdccSendCmd_ensures {highCapacity : Bool} {P I : Machine Sdcc → Prop} (hI : PollFree I)
    {cmd : BitVec 16} {arg : U32} (h : ∀ m, P m → I (m.issue highCapacity cmd arg))
    (fuel : Nat) : Ensures P (sdccSendCmd (sdcc highCapacity) fuel cmd arg) (fun _ => I) := by
  intro m a m' hm heq
  rw [sdccSendCmd_apply] at heq
  exact (awaitCmd_keeps hI fuel cmd arg).ensures _ a m' (h m hm) heq

theorem sdccSendCmd_keeps {highCapacity : Bool} {I : Machine Sdcc → Prop} (hI : PollFree I)
    {cmd : BitVec 16} {arg : U32} (h : ∀ m, I m → I (m.issue highCapacity cmd arg))
    (fuel : Nat) : Keeps I (sdccSendCmd (sdcc highCapacity) fuel cmd arg) := by
  intro m hm
  rw [sdccSendCmd_apply]
  exact awaitCmd_keeps hI fuel cmd arg _ (h m hm)

theorem writeEnd_keeps {highCapacity : Bool} {I : Machine Sdcc → Prop} (hI : PollFree I)
    (harg : ∀ (m : Machine Sdcc) arg, I m → I { m with dev := { m.dev with argument := arg } })
    (fuel : Nat) (rca : BitVec 16) : Keeps I (writeEnd (sdcc highCapacity) fuel rca) := by
  refine Keeps.bind (sdccSendCmd_keeps hI (fun m hm => ?_) fuel) fun r => ?_
  · rw [issue_sendStatus]
    exact harg m _ hm
  · split
    · exact Keeps.pure _
    · refine Keeps.bind (pollStatus_keeps hI fuel _) fun _ => ?_
      refine Keeps.bind (ioWrite32_keeps rfl _) fun _ => ?_
      exact Keeps.bind (pollStatus_keeps hI fuel _) fun _ => Keeps.pure _

/-! ### Commands issued -/

/-- Every data command issued satisfies `A`. -/
def LogAll (A : BitVec 16 × U32 → Prop) (m : Machine Sdcc) : Prop := ∀ e ∈ m.dev.log, A e

theorem LogAll.pollFree (A : BitVec 16 × U32 → Prop) : PollFree (LogAll A) := fun _ _ h => h

section Issued

variable {highCapacity : Bool} {A : BitVec 16 × U32 → Prop}

/-- `read_a_block` issues no data command but its `CMD17`. -/
theorem readABlock_logAll (fuel : Nat) (block : U32) (buffer : Nat)
    (h : A (cmd17, commandAddress highCapacity block)) :
    Keeps (LogAll A) (readABlock (sdcc highCapacity) fuel highCapacity block buffer) := by
  have hloop : ∀ c, Keeps (LogAll A) (readLoop (sdcc highCapacity) fuel c) :=
    ((LogAll.pollFree A).polled []).readLoop (fun _ hm => hm) (fun _ _ _ hm => hm) fuel
  refine Keeps.bind (ioWrite32_keeps rfl _) fun _ => ?_
  refine Keeps.bind (ioWrite32_keeps rfl _) fun _ => ?_
  refine Keeps.bind (ioWrite32_keeps rfl _) fun _ => ?_
  refine Keeps.bind (sdccSendCmd_keeps (LogAll.pollFree A) (fun m hm => ?_) fuel) fun r => ?_
  · rw [issue_read]
    exact List.forall_mem_cons.mpr ⟨h, hm⟩
  · split
    · exact Keeps.pure _
    · refine Keeps.bind (hloop _) fun ok => ?_
      split
      · exact Keeps.pure _
      · exact checkClearStatus_keeps (LogAll.pollFree A) fuel _ _

/-- `write_a_block` issues no data command but its `CMD24`. -/
theorem writeABlock_logAll (fuel : Nat) (block : U32) (buffer : Nat) (rca : BitVec 16)
    (h : A (cmd24, commandAddress highCapacity block)) :
    Keeps (LogAll A) (writeABlock (sdcc highCapacity) fuel highCapacity block buffer rca) := by
  have hpush : ∀ (w : U32) (m : Machine Sdcc), LogAll A m →
      LogAll A { m with dev := m.dev.push w } := by
    intro w m hm
    unfold Sdcc.push
    split
    · exact hm
    · exact hm
  -- the loop over the words of the block only polls and pushes
  have hloop : ∀ c, Keeps (LogAll A) (writeLoop (sdcc highCapacity) fuel c) :=
    ((LogAll.pollFree A).polled []).writeLoop (fun _ _ hm => hm) hpush fuel
  refine Keeps.bind (ioWrite32_keeps rfl _) fun _ => ?_
  refine Keeps.bind (ioWrite32_keeps rfl _) fun _ => ?_
  refine Keeps.bind (sdccSendCmd_keeps (LogAll.pollFree A) (fun m hm => ?_) fuel) fun r => ?_
  · rw [issue_write]
    exact List.forall_mem_cons.mpr ⟨h, hm⟩
  · split
    · exact Keeps.pure _
    · refine Keeps.bind (ioWrite32_keeps rfl _) fun _ => ?_
      refine Keeps.bind (hloop _) fun ok => ?_
      split
      · exact Keeps.pure _
      · refine Keeps.bind (checkClearStatus_keeps (LogAll.pollFree A) fuel _ _) fun clear => ?_
        split
        · exact Keeps.pure _
        · exact writeEnd_keeps (LogAll.pollFree A) (fun _ _ h => h) fuel rca

end Issued

/-! ### Reading a block -/

theorem blockWords_drop (content : Memory) (a : Nat) {j : Nat} (hj : j < 128) :
    (blockWords content a).drop j
      = Memory.load32 content (a + 4 * j) :: (blockWords content a).drop (j + 1) := by
  have hlen : j < (blockWords content a).length := by simpa [blockWords] using hj
  rw [List.drop_eq_getElem_cons hlen]
  simp [blockWords]

section Read

variable (content mem : Memory) (log : List (BitVec 16 × U32)) (a buffer : Nat)

/-- `j` words of the block at `a` have been read. -/
structure ReadInv (c : Cursor) (m : Machine Sdcc) (j : Nat) : Prop where
  le : j ≤ 128
  cursor : c = ⟨buffer + 4 * j, 4 * j⟩
  rx : m.dev.rx = (blockWords content a).drop j
  card : m.dev.content = content
  issued : m.dev.log = log
  copied : m.mem = Memory.blit buffer (4 * j) (fun i => content (a + i)) mem

/-- The block at `a` has been read. -/
def BlockRead (m : Machine Sdcc) : Prop :=
  m.dev.content = content ∧ m.dev.log = log ∧
    m.mem = Memory.blit buffer 512 (fun i => content (a + i)) mem

theorem ReadInv.pollFree (c : Cursor) :
    PollFree fun m => ∃ j, ReadInv content mem log a buffer c m j := by
  intro m n hex
  obtain ⟨j, h⟩ := hex
  exact ⟨j, h.le, h.cursor, h.rx, h.card, h.issued, h.copied⟩

variable {content mem log a buffer}

/-- A word taken from the FIFO and stored is one more word read. -/
theorem ReadInv.next {c : Cursor} {m : Machine Sdcc} {j : Nat}
    (h : ReadInv content mem log a buffer c m j) (hlt : c.byteCount < 512) :
    ReadInv content mem log a buffer c.next
      { dev := { m.dev with rx := m.dev.rx.tail }
        mem := Memory.store32 c.buffer (m.dev.rx.headD 0#32) m.mem } (j + 1) := by
  have hc : c.byteCount = 4 * j := by rw [h.cursor]
  have hj : j < 128 := by omega
  have hrx := h.rx
  rw [blockWords_drop content a hj] at hrx
  refine ⟨hj, ?_, ?_, h.card, h.issued, ?_⟩
  · rw [h.cursor]
    rfl
  · show m.dev.rx.tail = _
    rw [hrx]
    rfl
  · -- the word stored moves the four bytes it was loaded from
    show Memory.store32 c.buffer (m.dev.rx.headD 0#32) m.mem = _
    rw [hrx, h.cursor, h.copied, List.headD_cons, Memory.store32_load32]
    rw [show 4 * (j + 1) = 4 * j + 4 by omega,
      ← Memory.blit_append buffer (4 * j) 4 (fun i => content (a + i))]
    congr 1
    funext i
    rw [Nat.add_assoc]

theorem readLoop_ensures (highCapacity : Bool) (fuel : Nat) (c : Cursor) :
    Ensures (fun m => ∃ j, ReadInv content mem log a buffer c m j)
      (readLoop (sdcc highCapacity) fuel c)
      (fun ok m => ok = true → BlockRead content mem log a buffer m) := by
  refine Ensures.loop (fun c m => ∃ j, ReadInv content mem log a buffer c m j) (fun c => ?_) fuel c
  split
  · rename_i hlt
    have hfree := ReadInv.pollFree content mem log a buffer c
    refine Ensures.bind (ioRead32_status_keeps hfree).ensures fun status => ?_
    split
    · -- a word is there: read it and store it
      intro m r m' ⟨j, hj⟩ heq
      obtain ⟨rfl, rfl⟩ := Prod.mk.inj heq |>.imp_left Option.some.inj
      exact ⟨j + 1, hj.next hlt⟩
    · split
      · exact Ensures.pure fun _ h => h
      · exact Ensures.pure fun _ _ h => absurd h (by decide)
  · -- the count has reached the block size: all words have been read
    rename_i hge
    refine Ensures.pure ?_
    intro m hex _
    obtain ⟨j, hj⟩ := hex
    have hc : c.byteCount = 4 * j := by rw [hj.cursor]
    have hle := hj.le
    have hge' : ¬ c.byteCount < 512 := hge
    obtain rfl : j = 128 := by omega
    exact ⟨hj.card, hj.issued, hj.copied⟩

/-- **`read_a_block`.**  If it succeeds, it has issued `CMD17` with the argument of the block,
    and copied the 512 bytes there to the buffer. -/
theorem readABlock_spec (highCapacity : Bool) (fuel : Nat) (block : U32) (content mem : Memory)
    (log : List (BitVec 16 × U32)) (buffer : Nat) :
    Ensures (fun m => m.dev.content = content ∧ m.dev.log = log ∧ m.mem = mem)
      (readABlock (sdcc highCapacity) fuel highCapacity block buffer)
      (fun ok m => ok = true →
        BlockRead content mem ((cmd17, commandAddress highCapacity block) :: log)
          (byteAddress highCapacity (commandAddress highCapacity block)) buffer m) := by
  let arg := commandAddress highCapacity block
  let a := byteAddress highCapacity arg
  have hfree : PollFree (BlockRead content mem ((cmd17, arg) :: log) a buffer) := fun _ _ h => h
  refine readABlock_ensures (fun r hr v => (ioWrite32_keeps ?_ v).ensures)
    (sdccSendCmd_ensures (ReadInv.pollFree content mem ((cmd17, arg) :: log) a buffer ⟨buffer, 0⟩)
      ?_ fuel)
    (readLoop_ensures highCapacity fuel _) ?_ (fun _ _ h => absurd h (by decide))
  · revert r
    decide
  · -- the command presents the block in the FIFO
    intro m hboth
    obtain ⟨rfl, rfl, rfl⟩ := hboth
    rw [issue_read]
    exact ⟨0, Nat.zero_le _, rfl, rfl, rfl, rfl, by rw [Nat.mul_zero, Memory.blit_zero]⟩
  · exact (checkClearStatus_keeps hfree fuel _ _).ensures.mono (fun _ h => h rfl)
      (fun _ _ h _ => h)

end Read

/-! ### Writing a block -/

/-- Storing the words of a block moves its bytes. -/
theorem storeWords_take (src : Memory) (a b : Nat) (m : Memory) {j : Nat} (hj : j ≤ 128) :
    Memory.storeWords a ((blockWords src b).take j) m
      = Memory.blit a (4 * j) (fun i => src (b + i)) m := by
  induction j with
  | zero => simp [Memory.storeWords]
  | succ j ih =>
    have hlt : j < (blockWords src b).length := by
      rw [blockWords, List.length_map, List.length_range]
      omega
    have hword : (blockWords src b)[j] = Memory.load32 src (b + 4 * j) := by simp [blockWords]
    have hlen : ((blockWords src b).take j).length = j := by
      rw [List.length_take]
      omega
    rw [List.take_add_one, List.getElem?_eq_getElem hlt, Option.toList_some,
      Memory.storeWords_concat, ih (by omega), hlen, hword, Memory.store32_load32, show 4 * (j + 1) = 4 * j + 4 by omega,
      ← Memory.blit_append a (4 * j) 4 (fun i => src (b + i))]
    congr 1
    funext i
    rw [Nat.add_assoc]

section Write

variable (content mem : Memory) (log : List (BitVec 16 × U32)) (a buffer : Nat)

/-- `j` words of the block for `a` have been written to the FIFO. -/
structure WriteInv (c : Cursor) (m : Machine Sdcc) (j : Nat) : Prop where
  le : j ≤ 128
  cursor : c = ⟨buffer + 4 * j, 4 * j⟩
  target : m.dev.target = a
  tx : j < 128 → m.dev.tx = (blockWords mem buffer).take j ∧ m.dev.content = content
  stored : j = 128 →
    m.dev.content = Memory.blit a 512 (fun i => mem (buffer + i)) content
  issued : m.dev.log = log
  unchanged : m.mem = mem

/-- The block at `a` has been written. -/
def BlockWritten (m : Machine Sdcc) : Prop :=
  m.dev.content = Memory.blit a 512 (fun i => mem (buffer + i)) content ∧
    m.dev.log = log ∧ m.mem = mem

theorem WriteInv.pollFree (c : Cursor) :
    PollFree fun m => ∃ j, WriteInv content mem log a buffer c m j := by
  intro m n hex
  obtain ⟨j, h⟩ := hex
  exact ⟨j, h.le, h.cursor, h.target, h.tx, h.stored, h.issued, h.unchanged⟩

variable {content mem log a buffer}

/-- A word of the buffer pushed into the FIFO is one more word written. -/
theorem WriteInv.next {c : Cursor} {m : Machine Sdcc} {j : Nat}
    (h : WriteInv content mem log a buffer c m j) (hlt : c.byteCount < 512) :
    WriteInv content mem log a buffer c.next
      { m with dev := m.dev.push (Memory.load32 m.mem c.buffer) } (j + 1) := by
  have hc : c.byteCount = 4 * j := by rw [h.cursor]
  have hj : j < 128 := by omega
  obtain ⟨htx, hcontent⟩ := h.tx hj
  have hlen : j < (blockWords mem buffer).length := by simpa [blockWords] using hj
  have hword : Memory.load32 m.mem c.buffer = (blockWords mem buffer)[j] := by
    rw [h.cursor, h.unchanged]
    simp [blockWords]
  have htake : m.dev.tx ++ [Memory.load32 m.mem c.buffer]
      = (blockWords mem buffer).take (j + 1) := by
    rw [htx, hword, List.take_add_one, List.getElem?_eq_getElem hlen, Option.toList_some]
  have hlength : m.dev.tx.length = j := by
    rw [htx, List.length_take]
    omega
  have hcursor : c.next = ⟨buffer + 4 * (j + 1), 4 * (j + 1)⟩ := by
    rw [h.cursor]
    rfl
  unfold Sdcc.push
  rw [htake, hlength]
  by_cases hlast : j + 1 = 128
  · -- the last word: the card stores the block
    rw [if_pos hlast]
    refine ⟨hj, hcursor, h.target, fun hlt => by omega, fun _ => ?_, h.issued, h.unchanged⟩
    show Memory.storeWords m.dev.target ((blockWords mem buffer).take (j + 1)) m.dev.content = _
    rw [h.target, hcontent, hlast]
    exact storeWords_take mem a buffer content (Nat.le_refl 128)
  · rw [if_neg hlast]
    exact ⟨hj, hcursor, h.target, fun _ => ⟨rfl, hcontent⟩, fun heq => absurd heq hlast,
      h.issued, h.unchanged⟩

theorem pushWord_ensures (highCapacity : Bool) (status : U32) {c : Cursor}
    (hlt : c.byteCount < 512) :
    Ensures (fun m => ∃ j, WriteInv content mem log a buffer c m j)
      (pushWord (sdcc highCapacity) status c)
      (fun c' m => ∃ j, WriteInv content mem log a buffer c' m j) := by
  unfold pushWord
  split
  · exact Ensures.pure fun _ h => h
  · intro m r m' ⟨j, hj⟩ heq
    obtain ⟨rfl, rfl⟩ := Prod.mk.inj heq |>.imp_left Option.some.inj
    exact ⟨j + 1, hj.next hlt⟩

theorem writeLoop_ensures (highCapacity : Bool) (fuel : Nat) (c : Cursor) :
    Ensures (fun m => ∃ j, WriteInv content mem log a buffer c m j)
      (writeLoop (sdcc highCapacity) fuel c)
      (fun ok m => ok = true → BlockWritten content mem log a buffer m) := by
  refine Ensures.loop (fun c m => ∃ j, WriteInv content mem log a buffer c m j) (fun c => ?_) fuel c
  split
  · rename_i hlt
    have hfree := WriteInv.pollFree content mem log a buffer c
    refine Ensures.bind (ioRead32_status_keeps hfree).ensures fun status => ?_
    refine Ensures.bind (pushWord_ensures highCapacity status hlt) fun c' => ?_
    split
    · exact Ensures.pure fun _ _ h => absurd h (by decide)
    · exact Ensures.pure fun _ h => h
  · -- the count has reached the block size: the last word has made the card store the block
    rename_i hge
    refine Ensures.pure ?_
    intro m hex _
    obtain ⟨j, hj⟩ := hex
    have hc : c.byteCount = 4 * j := by rw [hj.cursor]
    have hle := hj.le
    have hge' : ¬ c.byteCount < 512 := hge
    obtain rfl : j = 128 := by omega
    exact ⟨hj.stored rfl, hj.issued, hj.unchanged⟩

/-- **`write_a_block`.**  If it succeeds, it has issued `CMD24` with the argument of the block,
    and replaced the 512 bytes there by those of the buffer. -/
theorem writeABlock_spec (highCapacity : Bool) (fuel : Nat) (block : U32) (rca : BitVec 16)
    (content mem : Memory) (log : List (BitVec 16 × U32)) (buffer : Nat) :
    Ensures (fun m => m.dev.content = content ∧ m.dev.log = log ∧ m.mem = mem)
      (writeABlock (sdcc highCapacity) fuel highCapacity block buffer rca)
      (fun ok m => ok = true →
        BlockWritten content mem ((cmd24, commandAddress highCapacity block) :: log)
          (byteAddress highCapacity (commandAddress highCapacity block)) buffer m) := by
  let arg := commandAddress highCapacity block
  let a := byteAddress highCapacity arg
  have hfree : PollFree (BlockWritten content mem ((cmd24, arg) :: log) a buffer) :=
    fun m n h => h
  refine writeABlock_ensures
    (C := fun _ => BlockWritten content mem ((cmd24, arg) :: log) a buffer)
    (fun r hr v => (ioWrite32_keeps ?_ v).ensures)
    (sdccSendCmd_ensures (WriteInv.pollFree content mem ((cmd24, arg) :: log) a buffer ⟨buffer, 0⟩)
      ?_ fuel)
    (fun v => (ioWrite32_keeps rfl v).ensures) (writeLoop_ensures highCapacity fuel _) ?_ ?_
    (fun _ _ h => absurd h (by decide))
  · revert r
    decide
  · -- the command sets where the block goes
    intro m hboth
    obtain ⟨rfl, rfl, rfl⟩ := hboth
    rw [issue_write]
    exact ⟨0, Nat.zero_le _, rfl, rfl, fun _ => ⟨rfl, rfl⟩, fun h => absurd h (by decide), rfl, rfl⟩
  -- nothing after the loop touches the card or the memory
  · exact (checkClearStatus_keeps hfree fuel _ _).ensures.mono (fun _ h => h rfl) (fun _ _ h => h)
  · exact (writeEnd_keeps hfree (fun _ _ h => h) fuel rca).ensures.mono (fun _ h => h)
      (fun _ _ h _ => h)

end Write

end HtcLeo.SdCard

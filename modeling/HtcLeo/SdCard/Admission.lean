import HtcLeo.SdCard.Requests

namespace HtcLeo.SdCard

open Prog

/-!
# SdCardDxe — which blocks BlockIo touches

Neither BlockIo entry point compares a request with the size of the card.  This file says for
which requests the commands that reach the card are nevertheless all for blocks of the request
and the request is for blocks of the card, whatever the polls show and the transfers come to.

* `Admissible` — a data command transfers bytes of the requested blocks only, and all of these
  exist.
* `read_issues` — a read in which every transfer succeeds issues one command for each block.
* `admission_iff` — the exact condition on the request.
-/

/-- The 512 bytes a data command transfers lie in the requested blocks, and the requested
    blocks on the card. -/
def Admissible (q : CardRequest) (e : BitVec 16 × U32) : Prop :=
  q.firstByte ≤ byteAddress q.card.highCapacity e.2 ∧
    byteAddress q.card.highCapacity e.2 + 512 ≤ q.firstByte + q.bufferSize.toNat ∧
    q.lba.toNat + q.blocks ≤ q.card.blockCount

/-- Every data command a read or a write of the request issues is admissible, whatever the
    polls show, and also while it waits for them. -/
def IssuesAdmissible (q : CardRequest) : Prop :=
  ∀ (u : Setup) (m : Machine Sdcc), m.dev.log = [] →
    LogAll (Admissible q) (q.read (q.transfers u) (m, [])).2.1 ∧
    LogAll (Admissible q) (q.write (q.transfers u) (m, [])).2.1

/-- The byte address of the command for block `j` of a request. -/
def CardRequest.blockByte (q : CardRequest) (j : Nat) : Nat :=
  byteAddress q.card.highCapacity
    (commandAddress q.card.highCapacity (q.lba.setWidth 32 + BitVec.ofNat 32 j))

/-! ### The commands that are issued -/

/-- Commands for the blocks of the request are all that is issued. -/
theorem issuesAdmissible_of {q : CardRequest}
    (h : ∀ j, j < q.blocks → ∀ cmd, Admissible q
      (cmd, commandAddress q.card.highCapacity (q.lba.setWidth 32 + BitVec.ofNat 32 j))) :
    IssuesAdmissible q := by
  intro u m hlog
  have hstart : LogAll (Admissible q) m := by
    intro e he
    rw [hlog] at he
    exact absurd he List.not_mem_nil
  constructor
  · rw [CardRequest.transfers, q.read_eq]
    have hloop : Keeps (fun p : Machine Sdcc × List Bool => LogAll (Admissible q) p.1)
        (transferAll (fun b d => record
          ((cardTransfers q.card.highCapacity u.fuel u.rca u.dm).readABlock b d)) q.blocks
          (q.lba.setWidth 32) q.buffer 0#32) :=
      transferAll_keeps _ _ _ _ fun j hj d =>
        record_keeps (readABlock_logAll u.fuel _ d (h j hj cmd17))
    exact Keeps.bind hloop (fun _ => Keeps.pure _) (m, []) hstart
  · rw [CardRequest.transfers, q.write_eq]
    have hloop : Keeps (fun p : Machine Sdcc × List Bool => LogAll (Admissible q) p.1)
        (transferAll (fun b d => record
          ((cardTransfers q.card.highCapacity u.fuel u.rca u.dm).writeABlock b d)) q.blocks
          (q.lba.setWidth 32) q.buffer 0#32) :=
      transferAll_keeps _ _ _ _ fun j hj d =>
        record_keeps (writeABlock_logAll u.fuel _ d u.rca (h j hj cmd24))
    exact Keeps.bind hloop (fun _ => Keeps.pure _) (m, []) hstart

/-- A read in which every transfer succeeds has issued a command for each block. -/
theorem read_issues (q : CardRequest) (u : Setup) (m : Machine Sdcc) :
    Ensures (· = (m, [])) (q.read (q.transfers u))
      (fun _ p => AllSucceeded p.2 → ∀ j, j < q.blocks →
        (cmd17, commandAddress q.card.highCapacity (q.lba.setWidth 32 + BitVec.ofNat 32 j))
          ∈ p.1.dev.log) := by
  let Block (n : Nat) (s : Machine Sdcc) : Prop := ∀ j, j < n →
    (cmd17, commandAddress q.card.highCapacity (q.lba.setWidth 32 + BitVec.ofNat 32 j))
      ∈ s.dev.log
  have hstep : ∀ j, j < q.blocks → Ensures (Block j)
      ((cardTransfers q.card.highCapacity u.fuel u.rca u.dm).readABlock
        (q.lba.setWidth 32 + BitVec.ofNat 32 j) (q.buffer + blockSize * j))
      (fun ok s => ok = true → Block (j + 1) s) := by
    intro j _ s ok s' hs heq hok i hi
    obtain ⟨_, hlog, _⟩ :=
      readABlock_spec _ _ _ s.dev.content s.mem s.dev.log _ s ok s' ⟨rfl, rfl, rfl⟩ heq hok
    rw [hlog]
    rcases Nat.lt_succ_iff_lt_or_eq.mp hi with hlt | rfl
    · exact List.mem_cons_of_mem _ (hs i hlt)
    · exact List.mem_cons_self
  rw [CardRequest.transfers, q.read_eq]
  refine Ensures.bind ((transferAll_recorded Block q.blocks (q.lba.setWidth 32) q.buffer 0#32
    hstep).mono ?_ fun _ _ h => h) fun ret => ?_
  · intro p _ _ j hj
    exact absurd hj (Nat.not_lt_zero j)
  · exact Ensures.pure fun p hp hall => (hp hall).1

/-- There is a run that issues a command for each block. -/
theorem exists_run_issuing (q : CardRequest) :
    ∃ (u : Setup) (m : Machine Sdcc), m.dev.log = [] ∧ ∀ j, j < q.blocks →
      (cmd17, commandAddress q.card.highCapacity (q.lba.setWidth 32 + BitVec.ofNat 32 j))
        ∈ (q.read (q.transfers u) (m, [])).2.1.dev.log := by
  let u : Setup := ⟨129, 0, fun _ _ _ => pure true⟩
  let m : Machine Sdcc :=
    ⟨⟨promptStatus, 0, fun _ => 0, 0, [], [], 0, fun _ => 0#8, []⟩, fun _ => 0#8⟩
  obtain ⟨status, p, hrun, _, hall⟩ := read_completes q u (by decide) (m, [])
    ⟨rfl, fun ok h => absurd h List.not_mem_nil⟩
  refine ⟨u, m, rfl, fun j hj => ?_⟩
  rw [hrun]
  exact read_issues q u m _ status p rfl hrun hall j hj

/-! ### Addresses -/

/-- Up to where block numbers and byte addresses fit in 32 bits, the command for block `j` is
    for the 512 bytes from `(Lba + j) * 512` on. -/
theorem blockByte_eq (q : CardRequest) {j : Nat} (hfit : q.lba.toNat + j < 2 ^ 32)
    (hstandard : q.card.highCapacity = false → q.lba.toNat + j < 2 ^ 21) :
    q.blockByte j = (q.lba.toNat + j) * 512 := by
  have hblock : (q.lba.setWidth 32 + BitVec.ofNat 32 j).toNat = q.lba.toNat + j := by
    rw [BitVec.toNat_add, BitVec.toNat_setWidth, BitVec.toNat_ofNat]
    omega
  unfold CardRequest.blockByte
  cases hkind : q.card.highCapacity with
  | true =>
    show (q.lba.setWidth 32 + BitVec.ofNat 32 j).toNat * 512 = _
    rw [hblock]
  | false =>
    have hlt := hstandard hkind
    show ((q.lba.setWidth 32 + BitVec.ofNat 32 j) * 512#32).toNat = _
    rw [BitVec.toNat_mul, hblock, BitVec.toNat_ofNat]
    omega

/-- On a card with blocks of 512 bytes or more, no address of an existing block wraps. -/
theorem blockByte_of_existing (q : CardRequest) (hlen : 9 ≤ q.card.readBlLen)
    (hcount : q.lba.toNat + q.blocks ≤ q.card.blockCount) {j : Nat} (hj : j < q.blocks) :
    q.blockByte j = (q.lba.toNat + j) * 512 := by
  refine blockByte_eq q ?_ fun hkind => ?_
  · cases hkind : q.card.highCapacity with
    | true =>
      have := q.card.blockCount_high_le hkind hlen
      omega
    | false =>
      have := q.card.blockCount_standard_le hkind
      omega
  · have := q.card.blockCount_standard_le hkind
    omega

/-- The range of a request for existing blocks of a high-capacity card, in units of 512 bytes
    from the cast `Lba` on, is not in the requested range if the blocks are smaller. -/
theorem not_admissible_of_cast (lba : Nat) {blocks size : Nat} (hsize : size < 512)
    (hpos : 0 < blocks) (hblocks : blocks < 2 ^ 32)
    (hfrom : ∀ j, j < blocks → lba * size ≤ (lba + j) % 2 ^ 32 * 512)
    (hto : ∀ j, j < blocks →
      (lba + j) % 2 ^ 32 * 512 + 512 ≤ lba * size + blocks * size) (hsize0 : 0 < size) :
    False := by
  by_cases hwrap : lba % 2 ^ 32 + blocks ≤ 2 ^ 32
  · -- the blocks lie in a row, and are too long together
    have h0 := hfrom 0 hpos
    have hn := hto (blocks - 1) (by omega)
    rw [show (lba + 0) % 2 ^ 32 = lba % 2 ^ 32 by omega] at h0
    rw [show (lba + (blocks - 1)) % 2 ^ 32 = lba % 2 ^ 32 + (blocks - 1) by omega] at hn
    have hlen : blocks * size ≤ blocks * 511 := Nat.mul_le_mul_left _ (by omega)
    omega
  · -- one of the blocks is block 0 of the card, so the request begins there
    have h0 := hfrom (2 ^ 32 - lba % 2 ^ 32) (by omega)
    rw [show (lba + (2 ^ 32 - lba % 2 ^ 32)) % 2 ^ 32 = 0 by omega] at h0
    have hlba : lba * size = 0 := by omega
    rcases Nat.mul_eq_zero.mp hlba with rfl | rfl
    · omega
    · omega

/-- On a card with smaller blocks, not all commands of a request are admissible. -/
theorem not_admissible_of_small (q : CardRequest) (hlen : q.card.readBlLen < 9)
    (hcount : q.lba.toNat + q.blocks ≤ q.card.blockCount)
    (hfrom : ∀ j, j < q.blocks → q.firstByte ≤ q.blockByte j)
    (hto : ∀ j, j < q.blocks → q.blockByte j + 512 ≤ q.firstByte + q.bufferSize.toNat) :
    False := by
  have hpos := q.nonempty
  have hblocks := q.blocks_lt
  have hsize : q.media.blockSize.toNat < 512 := by
    rw [q.blockSize_toNat]
    exact Nat.pow_lt_pow_right (by decide) hlen
  have hcast : ∀ j, j < q.blocks → q.blockByte j = (q.lba.toNat + j) % 2 ^ 32 * 512 := by
    intro j hj
    cases hkind : q.card.highCapacity with
    | true =>
      unfold CardRequest.blockByte
      rw [hkind]
      show (q.lba.setWidth 32 + BitVec.ofNat 32 j).toNat * 512 = _
      rw [BitVec.toNat_add, BitVec.toNat_setWidth, BitVec.toNat_ofNat]
      omega
    | false =>
      have hle := q.card.blockCount_standard_le hkind
      rw [blockByte_eq q (by omega) (fun _ => by omega)]
      omega
  simp only [CardRequest.firstByte, q.bufferSize_eq] at hfrom hto
  apply not_admissible_of_cast q.lba.toNat hsize hpos hblocks
  · intro j hj
    rw [← hcast j hj]
    exact hfrom j hj
  · intro j hj
    rw [← hcast j hj]
    exact hto j hj
  · exact q.blockSize_pos

/-! ### The exact condition -/

/-- On a card with larger blocks, the commands for a request that does not begin at block 0 are
    for bytes before it. -/
theorem lba_eq_zero_of_large (q : CardRequest) (hlen : 9 < q.card.readBlLen)
    (hcount : q.lba.toNat + q.blocks ≤ q.card.blockCount)
    (hfrom : q.firstByte ≤ q.blockByte 0) : q.lba = 0 := by
  have hsize : 2 ^ 10 ≤ q.media.blockSize.toNat := by
    rw [q.blockSize_toNat]
    exact Nat.pow_le_pow_right (by decide) hlen
  have hle : q.lba.toNat * 2 ^ 10 ≤ q.firstByte := Nat.mul_le_mul_left _ hsize
  rw [blockByte_of_existing q (Nat.le_of_lt hlen) hcount q.nonempty] at hfrom
  apply BitVec.eq_of_toNat_eq
  show q.lba.toNat = 0
  omega

/-- The commands for existing blocks of 512 bytes, or for the first blocks of a card with larger
    ones, are admissible. -/
theorem admissible_of_fits (q : CardRequest)
    (hcount : q.lba.toNat + q.blocks ≤ q.card.blockCount)
    (hlen : q.card.readBlLen = 9 ∨ 9 < q.card.readBlLen ∧ q.lba = 0) {j : Nat}
    (hj : j < q.blocks) (cmd : BitVec 16) :
    Admissible q (cmd, commandAddress q.card.highCapacity
      (q.lba.setWidth 32 + BitVec.ofNat 32 j)) := by
  have hbyte : q.blockByte j = (q.lba.toNat + j) * 512 :=
    blockByte_of_existing q (by omega) hcount hj
  suffices h : q.firstByte ≤ (q.lba.toNat + j) * 512 ∧
      (q.lba.toNat + j) * 512 + 512 ≤ q.firstByte + q.bufferSize.toNat by
    rw [← hbyte] at h
    exact ⟨h.1, h.2, hcount⟩
  rw [CardRequest.firstByte, q.bufferSize_eq, q.blockSize_toNat]
  rcases hlen with h9 | ⟨hlarge, hzero⟩
  · rw [h9]
    omega
  · -- from block 0 on, the shorter blocks stay within the longer ones
    have hsize : 512 * q.blocks ≤ q.blocks * 2 ^ q.card.readBlLen := by
      have hpow : 2 ^ 9 ≤ 2 ^ q.card.readBlLen := Nat.pow_le_pow_right (by decide) hlarge.le
      rw [Nat.mul_comm]
      exact Nat.mul_le_mul_left _ hpow
    have hlba : q.lba.toNat = 0 := by
      rw [hzero]
      rfl
    rw [hlba]
    omega

/-- If all commands of a request are admissible, those for its blocks are. -/
theorem IssuesAdmissible.block {q : CardRequest} (h : IssuesAdmissible q) {j : Nat}
    (hj : j < q.blocks) :
    q.firstByte ≤ q.blockByte j ∧ q.blockByte j + 512 ≤ q.firstByte + q.bufferSize.toNat ∧
      q.lba.toNat + q.blocks ≤ q.card.blockCount := by
  obtain ⟨u, m, hlog, hissued⟩ := exists_run_issuing q
  have hadm : Admissible q (cmd17, commandAddress q.card.highCapacity
      (q.lba.setWidth 32 + BitVec.ofNat 32 j)) := (h u m hlog).1 _ (hissued j hj)
  exact hadm

/-- **Admission.**  The commands of a request are all admissible exactly if its blocks exist and
    the card has blocks of 512 bytes, or larger ones and the request begins at block 0; and
    `LastBlock` never is the index of the last block. -/
theorem admission_iff (q : CardRequest) :
    (IssuesAdmissible q ↔ q.lba.toNat + q.blocks ≤ q.card.blockCount ∧
      (q.card.readBlLen = 9 ∨ 9 < q.card.readBlLen ∧ q.lba = 0)) ∧
    q.card.media.lastBlock.toNat + 1 ≠ q.card.blockCount := by
  refine ⟨⟨fun h => ?_, fun h => ?_⟩, q.card.lastBlock_succ_ne⟩
  · obtain ⟨hfrom, _, hcount⟩ := h.block q.nonempty
    refine ⟨hcount, ?_⟩
    rcases lt_trichotomy q.card.readBlLen 9 with hsmall | h9 | hlarge
    · -- the blocks transferred are longer than the ones requested
      exact absurd (not_admissible_of_small q hsmall hcount
        (fun j hj => (h.block hj).1) (fun j hj => (h.block hj).2.1)) id
    · exact Or.inl h9
    · exact Or.inr ⟨hlarge, lba_eq_zero_of_large q hlarge hcount hfrom⟩
  · exact issuesAdmissible_of fun j hj cmd => admissible_of_fits q h.1 h.2 hj cmd

/-- A high-capacity card of 4 GB: structure version 2 and `C_SIZE = 8191`. -/
def card4GB : Card where
  csd := ![0x40000000, 0x90000, 0x1FFF0000, 0]
  ocr := 0xC0FF8000
  cmd8 := true
  accepted := by decide
  kind := by decide

/-- A request for one block at `2 ^ 32`, far past the end of the card. -/
def blockPast32Bits : CardRequest where
  media := card4GB.media
  lba := 0x100000000
  bufferSize := 512
  buffer := 0x1000
  positive := by decide
  multiple := by decide
  card := card4GB
  published := rfl
  nonempty := by decide

/-- It issues commands, and they are for block 0. -/
theorem blockPast32Bits_not_admissible : ¬ IssuesAdmissible blockPast32Bits := by
  intro h
  have hcount := (h.block blockPast32Bits.nonempty).2.2
  exact absurd hcount (by decide)

end HtcLeo.SdCard

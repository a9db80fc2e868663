import HtcLeo.SdCard.Requests

namespace HtcLeo.SdCard

open Prog

/-!
# SdCardDxe — the bytes BlockIo transfers

Requests within the blocks of a card, on a controller with that card, whatever its polls show,
in runs in which every single-block transfer succeeds.

* `read_effect`, `write_effect` — what such a run does: it moves 512 bytes for each block,
  beginning at byte `Lba * 512` of the card.
* `RightRead`, `RightWrite` — what it should do: move the bytes of the requested blocks of
  `Media.BlockSize` bytes.
* `rightBytes_iff` — the two are the same exactly on cards with `READ_BL_LEN = 9`.
-/

/-- A request for blocks up to `LastBlock`. -/
structure RangedRequest extends CardRequest where
  inRange : lba.toNat + toRequest.blocks - 1 ≤ card.media.lastBlock.toNat

namespace RangedRequest

variable (q : RangedRequest)

/-- The requested block `j` is not past `LastBlock`. -/
theorem lba_add_le {j : Nat} (hj : j < q.blocks) :
    q.lba.toNat + j ≤ q.card.media.lastBlock.toNat := by
  have h := q.inRange
  omega

/-- The number of the requested block `j` in 32 bits. -/
theorem block_toNat {j : Nat} (hj : j < q.blocks) :
    (q.lba.setWidth 32 + BitVec.ofNat 32 j).toNat = q.lba.toNat + j := by
  have hle := q.lba_add_le hj
  have hlast := q.card.media_lastBlock_le.1
  rw [BitVec.toNat_add, BitVec.toNat_setWidth, BitVec.toNat_ofNat]
  omega

/-- The command for the requested block `j` addresses the 512 bytes from `(Lba + j) * 512` on:
    neither the cast of `Lba` nor the multiplication wraps. -/
theorem byteAddress_eq {j : Nat} (hj : j < q.blocks) :
    byteAddress q.card.highCapacity
        (commandAddress q.card.highCapacity (q.lba.setWidth 32 + BitVec.ofNat 32 j))
      = q.lba.toNat * 512 + 512 * j := by
  have hblock := q.block_toNat hj
  have hle := q.lba_add_le hj
  cases hkind : q.card.highCapacity with
  | true =>
    -- the argument is the block number
    show (q.lba.setWidth 32 + BitVec.ofNat 32 j).toNat * 512 = _
    rw [hblock]
    omega
  | false =>
    -- the argument is the byte address, below `2 ^ 30`
    have hlast := q.card.media_lastBlock_le.2 hkind
    show ((q.lba.setWidth 32 + BitVec.ofNat 32 j) * 512#32).toNat = _
    rw [BitVec.toNat_mul, hblock, BitVec.toNat_ofNat]
    omega

end RangedRequest

/-! ### What the code does -/

/-- **Read.**  When every transfer succeeds, `MMCHSReadBlocks` succeeds and has copied 512
    bytes for each block, from byte `Lba * 512` of the card on. -/
theorem read_effect (q : RangedRequest) (u : Setup) (m : Machine Sdcc) :
    Ensures (· = (m, [])) (q.read (q.transfers u))
      (fun status p => AllSucceeded p.2 → status = .success ∧ p.1.dev.content = m.dev.content ∧
        p.1.mem = Memory.blit q.buffer (512 * q.blocks)
          (fun i => m.dev.content (q.lba.toNat * 512 + i)) m.mem) := by
  let Block (j : Nat) (s : Machine Sdcc) : Prop := s.dev.content = m.dev.content ∧
    s.mem = Memory.blit q.buffer (512 * j) (fun i => m.dev.content (q.lba.toNat * 512 + i)) m.mem
  have hstep : ∀ j, j < q.blocks → Ensures (Block j)
      ((cardTransfers q.card.highCapacity u.fuel u.rca u.dm).readABlock
        (q.lba.setWidth 32 + BitVec.ofNat 32 j) (q.buffer + blockSize * j))
      (fun ok s => ok = true → Block (j + 1) s) := by
    rintro j hj s ok s' ⟨hcontent, hmem⟩ heq hok
    obtain ⟨hc, _, hm⟩ :=
      readABlock_spec _ _ _ s.dev.content s.mem s.dev.log _ s ok s' ⟨rfl, rfl, rfl⟩ heq hok
    refine ⟨hc.trans hcontent, ?_⟩
    rw [hm, q.byteAddress_eq hj, hmem, hcontent,
      show 512 * (j + 1) = 512 * j + 512 by omega, ← Memory.blit_append]
    simp only [Nat.add_assoc]
  have hrun := transferAll_recorded Block q.blocks (q.lba.setWidth 32) q.buffer 0#32 hstep
  rw [CardRequest.transfers, q.read_eq]
  refine Ensures.bind (hrun.mono ?_ fun _ _ h => h) fun ret => ?_
  · rintro p rfl _
    exact ⟨rfl, by rw [Nat.mul_zero, Memory.blit_zero]⟩
  · refine Ensures.pure fun p hp hall => ?_
    obtain ⟨⟨hcontent, hmem⟩, rfl⟩ := hp hall
    exact ⟨q.status_of_all, hcontent, hmem⟩

/-- **Write.**  When every transfer succeeds, `MMCHSWriteBlocks` succeeds and has replaced 512
    bytes for each block, from byte `Lba * 512` of the card on. -/
theorem write_effect (q : RangedRequest) (u : Setup) (m : Machine Sdcc) :
    Ensures (· = (m, [])) (q.write (q.transfers u))
      (fun status p => AllSucceeded p.2 → status = .success ∧ p.1.mem = m.mem ∧
        p.1.dev.content = Memory.blit (q.lba.toNat * 512) (512 * q.blocks)
          (fun i => m.mem (q.buffer + i)) m.dev.content) := by
  let Block (j : Nat) (s : Machine Sdcc) : Prop := s.mem = m.mem ∧
    s.dev.content = Memory.blit (q.lba.toNat * 512) (512 * j) (fun i => m.mem (q.buffer + i))
      m.dev.content
  have hstep : ∀ j, j < q.blocks → Ensures (Block j)
      ((cardTransfers q.card.highCapacity u.fuel u.rca u.dm).writeABlock
        (q.lba.setWidth 32 + BitVec.ofNat 32 j) (q.buffer + blockSize * j))
      (fun ok s => ok = true → Block (j + 1) s) := by
    rintro j hj s ok s' ⟨hmem, hcontent⟩ heq hok
    obtain ⟨hc, _, hm⟩ :=
      writeABlock_spec _ _ _ _ s.dev.content s.mem s.dev.log _ s ok s' ⟨rfl, rfl, rfl⟩ heq hok
    refine ⟨hm.trans hmem, ?_⟩
    rw [hc, q.byteAddress_eq hj, hmem, hcontent,
      show 512 * (j + 1) = 512 * j + 512 by omega, ← Memory.blit_append]
    simp only [Nat.add_assoc]
  have hrun := transferAll_recorded Block q.blocks (q.lba.setWidth 32) q.buffer 0#32 hstep
  rw [CardRequest.transfers, q.write_eq]
  refine Ensures.bind (hrun.mono ?_ fun _ _ h => h) fun ret => ?_
  · rintro p rfl _
    exact ⟨rfl, by rw [Nat.mul_zero, Memory.blit_zero]⟩
  · refine Ensures.pure fun p hp hall => ?_
    obtain ⟨⟨hmem, hcontent⟩, rfl⟩ := hp hall
    exact ⟨q.status_of_all, hmem, hcontent⟩

/-! ### What it should do -/

/-- If every transfer succeeds, exactly the bytes of the buffer are filled, with the bytes of
    the requested blocks. -/
def RightRead (q : RangedRequest) : Prop :=
  ∀ (u : Setup) (m : Machine Sdcc), Ensures (· = (m, [])) (q.read (q.transfers u))
    (fun status p => AllSucceeded p.2 → status = .success ∧
      p.1.mem = Memory.blit q.buffer q.bufferSize.toNat
        (fun i => m.dev.content (q.firstByte + i)) m.mem)

/-- If every transfer succeeds, exactly the bytes of the requested blocks are replaced, by the
    bytes of the buffer. -/
def RightWrite (q : RangedRequest) : Prop :=
  ∀ (u : Setup) (m : Machine Sdcc), Ensures (· = (m, [])) (q.write (q.transfers u))
    (fun status p => AllSucceeded p.2 → status = .success ∧
      p.1.dev.content = Memory.blit q.firstByte q.bufferSize.toNat
        (fun i => m.mem (q.buffer + i)) m.dev.content)

/-- Two blits of ones over zeros are equal only if they have the same length. -/
theorem blit_ones_inj {dst n k : Nat}
    (h : Memory.blit dst n (fun _ => 1#8) (fun _ => 0#8)
      = Memory.blit dst k (fun _ => 1#8) (fun _ => 0#8)) : n = k := by
  rcases lt_trichotomy n k with hlt | heq | hgt
  · have hn := congrFun h (dst + n)
    rw [Memory.blit_outside _ _ (Or.inr (Nat.le_refl _)), Memory.blit_inside dst _ _ hlt] at hn
    exact absurd hn (by decide)
  · exact heq
  · have hk := congrFun h (dst + k)
    rw [Memory.blit_inside dst _ _ hgt, Memory.blit_outside _ _ (Or.inr (Nat.le_refl _))] at hk
    exact absurd hk (by decide)

/-- A machine whose polls are prompt, with ones on the card and zeros in memory. -/
def onesMachine : Machine Sdcc where
  dev := ⟨promptStatus, 0, fun _ => 0, 0, [], [], 0, fun _ => 1#8, []⟩
  mem := fun _ => 0#8

/-- A read that fills exactly the buffer is a read of blocks of 512 bytes. -/
theorem readBlLen_of_rightRead {q : RangedRequest} (hread : RightRead q) :
    q.card.readBlLen = 9 := by
  -- a read of ones over zeros shows how many bytes it fills
  let u : Setup := ⟨129, 0, fun _ _ _ => pure true⟩
  obtain ⟨status, p, hrun, _, hall⟩ := read_completes q.toCardRequest u (by decide)
    (onesMachine, []) ⟨rfl, fun ok h => absurd h (List.not_mem_nil)⟩
  obtain ⟨_, _, hdone⟩ := read_effect q u onesMachine _ status p rfl hrun hall
  obtain ⟨_, hshould⟩ := hread u onesMachine _ status p rfl hrun hall
  have hlen : 512 * q.blocks = q.bufferSize.toNat := blit_ones_inj (hdone.symm.trans hshould)
  rw [q.bufferSize_eq, q.blockSize_toNat, Nat.mul_comm] at hlen
  have hpow : 2 ^ 9 = 2 ^ q.card.readBlLen := Nat.eq_of_mul_eq_mul_left q.nonempty hlen
  exact (Nat.pow_right_injective (Nat.le_refl 2) hpow).symm

/-- A card of 2 GB: structure version 1, `READ_BL_LEN = 10`, `C_SIZE = 4095` and
    `C_SIZE_MULT = 7`. -/
def card2GB : Card where
  csd := ![0, 0xA03FF, 0xC0038000, 0]
  ocr := 0x80FF8000
  cmd8 := false
  accepted := by decide
  kind := by decide

/-- A request for its second block, of 1024 bytes. -/
def secondBlock : RangedRequest where
  media := card2GB.media
  lba := 1
  bufferSize := 1024
  buffer := 0x1000
  positive := by decide
  multiple := by decide
  card := card2GB
  published := rfl
  nonempty := by decide
  inRange := by decide

end HtcLeo.SdCard

import HtcLeo.SdCard.Completion

namespace HtcLeo.SdCard

open Prog

/-!
# SdCardDxe — requests on a card

BlockIo requests on a card in the controller, with whatever the polls show and the outcomes of
the single-block transfers recorded.

* `CardRequest` — a request that passes the buffer checks, for the media record published for
  a card.
* `CardRequest.transfers` — the transfer functions it runs on.
* `read_completes` — there are runs of a read in which every transfer succeeds.
-/

/-- A request for at least one block of a card. -/
structure CardRequest extends Request where
  card : Card
  published : media = card.media
  nonempty : 0 < toRequest.blocks

namespace CardRequest

variable (q : CardRequest)

theorem blockSize_toNat : q.media.blockSize.toNat = 2 ^ q.card.readBlLen := by
  rw [q.published, q.card.media_blockSize]

/-- The first byte of the requested range on the card. -/
def firstByte : Nat := q.lba.toNat * q.media.blockSize.toNat

/-- The entry points on a request of the card. -/
theorem read_eq (t : Transfers (Machine Sdcc)) :
    q.read t.recorded = do
      let ret ← transferAll (fun b d => record (t.readABlock b d)) q.blocks
        (q.lba.setWidth 32) q.buffer 0#32
      return if ret ≠ 0#32 then .success else .deviceError := by
  have hcnt : (BitVec.ofNat 32 q.blocks).toNat = q.blocks := by
    rw [BitVec.toNat_ofNat, Nat.mod_eq_of_lt q.blocks_lt]
  show mmchsTransfer (mmcBread t.recorded) q.media q.lba q.bufferSize (some q.buffer) = _
  rw [q.mmchsTransfer_eq, if_neg q.nonempty.ne', mmcBread_eq, hcnt]
  rfl

theorem write_eq (t : Transfers (Machine Sdcc)) :
    q.write t.recorded = do
      let ret ← transferAll (fun b d => record (t.writeABlock b d)) q.blocks
        (q.lba.setWidth 32) q.buffer 0#32
      return if ret ≠ 0#32 then .success else .deviceError := by
  have hcnt : (BitVec.ofNat 32 q.blocks).toNat = q.blocks := by
    rw [BitVec.toNat_ofNat, Nat.mod_eq_of_lt q.blocks_lt]
  show mmchsTransfer (mmcBwrite t.recorded) q.media q.lba q.bufferSize (some q.buffer) = _
  rw [q.mmchsTransfer_eq, if_neg q.nonempty.ne', mmcBwrite_eq, hcnt]
  rfl

/-- A count of all blocks is reported as success. -/
theorem status_of_all :
    (if 0#32 + BitVec.ofNat 32 q.blocks ≠ 0#32 then EfiStatus.success else .deviceError)
      = .success := by
  have hlt := q.blocks_lt
  have hpos := q.nonempty
  apply if_pos
  intro h
  -- the number of blocks is below `2 ^ 32`, so the count does not wrap to zero
  rw [BitVec.zero_add, ← BitVec.toNat_inj, BitVec.toNat_ofNat, Nat.mod_eq_of_lt hlt] at h
  simp at h
  omega

end CardRequest

/-- How the driver runs on the card of a request: its polls and the data mover are arbitrary. -/
structure Setup where
  fuel : Nat
  rca : BitVec 16
  dm : U32 → U32 → Nat → Prog (Machine Sdcc) Bool

/-- The recorded transfer functions on the card of a request. -/
def CardRequest.transfers (q : CardRequest) (u : Setup) :
    Transfers (Machine Sdcc × List Bool) :=
  (cardTransfers q.card.highCapacity u.fuel u.rca u.dm).recorded

/-- With enough polls for a block, and a controller that is prompt, there is a run of a read in
    which every transfer succeeds. -/
theorem read_completes (q : CardRequest) (u : Setup) (hfuel : 128 < u.fuel) :
    Completes (fun p => Prompt p.1 ∧ AllSucceeded p.2) (q.read (q.transfers u))
      (fun _ p => Prompt p.1 ∧ AllSucceeded p.2) := by
  rw [CardRequest.transfers, q.read_eq]
  refine Completes.bind ?_ fun ret => Completes.pure fun _ h => h
  exact transferAll_completes (fun block buffer => readABlock_completes hfuel block buffer) _ _ _ _

end HtcLeo.SdCard

import HtcLeo.SdCard.Csd

namespace HtcLeo.SdCard

/-!
# SdCardDxe — the capacity of a card

`mmc_decode_csd` against the layout of the CSD register, for every register that an SD card can
have.

* `SdCsd` — a CSD register of structure version 1 or 2.
* `SdCsd.capacity` — the capacity it defines.
* `SdCsd.blocks` — the number of blocks by the formulas of `mmc_decode_csd`, in unbounded
  arithmetic.
* `capacity_iff` — `lba` and `blksz` give the capacity exactly when the version is 1 or `C_SIZE` is
  below 2¹⁶.
-/

/-- A CSD register of an SD card: `CSD_STRUCTURE` is 0 for version 1, where `READ_BL_LEN` is
    between 9 and 11, or 1 for version 2, where it is 9. -/
structure SdCsd where
  resp : Response
  layout : resp.bits.extractLsb' 126 2 = 0#2 ∧ 9 ≤ (resp.bits.extractLsb' 80 4).toNat ∧
      (resp.bits.extractLsb' 80 4).toNat ≤ 11 ∨
    resp.bits.extractLsb' 126 2 = 1#2 ∧ (resp.bits.extractLsb' 80 4).toNat = 9

namespace SdCsd

variable (c : SdCsd)

/-- The register is of version 2. -/
def version2 : Bool := c.resp.bits.extractLsb' 126 2 == 1#2

/-- `C_SIZE` of the version. -/
def cSize : Nat := c.resp.cSize c.version2

/-- The capacity in bytes that the register defines. -/
def capacity : Nat := c.resp.capacity c.version2

/-- The blocks that `mmc_decode_csd` counts, were its arithmetic unbounded: of a `C_SIZE` of
    version 2 it takes the 16 low bits. -/
def blocks : Nat :=
  if c.version2 then ((c.resp.bits.extractLsb' 48 16).toNat + 1) * 1024
  else (c.cSize + 1) * 2 ^ (c.resp.cSizeMult + 2)

/-- The decoded device has the capacity of the card, and its fields are what unbounded arithmetic
    gives. -/
structure Decoded (dev : MmcDev) : Prop where
  capacity : dev.lba.toNat * dev.blksz.toNat = c.capacity
  lba : dev.lba.toNat = c.blocks
  blksz : dev.blksz.toNat = 2 ^ c.resp.readBlLen

/-! ### What is decoded -/

variable {c}

theorem readBlLen_of_version2 (h : c.version2 = true) : c.resp.readBlLen = 9 := by
  rcases c.layout with ⟨hversion, _, _⟩ | ⟨_, hlen⟩
  · rw [version2, hversion] at h
    exact absurd h (by decide)
  · exact hlen

variable (c)

/-- The version of the register decides how it is decoded. -/
theorem mmcDecodeCsd_eq (dev : MmcDev) (h : dev.ifType = .sd) :
    mmcDecodeCsd c.resp dev = decodeGeometry c.resp c.version2 dev := by
  refine mmcDecodeCsd_of_version ?_ dev h
  have hfield := unstuffBits_eq_setWidth c.resp (by decide : 2 ≤ 32) (by decide : 126 + 2 ≤ 128)
  unfold version2
  rcases c.layout with ⟨hversion, _, _⟩ | ⟨hversion, _⟩
  · rw [hfield, hversion]
    rfl
  · rw [hfield, hversion]
    rfl

/-- Nothing wraps in 32 bits. -/
theorem decodeGeometry_lba (dev : MmcDev) :
    (decodeGeometry c.resp c.version2 dev).lba.toNat = c.blocks := by
  unfold blocks cSize
  cases h : c.version2 with
  | true  => exact decodeGeometry_lba_high c.resp dev
  | false => exact decodeGeometry_lba_standard c.resp dev

/-- The 16 low bits of a `C_SIZE` of version 2. -/
theorem lowSize_eq :
    (c.resp.bits.extractLsb' 48 16).toNat = (c.resp.bits.extractLsb' 48 22).toNat % 2 ^ 16 := by
  rw [BitVec.extractLsb'_toNat, BitVec.extractLsb'_toNat]
  omega

/-- The blocks counted make up the capacity unless `C_SIZE` needs more than 16 bits. -/
theorem blocks_mul_iff :
    c.blocks * 2 ^ c.resp.readBlLen = c.capacity ↔ (c.version2 = true → c.cSize < 2 ^ 16) := by
  unfold blocks capacity cSize Response.capacity
  cases h : c.version2 with
  | false => simp
  | true =>
    have hlow := c.lowSize_eq
    have hsize : c.resp.cSize true = (c.resp.bits.extractLsb' 48 22).toNat := rfl
    rw [readBlLen_of_version2 h, hsize, hlow]
    simp only [if_true, forall_const]
    omega

/-- **SD capacity.**  For every register of an SD card, and whatever the device record held
    before, `mmc_decode_csd` yields the capacity exactly when the register is of version 1 or its
    `C_SIZE` is below 2¹⁶. -/
theorem capacity_iff (c : SdCsd) (lba blksz : U32) (attached : Bool) :
    c.Decoded (mmcDecodeCsd c.resp ⟨.sd, lba, blksz, attached⟩)
      ↔ (c.version2 = true → c.cSize < 2 ^ 16) := by
  have hlba := c.decodeGeometry_lba ⟨.sd, lba, blksz, attached⟩
  have hblksz := decodeGeometry_blksz c.resp c.version2 ⟨.sd, lba, blksz, attached⟩
  rw [c.mmcDecodeCsd_eq _ rfl, ← c.blocks_mul_iff]
  constructor
  · intro h
    rw [← h.capacity, h.lba, h.blksz]
  · intro h
    refine ⟨?_, hlba, hblksz⟩
    rw [hlba, hblksz]
    exact h

end SdCsd

/-- The register of a card of version 2 with `C_SIZE` 2¹⁶: a little more than 32 GiB. -/
def csd32GiB : SdCsd where
  resp i := [0x40000000, 0x00090001].getD i 0
  layout := by decide

/-- It is decoded as a card of 512 KiB. -/
theorem csd32GiB_not_decoded :
    ¬ csd32GiB.Decoded (mmcDecodeCsd csd32GiB.resp ⟨.sd, 0, 0, false⟩) := by
  intro h
  exact absurd h.capacity (by decide)

end HtcLeo.SdCard

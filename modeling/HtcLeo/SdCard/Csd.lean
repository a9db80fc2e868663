import HtcLeo.Uefi
import Mathlib.Data.Fin.VecNotation

namespace HtcLeo.SdCard

/-!
# SdCardDxe — decoding the CSD register

`UNSTUFF_BITS` and `mmc_decode_csd` of `GPLDrivers/SdCardDxe/mmc.c`, the media record
`SdCardInitialize` publishes, and the capacity the CSD register really describes.

* `unstuffBits_eq_field` — the macro extracts a field of the 128-bit register.
* `Card` — what the driver learns of a card it accepts: the CSD, and the answers by which it
  decides how to address the card.
* `Response.capacity` — the capacity by the layout of the CSD, in bytes.
* `lastBlock_succ_ne` — the published `LastBlock` never is the index of the last block.
-/

/-- A 128-bit response: four words, the most significant first. -/
abbrev Response := Fin 4 → U32

/-- The response as one 128-bit number. -/
def Response.bits (resp : Response) : BitVec 128 := resp 0 ++ resp 1 ++ resp 2 ++ resp 3

/-- The first word, all of a short response. -/
def Response.first (resp : Response) : U32 := resp 0

/-- `UNSTUFF_BITS`. -/
def unstuffBits (resp : Response) (start size : Nat) : U32 :=
  -- all ones for a field of a whole word
  let mask := (if size < 32 then 1#32 <<< size else 0#32) - 1#32
  let off := 3 - start / 32
  let shft := start &&& 31
  let res := resp (Fin.ofNat 4 off) >>> shft
  -- a field that goes on in the next word takes the rest from there
  let res :=
    if 32 < size + shft then res ||| resp (Fin.ofNat 4 (off - 1)) <<< ((32 - shft) % 32) else res
  res &&& mask

/-! ### Fields of the register -/

/-- Bit `p` of the register is in word `3 - p / 32`. -/
theorem bits_getLsbD (resp : Response) {p : Nat} (h : p < 128) :
    resp.bits.getLsbD p = (resp (Fin.ofNat 4 (3 - p / 32))).getLsbD (p % 32) := by
  have hp : p / 32 = 0 ∨ p / 32 = 1 ∨ p / 32 = 2 ∨ p / 32 = 3 := by omega
  unfold Response.bits
  simp only [BitVec.getLsbD_append]
  -- one case for each word, the least significant first
  rcases hp with hp | hp | hp | hp
  · have h0 : p < 32 := by omega
    rw [if_pos h0, hp, Nat.mod_eq_of_lt h0]
    rfl
  · have h0 : ¬ p < 32 := by omega
    have h1 : p - 32 < 32 := by omega
    have hmod : p % 32 = p - 32 := by omega
    rw [if_neg h0, if_pos h1, hp, hmod]
    rfl
  · have h0 : ¬ p < 32 := by omega
    have h1 : ¬ p - 32 < 32 := by omega
    have h2 : p - 32 - 32 < 32 := by omega
    have hmod : p % 32 = p - 32 - 32 := by omega
    rw [if_neg h0, if_neg h1, if_pos h2, hp, hmod]
    rfl
  · have h0 : ¬ p < 32 := by omega
    have h1 : ¬ p - 32 < 32 := by omega
    have h2 : ¬ p - 32 - 32 < 32 := by omega
    have hmod : p % 32 = p - 32 - 32 - 32 := by omega
    rw [if_neg h0, if_neg h1, if_neg h2, hp, hmod]
    rfl

/-- The mask of the macro has its `size` low bits set. -/
theorem mask_getLsbD {size : Nat} (h : size ≤ 32) (i : Nat) :
    ((if size < 32 then 1#32 <<< size else 0#32) - 1#32).getLsbD i = decide (i < size) := by
  have hmask : (if size < 32 then 1#32 <<< size else 0#32) - 1#32
      = BitVec.ofNat 32 (2 ^ size - 1) := by
    apply BitVec.eq_of_toNat_eq
    rcases Nat.lt_or_ge size 32 with hlt | hge
    · have hpow : 2 ^ size < 2 ^ 32 := Nat.pow_lt_pow_right (by decide) hlt
      have hpos : 0 < 2 ^ size := Nat.two_pow_pos size
      rw [if_pos hlt, ← BitVec.twoPow_eq, BitVec.toNat_sub, BitVec.toNat_twoPow,
        BitVec.toNat_ofNat, BitVec.toNat_ofNat, Nat.mod_eq_of_lt hpow]
      omega
    · -- a whole word: `0 - 1` is all ones
      obtain rfl : size = 32 := by omega
      rfl
  rw [hmask, BitVec.getLsbD_ofNat, Nat.testBit_two_pow_sub_one]
  by_cases hi : i < size
  · have hi32 : i < 32 := by omega
    simp [hi, hi32]
  · simp [hi]

/-- `UNSTUFF_BITS` extracts the field of `size` bits that begins at bit `start`. -/
theorem unstuffBits_getLsbD (resp : Response) {start size : Nat} (hsize : size ≤ 32)
    (hend : start + size ≤ 128) (i : Nat) :
    (unstuffBits resp start size).getLsbD i
      = (decide (i < size) && resp.bits.getLsbD (start + i)) := by
  have hshft : start &&& 31 = start % 32 := Nat.and_two_pow_sub_one_eq_mod start 5
  by_cases hi : i < size
  · have hi32 : i < 32 := by omega
    simp only [unstuffBits, hshft, BitVec.getLsbD_and, mask_getLsbD hsize, hi, decide_true,
      Bool.and_true, Bool.true_and]
    rw [bits_getLsbD resp (by omega : start + i < 128)]
    by_cases hsame : start % 32 + i < 32
    · -- the bit is in the word the field begins in
      have hword : (start + i) / 32 = start / 32 := by omega
      have hbit : (start + i) % 32 = start % 32 + i := by omega
      rw [hword, hbit]
      split
      · have hlow : i < (32 - start % 32) % 32 := by omega
        rw [BitVec.getLsbD_or, BitVec.getLsbD_ushiftRight, BitVec.getLsbD_shiftLeft]
        simp [hlow]
      · rw [BitVec.getLsbD_ushiftRight]
    · -- the field goes on in the word before it
      have hword : (start + i) / 32 = start / 32 + 1 := by omega
      have hbit : (start + i) % 32 = i - (32 - start % 32) % 32 := by omega
      have hover : 32 < size + start % 32 := by omega
      have hhigh : ¬ i < (32 - start % 32) % 32 := by omega
      rw [hword, hbit, if_pos hover, BitVec.getLsbD_or, BitVec.getLsbD_ushiftRight,
        BitVec.getLsbD_shiftLeft, BitVec.getLsbD_of_ge _ _ (by omega : 32 ≤ start % 32 + i),
        show 3 - start / 32 - 1 = 3 - (start / 32 + 1) by omega]
      simp [hi32, hhigh]
  · simp only [unstuffBits, BitVec.getLsbD_and, mask_getLsbD hsize, hi, decide_false,
      Bool.and_false, Bool.false_and]

/-- A field as a word. -/
theorem unstuffBits_eq_setWidth (resp : Response) {start size : Nat} (hsize : size ≤ 32)
    (hend : start + size ≤ 128) :
    unstuffBits resp start size = (resp.bits.extractLsb' start size).setWidth 32 := by
  apply BitVec.eq_of_getLsbD_eq
  intro i hi
  rw [unstuffBits_getLsbD resp hsize hend, BitVec.getLsbD_setWidth, BitVec.getLsbD_extractLsb']
  simp [hi]

/-- A field as a number. -/
theorem unstuffBits_toNat (resp : Response) {start size : Nat} (hsize : size ≤ 32)
    (hend : start + size ≤ 128) :
    (unstuffBits resp start size).toNat = (resp.bits.extractLsb' start size).toNat := by
  have hpow : 2 ^ size ≤ 2 ^ 32 := Nat.pow_le_pow_right (by decide) hsize
  rw [unstuffBits_eq_setWidth resp hsize hend, BitVec.toNat_setWidth]
  exact Nat.mod_eq_of_lt (lt_of_lt_of_le (BitVec.isLt _) hpow)

/-- A field of `size` bits is below `2 ^ size`. -/
theorem unstuffBits_lt (resp : Response) {start size : Nat} (hsize : size ≤ 32)
    (hend : start + size ≤ 128) : (unstuffBits resp start size).toNat < 2 ^ size := by
  rw [unstuffBits_toNat resp hsize hend]
  exact BitVec.isLt _

/-- The number the four words make, `resp[0]` the most significant. -/
def Response.number (resp : Response) : Nat :=
  (((resp 0).toNat * 2 ^ 32 + (resp 1).toNat) * 2 ^ 32 + (resp 2).toNat) * 2 ^ 32 + (resp 3).toNat

/-- Appending a word is adding it below. -/
theorem toNat_append_word {w : Nat} (x : BitVec w) (y : U32) :
    (x ++ y).toNat = x.toNat * 2 ^ 32 + y.toNat := by
  rw [BitVec.toNat_append, ← Nat.shiftLeft_add_eq_or_of_lt y.isLt, Nat.shiftLeft_eq]

theorem bits_toNat (resp : Response) : resp.bits.toNat = resp.number := by
  unfold Response.bits Response.number
  rw [toNat_append_word, toNat_append_word, toNat_append_word]

/-- **`UNSTUFF_BITS`** gives the bits `start + size - 1` down to `start` of the number the words
    make, for every field of at most a word. -/
theorem unstuffBits_eq_field (resp : Response) {start size : Nat} (hsize : size ≤ 32)
    (hend : start + size ≤ 128) :
    (unstuffBits resp start size).toNat = resp.number / 2 ^ start % 2 ^ size := by
  calc (unstuffBits resp start size).toNat
      = (resp.bits.extractLsb' start size).toNat := unstuffBits_toNat resp hsize hend
    _ = resp.bits.toNat / 2 ^ start % 2 ^ size := by
        rw [BitVec.extractLsb'_toNat, Nat.shiftRight_eq_div_pow]
    _ = resp.number / 2 ^ start % 2 ^ size := by rw [bits_toNat]

/-- A field of a whole word that lies in two of them: the product serial number of a CID. -/
theorem unstuffBits_eq_field_serial :
    unstuffBits ![0x03534453#32, 0x55303847#32, 0x80a1b2c3#32, 0xd400f6a7#32] 24 32
      = 0xa1b2c3d4#32 := by
  have hfield := unstuffBits_eq_field
    ![0x03534453#32, 0x55303847#32, 0x80a1b2c3#32, 0xd400f6a7#32]
    (by decide : 32 ≤ 32) (by decide : 24 + 32 ≤ 128)
  exact BitVec.eq_of_toNat_eq (hfield.trans (by decide))

/-! ### `mmc_decode_csd` -/

/-- `IF_TYPE_*`. -/
inductive IfType
  | unknown | mmc | sd
  deriving DecidableEq, Repr

/-- The fields of `mmc_dev` that the block layer uses.  `attached` says that `block_read` and
    `block_write` point to `mmc_bread` and `mmc_bwrite`. -/
structure MmcDev where
  ifType : IfType
  lba : U32
  blksz : U32
  attached : Bool

/-- The part of `mmc_decode_csd` after the check of the structure version. -/
def decodeGeometry (resp : Response) (highCapacity : Bool) (dev : MmcDev) : MmcDev :=
  let blksz := 1#32 <<< unstuffBits resp 80 4
  let lba :=
    -- of the 22 bits of `C_SIZE` the low 16 are taken
    if highCapacity then (1#32 + unstuffBits resp 48 16) * 1024#32
    else (1#32 + unstuffBits resp 62 12) * (1#32 <<< (unstuffBits resp 47 3 + 2#32))
  { dev with lba := lba, blksz := blksz, attached := true }

/-- `mmc_decode_csd`.  The `high_capacity` it sets is a local of its own. -/
def mmcDecodeCsd (resp : Response) (dev : MmcDev) : MmcDev :=
  let csdStruct := unstuffBits resp 126 2
  match dev.ifType with
  | .sd =>
      if csdStruct = 0#32 then decodeGeometry resp false dev
      else if csdStruct = 1#32 then decodeGeometry resp true dev
      else dev
  | _ =>
      if csdStruct ≠ 1#32 ∧ csdStruct ≠ 2#32 then dev
      else decodeGeometry resp false { dev with ifType := .mmc }

/-- The version of the register decides how that of an SD card is decoded. -/
theorem mmcDecodeCsd_of_version {resp : Response} {high : Bool}
    (hversion : unstuffBits resp 126 2 = if high then 1#32 else 0#32) (dev : MmcDev)
    (hsd : dev.ifType = .sd) : mmcDecodeCsd resp dev = decodeGeometry resp high dev := by
  unfold mmcDecodeCsd
  rw [hsd, hversion]
  cases high <;> rfl

/-! ### The layout of the register -/

namespace Response

variable (resp : Response)

/-- `READ_BL_LEN`. -/
def readBlLen : Nat := (resp.bits.extractLsb' 80 4).toNat

/-- `C_SIZE`, of 12 bits in version 1 and of 22 bits in version 2. -/
def cSize (version2 : Bool) : Nat :=
  if version2 then (resp.bits.extractLsb' 48 22).toNat else (resp.bits.extractLsb' 62 12).toNat

/-- `C_SIZE_MULT`. -/
def cSizeMult : Nat := (resp.bits.extractLsb' 47 3).toNat

/-- The capacity in bytes that a register of the version describes. -/
def capacity (version2 : Bool) : Nat :=
  if version2 then (resp.cSize version2 + 1) * (512 * 1024)
  else (resp.cSize version2 + 1) * 2 ^ (resp.cSizeMult + 2) * 2 ^ resp.readBlLen

theorem readBlLen_lt : resp.readBlLen < 16 := BitVec.isLt (resp.bits.extractLsb' 80 4)

end Response

/-! ### The geometry as numbers -/

/-- A shift of one by less than 32 is a power of two. -/
theorem one_shiftLeft_toNat {k : U32} (h : k.toNat < 32) : (1#32 <<< k).toNat = 2 ^ k.toNat := by
  rw [BitVec.shiftLeft_eq', BitVec.toNat_shiftLeft, Nat.shiftLeft_eq, BitVec.toNat_ofNat]
  have hpow : 2 ^ k.toNat < 2 ^ 32 := Nat.pow_lt_pow_right (by decide) h
  rw [Nat.mod_eq_of_lt (by decide : 1 < 2 ^ 32), Nat.one_mul, Nat.mod_eq_of_lt hpow]

/-- The block size is `2 ^ READ_BL_LEN`. -/
theorem decodeGeometry_blksz (resp : Response) (highCapacity : Bool) (dev : MmcDev) :
    (decodeGeometry resp highCapacity dev).blksz.toNat = 2 ^ resp.readBlLen := by
  have hfield : (unstuffBits resp 80 4).toNat = resp.readBlLen :=
    unstuffBits_toNat resp (by decide) (by decide)
  have hlt := resp.readBlLen_lt
  show (1#32 <<< unstuffBits resp 80 4).toNat = _
  rw [one_shiftLeft_toNat (by omega), hfield]

/-- The blocks of a high-capacity card, from the 16 low bits of `C_SIZE`. -/
theorem decodeGeometry_lba_high (resp : Response) (dev : MmcDev) :
    (decodeGeometry resp true dev).lba.toNat
      = ((resp.bits.extractLsb' 48 16).toNat + 1) * 1024 := by
  have hfield : (unstuffBits resp 48 16).toNat = (resp.bits.extractLsb' 48 16).toNat :=
    unstuffBits_toNat resp (by decide) (by decide)
  have hlt := (resp.bits.extractLsb' 48 16).isLt
  show ((1#32 + unstuffBits resp 48 16) * 1024#32).toNat = _
  rw [BitVec.toNat_mul, BitVec.toNat_add, hfield]
  simp only [BitVec.toNat_ofNat]
  omega

/-- The blocks of a standard-capacity card. -/
theorem decodeGeometry_lba_standard (resp : Response) (dev : MmcDev) :
    (decodeGeometry resp false dev).lba.toNat
      = ((resp.bits.extractLsb' 62 12).toNat + 1)
        * 2 ^ ((resp.bits.extractLsb' 47 3).toNat + 2) := by
  have hsize : (unstuffBits resp 62 12).toNat = (resp.bits.extractLsb' 62 12).toNat :=
    unstuffBits_toNat resp (by decide) (by decide)
  have hmult : (unstuffBits resp 47 3).toNat = (resp.bits.extractLsb' 47 3).toNat :=
    unstuffBits_toNat resp (by decide) (by decide)
  have hs := (resp.bits.extractLsb' 62 12).isLt
  have hm := (resp.bits.extractLsb' 47 3).isLt
  have hadd : (unstuffBits resp 47 3 + 2#32).toNat = (resp.bits.extractLsb' 47 3).toNat + 2 := by
    rw [BitVec.toNat_add, hmult]
    simp only [BitVec.toNat_ofNat]
    omega
  have hpow : (1#32 <<< (unstuffBits resp 47 3 + 2#32)).toNat
      = 2 ^ ((resp.bits.extractLsb' 47 3).toNat + 2) := by
    rw [one_shiftLeft_toNat (by omega), hadd]
  have hple : 2 ^ ((resp.bits.extractLsb' 47 3).toNat + 2) ≤ 2 ^ 9 :=
    Nat.pow_le_pow_right (by decide) (by omega)
  have hone : (1#32 + unstuffBits resp 62 12).toNat
      = (resp.bits.extractLsb' 62 12).toNat + 1 := by
    rw [BitVec.toNat_add, hsize]
    simp only [BitVec.toNat_ofNat]
    omega
  -- so the product does not wrap
  have hprod : ((resp.bits.extractLsb' 62 12).toNat + 1)
      * 2 ^ ((resp.bits.extractLsb' 47 3).toNat + 2) ≤ 2 ^ 12 * 2 ^ 9 :=
    Nat.mul_le_mul (by omega) hple
  show ((1#32 + unstuffBits resp 62 12) * (1#32 <<< (unstuffBits resp 47 3 + 2#32))).toNat = _
  rw [BitVec.toNat_mul, hpow, hone]
  omega

/-- `gMMCHSMedia`, as far as the driver sets it. -/
structure Media where
  lastBlock : BitVec 64
  blockSize : U32

/-- What `SdCardInitialize` publishes of `mmc_dev`. -/
def mediaOf (dev : MmcDev) : Media := ⟨dev.lba.setWidth 64, dev.blksz⟩

/-! ### Cards -/

/-- `hc_support`: the HCS bit of ACMD41 if CMD8 was answered. -/
def hcSupport (cmd8 : Bool) : U32 := if cmd8 then 1#32 <<< 30 else 0#32

/-- A card the driver accepts: its CSD, of structure version 1 or 2, the OCR it answers ACMD41
    with, and whether it answers CMD8.  A card that tells the host it is a high-capacity card
    has the CSD of one. -/
structure Card where
  csd : Response
  ocr : U32
  cmd8 : Bool
  accepted : unstuffBits csd 126 2 = 0#32 ∨ unstuffBits csd 126 2 = 1#32
  kind : ocr &&& hcSupport cmd8 ≠ 0#32 ↔ unstuffBits csd 126 2 = 1#32

namespace Card

variable (c : Card)

/-- The static `high_capacity`, as `card_identification_selection` leaves it. -/
def highCapacity : Bool := c.ocr &&& hcSupport c.cmd8 != 0#32

/-- `READ_BL_LEN`. -/
def readBlLen : Nat := c.csd.readBlLen

/-- The media record published for the card; `mmc_legacy_init` sets `IF_TYPE_SD` before it
    decodes the CSD. -/
def media : Media := mediaOf (mmcDecodeCsd c.csd ⟨.sd, 0, 0, false⟩)

/-- The capacity in bytes that the CSD describes, by the layout of its version. -/
def capacity : Nat := c.csd.capacity c.highCapacity

/-- The number of blocks of `Media.BlockSize` bytes on the card. -/
def blockCount : Nat := c.capacity / c.media.blockSize.toNat

theorem highCapacity_iff : c.highCapacity = true ↔ unstuffBits c.csd 126 2 = 1#32 := by
  rw [← c.kind, highCapacity]
  simp

theorem mmcDecodeCsd_eq (dev : MmcDev) (h : dev.ifType = .sd) :
    mmcDecodeCsd c.csd dev = decodeGeometry c.csd c.highCapacity dev := by
  refine mmcDecodeCsd_of_version ?_ dev h
  have hiff := c.highCapacity_iff
  rcases c.accepted with h0 | h1
  · have hlow : c.highCapacity = false := by
      rw [h0] at hiff
      simpa using hiff
    rw [h0, hlow]
    rfl
  · rw [h1, hiff.mpr h1, if_pos rfl]

theorem readBlLen_lt : c.readBlLen < 16 := c.csd.readBlLen_lt

/-- `Media.BlockSize` is `2 ^ READ_BL_LEN`. -/
theorem media_blockSize : c.media.blockSize.toNat = 2 ^ c.readBlLen := by
  unfold media
  rw [c.mmcDecodeCsd_eq _ rfl]
  exact decodeGeometry_blksz c.csd c.highCapacity ⟨.sd, 0, 0, false⟩

/-- `Media.LastBlock` of a high-capacity card, from the 16 low bits of `C_SIZE`. -/
theorem media_lastBlock_high (h : c.highCapacity = true) :
    c.media.lastBlock.toNat = (1 + (unstuffBits c.csd 48 16).toNat) * 1024 := by
  have hlt : (unstuffBits c.csd 48 16).toNat < 2 ^ 16 :=
    unstuffBits_lt c.csd (by decide) (by decide)
  unfold media
  rw [c.mmcDecodeCsd_eq _ rfl, h]
  show ((decodeGeometry c.csd true _).lba.setWidth 64).toNat = _
  rw [BitVec.toNat_setWidth, decodeGeometry_lba_high,
    ← unstuffBits_toNat c.csd (by decide) (by decide)]
  omega

/-- `Media.LastBlock` of a standard-capacity card is its number of blocks. -/
theorem media_lastBlock_standard (h : c.highCapacity = false) :
    c.media.lastBlock.toNat
      = ((c.csd.bits.extractLsb' 62 12).toNat + 1)
        * 2 ^ ((c.csd.bits.extractLsb' 47 3).toNat + 2) := by
  unfold media
  rw [c.mmcDecodeCsd_eq _ rfl, h]
  show ((decodeGeometry c.csd false _).lba.setWidth 64).toNat = _
  have hlt := (decodeGeometry c.csd false ⟨.sd, 0, 0, false⟩).lba.isLt
  rw [BitVec.toNat_setWidth, Nat.mod_eq_of_lt (by omega), decodeGeometry_lba_standard]

/-- The blocks up to `LastBlock` are few enough for their addresses to fit a command: byte
    addresses on a standard-capacity card, block numbers on a high-capacity card. -/
theorem media_lastBlock_le :
    c.media.lastBlock.toNat ≤ 2 ^ 26 ∧
      (c.highCapacity = false → c.media.lastBlock.toNat ≤ 2 ^ 21) := by
  cases h : c.highCapacity with
  | true =>
    have hlt : (unstuffBits c.csd 48 16).toNat < 2 ^ 16 :=
      unstuffBits_lt c.csd (by decide) (by decide)
    rw [c.media_lastBlock_high h]
    exact ⟨by omega, fun h => absurd h (by decide)⟩
  | false =>
    have hs := (c.csd.bits.extractLsb' 62 12).isLt
    have hm := (c.csd.bits.extractLsb' 47 3).isLt
    have hprod : ((c.csd.bits.extractLsb' 62 12).toNat + 1)
        * 2 ^ ((c.csd.bits.extractLsb' 47 3).toNat + 2) ≤ 2 ^ 12 * 2 ^ 9 :=
      Nat.mul_le_mul (by omega) (Nat.pow_le_pow_right (by decide) (by omega))
    rw [c.media_lastBlock_standard h]
    exact ⟨by omega, fun _ => by omega⟩

/-- A standard-capacity card has as many blocks as its CSD says. -/
theorem blockCount_standard (h : c.highCapacity = false) :
    c.blockCount = ((c.csd.bits.extractLsb' 62 12).toNat + 1)
        * 2 ^ ((c.csd.bits.extractLsb' 47 3).toNat + 2) := by
  rw [blockCount, c.media_blockSize, capacity, h]
  exact Nat.mul_div_cancel _ (Nat.two_pow_pos _)

/-- A high-capacity card has an even number of blocks. -/
theorem blockCount_high (h : c.highCapacity = true) :
    c.blockCount = ((c.csd.bits.extractLsb' 48 22).toNat + 1) * 2 ^ (18 - c.readBlLen) * 2 := by
  have hlt := c.readBlLen_lt
  have hsplit : 512 * 1024 = 2 ^ (18 - c.readBlLen) * 2 * 2 ^ c.readBlLen := by
    rw [Nat.mul_assoc, ← Nat.pow_succ', ← Nat.pow_add,
      show 18 - c.readBlLen + (c.readBlLen + 1) = 19 by omega]
  rw [blockCount, c.media_blockSize, capacity, h, Response.capacity, if_pos rfl, hsplit,
    ← Nat.mul_assoc, ← Nat.mul_assoc]
  exact Nat.mul_div_cancel _ (Nat.two_pow_pos _)

theorem blockCount_standard_le (h : c.highCapacity = false) : c.blockCount ≤ 2 ^ 21 := by
  have hlast := c.media_lastBlock_le.2 h
  rwa [c.media_lastBlock_standard h, ← c.blockCount_standard h] at hlast

/-- With blocks of 512 bytes or more, block numbers fit in 32 bits. -/
theorem blockCount_high_le (h : c.highCapacity = true) (hlen : 9 ≤ c.readBlLen) :
    c.blockCount ≤ 2 ^ 32 := by
  have hsize := (c.csd.bits.extractLsb' 48 22).isLt
  have hpow : 2 ^ (18 - c.readBlLen) ≤ 2 ^ 9 := Nat.pow_le_pow_right (by decide) (by omega)
  have hprod : ((c.csd.bits.extractLsb' 48 22).toNat + 1) * 2 ^ (18 - c.readBlLen)
      ≤ 2 ^ 22 * 2 ^ 9 := Nat.mul_le_mul (by omega) hpow
  rw [c.blockCount_high h]
  omega

/-- **The published `LastBlock`** never is the index of the last block of the card. -/
theorem lastBlock_succ_ne : c.media.lastBlock.toNat + 1 ≠ c.blockCount := by
  cases h : c.highCapacity with
  | true =>
    -- an odd number against an even one
    rw [c.media_lastBlock_high h, c.blockCount_high h]
    omega
  | false =>
    -- `LastBlock` is the number of blocks itself
    rw [c.media_lastBlock_standard h, c.blockCount_standard h]
    omega

end Card

end HtcLeo.SdCard

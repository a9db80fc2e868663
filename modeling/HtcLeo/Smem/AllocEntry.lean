import HtcLeo.Lib.BitMask
import HtcLeo.Lib.Memory
import HtcLeo.Uefi

namespace HtcLeo.Smem

/-!
# SmemDxe — the allocation table

The three accessors of `Drivers/SmemDxe/smem.c` for an entry of the allocation table in shared
memory.

* `smemReadAllocEntry`, `smemReadAllocEntryOffset`, `smemGetAllocEntry` — the accessors.
* `Request` — a call of one of the two readers, for a valid type and sizes that are not negative.
* `Request.Faithful` — the reader stores what is found at the pointer, inside the entry, or
  fails.
* `reads_faithful_iff` — when this is so: the readers look at `base` only, never at `base_ext`, and
  the second one does not look at the size.
-/

/-! ### Shared memory -/

/-- The bytes that `readl` finds; the buffer of the caller is not among them. -/
abbrev SharedMemory := U32 → Byte

/-- `readl`. -/
def readl (mem : SharedMemory) (a : U32) : U32 := mem (a + 3) ++ mem (a + 2) ++ mem (a + 1) ++ mem a

/-- `smem_get_base_addr`, the value of `PcdMsmSharedBase`. -/
def smemGetBaseAddr : U32 := 0x00100000

/-- `SMEM_FIRST_VALID_TYPE` and `SMEM_LAST_VALID_TYPE`. -/
def smemFirstValidType : U32 := 7
def smemLastValidType : U32 := 418

/-- `&smem->alloc_info[type]`: before the table are `proc_comm`, `version_info` and
    `heap_info`. -/
def allocInfo (type : U32) : U32 := smemGetBaseAddr + (4 * 16 + 32 * 4 + 16) + 16 * type

section
variable (mem : SharedMemory) (type : U32)

/-- The fields of `struct smem_alloc_info`, as they are read. -/
def allocated : U32 := readl mem (allocInfo type)
def offsetOf : U32 := readl mem (allocInfo type + 4)
def sizeOf : U32 := readl mem (allocInfo type + 8)
def baseExt : U32 := readl mem (allocInfo type + 12)

end

/-- What a reader returns, and the words it has stored, each with its address. -/
structure Outcome where
  ret : U32
  stores : List (U32 × U32)
  deriving DecidableEq

/-- A reader that fails. -/
def Outcome.failed : Outcome := ⟨1, []⟩

/-- The copying loops; the length is a multiple of four here, and not negative for the signed
    one. -/
def copyLoop (mem : SharedMemory) (dest src : U32) (len : Nat) : List (U32 × U32) :=
  if 0 < len then (dest, readl mem src) :: copyLoop mem (dest + 4) (src + 4) (len - 4) else []

/-- `type` is not one of a valid entry. -/
def invalidType (type : U32) : Bool := type < smemFirstValidType || smemLastValidType < type

/-- `len` or `buf` is not aligned. -/
def misaligned (len buf : U32) : Bool := len &&& 3#32 != 0 || buf &&& 3#32 != 0

/-- `smem_read_alloc_entry`. -/
def smemReadAllocEntry (mem : SharedMemory) (type buf len : U32) : Outcome :=
  if misaligned len buf then .failed
  else if invalidType type then .failed
  else if allocated mem type = 0 then .failed
  else if sizeOf mem type < (len + 7) &&& ~~~7#32 then .failed
  else ⟨0, copyLoop mem buf (smemGetBaseAddr + offsetOf mem type) len.toInt.toNat⟩

/-- `smem_read_alloc_entry_offset`. -/
def smemReadAllocEntryOffset (mem : SharedMemory) (type buf len offset : U32) : Outcome :=
  if misaligned len buf then .failed
  else if invalidType type then .failed
  else if allocated mem type = 0 then .failed
  else ⟨0, copyLoop mem buf (smemGetBaseAddr + offsetOf mem type + offset) len.toNat⟩

/-- `smem_get_alloc_entry`: the pointer with the size, or `NULL`. -/
def smemGetAllocEntry (mem : SharedMemory) (type : U32) : Option (U32 × U32) :=
  if invalidType type then none
  else if allocated mem type = 0 then none
  else
    let base := if baseExt mem type ≠ 0 then baseExt mem type else smemGetBaseAddr
    some (base + offsetOf mem type, sizeOf mem type)

/-! ### Requests -/

/-- A call of a reader: `offset` is `none` for `smem_read_alloc_entry`.  The type is valid, and
    length and offset are not negative. -/
structure Request where
  type : U32
  buf : U32
  len : U32
  offset : Option U32
  typeValid : invalidType type = false
  lenNonneg : 0 ≤ len.toInt
  offsetNonneg : 0 ≤ (offset.getD 0).toInt

namespace Request

/-- The offset in the entry. -/
def start (req : Request) : U32 := req.offset.getD 0

/-- The call. -/
def run (req : Request) (mem : SharedMemory) : Outcome :=
  match req.offset with
  | none        => smemReadAllocEntry mem req.type req.buf req.len
  | some offset => smemReadAllocEntryOffset mem req.type req.buf req.len offset

end Request

/-- The bytes of the stored words, each with its address. -/
def Outcome.storedBytes (r : Outcome) : List (U32 × Byte) :=
  r.stores.flatMap fun store =>
    (List.range 4).map fun i => (store.1 + BitVec.ofNat 32 i, Memory.byteOf store.2 i)

/-- The bytes at `ptr`, as they would be stored at `buf`. -/
def bytesAt (mem : SharedMemory) (buf ptr : U32) (len : Nat) : List (U32 × Byte) :=
  (List.range len).map fun i => (buf + BitVec.ofNat 32 i, mem (ptr + BitVec.ofNat 32 i))

namespace Request

/-- A successful call has stored the bytes at the pointer of `smem_get_alloc_entry`, all of them
    in the entry; one that does not fit in the entry fails, and has stored nothing. -/
structure Faithful (req : Request) (mem : SharedMemory) : Prop where
  stored : (req.run mem).ret = 0 → ∃ ptr size, smemGetAllocEntry mem req.type = some (ptr, size) ∧
    (req.run mem).storedBytes = bytesAt mem req.buf (ptr + req.start) req.len.toNat ∧
    req.start.toNat + req.len.toNat ≤ size.toNat
  refused : ∀ ptr size, smemGetAllocEntry mem req.type = some (ptr, size) →
    size.toNat < req.start.toNat + req.len.toNat →
    (req.run mem).ret ≠ 0 ∧ (req.run mem).stores = []

/-- The call is refused: length or buffer are not aligned, there is no entry, or
    `smem_read_alloc_entry` finds it too small. -/
def Refused (req : Request) (mem : SharedMemory) : Prop :=
  misaligned req.len req.buf = true ∨ allocated mem req.type = 0 ∨
    (req.offset = none ∧ sizeOf mem req.type < (req.len + 7) &&& ~~~7#32)

/-- What is read is inside the entry. -/
def Fits (req : Request) (mem : SharedMemory) : Prop :=
  req.start.toNat + req.len.toNat ≤ (sizeOf mem req.type).toNat

/-- The entry has no base of its own, or the same bytes are found there. -/
def SameBase (req : Request) (mem : SharedMemory) : Prop :=
  baseExt mem req.type = 0 ∨ ∀ i < req.len.toNat,
    mem (smemGetBaseAddr + offsetOf mem req.type + req.start + BitVec.ofNat 32 i)
      = mem (baseExt mem req.type + offsetOf mem req.type + req.start + BitVec.ofNat 32 i)

end Request

/-! ### The copying loops -/

/-- Byte `i` of a word that is read. -/
theorem byteOf_readl (mem : SharedMemory) (a : U32) {i : Nat} (h : i < 4) :
    Memory.byteOf (readl mem a) i = mem (a + BitVec.ofNat 32 i) := by
  -- the four bytes as a memory of their own
  have hload : readl mem a = Memory.load32 (fun n => mem (a + BitVec.ofNat 32 n)) 0 := by
    show readl mem a = mem (a + 3#32) ++ mem (a + 2#32) ++ mem (a + 1#32) ++ mem (a + 0#32)
    rw [BitVec.add_zero]
    rfl
  rw [hload, Memory.byteOf_load32 _ _ h, Nat.zero_add]

/-- The loop stores the bytes at its source. -/
theorem copyLoop_bytes (mem : SharedMemory) (ret dest src : U32) (n : Nat) :
    (Outcome.mk ret (copyLoop mem dest src (4 * n))).storedBytes
      = bytesAt mem dest src (4 * n) := by
  induction n generalizing dest src with
  | zero =>
    rw [copyLoop]
    rfl
  | succ n ih =>
    have hstep : copyLoop mem dest src (4 * (n + 1))
        = (dest, readl mem src) :: copyLoop mem (dest + 4) (src + 4) (4 * n) := by
      rw [copyLoop, if_pos (by omega)]
      rfl
    have hword : (List.range 4).map (fun i => (dest + BitVec.ofNat 32 i,
        Memory.byteOf (readl mem src) i)) = bytesAt mem dest src 4 := by
      refine List.map_congr_left fun i hi => ?_
      rw [byteOf_readl mem src (List.mem_range.mp hi)]
    have hrest : bytesAt mem (dest + 4) (src + 4) (4 * n)
        = ((List.range (4 * n)).map (4 + ·)).map fun i =>
            (dest + BitVec.ofNat 32 i, mem (src + BitVec.ofNat 32 i)) := by
      rw [List.map_map]
      refine List.map_congr_left fun i _ => ?_
      show _ = (dest + BitVec.ofNat 32 (4 + i), mem (src + BitVec.ofNat 32 (4 + i)))
      rw [BitVec.ofNat_add, ← BitVec.add_assoc, ← BitVec.add_assoc]
      rfl
    rw [hstep]
    show (List.range 4).map _
      ++ (Outcome.mk ret (copyLoop mem (dest + 4) (src + 4) (4 * n))).storedBytes = _
    rw [ih, hword, hrest, show 4 * (n + 1) = 4 + 4 * n by omega]
    unfold bytesAt
    rw [List.range_add, List.map_append]

/-- Two places hold the same bytes exactly when the stores are the same. -/
theorem bytesAt_inj {mem : SharedMemory} {buf p q : U32} {len : Nat} :
    bytesAt mem buf p len = bytesAt mem buf q len ↔
      ∀ i < len, mem (p + BitVec.ofNat 32 i) = mem (q + BitVec.ofNat 32 i) := by
  unfold bytesAt
  rw [List.map_inj_left]
  constructor
  · intro h i hi
    exact (Prod.mk.inj (h i (List.mem_range.mpr hi))).2
  · intro h i hi
    rw [h i (List.mem_range.mp hi)]

/-! ### The readers -/

/-- The length of an aligned call is a multiple of four. -/
theorem dvd_of_aligned {len buf : U32} (h : ¬ misaligned len buf = true) : 4 ∣ len.toNat := by
  unfold misaligned at h
  simp only [Bool.or_eq_true, bne_iff_ne, not_or, not_not] at h
  have hand := congrArg BitVec.toNat h.1
  rw [BitVec.toNat_and] at hand
  have hmod : len.toNat &&& 3 = len.toNat % 4 := Nat.and_two_pow_sub_one_eq_mod len.toNat 2
  have hzero : len.toNat % 4 = 0 := hmod.symm.trans hand
  exact Nat.dvd_of_mod_eq_zero hzero

/-- An `int` that is not negative. -/
theorem toNat_lt_of_nonneg {x : U32} (h : 0 ≤ x.toInt) : x.toNat < 2 ^ 31 := by
  rw [BitVec.toInt_eq_toNat_cond] at h
  split at h
  · omega
  · omega

/-- A rounded length that is in the entry leaves room for the length. -/
theorem le_of_rounded {len size : U32} (hlen : 0 ≤ len.toInt)
    (h : ¬ size < (len + 7) &&& ~~~7#32) : len.toNat ≤ size.toNat := by
  have hround : ((len + 7) &&& ~~~7#32).toNat = 8 * ((len + 7).toNat / 8) :=
    BitMask.toNat_and_not_low (len + 7) 3
  have hsmall := toNat_lt_of_nonneg hlen
  have hadd : (len + 7).toNat = len.toNat + 7 := BitVec.toNat_add_of_lt (by
    show len.toNat + 7 < 2 ^ 32
    omega)
  rw [BitVec.not_lt, BitVec.le_def, hround, hadd] at h
  omega

namespace Request

/-- A call that is refused fails. -/
theorem run_refused {req : Request} {mem : SharedMemory} (h : req.Refused mem) :
    req.run mem = .failed := by
  obtain ⟨type, buf, len, offset, htype, hlen, hoffset⟩ := req
  unfold Refused at h
  dsimp only at h
  cases offset with
  | none =>
    show smemReadAllocEntry mem type buf len = _
    unfold smemReadAllocEntry
    rcases h with halign | halloc | ⟨-, hsize⟩
    · rw [if_pos halign]
    · rw [if_pos halloc, ite_self, ite_self]
    · rw [if_pos hsize, ite_self, ite_self, ite_self]
  | some offset =>
    show smemReadAllocEntryOffset mem type buf len offset = _
    unfold smemReadAllocEntryOffset
    rcases h with halign | halloc | ⟨hnone, -⟩
    · rw [if_pos halign]
    · rw [if_pos halloc, ite_self, ite_self]
    · cases hnone

/-- A call that is not refused copies what is behind `base`. -/
theorem run_accepted {req : Request} {mem : SharedMemory} (h : ¬ req.Refused mem) :
    req.run mem = ⟨0, copyLoop mem req.buf
      (smemGetBaseAddr + offsetOf mem req.type + req.start) req.len.toNat⟩ := by
  obtain ⟨type, buf, len, offset, htype, hlen, hoffset⟩ := req
  unfold Refused at h
  dsimp only at h
  rw [not_or, not_or, not_and] at h
  obtain ⟨halign, halloc, hsize⟩ := h
  have hvalid : ¬ invalidType type = true := by
    rw [htype]
    decide
  cases offset with
  | none =>
    show smemReadAllocEntry mem type buf len = ⟨0, copyLoop mem buf
      (smemGetBaseAddr + offsetOf mem type + 0#32) len.toNat⟩
    have hsmall := toNat_lt_of_nonneg hlen
    have hnat : len.toInt.toNat = len.toNat := by
      rw [BitVec.toInt_eq_toNat_of_lt (by omega)]
      exact Int.toNat_natCast _
    unfold smemReadAllocEntry
    rw [if_neg halign, if_neg hvalid, if_neg halloc, if_neg (hsize rfl), hnat, BitVec.add_zero]
  | some offset =>
    show smemReadAllocEntryOffset mem type buf len offset = _
    unfold smemReadAllocEntryOffset
    rw [if_neg halign, if_neg hvalid, if_neg halloc]
    rfl

/-- The pointer of an entry that is allocated. -/
theorem get_allocated {req : Request} {mem : SharedMemory} (h : allocated mem req.type ≠ 0) :
    smemGetAllocEntry mem req.type
      = some ((if baseExt mem req.type ≠ 0 then baseExt mem req.type else smemGetBaseAddr)
          + offsetOf mem req.type, sizeOf mem req.type) := by
  unfold smemGetAllocEntry
  rw [if_neg (by rw [req.typeValid]; decide), if_neg h]

/-- What is copied is what is found at the pointer exactly when the base is the same. -/
theorem sameBase_iff (req : Request) (mem : SharedMemory) :
    req.SameBase mem ↔
      bytesAt mem req.buf (smemGetBaseAddr + offsetOf mem req.type + req.start) req.len.toNat
        = bytesAt mem req.buf
          ((if baseExt mem req.type ≠ 0 then baseExt mem req.type else smemGetBaseAddr)
            + offsetOf mem req.type + req.start) req.len.toNat := by
  unfold SameBase
  by_cases hbase : baseExt mem req.type = 0
  · rw [if_neg (not_not.mpr hbase)]
    exact ⟨fun _ => rfl, fun _ => .inl hbase⟩
  · rw [if_pos hbase, bytesAt_inj]
    exact or_iff_right hbase

/-- A refused call is faithful. -/
theorem faithful_of_refused {req : Request} {mem : SharedMemory} (h : req.Refused mem) :
    req.Faithful mem := by
  have hrun := run_refused h
  constructor
  · intro hret
    rw [hrun] at hret
    exact absurd hret (by decide)
  · intro ptr size _ _
    rw [hrun]
    exact ⟨by decide, rfl⟩

/-- A call that is not refused is faithful exactly when it fits and the base is the same. -/
theorem faithful_accepted_iff {req : Request} {mem : SharedMemory} (h : ¬ req.Refused mem) :
    req.Faithful mem ↔ req.Fits mem ∧ req.SameBase mem := by
  have hrun := run_accepted h
  have halign : ¬ misaligned req.len req.buf = true := fun heq => h (.inl heq)
  have hget := get_allocated fun heq => h (.inr (.inl heq))
  obtain ⟨n, hn⟩ := dvd_of_aligned halign
  have hbytes : (req.run mem).storedBytes = bytesAt mem req.buf
      (smemGetBaseAddr + offsetOf mem req.type + req.start) req.len.toNat := by
    rw [hrun, hn]
    exact copyLoop_bytes mem 0 _ _ n
  rw [sameBase_iff]
  constructor
  · intro hfaithful
    obtain ⟨ptr, size, hptr, hstored, hfits⟩ := hfaithful.stored (by rw [hrun])
    rw [hget] at hptr
    cases hptr
    exact ⟨hfits, hbytes.symm.trans hstored⟩
  · intro ⟨hfits, hsame⟩
    constructor
    · intro _
      exact ⟨_, _, hget, hbytes.trans hsame, hfits⟩
    · intro ptr size hptr hlt
      rw [hget] at hptr
      cases hptr
      exact absurd hfits (Nat.not_le.mpr hlt)

/-- **The readers.**  A reader stores what is found at the pointer of `smem_get_alloc_entry`, inside
    the entry, or fails, exactly when the call is refused, or it fits and the entry has no base of
    its own, or one with the same bytes. -/
theorem reads_faithful_iff (req : Request) (mem : SharedMemory) :
    req.Faithful mem ↔ req.Refused mem ∨ (req.Fits mem ∧ req.SameBase mem) := by
  by_cases h : req.Refused mem
  · exact ⟨fun _ => .inl h, fun _ => faithful_of_refused h⟩
  · rw [faithful_accepted_iff h]
    exact ⟨.inr, fun hor => hor.resolve_left h⟩

/-- `smem_read_alloc_entry` looks at the size, so that only the base is left. -/
theorem fits_of_accepted {req : Request} {mem : SharedMemory} (h : ¬ req.Refused mem)
    (hwhole : req.offset = none) : req.Fits mem := by
  have hsize : ¬ sizeOf mem req.type < (req.len + 7) &&& ~~~7#32 :=
    fun hlt => h (.inr (.inr ⟨hwhole, hlt⟩))
  unfold Fits start
  rw [hwhole]
  show 0 + req.len.toNat ≤ _
  rw [Nat.zero_add]
  exact le_of_rounded req.lenNonneg hsize

/-- An entry of 8 bytes for the partition table, with the base `0x00200000` of its own, where the
    first byte is not 0. -/
def movedEntry : SharedMemory := fun a =>
  if a = 0x00100160 then 1          -- `allocated`
  else if a = 0x00100165 then 0x10  -- `offset` is 0x1000
  else if a = 0x00100168 then 8     -- `size`
  else if a = 0x0010016E then 0x20  -- `base_ext` is 0x00200000
  else if a = 0x00201000 then 0x55
  else 0

/-- The whole entry. -/
def wholeEntry : Request := ⟨9, 0x2E000000, 8, none, by decide, by decide, by decide⟩

/-- More than there is of it, as `smem_ptable_init` reads the header of the table. -/
def tableHeader : Request := ⟨9, 0x2E000000, 16, some 0, by decide, by decide, by decide⟩

/-- The first reader stores what is behind the wrong base, the second one what is not in the
    entry. -/
theorem movedEntry_unfaithful :
    ¬ wholeEntry.Faithful movedEntry ∧ ¬ tableHeader.Faithful movedEntry := by
  constructor
  · rw [faithful_accepted_iff (by unfold Refused; decide)]
    unfold Fits SameBase
    decide
  · rw [faithful_accepted_iff (by unfold Refused; decide)]
    unfold Fits SameBase
    decide

end Request

end HtcLeo.Smem

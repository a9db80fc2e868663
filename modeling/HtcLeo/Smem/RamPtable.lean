import HtcLeo.Lib.ArrayLoop
import HtcLeo.Lib.Memory
import HtcLeo.Uefi

namespace HtcLeo.Smem

/-!
# SmemPtableDxe — the RAM partition table

The RAM partition table of `Drivers/SmemPtableDxe/smem_ptable.c`, which is copied from shared
memory into `ptable` entry by entry, as many as its own `len` says.

* `RamPtable` — `ptable`, without the fields that nothing reads.
* `smemRamPtableInitV1`, `smemCopyRamPtable` — the copy; `getDdrStart` — the search in it.  The
  indices that they use are recorded.
* `inBounds_iff` — they are indices of the table exactly when `len` is, or the search ends before.
-/

/-! ### The tables -/

/-- What the code uses of `ram_partition`. -/
structure RamPartition where
  start : BitVec 64
  size : BitVec 64
  attr : U32
  category : U32
  domain : U32
  type : U32
  numPartitions : U32
  deriving DecidableEq, Repr

/-- `struct smem_ram_ptable_hdr`. -/
structure RamPtableHdr where
  magic0 : U32
  magic1 : U32
  version : U32
  reserved1 : U32
  len : U32
  deriving DecidableEq, Repr

/-- `ptable`, with its `RAM_NUM_PART_ENTRIES` entries. -/
structure RamPtable where
  hdr : RamPtableHdr
  parts : Vector RamPartition 32
  deriving DecidableEq

/-- A 64-bit number in memory. -/
def load64 (m : Memory) (a : Nat) : BitVec 64 := m.load32 (a + 4) ++ m.load32 a

section

variable (buf : Memory)

/-- `*(struct smem_ram_ptable_hdr *)buf`. -/
def ramPtableHdr : RamPtableHdr where
  magic0 := buf.load32 0
  magic1 := buf.load32 4
  version := buf.load32 8
  reserved1 := buf.load32 12
  len := buf.load32 16

/-- The numbers behind `start` and `size` of an entry: `attr` … `num_partitions`. -/
def ramPartitionAt (start size : BitVec 64) (a : Nat) : RamPartition where
  start := start
  size := size
  attr := buf.load32 a
  category := buf.load32 (a + 4)
  domain := buf.load32 (a + 8)
  type := buf.load32 (a + 12)
  numPartitions := buf.load32 (a + 16)

/-- `table_v0->parts[i]`: entries of 56 bytes behind a header of 20, a name of 16 bytes in each. -/
def partV0 (i : Nat) : RamPartition :=
  let a := 20 + 56 * i + 16
  ramPartitionAt buf ((buf.load32 a).setWidth 64) ((buf.load32 (a + 4)).setWidth 64) (a + 8)

/-- `table_v1->parts[i]`: entries of 64 bytes behind a header of 24. -/
def partV1 (i : Nat) : RamPartition :=
  let a := 24 + 64 * i + 16
  ramPartitionAt buf (load64 buf a) (load64 buf (a + 8)) (a + 16)

/-- `table_v2->parts[i]`: entries of 72 bytes. -/
def partV2 (i : Nat) : RamPartition :=
  let a := 24 + 72 * i + 16
  ramPartitionAt buf (load64 buf a) (load64 buf (a + 8)) (a + 16)

/-! ### The functions -/

/-- The member to member copy: `len` entries. -/
def copyParts (part : Nat → RamPartition) (len : U32) (parts : Vector RamPartition 32) :
    LoopRun (Vector RamPartition 32) Unit :=
  let body : Fin 32 → Vector RamPartition 32 → Unit ⊕ Vector RamPartition 32 :=
    fun pentry parts => .inr (parts.set pentry (part pentry))
  arrayLoop body len.toNat 0 parts

/-- `smem_copy_ram_ptable`, and the indices that it uses in both tables; a table of an unknown
    version fails an assertion. -/
def smemCopyRamPtable (ptable : RamPtable) : Option (RamPtable × List Nat) :=
  let hdr := ramPtableHdr buf
  if hdr.version = 2 then
    -- `memcpy`
    some (⟨hdr, Vector.ofFn fun i => partV2 buf i⟩, [])
  else if hdr.version = 1 then
    let run := copyParts (partV1 buf) hdr.len ptable.parts
    some (⟨hdr, run.state⟩, run.visited)
  else if hdr.version = 0 then
    let run := copyParts (partV0 buf) hdr.len ptable.parts
    some (⟨hdr, run.state⟩, run.visited)
  else none

end

/-- The size of a table of the version. -/
def smemRamPtableSize (version : U32) : Option Nat :=
  if version = 2 then some (24 + 72 * 32)
  else if version = 1 then some (24 + 64 * 32)
  else if version = 0 then some (20 + 56 * 32 + 4)
  else none

/-- `_SMEM_RAM_PTABLE_MAGIC_1`. -/
def smemRamPtableMagic1 : U32 := 0x9DA5E0A8
/-- `_SMEM_RAM_PTABLE_MAGIC_2`. -/
def smemRamPtableMagic2 : U32 := 0xAF9EC4E2

/-- `smem_ram_ptable_init_v1`, for what its two reads return and the entry in shared memory:
    its result, `ptable`, and the indices used. -/
def smemRamPtableInitV1 (ret i : U32) (entry : Memory) (ptable : RamPtable) :
    Option (U32 × RamPtable × List Nat) :=
  if ret ≠ 0 then some (0, ptable, [])
  else do
    let size ← smemRamPtableSize (entry.load32 8)
    if i ≠ 0 then return (0, ptable, [])
    let buffer := Memory.blit 0 size entry fun _ => 0
    let hdr := ramPtableHdr buffer
    if hdr.magic0 ≠ smemRamPtableMagic1 ∨ hdr.magic1 ≠ smemRamPtableMagic2 then
      return (0, ptable, [])
    let (ptable, visited) ← smemCopyRamPtable buffer ptable
    return (1, ptable, visited)

/-- `SYS_MEMORY`. -/
def sysMemory : U32 := 1
/-- `SDRAM`. -/
def sdram : U32 := 0xE
/-- `IMEM`. -/
def imem : U32 := 5

/-- The entry that the search ends at. -/
def RamPartition.IsDdr (p : RamPartition) : Prop :=
  p.type = sysMemory ∧ (p.category = sdram ∨ p.category = imem)

instance (p : RamPartition) : Decidable p.IsDdr := inferInstanceAs (Decidable (_ ∧ _))

/-- `get_ddr_start`, and the indices that it uses. -/
def getDdrStart (ptable : RamPtable) : U32 × List Nat :=
  let body : Fin 32 → Unit → U32 ⊕ Unit := fun i _ =>
    let ptnEntry := ptable.parts[i]
    if ptnEntry.IsDdr then .inl (ptnEntry.start.setWidth 32) else .inr ()
  let run := arrayLoop body ptable.hdr.len.toNat 0 ()
  (run.result.getD 0, run.visited)

/-! ### Indices -/

/-- The entry in shared memory passes the checks of the magic numbers and of the version. -/
structure Checked (entry : Memory) : Prop where
  magic0 : (ramPtableHdr entry).magic0 = smemRamPtableMagic1
  magic1 : (ramPtableHdr entry).magic1 = smemRamPtableMagic2
  version : (ramPtableHdr entry).version = 0 ∨ (ramPtableHdr entry).version = 1 ∨
    (ramPtableHdr entry).version = 2

/-- The indices that are used when the table is copied, and when it is searched then. -/
def usedIndices (entry : Memory) (ptable : RamPtable) : List Nat :=
  match smemRamPtableInitV1 0 0 entry ptable with
  | some (_, ptable, visited) => visited ++ (getDdrStart ptable).2
  | none => []

/-- Every index is one of the tables. -/
def InBounds (visited : List Nat) : Prop := ∀ k ∈ visited, k < 32

theorem copyParts_inBounds_iff (part : Nat → RamPartition) (len : U32)
    (parts : Vector RamPartition 32) :
    InBounds (copyParts part len parts).visited ↔ len.toNat ≤ 32 := by
  have hstop : ∀ (k : Fin 32) (parts : Vector RamPartition 32),
      (Sum.inr (parts.set k (part k)) : Unit ⊕ _).isLeft = true ↔ False := fun _ _ => by simp
  refine (visited_lt_iff hstop len.toNat (Nat.zero_le 32) parts).trans ?_
  simp

theorem getDdrStart_inBounds_iff (ptable : RamPtable) :
    InBounds (getDdrStart ptable).2 ↔
      ptable.hdr.len.toNat ≤ 32 ∨ ∃ i : Fin 32, ptable.parts[i].IsDdr := by
  let body : Fin 32 → Unit → U32 ⊕ Unit := fun i _ =>
    if ptable.parts[i].IsDdr then .inl (ptable.parts[i].start.setWidth 32) else .inr ()
  have hstop : ∀ (i : Fin 32) (s : Unit), (body i s).isLeft = true ↔ ptable.parts[i].IsDdr := by
    intro i s
    show (if ptable.parts[i].IsDdr then _ else _ : U32 ⊕ Unit).isLeft = true ↔ _
    split
    · next h => exact iff_of_true rfl h
    · next h => exact iff_of_false Bool.false_ne_true h
  refine (visited_lt_iff hstop ptable.hdr.len.toNat (Nat.zero_le 32) ()).trans ?_
  simp

/-- What is read of the buffer is what is in shared memory. -/
theorem load32_buffer (entry : Memory) {size a : Nat} (h : a + 4 ≤ size) :
    (Memory.blit 0 size entry fun _ => 0).load32 a = entry.load32 a := by
  refine Memory.load32_congr fun i hi => ?_
  have hinside := Memory.blit_inside 0 entry (fun _ => 0) (by omega : a + i < size)
  rwa [Nat.zero_add] at hinside

theorem hdr_buffer (entry : Memory) {size : Nat} (h : 20 ≤ size) :
    ramPtableHdr (Memory.blit 0 size entry fun _ => 0) = ramPtableHdr entry := by
  unfold ramPtableHdr
  simp (disch := omega) only [load32_buffer]

theorem partV2_buffer (entry : Memory) {i : Nat} (h : i < 32) :
    partV2 (Memory.blit 0 (24 + 72 * 32) entry fun _ => 0) i = partV2 entry i := by
  unfold partV2 ramPartitionAt load64
  simp (disch := omega) only [load32_buffer]

theorem smemRamPtableSize_le {version : U32} {size : Nat}
    (hsize : smemRamPtableSize version = some size) : 20 ≤ size := by
  unfold smemRamPtableSize at hsize
  split_ifs at hsize <;> simp at hsize <;> omega

/-- Behind the checks, the table is copied. -/
theorem smemRamPtableInitV1_checked {entry : Memory} (h : Checked entry) {size : Nat}
    (hsize : smemRamPtableSize (ramPtableHdr entry).version = some size) (ptable : RamPtable) :
    smemRamPtableInitV1 0 0 entry ptable =
      (smemCopyRamPtable (Memory.blit 0 size entry fun _ => 0) ptable).map fun run =>
        (1, run.1, run.2) := by
  have hbuffer := hdr_buffer entry (smemRamPtableSize_le hsize)
  have hversion : entry.load32 8 = (ramPtableHdr entry).version := rfl
  have hmagic : ¬ ((ramPtableHdr entry).magic0 ≠ smemRamPtableMagic1 ∨
      (ramPtableHdr entry).magic1 ≠ smemRamPtableMagic2) :=
    not_or.mpr ⟨not_not.mpr h.magic0, not_not.mpr h.magic1⟩
  unfold smemRamPtableInitV1
  rw [if_neg (by decide), hversion, hsize]
  show (do
    let buffer := Memory.blit 0 size entry fun _ => 0
    let hdr := ramPtableHdr buffer
    if hdr.magic0 ≠ smemRamPtableMagic1 ∨ hdr.magic1 ≠ smemRamPtableMagic2 then
      return (0, ptable, [])
    let (ptable, visited) ← smemCopyRamPtable buffer ptable
    return (1, ptable, visited) : Option (U32 × RamPtable × List Nat)) = _
  dsimp only
  rw [hbuffer, if_neg hmagic]
  cases smemCopyRamPtable (Memory.blit 0 size entry fun _ => 0) ptable <;> rfl

/-- Two of the versions are copied entry by entry. -/
theorem smemCopyRamPtable_members {buf : Memory}
    (h : (ramPtableHdr buf).version = 0 ∨ (ramPtableHdr buf).version = 1) (ptable : RamPtable) :
    ∃ part, smemCopyRamPtable buf ptable =
      some (⟨ramPtableHdr buf, (copyParts part (ramPtableHdr buf).len ptable.parts).state⟩,
        (copyParts part (ramPtableHdr buf).len ptable.parts).visited) := by
  unfold smemCopyRamPtable
  dsimp only
  rcases h with hversion | hversion
  · rw [hversion, if_neg (by decide), if_neg (by decide), if_pos rfl]
    exact ⟨partV0 buf, rfl⟩
  · rw [hversion, if_neg (by decide), if_pos rfl]
    exact ⟨partV1 buf, rfl⟩

theorem smemCopyRamPtable_v2 {buf : Memory} (h : (ramPtableHdr buf).version = 2)
    (ptable : RamPtable) :
    smemCopyRamPtable buf ptable =
      some (⟨ramPtableHdr buf, Vector.ofFn fun i => partV2 buf i⟩, []) :=
  if_pos h

/-- **Bounds.**  Over every table that passes the checks, the copy and the search use indices of
    the tables only, exactly when `len` is 32 at most, or the table is of version 2 and one of its
    entries ends the search. -/
theorem inBounds_iff {entry : Memory} (h : Checked entry) (ptable : RamPtable) :
    InBounds (usedIndices entry ptable) ↔
      (ramPtableHdr entry).len.toNat ≤ 32 ∨
        ((ramPtableHdr entry).version = 2 ∧ ∃ i : Fin 32, (partV2 entry i).IsDdr) := by
  obtain ⟨size, hsize⟩ : ∃ size, smemRamPtableSize (ramPtableHdr entry).version = some size := by
    rcases h.version with hversion | hversion | hversion <;> rw [hversion] <;> exact ⟨_, rfl⟩
  have hbuffer := hdr_buffer entry (smemRamPtableSize_le hsize)
  unfold usedIndices
  rw [smemRamPtableInitV1_checked h hsize]
  by_cases hv2 : (ramPtableHdr entry).version = 2
  · obtain rfl : 24 + 72 * 32 = size := by
      rw [hv2] at hsize
      exact Option.some.inj hsize
    have hparts : (Vector.ofFn fun i : Fin 32 =>
        partV2 (Memory.blit 0 (24 + 72 * 32) entry fun _ => 0) i) =
        Vector.ofFn fun i : Fin 32 => partV2 entry i :=
      congrArg Vector.ofFn (funext fun i => partV2_buffer entry i.isLt)
    rw [smemCopyRamPtable_v2 (by rw [hbuffer, hv2]), hbuffer, hparts]
    show InBounds ([] ++ _) ↔ _
    rw [List.nil_append, getDdrStart_inBounds_iff, and_iff_right hv2]
    simp
  · have hversion : (ramPtableHdr entry).version = 0 ∨ (ramPtableHdr entry).version = 1 := by
      have hall := h.version
      tauto
    rw [← hbuffer] at hversion
    obtain ⟨part, hcopy⟩ := smemCopyRamPtable_members hversion ptable
    rw [hcopy, hbuffer]
    show InBounds (_ ++ _) ↔ _
    rw [InBounds, List.forall_mem_append]
    have hvisited := copyParts_inBounds_iff part (ramPtableHdr entry).len ptable.parts
    have hsearch := getDdrStart_inBounds_iff
      ⟨ramPtableHdr entry, (copyParts part (ramPtableHdr entry).len ptable.parts).state⟩
    unfold InBounds at hvisited hsearch
    rw [hvisited, hsearch]
    simp only [hv2, false_and, or_false]
    exact and_iff_left_of_imp Or.inl

/-- A table of a version, with a length, and no more than a header. -/
def headerOnly (version len : U32) : Memory :=
  Memory.storeWords 0 [smemRamPtableMagic1, smemRamPtableMagic2, version, 0, len] fun _ => 0

/-- `ptable` before the first call. -/
def ptableStart : RamPtable := ⟨⟨0, 0, 0, 0, 0⟩, Vector.replicate 32 ⟨0, 0, 0, 0, 0, 0, 0⟩⟩

theorem headerOnly_inBounds :
    InBounds (usedIndices (headerOnly 1 2) ptableStart) ↔
      (ramPtableHdr (headerOnly 1 2)).len.toNat ≤ 32 ∨
        ((ramPtableHdr (headerOnly 1 2)).version = 2 ∧
          ∃ i : Fin 32, (partV2 (headerOnly 1 2) i).IsDdr) :=
  inBounds_iff ⟨by decide, by decide, by decide⟩ ptableStart

/-- The index 32 is used for a table of version 1 with 33 entries. -/
theorem entry_outside_used : ¬ InBounds (usedIndices (headerOnly 1 33) ptableStart) := by
  intro h
  have hlast := h 32 (by decide +kernel)
  exact Nat.lt_irrefl 32 hlast

end HtcLeo.Smem

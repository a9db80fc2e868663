import HtcLeo.Boot.AndroidKernel

namespace HtcLeo.Boot

open Atags

/-!
# Where a kernel, its ramdisk and its tags lie

The fixed load addresses leave room for a kernel below the ramdisk, and the tags below the kernel.
Nothing in `BootAndroidKernel` looks at the sizes, nor at whether the ramdisk has been loaded.

* `Consistent` — what `BootLinux` should be given.
* `Fits` — the sizes for which there is room, and what happens to be in the variable for the size
  of a ramdisk that is not loaded.
* `layout_iff` — the two are the same.
* `layout_intact` — with a consistent layout the kernel finds its tags, and itself and its ramdisk
  as they are in the files.
-/

namespace Start

variable (b : Start)

/-- The kernel in memory. -/
def kernelRegion : Region 32 := ⟨b.kernelLoadAddress, b.kernelFile.loadedBytes b.kernelLoadAddress⟩

/-- The ramdisk in memory. -/
def ramdiskRegion : Region 32 :=
  ⟨b.ramdiskLoadAddress, b.ramdiskFile.loadedBytes b.ramdiskLoadAddress⟩

/-- What the load of the ramdisk has written to, even if it has failed then. -/
def ramdiskWritten : Region 32 :=
  ⟨b.ramdiskLoadAddress, b.ramdiskFile.bytesRead b.ramdiskLoadAddress⟩

/-- A ramdisk that is not empty is in memory, all of it. -/
def RamdiskInMemory : Prop :=
  b.RamdiskLoaded ∧ b.ramdiskFile.fileSize ≠ 0 ∧
    b.ramdiskRegion.bytes = b.ramdiskFile.fileSize.toNat

end Start

/-- The tags that `BootLinux` stores for its arguments; the command line is empty. -/
def LinuxArgs.bootTags (args : LinuxArgs) : List Tag :=
  Atags.bootTags [] args.ramdisk args.ramdiskSize

/-- Where it stores them. -/
def LinuxArgs.tagRegion (args : LinuxArgs) : Region 32 := ⟨args.tags, span args.bootTags⟩

/-- **A consistent layout:** `BootLinux` is given the ramdisk that has been loaded, or a size of 0
    if none has.  There is a tag for it exactly if it is in memory and not empty, and the tag is
    right.  The tags, the kernel and the ramdisk are apart, and loading the ramdisk has not
    overwritten the kernel. -/
structure Consistent (b : Start) (args : LinuxArgs) : Prop where
  given : (b.RamdiskLoaded ∧ args.ramdisk = b.ramdiskRegion.start ∧
      args.ramdiskSize.toNat = b.ramdiskRegion.bytes) ∨
    (¬ b.RamdiskLoaded ∧ args.ramdiskSize = 0)
  emitted : (∃ start size, .initrd2 start size ∈ args.bootTags) ↔ b.RamdiskInMemory
  named : ∀ start size, .initrd2 start size ∈ args.bootTags →
    start = b.ramdiskRegion.start ∧ size.toNat = b.ramdiskRegion.bytes
  kernelTags : b.kernelRegion.Apart args.tagRegion
  ramdiskTags : b.ramdiskRegion.Apart args.tagRegion
  kernelRamdisk : b.kernelRegion.Apart b.ramdiskRegion
  overwritten : b.kernelRegion.Apart b.ramdiskWritten

/-- The sizes fit the load addresses.  A ramdisk that has been loaded has fewer than `2 ^ 32` bytes
    or, as a `UINTN`, none; for one that has not been, there happens to be 0 in the variable for
    its size.  The kernel does not go round the address space to the tags, nor does the ramdisk; and
    if both have bytes, the kernel ends below the ramdisk, and the ramdisk does not go round to the
    kernel. -/
structure Fits (b : Start) : Prop where
  ramdisk : if b.RamdiskLoaded then
      b.ramdiskRegion.bytes = 0 ∨ b.ramdiskFile.fileSize.toNat < 2 ^ 32
    else b.ramdiskSize = 0
  kernelTags : b.kernelRegion.bytes ≤ 2 ^ 32 - 0x7F00
  ramdiskTags : b.ramdiskRegion.bytes ≤ 2 ^ 32 - 0xFFFF00
  kernelRamdisk : b.kernelRegion.bytes = 0 ∨ b.ramdiskWritten.bytes = 0 ∨
    (b.kernelRegion.bytes ≤ 0xFF8000 ∧ b.ramdiskWritten.bytes ≤ 2 ^ 32 - 0xFF8000)

/-! ### The tag of the ramdisk -/

/-- There is a tag for a ramdisk of a size other than 0, and it is the one for the ramdisk. -/
theorem initrd2_mem_iff (args : LinuxArgs) (start size : U32) :
    .initrd2 start size ∈ args.bootTags ↔
      args.ramdiskSize ≠ 0 ∧ start = args.ramdisk ∧ size = args.ramdiskSize := by
  unfold LinuxArgs.bootTags Atags.bootTags linkedTags fixedTags Atags.ramdiskTags cmdlineTags
  by_cases hzero : args.ramdiskSize = 0
  · simp [hzero]
  · simp

/-- The tags take some bytes, and end below the kernel. -/
theorem tagRegion_bytes (args : LinuxArgs) :
    0 < args.tagRegion.bytes ∧ args.tagRegion.bytes ≤ 48 := by
  have hbytes : args.tagRegion.bytes =
      32 + span (Atags.ramdiskTags args.ramdisk args.ramdiskSize) := by
    unfold LinuxArgs.tagRegion LinuxArgs.bootTags Atags.bootTags linkedTags fixedTags cmdlineTags
    simp only [span_append, span_cons, span_nil, if_true, Tag.span, Tag.size]
    omega
  rw [hbytes]
  unfold Atags.ramdiskTags
  split
  · exact ⟨Nat.lt_add_right _ (by decide), Nat.le_refl 48⟩
  · exact ⟨by decide, by decide⟩

/-! ### When the regions are apart -/

namespace Start

variable (b : Start)

/-- From one place to another, both given by their offsets. -/
theorem toNat_between (c d : U32) : (b.base + c - (b.base + d)).toNat = (c - d).toNat :=
  congrArg BitVec.toNat (add_sub_add_left_eq_sub c d b.base)

variable (args : LinuxArgs) (htags : args.tags = b.atagsAddress)
include htags

/-- The kernel and the tags. -/
theorem kernel_apart_tags_iff :
    b.kernelRegion.Apart args.tagRegion ↔ b.kernelRegion.bytes ≤ 2 ^ 32 - 0x7F00 := by
  obtain ⟨hpos, hle⟩ := tagRegion_bytes args
  have hthere : (args.tagRegion.start - b.kernelRegion.start).toNat = 2 ^ 32 - 0x7F00 := by
    rw [LinuxArgs.tagRegion, htags]
    exact b.toNat_between tagsOffset kernelOffset
  have hback : (b.kernelRegion.start - args.tagRegion.start).toNat = 0x7F00 := by
    rw [LinuxArgs.tagRegion, htags]
    exact b.toNat_between kernelOffset tagsOffset
  rw [Region.apart_iff, hthere, hback]
  omega

/-- The ramdisk and the tags. -/
theorem ramdisk_apart_tags_iff :
    b.ramdiskRegion.Apart args.tagRegion ↔ b.ramdiskRegion.bytes ≤ 2 ^ 32 - 0xFFFF00 := by
  obtain ⟨hpos, hle⟩ := tagRegion_bytes args
  have hthere : (args.tagRegion.start - b.ramdiskRegion.start).toNat = 2 ^ 32 - 0xFFFF00 := by
    rw [LinuxArgs.tagRegion, htags]
    exact b.toNat_between tagsOffset ramdiskOffset
  have hback : (b.ramdiskRegion.start - args.tagRegion.start).toNat = 0xFFFF00 := by
    rw [LinuxArgs.tagRegion, htags]
    exact b.toNat_between ramdiskOffset tagsOffset
  rw [Region.apart_iff, hthere, hback]
  omega

omit htags

/-- The kernel and what the load of the ramdisk has written to. -/
theorem kernel_apart_written_iff :
    b.kernelRegion.Apart b.ramdiskWritten ↔
      b.kernelRegion.bytes = 0 ∨ b.ramdiskWritten.bytes = 0 ∨
        (b.kernelRegion.bytes ≤ 0xFF8000 ∧ b.ramdiskWritten.bytes ≤ 2 ^ 32 - 0xFF8000) := by
  have hthere : (b.ramdiskWritten.start - b.kernelRegion.start).toNat = 0xFF8000 :=
    b.toNat_between ramdiskOffset kernelOffset
  have hback : (b.kernelRegion.start - b.ramdiskWritten.start).toNat = 2 ^ 32 - 0xFF8000 :=
    b.toNat_between kernelOffset ramdiskOffset
  rw [Region.apart_iff, hthere, hback]

/-- A ramdisk in memory is where its load has written to. -/
theorem ramdisk_written {x : U32} (h : b.ramdiskRegion.Has x) : b.ramdiskWritten.Has x := by
  by_cases hloaded : b.RamdiskLoaded
  · have hbytes : b.ramdiskWritten.bytes = b.ramdiskRegion.bytes := hloaded.bytesRead_eq
    have hlt : (x - b.ramdiskLoadAddress).toNat < b.ramdiskRegion.bytes := h
    rw [← hbytes] at hlt
    exact hlt
  · have hzero : b.ramdiskRegion.bytes = 0 := if_neg hloaded
    unfold Region.Has at h
    omega

/-! ### The ramdisk that `BootLinux` is given -/

/-- Once loaded, its address and the bytes of it in memory. -/
theorem linuxArgs_loaded (h : b.RamdiskLoaded) :
    b.linuxArgs.ramdisk = b.ramdiskRegion.start ∧
      b.linuxArgs.ramdiskSize.toNat = b.ramdiskRegion.bytes := by
  have hsize : b.linuxArgs.ramdiskSize = (b.ramdiskFile.read b.ramdiskFile.bufferSize).2 := if_pos h
  have hbytes : b.ramdiskRegion.bytes = b.ramdiskFile.fileSize.toNat % 2 ^ 32 := h.loadedBytes_eq
  refine ⟨if_pos h, ?_⟩
  rw [hsize, hbytes]
  exact FileAnswers.Loaded.read_eq h

/-- Otherwise what was in the variable. -/
theorem linuxArgs_notLoaded (h : ¬ b.RamdiskLoaded) : b.linuxArgs.ramdiskSize = b.ramdiskSize :=
  if_neg h

/-- A ramdisk whose size is a word is loaded to its last byte. -/
theorem inMemory_iff (h : b.RamdiskLoaded) :
    b.RamdiskInMemory ↔ b.ramdiskRegion.bytes ≠ 0 ∧ b.ramdiskFile.fileSize.toNat < 2 ^ 32 := by
  have hbytes : b.ramdiskRegion.bytes = b.ramdiskFile.fileSize.toNat % 2 ^ 32 := h.loadedBytes_eq
  have hzero : b.ramdiskFile.fileSize = 0 ↔ b.ramdiskFile.fileSize.toNat = 0 :=
    BitVec.toNat_eq.trans (by rfl)
  unfold RamdiskInMemory
  rw [hbytes, ne_eq, hzero]
  constructor
  · intro hmem
    omega
  · intro hmem
    exact ⟨h, by omega⟩

end Start

/-! ### When the layout is consistent -/

/-- There is a tag for a size other than 0. -/
theorem emitted_iff (args : LinuxArgs) :
    (∃ start size, .initrd2 start size ∈ args.bootTags) ↔ args.ramdiskSize.toNat ≠ 0 := by
  have hzero : args.ramdiskSize ≠ 0 ↔ args.ramdiskSize.toNat ≠ 0 :=
    not_congr (BitVec.toNat_eq.trans (by rfl))
  simp only [initrd2_mem_iff]
  rw [← hzero]
  constructor
  · intro h
    obtain ⟨_, _, hne, _⟩ := h
    exact hne
  · intro hne
    exact ⟨_, _, hne, rfl, rfl⟩

/-- **The layout is consistent** exactly when the sizes fit, and there is a ramdisk or there
    happens to be a size of 0. -/
theorem layout_iff {b : Start} {args : LinuxArgs} (h : bootAndroidKernel b = .linux args) :
    Consistent b args ↔ Fits b := by
  obtain ⟨_, rfl⟩ := bootAndroidKernel_linux_iff.mp h
  have hkernel := b.kernel_apart_tags_iff b.linuxArgs rfl
  have hramdisk := b.ramdisk_apart_tags_iff b.linuxArgs rfl
  have hemitted := emitted_iff b.linuxArgs
  constructor
  · intro hcons
    refine ⟨?_, hkernel.mp hcons.kernelTags, hramdisk.mp hcons.ramdiskTags,
      b.kernel_apart_written_iff.mp hcons.overwritten⟩
    by_cases hloaded : b.RamdiskLoaded
    · -- a tag is there only for all of the file
      have hsize := (b.linuxArgs_loaded hloaded).2
      have hmem := hemitted.symm.trans hcons.emitted
      rw [b.inMemory_iff hloaded, hsize] at hmem
      rw [if_pos hloaded]
      by_cases hbytes : b.ramdiskRegion.bytes = 0
      · exact Or.inl hbytes
      · exact Or.inr (hmem.mp hbytes).2
    · rw [if_neg hloaded]
      rcases hcons.given with hgiven | hgiven
      · exact absurd hgiven.1 hloaded
      · rw [← b.linuxArgs_notLoaded hloaded]
        exact hgiven.2
  · intro hfits
    have hfile := hfits.ramdisk
    have hwritten := b.kernel_apart_written_iff.mpr hfits.kernelRamdisk
    have happart : b.kernelRegion.Apart b.ramdiskRegion :=
      fun x hx hr => hwritten x hx (b.ramdisk_written hr)
    by_cases hloaded : b.RamdiskLoaded
    · obtain ⟨hstart, hsize⟩ := b.linuxArgs_loaded hloaded
      rw [if_pos hloaded] at hfile
      refine ⟨Or.inl ⟨hloaded, hstart, hsize⟩, ?_, fun start size hmem => ?_,
        hkernel.mpr hfits.kernelTags, hramdisk.mpr hfits.ramdiskTags, happart, hwritten⟩
      · rw [hemitted, b.inMemory_iff hloaded, hsize]
        constructor
        · intro hbytes
          exact ⟨hbytes, hfile.resolve_left hbytes⟩
        · intro hmem
          exact hmem.1
      · obtain ⟨_, rfl, rfl⟩ := (initrd2_mem_iff b.linuxArgs start size).mp hmem
        exact ⟨hstart, hsize⟩
    · -- no tag at all
      rw [if_neg hloaded, ← b.linuxArgs_notLoaded hloaded] at hfile
      refine ⟨Or.inr ⟨hloaded, hfile⟩, ?_, fun start size hmem => ?_,
        hkernel.mpr hfits.kernelTags, hramdisk.mpr hfits.ramdiskTags, happart, hwritten⟩
      · rw [hemitted, hfile]
        constructor
        · intro hne
          exact absurd rfl hne
        · intro hmem
          exact absurd hmem.1 hloaded
      · exact absurd hfile ((initrd2_mem_iff b.linuxArgs start size).mp hmem).1

/-! ### What the kernel finds -/

/-- The bytes that the tags do not take lie below or above them. -/
theorem below_or_above_tags {args : LinuxArgs} {x : U32} (h : ¬ args.tagRegion.Has x) :
    x.toNat < args.tags.toNat ∨ args.tags.toNat + span args.bootTags ≤ x.toNat := by
  have hle := (tagRegion_bytes args).2
  by_contra hinside
  have hsub : (x - args.tags).toNat = x.toNat - args.tags.toNat :=
    BitVec.toNat_sub_of_le (BitVec.le_def.mpr (by omega))
  have hlt : (x - args.tags).toNat < span args.bootTags := by omega
  exact h hlt

/-- The copy of the command line is one byte. -/
theorem linuxArgs_mem {b : Start} {x : U32} (hx : x ≠ b.allocatedCmdline) :
    b.linuxArgs.mem x = b.filesMem x := by
  show (Region.mk b.allocatedCmdline 1).fill (fun _ => 0) b.filesMem x = b.filesMem x
  refine Region.fill_outside _ _ fun hhas => ?_
  have hlt : (x - b.allocatedCmdline).toNat < 1 := hhas
  have hzero : x - b.allocatedCmdline = 0 := BitVec.eq_of_toNat_eq (by
    rw [BitVec.ofNat_eq_ofNat, BitVec.toNat_zero]
    omega)
  exact hx (sub_eq_zero.mp hzero)

/-- **What the kernel finds,** if the layout is consistent and the command line has been copied
    elsewhere: its tags, and itself and its ramdisk as they are in the files. -/
theorem layout_intact {b : Start} {args : LinuxArgs} (h : bootAndroidKernel b = .linux args)
    (hcons : Consistent b args)
    (hkernel : ¬ b.kernelRegion.Has args.cmdline) (hramdisk : ¬ b.ramdiskRegion.Has args.cmdline)
    (htags : ¬ args.tagRegion.Has args.cmdline) {fuel : Nat} (hfuel : 0 < fuel) :
    ∃ m, bootLinux fuel args.tags.toNat args.cmdline.toNat args.ramdisk args.ramdiskSize
        (wrapped args.mem) = (some (), m) ∧
      HoldsTags m args.tags.toNat args.bootTags ∧
      (∀ i < b.kernelRegion.bytes,
        m (b.kernelRegion.start + BitVec.ofNat 32 i).toNat = b.kernelFile.contents i) ∧
      (∀ i < b.ramdiskRegion.bytes,
        m (b.ramdiskRegion.start + BitVec.ofNat 32 i).toNat = b.ramdiskFile.contents i) := by
  obtain ⟨_, rfl⟩ := bootAndroidKernel_linux_iff.mp h
  have hmem : ∀ x, wrapped b.linuxArgs.mem x.toNat = b.linuxArgs.mem x := by
    intro x
    rw [wrapped, BitVec.ofNat_toNat, BitVec.setWidth_eq]
  -- the command line is the empty string
  have hnul : b.linuxArgs.mem b.allocatedCmdline = 0 := by
    have hhas : (Region.mk b.allocatedCmdline 1).Has b.allocatedCmdline :=
      Region.has_start (r := ⟨b.allocatedCmdline, 1⟩) Nat.one_ne_zero
    exact if_pos hhas
  have hpassed : PassedAs (wrapped b.linuxArgs.mem) b.linuxArgs.cmdline.toNat [] := by
    unfold PassedAs
    split
    · rfl
    · refine ⟨by simp, fun i hi => ?_⟩
      obtain rfl : i = 0 := by simpa using hi
      rw [Nat.add_zero, hmem]
      exact hnul
  have happart : Apart b.linuxArgs.cmdline.toNat [] b.linuxArgs.tags.toNat
      (b.linuxArgs.tags.toNat + span b.linuxArgs.bootTags) :=
    Or.inr (below_or_above_tags htags)
  obtain ⟨m, hrun, hholds, hframe⟩ := bootLinux_spec hpassed (by decide) happart hfuel
  -- storing the tags leaves what lies apart from them
  have hkeep : ∀ x, ¬ b.linuxArgs.tagRegion.Has x → m x.toNat = b.linuxArgs.mem x := by
    intro x hx
    exact (hframe x.toNat (below_or_above_tags hx)).trans (hmem x)
  refine ⟨m, hrun, hholds, fun i hi => ?_, fun i hi => ?_⟩
  · have hlt := b.kernelFile.loadedBytes_lt b.kernelLoadAddress
    have hhas := Region.has_add hi (Nat.lt_trans hi hlt)
    have hne : b.kernelRegion.start + BitVec.ofNat 32 i ≠ b.allocatedCmdline := by
      intro heq
      rw [heq] at hhas
      exact hkernel hhas
    rw [hkeep _ (hcons.kernelTags _ hhas), linuxArgs_mem hne]
    have hnot : ¬ b.ramdiskWritten.Has _ := hcons.overwritten _ hhas
    exact (Region.fill_outside _ _ hnot).trans (loadedMem_at b.mem hi)
  · have hlt := b.ramdiskFile.loadedBytes_lt b.ramdiskLoadAddress
    have hhas := Region.has_add hi (Nat.lt_trans hi hlt)
    have hne : b.ramdiskRegion.start + BitVec.ofNat 32 i ≠ b.allocatedCmdline := by
      intro heq
      rw [heq] at hhas
      exact hramdisk hhas
    rw [hkeep _ (hcons.ramdiskTags _ hhas), linuxArgs_mem hne]
    exact loadedMem_at b.kernelMem hi

/-! ### A kernel with and without a ramdisk -/

/-- A file on a card that works. -/
def cardFile (fileSize : BitVec 64) (contents : Nat → Byte) : FileAnswers where
  locateHandleBuffer := .success
  handleProtocol := .success
  openVolume := .success
  openFile := .success
  getInfoSize := .bufferTooSmall
  allocatePool := true
  getInfo := .success
  fileSize := fileSize
  contents := contents
  read := fun n => (.success, BitVec.ofNat 32 (min n.toNat fileSize.toNat))
  read_le := by
    intro n
    rw [BitVec.le_def, BitVec.toNat_ofNat]
    exact Nat.le_trans (Nat.mod_le _ _) (Nat.min_le_left _ _)
  read_all := by
    intro n _
    have hlt := n.isLt
    rw [BitVec.toNat_ofNat, Nat.mod_eq_of_lt (by omega)]

/-- A file that is not on the card. -/
def noFile : FileAnswers := { cardFile 0 fun _ => 0 with openFile := .notFound }

/-- A kernel of 64 bytes, with the magic of Linux. -/
def smallKernel : FileAnswers :=
  cardFile 64 fun i =>
    if 36 ≤ i ∧ i < 40 then Memory.byteOf linuxArmZimageMagic (i - 36) else 0

/-- Booting that kernel on the HTC Leo. -/
def smallStart (ramdiskFile : FileAnswers) (ramdiskSize : U32) : Start where
  base := 0x11800000
  machType := 0x9DC
  mem := fun _ => 0
  kernelFile := smallKernel
  ramdiskFile := ramdiskFile
  kernelBuffer := 0
  kernelSize := 0
  ramdiskBuffer := 0
  ramdiskSize := ramdiskSize
  allocatePool := .success
  allocatedCmdline := 0x2F000000

theorem smallKernel_loaded : smallKernel.Loaded 0x11808000 := by decide

theorem smallStart_kernelLoadAddress (ramdiskFile : FileAnswers) (ramdiskSize : U32) :
    (smallStart ramdiskFile ramdiskSize).kernelLoadAddress = 0x11808000 := by
  show (0x11800000 : U32) + kernelOffset = 0x11808000
  decide

/-- It enters `BootLinux`, whatever becomes of the ramdisk. -/
theorem smallStart_linux (ramdiskFile : FileAnswers) (ramdiskSize : U32) :
    bootAndroidKernel (smallStart ramdiskFile ramdiskSize)
      = .linux (smallStart ramdiskFile ramdiskSize).linuxArgs := by
  have haddr := smallStart_kernelLoadAddress ramdiskFile ramdiskSize
  have hloaded : (smallStart ramdiskFile ramdiskSize).KernelLoaded := by
    rw [Start.KernelLoaded, haddr]
    exact smallKernel_loaded
  have hmem : (smallStart ramdiskFile ramdiskSize).kernelMem
      = loadedMem smallKernel 0x11808000 fun _ => 0 := by
    rw [Start.kernelMem, haddr]
    rfl
  refine bootAndroidKernel_linux_iff.mpr ⟨⟨?_, ?_, rfl⟩, rfl⟩
  · exact congrArg Prod.fst (loadFileFromSDCard_loaded hloaded _)
  · rw [hmem, Start.kernelAt, if_pos hloaded, haddr]
    decide +kernel

/-- With a ramdisk of 16 bytes the layout is consistent. -/
theorem layout_iff_small :
    Consistent (smallStart (cardFile 16 fun _ => 0) 0)
      (smallStart (cardFile 16 fun _ => 0) 0).linuxArgs := by
  have hloaded : (smallStart (cardFile 16 fun _ => 0) 0).RamdiskLoaded := by decide
  have hkernel : (smallStart (cardFile 16 fun _ => 0) 0).kernelRegion.bytes = 64 := by
    rw [Start.kernelRegion, smallStart_kernelLoadAddress]
    exact smallKernel_loaded.loadedBytes_eq
  have hramdisk : (smallStart (cardFile 16 fun _ => 0) 0).ramdiskRegion.bytes = 16 :=
    FileAnswers.Loaded.loadedBytes_eq hloaded
  have hwritten : (smallStart (cardFile 16 fun _ => 0) 0).ramdiskWritten.bytes = 16 :=
    hloaded.bytesRead_eq.trans hramdisk
  refine (layout_iff (smallStart_linux _ _)).mpr ⟨?_, ?_, ?_, ?_⟩
  · rw [if_pos hloaded]
    exact Or.inr (by decide)
  · rw [hkernel]
    decide
  · rw [hramdisk]
    decide
  · rw [hkernel, hwritten]
    decide

/-- Without a ramdisk on the card the kernel is told of one all the same, wherever and however
    long the stack has it. -/
theorem missingRamdisk_not_consistent :
    ¬ ∀ (b : Start) (args : LinuxArgs), bootAndroidKernel b = .linux args → Consistent b args := by
  intro h
  have hcons := h _ _ (smallStart_linux noFile 0x1000)
  have hmissing : ¬ (smallStart noFile 0x1000).RamdiskLoaded := by decide
  rcases hcons.given with hgiven | hgiven
  · exact hmissing hgiven.1
  · exact absurd hgiven.2 (by decide)

end HtcLeo.Boot

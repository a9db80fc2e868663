import HtcLeo.Atags.BootLinux
import HtcLeo.Lib.AddressSpace

namespace HtcLeo.Boot

open Atags

/-!
# Loading a kernel

`LoadFileFromSDCard` and `BootAndroidKernel` (`Application/HtcLeoMenuApp/Booter/AndroidKernel.c`),
up to where the boot menu leaves itself: by `BootLinux`, by `BootImage`, or not at all.

* `FileAnswers` — what the firmware answers while a file is loaded; `loadFileFromSDCard` passes on
  the first failure.
* `loadFileFromSDCard_spec` — what it leaves in the memory and in its output variables.
* `bootAndroidKernel` — where the two loads lead, on variables that hold anything before they are
  assigned.
* `bootAndroidKernel_linux_iff` — when that is `BootLinux`, and what it is given.
-/

/-! ### Load addresses (`AndroidKernel.h`) -/

/-- `KERNEL_OFFSET`. -/
def kernelOffset : U32 := 0x8000
/-- `TAGS_OFFSET`. -/
def tagsOffset : U32 := 0x100
/-- `RAMDISK_OFFSET`. -/
def ramdiskOffset : U32 := 0x01000000

/-! ### `LoadFileFromSDCard` -/

/-- What the boot services and the file system answer while a file is loaded.  `Read` is asked for
    a number of bytes and puts the first ones of the file into the buffer, as many as it is asked
    for if it succeeds. -/
structure FileAnswers where
  locateHandleBuffer : EfiStatus
  handleProtocol : EfiStatus
  openVolume : EfiStatus
  openFile : EfiStatus
  getInfoSize : EfiStatus  -- `GetInfo` without a buffer
  allocatePool : Bool
  getInfo : EfiStatus
  fileSize : BitVec 64
  contents : Nat → Byte
  read : U32 → EfiStatus × U32
  read_le : ∀ n, (read n).2 ≤ n
  read_all : ∀ n, (read n).1 = .success → (read n).2.toNat = min n.toNat fileSize.toNat

namespace FileAnswers

variable (file : FileAnswers)

/-- `(UINTN)FileInfo->FileSize`, what `Read` is asked for. -/
def bufferSize : U32 := file.fileSize.setWidth 32

/-- The load gets as far as `Read`. -/
def Reads (loadAddress : U32) : Prop :=
  file.locateHandleBuffer = .success ∧ file.handleProtocol = .success ∧
    file.openVolume = .success ∧ file.openFile = .success ∧
    file.getInfoSize = .bufferTooSmall ∧ file.allocatePool = true ∧ file.getInfo = .success ∧
    loadAddress ≠ 0

/-- The load gets through. -/
def Loaded (loadAddress : U32) : Prop :=
  file.Reads loadAddress ∧ (file.read file.bufferSize).1 = .success

instance (loadAddress : U32) : Decidable (file.Reads loadAddress) :=
  inferInstanceAs (Decidable (_ ∧ _))

instance (loadAddress : U32) : Decidable (file.Loaded loadAddress) :=
  inferInstanceAs (Decidable (_ ∧ _))

/-- The bytes of the file that get into memory, even if the load fails then. -/
def bytesRead (loadAddress : U32) : Nat :=
  if file.Reads loadAddress then (file.read file.bufferSize).2.toNat else 0

/-- The bytes in memory of a file that has been loaded: its size, as a `UINTN`. -/
def loadedBytes (loadAddress : U32) : Nat :=
  if file.Loaded loadAddress then file.fileSize.toNat % 2 ^ 32 else 0

variable {file} {loadAddress : U32}

/-- Of a file that is loaded, `Read` gives all that it is asked for. -/
theorem Loaded.read_eq (h : file.Loaded loadAddress) :
    (file.read file.bufferSize).2.toNat = file.fileSize.toNat % 2 ^ 32 := by
  rw [file.read_all _ h.2, bufferSize, BitVec.toNat_setWidth]
  exact Nat.min_eq_left (Nat.mod_le _ _)

theorem Loaded.loadedBytes_eq (h : file.Loaded loadAddress) :
    file.loadedBytes loadAddress = file.fileSize.toNat % 2 ^ 32 := if_pos h

/-- They are the bytes that have been read. -/
theorem Loaded.bytesRead_eq (h : file.Loaded loadAddress) :
    file.bytesRead loadAddress = file.loadedBytes loadAddress := by
  rw [h.loadedBytes_eq, ← h.read_eq]
  exact if_pos h.1

theorem loadedBytes_lt (file : FileAnswers) (loadAddress : U32) :
    file.loadedBytes loadAddress < 2 ^ 32 := by
  unfold loadedBytes
  split
  · exact Nat.mod_lt _ (by decide)
  · decide

end FileAnswers

/-- The memory, and the variables for `*KernelBuffer` and `*KernelSize`. -/
structure LoadState where
  mem : U32 → Byte
  buffer : U32
  size : U32

/-- `LoadFileFromSDCard`. -/
def loadFileFromSDCard (file : FileAnswers) (loadAddress : U32) (st : LoadState) :
    EfiStatus × LoadState :=
  if file.locateHandleBuffer.isError then (file.locateHandleBuffer, st)
  else if file.handleProtocol.isError then (file.handleProtocol, st)
  else if file.openVolume.isError then (file.openVolume, st)
  else if file.openFile.isError then (file.openFile, st)
  else if file.getInfoSize ≠ .bufferTooSmall then (file.getInfoSize, st)
  else if file.allocatePool = false then (.outOfResources, st)
  else if file.getInfo.isError then (file.getInfo, st)
  else if loadAddress = 0 then (.outOfResources, st)
  else
    let (status, bufferSize) := file.read file.bufferSize
    let mem := (Region.mk loadAddress bufferSize.toNat).fill file.contents st.mem
    if status.isError then (status, { st with mem := mem })
    else (.success, { mem := mem, buffer := loadAddress, size := bufferSize })

/-- The memory after a load. -/
def loadedMem (file : FileAnswers) (loadAddress : U32) (mem : U32 → Byte) : U32 → Byte :=
  (Region.mk loadAddress (file.bytesRead loadAddress)).fill file.contents mem

theorem loadedMem_of_not_reads {file : FileAnswers} {loadAddress : U32}
    (h : ¬ file.Reads loadAddress) (mem : U32 → Byte) :
    loadedMem file loadAddress mem = mem := by
  funext x
  apply Region.fill_outside
  unfold Region.Has FileAnswers.bytesRead
  rw [if_neg h]
  exact Nat.not_lt_zero _

/-- The bytes of a file that has been loaded. -/
theorem loadedMem_at {file : FileAnswers} {loadAddress : U32} (mem : U32 → Byte) {i : Nat}
    (hi : i < file.loadedBytes loadAddress) :
    loadedMem file loadAddress mem (loadAddress + BitVec.ofNat 32 i) = file.contents i := by
  have hlt := file.loadedBytes_lt loadAddress
  have hloaded : file.Loaded loadAddress := by
    by_contra hnot
    rw [FileAnswers.loadedBytes, if_neg hnot] at hi
    exact Nat.not_lt_zero i hi
  have hread : i < file.bytesRead loadAddress := by
    rw [hloaded.bytesRead_eq]
    exact hi
  exact Region.fill_add (r := ⟨loadAddress, file.bytesRead loadAddress⟩) _ mem hread (by omega)

/-- A load that gets as far as `Read`. -/
theorem loadFileFromSDCard_reads {file : FileAnswers} {loadAddress : U32}
    (h : file.Reads loadAddress) (st : LoadState) :
    loadFileFromSDCard file loadAddress st =
      if (file.read file.bufferSize).1.isError then
        ((file.read file.bufferSize).1, { st with mem := loadedMem file loadAddress st.mem })
      else
        (.success,
          { mem := loadedMem file loadAddress st.mem, buffer := loadAddress,
            size := (file.read file.bufferSize).2 }) := by
  have hbytes : file.bytesRead loadAddress = (file.read file.bufferSize).2.toNat := if_pos h
  have hgood : ∀ status : EfiStatus, status = .success → ¬ status.isError = true := by simp
  obtain ⟨hlocate, hhandle, hvolume, hopen, hsize, hpool, hinfo, haddr⟩ := h
  unfold loadFileFromSDCard loadedMem
  rw [if_neg (hgood _ hlocate), if_neg (hgood _ hhandle), if_neg (hgood _ hvolume),
    if_neg (hgood _ hopen), if_neg fun hne => hne hsize, if_neg (by simp [hpool]),
    if_neg (hgood _ hinfo), if_neg haddr, hbytes]

/-- A load that gets through. -/
theorem loadFileFromSDCard_loaded {file : FileAnswers} {loadAddress : U32}
    (h : file.Loaded loadAddress) (st : LoadState) :
    loadFileFromSDCard file loadAddress st = (.success,
      { mem := loadedMem file loadAddress st.mem, buffer := loadAddress,
        size := (file.read file.bufferSize).2 }) := by
  rw [loadFileFromSDCard_reads h.1, if_neg (by simp [h.2])]

/-- A check that fails with `x`. -/
theorem snd_ite {α β : Type} {c : Prop} [Decidable c] {x y : α × β} {s : β} (hx : x.2 = s)
    (hy : ¬ c → y.2 = s) : (if c then x else y).2 = s := by
  split
  · exact hx
  · next h => exact hy h

/-- A load that does not get through leaves the output variables as they were. -/
theorem loadFileFromSDCard_failed {file : FileAnswers} {loadAddress : U32}
    (h : ¬ file.Loaded loadAddress) (st : LoadState) :
    (loadFileFromSDCard file loadAddress st).2 =
      { st with mem := loadedMem file loadAddress st.mem } := by
  by_cases hreads : file.Reads loadAddress
  · -- it is `Read` that has failed
    have hread : (file.read file.bufferSize).1 ≠ .success := fun hread => h ⟨hreads, hread⟩
    rw [loadFileFromSDCard_reads hreads, if_pos (by simp [hread])]
  · rw [loadedMem_of_not_reads hreads]
    unfold loadFileFromSDCard
    refine snd_ite rfl fun hlocate => snd_ite rfl fun hhandle => snd_ite rfl fun hvolume =>
      snd_ite rfl fun hopen => snd_ite rfl fun hsize => snd_ite rfl fun hpool =>
      snd_ite rfl fun hinfo => snd_ite rfl fun haddr => ?_
    -- no step before `Read` has failed
    simp only [EfiStatus.isError_iff, not_not] at hlocate hhandle hvolume hopen hsize hinfo
    exact absurd ⟨hlocate, hhandle, hvolume, hopen, hsize, Bool.not_eq_false _ |>.mp hpool,
      hinfo, haddr⟩ hreads

/-- **What a load leaves:** the bytes that it has read, and in the output variables where the file
    is, if it gets through. -/
theorem loadFileFromSDCard_spec (file : FileAnswers) (loadAddress : U32) (st : LoadState) :
    (loadFileFromSDCard file loadAddress st).2 =
      { mem := loadedMem file loadAddress st.mem
        buffer := if file.Loaded loadAddress then loadAddress else st.buffer
        size := if file.Loaded loadAddress then (file.read file.bufferSize).2 else st.size } := by
  by_cases h : file.Loaded loadAddress
  · rw [loadFileFromSDCard_loaded h, if_pos h, if_pos h]
  · rw [loadFileFromSDCard_failed h, if_neg h, if_neg h]

/-! ### `BootAndroidKernel` -/

/-- `LINUX_ARM_ZIMAGE_MAGIC`. -/
def linuxArmZimageMagic : U32 := 0x016f2818

/-- `zi->zi_magic`, behind the nine words of `code`. -/
def ziMagic (mem : U32 → Byte) (zi : U32) : U32 := Memory.load32 (wrapped mem) (zi.toNat + 36)

/-- What `BootAndroidKernel` starts from: the base of the memory, what is answered to the two
    loads and to the allocation of the command line, and what the stack has left in the variables
    that are only assigned by a load. -/
structure Start where
  base : U32
  machType : U32
  mem : U32 → Byte
  kernelFile : FileAnswers
  ramdiskFile : FileAnswers
  kernelBuffer : U32
  kernelSize : U32
  ramdiskBuffer : U32
  ramdiskSize : U32
  allocatePool : EfiStatus
  allocatedCmdline : U32

namespace Start

variable (b : Start)

/-- `KernelLoadAddress`. -/
def kernelLoadAddress : U32 := b.base + kernelOffset
/-- `RamdiskLoadAddress`. -/
def ramdiskLoadAddress : U32 := b.base + ramdiskOffset
/-- `AtagsAddress`. -/
def atagsAddress : U32 := b.base + tagsOffset

end Start

/-- What `BootLinux` is given, and the memory at that point. -/
structure LinuxArgs where
  kernel : U32
  tags : U32
  cmdline : U32
  machType : U32
  ramdisk : U32
  ramdiskSize : U32
  mem : U32 → Byte

/-- Where `BootAndroidKernel` leads. -/
inductive Outcome
  | returned                  -- the kernel could not be loaded
  | image (kernel : U32)      -- `BootImage`
  | hung                      -- no memory for the command line
  | linux (args : LinuxArgs)  -- `BootLinux`

/-- `BootAndroidKernel`; the command line is empty. -/
def bootAndroidKernel (b : Start) : Outcome :=
  let (status, st) := loadFileFromSDCard b.kernelFile b.kernelLoadAddress
    ⟨b.mem, b.kernelBuffer, b.kernelSize⟩
  if status.isError then .returned
  else
    let kernelBuffer := st.buffer
    if ziMagic st.mem kernelBuffer ≠ linuxArmZimageMagic then .image kernelBuffer
    else
      -- whether the ramdisk has been loaded is printed, and not looked at again
      let (_, st) := loadFileFromSDCard b.ramdiskFile b.ramdiskLoadAddress
        ⟨st.mem, b.ramdiskBuffer, b.ramdiskSize⟩
      if b.allocatePool.isError then .hung
      else .linux
        { kernel := kernelBuffer
          tags := b.atagsAddress
          cmdline := b.allocatedCmdline
          machType := b.machType
          ramdisk := st.buffer
          ramdiskSize := st.size
          -- the copy of the command line is a NUL
          mem := (Region.mk b.allocatedCmdline 1).fill (fun _ => 0) st.mem }

namespace Start

variable (b : Start)

/-- The kernel has been loaded. -/
def KernelLoaded : Prop := b.kernelFile.Loaded b.kernelLoadAddress

/-- The ramdisk has been loaded. -/
def RamdiskLoaded : Prop := b.ramdiskFile.Loaded b.ramdiskLoadAddress

instance : Decidable b.KernelLoaded := inferInstanceAs (Decidable (_ ∧ _))

instance : Decidable b.RamdiskLoaded := inferInstanceAs (Decidable (_ ∧ _))

/-- The memory after the load of the kernel. -/
def kernelMem : U32 → Byte := loadedMem b.kernelFile b.kernelLoadAddress b.mem

/-- The memory after both loads. -/
def filesMem : U32 → Byte := loadedMem b.ramdiskFile b.ramdiskLoadAddress b.kernelMem

/-- `KernelBuffer`, after the load of the kernel. -/
def kernelAt : U32 := if b.KernelLoaded then b.kernelLoadAddress else b.kernelBuffer

/-- What `BootLinux` is given, if it is entered. -/
def linuxArgs : LinuxArgs where
  kernel := b.kernelAt
  tags := b.atagsAddress
  cmdline := b.allocatedCmdline
  machType := b.machType
  ramdisk := if b.RamdiskLoaded then b.ramdiskLoadAddress else b.ramdiskBuffer
  ramdiskSize :=
    if b.RamdiskLoaded then (b.ramdiskFile.read b.ramdiskFile.bufferSize).2 else b.ramdiskSize
  mem := (Region.mk b.allocatedCmdline 1).fill (fun _ => 0) b.filesMem

/-- `BootLinux` is entered: the load of the kernel reports no error, there is the magic of a Linux
    kernel where it says the kernel is, and there is memory for the command line. -/
structure EntersLinux : Prop where
  noError : (loadFileFromSDCard b.kernelFile b.kernelLoadAddress
    ⟨b.mem, b.kernelBuffer, b.kernelSize⟩).1 = .success
  magic : ziMagic b.kernelMem b.kernelAt = linuxArmZimageMagic
  memory : b.allocatePool = .success

end Start

/-- **When `BootLinux` is entered,** and what it is given. -/
theorem bootAndroidKernel_linux_iff {b : Start} {args : LinuxArgs} :
    bootAndroidKernel b = .linux args ↔ b.EntersLinux ∧ args = b.linuxArgs := by
  obtain ⟨status, size, hkernel⟩ : ∃ status size,
      loadFileFromSDCard b.kernelFile b.kernelLoadAddress
        ⟨b.mem, b.kernelBuffer, b.kernelSize⟩ = (status,
          { mem := b.kernelMem, buffer := b.kernelAt, size := size }) :=
    ⟨_, _, Prod.ext rfl (loadFileFromSDCard_spec _ _ _)⟩
  obtain ⟨ramdiskStatus, hramdisk⟩ : ∃ status,
      loadFileFromSDCard b.ramdiskFile b.ramdiskLoadAddress
        ⟨b.kernelMem, b.ramdiskBuffer, b.ramdiskSize⟩ = (status,
          { mem := b.filesMem, buffer := b.linuxArgs.ramdisk, size := b.linuxArgs.ramdiskSize }) :=
    ⟨_, Prod.ext rfl (loadFileFromSDCard_spec _ _ _)⟩
  have henters : b.EntersLinux ↔ status = .success ∧
      ziMagic b.kernelMem b.kernelAt = linuxArmZimageMagic ∧ b.allocatePool = .success := by
    constructor
    · intro h
      have hstatus := h.noError
      rw [hkernel] at hstatus
      exact ⟨hstatus, h.magic, h.memory⟩
    · intro h
      exact ⟨by rw [hkernel]; exact h.1, h.2.1, h.2.2⟩
  rw [henters]
  unfold bootAndroidKernel
  simp only [hkernel, hramdisk, EfiStatus.isError_iff]
  -- the three ways not to get there
  by_cases hstatus : status = .success
  · by_cases hmagic : ziMagic b.kernelMem b.kernelAt = linuxArmZimageMagic
    · by_cases hmemory : b.allocatePool = .success
      · rw [if_neg fun h => h hstatus, if_neg fun h => h hmagic, if_neg fun h => h hmemory,
          Outcome.linux.injEq]
        constructor
        · intro h
          exact ⟨⟨hstatus, hmagic, hmemory⟩, h.symm⟩
        · intro h
          exact h.2.symm
      · simp [hstatus, hmagic, hmemory]
    · simp [hstatus, hmagic]
  · simp [hstatus]

end HtcLeo.Boot

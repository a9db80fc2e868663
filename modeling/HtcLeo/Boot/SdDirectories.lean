import HtcLeo.Uefi
import HtcLeo.Keypad.Press

namespace HtcLeo.Boot

open Keypad (Key scanUp scanDown charCarriageReturn)

/-!
# Choosing a directory of the SD card

`ListDirectories` and `DisplayAndSelectDirectory`
(`Application/HtcLeoMenuApp/Booter/AndroidSDDir.c`).  The array of directories has room for one
pointer a handle, its allocation taken to succeed; an access outside it has no result.

* `listDirectories` — the directories of all file systems, stored one after another.
* `listDirectories_eq` — they are all stored when there are not more of them than handles, and
  otherwise the array is left.
* `displayAndSelectDirectory` — the loop over the keys, with the indices that it has used.
* `staysInside_iff` — when neither leaves what it has.
-/

/-! ### `ListDirectories` -/

/-- What is read of an `EFI_FILE_INFO`: `Attribute`, and the name up to its terminator. -/
structure FileInfo where
  attributes : BitVec 64
  fileName : List (BitVec 16)
  deriving DecidableEq

/-- `FileInfo->Attribute & EFI_FILE_DIRECTORY`. -/
def FileInfo.isDirectory (info : FileInfo) : Bool := info.attributes &&& 0x10 ≠ 0

/-- What `Root->Read` answers: its status, `BufferSize` and `FileInfo`. -/
structure RootRead where
  status : EfiStatus
  bufferSize : U32
  fileInfo : FileInfo

/-- The condition of the `while` loop. -/
def RootRead.isEntry (r : RootRead) : Bool := r.status = .success ∧ 0 < r.bufferSize

/-- What the firmware answers for a handle; after the last of `reads` there is nothing more. -/
structure FileSystem where
  handleProtocol : EfiStatus
  openVolume : EfiStatus
  reads : List RootRead

/-- `HandleBuffer`: pointers of four bytes each, in an address space of 32 bits. -/
structure HandleBuffer where
  handles : List FileSystem
  length_lt : handles.length < 2 ^ 30

/-- `Directories`, where `none` is a null pointer, and `DirectoryCount`. -/
structure Listing where
  directories : List (Option (List (BitVec 16)))
  directoryCount : U32
  deriving DecidableEq

/-- `Directories[DirectoryCount] = …` and `DirectoryCount++`. -/
def Listing.store (l : Listing) (name : List (BitVec 16)) : Option Listing :=
  if l.directoryCount.toNat < l.directories.length then
    some { directories := l.directories.set l.directoryCount.toNat (some name)
           directoryCount := l.directoryCount + 1 }
  else none

/-- The loop over the entries of a root directory. -/
def readRoot : List RootRead → Listing → Option Listing
  | [], l         => some l
  | r :: reads, l =>
      if r.isEntry then
        if r.fileInfo.isDirectory then do
          let l ← l.store r.fileInfo.fileName
          readRoot reads l
        else readRoot reads l
      else some l

/-- A pass of the loop over the handles. -/
def listFileSystem (l : Listing) (fileSystem : FileSystem) : Option Listing :=
  if fileSystem.handleProtocol ≠ .success then some l
  else if fileSystem.openVolume ≠ .success then some l
  else readRoot fileSystem.reads l

/-- `ListDirectories`. -/
def listDirectories (buffer : HandleBuffer) : Option Listing :=
  buffer.handles.foldlM listFileSystem ⟨List.replicate buffer.handles.length none, 0⟩

/-! ### The directories there are -/

/-- The directories of a file system that can be opened. -/
def FileSystem.directories (fileSystem : FileSystem) : List (List (BitVec 16)) :=
  if fileSystem.handleProtocol = .success ∧ fileSystem.openVolume = .success then
    (((fileSystem.reads.takeWhile RootRead.isEntry).map RootRead.fileInfo).filter
      FileInfo.isDirectory).map FileInfo.fileName
  else []

/-- The directories of all file systems. -/
def HandleBuffer.found (buffer : HandleBuffer) : List (List (BitVec 16)) :=
  buffer.handles.flatMap FileSystem.directories

/-- The array of `size` pointers that holds the names, from its beginning. -/
def Listing.of (size : Nat) (names : List (List (BitVec 16))) : Listing where
  directories := names.map some ++ List.replicate (size - names.length) none
  directoryCount := BitVec.ofNat 32 names.length

/-- A name is stored behind the others if there is room. -/
theorem store_of {size : Nat} (hsize : size < 2 ^ 30) {names : List (List (BitVec 16))}
    (hnames : names.length ≤ size) (name : List (BitVec 16)) :
    (Listing.of size names).store name =
      if names.length < size then some (Listing.of size (names ++ [name])) else none := by
  have hcount : (BitVec.ofNat 32 names.length).toNat = names.length := by
    rw [BitVec.toNat_ofNat]
    omega
  unfold Listing.store Listing.of
  dsimp only
  rw [hcount, List.length_append, List.length_map, List.length_replicate,
    show names.length + (size - names.length) = size by omega]
  split
  · next hlt =>
    have hroom : size - names.length = size - (names ++ [name]).length + 1 := by
      rw [List.length_append, List.length_singleton]
      omega
    rw [List.set_append_right (h := by rw [List.length_map]), List.length_map, Nat.sub_self, hroom,
      List.replicate_succ, List.set_cons_zero, List.map_append, List.append_assoc,
      List.length_append, BitVec.ofNat_add]
    rfl
  · rfl

/-- Names are stored as long as there is room. -/
theorem foldlM_store_of {size : Nat} (hsize : size < 2 ^ 30) (more : List (List (BitVec 16)))
    {names : List (List (BitVec 16))} (hnames : names.length ≤ size) :
    more.foldlM Listing.store (Listing.of size names) =
      if names.length + more.length ≤ size then some (Listing.of size (names ++ more))
      else none := by
  induction more generalizing names with
  | nil => rw [List.foldlM_nil, List.length_nil, Nat.add_zero, if_pos hnames, List.append_nil]; rfl
  | cons name more ih =>
    rw [List.foldlM_cons, store_of hsize hnames, List.length_cons]
    by_cases hlt : names.length < size
    · rw [if_pos hlt, Option.bind_eq_bind, Option.bind_some,
        ih (by rw [List.length_append, List.length_singleton]; omega), List.length_append,
        List.length_singleton, List.append_assoc, List.singleton_append,
        show names.length + 1 + more.length = names.length + (more.length + 1) by omega]
    · rw [if_neg hlt, if_neg (by omega)]
      rfl

/-- The loop over a root directory stores its directories. -/
theorem readRoot_eq (reads : List RootRead) (l : Listing) :
    readRoot reads l =
      ((((reads.takeWhile RootRead.isEntry).map RootRead.fileInfo).filter
        FileInfo.isDirectory).map FileInfo.fileName).foldlM Listing.store l := by
  induction reads generalizing l with
  | nil => rfl
  | cons r reads ih =>
    unfold readRoot
    by_cases hentry : r.isEntry = true
    · rw [if_pos hentry, List.takeWhile_cons_of_pos hentry, List.map_cons]
      by_cases hdir : r.fileInfo.isDirectory = true
      · rw [if_pos hdir, List.filter_cons_of_pos hdir, List.map_cons, List.foldlM_cons]
        exact congrArg (Option.bind _) (funext ih)
      · rw [if_neg hdir, List.filter_cons_of_neg hdir]
        exact ih l
    · rw [if_neg hentry, List.takeWhile_cons_of_neg hentry]
      rfl

/-- A pass stores the directories of its file system. -/
theorem listFileSystem_eq (l : Listing) (fileSystem : FileSystem) :
    listFileSystem l fileSystem = fileSystem.directories.foldlM Listing.store l := by
  unfold listFileSystem FileSystem.directories
  by_cases hprotocol : fileSystem.handleProtocol = .success
  · by_cases hvolume : fileSystem.openVolume = .success
    · rw [if_neg (not_not_intro hprotocol), if_neg (not_not_intro hvolume),
        if_pos ⟨hprotocol, hvolume⟩]
      exact readRoot_eq _ _
    · rw [if_neg (not_not_intro hprotocol), if_pos hvolume, if_neg (fun h => hvolume h.2)]
      rfl
  · rw [if_pos hprotocol, if_neg (fun h => hprotocol h.1)]
    rfl

/-- **The listing.**  It has all directories if there are not more of them than handles; otherwise
    one is stored behind the array. -/
theorem listDirectories_eq (buffer : HandleBuffer) :
    listDirectories buffer =
      if buffer.found.length ≤ buffer.handles.length then
        some (Listing.of buffer.handles.length buffer.found)
      else none := by
  have hfold : ∀ (handles : List FileSystem) (l : Listing), handles.foldlM listFileSystem l
      = (handles.flatMap FileSystem.directories).foldlM Listing.store l := by
    intro handles
    induction handles with
    | nil => exact fun _ => rfl
    | cons fileSystem handles ih =>
      intro l
      rw [List.foldlM_cons, List.flatMap_cons, List.foldlM_append, listFileSystem_eq]
      exact congrArg (Option.bind _) (funext ih)
  have hempty : Listing.of buffer.handles.length []
      = ⟨List.replicate buffer.handles.length none, 0⟩ := rfl
  unfold listDirectories HandleBuffer.found
  rw [hfold, ← hempty, foldlM_store_of buffer.length_lt _ (Nat.zero_le _), List.length_nil,
    Nat.zero_add, List.nil_append]

/-! ### `DisplayAndSelectDirectory` -/

/-- The variables of `DisplayAndSelectDirectory`; `selectedDir` is what has been selected.  Ghost:
    the indices at which `DirList` has been used. -/
structure Picker where
  index : U32
  key : Key
  selectedDir : Option (Option (List (BitVec 16)))
  used : List U32

namespace Picker

/-- `DirList[i]`. -/
def use (l : Listing) (p : Picker) (i : U32) : Option (Option (List (BitVec 16)) × Picker) := do
  let dir ← l.directories[i.toNat]?
  some (dir, { p with used := p.used ++ [i] })

/-- The loop that prints the directories. -/
def draw (l : Listing) (p : Picker) : Option Picker :=
  (List.range l.directoryCount.toNat).foldlM (fun p i => (p.use l (BitVec.ofNat 32 i)).map Prod.snd)
    p

/-- A pass of the loop; `outcome` is the key that `ReadKeyStroke` delivers, if any. -/
def pass (l : Listing) (p : Picker) (outcome : Option Key) : Option Picker := do
  let p ← p.draw l
  -- the status is not looked at: without a key the variable holds the one before
  let p := { p with key := outcome.getD p.key }
  if p.key.scanCode = scanUp then
    some (if 0 < p.index then { p with index := p.index - 1 } else p)
  else if p.key.scanCode = scanDown then
    some (if p.index < l.directoryCount - 1 then { p with index := p.index + 1 } else p)
  else if p.key.unicodeChar = charCarriageReturn then do
    let (dir, p) ← p.use l p.index
    some { p with selectedDir := some dir }
  else some p

/-- The same, when the loop may have ended. -/
def step (l : Listing) (p : Picker) (outcome : Option Key) : Option Picker :=
  if p.selectedDir.isSome then some p else p.pass l outcome

end Picker

/-- `DisplayAndSelectDirectory`, as far as it gets with the outcomes; `garbage` is what `Key` holds
    before it is set. -/
def displayAndSelectDirectory (l : Listing) (garbage : Key) (outcomes : List (Option Key)) :
    Option Picker :=
  outcomes.foldlM (Picker.step l) ⟨0, garbage, none, []⟩

/-- The keys that `Key` holds, pass by pass. -/
def keysHeld : Key → List (Option Key) → List Key
  | _, []                => []
  | key, outcome :: rest => outcome.getD key :: keysHeld (outcome.getD key) rest

/-- The key selects. -/
def Selects (key : Key) : Prop :=
  key.scanCode ≠ scanUp ∧ key.scanCode ≠ scanDown ∧ key.unicodeChar = charCarriageReturn

/-- Nothing is stored outside the array, and its entries are used below the number of directories
    found only. -/
def StaysInside (buffer : HandleBuffer) (garbage : Key) (outcomes : List (Option Key)) : Prop :=
  ∃ l, listDirectories buffer = some l ∧
    ∃ p, displayAndSelectDirectory l garbage outcomes = some p ∧
      ∀ i ∈ p.used, i.toNat < buffer.found.length

/-! ### What is used -/

namespace Picker

variable {l : Listing} {p : Picker}

/-- A use inside the array. -/
theorem use_of_lt {i : U32} (h : i.toNat < l.directories.length) :
    ∃ dir, p.use l i = some (dir, { p with used := p.used ++ [i] }) := by
  refine ⟨l.directories[i.toNat], ?_⟩
  unfold use
  rw [List.getElem?_eq_getElem h]
  rfl

/-- Drawing uses the entries below the count. -/
theorem draw_spec {n : Nat} (hn : n = l.directoryCount.toNat) (hsize : n ≤ l.directories.length) :
    ∃ used, p.draw l = some { p with used := p.used ++ used } ∧ ∀ i ∈ used, i.toNat < n := by
  have hlt : n < 2 ^ 32 := hn ▸ l.directoryCount.isLt
  unfold draw
  rw [← hn]
  -- by induction on how far the drawing has come
  have hdrawn : ∀ m ≤ n, ∃ used,
      (List.range m).foldlM (fun p i => (p.use l (BitVec.ofNat 32 i)).map Prod.snd) p
        = some { p with used := p.used ++ used } ∧ ∀ i ∈ used, i.toNat < n := by
    intro m
    induction m with
    | zero =>
      intro _
      refine ⟨[], ?_, by simp⟩
      rw [List.append_nil]
      rfl
    | succ m ih =>
      intro hm
      obtain ⟨used, hdraw, hused⟩ := ih (by omega)
      have hindex : (BitVec.ofNat 32 m).toNat = m := by
        rw [BitVec.toNat_ofNat]
        omega
      obtain ⟨dir, huse⟩ := use_of_lt (p := { p with used := p.used ++ used })
        (show (BitVec.ofNat 32 m).toNat < l.directories.length by omega)
      refine ⟨used ++ [BitVec.ofNat 32 m], ?_, ?_⟩
      · rw [List.range_succ, List.foldlM_append, hdraw, Option.bind_eq_bind, Option.bind_some,
          List.foldlM_cons, huse]
        simp
      · intro i hi
        rcases List.mem_append.mp hi with hi | hi
        · exact hused i hi
        · rw [List.mem_singleton.mp hi, hindex]
          omega
  exact hdrawn n (Nat.le_refl n)

/-- The cursor is at a directory, and only entries of directories have been used. -/
def Inside (n : Nat) (p : Picker) : Prop := p.index.toNat < n ∧ ∀ i ∈ p.used, i.toNat < n

/-- A pass with directories in the listing. -/
theorem step_inside {n : Nat} (hn : n = l.directoryCount.toNat)
    (hsize : n ≤ l.directories.length) (h : p.Inside n) (outcome : Option Key) :
    ∃ p', p.step l outcome = some p' ∧ p'.Inside n := by
  obtain ⟨hindex, hused⟩ := h
  unfold step
  split
  · exact ⟨p, rfl, hindex, hused⟩
  · obtain ⟨drawn, hdraw, hdrawn⟩ := draw_spec (p := p) hn hsize
    have hall : ∀ i ∈ p.used ++ drawn, i.toNat < n := by
      intro i hi
      exact (List.mem_append.mp hi).elim (hused i) (hdrawn i)
    unfold pass
    rw [hdraw, Option.bind_eq_bind, Option.bind_some]
    dsimp only
    split
    · -- up, which stops at the first directory
      refine ⟨_, rfl, ?_⟩
      split
      · next hpos =>
        refine ⟨?_, hall⟩
        rw [BitVec.lt_def] at hpos
        change 0 < p.index.toNat at hpos
        show (p.index - 1).toNat < n
        rw [BitVec.toNat_sub, show (1 : U32).toNat = 1 from rfl]
        omega
      · exact ⟨hindex, hall⟩
    · split
      · -- down, which stops at the last one: the count is not 0, so the bound does not wrap
        refine ⟨_, rfl, ?_⟩
        split
        · next hlast =>
          refine ⟨?_, hall⟩
          rw [BitVec.lt_def, BitVec.toNat_sub, ← hn, show (1 : U32).toNat = 1 from rfl] at hlast
          show (p.index + 1).toNat < n
          rw [BitVec.toNat_add, show (1 : U32).toNat = 1 from rfl]
          omega
        · exact ⟨hindex, hall⟩
      · split
        · -- the entry at the cursor is selected
          obtain ⟨dir, huse⟩ := use_of_lt
            (p := { p with key := outcome.getD p.key, used := p.used ++ drawn })
            (Nat.lt_of_lt_of_le hindex hsize)
          rw [huse]
          refine ⟨_, rfl, hindex, ?_⟩
          intro i hi
          rcases List.mem_append.mp hi with hi | hi
          · exact hall i hi
          · rw [List.mem_singleton.mp hi]
            exact hindex
        · exact ⟨_, rfl, hindex, hall⟩

/-- A run with directories in the listing. -/
theorem foldlM_inside {n : Nat} (hn : n = l.directoryCount.toNat)
    (hsize : n ≤ l.directories.length) (outcomes : List (Option Key)) (h : p.Inside n) :
    ∃ p', outcomes.foldlM (step l) p = some p' ∧ p'.Inside n := by
  induction outcomes generalizing p with
  | nil => exact ⟨p, rfl, h⟩
  | cons outcome outcomes ih =>
    obtain ⟨p', hstep, hinside⟩ := step_inside hn hsize h outcome
    rw [List.foldlM_cons, hstep]
    exact ih hinside

/-- Of an empty listing nothing is drawn. -/
theorem draw_empty (hempty : l.directoryCount = 0) : p.draw l = some p := by
  unfold draw
  rw [hempty]
  rfl

/-- A pass of an empty listing with a key that does not select. -/
theorem step_empty (hempty : l.directoryCount = 0) (hopen : p.selectedDir = none)
    {outcome : Option Key} (hkey : ¬ Selects (outcome.getD p.key)) :
    ∃ index, p.step l outcome = some { p with key := outcome.getD p.key, index := index } := by
  have hsome : ¬ p.selectedDir.isSome = true := by simp [hopen]
  unfold step pass
  rw [if_neg hsome, draw_empty hempty, Option.bind_eq_bind, Option.bind_some]
  dsimp only
  split
  · split <;> exact ⟨_, rfl⟩
  · next hup =>
    split
    · split <;> exact ⟨_, rfl⟩
    · next hdown =>
      rw [if_neg (fun hreturn => hkey ⟨hup, hdown, hreturn⟩)]
      exact ⟨p.index, rfl⟩

/-- A pass of an empty listing with a key that selects uses the entry at the cursor. -/
theorem step_empty_selects (hempty : l.directoryCount = 0) (hopen : p.selectedDir = none)
    {outcome : Option Key} (hkey : Selects (outcome.getD p.key)) {p' : Picker}
    (h : p.step l outcome = some p') : p.index ∈ p'.used ∧ p'.selectedDir.isSome := by
  have hsome : ¬ p.selectedDir.isSome = true := by simp [hopen]
  obtain ⟨hup, hdown, hreturn⟩ := hkey
  unfold step pass at h
  rw [if_neg hsome, draw_empty hempty, Option.bind_eq_bind, Option.bind_some] at h
  dsimp only at h
  rw [if_neg hup, if_neg hdown, if_pos hreturn] at h
  unfold use at h
  dsimp only at h
  cases hdir : l.directories[p.index.toNat]? with
  | none =>
    -- the cursor is outside the array, and the run does not go on
    rw [hdir] at h
    exact absurd h (by simp)
  | some dir =>
    rw [hdir] at h
    obtain rfl := Option.some.inj h
    exact ⟨by simp, rfl⟩

/-- After the selection there are no more passes. -/
theorem foldlM_selected (outcomes : List (Option Key)) (h : p.selectedDir.isSome) :
    outcomes.foldlM (step l) p = some p := by
  induction outcomes with
  | nil => rfl
  | cons outcome outcomes ih =>
    have hstep : p.step l outcome = some p := if_pos h
    rw [List.foldlM_cons, hstep]
    exact ih

/-- A run of an empty listing uses nothing exactly when no key selects. -/
theorem foldlM_empty (hempty : l.directoryCount = 0) (outcomes : List (Option Key))
    (hopen : p.selectedDir = none) (hused : p.used = []) :
    (∃ p', outcomes.foldlM (step l) p = some p' ∧ p'.used = []) ↔
      ∀ key ∈ keysHeld p.key outcomes, ¬ Selects key := by
  induction outcomes generalizing p with
  | nil => exact iff_of_true ⟨p, rfl, hused⟩ (by simp [keysHeld])
  | cons outcome outcomes ih =>
    rw [List.foldlM_cons, keysHeld, List.forall_mem_cons]
    by_cases hkey : Selects (outcome.getD p.key)
    · refine iff_of_false ?_ (fun h => h.1 hkey)
      rintro ⟨p', hrun, hnone⟩
      cases hstep : p.step l outcome with
      | none =>
        rw [hstep] at hrun
        exact absurd hrun (by simp)
      | some q =>
        obtain ⟨hmem, hselected⟩ := step_empty_selects hempty hopen hkey hstep
        rw [hstep, Option.bind_eq_bind, Option.bind_some,
          foldlM_selected outcomes hselected] at hrun
        obtain rfl := Option.some.inj hrun
        rw [hnone] at hmem
        exact List.not_mem_nil hmem
    · obtain ⟨index, hstep⟩ := step_empty hempty hopen hkey
      rw [hstep, Option.bind_eq_bind, Option.bind_some, and_iff_right hkey]
      exact ih hopen hused

end Picker

/-- **The directory picker.**  It stays inside what it has exactly when there are not more
    directories than handles, and there is one, or no key selects. -/
theorem staysInside_iff (buffer : HandleBuffer) (garbage : Key) (outcomes : List (Option Key)) :
    StaysInside buffer garbage outcomes ↔
      buffer.found.length ≤ buffer.handles.length ∧
        (0 < buffer.found.length ∨ ∀ key ∈ keysHeld garbage outcomes, ¬ Selects key) := by
  unfold StaysInside
  rw [listDirectories_eq]
  by_cases hroom : buffer.found.length ≤ buffer.handles.length
  · rw [if_pos hroom, and_iff_right hroom]
    have hlt := buffer.length_lt
    have hcount : (Listing.of buffer.handles.length buffer.found).directoryCount.toNat
        = buffer.found.length := by
      show (BitVec.ofNat 32 buffer.found.length).toNat = _
      rw [BitVec.toNat_ofNat]
      omega
    have hsize : (Listing.of buffer.handles.length buffer.found).directories.length
        = buffer.handles.length := by
      unfold Listing.of
      rw [List.length_append, List.length_map, List.length_replicate]
      omega
    simp only [Option.some.injEq, exists_eq_left']
    rcases Nat.eq_zero_or_pos buffer.found.length with hzero | hpos
    · have hempty : (Listing.of buffer.handles.length buffer.found).directoryCount = 0 :=
        BitVec.eq_of_toNat_eq (hcount.trans hzero)
      rw [hzero, or_iff_right (Nat.lt_irrefl 0)]
      refine Iff.trans (exists_congr fun p => and_congr_right fun _ => ?_)
        (Picker.foldlM_empty hempty outcomes rfl rfl)
      simp [List.eq_nil_iff_forall_not_mem]
    · refine iff_of_true ?_ (Or.inl hpos)
      obtain ⟨p, hrun, -, hused⟩ := Picker.foldlM_inside (p := ⟨0, garbage, none, []⟩) hcount.symm
        (hroom.trans_eq hsize.symm) outcomes ⟨hpos, by simp⟩
      exact ⟨p, hrun, hused⟩
  · rw [if_neg hroom]
    refine iff_of_false ?_ (fun h => hroom h.1)
    rintro ⟨l, hlist, -⟩
    cases hlist

/-- A handle whose file system has the given entries, all of them directories. -/
def fileSystemOf (names : List (List (BitVec 16))) : FileSystem where
  handleProtocol := .success
  openVolume := .success
  reads := names.map fun name => ⟨.success, 80, ⟨0x10, name⟩⟩

/-- One card with two directories: the second is stored behind the array. -/
theorem twoDirectories_leave_array :
    ¬ StaysInside ⟨[fileSystemOf [[97], [98]]], by decide⟩ ⟨0, 0⟩ [] := by
  rintro ⟨l, hlist, -⟩
  have hnone : listDirectories ⟨[fileSystemOf [[97], [98]]], by decide⟩ = none := by decide
  rw [hnone] at hlist
  cases hlist

end HtcLeo.Boot

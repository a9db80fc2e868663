import HtcLeo.Atags.Tags

namespace HtcLeo.Atags

/-!
# The parser of the device detection driver

`ParseAtags` (`GPLDrivers/DeviceDetectionDxe/Atags.c`) with `DetectCLK` and `AtagsDetectDevice`
(`DeviceDetectionDxe.c`), over the memory it reads, the device it fills in and the places it has
read.

* `parseAtags` — the parser; its result is the tag at which it ends.
* `Tag.recordTag`, `recordTags` — what a tag, and a list of tags, leave in the device.
* `At` — where the parser has come to.
* `parseTag_spec` — it records a tag and goes on to the next one, reading nothing outside the tag.
* `parseAtags_spec` — it records a list of tags and ends at the end of the list.
-/

/-! ### The device (`Device/DeviceType.h`) -/

/-- `DeviceType`. -/
inductive DeviceType
  | leo | schubert | bravo | passion | unknown
  deriving DecidableEq, Repr

/-- `HtcDevice`, as far as the parser fills it in; `cmdline` is the address of a string. -/
structure HtcDevice where
  type : DeviceType
  cLK : Bool
  nandBoot : Bool
  cmdline : Nat

/-- The bytes of a string literal. -/
def ascii (text : String) : List Byte := text.toList.map fun c => BitVec.ofNat 8 c.toNat

/-- Whether `AsciiStrStr`, also called `strstr`, finds the string. -/
def asciiStrStr (s searchString : List Byte) : Bool := decide (searchString <:+: s)

/-- `DetectCLK`, on the string at `cmdline`. -/
def detectCLK (cmdline : Option (List Byte)) : Bool :=
  match cmdline with
  | none   => false
  | some s =>
      if asciiStrStr s (ascii "clk=") &&
          (asciiStrStr s (ascii "androidboot.hardware=leo") ||
            asciiStrStr s (ascii "androidboot.hardware=schubert")) then true
      else false

/-- `AtagsDetectDevice`, on the string at `cmdline`. -/
def atagsDetectDevice (s : List Byte) : DeviceType :=
  if asciiStrStr s (ascii "androidboot.hardware=leo") then .leo
  else if asciiStrStr s (ascii "androidboot.hardware=schubert") then .schubert
  else if asciiStrStr s (ascii "board_bravo") then .bravo
  else if asciiStrStr s (ascii "board_mahimahi") then .passion
  else .unknown

/-! ### The parser -/

/-- The memory, the places read from it with their sizes, and the device. -/
structure Parser where
  mem : Memory
  reads : List (Nat × Nat)
  device : HtcDevice

/-- Read a word. -/
def readWord (a : Nat) : Prog Parser U32 :=
  Prog.query fun st => (Memory.load32 st.mem a, { st with reads := (a, 4) :: st.reads })

/-- Read a byte. -/
def readByte (a : Nat) : Prog Parser Byte :=
  Prog.query fun st => (st.mem a, { st with reads := (a, 1) :: st.reads })

/-- Change the device. -/
def setDevice (f : HtcDevice → HtcDevice) : Prog Parser Unit :=
  Prog.modify fun st => { st with device := f st.device }

/-- The cases of `switch (t->hdr.tag)` that do something; the others only report the tag. -/
def handleTag (fuel t : Nat) (tag : U32) : Prog Parser Unit :=
  if tag = atagCmdline then do
    let cmd := t + 8
    -- the string that both detecting functions search
    let s ← readString readByte fuel cmd
    setDevice fun mDevice =>
      { mDevice with
        cLK := detectCLK (some s), type := atagsDetectDevice s, cmdline := cmd }
  else if tag = atagClk then
    setDevice fun mDevice => { mDevice with cLK := true }
  else if tag = atagNandBootMagldr then
    setDevice fun mDevice => { mDevice with nandBoot := true }
  else pure ()

/-- The body of the parser's loop: the next tag, or the one at which the parser returns. -/
def parseTag (fuel t : Nat) : Prog Parser (Nat ⊕ Nat) := do
  let size ← readWord t
  let tag ← readWord (t + 4)
  if size = 0 ∧ tag ≠ atagNone then pure (.inr t)
  else if tag = atagNone then pure (.inr t)
  else do
    handleTag fuel t tag
    pure (.inl (t + (size * 4#32).toNat))

/-- `ParseAtags`, with the tag at which it returns. -/
def parseAtags (fuel : Nat) (startAddr : U32) : Prog Parser Nat := do
  let t := startAddr.toNat
  let first ← readWord (t + 4)
  if first ≠ atagCore then pure t
  else Prog.loop (parseTag fuel) fuel t

/-! ### What it is to record -/

/-- What a tag at `t` leaves in the device. -/
def Tag.recordTag (t : Nat) (mDevice : HtcDevice) : Tag → HtcDevice
  | magldr    => { mDevice with nandBoot := true }
  | cmdline s =>
      { mDevice with
        cLK := detectCLK (some s), type := atagsDetectDevice s, cmdline := t + 8 }
  | _         => mDevice

/-- What the tags from `t` on leave in the device. -/
def recordTags (t : Nat) (mDevice : HtcDevice) : List Tag → HtcDevice
  | []          => mDevice
  | tag :: tags => recordTags (t + tag.span) (tag.recordTag t mDevice) tags

/-! ### Where the parser has come to -/

/-- The parser has read between `lo` and `hi` only, and has filled in the device as `mDevice`. -/
structure At (mem : Memory) (lo hi : Nat) (mDevice : HtcDevice) (st : Parser) : Prop where
  mem : st.mem = mem
  reads : ∀ r ∈ st.reads, lo ≤ r.1 ∧ r.1 + r.2 ≤ hi
  device : st.device = mDevice

variable {mem : Memory} {lo hi t : Nat} {mDevice : HtcDevice}

/-- Reading between `lo` and `hi`. -/
theorem At.read {st : Parser} (h : At mem lo hi mDevice st) {a n : Nat} (hlo : lo ≤ a)
    (hhi : a + n ≤ hi) : At mem lo hi mDevice { st with reads := (a, n) :: st.reads } where
  mem := h.mem
  reads := List.forall_mem_cons.mpr ⟨⟨hlo, hhi⟩, h.reads⟩
  device := h.device

/-- A word between `lo` and `hi`. -/
theorem readWord_spec {a : Nat} (hlo : lo ≤ a) (hhi : a + 4 ≤ hi) :
    Prog.Completes (At mem lo hi mDevice) (readWord a)
      fun w st => w = Memory.load32 mem a ∧ At mem lo hi mDevice st := by
  apply Prog.Completes.query
  intro st h
  exact ⟨by rw [h.mem], h.read hlo hhi⟩

/-- A byte between `lo` and `hi`. -/
theorem readByte_spec {a : Nat} (hlo : lo ≤ a) (hhi : a + 1 ≤ hi) :
    Prog.Completes (At mem lo hi mDevice) (readByte a)
      fun b st => b = mem a ∧ At mem lo hi mDevice st := by
  apply Prog.Completes.query
  intro st h
  exact ⟨by rw [h.mem], h.read hlo hhi⟩

/-- Changing the device. -/
theorem setDevice_spec (f : HtcDevice → HtcDevice) :
    Prog.Completes (At mem lo hi mDevice) (setDevice f) fun _ => At mem lo hi (f mDevice) := by
  apply Prog.Completes.modify
  intro st h
  exact ⟨h.mem, h.reads, by rw [h.device]⟩

/-- A string between `lo` and `hi`. -/
theorem readString_at {a fuel : Nat} {s : List Byte} (hs : HoldsString mem a s) (hlo : lo ≤ a)
    (hhi : a + s.length + 1 ≤ hi) (hfuel : s.length < fuel) :
    Prog.Completes (At mem lo hi mDevice) (readString readByte fuel a)
      fun r st => r = s ∧ At mem lo hi mDevice st := by
  apply readString_spec hs _ hfuel
  intro i hle
  exact readByte_spec (by omega) (by omega)

/-! ### One tag -/

/-- A size that is small enough is read as it is. -/
theorem toNat_sizeWord {size : Nat} (hlt : size < 2 ^ 30) :
    (BitVec.ofNat 32 size).toNat = size := by
  rw [BitVec.toNat_ofNat, Nat.mod_eq_of_lt (by omega)]

theorem sizeWord_ne_zero {size : Nat} (hpos : 2 ≤ size) (hlt : size < 2 ^ 30) :
    BitVec.ofNat 32 size ≠ 0 := by
  intro hzero
  have hsize := toNat_sizeWord hlt
  rw [hzero] at hsize
  have h0 : (0 : U32).toNat = 0 := rfl
  omega

/-- The parser steps over a tag of that size. -/
theorem toNat_sizeWord_mul {size : Nat} (hlt : size < 2 ^ 30) :
    (BitVec.ofNat 32 size * 4#32).toNat = 4 * size := by
  rw [BitVec.toNat_mul, toNat_sizeWord hlt, BitVec.toNat_ofNat]
  omega

/-- Reading the size field of a tag. -/
theorem readSize_spec {tag : Tag} (htag : Holds mem t tag) (hlo : lo ≤ t) (hhi : t + 8 ≤ hi) :
    Prog.Completes (At mem lo hi mDevice) (readWord t)
      fun size st => size = BitVec.ofNat 32 tag.size ∧ At mem lo hi mDevice st := by
  rw [← htag.size]
  exact readWord_spec hlo (by omega)

/-- Reading the type field of a tag. -/
theorem readType_spec {tag : Tag} (htag : Holds mem t tag) (hlo : lo ≤ t) (hhi : t + 8 ≤ hi) :
    Prog.Completes (At mem lo hi mDevice) (readWord (t + 4))
      fun type st => type = tag.type ∧ At mem lo hi mDevice st := by
  rw [← htag.type]
  exact readWord_spec (by omega) (by omega)

/-- Handling a tag records it. -/
theorem handleTag_spec {tag : Tag} (htag : Holds mem t tag) (hlo : lo ≤ t)
    (hhi : t + tag.span ≤ hi) {fuel : Nat} (hfuel : ∀ s, tag = .cmdline s → s.length < fuel) :
    Prog.Completes (At mem lo hi mDevice) (handleTag fuel t tag.type)
      fun _ => At mem lo hi (tag.recordTag t mDevice) := by
  cases tag with
  | cmdline s =>
    have hlt := Tag.length_lt_stringWords s
    have hspan : (Tag.cmdline s).span = 4 * (2 + Tag.stringWords s) := rfl
    exact Prog.Completes.bind_eq
      (readString_at (htag.text s rfl) (by omega) (by omega) (hfuel s rfl)) (setDevice_spec _)
  | magldr      => exact setDevice_spec fun mDevice => { mDevice with nandBoot := true }
  | core        => exact Prog.Completes.pure fun _ h => h
  | initrd2 _ _ => exact Prog.Completes.pure fun _ h => h
  | none        => exact Prog.Completes.pure fun _ h => h

/-- **One tag.**  The parser records it and goes on behind it, reading nothing else. -/
theorem parseTag_spec {tag : Tag} (htag : Holds mem t tag) (hlink : tag.Linked) (hlo : lo ≤ t)
    (hhi : t + tag.span ≤ hi) {fuel : Nat} (hfuel : ∀ s, tag = .cmdline s → s.length < fuel) :
    Prog.Completes (At mem lo hi mDevice) (parseTag fuel t)
      fun r st => r = .inl (t + tag.span) ∧ At mem lo hi (tag.recordTag t mDevice) st := by
  have hpos := hlink.size_pos
  have hspan := hlink.span_eq
  have hne := sizeWord_ne_zero hpos hlink.size_lt
  have hnext := toNat_sizeWord_mul hlink.size_lt
  rw [← hspan] at hnext
  refine Prog.Completes.bind_eq (readSize_spec htag hlo (by omega))
    (Prog.Completes.bind_eq (readType_spec htag hlo (by omega)) ?_)
  rw [if_neg fun h => hne h.1, if_neg hlink.type_ne, hnext]
  refine Prog.Completes.bind (handleTag_spec htag hlo hhi hfuel) fun _ => ?_
  exact Prog.Completes.pure fun _ h => ⟨rfl, h⟩

/-- At the end of the list the parser returns. -/
theorem parseTag_none (htag : Holds mem t .none) (hlo : lo ≤ t) (hhi : t + 8 ≤ hi) (fuel : Nat) :
    Prog.Completes (At mem lo hi mDevice) (parseTag fuel t)
      fun r st => r = .inr t ∧ At mem lo hi mDevice st := by
  refine Prog.Completes.bind_eq (readSize_spec htag hlo hhi)
    (Prog.Completes.bind_eq (readType_spec htag hlo hhi) ?_)
  have htype : Tag.none.type = atagNone := rfl
  rw [if_neg fun h => h.2 htype, if_pos htype]
  exact Prog.Completes.pure fun _ h => ⟨rfl, h⟩

/-! ### The list -/

/-- The loop records the tags and ends at the end of the list. -/
theorem parseTags_spec {tags : List Tag} (htags : HoldsTags mem t (tags ++ [.none]))
    (hlink : ∀ tag ∈ tags, tag.Linked) (hlo : lo ≤ t) (hhi : t + span tags + 8 ≤ hi)
    {fuel limit : Nat} (hfuel : ∀ s, .cmdline s ∈ tags → s.length < fuel)
    (hlimit : tags.length < limit) :
    Prog.Completes (At mem lo hi mDevice) (Prog.loop (parseTag fuel) limit t)
      fun r st => r = t + span tags ∧ At mem lo hi (recordTags t mDevice tags) st := by
  -- by induction on the tags, each of which takes one turn of the loop
  induction tags generalizing t mDevice limit with
  | nil =>
    obtain ⟨limit, rfl⟩ := Nat.exists_eq_succ_of_ne_zero (Nat.ne_of_gt hlimit)
    rw [span_nil, Nat.add_zero] at hhi ⊢
    refine Prog.Completes.bind_eq (parseTag_none htags.1 hlo hhi fuel) ?_
    exact Prog.Completes.pure fun _ h => ⟨rfl, h⟩
  | cons tag tags ih =>
    obtain ⟨limit, rfl⟩ := Nat.exists_eq_succ_of_ne_zero (Nat.ne_of_gt (Nat.zero_lt_of_lt hlimit))
    obtain ⟨htag, htags⟩ := htags
    obtain ⟨hl, hlink⟩ := List.forall_mem_cons.mp hlink
    rw [htag.next hl] at htags
    rw [span_cons, ← Nat.add_assoc] at hhi ⊢
    rw [List.length_cons] at hlimit
    refine Prog.Completes.bind_eq (parseTag_spec htag hl hlo (by omega) fun s hs => ?_) ?_
    · exact hfuel s (hs ▸ List.mem_cons_self)
    · exact ih htags hlink (by omega) hhi (fun s hs => hfuel s (List.mem_cons_of_mem _ hs))
        (by omega)

/-- **The parser records a list of tags** that starts with `ATAG_CORE`, and ends at the end of the
    list, having read nothing else. -/
theorem parseAtags_spec {startAddr : U32} {tags rest : List Tag} (hcore : tags = .core :: rest)
    (htags : HoldsTags mem startAddr.toNat (tags ++ [.none])) (hlink : ∀ tag ∈ tags, tag.Linked)
    {fuel : Nat} (hfuel : ∀ s, .cmdline s ∈ tags → s.length < fuel) (hlimit : tags.length < fuel)
    (mDevice : HtcDevice) :
    ∃ st, parseAtags fuel startAddr ⟨mem, [], mDevice⟩
        = (some (startAddr.toNat + span tags), st) ∧
      At mem startAddr.toNat (startAddr.toNat + span tags + 8)
        (recordTags startAddr.toNat mDevice tags) st := by
  have hparse : Prog.Completes
      (At mem startAddr.toNat (startAddr.toNat + span tags + 8) mDevice)
      (parseAtags fuel startAddr)
      fun t st => t = startAddr.toNat + span tags ∧
        At mem startAddr.toNat (startAddr.toNat + span tags + 8)
          (recordTags startAddr.toNat mDevice tags) st := by
    have hfirst : Holds mem startAddr.toNat .core := by
      subst hcore
      exact htags.1
    have htype : Tag.core.type = atagCore := rfl
    refine Prog.Completes.bind_eq (readType_spec hfirst (Nat.le_refl _) (by omega)) ?_
    rw [if_neg fun h => h htype]
    exact parseTags_spec htags hlink (Nat.le_refl _) (Nat.le_refl _) hfuel hlimit
  obtain ⟨t, st, hrun, rfl, hat⟩ := hparse ⟨mem, [], mDevice⟩ ⟨rfl, by simp, rfl⟩
  exact ⟨st, hrun, hat⟩

end HtcLeo.Atags

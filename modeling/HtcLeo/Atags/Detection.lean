import HtcLeo.Atags.ParseAtags

namespace HtcLeo.Atags

/-!
# Device detection

`DeviceDetectionDxeInit` (`GPLDrivers/DeviceDetectionDxe/DeviceDetectionDxe.c`), as far as it
detects the device: `ParseAtags` on what the previous boot stage has left, and the fallback to the
version of the SPL.

* `ListedTag` — a tag of any type and size; `TagList` — a well-formed list of them.
* `detectDevice` — the driver, on the record that is all zero at first.
* `detects_list`, `detects_noList` — what it leaves in the record.
* `expectedType` — the type it should leave.
* `detection_iff` — when it does, whatever the order of the tags.
-/

/-! ### Tag lists -/

/-- A tag: its type, its size in words, and the command line, if it is one. -/
structure ListedTag where
  type : U32
  size : Nat
  text : List Byte

namespace ListedTag

/-- The tag can be before another one: it has a header, its size in bytes fits a word, and a
    command line is inside it. -/
structure Linked (tag : ListedTag) : Prop where
  size_ge : 2 ≤ tag.size
  size_lt : tag.size < 2 ^ 30
  type_ne : tag.type ≠ atagNone
  text_le : tag.type = atagCmdline → 8 + tag.text.length + 1 ≤ 4 * tag.size

/-- The tag stands at `a`. -/
structure HoldsAt (m : Memory) (a : Nat) (tag : ListedTag) : Prop where
  size : Memory.load32 m a = BitVec.ofNat 32 tag.size
  type : Memory.load32 m (a + 4) = tag.type
  text : tag.type = atagCmdline → HoldsString m (a + 8) tag.text

/-- The bytes of the tags. -/
def span (tags : List ListedTag) : Nat := (tags.map fun tag => 4 * tag.size).sum

/-- The tags stand at `a`, one behind the other, and `ATAG_NONE` behind them. -/
def HoldsList (m : Memory) : Nat → List ListedTag → Prop
  | a, []          => Memory.load32 m (a + 4) = atagNone
  | a, tag :: tags => tag.HoldsAt m a ∧ HoldsList m (a + 4 * tag.size) tags

end ListedTag

/-- A well-formed list: `ATAG_CORE`, and the tags between it and `ATAG_NONE`. -/
structure TagList where
  core : ListedTag
  inner : List ListedTag
  coreType : core.type = atagCore
  linked : ∀ tag ∈ core :: inner, tag.Linked
  oneCmdline : (inner.filter fun tag => tag.type == atagCmdline).length ≤ 1

/-- What the previous boot stage has left at `a`: a list, or something that is none. -/
def HoldsArea (m : Memory) (a : Nat) : Option TagList → Prop
  | some list =>
      ListedTag.HoldsList m a (list.core :: list.inner) ∧
        a + ListedTag.span (list.core :: list.inner) + 8 ≤ 2 ^ 32
  | none      => Memory.load32 m (a + 4) ≠ atagCore

/-! ### The driver -/

/-- `mSystemMemoryBase + 0x100`. -/
def tagAddress : U32 := 0x11800000 + 0x100

/-- `SPL_ADRESS`. -/
def splAddress : Nat := 0x1004

/-- `ParseSPLVersion`. -/
def parseSplVersion (s : List Byte) : DeviceType :=
  if s = ascii "SPL-1.42.HSPL" ∨ s = ascii "SPL-1.48.HSPL" ∨ s = ascii "SPL-1.66.HSPL" ∨
      s = ascii "SPL-1.72.HSPL" ∨ s = ascii "SPL-2.08.HSPL" then .leo
  else if s = ascii "HSPL3.1.2250.0" then .schubert
  else .unknown

/-- `GetStringFromMemory`, for an allocation that succeeds: the string in the bytes read. -/
def getStringFromMemory (m : Memory) (a readSize : Nat) : List Byte :=
  ((List.range readSize).map fun i => m (a + i)).takeWhile (· ≠ 0)

/-- The version of the SPL. -/
def splVersion (m : Memory) : List Byte := getStringFromMemory m splAddress 9

/-- `SPLDetectDevice`; the command line becomes the empty string at `emptyString`. -/
def splDetectDevice (emptyString : Nat) : Prog Parser Unit :=
  Prog.modify fun st =>
    { st with
      device := ⟨parseSplVersion (splVersion st.mem), false, true, emptyString⟩
      reads := (splAddress, 9) :: st.reads }

/-- `mDevice` before it is touched: `LEO` is 0. -/
def HtcDevice.zero : HtcDevice := ⟨.leo, false, false, 0⟩

/-- The detection of `DeviceDetectionDxeInit`. -/
def detectDevice (fuel emptyString : Nat) : Prog Parser Unit := do
  let _ ← parseAtags fuel tagAddress
  let mDevice ← Prog.query fun st => (st.device, st)
  if mDevice.type ≠ .unknown then pure ()
  else splDetectDevice emptyString

/-! ### What the tags leave -/

/-- The fields of the record that say what device it is. -/
structure Detection where
  type : DeviceType
  cLK : Bool
  nandBoot : Bool
  deriving DecidableEq

/-- The fields of a record. -/
def HtcDevice.detection (d : HtcDevice) : Detection := ⟨d.type, d.cLK, d.nandBoot⟩

/-- What a tag leaves in them. -/
def Detection.record (d : Detection) (tag : ListedTag) : Detection :=
  if tag.type = atagCmdline then
    { d with cLK := detectCLK (some tag.text), type := atagsDetectDevice tag.text }
  else if tag.type = atagClk then { d with cLK := true }
  else if tag.type = atagNandBootMagldr then { d with nandBoot := true }
  else d

/-- The memory is what it was, and the record says what device it is. -/
def Detected (mem : Memory) (d : Detection) (st : Parser) : Prop :=
  st.mem = mem ∧ st.device.detection = d

variable {mem : Memory} {t : Nat} {d : Detection}

/-- Reading changes neither. -/
theorem detected_readWord (mem : Memory) (d : Detection) (a : Nat) :
    Prog.Completes (Detected mem d) (readWord a)
    fun w st => w = Memory.load32 mem a ∧ Detected mem d st := by
  apply Prog.Completes.query
  intro st h
  exact ⟨by rw [h.1], h⟩

/-- Nor does reading a byte. -/
theorem detected_readByte (a : Nat) : Prog.Completes (Detected mem d) (readByte a)
    fun b st => b = mem a ∧ Detected mem d st := by
  apply Prog.Completes.query
  intro st h
  exact ⟨by rw [h.1], h⟩

/-- Changing the record. -/
theorem detected_setDevice {f : HtcDevice → HtcDevice} {d' : Detection}
    (hf : ∀ mDevice : HtcDevice, mDevice.detection = d → (f mDevice).detection = d') :
    Prog.Completes (Detected mem d) (setDevice f) fun _ => Detected mem d' := by
  apply Prog.Completes.modify
  intro st h
  exact ⟨h.1, hf st.device h.2⟩

/-- Handling a tag records it. -/
theorem detected_handleTag {tag : ListedTag} (htag : tag.HoldsAt mem t) {fuel : Nat}
    (hfuel : tag.type = atagCmdline → tag.text.length < fuel) :
    Prog.Completes (Detected mem d) (handleTag fuel t tag.type)
      fun _ => Detected mem (d.record tag) := by
  unfold handleTag Detection.record
  split
  · next hcmdline =>
    refine Prog.Completes.bind_eq (readString_spec (htag.text hcmdline) ?_ (hfuel hcmdline))
      (detected_setDevice fun mDevice h => ?_)
    · exact fun i _ => detected_readByte (t + 8 + i)
    · rw [← h]
      rfl
  · split
    · exact detected_setDevice fun mDevice h => by rw [← h]; rfl
    · split
      · exact detected_setDevice fun mDevice h => by rw [← h]; rfl
      · exact Prog.Completes.pure fun _ h => h

/-- The parser records a tag and goes on behind it. -/
theorem detected_parseTag {tag : ListedTag} (htag : tag.HoldsAt mem t) (hlink : tag.Linked)
    {fuel : Nat} (hfuel : tag.type = atagCmdline → tag.text.length < fuel) :
    Prog.Completes (Detected mem d) (parseTag fuel t)
      fun r st => r = .inl (t + 4 * tag.size) ∧ Detected mem (d.record tag) st := by
  have hne := sizeWord_ne_zero hlink.size_ge hlink.size_lt
  have hnext := toNat_sizeWord_mul hlink.size_lt
  have hsizeRead := detected_readWord mem d t
  have htypeRead := detected_readWord mem d (t + 4)
  rw [htag.size] at hsizeRead
  rw [htag.type] at htypeRead
  refine Prog.Completes.bind_eq hsizeRead (Prog.Completes.bind_eq htypeRead ?_)
  rw [if_neg fun h => hne h.1, if_neg hlink.type_ne, hnext]
  refine Prog.Completes.bind (detected_handleTag htag hfuel) fun _ => ?_
  exact Prog.Completes.pure fun _ h => ⟨rfl, h⟩

/-- At `ATAG_NONE` the parser returns. -/
theorem detected_parseTag_none (hnone : Memory.load32 mem (t + 4) = atagNone) (fuel : Nat) :
    Prog.Completes (Detected mem d) (parseTag fuel t)
      fun r st => r = .inr t ∧ Detected mem d st := by
  have htypeRead := detected_readWord mem d (t + 4)
  rw [hnone] at htypeRead
  refine Prog.Completes.bind_eq (detected_readWord mem d t) (Prog.Completes.bind_eq htypeRead ?_)
  rw [if_neg fun h => h.2 rfl, if_pos rfl]
  exact Prog.Completes.pure fun _ h => ⟨rfl, h⟩

/-- The loop records the tags. -/
theorem detected_parseTags {tags : List ListedTag} (htags : ListedTag.HoldsList mem t tags)
    (hlink : ∀ tag ∈ tags, tag.Linked) {fuel limit : Nat}
    (hfuel : ∀ tag ∈ tags, tag.type = atagCmdline → tag.text.length < fuel)
    (hlimit : tags.length < limit) :
    Prog.Completes (Detected mem d) (Prog.loop (parseTag fuel) limit t)
      fun _ => Detected mem (tags.foldl Detection.record d) := by
  -- by induction on the tags, each of which takes one turn of the loop
  induction tags generalizing t d limit with
  | nil =>
    obtain ⟨limit, rfl⟩ := Nat.exists_eq_succ_of_ne_zero (Nat.ne_of_gt hlimit)
    exact Prog.Completes.bind_eq (detected_parseTag_none htags fuel)
      (Prog.Completes.pure fun _ h => h)
  | cons tag tags ih =>
    obtain ⟨limit, rfl⟩ := Nat.exists_eq_succ_of_ne_zero (Nat.ne_of_gt (Nat.zero_lt_of_lt hlimit))
    obtain ⟨htag, htags⟩ := htags
    obtain ⟨hl, hlink⟩ := List.forall_mem_cons.mp hlink
    obtain ⟨hf, hfuel⟩ := List.forall_mem_cons.mp hfuel
    rw [List.length_cons] at hlimit
    exact Prog.Completes.bind_eq (detected_parseTag htag hl hf)
      (ih htags hlink hfuel (by omega))

/-! ### The fold over the tags -/

/-- There is a tag of the type. -/
def HasTag (type : U32) (tags : List ListedTag) : Prop := ∃ tag ∈ tags, tag.type = type

/-- Looking for a tag. -/
def hasTag (type : U32) (tags : List ListedTag) : Bool := tags.any fun tag => tag.type == type

theorem hasTag_iff {type : U32} {tags : List ListedTag} :
    hasTag type tags = true ↔ HasTag type tags := by
  unfold hasTag HasTag
  simp

theorem hasTag_cons (type : U32) (tag : ListedTag) (tags : List ListedTag) :
    hasTag type (tag :: tags) = (tag.type == type || hasTag type tags) := rfl

/-- Tags without a command line set flags only. -/
theorem foldl_record_of_no_cmdline {tags : List ListedTag} (h : ¬ HasTag atagCmdline tags)
    (d : Detection) : tags.foldl Detection.record d
      = ⟨d.type, d.cLK || hasTag atagClk tags, d.nandBoot || hasTag atagNandBootMagldr tags⟩ := by
  induction tags generalizing d with
  | nil =>
    show d = ⟨d.type, d.cLK || false, d.nandBoot || false⟩
    rw [Bool.or_false, Bool.or_false]
  | cons tag tags ih =>
    have hne : tag.type ≠ atagCmdline := fun heq => h ⟨tag, List.mem_cons_self, heq⟩
    have hrest : ¬ HasTag atagCmdline tags :=
      fun ⟨tag', hmem, heq⟩ => h ⟨tag', List.mem_cons_of_mem _ hmem, heq⟩
    rw [List.foldl_cons, ih hrest, hasTag_cons, hasTag_cons]
    unfold Detection.record
    rw [if_neg hne]
    by_cases hclk : tag.type = atagClk
    · rw [if_pos hclk, hclk]
      simp only [BEq.rfl, Bool.true_or, Bool.or_true]
      rfl
    · rw [if_neg hclk, beq_eq_false_iff_ne.mpr hclk, Bool.false_or]
      by_cases hmagl : tag.type = atagNandBootMagldr
      · rw [if_pos hmagl, hmagl]
        simp only [BEq.rfl, Bool.true_or, Bool.or_true]
      · rw [if_neg hmagl, beq_eq_false_iff_ne.mpr hmagl, Bool.false_or]

/-- With one command line, what it says of the device is kept, and what it says of cLK, unless an
    `ATAG_CLK` follows. -/
theorem foldl_record_of_cmdline {pre post : List ListedTag} {tag : ListedTag}
    (htype : tag.type = atagCmdline) (hpre : ¬ HasTag atagCmdline pre)
    (hpost : ¬ HasTag atagCmdline post) (d : Detection) :
    (pre ++ tag :: post).foldl Detection.record d
      = ⟨atagsDetectDevice tag.text, detectCLK (some tag.text) || hasTag atagClk post,
          d.nandBoot || hasTag atagNandBootMagldr pre || hasTag atagNandBootMagldr post⟩ := by
  rw [List.foldl_append, List.foldl_cons, foldl_record_of_no_cmdline hpre,
    foldl_record_of_no_cmdline hpost]
  unfold Detection.record
  rw [if_pos htype]

/-- Where there is at most one command line, there is none, or one with none before or behind
    it. -/
theorem cmdline_split {tags : List ListedTag}
    (h : (tags.filter fun tag => tag.type == atagCmdline).length ≤ 1) :
    ¬ HasTag atagCmdline tags ∨ ∃ pre tag post, tags = pre ++ tag :: post ∧
      tag.type = atagCmdline ∧ ¬ HasTag atagCmdline pre ∧ ¬ HasTag atagCmdline post := by
  induction tags with
  | nil => exact .inl fun ⟨_, hmem, _⟩ => absurd hmem List.not_mem_nil
  | cons tag tags ih =>
    by_cases htype : tag.type = atagCmdline
    · -- the one command line: the others are none
      rw [List.filter_cons_of_pos (by simp [htype]), List.length_cons] at h
      have hnil := List.length_eq_zero_iff.mp (by omega :
        (tags.filter fun tag => tag.type == atagCmdline).length = 0)
      refine .inr ⟨[], tag, tags, rfl, htype, fun ⟨_, hmem, _⟩ => absurd hmem List.not_mem_nil, ?_⟩
      intro ⟨tag', hmem, htype'⟩
      exact List.filter_eq_nil_iff.mp hnil tag' hmem (by simp [htype'])
    · rw [List.filter_cons_of_neg (by simp [htype])] at h
      obtain hnone | ⟨pre, tag', post, rfl, htype', hpre, hpost⟩ := ih h
      · refine .inl fun ⟨tag', hmem, htype'⟩ => ?_
        rcases List.mem_cons.mp hmem with rfl | hmem
        · exact htype htype'
        · exact hnone ⟨tag', hmem, htype'⟩
      · refine .inr ⟨tag :: pre, tag', post, rfl, htype', ?_, hpost⟩
        intro ⟨tag'', hmem, htype''⟩
        rcases List.mem_cons.mp hmem with rfl | hmem
        · exact htype htype''
        · exact hpre ⟨tag'', hmem, htype''⟩

/-! ### The strings -/

/-- A command line that says that cLK has booted one of the devices names the device. -/
theorem detectDevice_of_detectCLK {s : List Byte} (h : detectCLK (some s) = true) :
    atagsDetectDevice s ≠ .unknown := by
  unfold detectCLK at h
  unfold atagsDetectDevice
  cases hleo : asciiStrStr s (ascii "androidboot.hardware=leo") with
  | true => simp
  | false =>
    cases hschubert : asciiStrStr s (ascii "androidboot.hardware=schubert") with
    | true => simp
    | false => simp [hleo, hschubert] at h

/-- Nine bytes are none of the versions, which are longer. -/
theorem parseSplVersion_unknown (m : Memory) : parseSplVersion (splVersion m) = .unknown := by
  have hlen : (splVersion m).length ≤ 9 := by
    unfold splVersion getStringFromMemory
    have htake := (List.takeWhile_prefix (l := (List.range 9).map fun i => m (splAddress + i))
      fun b => b ≠ 0).length_le
    rwa [List.length_map, List.length_range] at htake
  have hne : ∀ s : List Byte, 9 < s.length → splVersion m ≠ s := by
    intro s hs heq
    rw [heq] at hlen
    omega
  unfold parseSplVersion
  rw [if_neg, if_neg (hne _ (by decide))]
  rintro (heq | heq | heq | heq | heq)
  all_goals exact hne _ (by decide) heq

/-! ### What the driver leaves -/

/-- The fallback to the SPL. -/
def Detection.finish (mem : Memory) (d : Detection) : Detection :=
  if d.type ≠ .unknown then d else ⟨parseSplVersion (splVersion mem), false, true⟩

/-- The driver ends, and leaves `d` in the record. -/
def Detects (fuel emptyString : Nat) (mem : Memory) (d : Detection) : Prop :=
  ∃ st, detectDevice fuel emptyString ⟨mem, [], HtcDevice.zero⟩ = (some (), st) ∧
    st.device.detection = d

/-- What the driver leaves is unique. -/
theorem Detects.unique {fuel emptyString : Nat} {mem : Memory} {d d' : Detection}
    (h : Detects fuel emptyString mem d) (h' : Detects fuel emptyString mem d') : d = d' := by
  obtain ⟨st, hrun, rfl⟩ := h
  obtain ⟨st', hrun', rfl⟩ := h'
  rw [hrun] at hrun'
  cases hrun'
  rfl

/-- The driver finishes what the parser has left. -/
theorem detects_finish {fuel emptyString : Nat} {mem : Memory} {d : Detection}
    (hparse : Prog.Completes (Detected mem HtcDevice.zero.detection) (parseAtags fuel tagAddress)
      fun _ => Detected mem d) : Detects fuel emptyString mem (d.finish mem) := by
  have hall : Prog.Completes (Detected mem HtcDevice.zero.detection)
      (detectDevice fuel emptyString) fun _ => Detected mem (d.finish mem) := by
    refine Prog.Completes.bind hparse fun _ => ?_
    intro st hst
    obtain ⟨hmem, hdevice⟩ := hst
    have htype : st.device.type = d.type := by rw [← hdevice]; rfl
    unfold Detection.finish
    by_cases hunknown : d.type ≠ .unknown
    · refine ⟨(), st, Prog.bind_of rfl ?_, hmem, ?_⟩
      · rw [if_pos (htype ▸ hunknown)]
        rfl
      · rw [if_pos hunknown]
        exact hdevice
    · refine ⟨(), (splDetectDevice emptyString st).2, Prog.bind_of rfl ?_, ?_⟩
      · rw [if_neg (htype ▸ hunknown)]
        rfl
      · rw [if_neg hunknown, ← hmem]
        exact ⟨rfl, rfl⟩
  obtain ⟨⟨⟩, st, hrun, -, hdevice⟩ := hall ⟨mem, [], HtcDevice.zero⟩ ⟨rfl, rfl⟩
  exact ⟨st, hrun, hdevice⟩

/-- The tags of a list, and a command line among them, are shorter than the address space. -/
theorem lt_of_span {tags : List ListedTag} (hlink : ∀ tag ∈ tags, tag.Linked) {a : Nat}
    (hfits : a + ListedTag.span tags + 8 ≤ 2 ^ 32) :
    tags.length < 2 ^ 32 ∧
      ∀ tag ∈ tags, tag.type = atagCmdline → tag.text.length < 2 ^ 32 := by
  have hspan : 8 * tags.length ≤ ListedTag.span tags ∧
      ∀ tag ∈ tags, 4 * tag.size ≤ ListedTag.span tags := by
    clear hfits
    unfold ListedTag.span
    induction tags with
    | nil => exact ⟨Nat.le_refl 0, fun _ hmem => absurd hmem List.not_mem_nil⟩
    | cons tag tags ih =>
      obtain ⟨hl, hlink⟩ := List.forall_mem_cons.mp hlink
      obtain ⟨hlen, hmem⟩ := ih hlink
      have hge := hl.size_ge
      rw [List.map_cons, List.sum_cons, List.length_cons]
      refine ⟨by omega, List.forall_mem_cons.mpr ⟨by omega, fun tag' hmem' => ?_⟩⟩
      have hle := hmem tag' hmem'
      omega
  refine ⟨by omega, fun tag hmem htype => ?_⟩
  have hle := hspan.2 tag hmem
  have htext := (hlink tag hmem).text_le htype
  omega

section
variable {fuel : Nat} (hfuel : 2 ^ 32 ≤ fuel) (emptyString : Nat)
include hfuel

/-- What the driver leaves of a list. -/
theorem detects_list {list : TagList} (harea : HoldsArea mem tagAddress.toNat (some list)) :
    Detects fuel emptyString mem
      ((list.inner.foldl Detection.record HtcDevice.zero.detection).finish mem) := by
  obtain ⟨hlist, hfits⟩ := harea
  obtain ⟨hlength, htext⟩ := lt_of_span list.linked hfits
  have hcore : HtcDevice.zero.detection.record list.core = HtcDevice.zero.detection := by
    unfold Detection.record
    rw [list.coreType]
    rfl
  have hparse : Prog.Completes (Detected mem HtcDevice.zero.detection)
      (parseAtags fuel tagAddress)
      fun _ => Detected mem (list.inner.foldl Detection.record HtcDevice.zero.detection) := by
    have hfirst := detected_readWord mem HtcDevice.zero.detection (tagAddress.toNat + 4)
    rw [hlist.1.type, list.coreType] at hfirst
    refine Prog.Completes.bind_eq hfirst ?_
    rw [if_neg fun h => h rfl]
    have hall := detected_parseTags (d := HtcDevice.zero.detection) hlist list.linked
      (fun tag hmem htype => Nat.lt_of_lt_of_le (htext tag hmem htype) hfuel)
      (Nat.lt_of_lt_of_le hlength hfuel)
    rw [List.foldl_cons, hcore] at hall
    exact hall
  exact detects_finish hparse

omit hfuel in
/-- Without a list the record stays as it is, and `LEO` is taken for detected. -/
theorem detects_noList (fuel : Nat) (harea : HoldsArea mem tagAddress.toNat none) :
    Detects fuel emptyString mem HtcDevice.zero.detection := by
  have hparse : Prog.Completes (Detected mem HtcDevice.zero.detection)
      (parseAtags fuel tagAddress) fun _ => Detected mem HtcDevice.zero.detection := by
    refine Prog.Completes.bind (detected_readWord mem _ (tagAddress.toNat + 4)) fun first => ?_
    intro st hst
    obtain ⟨hfirst, hdetected⟩ := hst
    refine ⟨tagAddress.toNat, st, ?_, hdetected⟩
    rw [if_pos (by rw [hfirst]; exact harea)]
    rfl
  exact detects_finish hparse

end

/-! ### What it should leave -/

/-- The tags between `ATAG_CORE` and `ATAG_NONE`. -/
def innerTags (area : Option TagList) : List ListedTag := area.elim [] TagList.inner

/-- The type by the command line, if it names one, and by the SPL otherwise. -/
def expectedType (mem : Memory) (tags : List ListedTag) : DeviceType :=
  match tags.find? fun tag => tag.type == atagCmdline with
  | some tag =>
      if atagsDetectDevice tag.text ≠ .unknown then atagsDetectDevice tag.text
      else parseSplVersion (splVersion mem)
  | none => parseSplVersion (splVersion mem)

/-- The record says what the tags and the SPL say, in whatever order the tags are. -/
structure Expected (mem : Memory) (tags : List ListedTag) (d : Detection) : Prop where
  cLK : d.cLK = true ↔ HasTag atagClk tags ∨
    ∃ tag ∈ tags, tag.type = atagCmdline ∧ detectCLK (some tag.text) = true
  nandBoot : HasTag atagNandBootMagldr tags → d.nandBoot = true
  type : d.type = expectedType mem tags

/-- No `ATAG_CLK` is forgotten: not by the fallback, which a command line that names no device
    leads to, nor by a command line behind it that does not say the same. -/
def ClkKept (pre : List ListedTag) (s : List Byte) (post : List ListedTag) : Prop :=
  if atagsDetectDevice s = .unknown then ¬ HasTag atagClk pre ∧ ¬ HasTag atagClk post
  else detectCLK (some s) = true ∨ ¬ HasTag atagClk pre ∨ HasTag atagClk post

/-- There is a list with a command line, and no `ATAG_CLK` of it is forgotten. -/
def Meets (area : Option TagList) : Prop :=
  ∃ pre tag post, innerTags area = pre ++ tag :: post ∧ tag.type = atagCmdline ∧
    ¬ HasTag atagCmdline pre ∧ ¬ HasTag atagCmdline post ∧ ClkKept pre tag.text post

/-- Tags around one of them. -/
theorem hasTag_split {type : U32} {pre post : List ListedTag} {tag : ListedTag} :
    HasTag type (pre ++ tag :: post) ↔
      HasTag type pre ∨ tag.type = type ∨ HasTag type post := by
  unfold HasTag
  simp only [List.mem_append, List.mem_cons]
  constructor
  · intro ⟨tag', hmem, htype⟩
    rcases hmem with hpre | rfl | hpost
    · exact .inl ⟨tag', hpre, htype⟩
    · exact .inr (.inl htype)
    · exact .inr (.inr ⟨tag', hpost, htype⟩)
  · rintro (⟨tag', hmem, htype⟩ | htype | ⟨tag', hmem, htype⟩)
    · exact ⟨tag', .inl hmem, htype⟩
    · exact ⟨tag, .inr (.inl rfl), htype⟩
    · exact ⟨tag', .inr (.inr hmem), htype⟩

section
variable {pre post : List ListedTag} {tag : ListedTag} (htype : tag.type = atagCmdline)
  (hpre : ¬ HasTag atagCmdline pre) (hpost : ¬ HasTag atagCmdline post)
include htype hpre hpost

/-- The command line is the tag that is found. -/
theorem mem_cmdline_iff (tag' : ListedTag) :
    (tag' ∈ pre ++ tag :: post ∧ tag'.type = atagCmdline) ↔ tag' = tag := by
  constructor
  · intro ⟨hmem, htype'⟩
    rcases List.mem_append.mp hmem with hmem | hmem
    · exact absurd ⟨tag', hmem, htype'⟩ hpre
    · rcases List.mem_cons.mp hmem with rfl | hmem
      · rfl
      · exact absurd ⟨tag', hmem, htype'⟩ hpost
  · rintro rfl
    exact ⟨List.mem_append_right _ List.mem_cons_self, htype⟩

omit hpost in
variable (post) in
/-- The type that is expected with a command line. -/
theorem expectedType_split (mem : Memory) : expectedType mem (pre ++ tag :: post)
    = if atagsDetectDevice tag.text ≠ .unknown then atagsDetectDevice tag.text
      else parseSplVersion (splVersion mem) := by
  have hnone : pre.find? (fun tag => tag.type == atagCmdline) = none := by
    rw [List.find?_eq_none]
    intro tag' hmem heq
    exact hpre ⟨tag', hmem, by simpa using heq⟩
  unfold expectedType
  rw [List.find?_append, hnone, Option.none_or, List.find?_cons_of_pos (by simp [htype])]

/-- What is left of the NAND flag with a command line. -/
theorem nandBoot_split_iff (mem : Memory) :
    (((pre ++ tag :: post).foldl Detection.record HtcDevice.zero.detection).finish mem).nandBoot
        = true ↔
      atagsDetectDevice tag.text = .unknown ∨ HasTag atagNandBootMagldr (pre ++ tag :: post) := by
  rw [foldl_record_of_cmdline htype hpre hpost]
  unfold Detection.finish
  by_cases hunknown : atagsDetectDevice tag.text = .unknown
  · rw [if_neg (not_not.mpr hunknown)]
    exact iff_of_true rfl (.inl hunknown)
  · rw [if_pos hunknown, hasTag_split, htype]
    have hne : atagCmdline ≠ atagNandBootMagldr := by decide
    simp only [Bool.or_eq_true, hasTag_iff]
    simp [hunknown, hne, HtcDevice.zero, HtcDevice.detection]

/-- What is left with a command line is what is expected exactly when no `ATAG_CLK` is
    forgotten. -/
theorem expected_split_iff (mem : Memory) :
    Expected mem (pre ++ tag :: post)
        (((pre ++ tag :: post).foldl Detection.record HtcDevice.zero.detection).finish mem) ↔
      ClkKept pre tag.text post := by
  have hclk : HasTag atagClk (pre ++ tag :: post) ↔ HasTag atagClk pre ∨ HasTag atagClk post := by
    have hne : atagCmdline ≠ atagClk := by decide
    rw [hasTag_split, htype, or_iff_right hne]
  have hmagl : HasTag atagNandBootMagldr (pre ++ tag :: post) ↔
      HasTag atagNandBootMagldr pre ∨ HasTag atagNandBootMagldr post := by
    have hne : atagCmdline ≠ atagNandBootMagldr := by decide
    rw [hasTag_split, htype, or_iff_right hne]
  have hcmdline : (∃ tag' ∈ pre ++ tag :: post, tag'.type = atagCmdline ∧
      detectCLK (some tag'.text) = true) ↔ detectCLK (some tag.text) = true := by
    constructor
    · intro ⟨tag', hmem, htype', hdetect⟩
      rwa [(mem_cmdline_iff htype hpre hpost tag').mp ⟨hmem, htype'⟩] at hdetect
    · intro hdetect
      exact ⟨tag, List.mem_append_right _ List.mem_cons_self, htype, hdetect⟩
  have htypes := expectedType_split post htype hpre mem
  rw [foldl_record_of_cmdline htype hpre hpost]
  unfold ClkKept Detection.finish
  by_cases hunknown : atagsDetectDevice tag.text = .unknown
  · -- the fallback
    have hdetect : ¬ detectCLK (some tag.text) = true :=
      fun h => detectDevice_of_detectCLK h hunknown
    rw [if_pos hunknown, if_neg (not_not.mpr hunknown)]
    rw [if_neg (not_not.mpr hunknown)] at htypes
    constructor
    · intro h
      have hlost := mt h.cLK.mpr Bool.false_ne_true
      rw [hclk, not_or, not_or] at hlost
      exact hlost.1
    · intro ⟨hpreClk, hpostClk⟩
      refine ⟨?_, fun _ => rfl, htypes.symm⟩
      rw [hcmdline, hclk]
      simp [hdetect, hpreClk, hpostClk]
  · -- the command line names the device
    rw [if_neg hunknown, if_pos hunknown]
    rw [if_pos hunknown] at htypes
    constructor
    · intro h
      have hkept := h.cLK
      simp only [Bool.or_eq_true, hasTag_iff, hclk, hcmdline] at hkept
      by_cases hpreClk : HasTag atagClk pre
      · exact (hkept.mpr (.inl (.inl hpreClk))).imp_right .inr
      · exact .inr (.inl hpreClk)
    · intro hkept
      refine ⟨?_, ?_, htypes.symm⟩
      · simp only [Bool.or_eq_true, hasTag_iff, hclk, hcmdline]
        constructor
        · exact fun h => h.elim .inr fun hpostClk => .inl (.inr hpostClk)
        · rintro ((hpreClk | hpostClk) | hdetect)
          · -- an `ATAG_CLK` before the command line
            exact hkept.imp_right fun h => h.resolve_left (not_not.mpr hpreClk)
          · exact .inr hpostClk
          · exact .inl hdetect
      · intro h
        simp only [Bool.or_eq_true, hasTag_iff]
        exact (hmagl.mp h).imp_left .inr

end

/-- The record is what is expected exactly when there is a list with a command line, and no
    `ATAG_CLK` of it is forgotten. -/
theorem expected_iff {fuel : Nat} (hfuel : 2 ^ 32 ≤ fuel) {emptyString : Nat} {mem : Memory}
    {area : Option TagList} (harea : HoldsArea mem tagAddress.toNat area) {d : Detection}
    (hd : Detects fuel emptyString mem d) : Expected mem (innerTags area) d ↔ Meets area := by
  have hleo : ∀ tags, ¬ HasTag atagCmdline tags → ∀ d : Detection, d.type = .leo →
      ¬ Expected mem tags d := by
    intro tags hnone d hleo h
    have hfind : tags.find? (fun tag => tag.type == atagCmdline) = none := by
      rw [List.find?_eq_none]
      intro tag hmem heq
      exact hnone ⟨tag, hmem, by simpa using heq⟩
    have htype := h.type
    unfold expectedType at htype
    rw [hfind, hleo] at htype
    exact absurd (htype.trans (parseSplVersion_unknown mem)) (by decide)
  cases area with
  | none =>
    have hzero := hd.unique (detects_noList emptyString fuel harea)
    have hnone : ¬ HasTag atagCmdline [] := fun ⟨_, hmem, _⟩ => absurd hmem List.not_mem_nil
    refine iff_of_false (hleo [] hnone d (by rw [hzero]; rfl)) ?_
    intro ⟨pre, tag, post, heq, _⟩
    exact absurd heq.symm (List.append_ne_nil_of_right_ne_nil _ (List.cons_ne_nil _ _))
  | some list =>
    have hlist := hd.unique (detects_list hfuel emptyString harea)
    show Expected mem list.inner d ↔ _
    obtain hnone | ⟨pre, tag, post, heq, htype, hpre, hpost⟩ := cmdline_split list.oneCmdline
    · refine iff_of_false (hleo list.inner hnone d ?_) ?_
      · rw [hlist, foldl_record_of_no_cmdline hnone]
        rfl
      · intro ⟨pre, tag, post, heq, htype, _⟩
        have heq : list.inner = pre ++ tag :: post := heq
        exact hnone (heq ▸ hasTag_split.mpr (.inr (.inl htype)))
    · constructor
      · intro h
        rw [hlist, heq] at h
        exact ⟨pre, tag, post, heq, htype, hpre, hpost,
          (expected_split_iff htype hpre hpost mem).mp h⟩
      · intro ⟨pre', tag', post', heq', htype', hpre', hpost', hkept⟩
        have heq' : list.inner = pre' ++ tag' :: post' := heq'
        rw [hlist, heq']
        exact (expected_split_iff htype' hpre' hpost' mem).mpr hkept

/-! ### Reordered lists -/

/-- The same tags in another order, or no list in both cases. -/
def Reordered : Option TagList → Option TagList → Prop
  | some list, some list' => list.inner.Perm list'.inner
  | none, none            => True
  | _, _                  => False

/-- A reordered list that meets the condition leads to the same record. -/
theorem detects_reordered {fuel : Nat} (hfuel : 2 ^ 32 ≤ fuel) (emptyString : Nat)
    {mem mem' : Memory} {area area' : Option TagList}
    (harea : HoldsArea mem tagAddress.toNat area) (harea' : HoldsArea mem' tagAddress.toNat area')
    (hperm : Reordered area area') (hmeets : Meets area) (hmeets' : Meets area') :
    ∃ d, Detects fuel emptyString mem d ∧ Detects fuel emptyString mem' d := by
  rcases area with _ | list
  · exact absurd hmeets fun ⟨pre, tag, post, heq, _⟩ =>
      absurd heq.symm (List.append_ne_nil_of_right_ne_nil _ (List.cons_ne_nil _ _))
  rcases area' with _ | list'
  · exact hperm.elim
  have hlist := detects_list hfuel emptyString harea
  have hlist' := detects_list hfuel emptyString harea'
  have hexpected := (expected_iff hfuel harea hlist).mpr hmeets
  have hexpected' := (expected_iff hfuel harea' hlist').mpr hmeets'
  obtain ⟨pre, tag, post, heq, htype, hpre, hpost, -⟩ := hmeets
  obtain ⟨pre', tag', post', heq', htype', hpre', hpost', -⟩ := hmeets'
  have heq : list.inner = pre ++ tag :: post := heq
  have heq' : list'.inner = pre' ++ tag' :: post' := heq'
  have hmem : ∀ t, t ∈ list'.inner ↔ t ∈ list.inner := fun t => (hperm.mem_iff).symm
  have hhas : ∀ type, HasTag type list'.inner ↔ HasTag type list.inner := by
    intro type
    unfold HasTag
    simp only [hmem]
  -- the command line is the same tag in both
  have hsame : tag' = tag := by
    have hin : tag' ∈ list.inner :=
      (hmem tag').mp (heq' ▸ List.mem_append_right _ List.mem_cons_self)
    rw [heq] at hin
    exact (mem_cmdline_iff htype hpre hpost tag').mp ⟨hin, htype'⟩
  rw [hsame] at heq'
  have hdetection : ∀ d d' : Detection, d.type = d'.type → (d.cLK = true ↔ d'.cLK = true) →
      (d.nandBoot = true ↔ d'.nandBoot = true) → d' = d := by
    intro d d' htypes hclk hnand
    obtain ⟨type, cLK, nandBoot⟩ := d
    obtain ⟨type', cLK', nandBoot'⟩ := d'
    rw [Detection.mk.injEq]
    exact ⟨htypes.symm, Bool.eq_iff_iff.mpr hclk.symm, Bool.eq_iff_iff.mpr hnand.symm⟩
  have hrecord : (list'.inner.foldl Detection.record HtcDevice.zero.detection).finish mem'
      = (list.inner.foldl Detection.record HtcDevice.zero.detection).finish mem := by
    apply hdetection
    · have hspl : parseSplVersion (splVersion mem) = parseSplVersion (splVersion mem') := by
        rw [parseSplVersion_unknown, parseSplVersion_unknown]
      have htypes := hexpected.type
      have htypes' := hexpected'.type
      change _ = expectedType mem list.inner at htypes
      change _ = expectedType mem' list'.inner at htypes'
      rw [htypes, htypes', heq, heq', expectedType_split post htype hpre,
        expectedType_split post' (hsame ▸ htype') hpre', hspl]
    · rw [hexpected.cLK, hexpected'.cLK]
      show _ ↔ HasTag atagClk list'.inner ∨ ∃ t ∈ list'.inner, _
      rw [hhas]
      simp only [hmem]
      rfl
    · rw [heq, heq', nandBoot_split_iff htype hpre hpost,
        nandBoot_split_iff (hsame ▸ htype') hpre' hpost', ← heq, ← heq', hhas]
  rw [hrecord] at hlist'
  exact ⟨_, hlist, hlist'⟩

/-- **Device detection.**  For what the previous boot stage has left, in two orders, the driver
    ends with one and the same record, which says what the tags and the SPL say, exactly when
    there is a list with a command line and no `ATAG_CLK` of it is forgotten, in either order. -/
theorem detection_iff {fuel : Nat} (hfuel : 2 ^ 32 ≤ fuel) (emptyString : Nat)
    {mem mem' : Memory} {area area' : Option TagList}
    (harea : HoldsArea mem tagAddress.toNat area) (harea' : HoldsArea mem' tagAddress.toNat area')
    (hperm : Reordered area area') :
    (∃ d, Detects fuel emptyString mem d ∧ Detects fuel emptyString mem' d ∧
        Expected mem (innerTags area) d ∧ Expected mem' (innerTags area') d) ↔
      Meets area ∧ Meets area' := by
  constructor
  · intro ⟨d, hd, hd', hexpected, hexpected'⟩
    exact ⟨(expected_iff hfuel harea hd).mp hexpected,
      (expected_iff hfuel harea' hd').mp hexpected'⟩
  · intro ⟨hmeets, hmeets'⟩
    obtain ⟨d, hd, hd'⟩ := detects_reordered hfuel emptyString harea harea' hperm hmeets hmeets'
    exact ⟨d, hd, hd', (expected_iff hfuel harea hd).mpr hmeets,
      (expected_iff hfuel harea' hd').mpr hmeets'⟩

/-! ### Two lists -/

/-- The bytes of a word. -/
def wordBytes (w : U32) : List Byte := (List.range 4).map (Memory.byteOf w)

/-- A memory with these bytes from the address of the tags on. -/
def areaMemory (bytes : List Byte) : Memory :=
  fun a => if tagAddress.toNat ≤ a then bytes.getD (a - tagAddress.toNat) 0 else 0

/-- The command line of a Leo, which does not say `clk=`. -/
def leoText : List Byte := ascii "androidboot.hardware=leo"

/-- Its tag. -/
def leoCmdline : ListedTag := ⟨atagCmdline, 9, leoText⟩

/-- The words of `ATAG_CORE`, and the tag of the command line as bytes. -/
def coreBytes : List Byte := wordBytes 2 ++ wordBytes atagCore
def leoBytes : List Byte := wordBytes 9 ++ wordBytes atagCmdline ++ leoText ++ wordBytes 0

/-- A list with a command line only. -/
def leoList : TagList :=
  ⟨⟨atagCore, 2, []⟩, [leoCmdline], rfl, by
    intro tag hmem
    rcases List.mem_cons.mp hmem with rfl | hmem
    · exact ⟨by decide, by decide, by decide, by decide⟩
    · rw [List.mem_singleton.mp hmem]
      exact ⟨by decide, by decide, by decide, by decide⟩, by decide⟩

/-- It stands in memory. -/
theorem holdsArea_leo :
    HoldsArea (areaMemory (coreBytes ++ leoBytes)) tagAddress.toNat (some leoList) := by
  refine ⟨⟨⟨by decide +kernel, by decide +kernel, fun h => absurd h (by decide)⟩,
    ⟨by decide +kernel, by decide +kernel, fun _ => ⟨by decide +kernel, by decide +kernel⟩⟩, ?_⟩,
    by decide +kernel⟩
  show Memory.load32 _ (tagAddress.toNat + 4 * 2 + 4 * 9 + 4) = atagNone
  decide +kernel

/-- The command line of the list names the device, and there is no `ATAG_CLK`. -/
theorem meets_leo : Meets (some leoList) := by
  have hno : ∀ type, ¬ HasTag type [] := fun _ ⟨_, hmem, _⟩ => absurd hmem List.not_mem_nil
  refine ⟨[], leoCmdline, [], rfl, rfl, hno _, hno _, ?_⟩
  unfold ClkKept
  rw [if_neg (by decide +kernel)]
  exact .inr (.inl (hno _))

/-- A Leo is detected by its command line. -/
theorem detection_iff_leo : ∃ d, Detects (2 ^ 32) 0 (areaMemory (coreBytes ++ leoBytes)) d ∧
    Detects (2 ^ 32) 0 (areaMemory (coreBytes ++ leoBytes)) d ∧
    Expected (areaMemory (coreBytes ++ leoBytes)) (innerTags (some leoList)) d ∧
    Expected (areaMemory (coreBytes ++ leoBytes)) (innerTags (some leoList)) d :=
  (detection_iff (Nat.le_refl _) 0 holdsArea_leo holdsArea_leo (List.Perm.refl _)).mpr
    ⟨meets_leo, meets_leo⟩

/-- The same list with an `ATAG_CLK` before the command line. -/
def clkList : TagList :=
  ⟨⟨atagCore, 2, []⟩, [⟨atagClk, 2, []⟩, leoCmdline], rfl, by
    intro tag hmem
    rcases List.mem_cons.mp hmem with rfl | hmem
    · exact ⟨by decide, by decide, by decide, by decide⟩
    · rcases List.mem_cons.mp hmem with rfl | hmem
      · exact ⟨by decide, by decide, by decide, by decide⟩
      · rw [List.mem_singleton.mp hmem]
        exact ⟨by decide, by decide, by decide, by decide⟩, by decide⟩

/-- Its bytes. -/
def clkBytes : List Byte := wordBytes 2 ++ wordBytes atagClk

/-- It stands in memory. -/
theorem holdsArea_clk :
    HoldsArea (areaMemory (coreBytes ++ clkBytes ++ leoBytes)) tagAddress.toNat
      (some clkList) := by
  refine ⟨⟨⟨by decide +kernel, by decide +kernel, fun h => absurd h (by decide)⟩,
    ⟨by decide +kernel, by decide +kernel, fun h => absurd h (by decide)⟩,
    ⟨by decide +kernel, by decide +kernel, fun _ => ⟨by decide +kernel, by decide +kernel⟩⟩, ?_⟩,
    by decide +kernel⟩
  show Memory.load32 _ (tagAddress.toNat + 4 * 2 + 4 * 2 + 4 * 9 + 4) = atagNone
  decide +kernel

/-- The command line makes the driver forget the `ATAG_CLK`; and where there is no list at all, it
    takes the device for a Leo. -/
theorem clkList_forgotten :
    (¬ ∃ d, Detects (2 ^ 32) 0 (areaMemory (coreBytes ++ clkBytes ++ leoBytes)) d ∧
      Expected (areaMemory (coreBytes ++ clkBytes ++ leoBytes)) (innerTags (some clkList)) d) ∧
    ¬ ∃ d, Detects (2 ^ 32) 0 (areaMemory []) d ∧
      Expected (areaMemory []) (innerTags none) d := by
  constructor
  · intro ⟨d, hd, hexpected⟩
    rw [hd.unique (detects_list (Nat.le_refl _) 0 holdsArea_clk)] at hexpected
    have hclk := hexpected.cLK.mpr (.inl ⟨⟨atagClk, 2, []⟩, List.mem_cons_self, rfl⟩)
    exact absurd hclk (by decide +kernel)
  · intro ⟨d, hd, hexpected⟩
    have harea : HoldsArea (areaMemory []) tagAddress.toNat none := by
      show Memory.load32 _ _ ≠ _
      decide +kernel
    rw [hd.unique (detects_noList 0 (2 ^ 32) harea)] at hexpected
    have htype := hexpected.type.trans (parseSplVersion_unknown _)
    exact absurd htype (by decide)

end HtcLeo.Atags

import HtcLeo.Atags.Tags
import HtcLeo.Lib.BitMask

namespace HtcLeo.Atags

/-!
# The tags that `BootLinux` stores

The part of `BootLinux` (`Application/HtcLeoMenuApp/Booter/AndroidKernel.c`) that tells the kernel
how it is booted, over the memory: `ptr` walks through the tags, one `*ptr++ = w` after the other.

* `bootLinux` — that part, with `coreAtag` … `endAtag` for its sections.
* `bootTags` — the tags it is to store.
* `Emitted` — the tags that have been stored up to `ptr`; each section adds its tags to them
  (`coreAtag_emitted`, …).
* `bootLinux_spec` — `bootLinux` stores `bootTags`, and nothing outside them.
-/

/-! ### The sections of `BootLinux` -/

/-- `*ptr++ = w`. -/
def push (w : U32) (ptr : Nat) : Prog Memory Nat :=
  Prog.query fun m => (ptr + 4, Memory.store32 ptr w m)

/-- A byte of the memory. -/
def loadByte (a : Nat) : Prog Memory Byte := Prog.query fun m => (m a, m)

/-- `AsciiStrLen`, as a word. -/
def asciiStrLen (fuel a : Nat) : Prog Memory U32 := do
  let s ← readString loadByte fuel a
  pure (BitVec.ofNat 32 s.length)

/-- `/* CORE */` -/
def coreAtag (ptr : Nat) : Prog Memory Nat := do
  let ptr ← push 2 ptr
  push atagCore ptr

/-- `if (ramdisk_size) {…}` -/
def ramdiskAtag (ramdisk ramdiskSize : U32) (ptr : Nat) : Prog Memory Nat :=
  if ramdiskSize ≠ 0 then do
    let ptr ← push 4 ptr
    let ptr ← push atagInitrd2 ptr
    let ptr ← push ramdisk ptr
    push ramdiskSize ptr
  else pure ptr

/-- `target_atag_mem`: the NAND tag, cLK's signature and its version number. -/
def targetAtagMem (ptr : Nat) : Prog Memory Nat := do
  let ptr ← push 4 ptr
  let ptr ← push 0x4C47414D ptr
  let ptr ← push clkSignatureMagic ptr
  push 13 ptr

/-- `cmdline_len` and `have_cmdline`, set `if (cmdline && cmdline[0])`. -/
def measureCmdline (fuel cmdline : Nat) : Prog Memory (U32 × Bool) :=
  if cmdline = 0 then pure (0, false)
  else do
    let first ← loadByte cmdline
    if first = 0 then pure (0, false)
    else do
      let cmdlineLen ← asciiStrLen fuel cmdline
      pure (cmdlineLen, true)

/-- `if (cmdline_len > 0) {…}`: the length is an `int`, `n` is not. -/
def cmdlineAtag (fuel cmdline : Nat) (cmdlineLen : U32) (haveCmdline : Bool) (ptr : Nat) :
    Prog Memory Nat :=
  if 0 < cmdlineLen.toInt then do
    -- include the NUL and round up to a word multiple
    let n := (cmdlineLen + 4#32) &&& ~~~3#32
    let ptr ← push (n / 4#32 + 2#32) ptr
    let ptr ← push atagCmdline ptr
    if haveCmdline then copyString fuel ptr cmdline
    pure (ptr + 4 * (n / 4#32).toNat)
  else pure ptr

/-- `/* END */` -/
def endAtag (ptr : Nat) : Prog Memory Nat := do
  let ptr ← push 0 ptr
  push 0 ptr

/-- `BootLinux`, up to the end of the tags. -/
def bootLinux (fuel tags cmdline : Nat) (ramdisk ramdiskSize : U32) : Prog Memory Unit := do
  let ptr ← coreAtag tags
  let ptr ← ramdiskAtag ramdisk ramdiskSize ptr
  let ptr ← targetAtagMem ptr
  let (cmdlineLen, haveCmdline) ← measureCmdline fuel cmdline
  let ptr ← cmdlineAtag fuel cmdline cmdlineLen haveCmdline ptr
  let _ ← endAtag ptr

/-! ### The tags it stores -/

/-- The tag of the ramdisk, if there is one. -/
def ramdiskTags (ramdisk ramdiskSize : U32) : List Tag :=
  if ramdiskSize ≠ 0 then [.initrd2 ramdisk ramdiskSize] else []

/-- The tag of the command line, if it is not empty. -/
def cmdlineTags (s : List Byte) : List Tag := if s = [] then [] else [.cmdline s]

/-- The tags in front of the command line. -/
def fixedTags (ramdisk ramdiskSize : U32) : List Tag :=
  [.core] ++ ramdiskTags ramdisk ramdiskSize ++ [.magldr]

/-- The tags for a kernel with this command line and ramdisk, but for the end of the list. -/
def linkedTags (s : List Byte) (ramdisk ramdiskSize : U32) : List Tag :=
  fixedTags ramdisk ramdiskSize ++ cmdlineTags s

/-- The tags for a kernel with this command line and ramdisk. -/
def bootTags (s : List Byte) (ramdisk ramdiskSize : U32) : List Tag :=
  linkedTags s ramdisk ramdiskSize ++ [.none]

/-- The command line `s` is passed as `cmdline`: a string in memory, or none at all. -/
def PassedAs (m : Memory) (cmdline : Nat) (s : List Byte) : Prop :=
  if cmdline = 0 then s = [] else HoldsString m cmdline s

/-- A command line passed as `cmdline` is not in memory between `lo` and `hi`. -/
def Apart (cmdline : Nat) (s : List Byte) (lo hi : Nat) : Prop :=
  cmdline = 0 ∨ cmdline + s.length < lo ∨ hi ≤ cmdline

/-! ### Storing them -/

/-- The tags have been stored from `lo` up to `ptr`, and nothing else since `m₀`. -/
structure Emitted (m₀ : Memory) (lo : Nat) (tags : List Tag) (ptr : Nat) (m : Memory) : Prop where
  reached : ptr = lo + span tags
  linked : ∀ tag ∈ tags, tag.Linked
  holds : HoldsTags m lo tags
  frame : ∀ a, a < lo ∨ ptr ≤ a → m a = m₀ a

namespace Emitted

variable {m₀ m m' : Memory} {lo ptr : Nat} {tags : List Tag} {tag : Tag}

/-- Nothing has been stored at first. -/
theorem nil (m₀ : Memory) (lo : Nat) : Emitted m₀ lo [] lo m₀ where
  reached := rfl
  linked := by simp
  holds := trivial
  frame := fun _ _ => rfl

/-- What a tag stored behind the others makes of the list. -/
theorem concat_holds (h : Emitted m₀ lo tags ptr m) (htag : Holds m' ptr tag)
    (hframe : ∀ a, a < ptr ∨ ptr + tag.span ≤ a → m' a = m a) :
    HoldsTags m' lo (tags ++ [tag]) := by
  have hold : HoldsTags m' lo tags := by
    have hreached := h.reached
    exact h.holds.congr (fun tag htag => h.linked tag (List.mem_of_mem_dropLast htag))
      fun b _ hhi => hframe b (by omega)
  refine hold.append h.linked ?_
  rw [← h.reached]
  exact ⟨htag, trivial⟩

/-- Outside the list a tag stored behind the others changes nothing either. -/
theorem concat_frame (h : Emitted m₀ lo tags ptr m)
    (hframe : ∀ a, a < ptr ∨ ptr + tag.span ≤ a → m' a = m a) (a : Nat)
    (ha : a < lo ∨ ptr + tag.span ≤ a) : m' a = m₀ a := by
  have hreached := h.reached
  rw [hframe a (by omega)]
  exact h.frame a (by omega)

/-- A tag stored behind the others. -/
theorem concat (h : Emitted m₀ lo tags ptr m) (hlink : tag.Linked) (htag : Holds m' ptr tag)
    (hframe : ∀ a, a < ptr ∨ ptr + tag.span ≤ a → m' a = m a) :
    Emitted m₀ lo (tags ++ [tag]) (ptr + tag.span) m' where
  reached := by
    rw [span_append, span_cons, span_nil, h.reached]
    omega
  linked := by
    intro t ht
    rcases List.mem_append.mp ht with ht | ht
    · exact h.linked t ht
    · rw [List.mem_singleton.mp ht]
      exact hlink
  holds := h.concat_holds htag hframe
  frame := h.concat_frame hframe

end Emitted

/-! ### The sections store their tags -/

variable {m₀ : Memory} {lo ptr : Nat} {tags : List Tag}

/-- The words of a tag without a string, once stored, are the tag. -/
theorem storeWords_tag (m : Memory) (ptr : Nat) {tag : Tag} (htext : ∀ s, tag ≠ .cmdline s) :
    Holds (Memory.storeWords ptr tag.words m) ptr tag :=
  ⟨Memory.storeWords_holds ptr tag.words m, fun s hs => absurd hs (htext s)⟩

/-- The words of a tag change nothing outside it. -/
theorem storeWords_tag_frame (m : Memory) (ptr : Nat) (tag : Tag) (a : Nat)
    (ha : a < ptr ∨ ptr + tag.span ≤ a) : Memory.storeWords ptr tag.words m a = m a := by
  have hle := tag.words_le_span
  exact Memory.storeWords_outside _ m (by omega)

/-- A section that stores the words of a tag adds the tag. -/
theorem emitted_of_words {x : Prog Memory Nat} {tag : Tag}
    (hx : ∀ m, x m = (some (ptr + tag.span), Memory.storeWords ptr tag.words m))
    (hlink : tag.Linked) (htext : ∀ s, tag ≠ .cmdline s) :
    Prog.Completes (Emitted m₀ lo tags ptr) x (Emitted m₀ lo (tags ++ [tag])) := by
  intro m h
  exact ⟨_, _, hx m, h.concat hlink (storeWords_tag m ptr htext) (storeWords_tag_frame m ptr tag)⟩

theorem coreAtag_emitted :
    Prog.Completes (Emitted m₀ lo tags ptr) (coreAtag ptr) (Emitted m₀ lo (tags ++ [.core])) :=
  emitted_of_words (fun _ => rfl) trivial fun _ => Tag.noConfusion

theorem targetAtagMem_emitted :
    Prog.Completes (Emitted m₀ lo tags ptr) (targetAtagMem ptr)
      (Emitted m₀ lo (tags ++ [.magldr])) :=
  emitted_of_words (fun _ => rfl) trivial fun _ => Tag.noConfusion

theorem ramdiskAtag_emitted (ramdisk ramdiskSize : U32) :
    Prog.Completes (Emitted m₀ lo tags ptr) (ramdiskAtag ramdisk ramdiskSize ptr)
      (Emitted m₀ lo (tags ++ ramdiskTags ramdisk ramdiskSize)) := by
  unfold ramdiskAtag ramdiskTags
  split
  · exact emitted_of_words (fun _ => rfl) trivial fun _ => Tag.noConfusion
  · rw [List.append_nil]
    exact Prog.Completes.pure fun _ h => h

/-! ### The command line -/

/-- The words for a string and its NUL, as the code counts them. -/
theorem roundUp_toNat {len : Nat} (hlen : len < 2 ^ 30) :
    ((BitVec.ofNat 32 len + 4#32) &&& ~~~3#32).toNat = 4 * ((len + 4) / 4) := by
  have hadd : (BitVec.ofNat 32 len + 4#32).toNat = len + 4 := by
    rw [BitVec.toNat_add, BitVec.toNat_ofNat, BitVec.toNat_ofNat]
    omega
  have hround := BitMask.toNat_and_not_low (BitVec.ofNat 32 len + 4#32) 2
  rw [hadd] at hround
  exact hround

/-- A length in range is positive as an `int` exactly when it is not 0. -/
theorem toInt_pos_iff {len : Nat} (hlen : len < 2 ^ 30) :
    0 < (BitVec.ofNat 32 len).toInt ↔ len ≠ 0 := by
  have hnat : (BitVec.ofNat 32 len).toNat = len := by
    rw [BitVec.toNat_ofNat, Nat.mod_eq_of_lt (by omega)]
  rw [BitVec.toInt_eq_toNat_of_lt (by omega), hnat]
  omega

/-- The length of a string in memory. -/
theorem asciiStrLen_spec {m : Memory} {a : Nat} {s : List Byte} (hs : HoldsString m a s)
    {fuel : Nat} (hfuel : s.length < fuel) :
    asciiStrLen fuel a m = (some (BitVec.ofNat 32 s.length), m) := by
  have hread : Prog.Completes (· = m) (readString loadByte fuel a) fun r m' => r = s ∧ m' = m := by
    apply readString_spec hs _ hfuel
    intro i hi m' hm'
    subst hm'
    exact ⟨_, _, rfl, rfl, rfl⟩
  obtain ⟨r, m', hrun, rfl, rfl⟩ := hread m rfl
  exact Prog.bind_of hrun rfl

/-- A command line that is not empty is in memory. -/
theorem PassedAs.holdsString {m : Memory} {cmdline : Nat} {s : List Byte}
    (hs : PassedAs m cmdline s) (hnil : s ≠ []) : cmdline ≠ 0 ∧ HoldsString m cmdline s := by
  unfold PassedAs at hs
  split at hs
  · exact absurd hs hnil
  · next hnull => exact ⟨hnull, hs⟩

/-- Storing tags apart from the command line leaves it. -/
theorem Emitted.passedAs {m : Memory} (h : Emitted m₀ lo tags ptr m) {cmdline hi : Nat}
    {s : List Byte} (hs : PassedAs m₀ cmdline s) (hapart : Apart cmdline s lo hi)
    (hptr : ptr ≤ hi) : PassedAs m cmdline s := by
  unfold PassedAs at hs ⊢
  split
  · next hnull => rwa [if_pos hnull] at hs
  · next hnull =>
    rw [if_neg hnull] at hs
    rcases hapart with hnull' | hapart
    · exact absurd hnull' hnull
    · exact hs.congr fun b _ _ => h.frame b (by omega)

/-- What is measured of a command line. -/
theorem measureCmdline_spec {m : Memory} {cmdline : Nat} {s : List Byte}
    (hs : PassedAs m cmdline s) {fuel : Nat} (hfuel : s.length < fuel) :
    measureCmdline fuel cmdline m
      = (some (BitVec.ofNat 32 s.length, decide (s ≠ [])), m) := by
  unfold measureCmdline
  unfold PassedAs at hs
  split at hs
  · -- no command line at all
    next hnull =>
    subst hs
    rw [if_pos hnull]
    rfl
  · next hnull =>
    rw [if_neg hnull]
    refine Prog.bind_of rfl ?_
    by_cases hnil : s = []
    · subst hnil
      rw [if_pos (hs.first_eq_zero_iff.mpr rfl)]
      rfl
    · rw [if_neg (mt hs.first_eq_zero_iff.mp hnil), decide_eq_true hnil]
      exact Prog.bind_of (asciiStrLen_spec hs hfuel) rfl

/-- The section of a command line that is not empty, and does not lie where its tag goes. -/
theorem cmdlineAtag_eq {m : Memory} {cmdline : Nat} {s : List Byte} (hs : HoldsString m cmdline s)
    (hnil : s ≠ []) (hlen : s.length < 2 ^ 30)
    (hapart : cmdline + s.length < ptr ∨ ptr + (Tag.cmdline s).span ≤ cmdline)
    {fuel : Nat} (hfuel : s.length < fuel) :
    cmdlineAtag fuel cmdline (BitVec.ofNat 32 s.length) true ptr m
      = (some (ptr + (Tag.cmdline s).span),
          Memory.blit (ptr + 8) (s.length + 1) (fun i => s.getD i 0)
            (Memory.storeWords ptr (Tag.cmdline s).words m)) := by
  have hspan : (Tag.cmdline s).span = 4 * (2 + (s.length + 4) / 4) := rfl
  have hwords : ((BitVec.ofNat 32 s.length + 4#32 &&& ~~~3#32) / 4#32).toNat
      = (s.length + 4) / 4 := by
    rw [BitVec.toNat_udiv, roundUp_toNat hlen]
    exact Nat.mul_div_cancel_left _ (by decide)
  have hsize : (BitVec.ofNat 32 s.length + 4#32 &&& ~~~3#32) / 4#32 + 2#32
      = BitVec.ofNat 32 (2 + (s.length + 4) / 4) := by
    apply BitVec.eq_of_toNat_eq
    rw [BitVec.toNat_add, hwords, BitVec.toNat_ofNat, BitVec.toNat_ofNat]
    omega
  -- the header does not touch the string
  have hsrc : HoldsString (Memory.storeWords ptr (Tag.cmdline s).words m) cmdline s :=
    hs.congr fun b hlo hhi => storeWords_tag_frame m ptr (.cmdline s) b (by omega)
  have hcopy : copyString fuel (ptr + 8) cmdline (Memory.storeWords ptr (Tag.cmdline s).words m)
      = (some (), Memory.blit (ptr + 8) (s.length + 1) (fun i => s.getD i 0)
          (Memory.storeWords ptr (Tag.cmdline s).words m)) :=
    copyString_spec hsrc (by omega) hfuel
  have hpos : s.length ≠ 0 := mt List.length_eq_zero_iff.mp hnil
  rw [cmdlineAtag, if_pos ((toInt_pos_iff hlen).mpr hpos)]
  show (push _ ptr >>= _) m = _
  rw [hsize, hwords]
  refine Prog.bind_of rfl (Prog.bind_of rfl (Prog.bind_of hcopy ?_))
  show (some (ptr + 4 + 4 + 4 * ((s.length + 4) / 4)), _) = _
  rw [hspan]
  congr 2
  omega

/-- The section of the command line adds its tag, if the command line is not empty. -/
theorem cmdlineAtag_emitted {cmdline : Nat} {s : List Byte} (hs : PassedAs m₀ cmdline s)
    (hlen : s.length < 2 ^ 30) (hapart : Apart cmdline s lo (ptr + span (cmdlineTags s)))
    {fuel : Nat} (hfuel : s.length < fuel) :
    Prog.Completes (Emitted m₀ lo tags ptr)
      (cmdlineAtag fuel cmdline (BitVec.ofNat 32 s.length) (decide (s ≠ [])) ptr)
      (Emitted m₀ lo (tags ++ cmdlineTags s)) := by
  by_cases hnil : s = []
  · -- no tag
    subst hnil
    rw [cmdlineAtag, if_neg (mt (toInt_pos_iff (by decide)).mp (by simp)), cmdlineTags, if_pos rfl,
      List.append_nil]
    exact Prog.Completes.pure fun _ h => h
  · intro m h
    have htags : cmdlineTags s = [.cmdline s] := if_neg hnil
    have hreached := h.reached
    have hspan : 8 + s.length < (Tag.cmdline s).span := by
      have hlt := Tag.length_lt_stringWords s
      show 8 + s.length < 4 * (2 + Tag.stringWords s)
      omega
    -- the tags stored so far have not touched the string
    obtain ⟨hnull, hstring⟩ := (h.passedAs hs hapart (Nat.le_add_right _ _)).holdsString hnil
    rw [htags, span_cons, span_nil, Nat.add_zero] at hapart
    have hbehind := hapart.resolve_left hnull
    rw [decide_eq_true hnil, htags]
    refine ⟨_, _, cmdlineAtag_eq hstring hnil hlen (by omega) hfuel, ?_⟩
    have hlink : (Tag.cmdline s).Linked := hlen
    apply h.concat hlink
    · -- the copy leaves the header
      constructor
      · refine (Memory.storeWords_holds ptr (Tag.cmdline s).words m).congr fun b hlo hhi => ?_
        exact Memory.blit_outside _ _ (Or.inl hhi)
      · intro s' hs'
        obtain rfl := Tag.cmdline.inj hs'
        exact HoldsString.of_blit hstring.noNul _ _
    · intro a ha
      rw [Memory.blit_outside _ _ (by omega)]
      exact storeWords_tag_frame m ptr (.cmdline s) a ha

/-- The end of the list, behind the tags. -/
theorem endAtag_spec {m : Memory} (h : Emitted m₀ lo tags ptr m) :
    ∃ m', endAtag ptr m = (some (ptr + 8), m') ∧ HoldsTags m' lo (tags ++ [.none]) ∧
      ∀ a, a < lo ∨ lo + span (tags ++ [.none]) ≤ a → m' a = m₀ a := by
  have hframe := storeWords_tag_frame m ptr .none
  have htag : Holds (Memory.storeWords ptr Tag.none.words m) ptr .none :=
    storeWords_tag m ptr fun _ => Tag.noConfusion
  refine ⟨Memory.storeWords ptr Tag.none.words m, rfl, h.concat_holds htag hframe, fun a ha => ?_⟩
  have hreached := h.reached
  rw [span_append, span_cons, span_nil] at ha
  exact h.concat_frame hframe a (by omega)

/-- **`BootLinux` stores its tags.**  The command line is less than 2³⁰ bytes long and not where
    the tags go. -/
theorem bootLinux_spec {m : Memory} {lo cmdline : Nat} {s : List Byte} {ramdisk ramdiskSize : U32}
    (hs : PassedAs m cmdline s) (hlen : s.length < 2 ^ 30)
    (hapart : Apart cmdline s lo (lo + span (bootTags s ramdisk ramdiskSize)))
    {fuel : Nat} (hfuel : s.length < fuel) :
    ∃ m', bootLinux fuel lo cmdline ramdisk ramdiskSize m = (some (), m') ∧
      HoldsTags m' lo (bootTags s ramdisk ramdiskSize) ∧
      ∀ a, a < lo ∨ lo + span (bootTags s ramdisk ramdiskSize) ≤ a → m' a = m a := by
  obtain ⟨ptr, m₁, hcore, h⟩ := coreAtag_emitted m (Emitted.nil m lo)
  obtain ⟨ptr, m₂, hramdisk, h⟩ := ramdiskAtag_emitted ramdisk ramdiskSize m₁ h
  obtain ⟨ptr, m₃, hmagldr, h⟩ := targetAtagMem_emitted m₂ h
  rw [List.nil_append] at h
  -- the area up to the end of the command line's tag
  have hend : ptr + span (cmdlineTags s) ≤ lo + span (bootTags s ramdisk ramdiskSize) := by
    rw [h.reached, bootTags, linkedTags, span_append _ [.none], span_append _ (cmdlineTags s),
      fixedTags]
    omega
  have hapart' : Apart cmdline s lo (ptr + span (cmdlineTags s)) :=
    hapart.imp_right (Or.imp_right fun hhi => Nat.le_trans hend hhi)
  have hmeasure := measureCmdline_spec (h.passedAs hs hapart' (Nat.le_add_right _ _)) hfuel
  obtain ⟨ptr, m₄, hcmdline, h⟩ := cmdlineAtag_emitted hs hlen hapart' hfuel m₃ h
  obtain ⟨m₅, hnone, hspec⟩ := endAtag_spec h
  refine ⟨m₅, ?_, hspec⟩
  exact Prog.bind_of hcore (Prog.bind_of hramdisk (Prog.bind_of hmagldr (Prog.bind_of hmeasure
    (Prog.bind_of hcmdline (Prog.bind_of hnone rfl)))))

end HtcLeo.Atags

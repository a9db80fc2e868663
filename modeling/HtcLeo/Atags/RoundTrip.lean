import HtcLeo.Atags.BootLinux
import HtcLeo.Atags.ParseAtags

namespace HtcLeo.Atags

/-!
# From `BootLinux` to `ParseAtags`

* `recordTags_linkedTags` — what the tags of `BootLinux` leave in the device.
* `Recorded` — the device has been told that it was booted by cLK, and with which command line.
* `atags_round_trip` — `BootLinux` stores its tags, and `ParseAtags`, run on them, reads only them,
  ends at the end of the list and records them.
-/

/-- What the parser records of the tags for a kernel with the command line `s`. -/
structure Recorded (mem : Memory) (s : List Byte) (before after : HtcDevice) : Prop where
  nandBoot : after.nandBoot = true
  line : s ≠ [] → HoldsString mem after.cmdline s ∧ after.type = atagsDetectDevice s ∧
    after.cLK = detectCLK (some s)
  noLine : s = [] → after.cmdline = before.cmdline ∧ after.type = before.type ∧
    after.cLK = before.cLK

/-! ### The list of `BootLinux` -/

variable {s : List Byte} {ramdisk ramdiskSize : U32}

theorem eq_of_mem_ramdiskTags {tag : Tag} (htag : tag ∈ ramdiskTags ramdisk ramdiskSize) :
    tag = .initrd2 ramdisk ramdiskSize := by
  unfold ramdiskTags at htag
  split at htag
  · exact List.mem_singleton.mp htag
  · exact absurd htag List.not_mem_nil

theorem eq_of_mem_cmdlineTags {tag : Tag} (htag : tag ∈ cmdlineTags s) : tag = .cmdline s := by
  unfold cmdlineTags at htag
  split at htag
  · exact absurd htag List.not_mem_nil
  · exact List.mem_singleton.mp htag

/-- The tags of a list for a kernel, but for the end of the list. -/
theorem mem_linkedTags {tag : Tag} (htag : tag ∈ linkedTags s ramdisk ramdiskSize) :
    tag = .core ∨ tag = .initrd2 ramdisk ramdiskSize ∨ tag = .magldr ∨ tag = .cmdline s := by
  simp only [linkedTags, fixedTags, List.mem_append, List.mem_singleton] at htag
  rcases htag with ((hcore | hramdisk) | hmagldr) | hcmdline
  · exact Or.inl hcore
  · exact Or.inr (Or.inl (eq_of_mem_ramdiskTags hramdisk))
  · exact Or.inr (Or.inr (Or.inl hmagldr))
  · exact Or.inr (Or.inr (Or.inr (eq_of_mem_cmdlineTags hcmdline)))

variable (ramdisk ramdiskSize) in
/-- Another tag may follow each of them. -/
theorem linkedTags_linked (hlen : s.length < 2 ^ 30) :
    ∀ tag ∈ linkedTags s ramdisk ramdiskSize, tag.Linked := by
  intro tag htag
  rcases mem_linkedTags htag with rfl | rfl | rfl | rfl
  · trivial
  · trivial
  · trivial
  · exact hlen

variable (s ramdisk ramdiskSize) in
/-- There are four tags at most before the end of the list. -/
theorem linkedTags_length : (linkedTags s ramdisk ramdiskSize).length ≤ 4 := by
  have hramdisk : (ramdiskTags ramdisk ramdiskSize).length ≤ 1 := by
    unfold ramdiskTags
    split <;> simp
  have hcmdline : (cmdlineTags s).length ≤ 1 := by
    unfold cmdlineTags
    split <;> simp
  simp only [linkedTags, fixedTags, List.length_append, List.length_singleton]
  omega

/-- A command line among them is `s`. -/
theorem cmdline_mem_linkedTags {text : List Byte}
    (htag : .cmdline text ∈ linkedTags s ramdisk ramdiskSize) : text = s := by
  rcases mem_linkedTags htag with h | h | h | h
  · exact Tag.noConfusion h
  · exact Tag.noConfusion h
  · exact Tag.noConfusion h
  · exact Tag.cmdline.inj h

/-! ### What it leaves in the device -/

/-- Two lists leave what the second leaves behind the first. -/
theorem recordTags_append (t : Nat) (mDevice : HtcDevice) (tags tags' : List Tag) :
    recordTags t mDevice (tags ++ tags')
      = recordTags (t + span tags) (recordTags t mDevice tags) tags' := by
  induction tags generalizing t mDevice with
  | nil => rfl
  | cons tag tags ih =>
    rw [List.cons_append, recordTags, ih, span_cons, Nat.add_assoc]
    rfl

/-- A ramdisk leaves nothing in the device. -/
theorem recordTags_ramdiskTags (t : Nat) (mDevice : HtcDevice) :
    recordTags t mDevice (ramdiskTags ramdisk ramdiskSize) = mDevice := by
  unfold ramdiskTags
  split <;> rfl

/-- The tags in front of the command line tell that cLK has booted the kernel. -/
theorem recordTags_fixedTags (t : Nat) (mDevice : HtcDevice) :
    recordTags t mDevice (fixedTags ramdisk ramdiskSize) = { mDevice with nandBoot := true } := by
  rw [fixedTags, recordTags_append, recordTags_append, recordTags_ramdiskTags]
  rfl

/-- **What the list leaves in the device.** -/
theorem recordTags_linkedTags {mem : Memory} {lo : Nat} (mDevice : HtcDevice)
    (hlen : s.length < 2 ^ 30)
    (htags : HoldsTags mem lo (linkedTags s ramdisk ramdiskSize ++ [.none])) :
    Recorded mem s mDevice (recordTags lo mDevice (linkedTags s ramdisk ramdiskSize)) := by
  rw [linkedTags, recordTags_append, recordTags_fixedTags]
  by_cases hnil : s = []
  · rw [cmdlineTags, if_pos hnil]
    exact ⟨rfl, fun h => absurd hnil h, fun _ => ⟨rfl, rfl, rfl⟩⟩
  · rw [linkedTags, List.append_assoc] at htags
    -- the tag of the command line
    have hline := htags.of_append fun tag h =>
      linkedTags_linked ramdisk ramdiskSize hlen tag (List.mem_append_left _ h)
    rw [cmdlineTags, if_neg hnil] at hline ⊢
    exact ⟨rfl, fun _ => ⟨hline.1.text s rfl, rfl, rfl⟩, fun h => absurd h hnil⟩

/-- **The encoder and the parser agree.**  For every command line of less than 2³⁰ bytes, without a
    NUL and not where the tags go, and every ramdisk, `BootLinux` stores `bootTags` at `tags`, each
    where the size field of the one before leads, and nothing outside them.  `ParseAtags`, run on
    these bytes whatever the rest of the memory holds, reads only them, ends at `ATAG_NONE`, and
    records them. -/
theorem atags_round_trip (m : Memory) (tags : U32) (cmdline : Nat) (s : List Byte)
    (ramdisk ramdiskSize : U32) (hs : PassedAs m cmdline s) (hlen : s.length < 2 ^ 30)
    (hapart : Apart cmdline s tags.toNat (tags.toNat + span (bootTags s ramdisk ramdiskSize))) :
    ∃ limit, ∀ fuel, limit ≤ fuel →
      ∃ m', bootLinux fuel tags.toNat cmdline ramdisk ramdiskSize m = (some (), m') ∧
        HoldsTags m' tags.toNat (bootTags s ramdisk ramdiskSize) ∧
        (∀ a, a < tags.toNat ∨ tags.toNat + span (bootTags s ramdisk ramdiskSize) ≤ a →
          m' a = m a) ∧
        ∀ mem : Memory,
          (∀ a, tags.toNat ≤ a → a < tags.toNat + span (bootTags s ramdisk ramdiskSize) →
            mem a = m' a) →
          ∀ mDevice, ∃ t st,
            parseAtags fuel tags ⟨mem, [], mDevice⟩ = (some t, st) ∧
            t = tags.toNat + span (linkedTags s ramdisk ramdiskSize) ∧ Holds mem t .none ∧
            (∀ r ∈ st.reads, tags.toNat ≤ r.1 ∧
              r.1 + r.2 ≤ tags.toNat + span (bootTags s ramdisk ramdiskSize)) ∧
            Recorded mem s mDevice st.device := by
  refine ⟨s.length + 6, fun fuel hfuel => ?_⟩
  obtain ⟨m', hboot, hstored, hframe⟩ := bootLinux_spec hs hlen hapart (by omega : s.length < fuel)
  refine ⟨m', hboot, hstored, hframe, fun mem hmem mDevice => ?_⟩
  have hlinked := linkedTags_linked ramdisk ramdiskSize hlen
  have htags : HoldsTags mem tags.toNat (bootTags s ramdisk ramdiskSize) := by
    refine hstored.congr ?_ hmem
    rw [bootTags, List.dropLast_concat]
    exact hlinked
  have hend : span (bootTags s ramdisk ramdiskSize)
      = span (linkedTags s ramdisk ramdiskSize) + 8 := by
    rw [bootTags, span_append]
    rfl
  have hlength := linkedTags_length s ramdisk ramdiskSize
  have htext : ∀ text, .cmdline text ∈ linkedTags s ramdisk ramdiskSize → text.length < fuel := by
    intro text htext
    rw [cmdline_mem_linkedTags htext]
    omega
  have hcore : linkedTags s ramdisk ramdiskSize
      = .core :: (ramdiskTags ramdisk ramdiskSize ++ [.magldr] ++ cmdlineTags s) := rfl
  obtain ⟨st, hparse, hat⟩ := parseAtags_spec hcore htags hlinked htext (by omega) mDevice
  rw [hend, ← Nat.add_assoc]
  refine ⟨_, st, hparse, rfl, (htags.of_append hlinked).1, hat.reads, ?_⟩
  rw [hat.device]
  exact recordTags_linkedTags mDevice hlen htags

/-- A kernel for the Leo, with its ramdisk. -/
theorem atags_round_trip_leo :
    ∃ (m m' : Memory) (fuel t : Nat) (st : Parser),
      bootLinux fuel 0x100 0x8000 0x1000 0x2000 m = (some (), m') ∧
      parseAtags fuel 0x100 ⟨m', [], ⟨.unknown, false, false, 0⟩⟩ = (some t, st) ∧
      st.device.type = .leo ∧ st.device.cLK = true ∧ st.device.nandBoot = true := by
  let s := ascii "clk=1 androidboot.hardware=leo"
  let m := Memory.blit 0x8000 (s.length + 1) (fun i => s.getD i 0) fun _ => 0
  have hs : PassedAs m 0x8000 s := by
    rw [PassedAs, if_neg (by decide)]
    exact HoldsString.of_blit (by decide) 0x8000 _
  obtain ⟨limit, h⟩ := atags_round_trip m 0x100 0x8000 s 0x1000 0x2000 hs (by decide)
    (Or.inr (Or.inr (by decide)))
  obtain ⟨m', hboot, _, _, hparse⟩ := h limit (Nat.le_refl _)
  obtain ⟨t, st, hrun, _, _, _, hrecorded⟩ :=
    hparse m' (fun _ _ _ => rfl) ⟨.unknown, false, false, 0⟩
  obtain ⟨_, htype, hclk⟩ := hrecorded.line (by decide)
  exact ⟨m, m', limit, t, st, hboot, hrun, htype.trans (by decide), hclk.trans (by decide),
    hrecorded.nandBoot⟩

end HtcLeo.Atags

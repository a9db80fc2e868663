import HtcLeo.Lib.CString
import HtcLeo.Uefi

namespace HtcLeo.Atags

/-!
# Tagged lists of boot parameters

What a list of ATAGs is in memory (`Include/Library/Atags.h`): tags one behind the other, each with
a header of two words, its size in words and its type.  Addresses are natural numbers: a list does
not go round the end of the address space.

* `Tag` — the tags a boot loader passes; `Tag.words` are the words a tag begins with, `Tag.span`
  the bytes it takes.
* `Holds m a tag` — the tag stands at `a`.
* `HoldsTags m a tags` — the tags stand at `a`, each where the size of the one before leads.
* `Holds.next` — the size leads behind the tag.
* `HoldsTags.append` — two lists one behind the other make one list.
-/

/-! ### Types of tags -/

/-- `ATAG_NONE`, which ends the list. -/
def atagNone : U32 := 0x00000000
/-- `ATAG_CORE`, which the list must start with. -/
def atagCore : U32 := 0x54410001
/-- `ATAG_INITRD2`. -/
def atagInitrd2 : U32 := 0x54420005
/-- `ATAG_CMDLINE`. -/
def atagCmdline : U32 := 0x54410009
/-- `ATAG_CLK`. -/
def atagClk : U32 := 0x004B4C63
/-- `ATAG_NAND_BOOT_MAGLDR`. -/
def atagNandBootMagldr : U32 := 0x4C47414D

/-- `CLK_SIGNATURE_MAGIC` (`bootreason.h`). -/
def clkSignatureMagic : U32 := 0x004b4c63

/-! ### Tags -/

/-- The tags of a boot loader. -/
inductive Tag
  | core
  | initrd2 (start size : U32)  -- where the ramdisk is, and its size in bytes
  | magldr                      -- the loader is cLK, with its version
  | cmdline (s : List Byte)
  | none
  deriving DecidableEq

namespace Tag

/-- Words that hold a string and its NUL. -/
def stringWords (s : List Byte) : Nat := (s.length + 4) / 4

/-- The size field, in words; it is 0 at the end of the list. -/
def size : Tag → Nat
  | core        => 2
  | initrd2 _ _ => 4
  | magldr      => 4
  | cmdline s   => 2 + stringWords s
  | none        => 0

/-- The type field. -/
def type : Tag → U32
  | core        => atagCore
  | initrd2 _ _ => atagInitrd2
  | magldr      => atagNandBootMagldr
  | cmdline _   => atagCmdline
  | none        => atagNone

/-- The words behind the header. -/
def payload : Tag → List U32
  | initrd2 start size => [start, size]
  | magldr             => [clkSignatureMagic, 13]
  | _                  => []

/-- The words a tag begins with: all of it, but for the string of a command line. -/
def words (tag : Tag) : List U32 := BitVec.ofNat 32 tag.size :: tag.type :: tag.payload

/-- The bytes a tag takes. -/
def span : Tag → Nat
  | none => 8
  | tag  => 4 * tag.size

/-- Tags that another one may follow: the end of the list is not one, nor is a command line that
    the size field cannot count. -/
def Linked : Tag → Prop
  | cmdline s => s.length < 2 ^ 30
  | none      => False
  | _         => True

end Tag

/-- The bytes a list of tags takes. -/
def span (tags : List Tag) : Nat := (tags.map Tag.span).sum

/-- The tag stands at `a`. -/
structure Holds (m : Memory) (a : Nat) (tag : Tag) : Prop where
  words : Memory.HoldsWords m a tag.words
  text : ∀ s, tag = .cmdline s → HoldsString m (a + 8) s

/-- The tags stand at `a`, each where the size field of the one before leads. -/
def HoldsTags (m : Memory) (a : Nat) : List Tag → Prop
  | []          => True
  | tag :: tags => Holds m a tag ∧ HoldsTags m (a + 4 * (Memory.load32 m a).toNat) tags

@[simp] theorem span_nil : span [] = 0 := rfl

@[simp] theorem span_cons (tag : Tag) (tags : List Tag) :
    span (tag :: tags) = tag.span + span tags := rfl

theorem span_append (tags tags' : List Tag) : span (tags ++ tags') = span tags + span tags' := by
  rw [span, List.map_append, List.sum_append]
  rfl

/-! ### One tag -/

variable {m m' : Memory} {a : Nat} {tag : Tag}

/-- A string and its NUL fit the words for them. -/
theorem Tag.length_lt_stringWords (s : List Byte) : s.length < 4 * stringWords s := by
  unfold stringWords
  omega

/-- The words a tag begins with are part of it. -/
theorem Tag.words_le_span (tag : Tag) : 4 * tag.words.length ≤ tag.span := by
  cases tag with
  | cmdline s =>
    show 8 ≤ 4 * (2 + stringWords s)
    omega
  | core        => exact Nat.le_refl 8
  | initrd2 _ _ => exact Nat.le_refl 16
  | magldr      => exact Nat.le_refl 16
  | none        => exact Nat.le_refl 8

/-- Where another tag may follow, it follows `size` words behind. -/
theorem Tag.Linked.span_eq (h : tag.Linked) : tag.span = 4 * tag.size := by
  cases tag with
  | none => exact h.elim
  | _    => rfl

/-- The size field counts the words of a tag. -/
theorem Tag.Linked.size_lt (h : tag.Linked) : tag.size < 2 ^ 30 := by
  cases tag with
  | cmdline s =>
    have hlen : s.length < 2 ^ 30 := h
    show 2 + (s.length + 4) / 4 < 2 ^ 30
    omega
  | none        => exact h.elim
  | core        => exact Nat.lt_of_sub_pos (by decide : 0 < 2 ^ 30 - 2)
  | initrd2 _ _ => exact Nat.lt_of_sub_pos (by decide : 0 < 2 ^ 30 - 4)
  | magldr      => exact Nat.lt_of_sub_pos (by decide : 0 < 2 ^ 30 - 4)

/-- A tag that another one may follow has a size. -/
theorem Tag.Linked.size_pos (h : tag.Linked) : 2 ≤ tag.size := by
  cases tag with
  | cmdline s   => exact Nat.le_add_right 2 _
  | none        => exact h.elim
  | core        => decide
  | initrd2 _ _ => exact (by decide : 2 ≤ 4)
  | magldr      => decide

/-- A tag that another one may follow is not the end of the list. -/
theorem Tag.Linked.type_ne (h : tag.Linked) : tag.type ≠ atagNone := by
  cases tag with
  | none        => exact h.elim
  | core        => exact (by decide : atagCore ≠ atagNone)
  | initrd2 _ _ => exact (by decide : atagInitrd2 ≠ atagNone)
  | magldr      => exact (by decide : atagNandBootMagldr ≠ atagNone)
  | cmdline _   => exact (by decide : atagCmdline ≠ atagNone)

namespace Holds

/-- The size field of a tag. -/
theorem size (h : Holds m a tag) : Memory.load32 m a = BitVec.ofNat 32 tag.size := h.words.1

/-- The type field of a tag. -/
theorem type (h : Holds m a tag) : Memory.load32 m (a + 4) = tag.type := h.words.2.1

/-- The size field leads behind the tag. -/
theorem next (h : Holds m a tag) (hlink : tag.Linked) :
    4 * (Memory.load32 m a).toNat = tag.span := by
  have hlt := hlink.size_lt
  rw [h.size, BitVec.toNat_ofNat, Nat.mod_eq_of_lt (by omega), hlink.span_eq]

/-- Only the bytes of the tag matter. -/
theorem congr (h : Holds m a tag) (heq : ∀ b, a ≤ b → b < a + tag.span → m' b = m b) :
    Holds m' a tag := by
  refine ⟨h.words.congr fun b hlo hhi => ?_, fun s hs => (h.text s hs).congr fun b hlo hhi => ?_⟩
  · have hle := tag.words_le_span
    exact heq b hlo (by omega)
  · have hspan : tag.span = 4 * (2 + Tag.stringWords s) := by
      rw [hs]
      rfl
    have hlt := Tag.length_lt_stringWords s
    exact heq b (by omega) (by omega)

end Holds

/-! ### Lists of tags -/

namespace HoldsTags

variable {tags tags' : List Tag}

/-- Only the bytes of the tags matter. -/
theorem congr (h : HoldsTags m a tags) (hlink : ∀ tag ∈ tags.dropLast, tag.Linked)
    (heq : ∀ b, a ≤ b → b < a + span tags → m' b = m b) : HoldsTags m' a tags := by
  induction tags generalizing a with
  | nil => trivial
  | cons tag tags ih =>
    obtain ⟨htag, htags⟩ := h
    rw [span_cons] at heq
    have htag' : Holds m' a tag := htag.congr fun b hlo hhi => heq b hlo (by omega)
    refine ⟨htag', ?_⟩
    cases tags with
    | nil => trivial
    | cons next tags =>
      rw [List.dropLast_cons_cons] at hlink
      obtain ⟨hl, hlink⟩ := List.forall_mem_cons.mp hlink
      rw [htag.next hl] at htags
      rw [htag'.next hl]
      exact ih htags hlink fun b hlo hhi => heq b (by omega) (by omega)

/-- Two lists one behind the other make one list. -/
theorem append (h : HoldsTags m a tags) (hlink : ∀ tag ∈ tags, tag.Linked)
    (h' : HoldsTags m (a + span tags) tags') : HoldsTags m a (tags ++ tags') := by
  induction tags generalizing a with
  | nil => exact h'
  | cons tag tags ih =>
    obtain ⟨htag, htags⟩ := h
    obtain ⟨hl, hlink⟩ := List.forall_mem_cons.mp hlink
    rw [span_cons, ← Nat.add_assoc] at h'
    rw [htag.next hl] at htags
    refine ⟨htag, ?_⟩
    rw [htag.next hl]
    exact ih htags hlink h'

/-- The second of two lists one behind the other. -/
theorem of_append (h : HoldsTags m a (tags ++ tags')) (hlink : ∀ tag ∈ tags, tag.Linked) :
    HoldsTags m (a + span tags) tags' := by
  induction tags generalizing a with
  | nil => exact h
  | cons tag tags ih =>
    obtain ⟨htag, htags⟩ := h
    obtain ⟨hl, hlink⟩ := List.forall_mem_cons.mp hlink
    rw [htag.next hl] at htags
    rw [span_cons, ← Nat.add_assoc]
    exact ih htags hlink

end HoldsTags

end HtcLeo.Atags

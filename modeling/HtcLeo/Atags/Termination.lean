import HtcLeo.Atags.ParseAtags
import HtcLeo.Lib.AddressSpace
import HtcLeo.Lib.Chains

namespace HtcLeo.Atags

open Relation Chains

/-!
# Whether the parser ends

`ParseAtags` on any contents of the memory, where the sizes may lead anywhere.  Pointers and byte
counts are 32 bits wide, so that a size may also lead back.

* `Follows` — where the size of a tag leads.
* `Contained` — the parser ends, and reads only inside the area of the tags.
* `contained_iff` — when it does: no tag of the chain comes twice, and its headers and command
  lines are in the area.
* `contained_of_sizes` — the check of the sizes that the parser does not make would be enough.
-/

/-! ### The area of the tags -/

/-- The area the previous boot stage leaves the tags in. -/
structure TagArea where
  lo : Nat
  hi : Nat

namespace TagArea

variable (area : TagArea)

/-- The bytes from `a` on are in the area. -/
def HasRange (a n : Nat) : Prop :=
  ∀ i, i < n → area.lo ≤ (a + i) % 2 ^ 32 ∧ (a + i) % 2 ^ 32 < area.hi

/-- What the parser has read is in the area. -/
def HasReads (st : Parser) : Prop := ∀ r ∈ st.reads, area.HasRange r.1 r.2

variable {area}

theorem HasRange.congr {a b n : Nat} (h : area.HasRange a n) (hab : a % 2 ^ 32 = b % 2 ^ 32) :
    area.HasRange b n := by
  intro i hi
  have hat := h i hi
  have heq : (b + i) % 2 ^ 32 = (a + i) % 2 ^ 32 := by omega
  rw [heq]
  exact hat

theorem HasRange.part {a n b k : Nat} (h : area.HasRange a n) (hlo : a ≤ b)
    (hhi : b + k ≤ a + n) : area.HasRange b k := by
  intro i hi
  have hat := h (b - a + i) (by omega)
  have heq : a + (b - a + i) = b + i := by omega
  rwa [heq] at hat

theorem HasRange.append {a n k : Nat} (h : area.HasRange a n) (h' : area.HasRange (a + n) k) :
    area.HasRange a (n + k) := by
  intro i hi
  by_cases hlt : i < n
  · exact h i hlt
  · have hat := h' (i - n) (by omega)
    have heq : a + n + (i - n) = a + i := by omega
    rwa [heq] at hat

end TagArea

/-! ### The chain of the tags -/

section
variable (mem : U32 → Byte)

/-- The size field of the tag at `a`. -/
def sizeAt (a : U32) : U32 := Memory.load32 (wrapped mem) a.toNat

/-- The type field. -/
def typeAt (a : U32) : U32 := Memory.load32 (wrapped mem) (a.toNat + 4)

/-- The parser returns at the tag. -/
def Stops (a : U32) : Prop := typeAt mem a = atagNone ∨ sizeAt mem a = 0

instance (a : U32) : Decidable (Stops mem a) := inferInstanceAs (Decidable (_ ∨ _))

/-- The size of the tag at `a`, in bytes and modulo `2 ^ 32`, leads to `b`. -/
def Follows (a b : U32) : Prop := ¬ Stops mem a ∧ b = a + sizeAt mem a * 4#32

instance (a b : U32) : Decidable (Follows mem a b) := inferInstanceAs (Decidable (_ ∧ _))

/-- The header of the tag at `a` is in the area, and if it is a command line that the parser
    handles, the string with its NUL is. -/
structure TagInside (area : TagArea) (a : U32) : Prop where
  header : area.HasRange a.toNat 8
  line : ¬ Stops mem a → typeAt mem a = atagCmdline →
    ∃ n, wrapped mem (a.toNat + 8 + n) = 0 ∧ area.HasRange (a.toNat + 8) (n + 1)

/-- The parser ends, and has read only inside the area. -/
def Contained (area : TagArea) (startAddr : U32) (mDevice : HtcDevice) : Prop :=
  ∃ fuel t st, parseAtags fuel startAddr ⟨wrapped mem, [], mDevice⟩ = (some t, st) ∧
    area.HasReads st

/-- What the body of the loop gives at `t`. -/
def nextTag (t : Nat) : Nat ⊕ Nat :=
  if Stops mem (BitVec.ofNat 32 t) then .inr t
  else .inl (t + (sizeAt mem (BitVec.ofNat 32 t) * 4#32).toNat)

end

variable {mem : U32 → Byte} {area : TagArea} {t fuel : Nat} {P : Prop}

theorem toNat_ofNat_mod (t : Nat) : (BitVec.ofNat 32 t).toNat % 2 ^ 32 = t % 2 ^ 32 := by
  rw [BitVec.toNat_ofNat, Nat.mod_mod]

/-- The size field, as the parser reads it. -/
theorem load32_size (t : Nat) :
    Memory.load32 (wrapped mem) t = sizeAt mem (BitVec.ofNat 32 t) :=
  (load32_wrapped_congr mem (toNat_ofNat_mod t)).symm

/-- The type field, as the parser reads it. -/
theorem load32_type (t : Nat) :
    Memory.load32 (wrapped mem) (t + 4) = typeAt mem (BitVec.ofNat 32 t) := by
  have hmod := toNat_ofNat_mod t
  exact load32_wrapped_congr mem (by omega)

/-- The two checks of the header, as one. -/
theorem if_stops {β : Type} (a : U32) (x y : β) :
    (if sizeAt mem a = 0 ∧ typeAt mem a ≠ atagNone then x
      else if typeAt mem a = atagNone then x else y) = if Stops mem a then x else y := by
  by_cases hnone : typeAt mem a = atagNone
  · have hstops : Stops mem a := Or.inl hnone
    rw [if_neg fun h => h.2 hnone, if_pos hnone, if_pos hstops]
  · by_cases hzero : sizeAt mem a = 0
    · have hstops : Stops mem a := Or.inr hzero
      rw [if_pos ⟨hzero, hnone⟩, if_pos hstops]
    · have hgoes : ¬ Stops mem a := fun h => h.elim hnone hzero
      rw [if_neg fun h => hzero h.1, if_neg hnone, if_neg hgoes]

/-- Only one tag follows. -/
theorem Follows.unique {a b c : U32} (hb : Follows mem a b) (hc : Follows mem a c) : b = c :=
  hb.2.trans hc.2.symm

/-- Where the parser returns, nothing follows. -/
theorem not_follows {a : U32} (h : Stops mem a) (b : U32) : ¬ Follows mem a b :=
  fun hb => hb.1 h

/-- Where the loop goes on to is what follows. -/
theorem follows_next (h : ¬ Stops mem (BitVec.ofNat 32 t)) :
    Follows mem (BitVec.ofNat 32 t)
      (BitVec.ofNat 32 (t + (sizeAt mem (BitVec.ofNat 32 t) * 4#32).toNat)) := by
  refine ⟨h, ?_⟩
  rw [BitVec.ofNat_add, BitVec.ofNat_toNat, BitVec.setWidth_eq]

/-- A tag is inside the area when its parts are, wherever in its turns round the address space the
    parser meets it. -/
theorem tagInside_ofNat (t : Nat) :
    TagInside mem area (BitVec.ofNat 32 t) ↔ area.HasRange t 8 ∧
      (¬ Stops mem (BitVec.ofNat 32 t) → typeAt mem (BitVec.ofNat 32 t) = atagCmdline →
        ∃ n, wrapped mem (t + 8 + n) = 0 ∧ area.HasRange (t + 8) (n + 1)) := by
  have hmod := toNat_ofNat_mod t
  have hbyte : ∀ n, wrapped mem ((BitVec.ofNat 32 t).toNat + 8 + n) = wrapped mem (t + 8 + n) := by
    intro n
    exact wrapped_congr mem (by omega)
  constructor
  · intro h
    refine ⟨h.header.congr hmod, fun hstops htype => ?_⟩
    obtain ⟨n, hnul, hrange⟩ := h.line hstops htype
    exact ⟨n, (hbyte n).symm.trans hnul, hrange.congr (by omega)⟩
  · intro h
    refine ⟨h.1.congr hmod.symm, fun hstops htype => ?_⟩
    obtain ⟨n, hnul, hrange⟩ := h.2 hstops htype
    exact ⟨n, (hbyte n).trans hnul, hrange.congr (by omega)⟩

/-! ### A run that has read only inside the area -/

/-- The state has the memory, and if all that has been read is in the area, `P` holds. -/
structure Shows (mem : U32 → Byte) (area : TagArea) (P : Prop) (st : Parser) : Prop where
  mem : st.mem = wrapped mem
  shows : area.HasReads st → P

/-- What has been read stays read. -/
theorem Shows.read {st : Parser} (h : Shows mem area P st) (a n : Nat) :
    Shows mem area (P ∧ area.HasRange a n) { st with reads := (a, n) :: st.reads } := by
  refine ⟨h.mem, fun hreads => ?_⟩
  obtain ⟨hfirst, hrest⟩ := List.forall_mem_cons.mp hreads
  exact ⟨h.shows hrest, hfirst⟩

theorem Shows.mono {st : Parser} {P' : Prop} (h : Shows mem area P st) (hP : P → P') :
    Shows mem area P' st := ⟨h.mem, fun hreads => hP (h.shows hreads)⟩

theorem readWord_shows (a : Nat) :
    Prog.Ensures (Shows mem area P) (readWord a) fun w st =>
      w = Memory.load32 (wrapped mem) a ∧ Shows mem area (P ∧ area.HasRange a 4) st := by
  apply Prog.Ensures.query
  intro st h
  exact ⟨by rw [h.mem], h.read a 4⟩

theorem readByte_shows (a : Nat) :
    Prog.Ensures (Shows mem area P) (readByte a) fun b st =>
      b = wrapped mem a ∧ Shows mem area (P ∧ area.HasRange a 1) st := by
  apply Prog.Ensures.query
  intro st h
  exact ⟨by rw [h.mem], h.read a 1⟩

theorem setDevice_shows (f : HtcDevice → HtcDevice) :
    Prog.Ensures (Shows mem area P) (setDevice f) fun _ => Shows mem area P := by
  apply Prog.Ensures.modify
  intro st h
  exact ⟨h.mem, h.shows⟩

/-- A string that has been read has its NUL in the area. -/
theorem readString_shows (a : Nat) :
    Prog.Ensures (Shows mem area P) (readString readByte fuel a) fun _ => Shows mem area
      (P ∧ ∃ n, wrapped mem (a + n) = 0 ∧ area.HasRange a (n + 1)) := by
  -- at the head of the loop the bytes of the accumulator have been read
  let Inv : List Byte → Parser → Prop := fun s =>
    Shows mem area (P ∧ area.HasRange a s.length)
  have hloop : Prog.Ensures (Inv []) (readString readByte fuel a) fun _ => Shows mem area
      (P ∧ ∃ n, wrapped mem (a + n) = 0 ∧ area.HasRange a (n + 1)) := by
    refine Prog.Ensures.loop Inv (fun s => ?_) fuel []
    refine Prog.Ensures.bind_eq (readByte_shows (a + s.length)) ?_
    by_cases hnul : wrapped mem (a + s.length) = 0
    · -- the NUL
      rw [if_pos hnul]
      apply Prog.Ensures.pure
      intro st h
      exact h.mono fun hP => ⟨hP.1.1, s.length, hnul, hP.1.2.append hP.2⟩
    · -- one more byte
      rw [if_neg hnul]
      apply Prog.Ensures.pure
      intro st h
      show Shows mem area (P ∧ area.HasRange a (s ++ [_]).length) st
      rw [List.length_append, List.length_singleton]
      exact h.mono fun hP => ⟨hP.1.1, hP.1.2.append hP.2⟩
  refine hloop.mono (fun st h => ?_) fun _ _ h => h
  exact h.mono fun hP => ⟨hP, fun i hi => absurd hi (Nat.not_lt_zero i)⟩

/-- A command line that has been handled has its NUL in the area. -/
theorem handleTag_shows (t : Nat) (tag : U32) :
    Prog.Ensures (Shows mem area P) (handleTag fuel t tag) fun _ => Shows mem area
      (P ∧ (tag = atagCmdline →
        ∃ n, wrapped mem (t + 8 + n) = 0 ∧ area.HasRange (t + 8) (n + 1))) := by
  unfold handleTag
  by_cases hcmdline : tag = atagCmdline
  · rw [if_pos hcmdline]
    refine Prog.Ensures.bind (readString_shows (t + 8)) fun s => ?_
    refine (setDevice_shows _).mono (fun _ h => h) fun _ st h => ?_
    exact h.mono fun hP => ⟨hP.1, fun _ => hP.2⟩
  · -- the other types read nothing
    rw [if_neg hcmdline]
    have hkeep : Prog.Ensures (Shows mem area P)
        (if tag = atagClk then setDevice fun mDevice => { mDevice with cLK := true }
          else if tag = atagNandBootMagldr then
            setDevice fun mDevice => { mDevice with nandBoot := true }
          else pure ()) fun _ => Shows mem area P := by
      split_ifs
      · exact setDevice_shows _
      · exact setDevice_shows _
      · exact Prog.Ensures.pure fun _ h => h
    refine hkeep.mono (fun _ h => h) fun _ st h => ?_
    exact h.mono fun hP => ⟨hP, fun htype => absurd htype hcmdline⟩

/-- **One tag**, if all that has been read is in the area. -/
theorem parseTag_shows (t : Nat) :
    Prog.Ensures (Shows mem area P) (parseTag fuel t) fun r st =>
      r = nextTag mem t ∧ Shows mem area (P ∧ TagInside mem area (BitVec.ofNat 32 t)) st := by
  unfold parseTag nextTag
  refine Prog.Ensures.bind_eq (readWord_shows t) ?_
  refine Prog.Ensures.bind_eq (readWord_shows (t + 4)) ?_
  rw [load32_size, load32_type, if_stops]
  by_cases hstops : Stops mem (BitVec.ofNat 32 t)
  · -- the parser returns, after the header
    rw [if_pos hstops, if_pos hstops]
    refine Prog.Ensures.pure fun st h => ⟨rfl, h.mono fun hP => ⟨hP.1.1, ?_⟩⟩
    rw [tagInside_ofNat]
    exact ⟨hP.1.2.append hP.2, fun hgoes => absurd hstops hgoes⟩
  · rw [if_neg hstops, if_neg hstops]
    refine Prog.Ensures.bind (handleTag_shows t _) fun _ => Prog.Ensures.pure fun st h => ?_
    refine ⟨rfl, h.mono fun hP => ⟨hP.1.1.1, ?_⟩⟩
    rw [tagInside_ofNat]
    exact ⟨hP.1.1.2.append hP.1.2, fun _ htype => hP.2 htype⟩

/-- The chain from `a` on ends, and its tags are inside the area. -/
def ChainInside (mem : U32 → Byte) (area : TagArea) (a : U32) : Prop :=
  Ends (Follows mem) a ∧ ∀ b, ReflTransGen (Follows mem) a b → TagInside mem area b

/-- A tag at which the parser returns is all of the chain. -/
theorem ChainInside.of_stops {a : U32} (hstops : Stops mem a) (h : TagInside mem area a) :
    ChainInside mem area a := by
  refine ⟨Ends.of_last (not_follows hstops), fun b hab => ?_⟩
  rcases ReflTransGen.cases_head hab with rfl | ⟨c, hac, _⟩
  · exact h
  · exact absurd hac (not_follows hstops c)

/-- A tag before a chain. -/
theorem ChainInside.cons {a b : U32} (hab : Follows mem a b) (h : TagInside mem area a)
    (hrest : ChainInside mem area b) : ChainInside mem area a := by
  refine ⟨Ends.of_next fun c hac => ?_, fun c hac => ?_⟩
  · rw [hac.unique hab]
    exact hrest.1
  · rcases ReflTransGen.cases_head hac with rfl | ⟨d, had, hdc⟩
    · exact h
    · rw [had.unique hab] at hdc
      exact hrest.2 c hdc

/-- The loop, if all that has been read is in the area. -/
theorem parseTags_shows (limit t : Nat) :
    Prog.Ensures (Shows mem area P) (Prog.loop (parseTag fuel) limit t) fun _ =>
      Shows mem area (P ∧ ChainInside mem area (BitVec.ofNat 32 t)) := by
  -- by induction on the turns of the loop that have been allowed
  induction limit generalizing t P with
  | zero =>
    intro st r st' _ hrun
    exact absurd (congrArg Prod.fst hrun) (by simp [Prog.loop])
  | succ limit ih =>
    refine Prog.Ensures.bind_eq (parseTag_shows t) ?_
    unfold nextTag
    by_cases hstops : Stops mem (BitVec.ofNat 32 t)
    · rw [if_pos hstops]
      apply Prog.Ensures.pure
      intro st h
      exact h.mono fun hP => ⟨hP.1, ChainInside.of_stops hstops hP.2⟩
    · rw [if_neg hstops]
      refine (ih _).mono (fun _ h => h) fun _ st h => ?_
      exact h.mono fun hP => ⟨hP.1.1, hP.2.cons (follows_next hstops) hP.1.2⟩

/-- **Only chains that end inside the area are parsed** inside the area. -/
theorem chainInside_of_contained {startAddr : U32} {mDevice : HtcDevice}
    (hcore : typeAt mem startAddr = atagCore) (h : Contained mem area startAddr mDevice) :
    ChainInside mem area startAddr := by
  obtain ⟨fuel, t, st, hrun, hreads⟩ := h
  have hparse : Prog.Ensures (Shows mem area True) (parseAtags fuel startAddr) fun _ =>
      Shows mem area ((True ∧ area.HasRange (startAddr.toNat + 4) 4) ∧
        ChainInside mem area startAddr) := by
    refine Prog.Ensures.bind_eq (readWord_shows (startAddr.toNat + 4)) ?_
    rw [if_neg fun hne => hne hcore]
    have hloop : Prog.Ensures (Shows mem area (True ∧ area.HasRange (startAddr.toNat + 4) 4))
        (Prog.loop (parseTag fuel) fuel startAddr.toNat) fun _ =>
          Shows mem area ((True ∧ area.HasRange (startAddr.toNat + 4) 4) ∧
            ChainInside mem area (BitVec.ofNat 32 startAddr.toNat)) :=
      parseTags_shows fuel startAddr.toNat
    rwa [BitVec.ofNat_toNat, BitVec.setWidth_eq] at hloop
  exact ((hparse _ t st ⟨rfl, fun _ => trivial⟩ hrun).shows hreads).2

/-! ### A chain that ends inside the area -/

/-- The state has the memory, and all that has been read is in the area. -/
structure Inside (mem : U32 → Byte) (area : TagArea) (st : Parser) : Prop where
  mem : st.mem = wrapped mem
  reads : area.HasReads st

theorem Inside.read {st : Parser} (h : Inside mem area st) {a n : Nat}
    (hrange : area.HasRange a n) :
    Inside mem area { st with reads := (a, n) :: st.reads } :=
  ⟨h.mem, List.forall_mem_cons.mpr ⟨hrange, h.reads⟩⟩

theorem readWord_inside {a : Nat} (hrange : area.HasRange a 4) :
    Prog.Completes (Inside mem area) (readWord a) fun w st =>
      w = Memory.load32 (wrapped mem) a ∧ Inside mem area st := by
  apply Prog.Completes.query
  intro st h
  exact ⟨by rw [h.mem], h.read hrange⟩

theorem readByte_inside {a : Nat} (hrange : area.HasRange a 1) :
    Prog.Completes (Inside mem area) (readByte a) fun b st =>
      b = wrapped mem a ∧ Inside mem area st := by
  apply Prog.Completes.query
  intro st h
  exact ⟨by rw [h.mem], h.read hrange⟩

theorem setDevice_inside (f : HtcDevice → HtcDevice) :
    Prog.Completes (Inside mem area) (setDevice f) fun _ => Inside mem area := by
  apply Prog.Completes.modify
  intro st h
  exact ⟨h.mem, h.reads⟩

/-- A string whose NUL is in the area is read. -/
theorem readString_inside {a n : Nat} (hnul : wrapped mem (a + n) = 0)
    (hrange : area.HasRange a (n + 1)) (hfuel : n < fuel) :
    Prog.Completes (Inside mem area) (readString readByte fuel a) fun _ => Inside mem area := by
  obtain ⟨s, hlen, hs⟩ := HoldsString.exists_of_nul hnul
  have hread : Prog.Completes (Inside mem area) (readString readByte fuel a)
      fun r st => r = s ∧ Inside mem area st := by
    apply readString_spec hs _ (by omega)
    intro i hi
    exact readByte_inside (hrange.part (by omega) (by omega))
  exact hread.mono (fun _ h => h) fun _ _ h => h.2

/-- A tag inside the area is handled. -/
theorem handleTag_inside {n : Nat} {tag : U32}
    (hline : tag = atagCmdline → wrapped mem (t + 8 + n) = 0 ∧ area.HasRange (t + 8) (n + 1))
    (hfuel : n < fuel) :
    Prog.Completes (Inside mem area) (handleTag fuel t tag) fun _ => Inside mem area := by
  unfold handleTag
  split_ifs with hcmdline
  · obtain ⟨hnul, hrange⟩ := hline hcmdline
    exact Prog.Completes.bind (readString_inside hnul hrange hfuel) fun s => setDevice_inside _
  · exact setDevice_inside _
  · exact setDevice_inside _
  · exact Prog.Completes.pure fun _ h => h

/-- **One tag** inside the area. -/
theorem parseTag_inside (h : TagInside mem area (BitVec.ofNat 32 t)) :
    ∃ n, ∀ fuel, n < fuel → Prog.Completes (Inside mem area) (parseTag fuel t)
      fun r st => r = nextTag mem t ∧ Inside mem area st := by
  obtain ⟨hheader, hline⟩ := (tagInside_ofNat t).mp h
  -- as many bytes as the command line has, if it is one
  obtain ⟨n, hn⟩ : ∃ n, ¬ Stops mem (BitVec.ofNat 32 t) →
      typeAt mem (BitVec.ofNat 32 t) = atagCmdline →
        wrapped mem (t + 8 + n) = 0 ∧ area.HasRange (t + 8) (n + 1) := by
    by_cases hhandled : ¬ Stops mem (BitVec.ofNat 32 t) ∧
        typeAt mem (BitVec.ofNat 32 t) = atagCmdline
    · obtain ⟨n, hn⟩ := hline hhandled.1 hhandled.2
      exact ⟨n, fun _ _ => hn⟩
    · exact ⟨0, fun hstops htype => absurd ⟨hstops, htype⟩ hhandled⟩
  refine ⟨n, fun fuel hfuel => ?_⟩
  unfold parseTag nextTag
  refine Prog.Completes.bind_eq (readWord_inside (hheader.part (by omega) (by omega))) ?_
  refine Prog.Completes.bind_eq (readWord_inside (hheader.part (by omega) (by omega))) ?_
  rw [load32_size, load32_type, if_stops]
  by_cases hstops : Stops mem (BitVec.ofNat 32 t)
  · rw [if_pos hstops, if_pos hstops]
    exact Prog.Completes.pure fun _ h => ⟨rfl, h⟩
  · rw [if_neg hstops, if_neg hstops]
    refine Prog.Completes.bind (handleTag_inside (hn hstops) hfuel) fun _ => ?_
    exact Prog.Completes.pure fun _ h => ⟨rfl, h⟩

/-- The loop ends on a chain that does. -/
theorem parseTags_inside (h : ChainInside mem area (BitVec.ofNat 32 t)) :
    ∃ n, ∀ fuel limit, n < fuel → n < limit →
      Prog.Completes (Inside mem area) (Prog.loop (parseTag fuel) limit t)
        fun _ => Inside mem area := by
  obtain ⟨hends, hinside⟩ := h
  generalize ha : BitVec.ofNat 32 t = a at hends hinside
  -- by induction on the chain
  induction hends generalizing t with
  | intro a _ ih =>
    subst ha
    obtain ⟨n, hn⟩ := parseTag_inside (hinside _ ReflTransGen.refl)
    by_cases hstops : Stops mem (BitVec.ofNat 32 t)
    · refine ⟨n, fun fuel limit hfuel hlimit => ?_⟩
      obtain ⟨limit, rfl⟩ := Nat.exists_eq_succ_of_ne_zero (Nat.ne_of_gt (Nat.zero_lt_of_lt hlimit))
      refine Prog.Completes.bind_eq (hn fuel hfuel) ?_
      rw [nextTag, if_pos hstops]
      exact Prog.Completes.pure fun _ h => h
    · have hnext := follows_next hstops
      obtain ⟨k, hk⟩ := ih _ hnext rfl fun b hb => hinside b (ReflTransGen.head hnext hb)
      refine ⟨n + k + 1, fun fuel limit hfuel hlimit => ?_⟩
      obtain ⟨limit, rfl⟩ := Nat.exists_eq_succ_of_ne_zero (Nat.ne_of_gt (Nat.zero_lt_of_lt hlimit))
      refine Prog.Completes.bind_eq (hn fuel (by omega)) ?_
      rw [nextTag, if_neg hstops]
      exact hk fuel limit (by omega) (by omega)

/-- **Chains that end inside the area are parsed**, inside the area. -/
theorem contained_of_chainInside {startAddr : U32} (h : ChainInside mem area startAddr)
    (mDevice : HtcDevice) : Contained mem area startAddr mDevice := by
  have hchain : ChainInside mem area (BitVec.ofNat 32 startAddr.toNat) := by
    rwa [BitVec.ofNat_toNat, BitVec.setWidth_eq]
  obtain ⟨n, hn⟩ := parseTags_inside hchain
  have hheader := (h.2 _ ReflTransGen.refl).header
  have hparse : Prog.Completes (Inside mem area) (parseAtags (n + 1) startAddr)
      fun _ => Inside mem area := by
    refine Prog.Completes.bind_eq (readWord_inside (hheader.part (by omega) (by omega))) ?_
    split_ifs with hcore
    · exact Prog.Completes.pure fun _ h => h
    · exact hn (n + 1) (n + 1) (Nat.lt_succ_self n) (Nat.lt_succ_self n)
  have hstart : Inside mem area ⟨wrapped mem, [], mDevice⟩ :=
    ⟨rfl, fun r hr => absurd hr List.not_mem_nil⟩
  obtain ⟨t, st, hrun, hinside⟩ := hparse _ hstart
  exact ⟨n + 1, t, st, hrun, hinside.reads⟩

/-! ### When the parser ends inside the area -/

theorem finite_addresses : Finite U32 :=
  Finite.of_injective BitVec.toFin fun _ _ h => BitVec.eq_of_toFin_eq h

/-- **The parser ends, and reads only inside the area,** exactly when the chain of the tags comes
    to no tag twice and its headers and command lines are in the area. -/
theorem contained_iff {startAddr : U32} (hcore : typeAt mem startAddr = atagCore)
    (mDevice : HtcDevice) :
    Contained mem area startAddr mDevice ↔
      ∀ a, ReflTransGen (Follows mem) startAddr a →
        TagInside mem area a ∧ ¬ TransGen (Follows mem) a a := by
  have := finite_addresses
  constructor
  · intro h a ha
    obtain ⟨hends, hinside⟩ := chainInside_of_contained hcore h
    exact ⟨hinside a ha, (hends.rest ha).acyclic⟩
  · intro h
    refine contained_of_chainInside ⟨?_, fun a ha => (h a ha).1⟩ mDevice
    rw [ends_iff_acyclic]
    exact fun a ha => (h a ha).2

/-- A list of `ATAG_CORE` and the end, at the address at which the driver looks for it. -/
def shortList : U32 → Byte :=
  fun a => Memory.storeWords 0x11800100 [2, atagCore, 0, atagNone] (fun _ => 0) a.toNat

/-- The area from there to the kernel. -/
def bootArea : TagArea := ⟨0x11800100, 0x11808000⟩

/-- A header outside command lines is all the parser reads of a tag. -/
theorem tagInside_header {a : U32} (hlo : area.lo ≤ a.toNat) (hhi : a.toNat + 8 ≤ area.hi)
    (harea : area.hi ≤ 2 ^ 32) (htype : typeAt mem a ≠ atagCmdline) : TagInside mem area a := by
  refine ⟨fun i hi => ?_, fun _ hline => absurd hline htype⟩
  rw [Nat.mod_eq_of_lt (by omega)]
  omega

/-- The short list is parsed inside the area. -/
theorem contained_iff_shortList :
    Contained shortList bootArea 0x11800100 ⟨.unknown, false, false, 0⟩ := by
  have hcore : TagInside shortList bootArea 0x11800100 :=
    tagInside_header (by decide) (by decide) (by decide) (by decide +kernel)
  have hend : TagInside shortList bootArea 0x11800108 :=
    tagInside_header (by decide) (by decide) (by decide) (by decide +kernel)
  have hfollows : Follows shortList 0x11800100 0x11800108 := by decide +kernel
  have hstops : Stops shortList 0x11800108 := by decide +kernel
  have hchain : ChainInside shortList bootArea 0x11800100 :=
    (ChainInside.of_stops hstops hend).cons hfollows hcore
  refine (contained_iff (by decide +kernel) _).mpr fun a ha => ?_
  exact ⟨hchain.2 a ha, (hchain.1.rest ha).acyclic⟩

/-- A header of type `ATAG_CORE` whose size, in bytes, is 0 modulo `2 ^ 32`. -/
def wrappingCore : U32 → Byte :=
  fun a => Memory.storeWords 0x11800100 [0x40000000, atagCore] (fun _ => 0) a.toNat

/-- On that header the parser stays for ever. -/
theorem wrappingCore_not_contained : typeAt wrappingCore 0x11800100 = atagCore ∧
    ¬ Contained wrappingCore bootArea 0x11800100 ⟨.unknown, false, false, 0⟩ := by
  have hcore : typeAt wrappingCore 0x11800100 = atagCore := by decide +kernel
  refine ⟨hcore, fun h => ?_⟩
  have hfollows : Follows wrappingCore 0x11800100 0x11800100 := by decide +kernel
  exact (chainInside_of_contained hcore h).1.acyclic (TransGen.single hfollows)

/-- **A check of the sizes would be enough:** if every tag that is reached is inside the area, and
    its size does not lead out of it, the parser ends. -/
theorem contained_of_sizes (harea : area.hi < 2 ^ 32) {startAddr : U32}
    (h : ∀ a, ReflTransGen (Follows mem) startAddr a → TagInside mem area a ∧
      a.toNat + 4 * (sizeAt mem a).toNat ≤ area.hi) (mDevice : HtcDevice) :
    Contained mem area startAddr mDevice := by
  have := finite_addresses
  refine contained_of_chainInside ⟨?_, fun a ha => (h a ha).1⟩ mDevice
  rw [ends_iff_acyclic]
  intro a ha
  -- each tag that follows is at a higher address
  refine not_transGen_of_lt (P := ReflTransGen (Follows mem) startAddr) (fun b => b.toNat) ?_ ha
  intro b c hb hbc
  refine ⟨?_, hb.tail hbc⟩
  have hsize := (h b hb).2
  obtain ⟨hgoes, rfl⟩ := hbc
  have hpos : (sizeAt mem b).toNat ≠ 0 := fun hzero =>
    hgoes (Or.inr (BitVec.eq_of_toNat_eq hzero))
  have hstep : (b + sizeAt mem b * 4#32).toNat = b.toNat + 4 * (sizeAt mem b).toNat := by
    rw [BitVec.toNat_add, BitVec.toNat_mul, BitVec.toNat_ofNat]
    omega
  omega

end HtcLeo.Atags

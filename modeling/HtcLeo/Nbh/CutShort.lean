import HtcLeo.Nbh.RoundTrip
import Mathlib.Data.List.Forall2

namespace HtcLeo.Nbh

open ByteStream

/-!
# Files cut short

`extractNBH` on a NBH file of which only the beginning is there, whatever the file holds.

* `nbh2dbh_behind` — the DBH that it makes is the beginning of the one it would have made.
* `CutShort` — how the files of a section then are; `extract_cut_short` — every section is cut
  short at most, and one that the extractor calls complete is complete.
-/

/-! ### The DBH -/

theorem readHead_steady : Steady readHead :=
  (Steady.exactly 4).bind fun _ => (Steady.exactly 4).bind fun _ =>
    (Steady.exactly 1).bind fun _ => Steady.pure _

/-- The loop only ever appends to the output file. -/
theorem nbh2dbh_output {initsign : Nat} {blockIndex : U32} {input : ByteStream}
    {output dbh : List Byte} (h : nbh2dbh initsign blockIndex input output = some dbh) :
    output <+: dbh := by
  fun_induction nbh2dbh initsign blockIndex input output with
  | case1 | case2 =>
    obtain rfl := Option.some.inj h
    exact List.prefix_refl _
  | case3 blockIndex input output heof head input' hhead blockLen copy
  | case5 blockIndex input output heof head input' hhead blockLen copy
  | case6 blockIndex input output heof head input' hhead blockLen copy =>
    obtain rfl := Option.some.inj h
    have hcopy : copy = _ := bufferedReadWrite_eq input' output blockLen.toNat
    rw [hcopy]
    exact List.prefix_append _ _
  | case4 => cases h
  | case7 blockIndex input output heof head input' hhead blockLen copy _ _ _ _ _ ih =>
    have hcopy : copy = _ := bufferedReadWrite_eq input' output blockLen.toNat
    have hout : output <+: copy.2.2 := by
      rw [hcopy]
      exact List.prefix_append _ _
    exact hout.trans (ih h)

/-- A block that is there goes to the output file, whatever comes behind it. -/
theorem nbh2dbh_copied {input input' : ByteStream} {head : Head} (heof : input.eof = false)
    (hhead : readHead input = some (head, input')) {initsign : Nat} {blockIndex : U32}
    {output dbh : List Byte} (h : nbh2dbh initsign blockIndex input output = some dbh) :
    output ++ (input'.fread (adjustedLen initsign blockIndex head.blockLen).toNat).1 <+: dbh := by
  rw [nbh2dbh_some heof hhead] at h
  simp only at h
  split_ifs at h
  case neg => exact nbh2dbh_output h
  all_goals
    obtain rfl := Option.some.inj h
    exact List.prefix_refl _

/-- Where a block and its signature are there in full, a longer file goes the same way. -/
theorem nbh2dbh_next {t t' : ByteStream} {head : Head} (heof : t.eof = false)
    (hhead : readHead t = some (head, t')) {initsign : Nat} {blockIndex : U32}
    {output dbh : List Byte} (h : nbh2dbh initsign blockIndex t output = some dbh)
    (hlen : (adjustedLen initsign blockIndex head.blockLen).toNat ≤ t'.rest.length)
    (hsign : (((t'.fread (adjustedLen initsign blockIndex head.blockLen).toNat).2.fread
      head.signLen.toNat).1).length = head.signLen.toNat)
    (hflag : head.flag ≠ 2) :
    nbh2dbh initsign (blockIndex + 1)
      ((t'.fread (adjustedLen initsign blockIndex head.blockLen).toNat).2.fread
        head.signLen.toNat).2
      (output ++ (t'.fread (adjustedLen initsign blockIndex head.blockLen).toNat).1)
        = some dbh := by
  rw [nbh2dbh_some heof hhead] at h
  simp only [if_neg (Nat.not_lt.mpr hlen), if_neg hflag, if_neg (not_not.mpr hsign)] at h
  split_ifs at h
  exact h

/-- The DBH of a file cut short is the beginning of the DBH of the file. -/
theorem nbh2dbh_behind {s : ByteStream} {initsign : Nat} {blockIndex : U32}
    {output dbh : List Byte} (hs : nbh2dbh initsign blockIndex s output = some dbh) :
    ∀ t dbh', Behind s t → nbh2dbh initsign blockIndex t output = some dbh' → dbh <+: dbh' := by
  fun_induction nbh2dbh initsign blockIndex s output with
  | case1 | case2 =>
    intro t dbh' h ht
    obtain rfl := Option.some.inj hs
    exact nbh2dbh_output ht
  | case3 blockIndex input output heof head input' hhead blockLen copy
  | case5 blockIndex input output heof head input' hhead blockLen copy
  | case6 blockIndex input output heof head input' hhead blockLen copy =>
    -- the shorter file ends with this block
    intro t dbh' h ht
    obtain rfl := Option.some.inj hs
    obtain ⟨t', hhead', hbehind⟩ := readHead_steady _ _ _ _ h hhead
    have heof' : t.eof = false := h.eof ▸ Bool.eq_false_of_not_eq_true heof
    have hcopy : copy = _ := bufferedReadWrite_eq input' output blockLen.toNat
    rw [hcopy]
    exact ((List.prefix_append_right_inj output).mpr (hbehind.fread_prefix _)).trans
      (nbh2dbh_copied heof' hhead' ht)
  | case4 => cases hs
  | case7 blockIndex input output heof head input' hhead blockLen copy hall sign hroom hsign hflag
      ih =>
    intro t dbh' h ht
    obtain ⟨t', hhead', hbehind⟩ := readHead_steady _ _ _ _ h hhead
    have heof' : t.eof = false := h.eof ▸ Bool.eq_false_of_not_eq_true heof
    have hcopy : copy = _ := bufferedReadWrite_eq input' output blockLen.toNat
    have hlen : blockLen.toNat ≤ input'.rest.length := by
      rw [hcopy] at hall
      simpa using hall
    -- the block and its signature are read from both in the same way
    obtain ⟨hdata, hbehind₁⟩ := hbehind.fread_full hlen
    have hcopied : copy.2.1 = (input'.fread blockLen.toNat).2 := by rw [hcopy]
    have hsignlen : head.signLen.toNat ≤ (input'.fread blockLen.toNat).2.rest.length := by
      have htake : sign.1.length = min head.signLen.toNat copy.2.1.rest.length := List.length_take
      rw [← hcopied]
      omega
    obtain ⟨hsame, hbehind₂⟩ := hbehind₁.fread_full hsignlen
    have hnext := nbh2dbh_next heof' hhead' ht (hlen.trans hbehind.rest.length_le)
      (by rw [← hsame, ← hcopied]; exact not_not.mp hsign) hflag
    rw [← hdata] at hnext
    refine ih hs ((t'.fread blockLen.toNat).2.fread head.signLen.toNat).2 dbh' ?_ ?_
    · change Behind (copy.2.1.fread head.signLen.toNat).2 _
      rw [hcopied]
      exact hbehind₂
    · rw [hcopy]
      exact hnext

/-! ### Sections -/

/-- The files of a section that is cut short, beside those of the whole section: the bytes of the
    one begin those of the other, what `extractNB` calls complete is complete, and a splash screen
    is converted as it would have been, or not at all. -/
structure CutShort (f f' : NbFile) : Prop where
  index : f.index = f'.index
  type : f.type = f'.type
  data : f.data <+: f'.data
  retval : f.retval = true → f'.retval = true ∧ f.data = f'.data
  bmp : ∀ bmp, f.bmp = some bmp → f'.bmp = some bmp

variable {dbh dbh' : List Byte}

theorem behind_drop (h : dbh <+: dbh') (n : Nat) :
    Behind (ofBytes (dbh.drop n)) (ofBytes (dbh'.drop n)) :=
  ⟨h.drop n, rfl⟩

/-- A splash screen that can be read from the shorter file is the same in the longer one. -/
theorem convertNB2BMP_behind (h : dbh <+: dbh') {biWidth biHeight dataLen start : Nat}
    {bmp : List Byte} (hbmp : convertNB2BMP dbh biWidth biHeight dataLen start = some bmp) :
    convertNB2BMP dbh' biWidth biHeight dataLen start = some bmp := by
  have hbehind := behind_drop h start
  have hlen : dataLen ≤ (dbh.drop start).length := by
    by_contra hshort
    have htake : ((ofBytes (dbh.drop start)).fread dataLen).1.length ≠ dataLen := by
      change ((dbh.drop start).take dataLen).length ≠ dataLen
      rw [List.length_take]
      omega
    rw [convertNB2BMP, if_pos htake] at hbmp
    cases hbmp
  unfold convertNB2BMP at hbmp ⊢
  rw [← (hbehind.fread_full hlen).1]
  exact hbmp

theorem extractNB_cutShort (h : dbh <+: dbh') (index : Nat) (type start len : U32) :
    CutShort (extractNB dbh index type start len) (extractNB dbh' index type start len) := by
  have hbehind := behind_drop h start.toNat
  have hcopy := bufferedReadWrite_eq (ofBytes (dbh.drop start.toNat)) [] len.toNat
  have hcopy' := bufferedReadWrite_eq (ofBytes (dbh'.drop start.toNat)) [] len.toNat
  have hdata := hbehind.fread_prefix len.toNat
  have hretval : decide (len.toNat ≤ (ofBytes (dbh.drop start.toNat)).rest.length) = true →
      decide (len.toNat ≤ (ofBytes (dbh'.drop start.toNat)).rest.length) = true ∧
      ((ofBytes (dbh.drop start.toNat)).fread len.toNat).1
        = ((ofBytes (dbh'.drop start.toNat)).fread len.toNat).1 := by
    intro hlen
    have hle := of_decide_eq_true hlen
    exact ⟨decide_eq_true (hle.trans hbehind.rest.length_le), (hbehind.fread_full hle).1⟩
  have hnone : ∀ bmp : List Byte, none = some bmp → none = some bmp := fun _ hb => hb
  unfold extractNB
  rw [hcopy, hcopy', List.nil_append, List.nil_append]
  split
  · split
    · exact ⟨rfl, rfl, hdata, fun hno => absurd hno Bool.false_ne_true, hnone⟩
    · exact ⟨rfl, rfl, hdata, hretval, fun bmp hbmp => convertNB2BMP_behind h hbmp⟩
  · exact ⟨rfl, rfl, hdata, hretval, hnone⟩

/-- The sections that a header names are cut short one by one. -/
theorem extractSections_cutShort (h : dbh <+: dbh') (header : HTCIMAGEHEADER) :
    List.Forall₂ CutShort (extractSections dbh header) (extractSections dbh' header) := by
  unfold extractSections
  induction List.range 32 with
  | nil => exact List.Forall₂.nil
  | cons i l ih =>
    by_cases hkept : i + 50 < 95 ∧ header.sectiontypes.getD i 0 ≠ 0 ∧ i ≠ 31
    · have hfst : extractSection dbh header i = _ := if_pos hkept
      have hsnd : extractSection dbh' header i = _ := if_pos hkept
      rw [List.filterMap_cons_some hfst, List.filterMap_cons_some hsnd]
      exact List.Forall₂.cons (extractNB_cutShort h i _ _ _) ih
    · have hfst : extractSection dbh header i = none := if_neg hkept
      have hsnd : extractSection dbh' header i = none := if_neg hkept
      rw [List.filterMap_cons_none hfst, List.filterMap_cons_none hsnd]
      exact ih

/-- A DBH cut short behind its header has the same header. -/
theorem dbhExtract_cutShort (h : dbh <+: dbh') {header : HTCIMAGEHEADER} {files : List NbFile}
    (hrun : dbhExtract dbh = .ok (header, files)) :
    ∃ files', dbhExtract dbh' = .ok (header, files') ∧ List.Forall₂ CutShort files files' := by
  have hbehind : Behind (ofBytes dbh) (ofBytes dbh') := ⟨h, rfl⟩
  unfold dbhExtract at hrun
  split at hrun
  case h_1 => cases hrun
  case h_2 magic tmpfile hmagic =>
    split_ifs at hrun with hne
    split at hrun
    case h_1 => cases hrun
    case h_2 bytes rest hheader =>
      obtain ⟨rfl, rfl⟩ := Prod.mk.inj (Except.ok.inj hrun)
      obtain ⟨tmpfile', hmagic', hbehind'⟩ := Steady.exactly _ _ _ _ _ hbehind hmagic
      obtain ⟨rest', hheader', -⟩ := Steady.exactly _ _ _ _ _ hbehind' hheader
      refine ⟨extractSections dbh' (HTCIMAGEHEADER.layout.load bytes), ?_,
        extractSections_cutShort h _⟩
      simp only [dbhExtract, hmagic', if_neg hne, hheader']

/-! ### A file cut inside a section -/

/-- A block that is cut short ends the loop with what is there of it. -/
theorem nbh2dbh_cut {len : U32} {data : List Byte} (h : data.length < len.toNat)
    (blockIndex signLen : U32) (flag : Byte) (output : List Byte) :
    nbh2dbh 16 blockIndex ⟨writeHead len signLen flag ++ data, false⟩ output
      = some (output ++ data) := by
  have hhead := readHead_append len signLen flag data false
  have hadj : adjustedLen 16 blockIndex len = len := if_neg (by simp)
  rw [nbh2dbh_some rfl hhead]
  simp only [hadj, if_pos h, fread, List.take_of_length_le h.le]

/-- A DBH of one block, in its NBH. -/
theorem writeNbh_one (c : ChunkSize) {dbh : List Byte} (h : dbh.length ≤ c.blockLen.toNat) :
    writeNbh c dbh = magicHeader2 ++ (initialsignature ++
      (writeHead (BitVec.ofNat 32 dbh.length) signLen 1 ++ (dbh ++
        (signature.take signLen.toNat ++ lastBlock)))) := by
  have hsize : (BitVec.ofNat 32 dbh.length).toNat = dbh.length := by
    rw [BitVec.toNat_ofNat]
    have hlt := c.blockLen.isLt
    exact Nat.mod_eq_of_lt (by omega)
  have hle : (0 : U32) ≤ BitVec.ofNat 32 dbh.length := Nat.zero_le _
  have hzero : (0 : U32).toNat = 0 := rfl
  have hnext : nextLen c.blockLen (BitVec.ofNat 32 dbh.length) 0 = BitVec.ofNat 32 dbh.length := by
    apply BitVec.eq_of_toNat_eq
    rw [nextLen_spec c hle, hsize, hzero]
    omega
  have hdone : ¬ (0 : U32) + BitVec.ofNat 32 dbh.length < BitVec.ofNat 32 dbh.length := by
    rw [BitVec.ofNat_eq_ofNat, BitVec.zero_add]
    exact BitVec.lt_irrefl _
  rw [writeNbh, writeBlocks]
  simp only [hnext, dif_neg hdone, bufferedReadWrite_eq, hsize, fread, ofBytes, List.take_length,
    List.append_assoc]

/-- Two sections, of two bytes and of three. -/
def twoSections : Options := { leoOptions with types := [0x200, 0x400] }

theorem twoSections_fits : twoSections.Fits := leoOptions_fits

/-- The NBH of the two sections, cut behind the first byte of the second. -/
def cutNbh : List Byte := (writeNbh .size64 (writeDbh twoSections)).take 547

/-- The DBH in it, as far as it is there. -/
def cutDbh : List Byte :=
  magicHeader ++ HTCIMAGEHEADER.layout.store twoSections.header ++ [0x00, 0xF8, 0x01]

theorem cutDbh_length : cutDbh.length = 515 := by
  rw [cutDbh, List.length_append, List.length_append, Layout.length_store]
  rfl

theorem cutNbh_eq :
    cutNbh = magicHeader2 ++ (initialsignature ++ (writeHead 517 signLen 1 ++ cutDbh)) := by
  have hdbh : writeDbh twoSections = cutDbh ++ [0x02, 0x03] := by
    rw [writeDbh_eq twoSections_fits, cutDbh, List.append_assoc _ [0x00, 0xF8, 0x01]]
    rfl
  have hlen : (writeDbh twoSections).length = 517 := by
    rw [hdbh, List.length_append, cutDbh_length]
    rfl
  have hshort : (writeDbh twoSections).length ≤ ChunkSize.size64.blockLen.toNat := by
    rw [hlen]
    decide
  -- the block ends with the two bytes that are cut off, its signature and the last block
  have hsplit : writeNbh .size64 (writeDbh twoSections)
      = magicHeader2 ++ (initialsignature ++ (writeHead 517 signLen 1 ++ cutDbh))
        ++ ([0x02, 0x03] ++ (signature.take signLen.toNat ++ lastBlock)) := by
    rw [writeNbh_one .size64 hshort, hlen, hdbh]
    simp only [List.append_assoc]
    rfl
  have hall : (magicHeader2 ++ (initialsignature ++ (writeHead 517 signLen 1 ++ cutDbh))).length
      = 547 := by
    rw [List.length_append, List.length_append, List.length_append, cutDbh_length]
    rfl
  rw [cutNbh, hsplit]
  exact List.take_left' hall

theorem extractNBH_cutNbh :
    extractNBH cutNbh = .ok (twoSections.header, extractSections cutDbh twoSections.header) := by
  have hmagic := exactly_append magicHeader2
    (initialsignature ++ (writeHead 517 signLen 1 ++ cutDbh)) false
  have hsign := exactly_append initialsignature (writeHead 517 signLen 1 ++ cutDbh) false
  have hshort : cutDbh.length < (517 : U32).toNat := by
    rw [cutDbh_length]
    decide
  have hloop := nbh2dbh_cut hshort 0 signLen 1 []
  rw [length_initialsignature] at hsign
  rw [extractNBH, cutNbh_eq, ofBytes, hmagic]
  simp only [if_true, hsign, hloop, List.nil_append]
  exact dbhExtract_append twoSections.header [0x00, 0xF8, 0x01]

/-! ### The whole -/

/-- Where the extractor gets at the sections of a file cut short, it finds the header of the whole
    file and every section of it, each cut short at most. -/
theorem extract_cut_short {nbh nbh' : List Byte} (h : nbh <+: nbh') {header : HTCIMAGEHEADER}
    {files : List NbFile} (hrun : extractNBH nbh = .ok (header, files)) :
    extractNBH nbh' = .error .overrun ∨
      ∃ files', extractNBH nbh' = .ok (header, files') ∧ List.Forall₂ CutShort files files' := by
  have hbehind : Behind (ofBytes nbh) (ofBytes nbh') := ⟨h, rfl⟩
  unfold extractNBH at hrun
  split at hrun
  case h_1 => cases hrun
  case h_2 magic input hmagic =>
    simp only at hrun
    split at hrun
    case h_1 => cases hrun
    case h_2 signature input₁ hsign =>
      -- the longer file has the same magic and signature
      obtain ⟨input', hmagic', hbehind₁⟩ := Steady.exactly _ _ _ _ _ hbehind hmagic
      obtain ⟨input₁', hsign', hbehind₂⟩ := Steady.exactly _ _ _ _ _ hbehind₁ hsign
      split at hrun
      case h_1 => cases hrun
      case h_2 dbh hdbh =>
        cases hdbh' : nbh2dbh (if magic = magicHeader2 then 16 else 240) 0 input₁' [] with
        | none =>
          left
          simp only [extractNBH, hmagic', hsign', hdbh']
        | some dbh' =>
          right
          have hprefix := nbh2dbh_behind hdbh input₁' dbh' hbehind₂ hdbh'
          simpa only [extractNBH, hmagic', hsign', hdbh'] using dbhExtract_cutShort hprefix hrun

/-- Of a file cut inside its second section the first one is whole, and the second has lost what is
    not there. -/
theorem extract_cut_short_inside :
    ∃ files files', extractNBH cutNbh = .ok (twoSections.header, files) ∧
      extractNBH (writeNbh .size64 (writeDbh twoSections)) = .ok (twoSections.header, files') ∧
      files.map NbFile.section = [(0, 0x200, [0x00, 0xF8]), (1, 0x400, [0x01])] ∧
      files'.map NbFile.section = [(0, 0x200, [0x00, 0xF8]), (1, 0x400, [0x01, 0x02, 0x03])] ∧
      List.Forall₂ CutShort files files' := by
  have hwhole := extractNBH_writeNbh .size64 twoSections_fits
  obtain hover | ⟨files', hfiles', hcut⟩ :=
    extract_cut_short (List.take_prefix 547 _) extractNBH_cutNbh
  · rw [hwhole] at hover
    cases hover
  · refine ⟨_, files', extractNBH_cutNbh, hfiles', ?_, ?_, hcut⟩
    · rw [extractSections, List.map_filterMap, funext (extractSection_section _ _)]
      decide +kernel
    · rw [hwhole] at hfiles'
      obtain ⟨-, rfl⟩ := Prod.mk.inj (Except.ok.inj hfiles')
      exact extractSections_writeDbh twoSections_fits rfl (by decide)

end HtcLeo.Nbh

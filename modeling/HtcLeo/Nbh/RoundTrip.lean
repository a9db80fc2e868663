import HtcLeo.Nbh.Extract
import HtcLeo.Nbh.Generate

namespace HtcLeo.Nbh

open ByteStream

/-!
# The round trip

What the generator packs, the extractor unpacks.

* `nbh2dbh_block` — one block through the loop of the extractor; `nbh2dbh_blocks` any number of
  blocks, whoever wrote them.
* `nbh2dbh_writeNbh` — the DBH comes out as it went in.
* `extractSections_writeDbh`, `extract_generate` — and so do the header and every section.
-/

/-! ### Blocks -/

theorem readHead_append (blockLen signLen : U32) (flag : Byte) (rest : List Byte) (eof : Bool) :
    readHead ⟨writeHead blockLen signLen flag ++ rest, eof⟩
      = some (⟨blockLen, signLen, flag⟩, ⟨rest, eof⟩) := by
  have h₁ := exactly_append (Layout.word32.store blockLen)
    (Layout.word32.store signLen ++ ([flag] ++ rest)) eof
  have h₂ := exactly_append (Layout.word32.store signLen) ([flag] ++ rest) eof
  have h₃ := exactly_append [flag] rest eof
  rw [Layout.length_store, Layout.size_word32] at h₁ h₂
  rw [List.length_singleton] at h₃
  rw [writeHead, List.append_assoc, List.append_assoc, readHead_eq, h₁, Option.bind_some, h₂,
    Option.bind_some, h₃, Option.bind_some, Layout.load_store_nil, Layout.load_store_nil]
  rfl

/-- Blocks that the loop takes: the lengths are words, and the signature has room. -/
structure Block.Readable (b : Block) : Prop where
  data : b.data.length < 2 ^ 32
  sign : b.sign.length ≤ blockSignSize

theorem Block.signed_readable (flag : Byte) {data : List Byte} (h : data.length < 2 ^ 32) :
    (Block.signed flag data).Readable := by
  refine ⟨h, ?_⟩
  rw [Block.signed, List.length_replicate]
  decide

/-- One block through the loop: what it holds goes to the output file. -/
theorem nbh2dbh_block {b : Block} (h : b.Readable) (blockIndex : U32)
    (rest output : List Byte) :
    nbh2dbh 16 blockIndex ⟨b.store ++ rest, false⟩ output
      = if b.flag = 2 then some (output ++ b.data)
        else nbh2dbh 16 (blockIndex + 1) ⟨rest, false⟩ (output ++ b.data) := by
  have hsignlen : b.sign.length < 2 ^ 32 := h.sign.trans_lt (by decide)
  have hdata : (BitVec.ofNat 32 b.data.length).toNat = b.data.length := by
    rw [BitVec.toNat_ofNat, Nat.mod_eq_of_lt h.data]
  have hsign : (BitVec.ofNat 32 b.sign.length).toNat = b.sign.length := by
    rw [BitVec.toNat_ofNat, Nat.mod_eq_of_lt hsignlen]
  have hstore : b.store ++ rest = writeHead (BitVec.ofNat 32 b.data.length)
      (BitVec.ofNat 32 b.sign.length) b.flag ++ (b.data ++ (b.sign ++ rest)) := by
    simp only [Block.store, List.append_assoc]
  have hhead := readHead_append (BitVec.ofNat 32 b.data.length) (BitVec.ofNat 32 b.sign.length)
    b.flag (b.data ++ (b.sign ++ rest)) false
  have hadj : adjustedLen 16 blockIndex (BitVec.ofNat 32 b.data.length)
      = BitVec.ofNat 32 b.data.length := if_neg (by simp)
  have hthere : ¬ (b.data ++ (b.sign ++ rest)).length < b.data.length := by
    rw [List.length_append]
    omega
  have hroom : ¬ blockSignSize < b.sign.length := Nat.not_lt.mpr h.sign
  rw [hstore, nbh2dbh_some rfl hhead]
  -- the bytes of the block, and then those of the signature
  simp only [hadj, hdata, hsign, fread_append, if_neg hthere, if_neg hroom, ne_eq, not_true,
    if_false]

/-- Any number of blocks through the loop, up to the one with the flag that ends the file. -/
theorem nbh2dbh_blocks (blocks : List Block) {last : Block}
    (hblocks : ∀ b ∈ blocks, b.Readable ∧ b.flag ≠ 2) (hlast : last.Readable)
    (hflag : last.flag = 2) (blockIndex : U32) (rest output : List Byte) :
    nbh2dbh 16 blockIndex ⟨blocks.flatMap Block.store ++ (last.store ++ rest), false⟩ output
      = some (output ++ (blocks.flatMap Block.data ++ last.data)) := by
  induction blocks generalizing blockIndex output with
  | nil =>
    rw [List.flatMap_nil, List.nil_append, nbh2dbh_block hlast, if_pos hflag]
    rfl
  | cons b blocks ih =>
    obtain ⟨⟨hb, hne⟩, hrest⟩ := List.forall_mem_cons.mp hblocks
    rw [List.flatMap_cons, List.append_assoc, nbh2dbh_block hb, if_neg hne, ih hrest,
      List.flatMap_cons, List.append_assoc, List.append_assoc]

/-- The DBH comes out of the NBH as it went in. -/
theorem nbh2dbh_writeNbh (c : ChunkSize) {dbh : List Byte} (h : dbh.length < 2 ^ 32) :
    ∃ blocks, writeNbh c dbh = magicHeader2 ++ (initialsignature ++ blocks) ∧
      nbh2dbh 16 0 ⟨blocks, false⟩ [] = some dbh := by
  obtain ⟨datas, hall, hmax, heq⟩ := writeNbh_eq c dbh h
  have hlen : ∀ data ∈ datas, data.length < 2 ^ 32 := by
    intro data hdata
    have hle := (List.sublist_flatten_of_mem hdata).length_le
    rw [hall] at hle
    exact hle.trans_lt h
  have hreadable : ∀ b ∈ datas.map (Block.signed 1), b.Readable ∧ b.flag ≠ 2 := by
    intro b hb
    obtain ⟨data, hdata, rfl⟩ := List.mem_map.mp hb
    exact ⟨Block.signed_readable 1 (hlen data hdata), (by decide : (1 : Byte) ≠ 2)⟩
  have hrun := nbh2dbh_blocks (datas.map (Block.signed 1)) hreadable
    (Block.signed_readable 2 (by decide : ([] : List Byte).length < 2 ^ 32)) rfl 0 [] []
  refine ⟨(datas.flatMap fun data => (Block.signed 1 data).store) ++ (Block.signed 2 []).store,
    by rw [heq]; simp only [List.append_assoc], ?_⟩
  rw [List.append_nil, List.flatMap_map, List.nil_append] at hrun
  rw [hrun, List.flatMap_map]
  have hdata : (datas.flatMap fun data => (Block.signed 1 data).data) = dbh := by
    rw [← hall]
    exact List.flatMap_id
  rw [hdata]
  exact congrArg some (List.append_nil dbh)

/-! ### Sections -/

/-- What a NBH file keeps of section `i` of a command line: its type, when that is not zero, and
    its file. -/
def Options.section (o : Options) (i : Nat) : Option (Nat × U32 × List Byte) :=
  if o.types.getD i 0 = 0 then none else some (i, o.types.getD i 0, o.nbfiles.getD i [])

/-- The sections that a NBH file keeps. -/
def Options.sections (o : Options) : List (Nat × U32 × List Byte) :=
  (List.range o.nbfiles.length).filterMap o.section

/-- What names a section, and its bytes. -/
def NbFile.section (f : NbFile) : Nat × U32 × List Byte := (f.index, f.type, f.data)

/-- The `.nb` file of a section is what the DBH has there. -/
theorem extractNB_section (dbh : List Byte) (index : Nat) (type start len : U32) :
    (extractNB dbh index type start len).section
      = (index, type, (dbh.drop start.toNat).take len.toNat) := by
  have hcopy := bufferedReadWrite_eq (ofBytes (dbh.drop start.toNat)) [] len.toNat
  rw [List.nil_append] at hcopy
  unfold extractNB NbFile.section
  rw [hcopy]
  split
  · split <;> rfl
  · rfl

/-- What the DBH has of the sections that are kept. -/
theorem extractSection_section (dbh : List Byte) (header : HTCIMAGEHEADER) (i : Nat) :
    (extractSection dbh header i).map NbFile.section =
      if i + 50 < 95 ∧ header.sectiontypes.getD i 0 ≠ 0 ∧ i ≠ 31 then
        some (i, header.sectiontypes.getD i 0,
          (dbh.drop (header.sectionoffsets.getD i 0).toNat).take
            (header.sectionlengths.getD i 0).toNat)
      else none := by
  unfold extractSection
  dsimp only
  split_ifs
  · rw [Option.map_some, extractNB_section]
  · rfl

theorem headerWords_getD (ws : List U32) {i : Nat} (h : i < 32) :
    (headerWords ws).getD i 0 = ws.getD i 0 := by
  rw [Vector.getD, Array.getD_eq_getD_getElem?, Vector.getElem?_toArray, headerWords,
    Vector.getElem?_ofFn, dif_pos h, Option.getD_some]

/-- A section begins behind the ones before it. -/
theorem sectionoffsets_getD (offset : U32) (nbs : List (List Byte)) {i : Nat}
    (h : i < nbs.length) :
    (sectionoffsets offset nbs).getD i 0
      = offset + BitVec.ofNat 32 (nbs.take i).flatten.length := by
  induction nbs generalizing offset i with
  | nil => cases h
  | cons nb nbs ih =>
    cases i with
    | zero => simp [sectionoffsets]
    | succ i =>
      rw [sectionoffsets, List.getD_cons_succ, ih _ (by simpa using h), List.take_succ_cons,
        List.flatten_cons, List.length_append, BitVec.ofNat_add, sectionlen, BitVec.add_assoc]

/-- Where a header and the sections behind it make a DBH, the header is read back. -/
theorem dbhExtract_append (header : HTCIMAGEHEADER) (rest : List Byte) :
    let dbh := magicHeader ++ HTCIMAGEHEADER.layout.store header ++ rest
    dbhExtract dbh = .ok (header, extractSections dbh header) := by
  intro dbh
  have hmagic := exactly_append magicHeader (HTCIMAGEHEADER.layout.store header ++ rest) false
  have hheader := exactly_append (HTCIMAGEHEADER.layout.store header) rest false
  rw [Layout.length_store] at hheader
  have hdbh : ofBytes dbh = ⟨magicHeader ++ (HTCIMAGEHEADER.layout.store header ++ rest), false⟩ := by
    simp only [ofBytes, dbh, List.append_assoc]
  rw [dbhExtract, hdbh, hmagic]
  simp only [ne_eq, not_true, if_false, hheader, Layout.load_store_nil]

variable {o : Options}

/-- Section `i` lies in the DBH where the header says. -/
theorem writeDbh_section (h : o.Fits) (hmax : o.nbfiles.length < 32) {i : Nat}
    (hi : i < o.nbfiles.length) :
    ((writeDbh o).drop (o.header.sectionoffsets.getD i 0).toNat).take
        (o.header.sectionlengths.getD i 0).toNat = o.nbfiles.getD i [] := by
  have hfits : 512 + o.nbfiles.flatten.length < 2 ^ 32 := h
  have hi32 : i < 32 := hi.trans hmax
  have hsplit : (o.nbfiles.take i).flatten ++ (o.nbfiles.drop i).flatten = o.nbfiles.flatten := by
    rw [← List.flatten_append, List.take_append_drop]
  have hbefore : (o.nbfiles.take i).flatten.length ≤ o.nbfiles.flatten.length := by
    rw [← hsplit, List.length_append]
    omega
  -- a section starts behind the header and the sections before it
  have hstart : (o.header.sectionoffsets.getD i 0).toNat
      = 512 + (o.nbfiles.take i).flatten.length := by
    change ((headerWords _).getD i 0).toNat = _
    rw [headerWords_getD _ hi32, sectionoffsets_getD _ _ hi, BitVec.toNat_add, BitVec.toNat_ofNat]
    change (512 + _) % 2 ^ 32 = _
    omega
  have hnb : o.nbfiles.getD i [] = o.nbfiles[i] := List.getD_eq_getElem _ _ hi
  have hlen : (o.header.sectionlengths.getD i 0).toNat = o.nbfiles[i].length := by
    change ((headerWords _).getD i 0).toNat = _
    rw [headerWords_getD _ hi32, List.getD_eq_getElem _ _ (by rwa [List.length_map]),
      List.getElem_map, h.toNat_sectionlen (List.getElem_mem hi)]
  have hhead : (magicHeader ++ HTCIMAGEHEADER.layout.store o.header).length = 512 := by
    rw [List.length_append, Layout.length_store]
    rfl
  rw [hstart, hlen, hnb, writeDbh_eq h, ← hsplit, ← List.drop_drop, ← hhead, List.drop_left,
    List.drop_left, List.drop_eq_getElem_cons hi, List.flatten_cons, List.take_left]

theorem extractSection_writeDbh (h : o.Fits) (hcount : o.types.length = o.nbfiles.length)
    (hmax : o.nbfiles.length < 32) {i : Nat} (hi : i < 32) :
    (extractSection (writeDbh o) o.header i).map NbFile.section = o.section i := by
  have htype : o.header.sectiontypes.getD i 0 = o.types.getD i 0 := headerWords_getD o.types hi
  rw [extractSection_section, Options.section, htype]
  by_cases hzero : o.types.getD i 0 = 0
  · have hcond : ¬ (i + 50 < 95 ∧ o.types.getD i 0 ≠ 0 ∧ i ≠ 31) := fun hc => hc.2.1 hzero
    rw [if_neg hcond, if_pos hzero]
  · -- a type that is set is one of the command line's
    have hin : i < o.nbfiles.length := by
      by_contra hout
      exact hzero (List.getD_eq_default _ _ (by omega))
    have hcond : i + 50 < 95 ∧ o.types.getD i 0 ≠ 0 ∧ i ≠ 31 :=
      ⟨by omega, hzero, by omega⟩
    rw [if_pos hcond, if_neg hzero, writeDbh_section h hmax hin]

/-- The sections come out as they went in. -/
theorem extractSections_writeDbh (h : o.Fits) (hcount : o.types.length = o.nbfiles.length)
    (hmax : o.nbfiles.length < 32) :
    (extractSections (writeDbh o) o.header).map NbFile.section = o.sections := by
  have hrange : List.range 32 = List.range o.nbfiles.length
      ++ (List.range (32 - o.nbfiles.length)).map (o.nbfiles.length + ·) := by
    rw [← List.range_add]
    congr 1
    omega
  have hall : (extractSections (writeDbh o) o.header).map NbFile.section
      = (List.range 32).filterMap o.section := by
    rw [extractSections, List.map_filterMap]
    refine List.filterMap_congr fun i hi => ?_
    exact extractSection_writeDbh h hcount hmax (List.mem_range.mp hi)
  have hrest : ((List.range (32 - o.nbfiles.length)).map (o.nbfiles.length + ·)).filterMap
      o.section = [] := by
    refine List.filterMap_eq_nil_iff.mpr fun i hi => ?_
    obtain ⟨k, -, rfl⟩ := List.mem_map.mp hi
    exact if_pos (List.getD_eq_default _ _ (by omega))
  rw [hall, hrange, List.filterMap_append, hrest, List.append_nil, Options.sections]

/-! ### The whole -/

/-- What is packed around a DBH is taken off again. -/
theorem extractNBH_writeNbh (c : ChunkSize) (h : o.Fits) :
    extractNBH (writeNbh c (writeDbh o))
      = .ok (o.header, extractSections (writeDbh o) o.header) := by
  have hlen : (writeDbh o).length < 2 ^ 32 := by
    rw [length_writeDbh h]
    exact h
  obtain ⟨blocks, hnbh, hdbh⟩ := nbh2dbh_writeNbh c hlen
  have hmagic := exactly_append magicHeader2 (initialsignature ++ blocks) false
  have hsign := exactly_append initialsignature blocks false
  have hextract := dbhExtract_append o.header o.nbfiles.flatten
  rw [length_initialsignature] at hsign
  rw [← writeDbh_eq h] at hextract
  rw [extractNBH, hnbh, ofBytes, hmagic]
  simp only [if_true, hsign, hdbh]
  exact hextract

/-- A file that does not begin as a NBH of the older kind is taken for an Android one: whatever
    stands behind its first 256 bytes is the DBH. -/
theorem extractNBH_android {head dbh : List Byte} (hhead : head.length = 256)
    (hmagic : head.take 7 ≠ magicHeader2) (hlen : dbh.length < 999999999) :
    extractNBH (head ++ dbh) = dbhExtract dbh := by
  have hread₁ : exactly magicHeader2.length (ofBytes (head ++ dbh))
      = some (head.take 7, ⟨head.drop 7 ++ dbh, false⟩) := by
    have hthere : 7 ≤ (head ++ dbh).length := by
      rw [List.length_append]
      omega
    rw [length_magicHeader2, ofBytes, exactly_eq, if_pos hthere,
      List.take_append_of_le_length (by omega), List.drop_append_of_le_length (by omega)]
  have hread₂ : exactly 240 ⟨head.drop 7 ++ dbh, false⟩
      = some ((head.drop 7).take 240, ⟨head.drop 247 ++ dbh, false⟩) := by
    have hdrop : (head.drop 7).length = 249 := by
      rw [List.length_drop]
      omega
    have hthere : 240 ≤ (head.drop 7 ++ dbh).length := by
      rw [List.length_append]
      omega
    rw [exactly_eq, if_pos hthere, List.take_append_of_le_length (by omega),
      List.drop_append_of_le_length (by omega), List.drop_drop]
  -- the first block is taken to be as long as no file is, so that the copy ends the loop
  have hloop : nbh2dbh 240 0 ⟨head.drop 247 ++ dbh, false⟩ [] = some dbh := by
    have hnine : (head.drop 247).length = 9 := by
      rw [List.length_drop]
      omega
    obtain ⟨block, hblock⟩ := readHead_full (s := ⟨head.drop 247 ++ dbh, false⟩)
      (by rw [List.length_append]; omega)
    have hrest : (head.drop 247 ++ dbh).drop 9 = dbh := by
      rw [← hnine, List.drop_left]
    rw [hrest] at hblock
    have hadj : (adjustedLen 240 0 block.blockLen).toNat = 999999999 := rfl
    rw [nbh2dbh_some rfl hblock]
    simp only [hadj, if_pos hlen, fread, List.nil_append, List.take_of_length_le hlen.le]
  rw [extractNBH, hread₁]
  simp only [if_neg hmagic, hread₂, hloop]

/-- What the generator accepts, the extractor takes apart into the same header and the same
    sections. -/
theorem extract_generate (h : o.Fits) (hcount : o.types.length = o.nbfiles.length)
    (hmax : o.nbfiles.length < 32) (hchunk : o.signMaxChunkSize = 64 ∨ o.signMaxChunkSize = 1024) :
    ∃ nbh files, generate o = .ok nbh ∧ extractNBH nbh = .ok (o.header, files) ∧
      files.map NbFile.section = o.sections := by
  obtain ⟨c, hc⟩ : ∃ c, ChunkSize.ofInt o.signMaxChunkSize = some c := by
    rcases hchunk with h64 | h1024
    · exact ⟨.size64, by rw [h64]; rfl⟩
    · exact ⟨.size1024, by rw [h1024]; rfl⟩
  have hfew : ¬ (32 ≤ o.types.length ∨ 32 ≤ o.nbfiles.length) := by omega
  refine ⟨writeNbh c (writeDbh o), extractSections (writeDbh o) o.header, ?_,
    extractNBH_writeNbh c h, extractSections_writeDbh h hcount hmax⟩
  simp only [generate, hc, if_neg hfew]
  exact if_neg (not_not.mpr hcount)

/-- The options that the boot images are packed with, `-t 0x600,0x400 -s 64`, and two short files
    in the place of the logo and the system. -/
def leoOptions : Options where
  device := [0x50, 0x42, 0x38, 0x31, 0x31, 0x30, 0x30, 0x30, 0x30]
  CID := List.replicate 8 0x31
  version := [0x45, 0x44, 0x4B, 0x32]
  language := [0x57, 0x57, 0x45]
  signMaxChunkSize := 64
  types := [0x600, 0x400]
  nbfiles := [[0x00, 0xF8], [0x01, 0x02, 0x03]]

theorem leoOptions_fits : leoOptions.Fits := by
  change 512 + 5 < 2 ^ 32
  decide

theorem extract_generate_leo :
    ∃ nbh files, generate leoOptions = .ok nbh ∧
      extractNBH nbh = .ok (leoOptions.header, files) ∧
      files.map NbFile.section = [(0, 0x600, [0x00, 0xF8]), (1, 0x400, [0x01, 0x02, 0x03])] :=
  extract_generate leoOptions_fits rfl (by decide) (.inl rfl)

end HtcLeo.Nbh

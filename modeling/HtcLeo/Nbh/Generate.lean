import HtcLeo.Nbh.Format

namespace HtcLeo.Nbh

open ByteStream

/-!
# Generating a NBH file

`main` of `yang.c`: from the sections on the command line a DBH, and from the DBH the NBH.

* `generate` — the whole, with the errors that end it; `Options.header`, `writeDbh` and
  `writeBlocks` are its stages.
* `Block` — a block of a NBH file; `writeBlocks_eq` says that the loop of the source writes
  blocks, and that together they hold the DBH.
* `writeNbh_eq` — what is written when nothing ends it.
-/

/-! ### The code -/

/-- The command line.  The types are the numbers that `sscanf` reads, and each input file is its
    contents. -/
structure Options where
  device : List Byte
  CID : List Byte
  version : List Byte
  language : List Byte
  signMaxChunkSize : Int
  types : List U32
  nbfiles : List (List Byte)

/-- The errors that end `main`. -/
inductive GenerateError
  /-- `SignMaxChunkSize must be 64 or 1024`. -/
  | chunkSize
  /-- Of 32 sections or more, `totaltypes` or `totalnbfiles` is never set. -/
  | uncounted
  /-- `Total section types does not match total input NB files`. -/
  | mismatch
  deriving DecidableEq, Repr

/-- The values of `SignMaxChunkSize` that `main` takes. -/
inductive ChunkSize
  | size64
  | size1024
  deriving DecidableEq, Repr

/-- The `switch` over `SignMaxChunkSize`. -/
def ChunkSize.ofInt (signMaxChunkSize : Int) : Option ChunkSize :=
  if signMaxChunkSize = 64 then some size64
  else if signMaxChunkSize = 1024 then some size1024
  else none

/-- `blockLen`. -/
def ChunkSize.blockLen : ChunkSize → U32
  | size64   => 0x10000
  | size1024 => 0x100000

/-- `signLen`. -/
def signLen : U32 := 128

/-- `signature`, all zeros. -/
def signature : List Byte := List.replicate 5000 0

/-- `strncpy` into a field of `n` bytes. -/
def strncpy (n : Nat) (s : List Byte) : Vector Byte n := Vector.ofFn fun i => s.getD i.val 0

/-- An array of the header: the words that are set, and zeros. -/
def headerWords (ws : List U32) : Vector U32 32 := Vector.ofFn fun i => ws.getD i.val 0

/-- `sectionlen`, which `ftell` gives. -/
def sectionlen (nb : List Byte) : U32 := BitVec.ofNat 32 nb.length

/-- The `sectionoffsets` that the loop over the files sets, from `offset` on. -/
def sectionoffsets (offset : U32) : List (List Byte) → List U32
  | []        => []
  | nb :: nbs => offset :: sectionoffsets (offset + sectionlen nb) nbs

/-- The header that `main` makes. -/
def Options.header (o : Options) : HTCIMAGEHEADER where
  device := strncpy 32 o.device
  sectiontypes := headerWords o.types
  sectionoffsets := headerWords (sectionoffsets 512 o.nbfiles)
  sectionlengths := headerWords (o.nbfiles.map sectionlen)
  CID := strncpy 32 o.CID
  version := strncpy 16 o.version
  language := strncpy 16 o.language

/-- The DBH: the header, and all the files behind it. -/
def writeDbh (o : Options) : List Byte :=
  o.nbfiles.foldl
    (fun dbh nb => (bufferedReadWrite (ofBytes nb) dbh (sectionlen nb).toNat).2.2)
    (magicHeader ++ HTCIMAGEHEADER.layout.store o.header)

/-- A block's lengths and its flag. -/
def writeHead (blockLen signLen : U32) (flag : Byte) : List Byte :=
  Layout.word32.store blockLen ++ Layout.word32.store signLen ++ [flag]

/-- `lps`: the length of the next block. -/
def nextLen (blockLen totalsize totalwrite : U32) : U32 :=
  if totalsize - totalwrite < blockLen then totalsize - totalwrite else blockLen

/-- The next block ends within the file, and is not empty while something is left. -/
theorem nextLen_spec (c : ChunkSize) {totalsize totalwrite : U32} (h : totalwrite ≤ totalsize) :
    (nextLen c.blockLen totalsize totalwrite).toNat
      = min c.blockLen.toNat (totalsize.toNat - totalwrite.toNat) := by
  have hsub : (totalsize - totalwrite).toNat = totalsize.toNat - totalwrite.toNat :=
    BitVec.toNat_sub_of_le h
  unfold nextLen
  split
  case isTrue hlt =>
    have hlt' : (totalsize - totalwrite).toNat < c.blockLen.toNat := hlt
    omega
  case isFalse hge =>
    have hge' : ¬ (totalsize - totalwrite).toNat < c.blockLen.toNat := hge
    omega

theorem ChunkSize.blockLen_pos (c : ChunkSize) : 0 < c.blockLen.toNat := by
  cases c <;> decide

/-- The next block ends at the end of the file at the latest. -/
theorem toNat_totalwrite (c : ChunkSize) {totalsize totalwrite : U32} (h : totalwrite ≤ totalsize) :
    (totalwrite + nextLen c.blockLen totalsize totalwrite).toNat
      = totalwrite.toNat + (nextLen c.blockLen totalsize totalwrite).toNat := by
  have hnext := nextLen_spec c h
  have hle : totalwrite.toNat ≤ totalsize.toNat := h
  have hlt := totalsize.isLt
  exact BitVec.toNat_add_of_lt (by omega)

/-- The `do` loop over the blocks, from `totalwrite` on. -/
def writeBlocks (c : ChunkSize) (totalsize totalwrite : U32) (_h : totalwrite ≤ totalsize)
    (dbh : ByteStream) (nbh : List Byte) : List Byte :=
  let lps := nextLen c.blockLen totalsize totalwrite
  let copy := bufferedReadWrite dbh (nbh ++ writeHead lps signLen 1) lps.toNat
  let nbh' := copy.2.2 ++ signature.take signLen.toNat
  if hmore : totalwrite + lps < totalsize then
    writeBlocks c totalsize (totalwrite + lps) (BitVec.le_of_lt hmore) copy.2.1 nbh'
  else nbh'
termination_by totalsize.toNat - totalwrite.toNat
decreasing_by
  have hsum := toNat_totalwrite c _h
  have hnext := nextLen_spec c _h
  have hpos := c.blockLen_pos
  have hlt : (totalwrite + nextLen c.blockLen totalsize totalwrite).toNat < totalsize.toNat := hmore
  omega

/-- The last block, which is empty. -/
def lastBlock : List Byte := writeHead 0 signLen 2 ++ signature.take signLen.toNat

/-- The NBH that is made of a DBH. -/
def writeNbh (c : ChunkSize) (dbh : List Byte) : List Byte :=
  writeBlocks c (BitVec.ofNat 32 dbh.length) 0 (Nat.zero_le _) (ofBytes dbh)
    (magicHeader2 ++ initialsignature) ++ lastBlock

/-- `main`, from the options on. -/
def generate (o : Options) : Except GenerateError (List Byte) :=
  match ChunkSize.ofInt o.signMaxChunkSize with
  | none   => .error .chunkSize
  | some c =>
      if 32 ≤ o.types.length ∨ 32 ≤ o.nbfiles.length then .error .uncounted
      else if o.types.length ≠ o.nbfiles.length then .error .mismatch
      else .ok (writeNbh c (writeDbh o))

/-! ### Blocks -/

/-- A block: the bytes it holds, the signature behind them, and its flag. -/
structure Block where
  data : List Byte
  sign : List Byte
  flag : Byte

namespace Block

/-- A block in the file. -/
def store (b : Block) : List Byte :=
  writeHead (BitVec.ofNat 32 b.data.length) (BitVec.ofNat 32 b.sign.length) b.flag
    ++ b.data ++ b.sign

/-- A block as the generator writes it. -/
def signed (flag : Byte) (data : List Byte) : Block := ⟨data, List.replicate 128 0, flag⟩

end Block

theorem take_signature : signature.take signLen.toNat = List.replicate 128 0 := by
  have hlen : min signLen.toNat 5000 = 128 := by decide
  rw [signature, List.take_replicate, hlen]

theorem lastBlock_eq : lastBlock = (Block.signed 2 []).store := by
  rw [lastBlock, take_signature, Block.store, Block.signed, List.append_nil, List.length_replicate]
  rfl

/-- What one iteration of the loop writes. -/
theorem writeBlock_eq (lps : U32) (dbh : ByteStream) (nbh : List Byte)
    (h : lps.toNat ≤ dbh.rest.length) :
    let copy := bufferedReadWrite dbh (nbh ++ writeHead lps signLen 1) lps.toNat
    copy.2.1.rest = dbh.rest.drop lps.toNat ∧
      copy.2.2 ++ signature.take signLen.toNat
        = nbh ++ (Block.signed 1 (dbh.rest.take lps.toNat)).store := by
  intro copy
  have hcopy : copy = _ := bufferedReadWrite_eq dbh (nbh ++ writeHead lps signLen 1) lps.toNat
  rw [hcopy]
  refine ⟨rfl, ?_⟩
  have hlen : (dbh.rest.take lps.toNat).length = lps.toNat := by
    rw [List.length_take]
    omega
  have hsign : (128#32 : U32) = signLen := rfl
  rw [take_signature, Block.store, Block.signed, hlen, List.length_replicate, BitVec.ofNat_toNat,
    BitVec.setWidth_eq, hsign]
  simp only [fread, List.append_assoc]

/-- The loop writes blocks of at most `blockLen` bytes, and they hold what is left of the DBH. -/
theorem writeBlocks_eq (c : ChunkSize) {totalsize totalwrite : U32} (h : totalwrite ≤ totalsize)
    (dbh : ByteStream) (nbh : List Byte)
    (hrest : dbh.rest.length = totalsize.toNat - totalwrite.toNat) :
    ∃ datas : List (List Byte), datas.flatten = dbh.rest ∧
      (∀ data ∈ datas, data.length ≤ c.blockLen.toNat) ∧
      writeBlocks c totalsize totalwrite h dbh nbh
        = nbh ++ datas.flatMap fun data => (Block.signed 1 data).store := by
  fun_induction writeBlocks c totalsize totalwrite h dbh nbh with
  | case1 totalwrite h dbh nbh lps copy nbh' hmore ih =>
    have hnext : lps.toNat = min c.blockLen.toNat (totalsize.toNat - totalwrite.toNat) :=
      nextLen_spec c h
    have hsum : (totalwrite + lps).toNat = totalwrite.toNat + lps.toNat := toNat_totalwrite c h
    obtain ⟨hleft, hblock⟩ := writeBlock_eq lps dbh nbh (by omega)
    have hwritten : nbh' = nbh ++ (Block.signed 1 (dbh.rest.take lps.toNat)).store := hblock
    have hlen : copy.2.1.rest.length = totalsize.toNat - (totalwrite + lps).toNat := by
      rw [hleft, List.length_drop]
      omega
    obtain ⟨datas, hall, hmax, heq⟩ := ih hlen
    refine ⟨dbh.rest.take lps.toNat :: datas, ?_, ?_, ?_⟩
    · rw [List.flatten_cons, hall, hleft, List.take_append_drop]
    · refine List.forall_mem_cons.mpr ⟨?_, hmax⟩
      rw [List.length_take]
      omega
    · rw [heq, hwritten, List.append_assoc, List.flatMap_cons]
  | case2 totalwrite h dbh nbh lps copy nbh' hdone =>
    have hnext : lps.toNat = min c.blockLen.toNat (totalsize.toNat - totalwrite.toNat) :=
      nextLen_spec c h
    have hsum : (totalwrite + lps).toNat = totalwrite.toNat + lps.toNat := toNat_totalwrite c h
    have hend : ¬ (totalwrite + lps).toNat < totalsize.toNat := hdone
    obtain ⟨-, hwritten⟩ := writeBlock_eq lps dbh nbh (by omega)
    -- the block holds all that is left
    have hwhole : dbh.rest.take lps.toNat = dbh.rest := List.take_of_length_le (by omega)
    rw [hwhole] at hwritten
    refine ⟨[dbh.rest], by simp, ?_, ?_⟩
    · simp only [List.mem_singleton, forall_eq]
      omega
    · rw [List.flatMap_singleton]
      exact hwritten

/-! ### What is written -/

/-- The sections fit behind the header below 4 GiB, where `uint32_t` offsets reach. -/
def Options.Fits (o : Options) : Prop := 512 + o.nbfiles.flatten.length < 2 ^ 32

theorem Options.Fits.toNat_sectionlen {o : Options} (h : o.Fits) {nb : List Byte}
    (hnb : nb ∈ o.nbfiles) : (sectionlen nb).toNat = nb.length := by
  have hle : nb.length ≤ o.nbfiles.flatten.length := (List.sublist_flatten_of_mem hnb).length_le
  have hfits : 512 + o.nbfiles.flatten.length < 2 ^ 32 := h
  rw [sectionlen, BitVec.toNat_ofNat, Nat.mod_eq_of_lt (by omega)]

/-- The DBH is its header and the files one behind the other. -/
theorem writeDbh_eq {o : Options} (h : o.Fits) :
    writeDbh o = magicHeader ++ HTCIMAGEHEADER.layout.store o.header ++ o.nbfiles.flatten := by
  have hcopy : ∀ (nbs : List (List Byte)) (dbh : List Byte), (∀ nb ∈ nbs, nb ∈ o.nbfiles) →
      nbs.foldl (fun dbh nb => (bufferedReadWrite (ofBytes nb) dbh (sectionlen nb).toNat).2.2) dbh
        = dbh ++ nbs.flatten := by
    intro nbs
    induction nbs with
    | nil => simp
    | cons nb nbs ih =>
      intro dbh hmem
      obtain ⟨hnb, hnbs⟩ := List.forall_mem_cons.mp hmem
      rw [List.foldl_cons, ih _ hnbs, bufferedReadWrite_eq, h.toNat_sectionlen hnb]
      simp [fread, ofBytes]
  exact hcopy o.nbfiles _ fun _ hnb => hnb

theorem length_writeDbh {o : Options} (h : o.Fits) :
    (writeDbh o).length = 512 + o.nbfiles.flatten.length := by
  rw [writeDbh_eq h, List.length_append, List.length_append, Layout.length_store]
  rfl

/-- The NBH of a DBH: what it begins with, blocks that hold the DBH, and the empty block. -/
theorem writeNbh_eq (c : ChunkSize) (dbh : List Byte) (h : dbh.length < 2 ^ 32) :
    ∃ datas : List (List Byte), datas.flatten = dbh ∧
      (∀ data ∈ datas, data.length ≤ c.blockLen.toNat) ∧
      writeNbh c dbh = magicHeader2 ++ initialsignature
        ++ (datas.flatMap fun data => (Block.signed 1 data).store) ++ (Block.signed 2 []).store := by
  have hsize : (BitVec.ofNat 32 dbh.length).toNat = dbh.length := by
    rw [BitVec.toNat_ofNat, Nat.mod_eq_of_lt h]
  have hle : (0 : U32) ≤ BitVec.ofNat 32 dbh.length := Nat.zero_le _
  have hrest : (ofBytes dbh).rest.length
      = (BitVec.ofNat 32 dbh.length).toNat - (0 : U32).toNat := hsize.symm
  obtain ⟨datas, hall, hmax, heq⟩ :=
    writeBlocks_eq c hle (ofBytes dbh) (magicHeader2 ++ initialsignature) hrest
  exact ⟨datas, hall, hmax, by rw [writeNbh, heq, lastBlock_eq]⟩

end HtcLeo.Nbh

import HtcLeo.Atags.Detection

namespace HtcLeo.Atags

/-!
# The serial number

`GenerateAndroidSerial` of `GPLDrivers/DeviceDetectionDxe/SerialGenerator.c`, and the strings that
`DeviceDetectionDxeInit` gives it.

* `generateAndroidSerial` — sixteen characters, by a generator that the two strings seed.
* `serial_alternates` — the characters go through the four classes of the alphabet in turn,
  whatever the strings are, so that none comes again within four places.
-/

/-! ### The code -/

/-- `HashString`. -/
def hashString (str : List Byte) : U32 :=
  str.foldl (fun hash b => (hash <<< 5) + hash + b.setWidth 32) 5381

/-- `SeedFromInputs`. -/
def seedFromInputs (cid imei : List Byte) : U32 := hashString cid ^^^ hashString imei

/-- `LcgNext`. -/
def lcgNext (seed : U32) : U32 := seed * 1664525 + 1013904223

/-- `Charset`, without its NUL. -/
def charset : List Byte := ascii "ABCDEFGHIJKLMNOPQRSTUVWXYZ0123456789"

/-- `SERIAL_LEN`. -/
def serialLen : Nat := 16

/-- The loop of `GenerateAndroidSerial`, for the next `n` characters. -/
def serialChars : Nat → U32 → List Byte
  | 0, _        => []
  | n + 1, seed =>
      let rnd := lcgNext seed
      charset.getD (rnd.toNat % charset.length) 0 :: serialChars n rnd

/-- `GenerateAndroidSerial`, for an allocation that succeeds. -/
def generateAndroidSerial (cid imei : List Byte) : List Byte :=
  serialChars serialLen (seedFromInputs cid imei)

/-- `CID_ADDR`. -/
def cidAddr : Nat := 0x1EF270

/-- `IMEI_ADDR`. -/
def imeiAddr : Nat := 0x1EF260

/-- `mDevice.SerialNumber` after `UpdateIMEI` and `UpdateCID`. -/
def serialNumber (m : Memory) : List Byte :=
  generateAndroidSerial (getStringFromMemory m cidAddr 0x8) (getStringFromMemory m imeiAddr 0xF)

/-! ### The classes of the alphabet -/

/-- The place in the alphabet of character `i`. -/
def charsetIndex (seed : U32) (i : Nat) : Nat := (lcgNext^[i + 1] seed).toNat % 36

theorem length_charset : charset.length = 36 := by decide

/-- The generator counts down modulo 4, for its factor is 1 there. -/
theorem lcgNext_mod_four (seed : U32) : ((lcgNext seed).toNat + 1) % 4 = seed.toNat % 4 := by
  have ha : (1664525 : U32).toNat = 1664525 := rfl
  have hc : (1013904223 : U32).toNat = 1013904223 := rfl
  rw [lcgNext, BitVec.toNat_add, BitVec.toNat_mul, ha, hc]
  omega

theorem charsetIndex_lt (seed : U32) (i : Nat) : charsetIndex seed i < 36 :=
  Nat.mod_lt _ (by decide)

theorem charsetIndex_succ (seed : U32) (i : Nat) :
    (charsetIndex seed (i + 1) + 1) % 4 = charsetIndex seed i % 4 := by
  have h := lcgNext_mod_four (lcgNext^[i + 1] seed)
  rw [charsetIndex, charsetIndex, Function.iterate_succ_apply']
  omega

/-- So far down the alphabet, modulo 4, after `d` characters. -/
theorem charsetIndex_add (seed : U32) (i d : Nat) :
    (charsetIndex seed (i + d) + d) % 4 = charsetIndex seed i % 4 := by
  induction d with
  | zero => rfl
  | succ d ih =>
    have h := charsetIndex_succ seed (i + d)
    have hadd : i + (d + 1) = i + d + 1 := rfl
    rw [hadd]
    omega

theorem serialChars_eq (n : Nat) (seed : U32) :
    serialChars n seed = (List.range n).map fun i => charset.getD (charsetIndex seed i) 0 := by
  induction n generalizing seed with
  | zero => rfl
  | succ n ih =>
    rw [serialChars, ih, List.range_succ_eq_map, List.map_cons, List.map_map, length_charset]
    refine congrArg₂ List.cons rfl (List.map_congr_left fun i _ => ?_)
    have hnext : charsetIndex (lcgNext seed) i = charsetIndex seed (i + 1) := by
      rw [charsetIndex, charsetIndex, Function.iterate_succ_apply lcgNext (i + 1)]
    rw [Function.comp_apply, hnext]

theorem charset_inj {i j : Nat} (hi : i < 36) (hj : j < 36)
    (h : charset.getD i 0 = charset.getD j 0) : i = j := by
  have hnodup : charset.Nodup := by decide
  rw [List.getD_eq_getElem _ _ (by rwa [length_charset]),
    List.getD_eq_getElem _ _ (by rwa [length_charset])] at h
  exact (hnodup.getElem_inj_iff).mp h

/-- **Serial numbers.**  Whatever the memory holds, the sixteen characters are of the alphabet, and
    from one to the next its four classes take turns: characters four places apart are of one
    class, and of any four in a row no two are the same. -/
theorem serial_alternates (m : Memory) :
    ∃ index : Nat → Nat,
      serialNumber m = (List.range 16).map (fun i => charset.getD (index i) 0) ∧
      (∀ i, index i < charset.length) ∧
      (∀ i, index (i + 4) % 4 = index i % 4) ∧
      ∀ i j, i < j → j < i + 4 → j < 16 → (serialNumber m)[i]? ≠ (serialNumber m)[j]? := by
  let seed := seedFromInputs (getStringFromMemory m cidAddr 0x8) (getStringFromMemory m imeiAddr 0xF)
  have hserial : serialNumber m =
      (List.range 16).map fun i => charset.getD (charsetIndex seed i) 0 := serialChars_eq 16 seed
  refine ⟨charsetIndex seed, hserial, fun i => ?_, fun i => ?_, fun i j hij hj hlen heq => ?_⟩
  · rw [length_charset]
    exact charsetIndex_lt seed i
  · have := charsetIndex_add seed i 4
    omega
  · rw [hserial, List.getElem?_map, List.getElem?_map, List.getElem?_range (by omega),
      List.getElem?_range hlen, Option.map_some, Option.map_some, Option.some.injEq] at heq
    have hindex := charset_inj (charsetIndex_lt seed i) (charsetIndex_lt seed j) heq
    obtain ⟨d, rfl⟩ := Nat.exists_eq_add_of_lt hij
    -- they are `d + 1` apart, which is not 0 modulo 4
    have := charsetIndex_add seed i (d + 1)
    have hadd : i + (d + 1) = i + d + 1 := rfl
    rw [hadd] at this
    omega

end HtcLeo.Atags

import HtcLeo.Keypad.Bitmap
import Mathlib.Data.Set.Basic

namespace HtcLeo.Keypad

/-!
# KeypadDeviceHelperLib — the key-state bitmaps

`KeySetState` and `KeyGetState` of `Include/Library/KeypadDeviceHelperLib.h`, with the two
bitmaps they share, and the keys `KeypadDeviceImplReset` configures.

* `keySetState_spec`, `keyGetState_spec` — the two functions on the sets of bits.  Both index
  the bitmap of Unicode characters by the scan code.
* `KeyRecord` — what the bitmaps are for: which keys the last poll found pressed.
* `Faithful` — over every sequence of polls of a set of keys, the bitmaps are that record.
* `Separate` — no two keys of the set share a bit; `faithful_iff` shows that this, with every
  access in bounds, is exactly what it takes.
-/

/-- `MAX_SCANCODE`. -/
abbrev maxScancode : Nat := 0x18
/-- `MAX_UNCODE_CHAR`. -/
abbrev maxUncodeChar : Nat := 0x7f

/-- The `ScanCode` and `UnicodeChar` of an `EFI_INPUT_KEY`. -/
structure Key where
  scanCode : BitVec 16
  unicodeChar : BitVec 16
  deriving DecidableEq, Repr

/-- `gBitmapScanCodes` and `gBitmapUnicodeChars`. -/
structure KeyMaps where
  scanCodes : Vector U32 (bitmapNumWords maxScancode)
  unicodeChars : Vector U32 (bitmapNumWords maxUncodeChar)

/-- Both maps as the program starts: zero-initialised globals. -/
def KeyMaps.zero : KeyMaps := ⟨Vector.replicate _ 0#32, Vector.replicate _ 0#32⟩

/-- `ScanCode && ScanCode < MAX_SCANCODE`. -/
def scanTracked (k : Key) : Bool := k.scanCode ≠ 0 ∧ k.scanCode.toNat < maxScancode

/-- `UnicodeChar && UnicodeChar < MAX_UNCODE_CHAR`. -/
def unicodeTracked (k : Key) : Bool := k.unicodeChar ≠ 0 ∧ k.unicodeChar.toNat < maxUncodeChar

/-- One half of `KeySetState`: record the value at a bit, if the code is tracked. -/
def recordIn {n : Nat} (tracked value : Bool) (bitmap : Vector U32 n) (bit : Nat) :
    Option (Vector U32 n) :=
  if tracked then bitmapPut value bitmap bit else some bitmap

/-- `KeySetState`; no result where it writes past a bitmap. -/
def keySetState (k : Key) (value : Bool) (m : KeyMaps) : Option KeyMaps := do
  let scanCodes ← recordIn (scanTracked k) value m.scanCodes k.scanCode.toNat
  -- the map of Unicode characters is indexed by the scan code as well
  let unicodeChars ← recordIn (unicodeTracked k) value m.unicodeChars k.scanCode.toNat
  return ⟨scanCodes, unicodeChars⟩

/-- One half of `KeyGetState`: test a bit, if the code is tracked. -/
def testIn {n : Nat} (tracked : Bool) (bitmap : Vector U32 n) (bit : Nat) : Option Bool :=
  if tracked then bitmapTest bitmap bit else some true

/-- `KeyGetState`; no result where it reads past a bitmap. -/
def keyGetState (k : Key) (m : KeyMaps) : Option Bool := do
  if ← testIn (scanTracked k) m.scanCodes k.scanCode.toNat then
    testIn (unicodeTracked k) m.unicodeChars k.scanCode.toNat
  else return false

/-- The keys of `KeypadDeviceImplReset`: power, volume up, volume down, back, windows, home
    and dial. -/
def configuredKeys : List Key :=
  [⟨0x17, 0⟩, ⟨1, 0⟩, ⟨2, 0⟩, ⟨0, 8⟩, ⟨0, 9⟩, ⟨5, 0⟩, ⟨0, 13⟩]

/-! ### The two functions on sets of bits -/

/-- A tracked scan code lies inside the bitmap of scan codes. -/
theorem scanCode_lt {k : Key} (h : scanTracked k = true) :
    k.scanCode.toNat < 32 * bitmapNumWords maxScancode := by
  have hlt : k.scanCode.toNat < 0x18 := (of_decide_eq_true h).2
  show k.scanCode.toNat < 32 * 1
  omega

/-- Half of `KeySetState` on the set of bits. -/
theorem recordIn_spec {n : Nat} (tracked value : Bool) (bitmap : Vector U32 n) {bit : Nat}
    (hin : tracked = true → bit < 32 * n) :
    ∃ bitmap', recordIn tracked value bitmap bit = some bitmap' ∧
      ∀ i, bits bitmap' i = if tracked = true ∧ i = bit then value else bits bitmap i := by
  cases tracked with
  | true =>
    obtain ⟨bitmap', hput, hbits⟩ := bitmapPut_spec value bitmap (hin rfl)
    exact ⟨bitmap', hput, by simpa using hbits⟩
  | false => exact ⟨bitmap, rfl, by simp⟩

/-- `KeySetState` records the value at the key's bits, and keeps all other bits. -/
theorem keySetState_spec (k : Key) (value : Bool) (m : KeyMaps)
    (hin : unicodeTracked k = true → k.scanCode.toNat < 128) :
    ∃ m', keySetState k value m = some m' ∧
      (∀ i, bits m'.scanCodes i
        = if scanTracked k = true ∧ i = k.scanCode.toNat then value else bits m.scanCodes i) ∧
      (∀ i, bits m'.unicodeChars i
        = if unicodeTracked k = true ∧ i = k.scanCode.toNat then value
          else bits m.unicodeChars i) := by
  obtain ⟨s, hs, hsbits⟩ := recordIn_spec (scanTracked k) value m.scanCodes scanCode_lt
  obtain ⟨u, hu, hubits⟩ := recordIn_spec (unicodeTracked k) value m.unicodeChars hin
  refine ⟨⟨s, u⟩, ?_, hsbits, hubits⟩
  unfold keySetState
  rw [hs, hu]
  rfl

/-- Past the bitmap of Unicode characters, `KeySetState` has no result. -/
theorem keySetState_of_ge {k : Key} (hu : unicodeTracked k = true)
    (hge : 128 ≤ k.scanCode.toNat) (value : Bool) (m : KeyMaps) :
    keySetState k value m = none := by
  obtain ⟨s, hs, _⟩ := recordIn_spec (scanTracked k) value m.scanCodes scanCode_lt
  have hput : recordIn (unicodeTracked k) value m.unicodeChars k.scanCode.toNat = none := by
    rw [hu]
    exact bitmapPut_of_ge value m.unicodeChars hge
  unfold keySetState
  rw [hs, hput]
  rfl

/-- Half of `KeyGetState` on the set of bits. -/
theorem testIn_spec {n : Nat} (tracked : Bool) (bitmap : Vector U32 n) {bit : Nat}
    (hin : tracked = true → bit < 32 * n) :
    testIn tracked bitmap bit = some (!tracked || bits bitmap bit) := by
  cases tracked with
  | true  => simpa [testIn] using bitmapTest_spec bitmap (hin rfl)
  | false => rfl

/-- `KeyGetState` is the conjunction of the key's bits. -/
theorem keyGetState_spec (k : Key) (m : KeyMaps)
    (hin : unicodeTracked k = true → k.scanCode.toNat < 128) :
    keyGetState k m = some
      ((!scanTracked k || bits m.scanCodes k.scanCode.toNat) &&
        (!unicodeTracked k || bits m.unicodeChars k.scanCode.toNat)) := by
  unfold keyGetState
  rw [testIn_spec _ _ scanCode_lt, testIn_spec _ _ hin]
  cases !scanTracked k || bits m.scanCodes k.scanCode.toNat <;> rfl

/-! ### Polls and the record they should leave -/

/-- A poll of a key: the key, and whether it was found pressed. -/
structure Poll where
  key : Key
  pressed : Bool

/-- The bitmaps after a sequence of polls. -/
def runPolls (m : KeyMaps) (polls : List Poll) : Option KeyMaps :=
  polls.foldlM (fun m p => keySetState p.key p.pressed m) m

/-- Which keys the last poll of each found pressed; a key never polled is not pressed. -/
abbrev KeyRecord := Key → Bool

/-- The record after a sequence of polls. -/
def recordPolls (r : KeyRecord) (polls : List Poll) : KeyRecord :=
  polls.foldl (fun r p => Function.update r p.key p.pressed) r

/-- The polls are polls of the configured keys. -/
def PollsOf (keys : Set Key) (polls : List Poll) : Prop := ∀ p ∈ polls, p.key ∈ keys

/-- Over every sequence of polls of the configured keys the bitmaps are defined, the state of
    every tracked key is what its last poll reported, and polling a key does not change the
    state of another. -/
def Faithful (keys : Set Key) : Prop :=
  ∀ polls, PollsOf keys polls → ∃ m, runPolls .zero polls = some m ∧
    (∀ k ∈ keys, scanTracked k = true ∨ unicodeTracked k = true →
      keyGetState k m = some (recordPolls (fun _ => false) polls k)) ∧
    (∀ k ∈ keys, ∀ k' ∈ keys, k' ≠ k → ∀ value, ∃ m', keySetState k' value m = some m' ∧
      keyGetState k m' = keyGetState k m)

/-- Two keys share a bit: they have one scan code, and it is tracked or both characters are. -/
def ShareBit (k k' : Key) : Prop :=
  k.scanCode = k'.scanCode ∧
    (scanTracked k = true ∨ unicodeTracked k = true ∧ unicodeTracked k' = true)

/-- No two keys of the set share a bit. -/
def Separate (keys : Set Key) : Prop := ∀ k ∈ keys, ∀ k' ∈ keys, k' ≠ k → ¬ ShareBit k k'

/-- No key of the set is recorded past a bitmap. -/
def InBounds (keys : Set Key) : Prop :=
  ∀ k ∈ keys, unicodeTracked k = true → k.scanCode.toNat < 128

/-! ### Sufficiency -/

/-- The bitmaps hold the record of the configured keys. -/
structure Holds (keys : Set Key) (m : KeyMaps) (r : KeyRecord) : Prop where
  scan : ∀ k ∈ keys, scanTracked k = true → bits m.scanCodes k.scanCode.toNat = r k
  unicode : ∀ k ∈ keys, unicodeTracked k = true → bits m.unicodeChars k.scanCode.toNat = r k

theorem holds_zero (keys : Set Key) : Holds keys .zero (fun _ => false) :=
  ⟨fun _ _ _ => bits_zero _, fun _ _ _ => bits_zero _⟩

/-- A tracked key reads as its record says. -/
theorem Holds.keyGetState {keys : Set Key} {m : KeyMaps} {r : KeyRecord} (hm : Holds keys m r)
    (hin : InBounds keys) {k : Key} (hk : k ∈ keys)
    (htracked : scanTracked k = true ∨ unicodeTracked k = true) :
    keyGetState k m = some (r k) := by
  rw [keyGetState_spec k m (hin k hk)]
  have hs := hm.scan k hk
  have hu := hm.unicode k hk
  cases hst : scanTracked k with
  | true =>
    rw [hs hst]
    cases hut : unicodeTracked k with
    | true  => simp [hu hut]
    | false => simp
  | false =>
    have hut : unicodeTracked k = true := by simpa [hst] using htracked
    simp [hut, hu hut]

/-- **Step lemma.**  A poll of one of a separate set of keys updates the record. -/
theorem Holds.poll {keys : Set Key} {m : KeyMaps} {r : KeyRecord} (hm : Holds keys m r)
    (hsep : Separate keys) (hin : InBounds keys) {k : Key} (hk : k ∈ keys) (value : Bool) :
    ∃ m', keySetState k value m = some m' ∧ Holds keys m' (Function.update r k value) := by
  obtain ⟨m', hset, hscan, hunicode⟩ := keySetState_spec k value m (hin k hk)
  refine ⟨m', hset, fun j hj hjs => ?_, fun j hj hju => ?_⟩
  · -- the map of scan codes
    rw [hscan]
    by_cases hjk : j = k
    · subst hjk
      simp [hjs]
    · -- another key with this scan code would share its bit
      have hne : ¬ (scanTracked k = true ∧ j.scanCode.toNat = k.scanCode.toNat) := by
        rintro ⟨_, hcode⟩
        exact hsep j hj k hk (Ne.symm hjk) ⟨BitVec.eq_of_toNat_eq hcode, Or.inl hjs⟩
      rw [if_neg hne, Function.update_of_ne hjk, hm.scan j hj hjs]
  · -- the map of Unicode characters
    rw [hunicode]
    by_cases hjk : j = k
    · subst hjk
      simp [hju]
    · -- another character under the same scan code would share its bit
      have hne : ¬ (unicodeTracked k = true ∧ j.scanCode.toNat = k.scanCode.toNat) := by
        rintro ⟨hku, hcode⟩
        exact hsep j hj k hk (Ne.symm hjk) ⟨BitVec.eq_of_toNat_eq hcode, Or.inr ⟨hju, hku⟩⟩
      rw [if_neg hne, Function.update_of_ne hjk, hm.unicode j hj hju]

/-- **Run lemma.**  Polls of a separate set of keys leave the record of the polls. -/
theorem Holds.runPolls {keys : Set Key} (hsep : Separate keys) (hin : InBounds keys)
    (polls : List Poll) (hpolls : PollsOf keys polls) {m : KeyMaps} {r : KeyRecord}
    (hm : Holds keys m r) :
    ∃ m', runPolls m polls = some m' ∧ Holds keys m' (recordPolls r polls) := by
  induction polls generalizing m r with
  | nil => exact ⟨m, rfl, hm⟩
  | cons p polls ih =>
    obtain ⟨m₁, hset, hm₁⟩ := hm.poll hsep hin (hpolls p List.mem_cons_self) p.pressed
    obtain ⟨m', hrun, hm'⟩ := ih (fun q hq => hpolls q (List.mem_cons_of_mem p hq)) hm₁
    refine ⟨m', ?_, hm'⟩
    show (keySetState p.key p.pressed m >>= fun m => Keypad.runPolls m polls) = some m'
    rw [hset]
    exact hrun

/-- A separate set of keys in bounds is recorded faithfully. -/
theorem faithful_of_separate {keys : Set Key} (hsep : Separate keys) (hin : InBounds keys) :
    Faithful keys := by
  intro polls hpolls
  obtain ⟨m, hrun, hm⟩ := (holds_zero keys).runPolls hsep hin polls hpolls
  refine ⟨m, hrun, fun k hk ht => hm.keyGetState hin hk ht, fun k hk k' hk' hne value => ?_⟩
  obtain ⟨m', hset, hm'⟩ := hm.poll hsep hin hk' value
  refine ⟨m', hset, ?_⟩
  by_cases ht : scanTracked k = true ∨ unicodeTracked k = true
  · rw [hm.keyGetState hin hk ht, hm'.keyGetState hin hk ht, Function.update_of_ne hne.symm]
  · -- an untracked key reads as pressed, whatever the bitmaps
    rw [not_or] at ht
    rw [keyGetState_spec k m (hin k hk), keyGetState_spec k m' (hin k hk)]
    simp [ht.1, ht.2]

/-! ### Necessity -/

/-- The maps after one poll are the result of its `KeySetState`. -/
theorem runPolls_singleton (k : Key) (value : Bool) (m : KeyMaps) :
    runPolls m [⟨k, value⟩] = keySetState k value m := by
  show (keySetState k value m >>= fun m => some m) = _
  cases keySetState k value m <;> rfl

/-- Where a poll of `a` writes every bit that `b` reads, finding `a` pressed makes `b` read as
    pressed, although `b` was never polled. -/
theorem not_faithful_of_covers {keys : Set Key} {a b : Key} (ha : a ∈ keys) (hb : b ∈ keys)
    (hin : InBounds keys) (hba : b ≠ a) (hcode : a.scanCode = b.scanCode)
    (hscan : scanTracked b = scanTracked a)
    (hunicode : unicodeTracked b = true → unicodeTracked a = true)
    (htracked : scanTracked b = true ∨ unicodeTracked b = true) : ¬ Faithful keys := by
  intro hf
  obtain ⟨m, hrun, hget, _⟩ := hf [⟨a, true⟩] (by simpa [PollsOf] using ha)
  obtain ⟨m', hset, hsbits, hubits⟩ := keySetState_spec a true .zero (hin a ha)
  rw [runPolls_singleton, hset] at hrun
  obtain rfl := Option.some.inj hrun
  have hread := hget b hb htracked
  have hrec : recordPolls (fun _ => false) [⟨a, true⟩] b = false := by
    simp [recordPolls, Function.update_of_ne hba]
  rw [keyGetState_spec b m' (hin b hb), hsbits, hubits, ← hcode, hrec, hscan] at hread
  -- `b` reads only bits that the poll of `a` has set
  cases hs : scanTracked a <;> cases hu : unicodeTracked b
  · simp [hscan, hs, hu] at htracked
  all_goals simp [hs, hu, hunicode] at hread

/-- Of two keys that share a bit, one writes every bit that the other reads. -/
theorem not_faithful_of_shareBit {keys : Set Key} {k k' : Key} (hk : k ∈ keys) (hk' : k' ∈ keys)
    (hne : k' ≠ k) (hshare : ShareBit k k') (hin : InBounds keys) : ¬ Faithful keys := by
  obtain ⟨hcode, hbit⟩ := hshare
  have hscan : scanTracked k' = scanTracked k := by
    simp only [scanTracked, hcode]
  cases hu : unicodeTracked k with
  | true =>
    -- `k` writes in both maps
    apply not_faithful_of_covers hk hk' hin hne hcode hscan (fun _ => hu)
    rcases hbit with hs | ⟨_, hu'⟩
    · exact Or.inl (hscan.trans hs)
    · exact Or.inr hu'
  | false =>
    -- only the scan code is shared, and it is all that `k` reads
    have hs : scanTracked k = true := by simpa [hu] using hbit
    apply not_faithful_of_covers hk' hk hin hne.symm hcode.symm hscan.symm
    · intro h
      rw [hu] at h
      exact absurd h (by decide)
    · exact Or.inl hs

/-- A faithful set of keys never writes past a bitmap. -/
theorem inBounds_of_faithful {keys : Set Key} (hf : Faithful keys) : InBounds keys := by
  intro k hk hu
  by_contra hge
  obtain ⟨m, hrun, _⟩ := hf [⟨k, true⟩] (by simpa [PollsOf] using hk)
  rw [runPolls_singleton, keySetState_of_ge hu (by omega)] at hrun
  exact absurd hrun (by simp)

/-- **Key-state bitmaps.**  A set of configured keys is recorded faithfully exactly when no
    two of its keys share a bit and none is recorded past a bitmap. -/
theorem faithful_iff (keys : Set Key) : Faithful keys ↔ Separate keys ∧ InBounds keys := by
  refine ⟨fun hf => ?_, fun h => faithful_of_separate h.1 h.2⟩
  have hin := inBounds_of_faithful hf
  refine ⟨fun k hk k' hk' hne hshare => ?_, hin⟩
  exact not_faithful_of_shareBit hk hk' hne hshare hin hf

/-- The configured keys are not recorded faithfully: with the back key pressed, the windows
    key, never polled, reads as pressed too. -/
theorem configuredKeys_not_faithful : ¬ Faithful {k | k ∈ configuredKeys} := by
  intro hf
  obtain ⟨m, hrun, hget, _⟩ := hf [⟨⟨0, 8⟩, true⟩] (by simp [PollsOf, configuredKeys])
  have hwindows : (runPolls .zero [⟨⟨0, 8⟩, true⟩]).bind (keyGetState ⟨0, 9⟩) = some false := by
    rw [hrun]
    exact hget ⟨0, 9⟩ (by decide) (by decide)
  exact absurd hwindows (by decide)

end HtcLeo.Keypad

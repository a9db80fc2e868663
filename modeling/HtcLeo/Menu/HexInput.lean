import HtcLeo.Menu.Selection
import HtcLeo.Atags.ParseAtags

namespace HtcLeo.Menu

open Keypad (Key scanUp scanDown charCarriageReturn)
open Atags (DeviceType)

/-!
# HtcLeoMenuApp — the hex editor

The loop of `GetHexInput` (`Application/HtcLeoMenuApp/HexInput.c`): eight hexadecimal digits, a
cursor, and a key variable that keeps its value when `ReadKeyStroke` delivers none.

* `Editor` — the variables of the function; an access outside an array has no result.
* `hexPass` — one pass of the loop.
* `Pad` — what the editor is for: eight digits, the cursor among them, and whether it is done.
* `Editor.Shows` — the variables hold what the pad says; every pass keeps it (`Shows.pass`).
-/

/-! ### The code -/

/-- `CHAR_TAB`. -/
def charTab : BitVec 16 := 9
/-- `CHAR_BACKSPACE`. -/
def charBackspace : BitVec 16 := 8

/-- `HEX_LENGTH`. -/
abbrev hexLength : Nat := 8

/-- `HexChars`, with its terminator. -/
def hexChars : List (BitVec 16) :=
  ("0123456789ABCDEF".toList.map fun c => BitVec.ofNat 16 c.toNat) ++ [0#16]

/-- `a[i]`. -/
def load {n : Nat} {α : Type} (a : Fin n → α) (i : U32) : Option α :=
  if h : i.toNat < n then some (a ⟨i.toNat, h⟩) else none

/-- `a[i] = v`. -/
def store {n : Nat} {α : Type} (a : Fin n → α) (i : U32) (v : α) : Option (Fin n → α) :=
  if h : i.toNat < n then some (Function.update a ⟨i.toNat, h⟩ v) else none

/-- The variables of `GetHexInput`, with `HexBuffer`. -/
structure Editor where
  hexBuffer : Fin (hexLength + 1) → BitVec 16
  oldHexCharIndex : Fin hexLength → U32
  index : U32
  hexCharIndex : U32
  inputComplete : Bool
  key : Key

/-- Before the loop: everything is set but the key. -/
def getHexInputStart (key : Key) : Editor where
  hexBuffer i := if i.val < hexLength then 48#16 else 0#16
  oldHexCharIndex _ := 0
  index := 0
  hexCharIndex := 0
  inputComplete := false
  key := key

/-- What a key asks for. -/
inductive Command
  | next | cycle | back | done | nothing
  deriving DecidableEq, Repr

/-- The keys of a LEO. -/
def leoCommand (key : Key) : Command :=
  if key.scanCode = scanEsc then .next
  else if key.unicodeChar = charCarriageReturn then .done
  else if key.unicodeChar = charTab then .cycle
  else if key.unicodeChar = charBackspace then .back
  else .nothing

/-- The keys of a SCHUBERT, a PASSION and a BRAVO. -/
def schubertCommand (key : Key) : Command :=
  if key.scanCode = scanDown then .next
  else if key.scanCode = scanUp then .cycle
  else if key.unicodeChar = charCarriageReturn then .done
  else .nothing

/-- The keys of a device. -/
def command (device : DeviceType) (key : Key) : Command :=
  match device with
  | .leo                          => leoCommand key
  | .schubert | .passion | .bravo => schubertCommand key
  | .unknown                      => .nothing

namespace Editor

/-- Move to the next character. -/
def next (e : Editor) : Option Editor :=
  if e.index < 7 then do
    let oldHexCharIndex ← store e.oldHexCharIndex e.index e.hexCharIndex
    let index := e.index + 1
    let hexCharIndex ← load oldHexCharIndex index
    some { e with oldHexCharIndex := oldHexCharIndex, index := index, hexCharIndex := hexCharIndex }
  else some e

/-- Cycle through the digits. -/
def cycle (e : Editor) : Option Editor := do
  let hexCharIndex := (e.hexCharIndex + 1) % 16
  let char ← hexChars[hexCharIndex.toNat]?
  let hexBuffer ← store e.hexBuffer e.index char
  let oldHexCharIndex ← store e.oldHexCharIndex e.index hexCharIndex
  some { e with
    hexBuffer := hexBuffer, oldHexCharIndex := oldHexCharIndex, hexCharIndex := hexCharIndex }

/-- Go back, and restore the displayed character to its last state. -/
def back (e : Editor) : Option Editor := do
  let index := if 0 < e.index then e.index - 1 else e.index
  let hexCharIndex ← load e.oldHexCharIndex index
  let char ← hexChars[hexCharIndex.toNat]?
  let hexBuffer ← store e.hexBuffer index char
  some { e with index := index, hexBuffer := hexBuffer, hexCharIndex := hexCharIndex }

/-- The branch of the `switch` for a command. -/
def exec (e : Editor) : Command → Option Editor
  | .next    => e.next
  | .cycle   => e.cycle
  | .back    => e.back
  | .done    => some { e with inputComplete := true }
  | .nothing => some e

end Editor

/-- One pass of the loop; `outcome` is the key that `ReadKeyStroke` delivers, if any.  The buffer is
    terminated at the end of the pass. -/
def hexPass (device : DeviceType) (outcome : Option Key) (e : Editor) : Option Editor := do
  -- without a key the variable holds the one before, or what the stack has left there
  let key := outcome.getD e.key
  let e ← { e with key := key }.exec (command device key)
  let hexBuffer ← store e.hexBuffer 8 0#16
  some { e with hexBuffer := hexBuffer }

/-! ### The pad -/

/-- Eight digits, the cursor, and whether the input is complete. -/
structure Pad where
  digits : Fin hexLength → Fin 16
  cursor : Fin hexLength
  complete : Bool

namespace Pad

/-- All digits zero. -/
def start : Pad := ⟨fun _ => ⟨0, by decide⟩, ⟨0, by decide⟩, false⟩

/-- The digit after a digit. -/
def succDigit (d : Fin 16) : Fin 16 := ⟨(d.val + 1) % 16, Nat.mod_lt _ (by decide)⟩

/-- What a command does. -/
def apply (p : Pad) : Command → Pad
  | .next    => if h : p.cursor.val + 1 < hexLength then { p with cursor := ⟨p.cursor.val + 1, h⟩ }
                else p
  | .cycle   => { p with
                    digits := Function.update p.digits p.cursor (succDigit (p.digits p.cursor)) }
  | .back    => { p with cursor := ⟨p.cursor.val - 1, by have := p.cursor.isLt; omega⟩ }
  | .done    => { p with complete := true }
  | .nothing => p

end Pad

/-- The character of a digit. -/
def hexChar (d : Fin 16) : BitVec 16 := hexChars.getD d.val 0#16

/-- What `HexBuffer` holds for the digits of a pad. -/
def Pad.text (p : Pad) (i : Fin (hexLength + 1)) : BitVec 16 :=
  if h : i.val < hexLength then hexChar (p.digits ⟨i.val, h⟩) else 0#16

/-- The variables hold what the pad says: the digits twice, and the one under the cursor once
    more. -/
structure Editor.Shows (e : Editor) (p : Pad) : Prop where
  buffer : e.hexBuffer = p.text
  digits : ∀ i, (e.oldHexCharIndex i).toNat = (p.digits i).val
  index : e.index.toNat = p.cursor.val
  current : e.hexCharIndex.toNat = (p.digits p.cursor).val
  complete : e.inputComplete = p.complete

/-! ### The arrays -/

theorem load_of_eq {n : Nat} {α : Type} (a : Fin n → α) {i : U32} {j : Fin n}
    (h : i.toNat = j.val) : load a i = some (a j) := by
  unfold load
  rw [dif_pos (by omega)]
  exact congrArg (some ∘ a) (Fin.ext h)

theorem store_of_eq {n : Nat} {α : Type} (a : Fin n → α) {i : U32} {j : Fin n}
    (h : i.toNat = j.val) (v : α) : store a i v = some (Function.update a j v) := by
  have hj : (⟨i.toNat, by omega⟩ : Fin n) = j := Fin.ext h
  unfold store
  rw [dif_pos (by omega), hj]

/-- The character of a digit is found. -/
theorem hexChars_get {i : U32} {d : Fin 16} (h : i.toNat = d.val) :
    hexChars[i.toNat]? = some (hexChar d) := by
  rw [h]
  clear h
  revert d
  decide

/-- Different digits have different characters. -/
theorem hexChar_injective : Function.Injective hexChar := by
  unfold Function.Injective
  decide

/-- The characters before the terminator. -/
theorem Pad.text_castSucc (p : Pad) (i : Fin hexLength) :
    p.text i.castSucc = hexChar (p.digits i) :=
  dif_pos (show i.castSucc.val < hexLength from i.isLt)

/-- Writing the character of a digit is showing that digit. -/
theorem Pad.update_text (p : Pad) (i : Fin hexLength) (d : Fin 16) :
    Function.update p.text i.castSucc (hexChar d)
      = ({ p with digits := Function.update p.digits i d } : Pad).text := by
  funext j
  by_cases hj : j = i.castSucc
  · subst hj
    rw [Function.update_self, Pad.text_castSucc]
    exact congrArg hexChar (Function.update_self i d p.digits).symm
  · rw [Function.update_of_ne hj, Pad.text, Pad.text]
    split
    · next h =>
      have hne : (⟨j.val, h⟩ : Fin hexLength) ≠ i := by
        rintro rfl
        exact hj rfl
      exact congrArg hexChar (Function.update_of_ne hne d p.digits).symm
    · rfl

/-- Writing the character that is there changes nothing. -/
theorem Pad.update_text_self (p : Pad) (i : Fin hexLength) :
    Function.update p.text i.castSucc (hexChar (p.digits i)) = p.text := by
  rw [Pad.update_text, Function.update_eq_self]

/-! ### A pass -/

namespace Editor.Shows

variable {e : Editor} {p : Pad}

theorem next (h : e.Shows p) :
    ∃ e', e.next = some e' ∧ e'.key = e.key ∧ e'.Shows (p.apply .next) := by
  unfold Editor.next Pad.apply
  have hcursor : p.cursor.val < 8 := p.cursor.isLt
  by_cases hlt : p.cursor.val + 1 < 8
  · have hindex : e.index < 7 := by
      rw [BitVec.lt_def, h.index]
      show p.cursor.val < 7
      omega
    have hnext : (e.index + 1).toNat = (⟨p.cursor.val + 1, hlt⟩ : Fin hexLength).val := by
      rw [BitVec.toNat_add, h.index, show (1 : U32).toNat = 1 from rfl]
      show (p.cursor.val + 1) % 2 ^ 32 = p.cursor.val + 1
      omega
    -- what is stored is there already
    have hsame : ∀ i, (Function.update e.oldHexCharIndex p.cursor e.hexCharIndex i).toNat
        = (p.digits i).val := by
      intro i
      by_cases hi : i = p.cursor
      · rw [hi, Function.update_self, h.current]
      · rw [Function.update_of_ne hi, h.digits]
    rw [if_pos hindex, store_of_eq _ h.index, dif_pos (show p.cursor.val + 1 < hexLength from hlt)]
    dsimp only [Option.bind_eq_bind, Option.bind_some]
    rw [load_of_eq _ hnext]
    exact ⟨_, rfl, rfl, h.buffer, hsame, hnext, hsame _, h.complete⟩
  · have hindex : ¬ e.index < 7 := by
      rw [BitVec.lt_def, h.index]
      show ¬ p.cursor.val < 7
      omega
    rw [if_neg hindex, dif_neg (show ¬ p.cursor.val + 1 < hexLength from hlt)]
    exact ⟨e, rfl, rfl, h⟩

theorem cycle (h : e.Shows p) :
    ∃ e', e.cycle = some e' ∧ e'.key = e.key ∧ e'.Shows (p.apply .cycle) := by
  have hdigit : ((e.hexCharIndex + 1) % 16).toNat = (Pad.succDigit (p.digits p.cursor)).val := by
    have := (p.digits p.cursor).isLt
    rw [BitVec.toNat_umod, BitVec.toNat_add, h.current, show (1 : U32).toNat = 1 from rfl,
      show (16 : U32).toNat = 16 from rfl]
    show ((p.digits p.cursor).val + 1) % 2 ^ 32 % 16 = ((p.digits p.cursor).val + 1) % 16
    omega
  have hcast : e.index.toNat = p.cursor.castSucc.val := h.index
  unfold Editor.cycle Pad.apply
  dsimp only
  rw [hexChars_get hdigit]
  dsimp only [Option.bind_eq_bind, Option.bind_some]
  rw [store_of_eq _ hcast, store_of_eq _ h.index]
  refine ⟨_, rfl, rfl, ?_, ?_, h.index, ?_, h.complete⟩
  · rw [h.buffer]
    exact p.update_text p.cursor _
  · intro i
    by_cases hi : i = p.cursor
    · subst hi
      simpa using hdigit
    · simp [Function.update_of_ne hi, h.digits]
  · simpa using hdigit

theorem back (h : e.Shows p) :
    ∃ e', e.back = some e' ∧ e'.key = e.key ∧ e'.Shows (p.apply .back) := by
  have hcursor : p.cursor.val < 8 := p.cursor.isLt
  have hindex : (if 0 < e.index then e.index - 1 else e.index).toNat = p.cursor.val - 1 := by
    have hpos : 0 < e.index ↔ 0 < p.cursor.val := by
      rw [BitVec.lt_def, h.index]
      rfl
    by_cases h0 : 0 < p.cursor.val
    · rw [if_pos (hpos.mpr h0), BitVec.toNat_sub, h.index, show (1 : U32).toNat = 1 from rfl]
      omega
    · rw [if_neg (mt hpos.mp h0), h.index]
      omega
  unfold Editor.back Pad.apply
  dsimp only
  generalize (if 0 < e.index then e.index - 1 else e.index) = index at hindex
  have hindex' : index.toNat = (⟨p.cursor.val - 1, by omega⟩ : Fin hexLength).val := hindex
  have hcast : index.toNat = (⟨p.cursor.val - 1, by omega⟩ : Fin hexLength).castSucc.val := hindex
  rw [load_of_eq _ hindex']
  dsimp only [Option.bind_eq_bind, Option.bind_some]
  rw [hexChars_get (h.digits _)]
  dsimp only [Option.bind_some]
  rw [store_of_eq _ hcast]
  refine ⟨_, rfl, rfl, ?_, h.digits, hindex', h.digits _, h.complete⟩
  show Function.update e.hexBuffer _ _ = _
  rw [h.buffer]
  exact p.update_text_self _

theorem exec (h : e.Shows p) (c : Command) :
    ∃ e', e.exec c = some e' ∧ e'.key = e.key ∧ e'.Shows (p.apply c) := by
  cases c with
  | next => exact h.next
  | cycle => exact h.cycle
  | back => exact h.back
  | done => exact ⟨_, rfl, rfl, h.buffer, h.digits, h.index, h.current, rfl⟩
  | nothing => exact ⟨e, rfl, rfl, h⟩

end Editor.Shows

/-- **A pass.**  It does to the pad what the key in the variable asks for. -/
theorem Editor.Shows.pass {e : Editor} {p : Pad} (h : e.Shows p) (device : DeviceType)
    (outcome : Option Key) :
    ∃ e', hexPass device outcome e = some e' ∧ e'.key = outcome.getD e.key ∧
      e'.Shows (p.apply (command device (outcome.getD e.key))) := by
  have hkey : ({ e with key := outcome.getD e.key } : Editor).Shows p :=
    ⟨h.buffer, h.digits, h.index, h.current, h.complete⟩
  obtain ⟨e', hexec, hsame, hshows⟩ := hkey.exec (command device (outcome.getD e.key))
  unfold hexPass
  dsimp only
  rw [hexec]
  dsimp only [Option.bind_eq_bind, Option.bind_some]
  -- the terminator is written where it is
  have hend : (8 : U32).toNat = (Fin.last hexLength).val := rfl
  have hterm : Function.update e'.hexBuffer (Fin.last hexLength) 0#16 = e'.hexBuffer := by
    rw [hshows.buffer, Function.update_eq_self_iff]
    rfl
  rw [store_of_eq _ hend, hterm]
  exact ⟨e', rfl, hsame, hshows⟩

/-- The loop begins with an empty pad. -/
theorem shows_start (key : Key) : (getHexInputStart key).Shows Pad.start := by
  refine ⟨?_, fun _ => rfl, rfl, rfl, rfl⟩
  have htext : ∀ i : Fin (hexLength + 1),
      (if i.val < hexLength then 48#16 else 0#16) = Pad.start.text i := by decide
  exact funext htext

end HtcLeo.Menu

import HtcLeo.Keypad.Device

namespace HtcLeo.Keypad

open Atags (DeviceType)
open BitMask Gpio Prog

/-!
# KeypadDeviceImplLib — the key matrix

The keys as they are wired: a closed switch pulls its input pin low, one at a crossing of the matrix
only while its row is driven low.  Other drivers may use other pins between the polls.

* `Board`, `wires` — the switches, and what the `in` registers hold.
* `Scannable` — no pin is the input of one key and the row of another, and no two keys share a
  crossing; `startContexts_scannable`.
* `turn_spec` — a turn of the loop reads its own switch, if no other row is driven low.
-/

namespace KeyContextPrivate

variable (c : KeyContextPrivate)

/-- The context is polled. -/
def scanned : Bool := c.isValid && (c.deviceType == .legacy || c.deviceType == .keymatrix)

/-- The pin that is read. -/
def sense : Nat := if c.deviceType = .keymatrix then c.gpioIn else c.gpio

/-- The pin that is driven low for it. -/
def row : Option Nat := if c.deviceType = .keymatrix then some c.gpioOut else none

end KeyContextPrivate

/-- There are seven keys to look at. -/
instance {P : KeyName → Prop} [DecidablePred P] : Decidable (∀ k, P k) :=
  decidable_of_iff (∀ k ∈ keyList, P k) ⟨fun h k => h k (mem_keyList k), fun h k _ => h k⟩

/-! ### The board -/

/-- The switches of the keys, and the levels of all pins that no key is read from. -/
structure Board where
  closed : KeyName → Bool
  others : Nat → Bool

/-- A pin that is driven low. -/
abbrev lowPin : Pin := ⟨true, false⟩
/-- A pin that is driven high. -/
abbrev highPin : Pin := ⟨true, true⟩

section Wiring

variable (cs : Contexts) (b : Board)

/-- The switch of the key pulls pin `n` low. -/
def pulls (t : Tlmm) (n : Nat) (k : KeyName) : Bool :=
  (cs k).scanned && b.closed k && (cs k).sense == n &&
    (cs k).row.all fun out => t.pin out == lowPin

/-- The level of a pin. -/
def level (t : Tlmm) (n : Nat) : Bool :=
  if keyList.any fun k => (cs k).scanned && (cs k).sense == n then !keyList.any (pulls cs b t n)
  else b.others n

/-- What the `in` registers hold. -/
def wires (t : Tlmm) (i : Nat) : U32 := wordOf fun p => level cs b t ((bank i).start + p)

theorem inputBit_wires (t : Tlmm) {n : Nat} (hn : n ≤ 164) :
    inputBit (wires cs b t) n = level cs b t n := by
  obtain ⟨hi, hp, hpin⟩ := pinMap_bank hn
  rw [inputBit, wires, getLsbD_wordOf _ (hp.lt hi), hpin]

/-- No row is driven low. -/
def Quiet (t : Tlmm) : Prop :=
  ∀ k, (cs k).scanned = true → ∀ out ∈ (cs k).row, t.pin out ≠ lowPin

instance (t : Tlmm) : Decidable (Quiet cs t) :=
  inferInstanceAs (Decidable (∀ k, (cs k).scanned = true → ∀ out ∈ (cs k).row, t.pin out ≠ lowPin))

/-- The pins of a key. -/
def KeyContextPrivate.pins (c : KeyContextPrivate) : List Nat := c.sense :: c.row.toList

/-- The keys can be told apart: their pins exist, and are not that of the LED; a closed switch pulls
    low; no pin is read for one key and driven for another; and two keys read from one pin are in
    two rows. -/
structure Scannable : Prop where
  pins : ∀ k, (cs k).scanned = true → ∀ n ∈ (cs k).pins, n ≤ 164 ∧ n ≠ htcleoGpioKpLed
  activeLow : ∀ k, (cs k).scanned = true → (cs k).activeLow = true
  apart : ∀ k, (cs k).scanned = true → ∀ k', (cs k').scanned = true →
    (cs k').row ≠ some (cs k).sense
  crossing : ∀ k, (cs k).scanned = true → ∀ k', (cs k').scanned = true → k' ≠ k →
    (cs k').sense = (cs k).sense →
      (cs k').row.isSome = true ∧ (cs k).row.isSome = true ∧ (cs k').row ≠ (cs k).row

end Wiring

/-- The keys of every device can be told apart. -/
theorem startContexts_scannable (device : DeviceType) : Scannable (startContexts device) := by
  constructor
  · cases device <;> decide +kernel
  · cases device <;> decide +kernel
  · cases device <;> decide +kernel
  · cases device <;> decide +kernel

/-! ### A turn -/

/-- The contexts are wired alike. -/
def SameWiring (cs cs' : Contexts) : Prop :=
  ∀ k, cs' k = { cs k with efiKeyContext := (cs' k).efiKeyContext }

section Turn

variable {cs cs' : Contexts} {b : Board} {t : Tlmm} {k : KeyName}

theorem SameWiring.update (h : SameWiring cs cs') (k : KeyName) (context : KeyContext) :
    SameWiring cs (Function.update cs' k { cs' k with efiKeyContext := context }) := by
  intro k'
  by_cases hk : k' = k
  · subst hk
    rw [Function.update_self, h k']
  · rw [Function.update_of_ne hk, h k']

/-- The switch of a key, read while no row but its own is driven low. -/
theorem level_sense (hscan : Scannable cs) (hk : (cs k).scanned = true)
    (hown : ∀ out ∈ (cs k).row, t.pin out = lowPin)
    (hothers : ∀ k', (cs k').scanned = true → ∀ out ∈ (cs k').row, (cs k).row ≠ some out →
      t.pin out ≠ lowPin) :
    level cs b t (cs k).sense = !b.closed k := by
  have hwired : (keyList.any fun k' => (cs k').scanned && (cs k').sense == (cs k).sense) = true :=
    List.any_eq_true.mpr ⟨k, mem_keyList k, by simp [hk]⟩
  -- no other switch pulls the pin low
  have hpulls : ∀ k', pulls cs b t (cs k).sense k' = (decide (k' = k) && b.closed k) := by
    intro k'
    by_cases hkk : k' = k
    · subst hkk
      cases hrow : (cs k').row with
      | none => simp [pulls, hk, hrow]
      | some out => simp [pulls, hk, hrow, hown out hrow]
    · rw [decide_eq_false hkk, Bool.false_and]
      by_contra hpull
      rw [Bool.not_eq_false, pulls] at hpull
      simp only [Bool.and_eq_true, beq_iff_eq] at hpull
      obtain ⟨⟨⟨hk', -⟩, hsense⟩, hlow⟩ := hpull
      obtain ⟨hsome, -, hne⟩ := hscan.crossing k hk k' hk' hkk hsense
      obtain ⟨out, hout⟩ := Option.isSome_iff_exists.mp hsome
      rw [hout] at hlow hne
      simp only [Option.all_some, beq_iff_eq] at hlow
      exact hothers k' hk' out hout (Ne.symm hne) hlow
  rw [level, if_pos hwired]
  congr 1
  rw [Bool.eq_iff_iff, List.any_eq_true]
  simp only [hpulls, Bool.and_eq_true, decide_eq_true_eq]
  exact ⟨fun ⟨_, _, _, h⟩ => h, fun h => ⟨k, mem_keyList k, rfl, h⟩⟩

/-! What a turn does to the pins. -/

/-- The row of a context, set. -/
def setRow (c : KeyContextPrivate) (on : U32) (t : Tlmm) : Tlmm :=
  c.row.elim t fun out => gpioSet out on t

theorem pin_setRow {c : KeyContextPrivate} {n : Nat} (hn : n ≤ 164) (on : U32) (t : Tlmm) :
    (setRow c on t).pin n = if c.row = some n then ⟨true, on ≠ 0⟩ else t.pin n := by
  unfold setRow
  cases hrow : c.row with
  | none => simp
  | some out => simpa [Op.run, Op.apply, Op.number] using pin_run hn t (.set out on)

theorem pin_gpioConfig_other {n m : Nat} (hn : n ≤ 164) (h : m ≠ n) (flags : U32) (t : Tlmm) :
    (gpioConfig m flags t).2.pin n = t.pin n := by
  simpa [Op.run, Op.number, h] using pin_run hn t (.config m flags)

theorem pin_gpioGet_other {n m : Nat} (hn : n ≤ 164) (h : m ≠ n) (inp : Nat → U32) (t : Tlmm) :
    (gpioGet m inp t).2.pin n = t.pin n := by
  simpa [Op.run, Op.number, h] using pin_run hn t (.get m inp)

/-- The status of a polled context: its pin, read while its row is driven low. -/
theorem getStatus_scanned (w : Tlmm → Nat → U32) {c : KeyContextPrivate} (hc : c.scanned = true)
    (s : KeypadDevice) :
    let driven := setRow c 0 s.tlmm
    let read := gpioGet c.sense (w (gpioConfig c.sense gpioInput driven).2) driven
    getStatus w c s = (some (some read.1), { s with tlmm := setRow c 1 read.2 }) := by
  simp only [KeyContextPrivate.scanned, Bool.and_eq_true, Bool.or_eq_true, beq_iff_eq] at hc
  obtain ⟨hvalid, htype⟩ := hc
  unfold getStatus setRow KeyContextPrivate.sense KeyContextPrivate.row
  rcases htype with htype | htype
  · simp only [hvalid, htype]
    rfl
  · simp only [hvalid, htype]
    rfl

theorem getStatus_not_scanned (w : Tlmm → Nat → U32) {c : KeyContextPrivate}
    (hc : c.scanned = false) (s : KeypadDevice) : getStatus w c s = (some none, s) := by
  unfold getStatus
  cases hvalid : c.isValid with
  | false => rfl
  | true =>
    simp only [KeyContextPrivate.scanned, hvalid, Bool.true_and, Bool.or_eq_false_iff,
      beq_eq_false_iff_ne, ne_eq] at hc
    cases htype : c.deviceType with
    | legacy => exact absurd htype hc.1
    | keymatrix => exact absurd htype hc.2
    | _ => rfl

/-- A key whose `KeySetState` stays inside the bitmaps can be updated. -/
theorem libKeyUpdateKeyStatus_some {context : KeyContext}
    (hin : unicodeTracked context.keyData.key = true →
      context.keyData.key.scanCode.toNat < 128)
    (maps : KeyMaps) (isPressed : Bool) (delta : BitVec 64) :
    ∃ res, libKeyUpdateKeyStatus context maps isPressed delta = some res := by
  obtain ⟨r, maps', hr⟩ := keyReadings_some hin isPressed maps
  simp [libKeyUpdateKeyStatus, hr]

/-- What a turn of a polled key does: it has read `isPressed`, which is its switch if no row was
    driven low; its context has taken the sample; its row is driven high, and no other pin is
    touched but its own and that of the LED. -/
structure Turned (cs : Contexts) (b : Board) (delta : BitVec 64) (k : KeyName)
    (s s' : KeypadDevice) (isPressed : Bool) : Prop where
  reads : Quiet cs s.tlmm → isPressed = b.closed k
  takes : ∃ events context,
    libKeyUpdateKeyStatus (s.contexts k).efiKeyContext s.maps isPressed delta
      = some (events, context, s'.maps) ∧
    s'.contexts = Function.update s.contexts k { s.contexts k with efiKeyContext := context } ∧
    s'.pushed = Function.update s.pushed k (s.pushed k ++ [events])
  pins : ∀ n ≤ 164, n ≠ htcleoGpioKpLed → n ≠ (cs k).sense →
    s'.tlmm.pin n = if (cs k).row = some n then highPin else s.tlmm.pin n

/-- **Turn lemma.** -/
theorem turn_spec (hscan : Scannable cs) {s : KeypadDevice} (hwired : SameWiring cs s.contexts)
    (hk : (cs k).scanned = true) (hkey : (s.contexts k).efiKeyContext.keyData.key = keyOf k)
    (b : Board) (delta : BitVec 64) :
    ∃ s' isPressed, turn (wires cs b) delta k s = (some (), s') ∧
      Turned cs b delta k s s' isPressed := by
  let c := s.contexts k
  have hc : c = { cs k with efiKeyContext := c.efiKeyContext } := hwired k
  have hsense : c.sense = (cs k).sense := by rw [hc]; rfl
  have hrow : c.row = (cs k).row := by rw [hc]; rfl
  have hscanned : c.scanned = true := by rw [hc]; exact hk
  have hlow : c.activeLow = true := by rw [hc]; exact hscan.activeLow k hk
  have hsense164 := (hscan.pins k hk _ List.mem_cons_self).1
  have hrows : ∀ k', (cs k').scanned = true → ∀ out ∈ (cs k').row,
      out ≤ 164 ∧ out ≠ (cs k).sense := by
    intro k' hk' out hout
    refine ⟨(hscan.pins k' hk' out ?_).1, ?_⟩
    · exact List.mem_cons_of_mem _ (Option.mem_toList.mpr hout)
    · rintro rfl
      exact hscan.apart k hk k' hk' hout
  let driven := setRow c 0 s.tlmm
  let read := gpioGet c.sense (wires cs b (gpioConfig c.sense gpioInput driven).2) driven
  have hstatus := getStatus_scanned (wires cs b) hscanned s
  -- the pins while the switch is read
  have hpins : ∀ n ≤ 164, n ≠ (cs k).sense → (gpioConfig c.sense gpioInput driven).2.pin n
      = if (cs k).row = some n then lowPin else s.tlmm.pin n := by
    intro n hn hne
    rw [pin_gpioConfig_other hn (by rw [hsense]; exact Ne.symm hne), pin_setRow hn, hrow]
    rfl
  have hreads : Quiet cs s.tlmm → ((read.1 ≠ 0) ^^ c.activeLow) = b.closed k := by
    intro hquiet
    have hlevel := level_sense (b := b) (t := (gpioConfig c.sense gpioInput driven).2) hscan hk
      (fun out hout => by
        rw [hpins out (hrows k hk out hout).1 (hrows k hk out hout).2,
          if_pos (Option.mem_def.mp hout)])
      (fun k' hk' out hout hne => by
        rw [hpins out (hrows k' hk' out hout).1 (hrows k' hk' out hout).2, if_neg hne]
        exact hquiet k' hk' out hout)
    have hread : read.1 = if b.closed k then 0 else 1 := by
      show (gpioGet c.sense _ driven).1 = _
      rw [hsense, gpioGet_eq hsense164, inputBit_wires cs b _ hsense164, ← hsense, hsense]
      rw [hsense] at hlevel
      rw [hlevel]
      cases b.closed k <;> rfl
    rw [hread, hlow]
    cases b.closed k <;> decide
  let isPressed : Bool := (read.1 ≠ 0) ^^ c.activeLow
  let s₁ : KeypadDevice := { s with tlmm := setRow c 1 read.2 }
  -- the LED touches neither the contexts nor the bitmaps
  obtain ⟨s₂, hled, hsame, hledPins⟩ : ∃ s₂ : KeypadDevice,
      enableLed (isPressed && c.enableKeyPadLed) s₁ = (some (), s₂) ∧
      (s₂.contexts = s₁.contexts ∧ s₂.maps = s₁.maps ∧ s₂.pushed = s₁.pushed) ∧
      ∀ n ≤ 164, n ≠ htcleoGpioKpLed → s₂.tlmm.pin n = s₁.tlmm.pin n := by
    unfold enableLed
    split
    · refine ⟨_, rfl, ⟨rfl, rfl, rfl⟩, fun n hn hne => ?_⟩
      simpa [Op.run, Op.number, Ne.symm hne] using pin_run hn s₁.tlmm (.set htcleoGpioKpLed 1)
    · exact ⟨s₁, rfl, ⟨rfl, rfl, rfl⟩, fun _ _ _ => rfl⟩
  have hin : unicodeTracked c.efiKeyContext.keyData.key = true →
      c.efiKeyContext.keyData.key.scanCode.toNat < 128 := by
    rw [hkey]
    cases k <;> decide
  obtain ⟨⟨events, context, maps⟩, hupdate⟩ :=
    libKeyUpdateKeyStatus_some hin s.maps isPressed delta
  let s₃ : KeypadDevice := { s₂ with
    maps := maps
    contexts := Function.update s.contexts k { c with efiKeyContext := context }
    pushed := Function.update s.pushed k (s.pushed k ++ [events]) }
  have hrun : updateKeyStatus k isPressed delta s₂ = (some (), s₃) := by
    unfold updateKeyStatus
    rw [hsame.1, hsame.2.1, hsame.2.2, hupdate]
  refine ⟨s₃, isPressed, bind_of rfl (bind_of hstatus (bind_of hled hrun)), hreads,
    ⟨events, context, hupdate, rfl, rfl⟩, fun n hn hled hne => ?_⟩
  show s₂.tlmm.pin n = _
  rw [hledPins n hn hled, pin_setRow hn, hrow,
    pin_gpioGet_other hn (by rw [hsense]; exact Ne.symm hne), pin_setRow hn, hrow]
  -- the row is high again
  split
  · rfl
  · rfl

end Turn

end HtcLeo.Keypad

import HtcLeo.Menu.HexInput

namespace HtcLeo.Menu

open Keypad (Key)
open Atags (DeviceType)
open Runs

/-!
# HtcLeoMenuApp — runs of the hex editor

What `GetHexInput` shows and returns, for every sequence of outcomes of `ReadKeyStroke`.

* `hexStep` — a pass of the loop, which ends once the input is complete.
* `EditsByKeys` — the digits are kept consistently, and only the delivered keys decide about them.
* `Editor.Idle` — the key that is left in the variable asks for nothing that could be done.
* `editsByKeys_iff` — the editor edits by keys exactly when every pass without a key is idle.
-/

/-! ### The loop -/

/-- A pass of the loop; once the input is complete, there are no more. -/
def hexStep (device : DeviceType) (e : Option Editor) (outcome : Option Key) : Option Editor :=
  e.bind fun e => if e.inputComplete then some e else hexPass device outcome e

/-- What is shown, and whether it is returned. -/
def hexShown (e : Option Editor) : Option ((Fin (hexLength + 1) → BitVec 16) × Bool) :=
  e.map fun e => (e.hexBuffer, e.inputComplete)

/-- The cursor is at a digit, and every character is that of the value kept for its position. -/
def Editor.Consistent (e : Editor) : Prop :=
  e.index.toNat ≤ 7 ∧ ∀ i : Fin hexLength, (e.oldHexCharIndex i).toNat < 16 ∧
    hexChars[(e.oldHexCharIndex i).toNat]? = some (e.hexBuffer i.castSucc)

/-- A pass that moves the cursor changes no digit. -/
def MoveKeepsDigits (device : DeviceType) (e : Option Editor) (outcome : Option Key) : Prop :=
  ∀ before ∈ e, before.inputComplete = false →
    command device (outcome.getD before.key) ∈ [.next, .back] →
    ∃ after ∈ hexStep device e outcome, after.hexBuffer = before.hexBuffer ∧
      after.oldHexCharIndex = before.oldHexCharIndex

/-- A digit key that is delivered changes the digit under the cursor by one, and no other. -/
def KeyCyclesDigit (device : DeviceType) (e : Option Editor) (outcome : Option Key) : Prop :=
  ∀ before ∈ e, before.inputComplete = false → ∀ key, outcome = some key →
    command device key = .cycle →
    ∃ after ∈ hexStep device e outcome, ∀ i : Fin hexLength,
      if i.val = before.index.toNat then
        (after.oldHexCharIndex i).toNat = ((before.oldHexCharIndex i).toNat + 1) % 16
      else
        after.oldHexCharIndex i = before.oldHexCharIndex i ∧
          after.hexBuffer i.castSucc = before.hexBuffer i.castSucc

/-- Over a run of the editor: the digits are consistent in every pass and change only as the keys
    say; and at any point what is shown, then and whatever keys are pressed later, is what the keys
    delivered so far lead to when no read has come back empty.  `garbage` is what the key variable
    holds before it is set. -/
structure EditsByKeys (device : DeviceType) (garbage : Key) (outcomes : List (Option Key)) :
    Prop where
  consistent : Always (hexStep device) (fun e => ∃ v ∈ e, v.Consistent)
    (some (getHexInputStart garbage)) outcomes
  moves : EveryStep (hexStep device) (MoveKeepsDigits device)
    (some (getHexInputStart garbage)) outcomes
  digits : EveryStep (hexStep device) (KeyCyclesDigit device)
    (some (getHexInputStart garbage)) outcomes
  delivered : ∀ p, p <+: outcomes → Indistinguishable (hexStep device) hexShown
    (p.foldl (hexStep device) (some (getHexInputStart garbage)))
    ((p.reduceOption.map some).foldl (hexStep device) (some (getHexInputStart garbage)))

/-- The key in the variable does nothing where the cursor is. -/
def Editor.Idle (device : DeviceType) (e : Editor) : Prop :=
  match command device e.key with
  | .next    => e.index.toNat = 7
  | .back    => e.index.toNat = 0
  | .cycle   => False
  | .done    => False
  | .nothing => True

/-! ### Pads -/

/-- Pads with the same text have the same digits. -/
theorem Pad.digits_of_text {p q : Pad} (h : p.text = q.text) : p.digits = q.digits := by
  funext i
  have hi : p.text i.castSucc = q.text i.castSucc := congrFun h _
  rw [Pad.text_castSucc, Pad.text_castSucc] at hi
  exact hexChar_injective hi

/-- A digit is not the one after it. -/
theorem Pad.succDigit_ne (d : Fin 16) : Pad.succDigit d ≠ d := by
  revert d
  decide

/-- After a digit key, the digits tell where the cursor is. -/
theorem Pad.cursor_of_cycle {p q : Pad} (hdigits : p.digits = q.digits)
    (h : (p.apply .cycle).digits = (q.apply .cycle).digits) : p.cursor = q.cursor := by
  by_contra hne
  have hp : (p.apply .cycle).digits p.cursor = Pad.succDigit (p.digits p.cursor) :=
    Function.update_self _ _ _
  have hq : (q.apply .cycle).digits p.cursor = q.digits p.cursor :=
    Function.update_of_ne hne _ _
  rw [h, hq, hdigits] at hp
  exact Pad.succDigit_ne _ hp.symm

/-- Moving the cursor changes no digit. -/
theorem Pad.digits_of_move (p : Pad) {c : Command} (h : c ∈ [.next, .back]) :
    (p.apply c).digits = p.digits := by
  rcases List.mem_pair.mp h with rfl | rfl
  · show (if h : p.cursor.val + 1 < hexLength then _ else p).digits = _
    split <;> rfl
  · rfl

/-- A pad that a command leaves as it is. -/
theorem Pad.apply_eq_self_iff (p : Pad) (hcomplete : p.complete = false) (c : Command) :
    p.apply c = p ↔
      match c with
      | .next    => p.cursor.val = 7
      | .back    => p.cursor.val = 0
      | .cycle   => False
      | .done    => False
      | .nothing => True := by
  have hcursor : p.cursor.val < 8 := p.cursor.isLt
  cases c with
  | next =>
    unfold Pad.apply
    by_cases hlt : p.cursor.val + 1 < 8
    · rw [dif_pos (show p.cursor.val + 1 < hexLength from hlt)]
      refine iff_of_false ?_ (by omega)
      intro h
      have hval : p.cursor.val + 1 = p.cursor.val := congrArg (fun q : Pad => q.cursor.val) h
      omega
    · rw [dif_neg (show ¬ p.cursor.val + 1 < hexLength from hlt)]
      exact iff_of_true rfl (by omega)
  | cycle =>
    refine iff_of_false ?_ not_false
    intro h
    have hdigit : (p.apply .cycle).digits p.cursor = p.digits p.cursor := by rw [h]
    have hcycled : (p.apply .cycle).digits p.cursor = Pad.succDigit (p.digits p.cursor) :=
      Function.update_self _ _ _
    exact Pad.succDigit_ne _ (hcycled.symm.trans hdigit)
  | back =>
    constructor
    · intro h
      have hval : p.cursor.val - 1 = p.cursor.val := congrArg (fun q : Pad => q.cursor.val) h
      omega
    · intro h
      have hval : p.cursor.val - 1 = p.cursor.val := by omega
      have hsame : (⟨p.cursor.val - 1, by omega⟩ : Fin hexLength) = p.cursor := Fin.ext hval
      unfold Pad.apply
      dsimp only
      rw [hsame]
  | done =>
    refine iff_of_false ?_ not_false
    intro h
    have htrue : true = p.complete := congrArg Pad.complete h
    rw [hcomplete] at htrue
    exact Bool.noConfusion htrue
  | nothing => exact iff_of_true rfl trivial

/-! ### Passes -/

namespace Editor.Shows

variable {e e' : Editor} {p q : Pad}

/-- The variables are determined by the pad and the key. -/
theorem unique (h : e.Shows p) (h' : e'.Shows p) (hkey : e.key = e'.key) : e = e' := by
  obtain ⟨buffer, digits, index, current, complete, key⟩ := e
  obtain ⟨buffer', digits', index', current', complete', key'⟩ := e'
  have hbuffer : buffer = buffer' := h.buffer.trans h'.buffer.symm
  have hdigits : digits = digits' :=
    funext fun i => BitVec.eq_of_toNat_eq ((h.digits i).trans (h'.digits i).symm)
  have hindex : index = index' := BitVec.eq_of_toNat_eq (h.index.trans h'.index.symm)
  have hcurrent : current = current' := BitVec.eq_of_toNat_eq (h.current.trans h'.current.symm)
  have hcomplete : complete = complete' := h.complete.trans h'.complete.symm
  subst hbuffer hdigits hindex hcurrent hcomplete hkey
  rfl

theorem consistent (h : e.Shows p) : e.Consistent := by
  constructor
  · have hcursor : p.cursor.val < 8 := p.cursor.isLt
    rw [h.index]
    omega
  · intro i
    refine ⟨by rw [h.digits]; exact (p.digits i).isLt, ?_⟩
    rw [hexChars_get (h.digits i), h.buffer, Pad.text_castSucc]

/-- A pass before the input is complete. -/
theorem hexStep (h : e.Shows p) (hp : p.complete = false) (device : DeviceType)
    (outcome : Option Key) :
    ∃ e', Menu.hexStep device (some e) outcome = some e' ∧ e'.key = outcome.getD e.key ∧
      e'.Shows (p.apply (command device (outcome.getD e.key))) := by
  have hopen : e.inputComplete = false := h.complete.trans hp
  unfold Menu.hexStep
  rw [Option.bind_some, hopen]
  exact h.pass device outcome

/-- What is shown. -/
theorem hexShown (h : e.Shows p) : Menu.hexShown (some e) = some (p.text, p.complete) := by
  rw [Menu.hexShown, Option.map_some, h.buffer, h.complete]

end Editor.Shows

/-- After the loop has ended, a pass changes nothing. -/
theorem hexStep_of_complete {e : Editor} (h : e.inputComplete = true) (device : DeviceType)
    (outcome : Option Key) : hexStep device (some e) outcome = some e := by
  unfold hexStep
  rw [Option.bind_some, h]
  rfl

/-- In every pass the variables show a pad. -/
theorem shows_hexStep (device : DeviceType) (e : Option Editor) (outcome : Option Key)
    (h : ∃ v p, e = some v ∧ v.Shows p) :
    ∃ v p, hexStep device e outcome = some v ∧ v.Shows p := by
  obtain ⟨v, p, rfl, hv⟩ := h
  cases hp : p.complete with
  | false =>
    obtain ⟨v', hstep, -, hv'⟩ := hv.hexStep hp device outcome
    exact ⟨v', _, hstep, hv'⟩
  | true => exact ⟨v, p, hexStep_of_complete (hv.complete.trans hp) device outcome, hv⟩

/-- A device with keys has one for the digits. -/
theorem exists_cycle_key {device : DeviceType} {key : Key} (h : command device key ≠ .nothing) :
    ∃ k, command device k = .cycle := by
  cases device with
  | leo => exact ⟨⟨0, charTab⟩, by decide⟩
  | schubert => exact ⟨⟨Keypad.scanUp, 0⟩, by decide⟩
  | bravo => exact ⟨⟨Keypad.scanUp, 0⟩, by decide⟩
  | passion => exact ⟨⟨Keypad.scanUp, 0⟩, by decide⟩
  | unknown => exact absurd rfl h

/-- States that can not be told apart show the same pad, if there is a digit key. -/
theorem pad_eq_of_indistinguishable {device : DeviceType} {e e' : Editor} {p q : Pad}
    (hp : e.Shows p) (hq : e'.Shows q) (hkey : ∃ k, command device k = .cycle)
    (hopen : p.complete = false)
    (h : Indistinguishable (hexStep device) hexShown (some e) (some e')) : p = q := by
  obtain ⟨k, hk⟩ := hkey
  have hnow : hexShown (some e) = hexShown (some e') := h []
  rw [hp.hexShown, hq.hexShown] at hnow
  obtain ⟨htext, hcomplete⟩ := Prod.ext_iff.mp (Option.some.inj hnow)
  -- one digit key later the cursors show
  have hlater : hexShown (hexStep device (some e) (some k))
      = hexShown (hexStep device (some e') (some k)) := h [k]
  obtain ⟨d, hstep, -, hd⟩ := hp.hexStep hopen device (some k)
  obtain ⟨d', hstep', -, hd'⟩ := hq.hexStep (hcomplete.symm.trans hopen) device (some k)
  rw [Option.getD_some, hk] at hd hd'
  rw [hstep, hstep', hd.hexShown, hd'.hexShown] at hlater
  have hcycled := Pad.digits_of_text (congrArg Prod.fst (Option.some.inj hlater))
  have hdigits := Pad.digits_of_text htext
  obtain ⟨digits, cursor, complete⟩ := p
  obtain ⟨digits', cursor', complete'⟩ := q
  have hcursor : cursor = cursor' := Pad.cursor_of_cycle hdigits hcycled
  subst hcursor
  obtain rfl : digits = digits' := hdigits
  obtain rfl : complete = complete' := hcomplete
  rfl

/-- **A pass without a key.**  It makes no difference exactly when it is idle. -/
theorem indistinguishable_none_iff {device : DeviceType} {e : Editor} {p : Pad} (h : e.Shows p)
    (hopen : p.complete = false) :
    Indistinguishable (hexStep device) hexShown (hexStep device (some e) none) (some e) ↔
      e.Idle device := by
  obtain ⟨e', hstep, hkey, he'⟩ := h.hexStep hopen device none
  rw [Option.getD_none] at hkey he'
  have hidle : e.Idle device ↔ p.apply (command device e.key) = p := by
    rw [Pad.apply_eq_self_iff p hopen, Editor.Idle, h.index]
  rw [hstep, hidle]
  constructor
  · intro hsame
    by_cases hnothing : command device e.key = .nothing
    · rw [hnothing]
      rfl
    · exact (pad_eq_of_indistinguishable h he' (exists_cycle_key hnothing) hopen hsame.symm).symm
  · intro hsame
    rw [hsame] at he'
    rw [he'.unique h hkey]
    exact fun _ => rfl

/-! ### Runs -/

/-- A pass that moves the cursor. -/
theorem moveKeepsDigits_of_shows {e : Editor} {p : Pad} (h : e.Shows p) (device : DeviceType)
    (outcome : Option Key) : MoveKeepsDigits device (some e) outcome := by
  intro before hmem hopen hmove
  obtain rfl := Option.mem_some_iff.mp hmem
  obtain ⟨after, hstep, -, hafter⟩ := h.hexStep (h.complete.symm.trans hopen) device outcome
  refine ⟨after, hstep, ?_⟩
  have hdigits := p.digits_of_move hmove
  have htext : (p.apply (command device (outcome.getD e.key))).text = p.text := by
    unfold Pad.text
    rw [hdigits]
  refine ⟨hafter.buffer.trans (htext.trans h.buffer.symm), funext fun i => ?_⟩
  apply BitVec.eq_of_toNat_eq
  rw [hafter.digits, hdigits, h.digits]

/-- A digit key. -/
theorem keyCyclesDigit_of_shows {e : Editor} {p : Pad} (h : e.Shows p) (device : DeviceType)
    (outcome : Option Key) : KeyCyclesDigit device (some e) outcome := by
  rintro before hmem hopen key rfl hcycle
  obtain rfl := Option.mem_some_iff.mp hmem
  obtain ⟨after, hstep, -, hafter⟩ := h.hexStep (h.complete.symm.trans hopen) device (some key)
  rw [Option.getD_some, hcycle] at hafter
  refine ⟨after, hstep, fun i => ?_⟩
  by_cases hi : i = p.cursor
  · have hdigit : (p.apply .cycle).digits p.cursor = Pad.succDigit (p.digits p.cursor) :=
      Function.update_self _ _ _
    rw [if_pos (by rw [h.index, hi]), hafter.digits, h.digits, hi, hdigit]
    rfl
  · rw [if_neg (by rw [h.index]; exact fun hval => hi (Fin.ext hval))]
    have hdigit : (p.apply .cycle).digits i = p.digits i := Function.update_of_ne hi _ _
    constructor
    · apply BitVec.eq_of_toNat_eq
      rw [hafter.digits, hdigit, h.digits]
    · rw [hafter.buffer, h.buffer, Pad.text_castSucc, Pad.text_castSucc, hdigit]

/-- A pass without a key does not show, then or later, exactly when it is idle. -/
theorem unseen_iff_idle {e : Editor} {p : Pad} (h : e.Shows p) (device : DeviceType) :
    Indistinguishable (hexStep device) hexShown (hexStep device (some e) none) (some e) ↔
      ∀ v ∈ some e, v.inputComplete = false → v.Idle device := by
  cases hp : p.complete with
  | false =>
    rw [indistinguishable_none_iff h hp]
    constructor
    · intro hidle v hmem _
      obtain rfl := Option.mem_some_iff.mp hmem
      exact hidle
    · intro hidle
      exact hidle e rfl (h.complete.trans hp)
  | true =>
    have hcomplete : e.inputComplete = true := h.complete.trans hp
    refine iff_of_true ?_ ?_
    · rw [hexStep_of_complete hcomplete]
      exact fun _ => rfl
    · intro v hmem hopen
      obtain rfl := Option.mem_some_iff.mp hmem
      rw [hcomplete] at hopen
      exact Bool.noConfusion hopen

/-- **The hex editor.**  It edits by the keys that are delivered exactly when every pass that gets
    none, before the input is complete, finds a key in the variable that does nothing there. -/
theorem editsByKeys_iff (device : DeviceType) (garbage : Key) (outcomes : List (Option Key)) :
    EditsByKeys device garbage outcomes ↔
      EveryStep (hexStep device)
        (fun e outcome => outcome = none →
          ∀ v ∈ e, v.inputComplete = false → v.Idle device)
        (some (getHexInputStart garbage)) outcomes := by
  have hstart : ∃ v p, some (getHexInputStart garbage) = some v ∧ v.Shows p :=
    ⟨_, _, rfl, shows_start garbage⟩
  have hrun : EveryStep (hexStep device)
        (fun e outcome => outcome = none →
          Indistinguishable (hexStep device) hexShown (hexStep device e none) e)
        (some (getHexInputStart garbage)) outcomes ↔
      EveryStep (hexStep device)
        (fun e outcome => outcome = none →
          ∀ v ∈ e, v.inputComplete = false → v.Idle device)
        (some (getHexInputStart garbage)) outcomes := by
    refine everyStep_congr (shows_hexStep device) ?_ hstart outcomes
    rintro e outcome ⟨v, p, rfl, hv⟩
    exact imp_congr_right fun _ => unseen_iff_idle hv device
  -- what remains holds in every run, since the variables always show a pad
  rw [← hrun, ← hidden_steps_iff]
  constructor
  · exact fun h => h.delivered
  · intro h
    refine ⟨?_, ?_, ?_, h⟩
    · refine (Always.of_invariant (shows_hexStep device) hstart outcomes).mono ?_
      rintro e ⟨v, p, rfl, hv⟩
      exact ⟨v, rfl, hv.consistent⟩
    · refine EveryStep.of_invariant (shows_hexStep device) ?_ hstart outcomes
      rintro e outcome ⟨v, p, rfl, hv⟩
      exact moveKeepsDigits_of_shows hv device outcome
    · refine EveryStep.of_invariant (shows_hexStep device) ?_ hstart outcomes
      rintro e outcome ⟨v, p, rfl, hv⟩
      exact keyCyclesDigit_of_shows hv device outcome

/-- One press of the digit key on a LEO, and then no key: the digit has changed twice. -/
theorem emptyPoll_cycles : ¬ EditsByKeys .leo ⟨0, 0⟩ [some ⟨0, charTab⟩, none] := by
  intro h
  have hshown := h.delivered [some ⟨0, charTab⟩, none] List.prefix_rfl []
  have hdigit := congrArg (Option.map fun s => s.1 ⟨0, by decide⟩) hshown
  revert hdigit
  decide

end HtcLeo.Menu

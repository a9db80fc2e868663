import HtcLeo.Keypad.Matrix
import HtcLeo.Keypad.PressEvents

namespace HtcLeo.Keypad

open Atags (DeviceType)
open Gpio Prog

/-!
# KeypadDeviceImplLib — runs of polls

Polls of the keys, one after the other, with whatever the other drivers do to their own pins in
between, and with the backlight timer going on.

* `KeypadEvent`, `KeypadEvent.exec` — what happens.
* `Scanning` — the states between the events; `Scanning.turn` is a turn of a poll in it.
* `keypad_scan` — in every run each key goes through its own state machine on its own switch.
-/

/-- A GPIO call of another driver, on none of the pins of the keys. -/
def OtherOp (device : DeviceType) : Type :=
  { op : Op // ∀ k, (startContexts device k).scanned = true →
    op.number ∉ (startContexts device k).pins }

/-- What happens: a poll with the switches as the board has them and the time since the last one, a
    GPIO call of another driver, time passing, the expiry of a timer, and the delivery of the
    notification that has been queued longest. -/
inductive KeypadEvent (device : DeviceType)
  | poll (b : Board) (delta : BitVec 64)
  | other (op : OtherOp device)
  | elapse (time : Nat)
  | expire (event : Nat)
  | deliver

/-- What it does; a delivered notification switches off the LED. -/
def KeypadEvent.exec {device : DeviceType} : KeypadEvent device → Prog KeypadDevice Unit
  | .poll b delta => keypadDeviceImplGetKeys (wires (startContexts device) b) delta
  | .other op     => modify fun s => { s with tlmm := op.val.run s.tlmm }
  | .elapse time  => modify fun s => { s with backlight := execLed s.backlight (.elapse time) }
  | .expire event => modify fun s => { s with backlight := execLed s.backlight (.expire event) }
  | .deliver      => modify fun s => { s with
      backlight := execLed s.backlight .deliver
      tlmm := if s.backlight.queued = [] then s.tlmm else gpioSet htcleoGpioKpLed 0 s.tlmm }

/-- The polls so far, and those with the next event. -/
def countPoll {device : DeviceType} (polls : List (Board × BitVec 64)) :
    KeypadEvent device → List (Board × BitVec 64)
  | .poll b delta => polls ++ [(b, delta)]
  | _             => polls

/-- The polls of a run. -/
def pollsOf {device : DeviceType} (events : List (KeypadEvent device)) :
    List (Board × BitVec 64) :=
  events.foldl countPoll []

/-! ### One more sample -/

/-- A run with one more sample. -/
theorem run_concat {context context' context'' : KeyContext} {samples : List Sample} {s : Sample}
    {pushed : List (List KeyData)} {events : List KeyData} {maps : KeyMaps}
    (hrun : run context samples = some (pushed, context'))
    (hlast : libKeyUpdateKeyStatus context' s.maps s.isPressed s.delta
      = some (events, context'', maps)) :
    run context (samples ++ [s]) = some (pushed ++ [events], context'') := by
  induction samples generalizing context pushed with
  | nil =>
    obtain ⟨rfl, rfl⟩ : [] = pushed ∧ context = context' := by simpa [run] using hrun
    simp [run, hlast]
  | cons first samples ih =>
    cases hfirst : libKeyUpdateKeyStatus context first.maps first.isPressed first.delta with
    | none => simp [run, hfirst] at hrun
    | some res =>
      obtain ⟨e, next, m⟩ := res
      cases hrest : run next samples with
      | none => simp [run, hfirst, hrest] at hrun
      | some rest =>
        obtain ⟨restPushed, restContext⟩ := rest
        obtain ⟨rfl, rfl⟩ : e :: restPushed = pushed ∧ restContext = context' := by
          simpa [run, hfirst, hrest] using hrun
        simp [run, hfirst, ih hrest]

/-- The key has gone through its state machine once for each poll, with the time of the poll, and
    after the first `skip` of them on its own switch. -/
def History (skip : Nat) (k : KeyName) (polls : List (Board × BitVec 64)) (s : KeypadDevice) :
    Prop :=
  ∃ samples : List Sample,
    run (libKeyInitializeKeyContext ⟨keyOf k, 0, 0⟩) samples
      = some (s.pushed k, (s.contexts k).efiKeyContext) ∧
    samples.map Sample.delta = polls.map Prod.snd ∧
    (samples.map Sample.isPressed).drop skip = (polls.map fun p => p.1.closed k).drop skip

section History

variable {cs : Contexts} {skip : Nat} {k : KeyName} {polls : List (Board × BitVec 64)}
  {s s' : KeypadDevice} {b : Board} {delta : BitVec 64} {isPressed : Bool}

theorem History.congr (h : History skip k polls s) (hpushed : s'.pushed k = s.pushed k)
    (hcontext : (s'.contexts k).efiKeyContext = (s.contexts k).efiKeyContext) :
    History skip k polls s' := by
  unfold History
  rw [hpushed, hcontext]
  exact h

/-- The state machine keeps the key. -/
theorem History.key (h : History skip k polls s) :
    (s.contexts k).efiKeyContext.keyData.key = keyOf k := by
  obtain ⟨samples, hrun, -⟩ := h
  have hkey := advanceAll_keyData (libKeyInitializeKeyContext ⟨keyOf k, 0, 0⟩) samples
  rw [← run_eq hrun] at hkey
  exact congrArg KeyData.key hkey

/-- A turn adds a sample, on the switch unless it is one of the first `skip`. -/
theorem History.turned (h : History skip k polls s) (hturn : Turned cs b delta k s s' isPressed)
    (hquiet : skip ≤ polls.length → Quiet cs s.tlmm) :
    History skip k (polls ++ [(b, delta)]) s' := by
  obtain ⟨samples, hrun, hdelta, hclosed⟩ := h
  obtain ⟨events, context, hupdate, hcontexts, hpushed⟩ := hturn.takes
  have hlen : samples.length = polls.length := by
    simpa using congrArg List.length hdelta
  refine ⟨samples ++ [⟨isPressed, delta, s.maps⟩], ?_, by simp [hdelta], ?_⟩
  · rw [hpushed, hcontexts, Function.update_self, Function.update_self]
    exact run_concat hrun hupdate
  · rw [List.map_append, List.map_append]
    by_cases hskip : skip ≤ polls.length
    · rw [List.drop_append_of_le_length (by simpa [hlen] using hskip),
        List.drop_append_of_le_length (by simpa using hskip), hclosed]
      simp [hturn.reads (hquiet hskip)]
    · rw [List.drop_eq_nil_of_le (by simp; omega), List.drop_eq_nil_of_le (by simp; omega)]

/-- A turn of another key adds none. -/
theorem History.other {k' : KeyName} (h : History skip k polls s)
    (hturn : Turned cs b delta k' s s' isPressed) (hne : k ≠ k') : History skip k polls s' := by
  obtain ⟨events, context, -, hcontexts, hpushed⟩ := hturn.takes
  refine h.congr ?_ ?_
  · rw [hpushed, Function.update_of_ne hne]
  · rw [hcontexts, Function.update_of_ne hne]

end History

/-! ### The states of a run -/

/-- The rows of the keys in the list are driven high. -/
def RowsHigh (cs : Contexts) (keys : List KeyName) (t : Tlmm) : Prop :=
  ∀ k ∈ keys, (cs k).scanned = true → ∀ out ∈ (cs k).row, t.pin out = highPin

/-- The states after `polls`, and after the turns of the keys in `done` of one more poll. -/
structure Scanning (cs : Contexts) (skip : Nat) (polls : List (Board × BitVec 64))
    (next : Board × BitVec 64) (done : List KeyName) (s : KeypadDevice) : Prop where
  wired : SameWiring cs s.contexts
  history : ∀ k, (cs k).scanned = true →
    History skip k (if k ∈ done then polls ++ [next] else polls) s
  rows : polls ≠ [] → RowsHigh cs keyList s.tlmm
  rowsDone : RowsHigh cs done s.tlmm
  quiet : skip = 0 → Quiet cs s.tlmm

section Scanning

variable {cs : Contexts} {skip : Nat} {polls : List (Board × BitVec 64)}
  {next : Board × BitVec 64} {done : List KeyName} {s : KeypadDevice}

theorem RowsHigh.quiet {t : Tlmm} (h : RowsHigh cs keyList t) : Quiet cs t := by
  intro k hk out hout
  rw [h k (mem_keyList k) hk out hout]
  decide

/-- A turn leaves every row as it is, or high. -/
theorem Turned.row {b : Board} {delta : BitVec 64} {k : KeyName} {s s' : KeypadDevice}
    {isPressed : Bool} (h : Turned cs b delta k s s' isPressed) (hscan : Scannable cs)
    (hk : (cs k).scanned = true) {k' : KeyName} (hk' : (cs k').scanned = true) {out : Nat}
    (hout : out ∈ (cs k').row) :
    s'.tlmm.pin out = if (cs k).row = some out then highPin else s.tlmm.pin out := by
  obtain ⟨hle, hled⟩ :=
    hscan.pins k' hk' out (List.mem_cons_of_mem _ (Option.mem_toList.mpr hout))
  refine h.pins out hle hled ?_
  rintro rfl
  exact hscan.apart k hk k' hk' hout

theorem RowsHigh.turned {b : Board} {delta : BitVec 64} {k : KeyName} {s s' : KeypadDevice}
    {isPressed : Bool} {keys : List KeyName} (hrows : RowsHigh cs keys s.tlmm)
    (h : Turned cs b delta k s s' isPressed) (hscan : Scannable cs)
    (hk : (cs k).scanned = true) : RowsHigh cs (keys ++ [k]) s'.tlmm := by
  intro k' hmem hk' out hout
  rw [h.row hscan hk hk' hout]
  rcases List.mem_append.mp hmem with hkeys | hlast
  · split
    · rfl
    · exact hrows k' hkeys hk' out hout
  · rw [List.mem_singleton.mp hlast] at hout
    exact if_pos hout

/-- **Turn of a poll.** -/
theorem Scanning.turn (hscan : Scannable cs) (hskip : skip ≤ 1)
    (h : Scanning cs skip polls next done s) {k : KeyName} (hnew : k ∉ done) :
    ∃ s', Keypad.turn (wires cs next.1) next.2 k s = (some (), s') ∧
      Scanning cs skip polls next (done ++ [k]) s' := by
  cases hk : (cs k).scanned with
  | false =>
    -- the key is not polled
    have hc : (s.contexts k).scanned = false := by
      rw [h.wired k]
      exact hk
    refine ⟨s, bind_of rfl (bind_of (getStatus_not_scanned _ hc s) rfl), h.wired, fun k' hk' => ?_,
      h.rows, fun k' hmem hk' => ?_, h.quiet⟩
    · have hne : k' ≠ k := by
        rintro rfl
        rw [hk] at hk'
        cases hk'
      simpa [hne] using h.history k' hk'
    · rcases List.mem_append.mp hmem with hdone | hlast
      · exact h.rowsDone k' hdone hk'
      · rw [List.mem_singleton.mp hlast, hk] at hk'
        cases hk'
  | true =>
    have hhistory := h.history k hk
    rw [if_neg hnew] at hhistory
    obtain ⟨s', isPressed, hrun, hturn⟩ :=
      turn_spec hscan h.wired hk hhistory.key next.1 next.2
    have hquiet : skip ≤ polls.length → Quiet cs s.tlmm := by
      intro hle
      rcases Nat.eq_zero_or_pos skip with hzero | hpos
      · exact h.quiet hzero
      · exact (h.rows (List.ne_nil_of_length_pos (by omega))).quiet
    refine ⟨s', hrun, ?_, fun k' hk' => ?_, fun hpolls => ?_, h.rowsDone.turned hturn hscan hk,
      fun hzero => ?_⟩
    · obtain ⟨events, context, -, hcontexts, -⟩ := hturn.takes
      rw [hcontexts]
      exact h.wired.update k context
    · by_cases hkk : k' = k
      · subst hkk
        simpa using hhistory.turned hturn hquiet
      · simpa [hkk] using (h.history k' hk').other hturn hkk
    · exact fun k' _ => (h.rows hpolls).turned hturn hscan hk k'
        (List.mem_append_left _ (mem_keyList k'))
    · intro k' hk' out hout
      rw [hturn.row hscan hk hk' hout]
      split
      · decide
      · exact h.quiet hzero k' hk' out hout

/-- The turns of the rest of a poll. -/
theorem Scanning.turns (hscan : Scannable cs) (hskip : skip ≤ 1) (rest : List KeyName)
    (hnodup : (done ++ rest).Nodup) (h : Scanning cs skip polls next done s) :
    ∃ s', forM rest (Keypad.turn (wires cs next.1) next.2) s = (some (), s') ∧
      Scanning cs skip polls next (done ++ rest) s' := by
  induction rest generalizing done s with
  | nil => exact ⟨s, rfl, by rwa [List.append_nil]⟩
  | cons k rest ih =>
    have hnew : k ∉ done := fun hmem =>
      (List.disjoint_of_nodup_append hnodup) hmem List.mem_cons_self
    obtain ⟨s₁, hturn, h₁⟩ := h.turn hscan hskip hnew
    rw [List.append_cons] at hnodup
    obtain ⟨s', hrest, h'⟩ := ih hnodup h₁
    refine ⟨s', ?_, by rwa [List.append_cons]⟩
    rw [List.forM_cons]
    exact bind_of hturn hrest

/-- **A poll.** -/
theorem Scanning.poll (hscan : Scannable cs) (hskip : skip ≤ 1)
    (h : Scanning cs skip polls next [] s) (later : Board × BitVec 64) :
    ∃ s', keypadDeviceImplGetKeys (wires cs next.1) next.2 s = (some (), s') ∧
      Scanning cs skip (polls ++ [next]) later [] s' := by
  obtain ⟨s', hrun, h'⟩ := h.turns hscan hskip keyList (keyList_nodup : ([] ++ keyList).Nodup)
  refine ⟨s', hrun, h'.wired, fun k hk => ?_, fun _ => h'.rowsDone,
    fun k hmem => absurd hmem List.not_mem_nil, h'.quiet⟩
  simpa [mem_keyList] using h'.history k hk

/-- Between polls: other pins, and the backlight. -/
theorem Scanning.frame (h : Scanning cs skip polls next [] s) (s' : KeypadDevice)
    (hcontexts : s'.contexts = s.contexts) (hpushed : s'.pushed = s.pushed)
    (hpins : ∀ k, (cs k).scanned = true → ∀ out ∈ (cs k).row, s'.tlmm.pin out = s.tlmm.pin out)
    (later : Board × BitVec 64) : Scanning cs skip polls later [] s' := by
  refine ⟨by rw [hcontexts]; exact h.wired, fun k hk => ?_, fun hpolls k hmem hk out hout => ?_,
    fun k hmem => absurd hmem List.not_mem_nil, fun hzero k hk out hout => ?_⟩
  · have hhistory := h.history k hk
    simp only [List.not_mem_nil, if_false] at hhistory ⊢
    exact hhistory.congr (by rw [hpushed]) (by rw [hcontexts])
  · rw [hpins k hk out hout]
    exact h.rows hpolls k hmem hk out hout
  · rw [hpins k hk out hout]
    exact h.quiet hzero k hk out hout

end Scanning

/-! ### Runs -/

section Runs

variable {device : DeviceType}

/-- **Step lemma.** -/
theorem Scanning.exec {skip : Nat} (hskip : skip ≤ 1) {polls : List (Board × BitVec 64)}
    {s : KeypadDevice} (h : ∀ next, Scanning (startContexts device) skip polls next [] s)
    (e : KeypadEvent device) : ∃ s', e.exec s = (some (), s') ∧
      ∀ next, Scanning (startContexts device) skip (countPoll polls e) next [] s' := by
  have hscan := startContexts_scannable device
  have hrow : ∀ k, (startContexts device k).scanned = true →
      ∀ out ∈ (startContexts device k).row, out ∈ (startContexts device k).pins ∧
        out ≤ 164 ∧ out ≠ htcleoGpioKpLed := by
    intro k hk out hout
    have hmem := List.mem_cons_of_mem (startContexts device k).sense (Option.mem_toList.mpr hout)
    exact ⟨hmem, hscan.pins k hk out hmem⟩
  have hrest : ∀ (s' : KeypadDevice), s'.contexts = s.contexts → s'.pushed = s.pushed →
      s'.tlmm = s.tlmm → ∀ next, Scanning (startContexts device) skip polls next [] s' :=
    fun s' hcontexts hpushed htlmm next =>
      (h next).frame s' hcontexts hpushed (fun _ _ _ _ => by rw [htlmm]) next
  cases e with
  | poll b delta =>
    obtain ⟨s', hrun, h'⟩ := (h (b, delta)).poll hscan hskip (b, delta)
    exact ⟨s', hrun, fun next => h'.frame s' rfl rfl (fun _ _ _ _ => rfl) next⟩
  | other op =>
    let s' : KeypadDevice := { s with tlmm := op.val.run s.tlmm }
    refine ⟨s', rfl, fun next => (h next).frame s' rfl rfl (fun k hk out hout => ?_) next⟩
    obtain ⟨hmem, hle, -⟩ := hrow k hk out hout
    have hne : op.val.number ≠ out := by
      rintro rfl
      exact op.property k hk hmem
    simpa [hne] using pin_run hle s.tlmm op.val
  | elapse time => exact ⟨_, rfl, hrest _ rfl rfl rfl⟩
  | expire event => exact ⟨_, rfl, hrest _ rfl rfl rfl⟩
  | deliver =>
    let s' : KeypadDevice := { s with
      backlight := execLed s.backlight .deliver
      tlmm := if s.backlight.queued = [] then s.tlmm else gpioSet htcleoGpioKpLed 0 s.tlmm }
    refine ⟨s', rfl, fun next => (h next).frame s' rfl rfl (fun k hk out hout => ?_) next⟩
    obtain ⟨-, hle, hled⟩ := hrow k hk out hout
    dsimp only [s']
    split
    · rfl
    · simpa [Op.run, Op.number, Ne.symm hled] using pin_run hle s.tlmm (.set htcleoGpioKpLed 0)

/-- How many polls may misread a switch: one, if some row is driven low at the start. -/
def unsettled (device : DeviceType) (t : Tlmm) : Nat :=
  if Quiet (startContexts device) t then 0 else 1

/-- **The keys.**  On every device, from every content of the GPIO registers, and in every run of
    polls, GPIO calls of other drivers and timer events: every poll completes, and each key goes
    through `LibKeyUpdateKeyStatus` once for each poll, with the time of the poll and the position
    of its own switch.  Only the first poll may misread, if a row is driven low at the start; after
    it every row is driven high between the polls. -/
theorem keypad_scan (device : DeviceType) (t : Tlmm) (events : List (KeypadEvent device)) :
    ∃ s, forM events KeypadEvent.exec (KeypadDevice.start device t) = (some (), s) ∧
      (pollsOf events ≠ [] → RowsHigh (startContexts device) keyList s.tlmm) ∧
      ∀ k, (startContexts device k).scanned = true →
        ∃ samples : List Sample,
          run (libKeyInitializeKeyContext ⟨keyOf k, 0, 0⟩) samples
            = some (s.pushed k, (s.contexts k).efiKeyContext) ∧
          samples.map Sample.delta = (pollsOf events).map Prod.snd ∧
          (samples.map Sample.isPressed).drop (unsettled device t)
            = ((pollsOf events).map fun p => p.1.closed k).drop (unsettled device t) := by
  have hskip : unsettled device t ≤ 1 := by
    unfold unsettled
    split <;> omega
  have hstart : ∀ next, Scanning (startContexts device) (unsettled device t) [] next []
      (KeypadDevice.start device t) := by
    refine fun next => ⟨fun k => rfl, fun k _ => ⟨[], rfl, rfl, rfl⟩, fun h => absurd rfl h,
      fun k hmem => absurd hmem List.not_mem_nil, fun hzero => ?_⟩
    unfold unsettled at hzero
    split at hzero
    · assumption
    · omega
  let Inv (polls : List (Board × BitVec 64)) (s : KeypadDevice) : Prop :=
    ∀ next, Scanning (startContexts device) (unsettled device t) polls next [] s
  have hstep : ∀ polls (e : KeypadEvent device),
      Completes (Inv polls) e.exec fun _ => Inv (countPoll polls e) := by
    intro polls e s hs
    obtain ⟨s', hrun, h'⟩ := Scanning.exec hskip hs e
    exact ⟨(), s', hrun, h'⟩
  obtain ⟨⟨⟩, s, hrun, h⟩ :=
    Completes.forM_foldl Inv hstep events [] (KeypadDevice.start device t) hstart
  have hend := h (⟨fun _ => false, fun _ => false⟩, 0)
  refine ⟨s, hrun, hend.rows, fun k hk => ?_⟩
  simpa [pollsOf, History] using hend.history k hk

end Runs

end HtcLeo.Keypad

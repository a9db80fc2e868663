import HtcLeo.Keypad.Press

namespace HtcLeo.Keypad

/-!
# The events of a press

The runs of `LibKeyUpdateKeyStatus` over the parts of a press, and from them over presses.

* `advanceAll_idle`, `advanceAll_repeats`, `advanceAll_quiet`, `advanceAll_held` — released
  samples between presses, and the three kinds of pressed samples.
* `advanceAll_release` — the released samples after a long press end it once 10 ms have passed.
* `advanceAll_press` — a press leads to its events, and, released long enough, back to an idle
  context.
* `press_events` — the same over every sequence of presses.
-/

variable {key : KeyData}

/-! ### Times -/

@[simp] theorem totalNs_nil : totalNs [] = 0 := rfl

@[simp] theorem totalNs_cons (s : Sample) (samples : List Sample) :
    totalNs (s :: samples) = s.ns + totalNs samples := by
  simp [totalNs]

/-- A sum that fits is the sum of the numbers. -/
theorem toNat_add_of_lt {t d : BitVec 64} (h : t.toNat + d.toNat < 2 ^ 64) :
    (t + d).toNat = t.toNat + d.toNat := by
  rw [BitVec.toNat_add, Nat.mod_eq_of_lt h]

/-- Comparing a sum that fits with a number of milliseconds. -/
theorem ms2ns_le_iff {t d : BitVec 64} (h : t.toNat + d.toNat < 2 ^ 64) {ms : Nat}
    (hms : ms ≤ 500) : ms2ns ms ≤ t + d ↔ ms * 1000000 ≤ t.toNat + d.toNat := by
  have hns : (ms2ns ms).toNat = ms * 1000000 := by
    have hlt : ms * 1000000 < 2 ^ 64 := by
      omega
    rw [ms2ns, ← BitVec.ofNat_mul, BitVec.toNat_ofNat, Nat.mod_eq_of_lt hlt]
  rw [BitVec.le_def, hns, toNat_add_of_lt h]

theorem totalNs_append (samples samples' : List Sample) :
    totalNs (samples ++ samples') = totalNs samples + totalNs samples' := by
  simp [totalNs]

/-- A press whose whole time fits a `UINT64` fits. -/
theorem Press.fits_of_total (p : Press) (h : p.time + totalNs p.releasedRun < 2 ^ 64) :
    p.Fits := by
  intro before s after hrun _
  rw [hrun, totalNs_append, totalNs_cons] at h
  omega

/-! ### Between presses -/

/-- A released context with clear flags. -/
def KeyContext.Idle (key : KeyData) (context : KeyContext) : Prop :=
  ∃ t, context = ⟨key, t, .released, false, false⟩

theorem idle_mk (key : KeyData) (t : BitVec 64) :
    KeyContext.Idle key ⟨key, t, .released, false, false⟩ := ⟨t, rfl⟩

/-- Only the time of an idle context changes at released samples. -/
theorem advanceAll_idle {context : KeyContext} (h : context.Idle key) (samples : List Sample)
    (hreleased : ∀ s ∈ samples, s.isPressed = false) :
    ∃ context', advanceAll context samples = (samples.map fun _ => [], context') ∧
      context'.Idle key := by
  induction samples generalizing context with
  | nil => exact ⟨context, rfl, h⟩
  | cons s samples ih =>
    obtain ⟨t, rfl⟩ := h
    have hs := hreleased s List.mem_cons_self
    obtain ⟨context', hrun, hidle⟩ := ih
      (idle_mk key (t + s.delta)) fun s' hs' => hreleased s' (List.mem_cons_of_mem s hs')
    exact ⟨context', by simp [advanceAll, KeyContext.advance, hs, hrun], hidle⟩

/-! ### Pressed samples -/

variable (key) in
/-- A repeating key. -/
theorem advanceAll_repeats (samples : List Sample) (hpressed : ∀ s ∈ samples, s.isPressed = true)
    (t : BitVec 64) (hfits : t.toNat + totalNs samples < 2 ^ 64) :
    ∃ t' : BitVec 64, advanceAll ⟨key, t, .pressed, true, true⟩ samples
        = (repeats key t.toNat samples, ⟨key, t', .pressed, true, true⟩) ∧
      t'.toNat ≤ t.toNat + totalNs samples := by
  induction samples generalizing t with
  | nil => exact ⟨t, rfl, Nat.le_refl _⟩
  | cons s samples ih =>
    rw [totalNs_cons] at hfits
    have hs := hpressed s List.mem_cons_self
    have hrest : ∀ s' ∈ samples, s'.isPressed = true :=
      fun s' hs' => hpressed s' (List.mem_cons_of_mem s hs')
    have hsum : t.toNat + s.delta.toNat < 2 ^ 64 := by
      unfold Sample.ns at hfits
      omega
    have hcmp := ms2ns_le_iff hsum (by decide : 200 ≤ 500)
    by_cases hdue : 200000000 ≤ t.toNat + s.ns
    · -- an event, and the time starts anew
      obtain ⟨t', hrun, hle⟩ := ih hrest 0#64 (by simp; omega)
      have hle200 : ms2ns 200 ≤ t + s.delta := hcmp.mpr hdue
      refine ⟨t', ?_, ?_⟩
      · simp [advanceAll, KeyContext.advance, hs, hle200, repeats, hdue] at hrun ⊢
        simp [hrun]
      · simp at hle
        simp
        omega
    · have hlt200 : ¬ ms2ns 200 ≤ t + s.delta := mt hcmp.mp hdue
      have ht : (t + s.delta).toNat = t.toNat + s.ns := toNat_add_of_lt hsum
      obtain ⟨t', hrun, hle⟩ := ih hrest (t + s.delta) (by rw [ht]; omega)
      refine ⟨t', ?_, ?_⟩
      · rw [ht] at hrun
        simp [advanceAll, KeyContext.advance, hs, hlt200, repeats, hdue, hrun]
      · rw [ht] at hle
        simp
        omega

variable (key) in
/-- A long press that has had its event, or is part of a combination. -/
theorem advanceAll_quiet (samples : List Sample) (hpressed : ∀ s ∈ samples, s.isPressed = true)
    (t : BitVec 64) (hfits : t.toNat + totalNs samples < 2 ^ 64) :
    ∃ t' : BitVec 64, advanceAll ⟨key, t, .pressed, false, true⟩ samples
        = (samples.map fun _ => [], ⟨key, t', .pressed, false, true⟩) ∧
      t'.toNat ≤ t.toNat + totalNs samples := by
  induction samples generalizing t with
  | nil => exact ⟨t, rfl, Nat.le_refl _⟩
  | cons s samples ih =>
    rw [totalNs_cons] at hfits
    have hs := hpressed s List.mem_cons_self
    have ht : (t + s.delta).toNat = t.toNat + s.ns := toNat_add_of_lt (by
      unfold Sample.ns at hfits
      omega)
    obtain ⟨t', hrun, hle⟩ := ih (fun s' hs' => hpressed s' (List.mem_cons_of_mem s hs'))
      (t + s.delta) (by rw [ht]; omega)
    refine ⟨t', by simp [advanceAll, KeyContext.advance, hs, hrun], ?_⟩
    rw [ht] at hle
    simp
    omega

/-- How the held samples of a press end: still short, or long with one of the two flags. -/
def AfterHold (key : KeyData) (total : Nat) (context : KeyContext) : Prop :=
  (total < 500000000 ∧ ∃ t, context = ⟨key, t, .pressed, false, false⟩) ∨
  (500000000 ≤ total ∧ ∃ (t : BitVec 64) (keyRepeat : Bool),
    context = ⟨key, t, .pressed, keyRepeat, true⟩ ∧ t.toNat ≤ total)

variable (key) in
/-- **Held samples** lead to their events. -/
theorem advanceAll_held (samples : List Sample) (hpressed : ∀ s ∈ samples, s.isPressed = true)
    (t : BitVec 64) (ht : t.toNat < 500000000) (hfits : t.toNat + totalNs samples < 2 ^ 64) :
    ∃ context', advanceAll ⟨key, t, .pressed, false, false⟩ samples
        = (heldEvents key t.toNat samples, context') ∧
      AfterHold key (t.toNat + totalNs samples) context' := by
  induction samples generalizing t with
  | nil => exact ⟨_, rfl, Or.inl ⟨ht, t, rfl⟩⟩
  | cons s samples ih =>
    rw [totalNs_cons] at hfits ⊢
    have hs := hpressed s List.mem_cons_self
    have hrest : ∀ s' ∈ samples, s'.isPressed = true :=
      fun s' hs' => hpressed s' (List.mem_cons_of_mem s hs')
    have hsum : t.toNat + s.delta.toNat < 2 ^ 64 := by
      unfold Sample.ns at hfits
      omega
    have hts : (t + s.delta).toNat = t.toNat + s.ns := toNat_add_of_lt hsum
    have hcmp := ms2ns_le_iff hsum (by decide : 500 ≤ 500)
    by_cases hlong : 500000000 ≤ t.toNat + s.ns
    · have hle500 : ms2ns 500 ≤ t + s.delta := hcmp.mpr hlong
      have htotal : 500000000 ≤ t.toNat + (s.ns + totalNs samples) := by omega
      by_cases hquiet : key.isEnter = true ∨ (s.readings key.key).enter = true
      · -- Enter reports a combination once, another key held with Enter nothing
        obtain ⟨t', hrun, hle⟩ := advanceAll_quiet key samples hrest (t + s.delta)
          (by rw [hts]; omega)
        rw [hts] at hle
        refine ⟨_, ?_, Or.inr ⟨htotal, t', false, rfl, by omega⟩⟩
        by_cases henter : key.isEnter = true
        · simp [advanceAll, KeyContext.advance, hs, hle500, heldEvents, hlong, henter, hrun]
        · have hreading := hquiet.resolve_left henter
          simp [advanceAll, KeyContext.advance, hs, hle500, heldEvents, hlong, henter, hreading,
            hrun]
      · -- the first of the repeated events
        rw [not_or] at hquiet
        obtain ⟨t', hrun, hle⟩ := advanceAll_repeats key samples hrest 0#64
          (by simp; omega)
        simp only [BitVec.toNat_ofNat, Nat.zero_mod, Nat.zero_add] at hrun hle
        refine ⟨_, ?_, Or.inr ⟨htotal, t', true, rfl, by omega⟩⟩
        simp [advanceAll, KeyContext.advance, hs, hle500, heldEvents, hlong, hquiet.1, hquiet.2,
          hrun]
    · have hlt500 : ¬ ms2ns 500 ≤ t + s.delta := mt hcmp.mp hlong
      obtain ⟨context', hrun, hafter⟩ := ih hrest (t + s.delta) (by rw [hts]; omega)
        (by rw [hts]; omega)
      rw [hts] at hrun hafter
      refine ⟨context', ?_, by simpa [Nat.add_assoc] using hafter⟩
      simp [advanceAll, KeyContext.advance, hs, hlt500, heldEvents, hlong, hrun]

/-! ### Released samples -/

variable (key) in
/-- **Release of a long press.**  The samples push nothing, and once the time of the context has
    reached 10 ms the context is idle. -/
theorem advanceAll_release (samples : List Sample)
    (hreleased : ∀ s ∈ samples, s.isPressed = false) (t : BitVec 64) (keyRepeat : Bool)
    (hfits : ∀ before s after, samples = before ++ s :: after →
      before = [] ∨ t.toNat + totalNs before < 10000000 →
      t.toNat + totalNs before + s.ns < 2 ^ 64) :
    ∃ context', advanceAll ⟨key, t, .pressed, keyRepeat, true⟩ samples
        = (samples.map fun _ => [], context') ∧
      (samples ≠ [] → 10000000 ≤ t.toNat + totalNs samples → context'.Idle key) := by
  induction samples generalizing t with
  | nil => exact ⟨_, rfl, fun h => absurd rfl h⟩
  | cons s samples ih =>
    have hs := hreleased s List.mem_cons_self
    have hrest : ∀ s' ∈ samples, s'.isPressed = false :=
      fun s' hs' => hreleased s' (List.mem_cons_of_mem s hs')
    have hsum : t.toNat + s.delta.toNat < 2 ^ 64 := by
      simpa [Sample.ns] using hfits [] s samples rfl (Or.inl rfl)
    have hts : (t + s.delta).toNat = t.toNat + s.ns := toNat_add_of_lt hsum
    have hcmp := ms2ns_le_iff hsum (by decide : 10 ≤ 500)
    by_cases hdue : 10000000 ≤ t.toNat + s.ns
    · -- this sample completes the time
      have hle10 : ms2ns 10 ≤ t + s.delta := hcmp.mpr hdue
      obtain ⟨context', hrun, hidle⟩ :=
        advanceAll_idle (idle_mk key 0#64) samples hrest
      exact ⟨context', by simp [advanceAll, KeyContext.advance, hs, hle10, hrun], fun _ _ => hidle⟩
    · have hlt10 : ¬ ms2ns 10 ≤ t + s.delta := mt hcmp.mp hdue
      obtain ⟨context', hrun, hidle⟩ := ih hrest (t + s.delta) (by
        rintro before s' after rfl hbefore
        rw [hts] at hbefore ⊢
        have hearly : t.toNat + totalNs (s :: before) < 10000000 := by
          rw [totalNs_cons]
          rcases hbefore with rfl | hlt
          · simp
            omega
          · omega
        have hfit := hfits (s :: before) s' after rfl (Or.inr hearly)
        rw [totalNs_cons] at hfit
        omega)
      refine ⟨context', by simp [advanceAll, KeyContext.advance, hs, hlt10, hrun], ?_⟩
      intro _ htotal
      rw [totalNs_cons] at htotal
      apply hidle
      · -- without further samples the time would not be complete
        rintro rfl
        simp at htotal
        omega
      · rw [hts]
        omega

/-! ### Presses -/

/-- **Press lemma.**  From an idle context a press leads to its events, and, if it is separated
    from the next, to an idle context. -/
theorem advanceAll_press {context : KeyContext} (h : context.Idle key) (p : Press)
    (hfits : p.Fits) :
    ∃ context', advanceAll context p.samples = (p.events key, context') ∧
      (p.Separated → context'.Idle key) := by
  obtain ⟨t, rfl⟩ := h
  have hholdFits : p.time + p.release.ns < 2 ^ 64 := by
    simpa using hfits [] p.release p.idle rfl (by decide)
  obtain ⟨held, hheld, hafter⟩ := advanceAll_held key p.held p.held_pressed 0#64
    (by decide) (by
      unfold Press.time at hholdFits
      simp
      omega)
  simp only [BitVec.toNat_ofNat, Nat.zero_mod, Nat.zero_add] at hheld hafter
  -- the first sample starts the press, at time 0
  have hfirst : advanceAll ⟨key, t, .released, false, false⟩ (p.first :: p.held)
      = ([] :: heldEvents key 0 p.held, held) := by
    simp [advanceAll, KeyContext.advance, p.first_pressed, hheld]
  have hsamples : p.samples = (p.first :: p.held) ++ p.release :: p.idle := rfl
  rw [hsamples, advanceAll_append, hfirst]
  dsimp only
  rcases hafter with ⟨hshort, t', rfl⟩ | ⟨hlong, t', keyRepeat, rfl, hle⟩
  · -- a short press reports the key at its release, and the next sample ends it
    have hevents : p.events key
        = ([] :: heldEvents key 0 p.held) ++ [key] :: p.idle.map fun _ => [] := by
      have htime : p.time < 500000000 := hshort
      simp [Press.events, htime]
    cases hidle : p.idle with
    | nil =>
      refine ⟨⟨key, t' + p.release.delta, .longpressRelease, false, false⟩, ?_, ?_⟩
      · simp [advanceAll, KeyContext.advance, p.release_released, hevents, hidle]
      · intro hsep
        exact absurd hidle hsep.1
    | cons s idle =>
      obtain ⟨context', hrun, hdone⟩ :=
        advanceAll_idle (idle_mk key 0#64) idle fun s' hs' => p.idle_released s' (by
          rw [hidle]
          exact List.mem_cons_of_mem s hs')
      refine ⟨context', ?_, fun _ => hdone⟩
      simp [advanceAll, KeyContext.advance, p.release_released, hevents, hidle, hrun]
  · -- a long press reports nothing any more
    have hevents : p.events key
        = ([] :: heldEvents key 0 p.held) ++ p.releasedRun.map fun _ => [] := by
      have htime : ¬ p.time < 500000000 := Nat.not_lt.mpr hlong
      simp [Press.events, Press.releasedRun, htime]
    have hreleased : ∀ s ∈ p.releasedRun, s.isPressed = false := by
      simpa [Press.releasedRun, p.release_released] using p.idle_released
    obtain ⟨context', hrun, hidle⟩ := advanceAll_release key p.releasedRun hreleased t'
      keyRepeat (by
        intro before s after heq hbefore
        have hearly : totalNs before < 10000000 := by
          rcases hbefore with rfl | hlt
          · decide
          · omega
        have hfit := hfits before s after heq hearly
        unfold Press.time at hfit
        omega)
    refine ⟨context', ?_, ?_⟩
    · rw [hevents]
      unfold Press.releasedRun at hrun ⊢
      rw [hrun]
    · intro hsep
      apply hidle (List.cons_ne_nil _ _)
      exact Nat.le_trans hsep.2 (Nat.le_add_left _ _)

/-- **Run lemma.**  Presses separated from each other lead to their events. -/
theorem advanceAll_presses {context : KeyContext} (h : context.Idle key) (presses : List Press)
    (hseparated : ∀ p ∈ presses.dropLast, p.Separated) (hfits : ∀ p ∈ presses, p.Fits) :
    (advanceAll context (presses.flatMap Press.samples)).1
      = presses.flatMap (Press.events key) := by
  induction presses generalizing context with
  | nil => rfl
  | cons p presses ih =>
    obtain ⟨context', hrun, hidle⟩ := advanceAll_press h p (hfits p List.mem_cons_self)
    rw [List.flatMap_cons, List.flatMap_cons, advanceAll_append, hrun]
    cases presses with
    | nil => simp [advanceAll]
    | cons q presses =>
      rw [List.dropLast_cons_of_ne_nil (List.cons_ne_nil q presses)] at hseparated
      have hsep := hseparated p List.mem_cons_self
      rw [ih (hidle hsep) (fun r hr => hseparated r (List.mem_cons_of_mem p hr))
        fun r hr => hfits r (List.mem_cons_of_mem p hr)]

/-! ### What the events are -/

variable (key) in
/-- No held sample of a short press has an event. -/
theorem heldEvents_short (samples : List Sample) (time : Nat)
    (h : time + totalNs samples < 500000000) :
    heldEvents key time samples = samples.map fun _ => [] := by
  induction samples generalizing time with
  | nil => rfl
  | cons s samples ih =>
    rw [totalNs_cons] at h
    have hshort : ¬ 500000000 ≤ time + s.ns := by omega
    simp [heldEvents, hshort, ih (time + s.ns) (by omega)]

/-- The held samples of a long press of Enter have one event, a combination. -/
theorem heldEvents_enter (henter : key.isEnter = true) (samples : List Sample) (time : Nat)
    (ht : time < 500000000) (h : 500000000 ≤ time + totalNs samples) :
    ∃ r, (heldEvents key time samples).flatten = [comboKey r] := by
  induction samples generalizing time with
  | nil =>
    simp at h
    omega
  | cons s samples ih =>
    rw [totalNs_cons] at h
    by_cases hlong : 500000000 ≤ time + s.ns
    · exact ⟨s.readings key.key, by simp [heldEvents, hlong, henter]⟩
    · obtain ⟨r, hr⟩ := ih (time + s.ns) (by omega) (by omega)
      exact ⟨r, by simp [heldEvents, hlong, hr]⟩

/-- A short press has one event, the key. -/
theorem Press.events_short (p : Press) (h : p.time < 500000000) :
    (p.events key).flatten = [key] := by
  have hheld := heldEvents_short key p.held 0 (by simpa [Press.time] using h)
  simp [Press.events, h, hheld]

/-- A long press of Enter has one event, a combination. -/
theorem Press.events_enter (henter : key.isEnter = true) (p : Press) (h : 500000000 ≤ p.time) :
    ∃ r, (p.events key).flatten = [comboKey r] := by
  obtain ⟨r, hr⟩ := heldEvents_enter henter p.held 0 (by decide)
    (by simpa [Press.time] using h)
  exact ⟨r, by simp [Press.events, Nat.not_lt.mpr h, hr]⟩

/-! ### Contexts of the driver -/

/-- Outside the pressed state the flags are clear, and a repeating press is a long one. -/
structure KeyContext.Consistent (context : KeyContext) : Prop where
  clear : context.state = .pressed ∨ context.keyRepeat = false ∧ context.longpress = false
  long : context.keyRepeat = true → context.longpress = true

/-- Each branch that leaves the pressed state clears the flags, or has found them clear. -/
theorem KeyContext.Consistent.advance {context : KeyContext} (h : context.Consistent)
    (r : Readings) (isPressed : Bool) (delta : BitVec 64) :
    (context.advance r isPressed delta).2.Consistent := by
  obtain ⟨key, time, state, keyRepeat, longpress⟩ := context
  obtain ⟨hclear, hlong⟩ := h
  cases state with
  | released =>
    obtain ⟨rfl, rfl⟩ : keyRepeat = false ∧ longpress = false := by simpa using hclear
    cases isPressed <;> constructor <;> simp [KeyContext.advance]
  | pressed =>
    cases keyRepeat <;> cases longpress <;> simp at hlong
    all_goals
      simp only [KeyContext.advance]
      split_ifs <;> constructor <;> simp_all
  | longpressRelease => constructor <;> simp [KeyContext.advance]

theorem KeyContext.Consistent.advanceAll {context : KeyContext} (h : context.Consistent)
    (samples : List Sample) : (advanceAll context samples).2.Consistent := by
  induction samples generalizing context with
  | nil => exact h
  | cons s samples ih => exact ih (h.advance _ _ _)

theorem advanceAll_keyData (context : KeyContext) (samples : List Sample) :
    (advanceAll context samples).2.keyData = context.keyData := by
  induction samples generalizing context with
  | nil => rfl
  | cons s samples ih => simp [Keypad.advanceAll, ih]

/-- A context the driver can come to: initialised for a key, then used for any samples. -/
def Reachable (key : KeyData) (context : KeyContext) : Prop :=
  ∃ samples events, run (libKeyInitializeKeyContext key) samples = some (events, context)

/-- A reachable context in the released state is idle. -/
theorem Reachable.idle {context : KeyContext} (h : Reachable key context)
    (hreleased : context.state = .released) : context.Idle key := by
  obtain ⟨samples, events, hrun⟩ := h
  have hinit : (libKeyInitializeKeyContext key).Consistent := ⟨Or.inr ⟨rfl, rfl⟩, nofun⟩
  have hpair := run_eq hrun
  have hcontext : context = (advanceAll (libKeyInitializeKeyContext key) samples).2 := by
    rw [← hpair]
  have hconsistent := hinit.advanceAll samples
  have hkey := advanceAll_keyData (libKeyInitializeKeyContext key) samples
  rw [← hcontext] at hconsistent hkey
  obtain ⟨keyData, time, state, keyRepeat, longpress⟩ := context
  obtain rfl : state = .released := hreleased
  obtain ⟨rfl, rfl⟩ : keyRepeat = false ∧ longpress = false := by
    simpa using hconsistent.clear
  exact ⟨time, by rw [show keyData = key from hkey]⟩

/-! ### The law -/

/-- **Key events.**  From every reachable context in the released state, over every sequence of
    samples (a released run, presses, and pressed samples of a press not yet completed) in which
    each press is separated from the next and fits a `UINT64`, the function pushes at each sample
    of a completed press what the press is meant to lead to, and nothing before the first press.
    A key whose `KeySetState` stays inside the bitmaps always has a result. -/
theorem press_events {context : KeyContext} (hreach : Reachable key context)
    (hreleased : context.state = .released) (lead : List Sample) (presses : List Press)
    (tail : List Sample) (hlead : ∀ s ∈ lead, s.isPressed = false)
    (hseparated : ∀ p ∈ presses.dropLast, p.Separated) (hfits : ∀ p ∈ presses, p.Fits) :
    ((unicodeTracked key.key = true → key.key.scanCode.toNat < 128) →
      (run context (lead ++ presses.flatMap Press.samples ++ tail)).isSome = true) ∧
    ∀ events context',
      run context (lead ++ presses.flatMap Press.samples ++ tail) = some (events, context') →
      ∃ later, events
        = (lead.map fun _ => []) ++ presses.flatMap (Press.events key) ++ later := by
  have hidle := hreach.idle hreleased
  constructor
  · intro hin
    obtain ⟨t, rfl⟩ := hidle
    exact run_isSome hin _
  · intro events context' hrun
    obtain ⟨context₁, hrunLead, hidle₁⟩ := advanceAll_idle hidle lead hlead
    have hpresses := advanceAll_presses hidle₁ presses hseparated hfits
    have hpair := run_eq hrun
    rw [advanceAll_append, advanceAll_append, hrunLead] at hpair
    dsimp only at hpair
    rw [hpresses] at hpair
    exact ⟨_, congrArg Prod.fst hpair⟩

/-- The 50 ms press of a key, and two released samples of 10 ms. -/
def tap : Press :=
  let sample (isPressed : Bool) (ms : Nat) : Sample := ⟨isPressed, ms2ns ms, KeyMaps.zero⟩
  ⟨sample true 10, [sample true 50], sample false 10, [sample false 10], rfl, by decide, rfl,
    by decide⟩

theorem press_events_tap :
    ∃ events context' later, run (libKeyInitializeKeyContext gKeyDataPowerUp) tap.samples
        = some (events, context') ∧ events = tap.events gKeyDataPowerUp ++ later := by
  have hfits : ∀ p ∈ [tap], p.Fits := by
    intro p hp
    obtain rfl : p = tap := by simpa using hp
    apply Press.fits_of_total
    simp [tap, Press.time, Press.releasedRun, Sample.ns, ms2ns]
  have hreach : Reachable gKeyDataPowerUp (libKeyInitializeKeyContext gKeyDataPowerUp) :=
    ⟨[], [], rfl⟩
  have hlaw := press_events hreach rfl [] [tap] [] (by simp) (by simp) hfits
  obtain ⟨⟨events, context'⟩, hrun⟩ := Option.isSome_iff_exists.mp (hlaw.1 (by decide))
  obtain ⟨later, hlater⟩ := hlaw.2 events context' hrun
  exact ⟨events, context', later, by simpa using hrun, by simpa using hlater⟩

end HtcLeo.Keypad

import HtcLeo.Sirc.Dispatch
import HtcLeo.Lib.Runs

namespace HtcLeo.Sirc

open Runs

/-!
# SircDxe — registration under interrupts

Runs of `SircRegisterLine` calls in which an interrupt can be taken between any two of the
individual stores of a call.

* `System` — the driver, the stores the call in progress has still to make, and (ghost) for
  each line the context given together with the handler that is installed.
* `call_uninterrupted` — a call whose stores are all made without an interrupt is
  `sircRegisterLine`.
* `Safe` — every enabled line has a handler, and whatever the hardware raises, every call the
  interrupt handler makes passes the context given with that handler.
* `Progress` — where a call in progress stands; it is kept by every step.
* `KeepsSafe` — the condition on a call that decides whether it opens an unsafe window
  (`step_safe_iff`): the line is not enabled, or is registered anew with the context it has.
-/

variable {H C : Type}

/-- The driver in the middle of a call. -/
structure System (H C : Type) where
  drv : SircDxe H C
  /-- Stores of the call in progress still to be made. -/
  pending : List (Store H C)
  /-- The context given in the registration call that installed the line's handler. -/
  given : Fin numLines → Option C

/-- What happens next. -/
inductive Event (H C : Type)
  /-- `SircRegisterLine` is called, and makes its first store. -/
  | call (line flags : U32) (handler : Option H) (context : Option C)
  /-- The call in progress makes its next store. -/
  | store
  /-- The lines of `raw` are pending and the interrupt is taken. -/
  | irq (raw : U32)

/-- The driver with the lines of `raw` pending. -/
def SircDxe.raising (d : SircDxe H C) (raw : U32) : SircDxe H C :=
  { d with regs := Function.update d.regs .rawStatus raw }

/-- One event.  Calls do not nest: a call begins when the one before it is finished. -/
def Event.step (s : System H C) : Event H C → System H C
  | .call line flags handler context =>
      match s.pending with
      | _ :: _ => s
      | [] =>
          -- past the table `SircRegisterLine` returns `EFI_OUT_OF_RESOURCES`
          if h : line.toNat < numLines then
            let l : Fin numLines := ⟨line.toNat, h⟩
            { drv := Store.exec s.drv (.handler l handler)
              pending := laterStores l flags handler context
              given := if handler.isSome then Function.update s.given l context else s.given }
          else s
  | .store =>
      match s.pending with
      | []      => s
      | st :: ps => { s with drv := st.exec s.drv, pending := ps }
  | .irq raw => { s with drv := (sircInterruptHandler (s.drv.raising raw)).2 }

/-- The stores of a call, one after the other. -/
theorem stores_run (stores : List (Store H C)) {s : System H C} (hs : s.pending = stores) :
    (List.replicate stores.length Event.store).foldl Event.step s
      = { s with drv := stores.foldl Store.exec s.drv, pending := [] } := by
  induction stores generalizing s with
  | nil =>
    obtain ⟨drv, pending, given⟩ := s
    obtain rfl : pending = [] := hs
    rfl
  | cons st stores ih =>
    have hstep : Event.store.step s = { s with drv := st.exec s.drv, pending := stores } := by
      simp only [Event.step, hs]
    rw [List.length_cons, List.replicate_succ, List.foldl_cons, hstep, ih rfl]
    rfl

/-- **A call without interrupts** does to the driver what `SircRegisterLine` does. -/
theorem call_uninterrupted {s : System H C} (hidle : s.pending = []) (line flags : U32)
    (handler : Option H) (context : Option C) :
    ∃ n s', (.call line flags handler context :: List.replicate n .store).foldl Event.step s = s' ∧
      s'.drv = (sircRegisterLine line flags handler context s.drv).2 ∧ s'.pending = [] := by
  by_cases hline : line.toNat < numLines
  · refine ⟨(laterStores ⟨line.toNat, hline⟩ flags handler context).length, _, rfl, ?_⟩
    have hcall : (Event.call line flags handler context).step s
        = { drv := Store.exec s.drv (.handler ⟨line.toNat, hline⟩ handler)
            pending := laterStores ⟨line.toNat, hline⟩ flags handler context
            given := if handler.isSome then
                Function.update s.given ⟨line.toNat, hline⟩ context
              else s.given } := by
      simp only [Event.step, hidle, dif_pos hline]
    rw [List.foldl_cons, hcall, stores_run _ rfl, sircRegisterLine, dif_pos hline]
    exact ⟨rfl, rfl⟩
  · refine ⟨0, _, rfl, ?_⟩
    have hcall : (Event.call line flags handler context).step s = s := by
      simp only [Event.step, hidle, dif_neg hline]
    rw [List.replicate_zero, List.foldl_cons, List.foldl_nil, hcall, sircRegisterLine,
      dif_neg hline]
    exact ⟨rfl, hidle⟩

/-- The system after `SircDxeInitialize`. -/
def initial (hw : SircRegs) : System H C where
  drv := sircDxeInitialize hw
  pending := []
  given := fun _ => none

/-- Every enabled line has a handler, and every call the interrupt handler would make now
    passes the context given in the same registration call as the handler. -/
structure Safe (s : System H C) : Prop where
  installed : ∀ line, lineEnabled s.drv line = true → (s.drv.mLine line).handler.isSome
  matching : ∀ raw, ∀ c ∈ (sircInterruptHandler (s.drv.raising raw)).1, c.context = s.given c.line

/-- The condition on one event: a call on an enabled line must be a registration, and with
    the context the line has. -/
def KeepsSafe (s : System H C) : Event H C → Prop
  | .call line _ handler context =>
      ∀ h : line.toNat < numLines, s.pending = [] → lineEnabled s.drv ⟨line.toNat, h⟩ = true →
        handler.isSome = true ∧ (s.drv.mLine ⟨line.toNat, h⟩).context = context
  | _ => True

/-! ### Safety, line by line -/

/-- What safety asks of one line. -/
def LineSafe (s : System H C) (line : Fin numLines) : Prop :=
  lineEnabled s.drv line = true →
    (s.drv.mLine line).handler.isSome = true ∧ (s.drv.mLine line).context = s.given line

/-- The status the handler reads shows the pending lines that are enabled. -/
theorem status_raising (d : SircDxe H C) (hsel : d.regs .intSelect = 0#32) (raw : U32)
    (line : Fin numLines) :
    (mmioRead32 .irq0Status (d.raising raw).regs).getLsbD line
      = (raw.getLsbD line && lineEnabled d line) := by
  have hlt : (line : Nat) < 32 := lt_trans line.isLt (by decide)
  have hen : (d.raising raw).regs .intEnable = d.regs .intEnable := by simp [SircDxe.raising]
  have hse : (d.raising raw).regs .intSelect = d.regs .intSelect := by simp [SircDxe.raising]
  have hraw : (d.raising raw).regs .rawStatus = raw := by simp [SircDxe.raising]
  simp only [mmioRead32, hen, hse, hraw, hsel, BitVec.getLsbD_and, BitVec.getLsbD_not,
    BitVec.getLsbD_zero, hlt, lineEnabled]
  simp

/-- With every line routed to IRQ0, safety is safety of every line. -/
theorem safe_iff (s : System H C) (hsel : s.drv.regs .intSelect = 0#32) :
    Safe s ↔ ∀ line, LineSafe s line := by
  have hmem : ∀ raw c, c ∈ (sircInterruptHandler (s.drv.raising raw)).1 ↔
      ∃ line, lineCall (s.drv.raising raw)
        (mmioRead32 .irq0Status (s.drv.raising raw).regs) line = some c := by
    intro raw c
    rw [interrupt_calls, List.mem_filterMap]
    simp
  refine ⟨fun hs line hen => ⟨hs.installed line hen, ?_⟩, fun hl => ⟨?_, ?_⟩⟩
  · -- raise every line: the handler then calls this one
    obtain ⟨h, hh⟩ := Option.isSome_iff_exists.mp (hs.installed line hen)
    apply hs.matching (BitVec.allOnes 32) ⟨line, h, (s.drv.mLine line).context⟩
    rw [hmem]
    refine ⟨line, ?_⟩
    have hlt : (line : Nat) < 32 := lt_trans line.isLt (by decide)
    rw [lineCall, status_raising s.drv hsel, hen, BitVec.getLsbD_allOnes]
    simp only [hlt, decide_true, Bool.and_self, if_true]
    rw [show (s.drv.raising (BitVec.allOnes 32)).mLine line = s.drv.mLine line from rfl, hh]
    rfl
  · exact fun line hen => (hl line hen).1
  · intro raw c hc
    obtain ⟨line, hcall⟩ := (hmem raw c).mp hc
    rw [lineCall, status_raising s.drv hsel] at hcall
    split at hcall
    · rename_i hbit
      rw [Bool.and_eq_true] at hbit
      obtain ⟨h, _, rfl⟩ := Option.map_eq_some_iff.mp hcall
      exact (hl line hbit.2).2
    · simp at hcall

/-! ### The invariant -/

/-- Where the call in progress stands.  `stored` says that the context has been stored. -/
inductive Progress (s : System H C) : Prop
  | idle (h : s.pending = [])
  | storing (line : Fin numLines) (flags : U32) (handler : Option H) (context : Option C)
      (done : Nat)
      (pending : s.pending = (laterStores line flags handler context).drop done)
      (installed : (s.drv.mLine line).handler = handler)
      (given : handler.isSome = true → s.given line = context)
      (stored : 0 < done → handler.isSome = true → (s.drv.mLine line).context = context)

/-- The invariant: every line is routed to IRQ0, and a call in progress is where it is. -/
structure Inv (s : System H C) : Prop where
  select : s.drv.regs .intSelect = 0#32
  progress : Progress s

theorem initial_inv (hw : SircRegs) : Inv (initial hw : System H C) where
  select := by simp [initial, sircDxeInitialize, mmioWrite32]
  progress := .idle rfl

theorem initial_lineSafe (hw : SircRegs) (line : Fin numLines) :
    LineSafe (initial hw : System H C) line := by
  intro hen
  simp [initial, sircDxeInitialize, mmioWrite32, lineEnabled] at hen

/-! ### The stores of a call -/

/-- The context a call stores: `NULL` when it unregisters. -/
def storedContext (handler : Option H) (context : Option C) : Option C :=
  if handler.isSome then context else none

/-- The store of the context comes right after the store of the handler. -/
theorem laterStores_eq (line : Fin numLines) (flags : U32) (handler : Option H)
    (context : Option C) :
    laterStores line flags handler context
      = .context line (storedContext handler context)
        :: (laterStores line flags handler context).tail := by
  cases handler <;> rfl

/-- The stores after it write registers only; they keep the routing, and enable no line
    unless it is the one being registered. -/
theorem exec_tail {line : Fin numLines} {flags : U32} {handler : Option H} {context : Option C}
    {st : Store H C} (hst : st ∈ (laterStores line flags handler context).tail)
    (d : SircDxe H C) :
    (st.exec d).mLine = d.mLine ∧
    (st.exec d).regs .intSelect = d.regs .intSelect ∧
    ∀ l, lineEnabled (st.exec d) l = true →
      lineEnabled d l = true ∨ handler.isSome = true ∧ l = line := by
  have hclear : ∀ l, lineEnabled (Store.exec d (.write .intEnclear (lineBit line))) l = true →
      lineEnabled d l = true := by
    intro l hl
    rw [exec_enclear_lineEnabled, Bool.and_eq_true] at hl
    exact hl.1
  cases handler with
  | none =>
    simp only [laterStores, List.tail_cons, List.mem_singleton] at hst
    subst hst
    exact ⟨rfl, by simp [Store.exec, mmioWrite32], fun l hl => Or.inl (hclear l hl)⟩
  | some h =>
    simp only [laterStores, List.tail_cons, List.mem_cons, List.not_mem_nil, or_false] at hst
    rcases hst with rfl | rfl | rfl | rfl
    · exact ⟨rfl, by simp [Store.exec, mmioWrite32], fun l hl => Or.inl (hclear l hl)⟩
    · -- the type register
      obtain ⟨hm, hsel, hen⟩ :=
        exec_modify_frame d (Or.inl rfl) (ite_eq_or_eq (flags &&& sircEdge ≠ 0#32) _ _)
      exact ⟨hm, hsel, fun l hl => Or.inl (hen l ▸ hl)⟩
    · -- the polarity register
      obtain ⟨hm, hsel, hen⟩ :=
        exec_modify_frame d (Or.inr rfl) (ite_eq_or_eq (flags &&& sircNegative ≠ 0#32) _ _)
      exact ⟨hm, hsel, fun l hl => Or.inl (hen l ▸ hl)⟩
    · -- the last store enables the line of the call
      refine ⟨rfl, by simp [Store.exec, mmioWrite32], fun l hl => ?_⟩
      rw [exec_enset_lineEnabled, Bool.or_eq_true, decide_eq_true_eq] at hl
      exact hl.imp id fun h => ⟨rfl, h⟩

/-- A store that is still to be made is one of a call in progress. -/
theorem Progress.storing_of_pending {s : System H C} {st : Store H C} {ps : List (Store H C)}
    (h : Progress s) (hpend : s.pending = st :: ps) :
    ∃ line flags handler context done,
      st :: ps = (laterStores line flags handler context).drop done ∧
      (s.drv.mLine line).handler = handler ∧
      (handler.isSome = true → s.given line = context) ∧
      (0 < done → handler.isSome = true → (s.drv.mLine line).context = context) := by
  cases h with
  | idle hidle =>
    rw [hpend] at hidle
    exact absurd hidle (List.cons_ne_nil _ _)
  | storing line flags handler context done hpending hinst hgiven hstored =>
    exact ⟨line, flags, handler, context, done, hpend ▸ hpending, hinst, hgiven, hstored⟩

/-- What the next store of a call in progress is: the store of the context, or one of the
    register writes after it. -/
theorem pending_cases {line : Fin numLines} {flags : U32} {handler : Option H}
    {context : Option C} {done : Nat} {st : Store H C} {ps : List (Store H C)}
    (h : st :: ps = (laterStores line flags handler context).drop done) :
    ps = (laterStores line flags handler context).drop (done + 1) ∧
    (done = 0 ∧ st = .context line (storedContext handler context) ∨
      0 < done ∧ st ∈ (laterStores line flags handler context).tail) := by
  have hps : ps = (laterStores line flags handler context).drop (done + 1) := by
    rw [← List.tail_drop, ← h]
    rfl
  refine ⟨hps, ?_⟩
  cases done with
  | zero =>
    rw [List.drop_zero, laterStores_eq] at h
    exact Or.inl ⟨rfl, (List.cons.inj h).1⟩
  | succ done =>
    refine Or.inr ⟨Nat.succ_pos done, ?_⟩
    rw [← List.drop_one]
    rw [Nat.add_comm, ← List.drop_drop] at h
    exact List.mem_of_mem_drop (h ▸ List.mem_cons_self)

/-! ### One event -/

theorem call_inv (s : System H C) (line flags : U32) (handler : Option H) (context : Option C)
    (hs : Inv s) : Inv (Event.step s (.call line flags handler context)) := by
  simp only [Event.step]
  split
  · exact hs
  · split
    · -- the first store installs the handler
      refine ⟨hs.select, .storing ⟨line.toNat, ‹_›⟩ flags handler context 0 rfl ?_ ?_ ?_⟩
      · simp [Store.exec]
      · intro hsome
        simp [hsome]
      · intro h
        exact absurd h (Nat.lt_irrefl 0)
    · exact hs

theorem store_inv (s : System H C) (hs : Inv s) : Inv (Event.store.step s) := by
  simp only [Event.step]
  split
  · exact hs
  · rename_i st ps hpend
    obtain ⟨line, flags, handler, context, done, hpending, hinst, hgiven, hstored⟩ :=
      hs.progress.storing_of_pending hpend
    obtain ⟨hps, ⟨rfl, rfl⟩ | ⟨hdone, hmem⟩⟩ := pending_cases hpending
    · -- the store of the context
      refine ⟨hs.select, .storing line flags handler context 1 hps ?_ hgiven ?_⟩
      · simpa [Store.exec] using hinst
      · intro _ hsome
        simp [Store.exec, storedContext, hsome]
    · -- a register write
      obtain ⟨hm, hsel, _⟩ := exec_tail hmem s.drv
      refine ⟨hsel.trans hs.select,
        .storing line flags handler context (done + 1) hps ?_ hgiven ?_⟩
      · rw [hm]
        exact hinst
      · intro _ hsome
        rw [hm]
        exact hstored hdone hsome

theorem irq_inv (s : System H C) (raw : U32) (hs : Inv s) : Inv (Event.step s (.irq raw)) := by
  obtain ⟨hm, hregs⟩ := interrupt_frame (s.drv.raising raw)
  constructor
  · show (sircInterruptHandler (s.drv.raising raw)).2.regs .intSelect = 0#32
    rw [hregs .intSelect (by decide)]
    simpa [SircDxe.raising] using hs.select
  · rcases hs.progress with hidle | ⟨line, flags, handler, context, done, hpending, hinst,
      hgiven, hstored⟩
    · exact .idle hidle
    · refine .storing line flags handler context done hpending ?_ hgiven ?_
      · show ((sircInterruptHandler (s.drv.raising raw)).2.mLine line).handler = handler
        rw [hm]
        exact hinst
      · show _ → _ → ((sircInterruptHandler (s.drv.raising raw)).2.mLine line).context = context
        rw [hm]
        exact hstored

/-- Every event keeps the invariant. -/
theorem step_inv (s : System H C) (e : Event H C) (hs : Inv s) : Inv (e.step s) := by
  cases e with
  | call line flags handler context => exact call_inv s line flags handler context hs
  | store   => exact store_inv s hs
  | irq raw => exact irq_inv s raw hs

/-- A later store of a call keeps every line safe. -/
theorem store_lineSafe (s : System H C) (hs : Inv s) (hsafe : ∀ line, LineSafe s line)
    (l : Fin numLines) : LineSafe (Event.store.step s) l := by
  simp only [Event.step]
  split
  · exact hsafe l
  · rename_i st ps hpend
    obtain ⟨line, flags, handler, context, done, hpending, hinst, hgiven, hstored⟩ :=
      hs.progress.storing_of_pending hpend
    obtain ⟨_, ⟨_, rfl⟩ | ⟨hdone, hmem⟩⟩ := pending_cases hpending
    · intro hen
      obtain ⟨hhandler, hcontext⟩ := hsafe l hen
      by_cases hl : l = line
      · -- an enabled line: its handler is the one of this call, which gives the context
        subst hl
        have hsome : handler.isSome = true := hinst ▸ hhandler
        refine ⟨by simpa [Store.exec] using hhandler, ?_⟩
        simp [Store.exec, storedContext, hsome, hgiven hsome]
      · simpa [Store.exec, Function.update_of_ne hl] using And.intro hhandler hcontext
    · obtain ⟨hm, _, henabled⟩ := exec_tail hmem s.drv
      intro hen
      show ((st.exec s.drv).mLine l).handler.isSome = true ∧
        ((st.exec s.drv).mLine l).context = s.given l
      rw [hm]
      rcases henabled l hen with hold | ⟨hsome, rfl⟩
      · exact hsafe l hold
      · exact ⟨by rw [hinst]; exact hsome, by rw [hstored hdone hsome, hgiven hsome]⟩

/-- The interrupt handler leaves the lines as they are. -/
theorem irq_lineSafe (s : System H C) (raw : U32) (l : Fin numLines) :
    LineSafe (Event.step s (.irq raw)) l ↔ LineSafe s l := by
  obtain ⟨hm, hregs⟩ := interrupt_frame (s.drv.raising raw)
  have hen : lineEnabled (sircInterruptHandler (s.drv.raising raw)).2 l
      = lineEnabled s.drv l := by
    rw [lineEnabled, hregs .intEnable (by decide)]
    simp [SircDxe.raising, lineEnabled]
  simp only [LineSafe, Event.step, hm, hen]
  rfl

/-- The first store of a call keeps the lines safe exactly under `KeepsSafe`. -/
theorem call_lineSafe_iff (s : System H C) (hsafe : ∀ line, LineSafe s line)
    (line flags : U32) (handler : Option H) (context : Option C) :
    (∀ l, LineSafe (Event.step s (.call line flags handler context)) l) ↔
      KeepsSafe s (.call line flags handler context) := by
  by_cases hgo : s.pending = [] ∧ line.toNat < numLines
  · obtain ⟨hpend, hlt⟩ := hgo
    have hstep : Event.step s (.call line flags handler context)
        = { drv := Store.exec s.drv (.handler ⟨line.toNat, hlt⟩ handler)
            pending := laterStores ⟨line.toNat, hlt⟩ flags handler context
            given := if handler.isSome then Function.update s.given ⟨line.toNat, hlt⟩ context
              else s.given } := by
      simp only [Event.step, hpend, dif_pos hlt]
    rw [hstep]
    refine ⟨fun h _ _ hen => ?_, fun hkeep l hen => ?_⟩
    · -- the old context is what an interrupt now passes, the new one is what was given
      obtain ⟨hsome, hctx⟩ := h ⟨line.toNat, hlt⟩ hen
      simp only [Store.exec, Function.update_self] at hsome hctx
      refine ⟨hsome, ?_⟩
      rw [hctx, if_pos hsome, Function.update_self]
    · by_cases hl : l = ⟨line.toNat, hlt⟩
      · subst hl
        obtain ⟨hsome, hctx⟩ := hkeep hlt hpend hen
        simp [Store.exec, hsome, hctx]
      · -- the other lines are as they were
        have hold := hsafe l hen
        cases handler <;> simpa [Store.exec, Function.update_of_ne hl] using hold
  · -- a call in progress, or a line past the table: nothing happens
    have hstep : Event.step s (.call line flags handler context) = s := by
      simp only [Event.step]
      split
      · rfl
      · rename_i hpend
        rw [dif_neg fun hlt => hgo ⟨hpend, hlt⟩]
    rw [hstep]
    exact ⟨fun _ hlt hpend => absurd ⟨hpend, hlt⟩ hgo, fun _ => hsafe⟩

/-- **Step lemma.**  From a safe state an event leads to a safe state exactly when it meets
    `KeepsSafe`. -/
theorem step_safe_iff (s : System H C) (e : Event H C) (hs : Inv s) (hsafe : Safe s) :
    Safe (e.step s) ↔ KeepsSafe s e := by
  have hlines := (safe_iff s hs.select).mp hsafe
  rw [safe_iff _ (step_inv s e hs).select]
  cases e with
  | call line flags handler context => exact call_lineSafe_iff s hlines line flags handler context
  | store => exact ⟨fun _ => trivial, fun _ => store_lineSafe s hs hlines⟩
  | irq raw => exact ⟨fun _ => trivial, fun _ l => (irq_lineSafe s raw l).mpr (hlines l)⟩

/-! ### Runs -/

/-- **Registration under interrupts.**  A run from initialisation is safe in every state
    exactly when no call of it, made on an enabled line, unregisters the line or changes its
    context. -/
theorem registration_safe_iff (hw : SircRegs) (events : List (Event H C)) :
    Always Event.step Safe (initial hw) events ↔
      EveryStep Event.step KeepsSafe (initial hw) events := by
  have hinit : Safe (initial hw : System H C) :=
    (safe_iff _ (initial_inv hw).select).mpr (initial_lineSafe hw)
  rw [always_iff_everyStep (I := Inv) (fun s e hs => step_inv s e hs)
    (fun s e hs hsafe => step_safe_iff s e hs hsafe) (initial_inv hw)]
  exact and_iff_right hinit

/-- Line 9 registered with handler `false` and context `false`; then, up to the first store
    of the next call: unregistering leaves the line enabled without a handler, and registering
    handler `true` with context `true` lets the interrupt call `true` with context `false`. -/
theorem registered_line_unsafe :
    ¬ Always Event.step Safe (initial (fun _ => 0) : System Bool Bool)
        (.call 9 1 (some false) (some false) :: List.replicate 5 .store
          ++ [.call 9 0 none none]) ∧
    ¬ Always Event.step Safe (initial (fun _ => 0) : System Bool Bool)
        (.call 9 1 (some false) (some false) :: List.replicate 5 .store
          ++ [.call 9 1 (some true) (some true)]) := by
  refine ⟨fun h => ?_, fun h => ?_⟩
  · exact absurd (h.last.installed 9 (by decide)) (by decide)
  · exact absurd (h.last.matching (1#32 <<< 9) ⟨9, true, some false⟩ (by decide)) (by decide)

end HtcLeo.Sirc

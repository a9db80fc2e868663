import HtcLeo.Interrupt.Vic

namespace HtcLeo.Interrupt

open BitMask

/-!
# InterruptDxe — isolation of interrupt sources

`Source` ranges over all 32-bit values, and the driver accepts the values up to and
including `NR_IRQS`, which counts the virtual SIRC, GPIO, board and micro-P interrupts.
The VIC has two banks of 32 lines, chosen by `Source > 31` and `Source & 31`.

* `SourceIsolated source other` — every call on `source` either is refused and changes
  nothing, or acts on the slot and the VIC line of `source` only, inside the table and
  without touching the enabled state of another accepted source `other`.
* `Aliases source other` — the two sources select one VIC line.

`isolation_iff` states exactly which pairs are isolated.
-/

variable {H : Type}

/-- A call on one source. -/
inductive SourceOp (H : Type)
  | register (handler : Option H)
  | enable
  | disable
  | getState

/-- The call `op` on `source`: its status and the state it leaves. -/
def SourceOp.exec (source : U32) : SourceOp H → IrqDxe H → EfiStatus × IrqDxe H
  | .register handler, d => registerInterruptSource source handler d
  | .enable, d           => enableInterruptSource source d
  | .disable, d          => disableInterruptSource source d
  | .getState, d         => ((getInterruptSourceState source d).1, d)

/-- From `d` to `d'` nothing changed but the slot and the VIC line of `source`, and every
    access to the table was at `source`, within its `nrIrqs` entries. -/
structure ActsOnlyOn (source : U32) (d d' : IrqDxe H) : Prop where
  slots : ∀ i, i ≠ source.toNat →
    d'.gRegisteredInterruptHandlers i = d.gRegisteredInterruptHandlers i
  registers : ∀ r, r ≠ intEnReg source → d'.vic r = d.vic r
  bits : ∀ i, i ≠ source.toNat % 32 →
    (d'.vic (intEnReg source)).getLsbD i = (d.vic (intEnReg source)).getLsbD i
  inBounds : ∃ new, d'.accesses = new ++ d.accesses ∧
    ∀ i ∈ new, i = source.toNat ∧ i < nrIrqs

/-- What an accepted call does to the slot and the line of its source. -/
def SourceOp.Effect (source : U32) (d : IrqDxe H) (r : EfiStatus × IrqDxe H) : SourceOp H → Prop
  | .register handler => r.1 = .success →
      r.2.gRegisteredInterruptHandlers source.toNat = handler
  | .enable   => lineEnabled r.2 (vicLine source) = true
  | .disable  => lineEnabled r.2 (vicLine source) = false
  | .getState => (getInterruptSourceState source d).2
      = some (!(d.vic (if 31#32 < source then .intEnclear1 else .intEnclear0)).getLsbD
          (source.toNat % 32))

/-- Calls on `source` are refused without effect or act on `source` alone, and never change
    the enabled state of another accepted source `other`. -/
structure SourceIsolated (H : Type) (source other : U32) : Prop where
  acts : ∀ (op : SourceOp H) (d : IrqDxe H),
    op.exec source d = (.unsupported, d) ∨
    ActsOnlyOn source d (op.exec source d).2 ∧ op.Effect source d (op.exec source d)
  separate : other ≠ source → other.toNat ≤ nrIrqs → ∀ (op : SourceOp H) (d : IrqDxe H),
    lineEnabled (op.exec source d).2 (vicLine other) = lineEnabled d (vicLine other)

/-- Two distinct accepted sources that select the same VIC line: both in the second bank,
    and equal modulo 32. -/
def Aliases (source other : U32) : Prop :=
  other ≠ source ∧ other.toNat ≤ nrIrqs ∧ 31 < source.toNat ∧ 31 < other.toNat ∧
    source.toNat % 32 = other.toNat % 32

instance (source other : U32) : Decidable (Aliases source other) :=
  inferInstanceAs (Decidable (_ ∧ _))

/-- Distinct accepted sources share a line exactly when they alias. -/
theorem vicLine_eq_iff {source other : U32} (hne : other ≠ source)
    (hother : other.toNat ≤ nrIrqs) :
    vicLine other = vicLine source ↔ Aliases source other := by
  have hne' : other.toNat ≠ source.toNat := fun h => hne (BitVec.eq_of_toNat_eq h)
  simp only [vicLine, Aliases, hne, hother, ne_eq, not_false_eq_true, true_and]
  split <;> split <;> omega

/-! ### The frame of each function -/

section Frames

variable {source : U32} (d : IrqDxe H)

theorem ActsOnlyOn.refl : ActsOnlyOn source d d where
  slots _ _ := rfl
  registers _ _ := rfl
  bits _ _ := rfl
  inBounds := ⟨[], rfl, by simp⟩

/-- A store of the enable mask that keeps the other bits acts only on its source. -/
theorem actsOnlyOn_enReg {d' : IrqDxe H} (v : U32)
    (hvic : d'.vic = Function.update d.vic (intEnReg source) v)
    (hv : ∀ i, i ≠ source.toNat % 32 → v.getLsbD i = (d.vic (intEnReg source)).getLsbD i)
    (hslots : d'.gRegisteredInterruptHandlers = d.gRegisteredInterruptHandlers)
    (hacc : d'.accesses = d.accesses) : ActsOnlyOn source d d' where
  slots i _ := by rw [hslots]
  registers r hr := by rw [hvic, Function.update_of_ne hr]
  bits i hi := by rw [hvic, Function.update_self, hv i hi]
  inBounds := ⟨[], hacc, by simp⟩

theorem enable_actsOnlyOn (h : source.toNat ≤ nrIrqs) :
    ActsOnlyOn source d (enableInterruptSource source d).2 := by
  apply actsOnlyOn_enReg d (d.vic (intEnReg source) ||| sourceBit source)
  · simp only [enableInterruptSource, if_neg (Nat.not_lt.mpr h), IrqDxe.write, intEnReg]
    split <;> rfl
  · intro i hi
    rw [sourceBit_eq, getLsbD_or_bit _ (Nat.mod_lt _ (by decide))]
    simp [hi]
  · exact enable_handlers source d
  · simp only [enableInterruptSource, if_neg (Nat.not_lt.mpr h), IrqDxe.write]

theorem disable_actsOnlyOn (h : source.toNat ≤ nrIrqs) :
    ActsOnlyOn source d (disableInterruptSource source d).2 := by
  apply actsOnlyOn_enReg d (d.vic (intEnReg source) &&& ~~~sourceBit source)
  · simp only [disableInterruptSource, if_neg (Nat.not_lt.mpr h), IrqDxe.write, intEnReg]
    split <;> rfl
  · intro i hi
    rw [sourceBit_eq, getLsbD_and_not_bit]
    simp [hi]
  · exact disable_handlers source d
  · simp only [disableInterruptSource, if_neg (Nat.not_lt.mpr h), IrqDxe.write]

/-- Below `nrIrqs` registration looks at, and possibly fills, the slot of its source only. -/
theorem register_actsOnlyOn (h : source.toNat < nrIrqs) (handler : Option H) :
    ActsOnlyOn source d (registerInterruptSource source handler d).2 := by
  rcases register_cases h.le handler d with ⟨_, _, _, hr⟩ | ⟨_, hr⟩
  · -- refused: the slot has been looked at
    rw [hr]
    exact ⟨fun _ _ => rfl, fun _ _ => rfl, fun _ _ => rfl, ⟨[source.toNat], rfl, by simp [h]⟩⟩
  · -- gone through: the slot has been filled, and the rest is enabling
    rw [hr]
    have hen := enable_actsOnlyOn
      ((d.readHandler source.toNat).2.writeHandler source.toNat handler) h.le
    refine ⟨fun i hi => ?_, hen.registers, hen.bits, ?_⟩
    · rw [hen.slots i hi]
      exact Function.update_of_ne hi _ _
    · obtain ⟨new, hnew, hmem⟩ := hen.inBounds
      refine ⟨new ++ [source.toNat, source.toNat], ?_, ?_⟩
      · rw [hnew]
        simp [IrqDxe.readHandler, IrqDxe.writeHandler]
      · intro i hi
        rcases List.mem_append.mp hi with hi | hi
        · exact hmem i hi
        · simp only [List.mem_cons, List.not_mem_nil, or_false, or_self] at hi
          exact ⟨hi, hi ▸ h⟩

end Frames

/-! ### The effect of each function -/

/-- A successful registration leaves the handler it was given in the slot. -/
theorem register_slot {source : U32} (h : source.toNat ≤ nrIrqs) (handler : Option H)
    (d : IrqDxe H) (hok : (registerInterruptSource source handler d).1 = .success) :
    (registerInterruptSource source handler d).2.gRegisteredInterruptHandlers source.toNat
      = handler := by
  rcases register_cases h handler d with ⟨_, hne, _, _⟩ | ⟨_, hr⟩
  · exact absurd hok hne
  · rw [hr, enable_handlers]
    exact Function.update_self _ _ _

/-- The state reported for an accepted source is the complement of its bit. -/
theorem getInterruptSourceState_bit {source : U32} (h : source.toNat ≤ nrIrqs) (d : IrqDxe H) :
    (getInterruptSourceState source d).2
      = some (!(d.vic (if 31#32 < source then .intEnclear1 else .intEnclear0)).getLsbD
          (source.toNat % 32)) := by
  have hlt : source.toNat % 32 < 32 := Nat.mod_lt _ (by decide)
  simp only [getInterruptSourceState, if_neg (Nat.not_lt.mpr h), sourceBit_eq,
    and_bit_eq_bit_iff _ hlt]
  -- the state is the complement of the bit that is read
  generalize d.vic (if 31#32 < source then .intEnclear1 else .intEnclear0) = word
  cases word.getLsbD (source.toNat % 32) <;> simp

/-- Every call on a source below `nrIrqs` acts on that source alone. -/
theorem exec_acts {source : U32} (h : source.toNat < nrIrqs) (op : SourceOp H) (d : IrqDxe H) :
    ActsOnlyOn source d (op.exec source d).2 ∧ op.Effect source d (op.exec source d) := by
  cases op with
  | register handler =>
    exact ⟨register_actsOnlyOn d h handler, register_slot h.le handler d⟩
  | enable =>
    refine ⟨enable_actsOnlyOn d h.le, ?_⟩
    simp [SourceOp.Effect, SourceOp.exec, enable_lineEnabled h.le]
  | disable =>
    refine ⟨disable_actsOnlyOn d h.le, ?_⟩
    simp [SourceOp.Effect, SourceOp.exec, disable_lineEnabled h.le d (vicLine_lt source)]
  | getState => exact ⟨ActsOnlyOn.refl d, getInterruptSourceState_bit h.le d⟩

/-- Every call on an accepted source leaves the other lines as they were. -/
theorem exec_lineEnabled {source : U32} (h : source.toNat ≤ nrIrqs) (op : SourceOp H)
    (d : IrqDxe H) {line : Nat} (hline : line < 64) (hne : line ≠ vicLine source) :
    lineEnabled (op.exec source d).2 line = lineEnabled d line := by
  cases op with
  | register handler =>
    rcases register_cases h handler d with ⟨_, _, _, hr⟩ | ⟨_, hr⟩
    · rw [SourceOp.exec, hr]
      rfl
    · rw [SourceOp.exec, hr, enable_lineEnabled h]
      simp [hne, lineEnabled]
  | enable   => simp [SourceOp.exec, enable_lineEnabled h, hne]
  | disable  => simp [SourceOp.exec, disable_lineEnabled h d hline, hne]
  | getState => rfl

/-! ### The exact condition -/

/-- The driver with all registers zero and an empty table. -/
def blankDxe : IrqDxe H := ⟨fun _ => 0, fun _ => none, []⟩

/-- **Isolation of interrupt sources.**  Two sources are isolated exactly when the first is
    refused, or has a slot in the table and does not select the VIC line of the second. -/
theorem isolation_iff (source other : U32) :
    SourceIsolated H source other ↔
      nrIrqs < source.toNat ∨ source.toNat < nrIrqs ∧ ¬ Aliases source other := by
  constructor
  · intro hiso
    by_contra hcond
    rw [not_or, not_lt, not_and_or, not_not, not_lt] at hcond
    obtain ⟨hle, hge | halias⟩ := hcond
    · -- `Source == NR_IRQS` is accepted, and registration looks at the slot past the table
      rcases hiso.acts (.register none) blankDxe with hrej | ⟨hacts, _⟩
      · simp [SourceOp.exec, registerInterruptSource, Nat.not_lt.mpr hle, blankDxe,
          IrqDxe.readHandler] at hrej
      · obtain ⟨new, hnew, hmem⟩ := hacts.inBounds
        have hacc : new = [source.toNat] := by
          simpa [SourceOp.exec, registerInterruptSource, Nat.not_lt.mpr hle, blankDxe,
            IrqDxe.readHandler] using hnew.symm
        have := (hmem source.toNat (by simp [hacc])).2
        omega
    · -- enabling one of two aliases enables the other
      have hline : vicLine other = vicLine source :=
        (vicLine_eq_iff halias.1 halias.2.1).mpr halias
      have hsep := hiso.separate halias.1 halias.2.1 .enable blankDxe
      rw [SourceOp.exec, enable_lineEnabled hle, hline] at hsep
      simp [lineEnabled, blankDxe] at hsep
  · rintro (hgt | ⟨hlt, halias⟩)
    · -- every call is refused
      have hexec : ∀ (op : SourceOp H) (d : IrqDxe H), op.exec source d = (.unsupported, d) := by
        intro op d
        cases op with
        | register handler => exact register_of_gt hgt handler d
        | enable   => exact enable_of_gt hgt d
        | disable  => exact disable_of_gt hgt d
        | getState => simp [SourceOp.exec, getInterruptSourceState, hgt]
      exact ⟨fun op d => Or.inl (hexec op d), fun _ _ op d => by rw [hexec op d]⟩
    · -- every call acts on its slot and line, and the other source has another line
      refine ⟨fun op d => Or.inr (exec_acts hlt op d), fun hne hother op d => ?_⟩
      apply exec_lineEnabled hlt.le op d (vicLine_lt other)
      exact fun hline => halias ((vicLine_eq_iff hne hother).mp hline)

/-- The source the GPIO driver registers its group interrupt for shares the line of
    `INT_ARM11_PM`: enabling one enables the other. -/
theorem gpio_group1_not_isolated : ¬ SourceIsolated Unit intGpioGroup1 41#32 := by
  intro hiso
  have hsep := hiso.separate (by decide) (by decide) .enable blankDxe
  exact absurd hsep (by decide)

end HtcLeo.Interrupt

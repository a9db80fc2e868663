import Mathlib.Data.List.Basic
import Mathlib.Data.List.Induction
import Mathlib.Data.List.ReduceOption
import Mathlib.Order.Monotone.Basic

namespace HtcLeo.Runs

/-!
# Runs of a labelled machine

A machine is a total step function `step : σ → α → σ`; a run is the list of the
labels it takes.  `Always` says that a property holds in every state a run goes
through, `EveryStep` that every step is taken in a state where a condition on state
and label holds.  The two rules of this file relate them:

* `Always.of_invariant` — a property that every step keeps holds all along;
* `always_iff_everyStep` — a property whose survival of one step is *equivalent* to a
  condition on that step holds all along exactly when every step meets the condition.

Where some steps are hidden, `hidden_steps_iff` says when they can not be noticed.  Where
the labels have keys, `part_foldl` takes the run apart, key by key.

For what a run comes to, `reached_of_progress` counts: a bounded measure that never falls and
rises again and again cannot rise for ever.
-/

variable {σ α : Type*} (step : σ → α → σ)

/-- `P` holds in every state of the run `as` from `s`, its first and last included. -/
def Always (P : σ → Prop) : σ → List α → Prop
  | s, []      => P s
  | s, a :: as => P s ∧ Always P (step s a) as

/-- Every step of the run `as` from `s` is taken in a state where `Q` holds of it. -/
def EveryStep (Q : σ → α → Prop) : σ → List α → Prop
  | _, []      => True
  | s, a :: as => Q s a ∧ EveryStep Q (step s a) as

variable {step}

/-- A property holding all along holds at the start. -/
theorem Always.head {P : σ → Prop} {s : σ} {as : List α} (h : Always step P s as) : P s := by
  cases as with
  | nil => exact h
  | cons a as => exact h.1

/-- A property holding all along holds at the end. -/
theorem Always.last {P : σ → Prop} {s : σ} {as : List α} (h : Always step P s as) :
    P (as.foldl step s) := by
  induction as generalizing s with
  | nil => exact h
  | cons a as ih => exact ih h.2

/-- **Invariant rule.**  A property of the start that every step keeps holds all along. -/
theorem Always.of_invariant {P : σ → Prop} (hstep : ∀ s a, P s → P (step s a))
    {s : σ} (hs : P s) (as : List α) : Always step P s as := by
  induction as generalizing s with
  | nil => exact hs
  | cons a as ih => exact ⟨hs, ih (hstep s a hs)⟩

/-- Weakening of the property. -/
theorem Always.mono {P Q : σ → Prop} (hPQ : ∀ s, P s → Q s) {s : σ} {as : List α}
    (h : Always step P s as) : Always step Q s as := by
  induction as generalizing s with
  | nil => exact hPQ s h
  | cons a as ih => exact ⟨hPQ s h.1, ih h.2⟩

/-- Weakening of the step condition. -/
theorem EveryStep.mono {Q R : σ → α → Prop} (hQR : ∀ s a, Q s a → R s a) {s : σ} {as : List α}
    (h : EveryStep step Q s as) : EveryStep step R s as := by
  induction as generalizing s with
  | nil => trivial
  | cons a as ih => exact ⟨hQR s a h.1, ih h.2⟩

/-- A condition that follows from an invariant is met by every step. -/
theorem EveryStep.of_invariant {I : σ → Prop} {Q : σ → α → Prop}
    (hI : ∀ s a, I s → I (step s a)) (hQ : ∀ s a, I s → Q s a) {s : σ} (hs : I s)
    (as : List α) : EveryStep step Q s as := by
  induction as generalizing s with
  | nil => trivial
  | cons a as ih => exact ⟨hQ s a hs, ih (hI s a hs)⟩

/-- **Exact condition rule.**  Where `I` is kept by every step, and under `I` a step from a
    state with `P` ends in a state with `P` exactly when it meets `Q`, the property `P` holds
    all along a run exactly when it holds at the start and every step meets `Q`. -/
theorem always_iff_everyStep {I P : σ → Prop} {Q : σ → α → Prop}
    (hI : ∀ s a, I s → I (step s a))
    (hstep : ∀ s a, I s → P s → (P (step s a) ↔ Q s a))
    {s : σ} (hs : I s) (as : List α) :
    Always step P s as ↔ P s ∧ EveryStep step Q s as := by
  induction as generalizing s with
  | nil => simp [Always, EveryStep]
  | cons a as ih =>
    have hrest := ih (hI s a hs)
    constructor
    · rintro ⟨hP, hrun⟩
      exact ⟨hP, (hstep s a hs hP).mp hrun.head, (hrest.mp hrun).2⟩
    · rintro ⟨hP, hQ, hsteps⟩
      exact ⟨hP, hrest.mpr ⟨(hstep s a hs hP).mpr hQ, hsteps⟩⟩

/-- **Sufficient condition rule.**  Where every step that meets `Q` from a state with `I` ends in
    one and has `R`, a run whose steps meet `Q` stays in `I`, and its steps have `R`. -/
theorem always_and_everyStep {I : σ → Prop} {Q R : σ → α → Prop}
    (hstep : ∀ s a, I s → Q s a → I (step s a) ∧ R s a) {s : σ} (hs : I s) {as : List α}
    (h : EveryStep step Q s as) : Always step I s as ∧ EveryStep step R s as := by
  induction as generalizing s with
  | nil => exact ⟨hs, trivial⟩
  | cons a as ih =>
    obtain ⟨ha, hrest⟩ := h
    obtain ⟨hnext, hR⟩ := hstep s a hs ha
    obtain ⟨halways, hsteps⟩ := ih hnext hrest
    exact ⟨⟨hs, halways⟩, hR, hsteps⟩

/-! ### Conditions on the steps of a run -/

/-- A condition on the labels. -/
theorem everyStep_of_forall {Q : α → Prop} {s : σ} {as : List α} (h : ∀ a ∈ as, Q a) :
    EveryStep step (fun _ a => Q a) s as := by
  induction as generalizing s with
  | nil => trivial
  | cons a as ih =>
    exact ⟨h a List.mem_cons_self, ih fun b hb => h b (List.mem_cons_of_mem a hb)⟩

/-- Every step of a run that is one step longer. -/
theorem everyStep_concat {Q : σ → α → Prop} {s : σ} {as : List α} {a : α} :
    EveryStep step Q s (as ++ [a]) ↔ EveryStep step Q s as ∧ Q (as.foldl step s) a := by
  induction as generalizing s with
  | nil => simp [EveryStep]
  | cons b as ih =>
    rw [List.cons_append, EveryStep, ih, EveryStep, and_assoc]
    rfl

/-- Two conditions on the steps. -/
theorem everyStep_and {Q R : σ → α → Prop} {s : σ} {as : List α} :
    EveryStep step Q s as ∧ EveryStep step R s as ↔
      EveryStep step (fun s a => Q s a ∧ R s a) s as := by
  induction as generalizing s with
  | nil => exact and_self_iff
  | cons a as ih =>
    rw [EveryStep, EveryStep, EveryStep, ← ih]
    exact and_and_and_comm

/-- Under an invariant, conditions that say the same of a step say the same of a run. -/
theorem everyStep_congr {I : σ → Prop} {Q R : σ → α → Prop} (hI : ∀ s a, I s → I (step s a))
    (hQR : ∀ s a, I s → (Q s a ↔ R s a)) {s : σ} (hs : I s) (as : List α) :
    EveryStep step Q s as ↔ EveryStep step R s as := by
  induction as generalizing s with
  | nil => rfl
  | cons a as ih => exact and_congr (hQR s a hs) (ih (hI s a hs))

/-! ### Hidden steps -/

section Hidden

variable {κ ω : Type*} (next : σ → Option κ → σ) (obs : σ → ω)

/-- No labels that are seen, one after another, tell the two states apart. -/
def Indistinguishable (s t : σ) : Prop :=
  ∀ later : List κ, obs ((later.map some).foldl next s) = obs ((later.map some).foldl next t)

variable {next obs}

theorem Indistinguishable.symm {s t : σ} (h : Indistinguishable next obs s t) :
    Indistinguishable next obs t s :=
  fun later => (h later).symm

theorem Indistinguishable.trans {s t u : σ} (h : Indistinguishable next obs s t)
    (h' : Indistinguishable next obs t u) : Indistinguishable next obs s u :=
  fun later => (h later).trans (h' later)

/-- A step that is seen keeps states indistinguishable. -/
theorem Indistinguishable.seen {s t : σ} (h : Indistinguishable next obs s t) (k : κ) :
    Indistinguishable next obs (next s (some k)) (next t (some k)) :=
  fun later => h (k :: later)

/-- **Hidden steps.**  All along a run, what is observed now and later is what the labels that are
    seen lead to alone, exactly when no hidden step makes a difference where it is taken. -/
theorem hidden_steps_iff {s : σ} (as : List (Option κ)) :
    (∀ p, p <+: as → Indistinguishable next obs (p.foldl next s)
        ((p.reduceOption.map some).foldl next s)) ↔
      EveryStep next (fun t a => a = none → Indistinguishable next obs (next t none) t) s as := by
  -- by induction on the run, from its end
  induction as using List.reverseRecOn with
  | nil =>
    refine iff_of_true ?_ trivial
    intro p hp
    rw [List.prefix_nil.mp hp]
    exact fun _ => rfl
  | append_singleton as a ih =>
    rw [everyStep_concat, ← ih]
    constructor
    · intro h
      have hall := fun p hp => h p (List.prefix_append_of_prefix hp)
      refine ⟨hall, ?_⟩
      rintro rfl
      have hlong := h (as ++ [none]) List.prefix_rfl
      rw [List.foldl_append, List.reduceOption_append, List.reduceOption_singleton,
        Option.toList_none, List.append_nil] at hlong
      exact hlong.trans (hall as List.prefix_rfl).symm
    · rintro ⟨hall, hlast⟩ p hp
      rcases List.prefix_concat_iff.mp hp with rfl | hp
      · have has := hall as List.prefix_rfl
        rw [List.foldl_append, List.reduceOption_append, List.map_append, List.foldl_append]
        cases a with
        | none => exact (hlast rfl).trans has
        | some k => exact has.seen k
      · exact hall p hp

end Hidden

/-! ### Keyed steps -/

section Keyed

variable {κ π : Type*} [DecidableEq κ] (key : α → κ) {k : κ} (part : σ → π) (next : π → α → π)

/-- **Keyed steps.**  Where a part of the state changes only by the steps with its key, and by
    itself, a run leaves in it what these steps, in their order, make of it. -/
theorem part_foldl
    (h : ∀ s a, part (step s a) = if key a = k then next (part s) a else part s)
    (s : σ) (as : List α) :
    part (as.foldl step s) = (as.filter fun a => decide (key a = k)).foldl next (part s) := by
  induction as generalizing s with
  | nil => rfl
  | cons a as ih =>
    rw [List.foldl_cons, ih, h, List.filter_cons]
    by_cases hkey : key a = k
    · rw [if_pos hkey, if_pos (decide_eq_true hkey), List.foldl_cons]
    · rw [if_neg hkey, if_neg (by simpa using hkey)]

/-- Steps with other keys leave the part as it is. -/
theorem part_foldl_other
    (h : ∀ s a, part (step s a) = if key a = k then next (part s) a else part s)
    (s : σ) {as : List α} (has : ∀ a ∈ as, key a ≠ k) : part (as.foldl step s) = part s := by
  have hnone : (as.filter fun a => decide (key a = k)) = [] :=
    List.filter_eq_nil_iff.mpr fun a ha => by simpa using has a ha
  rw [part_foldl key part next h, hnone, List.foldl_nil]

end Keyed

/-! ### Progress -/

/-- **Progress rule.**  A measure of the states of a sequence is bounded and never falls, and
    again and again it rises or the goal is reached.  Then the goal is reached. -/
theorem reached_of_progress (states : Nat → σ) (goal : σ → Prop) (measure : σ → Nat)
    {bound : Nat} (hbound : ∀ n, measure (states n) ≤ bound)
    (hmono : ∀ n, measure (states n) ≤ measure (states (n + 1)))
    (hfair : ∀ n, ∃ k ≥ n, measure (states k) < measure (states (k + 1)) ∨ goal (states (k + 1))) :
    ∃ n, goal (states n) := by
  have hle : Monotone fun n => measure (states n) := monotone_nat_of_le_succ hmono
  -- by induction on how far the measure is from its bound
  have hreach : ∀ d n, bound ≤ measure (states n) + d → ∃ k, goal (states k) := by
    intro d
    induction d with
    | zero =>
      intro n hn
      obtain ⟨k, hk, hstep⟩ := hfair n
      have hrise : measure (states n) ≤ measure (states k) := hle hk
      -- at the bound there is no room for another rise
      have htop := hbound (k + 1)
      exact ⟨k + 1, hstep.resolve_left (by omega)⟩
    | succ d ih =>
      intro n hn
      obtain ⟨k, hk, hlt | hgoal⟩ := hfair n
      · have hrise : measure (states n) ≤ measure (states k) := hle hk
        exact ih (k + 1) (by omega)
      · exact ⟨k + 1, hgoal⟩
  exact hreach bound 0 (Nat.le_add_left _ _)

end HtcLeo.Runs

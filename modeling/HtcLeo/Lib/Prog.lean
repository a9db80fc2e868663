import Mathlib.Data.List.Basic

namespace HtcLeo

/-!
# Programs that poll

A program over a machine state, such as driver code over device registers and memory.  Its
loops are given a number of iterations; a program that runs out of them has no result, but
still the state it has come to, so that what it did until then can be spoken about.

* `Prog.loop` — a loop with an accumulator.
* `Prog.Keeps I x` — `x` keeps the invariant `I` of the state, with or without a result.
* `Prog.Ensures P x Q` — from a state with `P`, a result of `x` and the state after it are in
  `Q`.
* `Prog.Completes P x Q` — from a state with `P`, `x` has a result, and it is in `Q`.

Each comes with its rules for return, sequence and loops.
-/

/-- A program: its result, if its loops end, and the state it comes to. -/
def Prog (σ α : Type) : Type := σ → Option α × σ

namespace Prog

variable {σ α β : Type}

instance : Monad (Prog σ) where
  pure a := fun s => (some a, s)
  bind x f := fun s => match x s with
    | (some a, s') => f a s'
    | (none, s')   => (none, s')

/-- A step that returns a value and changes the state. -/
def query (f : σ → α × σ) : Prog σ α := fun s => (some (f s).1, (f s).2)

/-- A step that changes the state. -/
def modify (f : σ → σ) : Prog σ Unit := fun s => (some (), f s)

/-- A program over a part of the state. -/
def zoom {τ : Type} (get : σ → τ) (set : τ → σ → σ) (x : Prog τ α) : Prog σ α :=
  fun s => ((x (get s)).1, set (x (get s)).2 s)

/-- Repeat `body` on the accumulator until it gives a result, `fuel` times at most. -/
def loop (body : β → Prog σ (β ⊕ α)) : Nat → β → Prog σ α
  | 0, _ => fun s => (none, s)  -- the loop would go on
  | fuel + 1, b => do
      match ← body b with
      | .inl b' => loop body fuel b'
      | .inr a  => pure a

theorem bind_apply (x : Prog σ α) (f : α → Prog σ β) (s : σ) :
    (x >>= f) s = match x s with
      | (some a, s') => f a s'
      | (none, s')   => (none, s') := rfl

instance : LawfulMonad (Prog σ) := LawfulMonad.mk' (Prog σ)
  (by
    intro α x
    funext s
    show (match x s with
      | (some a, s') => (some (id a), s')
      | (none, s')   => (none, s')) = x s
    rcases x s with ⟨_ | a, s'⟩ <;> rfl)
  (by
    intro α β a f
    rfl)
  (by
    intro α β γ x f g
    funext s
    rw [bind_apply, bind_apply, bind_apply]
    rcases x s with ⟨_ | a, s'⟩ <;> rfl)

theorem pure_apply (a : α) (s : σ) : (pure a : Prog σ α) s = (some a, s) := rfl

/-- Running a sequence, part by part. -/
theorem bind_of {x : Prog σ α} {f : α → Prog σ β} {s s' : σ} {a : α} {r : Option β × σ}
    (hx : x s = (some a, s')) (hf : f a s' = r) : (x >>= f) s = r := by
  rw [bind_apply, hx]
  exact hf

/-- Running a program over a part of the state. -/
theorem zoom_of {τ : Type} {get : σ → τ} {set : τ → σ → σ} {x : Prog τ α} {s : σ} {a : α} {t : τ}
    (hx : x (get s) = (some a, t)) : zoom get set x s = (some a, set t s) := by
  rw [zoom, hx]

/-- A sequence has a result exactly when both parts have. -/
theorem bind_eq_some {x : Prog σ α} {f : α → Prog σ β} {s s'' : σ} {b : β} :
    (x >>= f) s = (some b, s'') ↔ ∃ a s', x s = (some a, s') ∧ f a s' = (some b, s'') := by
  rw [bind_apply]
  obtain ⟨r, s'⟩ := x s
  cases r with
  | none   => simp
  | some a => simp

/-- Iterations that only go on, and leave the state as it is. -/
theorem loop_skip {body : β → Prog σ (β ⊕ α)} {s : σ} (b : Nat → β) {n : Nat}
    (h : ∀ i < n, body (b i) s = (some (.inl (b (i + 1))), s)) (fuel : Nat) :
    loop body (n + fuel) (b 0) s = loop body fuel (b n) s := by
  induction n generalizing fuel with
  | zero => rw [Nat.zero_add]
  | succ n ih =>
    rw [Nat.add_assoc, ih (fun i hi => h i (by omega)), Nat.add_comm 1 fuel]
    exact bind_of (h n (Nat.lt_succ_self n)) rfl

/-- A loop that ends after such iterations. -/
theorem loop_of_skip {body : β → Prog σ (β ⊕ α)} {s s' : σ} {a : α} (b : Nat → β) {n fuel : Nat}
    (h : ∀ i < n, body (b i) s = (some (.inl (b (i + 1))), s)) (hfuel : n < fuel)
    (hend : body (b n) s = (some (.inr a), s')) :
    loop body fuel (b 0) s = (some a, s') := by
  obtain ⟨k, rfl⟩ : ∃ k, fuel = n + (k + 1) := ⟨fuel - n - 1, by omega⟩
  rw [loop_skip b h]
  exact bind_of hend rfl

/-- A step without a result ends the sequence it is in. -/
theorem forM_eq_none {f : β → Prog σ Unit} {l : List β} {a : β} (ha : a ∈ l)
    (h : ∀ s, (f a s).1 = none) (s : σ) : (ForM.forM l f s).1 = none := by
  induction l generalizing s with
  | nil => exact absurd ha List.not_mem_nil
  | cons b l ih =>
    rw [List.forM_cons, bind_apply]
    rcases hb : f b s with ⟨_ | u, s'⟩
    · rfl
    · rcases List.mem_cons.mp ha with rfl | hrest
      · exact absurd ((congrArg Prod.fst hb).symm.trans (h s)) (Option.some_ne_none u)
      · exact ih hrest s'

/-- What follows without a change of the state leaves it as it was. -/
theorem bind_snd {x : Prog σ α} {f : α → Prog σ β} (hf : ∀ a s, (f a s).2 = s) (s : σ) :
    ((x >>= f) s).2 = (x s).2 := by
  rw [bind_apply]
  obtain ⟨r, s'⟩ := x s
  cases r with
  | none   => rfl
  | some a => exact hf a s'

/-! ### Invariants -/

/-- `x` keeps the invariant `I`, with or without a result. -/
def Keeps (I : σ → Prop) (x : Prog σ α) : Prop := ∀ s, I s → I (x s).2

variable {I : σ → Prop}

theorem Keeps.pure (a : α) : Keeps I (pure a : Prog σ α) := fun _ h => h

theorem Keeps.query {f : σ → α × σ} (h : ∀ s, I s → I (f s).2) : Keeps I (query f) := h

theorem Keeps.modify {f : σ → σ} (h : ∀ s, I s → I (f s)) : Keeps I (modify f) := h

theorem Keeps.bind {x : Prog σ α} {f : α → Prog σ β} (hx : Keeps I x)
    (hf : ∀ a, Keeps I (f a)) : Keeps I (x >>= f) := by
  intro s hs
  -- where `x` has no result, the state it has come to is the state of the whole
  have hx' := hx s hs
  rw [bind_apply]
  rcases hxs : x s with ⟨_ | a, s'⟩
  · rw [hxs] at hx'
    exact hx'
  · rw [hxs] at hx'
    exact hf a s' hx'

theorem Keeps.loop {body : β → Prog σ (β ⊕ α)} (h : ∀ b, Keeps I (body b)) (fuel : Nat)
    (b : β) : Keeps I (loop body fuel b) := by
  induction fuel generalizing b with
  | zero => exact fun _ hs => hs
  | succ fuel ih =>
    apply Keeps.bind (h b)
    intro r
    cases r with
    | inl b' => exact ih b'
    | inr a  => exact Keeps.pure a

/-- And where the invariant ties the accumulator to the state: it holds at the head of the loop. -/
theorem Keeps.loop_of {body : β → Prog σ (β ⊕ α)} (Inv : β → σ → Prop)
    (h : ∀ b s, Inv b s → I (body b s).2 ∧
      ∀ b', (body b s).1 = some (.inl b') → Inv b' (body b s).2)
    (hI : ∀ b s, Inv b s → I s) (fuel : Nat) (b : β) {s : σ} (hs : Inv b s) :
    I (Prog.loop body fuel b s).2 := by
  induction fuel generalizing b s with
  | zero => exact hI b s hs
  | succ fuel ih =>
    obtain ⟨hbody, hnext⟩ := h b s hs
    unfold Prog.loop
    rw [bind_apply]
    rcases hb : body b s with ⟨_ | r, s'⟩
    · rw [hb] at hbody
      exact hbody
    · rw [hb] at hbody hnext
      cases r with
      | inl b' => exact ih b' (hnext b' rfl)
      | inr a => exact hbody

theorem Keeps.forM {f : β → Prog σ Unit} (h : ∀ b, Keeps I (f b)) (l : List β) :
    Keeps I (ForM.forM l f) := by
  induction l with
  | nil => exact Keeps.pure ()
  | cons b l ih =>
    rw [List.forM_cons]
    exact Keeps.bind (h b) fun _ => ih

theorem Keeps.mapM {f : β → Prog σ α} (h : ∀ b, Keeps I (f b)) (l : List β) :
    Keeps I (l.mapM f) := by
  induction l with
  | nil => exact Keeps.pure []
  | cons b l ih =>
    rw [List.mapM_cons]
    exact Keeps.bind (h b) fun a => Keeps.bind ih fun as => Keeps.pure (a :: as)

/-! ### Partial correctness -/

/-- From a state with `P`, a result of `x` and the state after it are in `Q`. -/
def Ensures (P : σ → Prop) (x : Prog σ α) (Q : α → σ → Prop) : Prop :=
  ∀ s a s', P s → x s = (some a, s') → Q a s'

variable {P R : σ → Prop}

theorem Ensures.pure {a : α} {Q : α → σ → Prop} (h : ∀ s, P s → Q a s) :
    Ensures P (pure a : Prog σ α) Q := by
  intro s b s' hs heq
  rw [pure_apply] at heq
  obtain ⟨rfl, rfl⟩ := Prod.mk.inj heq |>.imp_left Option.some.inj
  exact h s hs

theorem Ensures.query {f : σ → α × σ} {Q : α → σ → Prop} (h : ∀ s, P s → Q (f s).1 (f s).2) :
    Ensures P (query f) Q := by
  intro s b s' hs heq
  obtain ⟨rfl, rfl⟩ := Prod.mk.inj heq |>.imp_left Option.some.inj
  exact h s hs

theorem Ensures.modify {f : σ → σ} {Q : Unit → σ → Prop} (h : ∀ s, P s → Q () (f s)) :
    Ensures P (modify f) Q := by
  intro s b s' hs heq
  obtain ⟨rfl, rfl⟩ := Prod.mk.inj heq |>.imp_left Option.some.inj
  exact h s hs

theorem Ensures.bind {x : Prog σ α} {f : α → Prog σ β} {M : α → σ → Prop} {Q : β → σ → Prop}
    (hx : Ensures P x M) (hf : ∀ a, Ensures (M a) (f a) Q) : Ensures P (x >>= f) Q := by
  intro s b s'' hs heq
  obtain ⟨a, s', hxs, hfs⟩ := bind_eq_some.mp heq
  exact hf a s' b s'' (hx s a s' hs hxs) hfs

/-- A fact in the precondition. -/
theorem Ensures.assume {φ : Prop} {x : Prog σ α} {Q : α → σ → Prop}
    (h : φ → Ensures P x Q) : Ensures (fun s => φ ∧ P s) x Q :=
  fun s a s' hs heq => h hs.1 s a s' hs.2 heq

/-- A first part whose result is known. -/
theorem Ensures.bind_eq {x : Prog σ α} {f : α → Prog σ β} {a : α} {Q : β → σ → Prop}
    (hx : Ensures P x fun b s => b = a ∧ R s) (hf : Ensures R (f a) Q) :
    Ensures P (x >>= f) Q := by
  refine Ensures.bind hx fun b => Ensures.assume ?_
  intro hb
  subst hb
  exact hf

theorem Ensures.mono {x : Prog σ α} {Q Q' : α → σ → Prop} (h : Ensures P x Q)
    (hP : ∀ s, R s → P s) (hQ : ∀ a s, Q a s → Q' a s) : Ensures R x Q' :=
  fun s a s' hs heq => hQ a s' (h s a s' (hP s hs) heq)

/-- **Loop rule.**  `Inv` relates accumulator and state at the head of the loop. -/
theorem Ensures.loop {body : β → Prog σ (β ⊕ α)} (Inv : β → σ → Prop) {Q : α → σ → Prop}
    (h : ∀ b, Ensures (Inv b) (body b) (fun r s => Sum.elim (Inv · s) (Q · s) r))
    (fuel : Nat) (b : β) : Ensures (Inv b) (loop body fuel b) Q := by
  induction fuel generalizing b with
  | zero =>
    -- out of fuel there is no result
    intro s a s' _ heq
    exact absurd (congrArg Prod.fst heq) (by simp [Prog.loop])
  | succ fuel ih =>
    refine Ensures.bind (h b) fun r => ?_
    cases r with
    | inl b' => exact ih b'
    | inr a  => exact Ensures.pure fun _ hs => hs

/-- A program that keeps `I` ends in it. -/
theorem Keeps.ensures {x : Prog σ α} (h : Keeps I x) : Ensures I x (fun _ => I) := by
  intro s a s' hs heq
  have := h s hs
  rwa [heq] at this

/-! ### Total correctness -/

/-- From every state with `P`, `x` has a result, and it and the state after it are in `Q`. -/
def Completes (P : σ → Prop) (x : Prog σ α) (Q : α → σ → Prop) : Prop :=
  ∀ s, P s → ∃ a s', x s = (some a, s') ∧ Q a s'

theorem Completes.pure {a : α} {Q : α → σ → Prop} (h : ∀ s, P s → Q a s) :
    Completes P (pure a : Prog σ α) Q := fun s hs => ⟨a, s, rfl, h s hs⟩

theorem Completes.query {f : σ → α × σ} {Q : α → σ → Prop} (h : ∀ s, P s → Q (f s).1 (f s).2) :
    Completes P (query f) Q := fun s hs => ⟨(f s).1, (f s).2, rfl, h s hs⟩

theorem Completes.modify {f : σ → σ} {Q : Unit → σ → Prop} (h : ∀ s, P s → Q () (f s)) :
    Completes P (modify f) Q := fun s hs => ⟨(), f s, rfl, h s hs⟩

theorem Completes.bind {x : Prog σ α} {f : α → Prog σ β} {M : α → σ → Prop} {Q : β → σ → Prop}
    (hx : Completes P x M) (hf : ∀ a, Completes (M a) (f a) Q) : Completes P (x >>= f) Q := by
  intro s hs
  obtain ⟨a, s', hxs, hm⟩ := hx s hs
  obtain ⟨b, s'', hfs, hq⟩ := hf a s' hm
  exact ⟨b, s'', bind_eq_some.mpr ⟨a, s', hxs, hfs⟩, hq⟩

/-- A first part whose result is known. -/
theorem Completes.bind_eq {x : Prog σ α} {f : α → Prog σ β} {a : α} {Q : β → σ → Prop}
    (hx : Completes P x fun b s => b = a ∧ R s) (hf : Completes R (f a) Q) :
    Completes P (x >>= f) Q := by
  apply Completes.bind hx
  intro b s hs
  obtain ⟨rfl, hR⟩ := hs
  exact hf s hR

theorem Completes.mono {x : Prog σ α} {Q Q' : α → σ → Prop} (h : Completes P x Q)
    (hP : ∀ s, R s → P s) (hQ : ∀ a s, Q a s → Q' a s) : Completes R x Q' := by
  intro s hs
  obtain ⟨a, s', hxs, hq⟩ := h s (hP s hs)
  exact ⟨a, s', hxs, hQ a s' hq⟩

/-- **Loop rule.**  `Inv n` holds at the head of the loop when at most `n` more iterations
    follow the next one. -/
theorem Completes.loop {body : β → Prog σ (β ⊕ α)} (Inv : Nat → β → σ → Prop)
    {Q : α → σ → Prop}
    (h : ∀ n b, Completes (Inv n b) (body b)
      (fun r s => Sum.elim (fun b' => ∃ m, m < n ∧ Inv m b' s) (Q · s) r))
    {n fuel : Nat} (hfuel : n < fuel) (b : β) : Completes (Inv n b) (loop body fuel b) Q := by
  -- by induction on the fuel, which stays above the number of iterations left
  induction fuel generalizing n b with
  | zero => omega
  | succ fuel ih =>
    refine Completes.bind (h n b) fun r => ?_
    cases r with
    | inl b' =>
      rintro s ⟨m, hm, hinv⟩
      exact ih (by omega : m < fuel) b' s hinv
    | inr a => exact Completes.pure fun _ hs => hs

theorem Completes.mapM {f : β → Prog σ α} (h : ∀ b, Completes P (f b) (fun _ => P))
    (l : List β) : Completes P (l.mapM f) (fun _ => P) := by
  induction l with
  | nil => exact Completes.pure fun s hs => hs
  | cons b l ih =>
    rw [List.mapM_cons]
    apply Completes.bind (h b)
    intro a
    exact Completes.bind ih fun as => Completes.pure fun s hs => hs

/-- **Counting loop.**  `Inv k` holds before the iteration for `k`. -/
theorem Completes.forM_range {f : Nat → Prog σ Unit} (Inv : Nat → σ → Prop) (n : Nat)
    (h : ∀ k < n, Completes (Inv k) (f k) fun _ => Inv (k + 1)) :
    Completes (Inv 0) (forM (List.range n) f) fun _ => Inv n := by
  induction n with
  | zero => exact Completes.pure fun s hs => hs
  | succ n ih =>
    rw [List.range_succ, List.forM_append]
    refine Completes.bind (ih fun k hk => h k (by omega)) fun _ => ?_
    simpa using h n (by omega)

/-- **Loop over a list.**  `Inv t` holds before an element, and `Inv (step t b)` after it. -/
theorem Completes.forM_foldl {τ : Type*} {f : β → Prog σ Unit} (Inv : τ → σ → Prop)
    {step : τ → β → τ} (h : ∀ t b, Completes (Inv t) (f b) fun _ => Inv (step t b))
    (l : List β) (t : τ) : Completes (Inv t) (forM l f) fun _ => Inv (l.foldl step t) := by
  induction l generalizing t with
  | nil => exact Completes.pure fun s hs => hs
  | cons b l ih =>
    rw [List.forM_cons]
    exact Completes.bind (h t b) fun _ => ih (step t b)

/-- And where each element has a result of its own. -/
theorem Completes.mapM_foldl {τ : Type*} {f : β → Prog σ α} (Inv : τ → σ → Prop)
    {step : τ → β → τ} {g : β → α}
    (h : ∀ t b, Completes (Inv t) (f b) fun a s => a = g b ∧ Inv (step t b) s)
    (l : List β) (t : τ) :
    Completes (Inv t) (l.mapM f) fun as s => as = l.map g ∧ Inv (l.foldl step t) s := by
  induction l generalizing t with
  | nil => exact Completes.pure fun s hs => ⟨rfl, hs⟩
  | cons b l ih =>
    rw [List.mapM_cons]
    refine Completes.bind_eq (h t b) (Completes.bind_eq (ih (step t b)) ?_)
    exact Completes.pure fun s hs => ⟨rfl, hs⟩

/-- A program that completes from either of two sets of states. -/
theorem Completes.or {x : Prog σ α} {Q Q' : α → σ → Prop} (h : Completes P x Q)
    (h' : Completes R x Q') : Completes (fun s => P s ∨ R s) x (fun a s => Q a s ∨ Q' a s) := by
  rintro s (hP | hR)
  · obtain ⟨a, s', hxs, hq⟩ := h s hP
    exact ⟨a, s', hxs, Or.inl hq⟩
  · obtain ⟨a, s', hxs, hq⟩ := h' s hR
    exact ⟨a, s', hxs, Or.inr hq⟩

/-- A program that completes, and whose results are in `Q'` too. -/
theorem Completes.and {x : Prog σ α} {Q Q' : α → σ → Prop} (h : Completes P x Q)
    (h' : Ensures R x Q') : Completes (fun s => P s ∧ R s) x (fun a s => Q a s ∧ Q' a s) := by
  rintro s ⟨hP, hR⟩
  obtain ⟨a, s', hxs, hq⟩ := h s hP
  exact ⟨a, s', hxs, hq, h' s a s' hR hxs⟩

end Prog

end HtcLeo

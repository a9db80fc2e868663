import HtcLeo.I2c.Xfer

namespace HtcLeo.I2c

open Prog

/-!
# I2CDxe — the engine stays in the buffers

What holds of `dev` whenever the handler may run, for any messages and any status values: the
engine is at a message of its array and at bytes of its buffer.

* `WithinBuffers` — the property of `dev`.
* `Isolated` — every byte was sent from, or stored into, a buffer of the array it belongs to.
* `Sound` — both, with a property `J` of `dev.ret`, `timeout` and the history.
* `sound_rule` — the handler keeps it.
-/

/-! ### Events of the engine -/

/-- The message a byte or a word of an event belongs to, or that was aborted. -/
def Event.msg? : Event → Option MsgPtr
  | .address p _  => some p
  | .sent p _ _   => some p
  | .stored p _ _ => some p
  | .aborted p    => some p
  | _             => none

/-- An access to a buffer: the message, and the address. -/
def Event.access? : Event → Option (MsgPtr × Nat)
  | .sent p a _   => some (p, a)
  | .stored p a _ => some (p, a)
  | _             => none

/-- The address is in the buffer of the message. -/
def InBuffer (p : MsgPtr) (a : Nat) : Prop :=
  ∃ m, p.deref? = some m ∧ m.buf ≤ a ∧ a < m.buf + m.len

/-- Every byte was sent from or stored into a buffer of the message it belongs to. -/
def Isolated (h : History) : Prop := ∀ e ∈ h, ∀ p a, e.access? = some (p, a) → InBuffer p a

theorem Isolated.cons {h : History} (hh : Isolated h) {e : Event}
    (he : ∀ p a, e.access? = some (p, a) → InBuffer p a) : Isolated (e :: h) := by
  intro e' hmem
  rcases List.mem_cons.mp hmem with rfl | hold
  · exact he
  · exact hh e' hold

/-- A quiet event accesses no buffer. -/
theorem Event.access_of_quiet {e : Event} (he : e.isQuiet = true) : e.access? = none := by
  cases e <;> first | rfl | exact Bool.noConfusion he

theorem isolated_of_quiet {h : History} (hquiet : ∀ e ∈ h, e.isQuiet = true) : Isolated h := by
  intro e he p a haccess
  rw [Event.access_of_quiet (hquiet e he)] at haccess
  exact absurd haccess (Option.some_ne_none _).symm

/-! ### The record -/

/-- The engine, at the message `m`, will access its buffer only, and go on to messages of its
    array only. -/
structure InRange (rem pos cnt : Int) (p : MsgPtr) (m : I2cMsg) : Prop where
  deref : p.deref? = some m
  messages : p.index + rem ≤ p.array.msgs.length
  low : -1 ≤ pos
  nonneg : 0 ≤ cnt
  fits : cnt ≤ m.len
  ends : pos + cnt ≤ m.len

/-- The engine is at a message, unless it is at rest. -/
def WithinBuffers (d : MsmI2cDev) : Prop :=
  ∀ p, d.msg = some p → ∃ m, InRange d.rem d.pos d.cnt p m

theorem WithinBuffers.of_none {d : MsmI2cDev} (h : d.msg = none) : WithinBuffers d := by
  intro p hp
  rw [h] at hp
  exact absurd hp (Option.some_ne_none p).symm

theorem WithinBuffers.at_ {s : World} {p : MsgPtr} {m : I2cMsg} (h : WithinBuffers s.dev)
    (hat : s.At p m) : InRange s.dev.rem s.dev.pos s.dev.cnt p m := by
  obtain ⟨m', hm'⟩ := h p hat.1
  obtain rfl : m' = m := Option.some.inj (hm'.deref.symm.trans hat.2)
  exact hm'

/-- A message from its address word on. -/
theorem inRange_start {p : MsgPtr} {m : I2cMsg} (h : p.deref? = some m) {rem : Int}
    (hrem : p.index + rem ≤ p.array.msgs.length) : InRange rem (-1) m.len p m where
  deref := h
  messages := hrem
  low := Int.le_refl _
  nonneg := Int.natCast_nonneg _
  fits := Int.le_refl _
  ends := by omega

/-- A record that begins at the first message of an array, before or after `dev.cnt` is set. -/
theorem withinBuffers_first {msgs : MsgArray} {d : MsmI2cDev} (hmsg : d.msg = some ⟨msgs, 0⟩)
    (hrem : d.rem = msgs.num) (hpos : d.pos = -1)
    (hcnt : d.cnt = 0 ∨ d.cnt = (msgs.msgs.head msgs.nonempty).len) : WithinBuffers d := by
  intro p hp
  obtain rfl : (⟨msgs, 0⟩ : MsgPtr) = p := Option.some.inj (hmsg.symm.trans hp)
  refine ⟨msgs.msgs.head msgs.nonempty, ?_, ?_, ?_, ?_, ?_, ?_⟩
  · show msgs.msgs[0]? = _
    rw [← List.head?_eq_getElem?, List.head?_eq_some_head msgs.nonempty]
  · show ((0 : Nat) : Int) + d.rem ≤ msgs.num
    omega
  · omega
  · omega
  · omega
  · omega

/-! ### The invariant -/

/-- The events of the engine that leave `dev.ret` and `timeout` alone. -/
def Event.isEngine : Event → Bool
  | .status .engine _ => true
  | .address _ _      => true
  | .sent _ _ _       => true
  | .stop _           => true
  | .stored _ _ _     => true
  | .dropped _        => true
  | _                 => false

/-- `J` survives the engine, as long as it works for arrays in `Own`. -/
structure Survives (Own : MsgArray → Prop) (J : Int → Int → History → Prop) : Prop where
  push : ∀ r t h e, J r t h → e.isEngine = true → (∀ p, e.msg? = some p → Own p.array) →
    J r t (e :: h)
  failed : ∀ r t h p v, J r t h → Own p.array → Event.status .engine v ∈ h →
    hasError v = true → J error errTimedOut (.aborted p :: h)
  done : ∀ r t h, J r t h → J r 0 (.done :: h)

/-- The engine works for an array in `Own` and stays in its buffers, and `J` holds. -/
structure Sound (Own : MsgArray → Prop) (J : Int → Int → History → Prop) (s : World) : Prop where
  record : WithinBuffers s.dev
  own : ∀ p, s.dev.msg = some p → Own p.array
  isolated : Isolated s.log
  facts : J s.dev.ret s.timeout s.log

variable {Own : MsgArray → Prop} {J : Int → Int → History → Prop} {b : Board}

/-- A step of the engine that leaves an event. -/
theorem Sound.step {s s' : World} (hJ : Survives Own J) (h : Sound Own J s) {e : Event}
    (he : e.isEngine = true) (hlog : s'.log = e :: s.log) (hret : s'.dev.ret = s.dev.ret)
    (htimeout : s'.timeout = s.timeout) (hmsg : s'.dev.msg = s.dev.msg)
    (hrecord : WithinBuffers s'.dev) (hown : ∀ p, e.msg? = some p → s.dev.msg = some p)
    (haccess : ∀ p a, e.access? = some (p, a) → InBuffer p a) : Sound Own J s' where
  record := hrecord
  own p hp := h.own p (hmsg ▸ hp)
  isolated := by
    rw [hlog]
    exact h.isolated.cons haccess
  facts := by
    rw [hlog, hret, htimeout]
    exact hJ.push _ _ _ _ h.facts he fun p hp => h.own p (hown p hp)

theorem Sound.stopRequested {s : World} (hJ : Survives Own J) (h : Sound Own J s) :
    Sound Own J s.stopRequested := by
  by_cases hdue : s.StopDue
  · refine h.step hJ (e := .stop lastByte) rfl (if_pos hdue) rfl rfl rfl h.record ?_ ?_
    · exact fun _ hnone => nomatch hnone
    · exact fun _ _ hnone => nomatch hnone
  · have hlog : s.stopRequested.log = s.log := if_neg hdue
    exact {
      record := h.record
      own := h.own
      isolated := by
        rw [hlog]
        exact h.isolated
      facts := by
        rw [hlog]
        exact h.facts }

theorem Sound.stopRepeated {s : World} (hJ : Survives Own J) (h : Sound Own J s) :
    Sound Own J s.stopRepeated := by
  by_cases hodd : s.dev.flushCnt % 2 = 1
  · refine h.step hJ (e := .stop lastByte) rfl (if_pos hodd) rfl rfl rfl h.record ?_ ?_
    · exact fun _ hnone => nomatch hnone
    · exact fun _ _ hnone => nomatch hnone
  · have hlog : s.stopRepeated.log = s.log := if_neg hodd
    exact {
      record := h.record
      own := h.own
      isolated := by
        rw [hlog]
        exact h.isolated
      facts := by
        rw [hlog]
        exact h.facts }

/-- The next byte is in the buffer. -/
theorem inBuffer_next {s : World} {p : MsgPtr} {m : I2cMsg}
    (h : InRange s.dev.rem s.dev.pos s.dev.cnt p m) (hpos : 0 ≤ s.dev.pos)
    (hcnt : s.dev.cnt ≠ 0) : InBuffer p (s.bufAddress m) := by
  have hnonneg := h.nonneg
  have hends := h.ends
  refine ⟨m, h.deref, ?_, ?_⟩
  · show m.buf ≤ (m.buf + s.dev.pos).toNat
    omega
  · show (m.buf + s.dev.pos).toNat < m.buf + m.len
    omega

/-- After a byte the engine is still in range. -/
theorem withinBuffers_next {s : World} {d : MsmI2cDev} {p : MsgPtr} {m : I2cMsg}
    (h : InRange s.dev.rem s.dev.pos s.dev.cnt p m) (hmsg : d.msg = some p)
    (hrem : d.rem = s.dev.rem) (hpos : d.pos = s.dev.pos + 1) (hcnt : d.cnt = s.dev.cnt - 1)
    (hne : s.dev.cnt ≠ 0) : WithinBuffers d := by
  intro p' hp'
  obtain rfl : p' = p := Option.some.inj (hp'.symm.trans hmsg)
  rw [hrem, hpos, hcnt]
  have hnonneg := h.nonneg
  have hfits := h.fits
  have hends := h.ends
  have hlow := h.low
  exact ⟨m, h.deref, h.messages, by omega, by omega, by omega, by omega⟩

/-- **The handler** keeps the invariant. -/
theorem sound_rule (b : Board) (hJ : Survives Own J) :
    EngineRule b (Sound Own J) (fun v s => Event.status .engine v ∈ s.log ∧ Sound Own J s) where
  status s h := by
    refine ⟨List.mem_cons_self, ?_⟩
    refine h.step hJ (e := .status .engine (b.status s.log)) rfl rfl rfl rfl rfl h.record ?_ ?_
    · exact fun _ hnone => nomatch hnone
    · exact fun _ _ hnone => nomatch hnone
  rest v s h := h.2
  deref s p h hp := by
    obtain ⟨m, hm⟩ := h.record p hp
    exact ⟨m, hm.deref⟩
  failed v s p h hp hv := {
    record := h.2.record
    own := h.2.own
    isolated := h.2.isolated.cons fun _ _ hnone => nomatch hnone
    facts := hJ.failed _ _ _ p v h.2.facts (h.2.own p hp) h.1 hv }
  addressed v s p m h hat _ hneg := by
    obtain ⟨hstatus, h⟩ := h
    have hrange := h.record.at_ hat
    have hlow := hrange.low
    have hfits := hrange.fits
    refine ⟨List.mem_cons_of_mem _ hstatus, ?_⟩
    refine h.step hJ (e := .address p _) rfl rfl rfl rfl rfl ?_ ?_ ?_
    · intro p' hp'
      obtain rfl : p' = p := Option.some.inj (hp'.symm.trans hat.1)
      refine ⟨m, hat.2, hrange.messages, ?_, hrange.nonneg, hfits, ?_⟩
      · show -1 ≤ s.dev.pos + 1
        omega
      · show s.dev.pos + 1 + s.dev.cnt ≤ m.len
        omega
    · intro p' hp'
      obtain rfl : p = p' := Option.some.inj hp'
      exact hat.1
    · exact fun _ _ hnone => nomatch hnone
  byteSent v s p m h hat _ hpos _ hcnt := by
    obtain ⟨hstatus, h⟩ := h
    have hrange := h.record.at_ hat
    refine ⟨List.mem_cons_of_mem _ hstatus, ?_⟩
    refine h.step hJ (e := .sent p (s.bufAddress m) _) rfl rfl rfl rfl rfl ?_ ?_ ?_
    · exact withinBuffers_next hrange hat.1 rfl rfl rfl hcnt
    · intro p' hp'
      obtain rfl : p = p' := Option.some.inj hp'
      exact hat.1
    · intro p' a hp'
      obtain ⟨rfl, rfl⟩ := Prod.mk.inj (Option.some.inj hp')
      exact inBuffer_next hrange hpos hcnt
  byteStored v s p m h hat _ _ hpos hcnt := by
    have hrange := h.2.record.at_ hat
    refine (h.2.stopRequested hJ).step hJ (e := .stored p (s.bufAddress m) _)
      rfl rfl rfl rfl rfl ?_ ?_ ?_
    · exact withinBuffers_next hrange hat.1 rfl rfl rfl hcnt
    · intro p' hp'
      obtain rfl : p = p' := Option.some.inj hp'
      exact hat.1
    · intro p' a hp'
      obtain ⟨rfl, rfl⟩ := Prod.mk.inj (Option.some.inj hp')
      exact inBuffer_next hrange hpos hcnt
  byteDropped v s p m h hat _ _ := by
    refine (h.2.stopRepeated hJ).step hJ (e := .dropped _) rfl rfl rfl rfl rfl h.2.record ?_ ?_
    · exact fun _ hnone => nomatch hnone
    · exact fun _ _ hnone => nomatch hnone
  advanced s p m h hat _ _ hrem := by
    have hindex := (h.record.at_ hat).messages
    have hlt : p.index + 1 < p.array.msgs.length := by omega
    have hnext : MsgPtr.deref? { p with index := p.index + 1 } = some p.array.msgs[p.index + 1] :=
      List.getElem?_eq_getElem hlt
    refine ⟨p.array.msgs[p.index + 1], hnext, ?_⟩
    exact {
      record := by
        intro p' hp'
        obtain rfl := Option.some.inj hp'
        refine ⟨p.array.msgs[p.index + 1], inRange_start hnext ?_⟩
        show ((p.index + 1 : Nat) : Int) + (s.dev.rem - 1) ≤ p.array.msgs.length
        omega
      own := by
        intro p' hp'
        obtain rfl := Option.some.inj hp'
        exact h.own p hat.1
      isolated := h.isolated
      facts := h.facts }
  completed s p m h _ _ _ _ _ := {
    record := h.record
    own := h.own
    isolated := h.isolated.cons fun _ _ hnone => nomatch hnone
    facts := hJ.done _ _ _ h.facts }

/-- An event of the engine, with those that change `dev.ret` or `timeout`. -/
def Event.ofEngine : Event → Bool
  | .aborted _ => true
  | .done      => true
  | e          => e.isEngine

/-- What is known of the history survives if no event of the engine refutes it. -/
theorem Survives.history {X : History → Prop} (hX : ∀ e h, X h → e.ofEngine = true →
    (∀ p, e.msg? = some p → Own p.array) → X (e :: h)) : Survives Own (fun _ _ h => X h) where
  push r t h e hh he hmsg := by
    refine hX e h hh ?_ hmsg
    cases e <;> first | rfl | exact he
  failed r t h p v hh hown _ _ := by
    refine hX _ h hh rfl fun p' hp' => ?_
    obtain rfl : p = p' := Option.some.inj hp'
    exact hown
  done r t h hh := hX _ h hh rfl fun _ hnone => nomatch hnone

theorem Survives.and {K : Int → Int → History → Prop} (hJ : Survives Own J)
    (hK : Survives Own K) : Survives Own (fun r t h => J r t h ∧ K r t h) where
  push r t h e hh he hmsg := ⟨hJ.push r t h e hh.1 he hmsg, hK.push r t h e hh.2 he hmsg⟩
  failed r t h p v hh hown hstatus hv :=
    ⟨hJ.failed r t h p v hh.1 hown hstatus hv, hK.failed r t h p v hh.2 hown hstatus hv⟩
  done r t h hh := ⟨hJ.done r t h hh.1, hK.done r t h hh.2⟩

theorem Sound.mono {J' : Int → Int → History → Prop} {s : World} (h : Sound Own J s)
    (hJ : J s.dev.ret s.timeout s.log → J' s.dev.ret s.timeout s.log) : Sound Own J' s :=
  ⟨h.record, h.own, h.isolated, hJ h.facts⟩

/-- The handler keeps the invariant together with what no event refutes. -/
theorem sound_isr (b : Board) (hJ : Survives Own J) {X : History → Prop}
    (hX : ∀ e h, X h → X (e :: h)) : Stays (fun s => Sound Own J s ∧ X s.log) (isr b) := by
  have hboth : Survives Own (fun r t h => J r t h ∧ X h) :=
    hJ.and (Survives.history fun e h hh _ _ => hX e h hh)
  refine (sound_rule b hboth).isr.mono ?_ ?_
  · rintro s ⟨hs, hx⟩
    exact hs.mono fun hfacts => ⟨hfacts, hx⟩
  · intro _ s hs
    exact ⟨hs.mono And.left, hs.facts.2⟩

/-- An event of none of the arrays, with `dev` and `timeout` as before. -/
theorem Sound.push {s : World} (h : Sound Own J s) {e : Event} (he : e.access? = none)
    (hfacts : J s.dev.ret s.timeout (e :: s.log)) : Sound Own J (s.push e) where
  record := h.record
  own := h.own
  isolated := h.isolated.cons fun p a haccess => by
    rw [he] at haccess
    exact absurd haccess (Option.some_ne_none _).symm
  facts := hfacts

end HtcLeo.I2c

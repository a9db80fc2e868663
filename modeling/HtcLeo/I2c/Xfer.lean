import HtcLeo.I2c.Engine

namespace HtcLeo.I2c

open Prog

/-!
# I2CDxe — transfers

`msm_i2c_poll_notbusy`, `msm_i2c_recover_bus_busy` and `msm_i2c_xfer`.  `pre` is what runs at a
place of the call, before the statement there; between statements that touch neither shared
data nor the hardware nothing is lost by leaving places out.

* `xfer` — a transfer.
* `interrupts` — what runs at a place of a call that nothing but the interrupt disturbs.
* `callbacks` — the same when a timer callback can make calls of its own there.
-/

/-! ### The code -/

/-- `msm_i2c_poll_notbusy`, with so many retries left. -/
def pollNotbusy (b : Board) (pre : Prog World Unit) (reader : Reader) : Nat → Prog World Int
  | 0         => return errTimedOut
  | tries + 1 => do
      pre
      let status ← readStatus b reader
      if busActive status then pollNotbusy b pre reader tries else return 0

/-- An access to the hardware that leaves an event. -/
def access (pre : Prog World Unit) (e : Event) : Prog World Unit := do
  pre
  emit e

/-- `gGpio->Get`. -/
def pinGet (b : Board) (pre : Prog World Unit) (pin : Pin) : Prog World Bool := do
  pre
  query fun s => (b.pin s.log pin, s.push (.pinGet pin (b.pin s.log pin)))

/-- One pulse of the clock pin by `msm_i2c_recover_bus_busy`; returns `gpio_clk_status`. -/
def pulse (b : Board) (pre : Prog World Unit) : Prog World Bool := do
  access pre (.pinLow .scl)
  access pre (.pinLow .sda)
  access pre (.pinInput .scl)
  let _ ← pinGet b pre .scl
  let _ ← pinGet b pre .scl
  let gpioClkStatus ← pinGet b pre .scl
  access pre (.pinInput .sda)
  return gpioClkStatus

/-- The pulses of `msm_i2c_recover_bus_busy`, with so many left. -/
def pulses (b : Board) (pre : Prog World Unit) : Nat → Bool → Prog World Unit
  | 0, _                       => return ()
  | left + 1, gpioClkStatus => do
      if (← pinGet b pre .sda) && gpioClkStatus then
        return ()
      else
        let gpioClkStatus ← pulse b pre
        pulses b pre left gpioClkStatus

/-- A last word for a controller that still holds a byte or the bus. -/
def releaseBus (b : Board) (pre : Prog World Unit) (status : U32) : Prog World Unit := do
  if rdFull status then
    access pre (.stop lastByte)
    pre
    modify fun s => s.push (.dropped (b.data s.log))
  else if busMaster status then
    access pre (.stop (lastByte ||| 0xff#16))
  else
    return ()

/-- `msm_i2c_recover_bus_busy`.  `msm_i2c_probe` refuses a `pdata` without `set_mux_to_i2c`. -/
def recoverBusBusy (b : Board) (pre : Prog World Unit) (call : MsgArray) (stage : Stage) :
    Prog World Int := do
  pre
  let status ← readStatus b (.busy call stage)
  if !busActive status && !wrFull status then
    return 0
  else
    access pre (.mux false)
    releaseBus b pre status
    pulses b pre 9 false
    access pre (.mux true)
    pre
    let status ← readStatus b (.recovered call stage)
    if busActive status then return errNotReady else return 0

/-- The stores that set up a transfer; `msgs->len` is read through the argument. -/
def setUp (pre : Place → Prog World Unit) (msgs : MsgArray) : Prog World Unit := do
  setDev (pre (.setup 0)) fun d => { d with msg := some ⟨msgs, 0⟩ }
  setDev (pre (.setup 1)) fun d => { d with rem := msgs.num }
  setDev (pre (.setup 2)) fun d => { d with pos := -1 }
  setDev (pre (.setup 3)) fun d => { d with ret := msgs.num }
  setDev (pre (.setup 4)) fun d => { d with needFlush := false }
  setDev (pre (.setup 5)) fun d => { d with flushCnt := 0 }
  setDev (pre (.setup 6)) fun d => { d with cnt := (msgs.msgs.head msgs.nonempty).len }

/-- `ret = dev.ret`. -/
def takeRet (pre : Prog World Unit) (msgs : MsgArray) : Prog World Int := do
  pre
  query fun s => (s.dev.ret, s.push (.taken msgs s.dev.ret))

/-- The statements that end it; returns what `dev.ret` was. -/
def tearDown (pre : Place → Prog World Unit) (msgs : MsgArray) : Prog World Int := do
  let ret ← takeRet (pre (.teardown 0)) msgs
  setDev (pre (.teardown 1)) fun d => { d with msg := none }
  setDev (pre (.teardown 2)) fun d => { d with rem := 0 }
  setDev (pre (.teardown 3)) fun d => { d with pos := 0 }
  setDev (pre (.teardown 4)) fun d => { d with ret := 0 }
  setDev (pre (.teardown 5)) fun d => { d with flushCnt := 0 }
  setDev (pre (.teardown 6)) fun d => { d with cnt := 0 }
  return ret

/-- `err`. -/
def finish (pre : Place → Prog World Unit) (ret : Int) : Prog World Int := do
  access (pre .disable) (.irq false)
  access (pre .disable) (.clk false)
  pre .exit
  return ret

/-- The result of a transfer whose bus is free. -/
def verdict (pre : Place → Prog World Unit) (ret : Int) : Prog World Int := do
  pre .verdict
  query fun s => (if s.timeout = errTimedOut then errTimedOut else ret, s)

/-- `msm_i2c_xfer` from the end of the set-up on. -/
def xferRun (b : Board) (pre : Place → Prog World Unit) (msgs : MsgArray) : Prog World Int := do
  interruptLocked b fun k => pre (.engine k)
  let retWait ← pollNotbusy b (pre (.wait .second)) (.wait msgs .second) 200
  let ret ← tearDown pre msgs
  let retWait ← (if retWait ≠ 0 then recoverBusBusy b (pre (.recovery .second)) msgs .second
    else pure 0 : Prog World Int)
  if retWait ≠ 0 then
    finish pre ret
  else
    let ret ← verdict pre ret
    let _ ← (if ret < 0 then recoverBusBusy b (pre (.recovery .last)) msgs .last
      else pure 0 : Prog World Int)
    finish pre ret

/-- `msm_i2c_xfer`. -/
def xfer (b : Board) (pre : Place → Prog World Unit) (msgs : MsgArray) : Prog World Int := do
  access (pre .entry) (.clk true)
  access (pre .enable) (.irq true)
  let ret ← pollNotbusy b (pre (.wait .first)) (.wait msgs .first) 200
  let ret ← (if ret ≠ 0 then recoverBusBusy b (pre (.recovery .first)) msgs .first
    else pure 0 : Prog World Int)
  if ret ≠ 0 then
    finish pre ret
  else
    setUp pre msgs
    xferRun b pre msgs

/-! ### What comes between -/

/-- So many runs of the handler. -/
def handlers (b : Board) : Nat → Prog World Unit
  | 0     => return ()
  | n + 1 => do
      isr b
      handlers b n

/-- The interrupts that come at a place. -/
def interrupts (b : Board) (place : Place) : Prog World Unit := fun s =>
  if irqEnabled s.log then handlers b (b.irqs place s.log) s else (some (), s)

/-- The timer callbacks that come at a place: `callback` says which call one makes there, if
    any.  They run at a higher task priority, so that only interrupts disturb their calls. -/
def callbacks (b : Board) (callback : Place → History → Option MsgArray) (place : Place) :
    Prog World Unit := do
  interrupts b place
  match ← query fun s => (callback place s.log, s) with
  | none      => return ()
  | some msgs =>
      let ret ← xfer b (interrupts b) msgs
      emit (.returned place msgs ret)
      interrupts b place

/-! ### The start of a transfer -/

/-- `dev` after the set-up. -/
def armedDev (msgs : MsgArray) : MsmI2cDev where
  msg := some ⟨msgs, 0⟩
  rem := msgs.num
  pos := -1
  cnt := (msgs.msgs.head msgs.nonempty).len
  ret := msgs.num
  needFlush := false
  flushCnt := 0

/-- The set-up done. -/
def World.armed (s : World) (msgs : MsgArray) : World := { s with dev := armedDev msgs }

/-! ### Rules -/

variable {b : Board} {msgs : MsgArray}

/-- An event of a busy wait, of a recovery or of the interrupt line. -/
def Event.isPoll : Event → Bool
  | .irq _      => true
  | .status _ _ => true
  | .stop _     => true
  | .dropped _  => true
  | .mux _      => true
  | .pinGet _ _ => true
  | .pinLow _   => true
  | .pinInput _ => true
  | _           => false

/-- An event outside a transfer: it is no word, no stored byte and no mark of a transfer. -/
def Event.isQuiet : Event → Bool
  | .clk _ => true
  | e      => e.isPoll

theorem Event.quiet_of_poll {e : Event} (he : e.isPoll = true) : e.isQuiet = true := by
  cases e <;> first | rfl | exact he

/-- `pre` keeps `A` at a place. -/
abbrev Stays (A : World → Prop) (x : Prog World Unit) : Prop := Completes A x (fun _ => A)

/-- Nothing comes at a place. -/
abbrev Nothing (x : Prog World Unit) : Prop := ∀ s, x s = (some (), s)

theorem Nothing.stays {x : Prog World Unit} (h : Nothing x) (A : World → Prop) : Stays A x :=
  fun s hs => ⟨(), s, h s, hs⟩

/-- One more run of the handler comes after the others. -/
theorem handlers_succ (b : Board) (n : Nat) :
    handlers b (n + 1) = handlers b n >>= fun _ => isr b := by
  induction n with
  | zero =>
    show (isr b >>= fun _ => pure ()) = _
    rw [bind_pure]
    rfl
  | succ n ih =>
    show (isr b >>= fun _ => handlers b (n + 1)) = (isr b >>= fun _ => handlers b n) >>= _
    rw [ih, bind_assoc]

/-- What the handler keeps, any number of its runs keep. -/
theorem handlers_completes {I : World → Prop} (h : Stays I (isr b)) (n : Nat) :
    Stays I (handlers b n) := by
  induction n with
  | zero => exact Completes.pure fun s hs => hs
  | succ n ih => exact Completes.bind h fun _ => ih

theorem interrupts_completes {I : World → Prop} (h : Stays I (isr b)) (place : Place) :
    Stays I (interrupts b place) := by
  intro s hs
  unfold interrupts
  split
  · exact handlers_completes h _ s hs
  · exact ⟨(), s, rfl, hs⟩

theorem interrupts_nothing {place : Place} (h : ∀ log, b.irqs place log = 0) :
    Nothing (interrupts b place) := by
  intro s
  unfold interrupts
  rw [h]
  split
  · rfl
  · rfl

/-- Without a message the handler only reads the status. -/
theorem isr_atRest {s : World} (h : s.dev.msg = none) : isr b s = (some (), s.statusRead b) := by
  apply bind_of (undisturbed_apply 0 s)
  apply bind_of (show readStatus b .engine s = (some (b.status s.log), s.statusRead b) from rfl)
  have hrest : (s.statusRead b).dev.msg = none := h
  exact handle_atRest (b.status s.log) hrest

/-- **Waiting.**  `A n` holds with `n` retries left. -/
theorem pollNotbusy_completes {A : Nat → World → Prop} {Q : Int → World → Prop}
    {pre : Prog World Unit} {reader : Reader} (hpre : ∀ n, Stays (A n) pre)
    (hactive : ∀ n s, A (n + 1) s → busActive (b.status s.log) = true →
      A n (s.push (.status reader (b.status s.log))))
    (hidle : ∀ n s, A (n + 1) s → busActive (b.status s.log) = false →
      Q 0 (s.push (.status reader (b.status s.log))))
    (hend : ∀ s, A 0 s → Q errTimedOut s) (n : Nat) :
    Completes (A n) (pollNotbusy b pre reader n) Q := by
  induction n with
  | zero => exact Completes.pure hend
  | succ n ih =>
    refine Completes.bind (hpre (n + 1)) fun _ => ?_
    intro s hs
    have hread : readStatus b reader s = (some (b.status s.log), _) := rfl
    cases hbusy : busActive (b.status s.log) with
    | true =>
      obtain ⟨r, s', hrun, hq⟩ := ih _ (hactive n s hs hbusy)
      refine ⟨r, s', bind_of hread ?_, hq⟩
      rw [if_pos hbusy]
      exact hrun
    | false =>
      refine ⟨0, _, bind_of hread ?_, hidle n s hs hbusy⟩
      rw [if_neg (Bool.eq_false_iff.mp hbusy)]
      rfl

theorem access_completes {A B : World → Prop} {pre : Prog World Unit} {e : Event}
    (hpre : Stays A pre) (he : ∀ s, A s → B (s.push e)) :
    Completes A (access pre e) (fun _ => B) :=
  Completes.bind hpre fun _ => Completes.modify he

section Recovery

variable {A : World → Prop} {pre : Prog World Unit}

theorem pinGet_completes (hpre : Stays A pre) (hpush : ∀ s e, e.isPoll = true → A s → A (s.push e))
    (pin : Pin) : Completes A (pinGet b pre pin) (fun _ => A) :=
  Completes.bind hpre fun _ => Completes.query fun s hs => hpush s _ rfl hs

theorem pulse_completes (hpre : Stays A pre)
    (hpush : ∀ s e, e.isPoll = true → A s → A (s.push e)) :
    Completes A (pulse b pre) (fun _ => A) := by
  refine Completes.bind (access_completes hpre fun s hs => hpush s _ rfl hs) fun _ => ?_
  refine Completes.bind (access_completes hpre fun s hs => hpush s _ rfl hs) fun _ => ?_
  refine Completes.bind (access_completes hpre fun s hs => hpush s _ rfl hs) fun _ => ?_
  refine Completes.bind (pinGet_completes hpre hpush .scl) fun _ => ?_
  refine Completes.bind (pinGet_completes hpre hpush .scl) fun _ => ?_
  refine Completes.bind (pinGet_completes hpre hpush .scl) fun _ => ?_
  refine Completes.bind (access_completes hpre fun s hs => hpush s _ rfl hs) fun _ => ?_
  exact Completes.pure fun s hs => hs

theorem pulses_completes (hpre : Stays A pre)
    (hpush : ∀ s e, e.isPoll = true → A s → A (s.push e)) (left : Nat) (high : Bool) :
    Stays A (pulses b pre left high) := by
  induction left generalizing high with
  | zero => exact Completes.pure fun s hs => hs
  | succ left ih =>
    refine Completes.bind (pinGet_completes hpre hpush .sda) fun level => ?_
    split
    · exact Completes.pure fun s hs => hs
    · exact Completes.bind (pulse_completes hpre hpush) fun high => ih high

theorem releaseBus_completes (hpre : Stays A pre)
    (hpush : ∀ s e, e.isPoll = true → A s → A (s.push e)) (status : U32) :
    Stays A (releaseBus b pre status) := by
  unfold releaseBus
  split
  · refine Completes.bind (access_completes hpre fun s hs => hpush s _ rfl hs) fun _ => ?_
    exact Completes.bind hpre fun _ => Completes.modify fun s hs => hpush s _ rfl hs
  · split
    · exact access_completes hpre fun s hs => hpush s _ rfl hs
    · exact Completes.pure fun s hs => hs

/-- **Recovery** keeps what does not depend on the events outside transfers. -/
theorem recoverBusBusy_completes (hpre : Stays A pre)
    (hpush : ∀ s e, e.isPoll = true → A s → A (s.push e)) (call : MsgArray) (stage : Stage) :
    Completes A (recoverBusBusy b pre call stage)
      (fun ret s => A s ∧ (ret = 0 ∨ ret = errNotReady)) := by
  refine Completes.bind hpre fun _ => ?_
  refine Completes.bind (M := fun _ => A) (Completes.query fun s hs => hpush s _ rfl hs)
    fun status => ?_
  split
  · exact Completes.pure fun s hs => ⟨hs, Or.inl rfl⟩
  · refine Completes.bind (access_completes hpre fun s hs => hpush s _ rfl hs) fun _ => ?_
    refine Completes.bind (releaseBus_completes hpre hpush status) fun _ => ?_
    refine Completes.bind (pulses_completes hpre hpush 9 false) fun _ => ?_
    refine Completes.bind (access_completes hpre fun s hs => hpush s _ rfl hs) fun _ => ?_
    refine Completes.bind hpre fun _ => ?_
    refine Completes.bind (M := fun _ => A) (Completes.query fun s hs => hpush s _ rfl hs)
      fun status => ?_
    split
    · exact Completes.pure fun s hs => ⟨hs, Or.inr rfl⟩
    · exact Completes.pure fun s hs => ⟨hs, Or.inl rfl⟩

end Recovery

theorem setDev_completes {A B : World → Prop} {pre : Prog World Unit} {f : MsmI2cDev → MsmI2cDev}
    (hpre : Stays A pre) (hf : ∀ s, A s → B { s with dev := f s.dev }) :
    Completes A (setDev pre f) (fun _ => B) :=
  Completes.bind hpre fun _ => Completes.modify hf

variable {pre : Place → Prog World Unit}

/-- The record when `dev.ret` has been set. -/
def begun (msgs : MsgArray) (d : MsmI2cDev) : MsmI2cDev :=
  { d with msg := some ⟨msgs, 0⟩, rem := msgs.num, pos := -1, ret := msgs.num }

/-- **Set-up**, with nothing between its first four stores. -/
theorem setUp_completes {A B C : World → Prop} (hA : Stays A (pre (.setup 0)))
    (hfirst : ∀ k, 1 ≤ k → k ≤ 3 → Nothing (pre (.setup k)))
    (hbegun : ∀ s, A s → B { s with dev := begun msgs s.dev })
    (hrest : ∀ k, 4 ≤ k → Stays B (pre (.setup k)))
    (hflush : ∀ s, B s → B { s with dev := { s.dev with needFlush := false } })
    (hcount : ∀ s, B s → B { s with dev := { s.dev with flushCnt := 0 } })
    (hend : ∀ s, B s →
      C { s with dev := { s.dev with cnt := (msgs.msgs.head msgs.nonempty).len } }) :
    Completes A (setUp pre msgs) (fun _ => C) := by
  let A₁ (s : World) : Prop := ∃ s₀, A s₀ ∧ s = { s₀ with dev := { s₀.dev with
    msg := some ⟨msgs, 0⟩ } }
  let A₂ (s : World) : Prop := ∃ s₀, A s₀ ∧ s = { s₀ with dev := { s₀.dev with
    msg := some ⟨msgs, 0⟩, rem := msgs.num } }
  let A₃ (s : World) : Prop := ∃ s₀, A s₀ ∧ s = { s₀ with dev := { s₀.dev with
    msg := some ⟨msgs, 0⟩, rem := msgs.num, pos := -1 } }
  have h₁ : ∀ s, A s → A₁ { s with dev := { s.dev with msg := some ⟨msgs, 0⟩ } } :=
    fun s hs => ⟨s, hs, rfl⟩
  have h₂ : ∀ s, A₁ s → A₂ { s with dev := { s.dev with rem := msgs.num } } := by
    rintro s ⟨s₀, hs, rfl⟩
    exact ⟨s₀, hs, rfl⟩
  have h₃ : ∀ s, A₂ s → A₃ { s with dev := { s.dev with pos := -1 } } := by
    rintro s ⟨s₀, hs, rfl⟩
    exact ⟨s₀, hs, rfl⟩
  have h₄ : ∀ s, A₃ s → B { s with dev := { s.dev with ret := msgs.num } } := by
    rintro s ⟨s₀, hs, rfl⟩
    exact hbegun s₀ hs
  have hnothing : ∀ k, 1 ≤ k → k ≤ 3 → ∀ D : World → Prop, Stays D (pre (.setup k)) :=
    fun k hlow hhigh D => (hfirst k hlow hhigh).stays D
  refine Completes.bind (setDev_completes hA h₁) fun _ => ?_
  refine Completes.bind (setDev_completes (hnothing 1 (by decide) (by decide) A₁) h₂) fun _ => ?_
  refine Completes.bind (setDev_completes (hnothing 2 (by decide) (by decide) A₂) h₃) fun _ => ?_
  refine Completes.bind (setDev_completes (hnothing 3 (by decide) (by decide) A₃) h₄) fun _ => ?_
  refine Completes.bind (setDev_completes (hrest 4 (by decide)) hflush) fun _ => ?_
  refine Completes.bind (setDev_completes (hrest 5 (by decide)) hcount) fun _ => ?_
  exact setDev_completes (hrest 6 (by decide)) hend

/-- The direct call of the engine, with nothing between its statements once it has tested
    `dev.msg`.  `M v` holds with the status `v` read. -/
theorem direct_completes {A : World → Prop} {M : U32 → World → Prop}
    (hbefore : Stays A (pre (.engine 0)))
    (hstatus : ∀ s, A s → M (b.status s.log) (s.statusRead b))
    (htest : ∀ v, Stays (M v) (pre (.engine 1)))
    (hnothing : ∀ k, 2 ≤ k → Nothing (pre (.engine k)))
    (hhandle : ∀ v, Completes (M v) (handle b v) (fun _ => A)) :
    Stays A (interruptLocked b fun k => pre (.engine k)) := by
  have hpre : (fun k => pre (.engine k)) = fun k => match k with
      | 0     => pre (.engine 0)
      | 1     => pre (.engine 1)
      | _ + 2 => (pure () : Prog World Unit) := by
    funext k s
    match k with
    | 0     => rfl
    | 1     => rfl
    | k + 2 => exact hnothing (k + 2) (by omega) s
  have hdirect : interruptLocked b (fun k => pre (.engine k))
      = (pre (.engine 0) >>= fun _ => readStatus b .engine >>= fun v =>
          pre (.engine 1) >>= fun _ => handle b v) := by
    rw [hpre]
    unfold interruptLocked handle getDev
    simp only [bind_assoc]
    rfl
  rw [hdirect]
  refine Completes.bind hbefore fun _ => ?_
  refine Completes.bind (M := M) (Completes.query hstatus) fun v => ?_
  exact Completes.bind (htest v) fun _ => hhandle v

/-- **Tear-down.**  `C k r` holds with `r` taken from `dev.ret`, and `dev.msg` and `k` more
    fields cleared. -/
theorem tearDown_completes {A : World → Prop} {B : Int → World → Prop}
    {C : Nat → Int → World → Prop} (hA : Stays A (pre (.teardown 0)))
    (htake : ∀ s, A s → B s.dev.ret (s.push (.taken msgs s.dev.ret)))
    (hB : ∀ r, Stays (B r) (pre (.teardown 1)))
    (hmsg : ∀ r s, B r s → C 0 r { s with dev := { s.dev with msg := none } })
    (hC : ∀ k r place, 2 ≤ place → Stays (C k r) (pre (.teardown place)))
    (hrem : ∀ r s, C 0 r s → C 1 r { s with dev := { s.dev with rem := 0 } })
    (hpos : ∀ r s, C 1 r s → C 2 r { s with dev := { s.dev with pos := 0 } })
    (hret : ∀ r s, C 2 r s → C 3 r { s with dev := { s.dev with ret := 0 } })
    (hcount : ∀ r s, C 3 r s → C 4 r { s with dev := { s.dev with flushCnt := 0 } })
    (hcnt : ∀ r s, C 4 r s → C 5 r { s with dev := { s.dev with cnt := 0 } }) :
    Completes A (tearDown pre msgs) (C 5) := by
  refine Completes.bind (M := B) (Completes.bind hA fun _ => Completes.query htake) fun r => ?_
  refine Completes.bind (setDev_completes (hB r) (hmsg r)) fun _ => ?_
  refine Completes.bind (setDev_completes (hC 0 r 2 (by decide)) (hrem r)) fun _ => ?_
  refine Completes.bind (setDev_completes (hC 1 r 3 (by decide)) (hpos r)) fun _ => ?_
  refine Completes.bind (setDev_completes (hC 2 r 4 (by decide)) (hret r)) fun _ => ?_
  refine Completes.bind (setDev_completes (hC 3 r 5 (by decide)) (hcount r)) fun _ => ?_
  refine Completes.bind (setDev_completes (hC 4 r 6 (by decide)) (hcnt r)) fun _ => ?_
  exact Completes.pure fun s hs => hs

/-- The clean-up at `err`.  `C` holds once the clock is off. -/
theorem finish_completes {A C : World → Prop} (hdisable : Stays A (pre .disable))
    (hexit : Stays C (pre .exit)) (hpush : ∀ s e, e.isPoll = true → A s → A (s.push e))
    (hoff : ∀ s, A s → C (s.push (.clk false))) (ret : Int) :
    Completes A (finish pre ret) (fun r s => C s ∧ r = ret) := by
  refine Completes.bind (access_completes hdisable fun s hs => hpush s _ rfl hs) fun _ => ?_
  refine Completes.bind (access_completes hdisable hoff) fun _ => ?_
  refine Completes.bind hexit fun _ => ?_
  exact Completes.pure fun s hs => ⟨hs, rfl⟩

/-- **From the set-up on.**  `A` holds while the engine runs, `S w r` when the second wait has
    come to `w` and the result `r` has been taken, and `V r` when `r` is the verdict. -/
theorem xferRun_completes {A : World → Prop} {W V Q : Int → World → Prop}
    {S : Int → Int → World → Prop}
    (hdirect : Stays A (interruptLocked b fun k => pre (.engine k)))
    (hwait : Completes A
      (pollNotbusy b (pre (.wait .second)) (.wait msgs .second) 200) W)
    (hdown : ∀ w, Completes (W w) (tearDown pre msgs) (S w))
    (hS : ∀ w r, Stays (S w r) (pre (.recovery .second)) ∧ Stays (S w r) (pre .verdict))
    (hpushS : ∀ w r s e, e.isPoll = true → S w r s → S w r (s.push e))
    (hfail : ∀ w r, w ≠ 0 → Completes (S w r) (finish pre r) Q)
    (hverdict : ∀ w r s, S w r s → V (if s.timeout = errTimedOut then errTimedOut else r) s)
    (hV : ∀ r, Stays (V r) (pre (.recovery .last)))
    (hpushV : ∀ r s e, e.isPoll = true → V r s → V r (s.push e))
    (hend : ∀ r, Completes (V r) (finish pre r) Q) : Completes A (xferRun b pre msgs) Q := by
  refine Completes.bind hdirect fun _ => ?_
  refine Completes.bind hwait fun w => ?_
  refine Completes.bind (hdown w) fun r => ?_
  obtain ⟨hrecovery, hplace⟩ := hS w r
  refine Completes.bind (M := fun w' s => S w r s ∧ (w' ≠ 0 → w ≠ 0)) ?_ fun w' => ?_
  · by_cases hw : w ≠ 0
    · rw [if_pos hw]
      exact (recoverBusBusy_completes hrecovery (hpushS w r) msgs .second).mono (fun _ h => h)
        fun _ _ h => ⟨h.1, fun _ => hw⟩
    · rw [if_neg hw]
      exact Completes.pure fun s hs => ⟨hs, fun h => absurd rfl h⟩
  by_cases hw' : w' ≠ 0
  · -- the bus could not be recovered
    rw [if_pos hw']
    intro s hs
    exact hfail w r (hs.2 hw') s hs.1
  · rw [if_neg hw']
    refine Completes.bind (M := V) ?_ fun r' => ?_
    · refine Completes.mono (P := S w r) ?_ (fun s h => h.1) fun _ _ h => h
      exact Completes.bind hplace fun _ => Completes.query (hverdict w r)
    refine Completes.bind (M := fun _ => V r') ?_ fun _ => hend r'
    by_cases hr' : r' < 0
    · rw [if_pos hr']
      exact (recoverBusBusy_completes (hV r') (hpushV r') msgs .last).mono (fun _ h => h)
        fun _ _ h => h.1
    · rw [if_neg hr']
      exact Completes.pure fun s hs => hs

/-- **A transfer.**  `P` holds from the clock's enabling to the set-up. -/
theorem xfer_completes {P₀ P A : World → Prop} {Q : Int → World → Prop}
    (hentry : Completes P₀ (access (pre .entry) (.clk true)) (fun _ => P))
    (hP : Stays P (pre .enable) ∧ Stays P (pre (.wait .first)) ∧
      Stays P (pre (.recovery .first)))
    (hpush : ∀ s e, e.isPoll = true → P s → P (s.push e))
    (hfail : Completes P (finish pre errNotReady) Q)
    (hset : Completes P (setUp pre msgs) (fun _ => A))
    (hrun : Completes A (xferRun b pre msgs) Q) : Completes P₀ (xfer b pre msgs) Q := by
  obtain ⟨henable, hwait, hrecovery⟩ := hP
  refine Completes.bind hentry fun _ => ?_
  refine Completes.bind (access_completes henable fun s hs => hpush s _ rfl hs) fun _ => ?_
  refine Completes.bind (M := fun _ => P) ?_ fun w => ?_
  · exact pollNotbusy_completes (A := fun _ => P) (fun _ => hwait)
      (fun _ s hs _ => hpush s _ rfl hs) (fun _ s hs _ => hpush s _ rfl hs) (fun s hs => hs) 200
  refine Completes.bind (M := fun ret s => P s ∧ (ret = 0 ∨ ret = errNotReady)) ?_ fun ret => ?_
  · by_cases hw : w ≠ 0
    · rw [if_pos hw]
      exact recoverBusBusy_completes hrecovery hpush msgs .first
    · rw [if_neg hw]
      exact Completes.pure fun s hs => ⟨hs, Or.inl rfl⟩
  by_cases hret : ret ≠ 0
  · rw [if_pos hret]
    intro s hs
    obtain rfl : ret = errNotReady := hs.2.resolve_left hret
    exact hfail s hs.1
  · rw [if_neg hret]
    refine Completes.mono (P := P) ?_ (fun s h => h.1) fun _ _ h => h
    exact Completes.bind hset fun _ => hrun

end HtcLeo.I2c

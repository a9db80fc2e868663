import HtcLeo.I2c.Bus

namespace HtcLeo.I2c

open Prog

/-!
# I2CDxe — the transfer engine

`msm_i2c_fill_write_buffer`, `msm_i2c_read_buffer` and `msm_i2c_interrupt_locked`.  The handler
of the interrupt runs the last one undisturbed; `msm_i2c_xfer` also calls it directly, and then
something else can come between any two of its statements: `pre k` runs before statement `k`.

* `interruptLocked` — the engine.
* `isr` — the interrupt handler.
* `EngineRule` — what a property has to survive to hold after a run of the handler.
-/

/-! ### The code -/

/-- The element `dev.msg` points to. -/
def message (pre : Prog World Unit) : Prog World (MsgPtr × I2cMsg) := do
  pre
  derefMsg

/-- `dev.rem == 1 && dev.msg->len == 0`. -/
def isLastEmpty (pre : Prog World Unit) : Prog World Bool := do
  if (← getDev pre (·.rem)) = 1 then
    let (_, m) ← derefMsg
    return m.len = 0
  else
    return false

/-- `msm_i2c_fill_write_buffer`, the branch for the address word. -/
def fillAddress (pre : Nat → Prog World Unit) : Prog World Bool := do
  let (p, m) ← message (pre 5)
  let val := addrByte ||| m.addr <<< 1
  let (_, m) ← message (pre 6)
  let val := if m.isRead then val ||| 1#16 else val
  let last ← isLastEmpty (pre 7)
  let val := if last then val ||| lastByte else val
  pre 8
  emit (.address p val)
  setDev (pre 9) fun d => { d with pos := d.pos + 1 }
  return true

/-- `val = dev.msg->buf[dev.pos]`, with the address it is loaded from. -/
def takeByte (pre : Prog World Unit) : Prog World (MsgPtr × Nat × Byte) := do
  let (p, m) ← message pre
  query fun s =>
    let a := (m.buf + s.dev.pos).toNat
    ((p, a, s.mem a), s)

/-- `msm_i2c_fill_write_buffer`, the branch for a byte. -/
def fillByte (pre : Nat → Prog World Unit) : Prog World Bool := do
  let (p, a, byte) ← takeByte (pre 12)
  let val : Word := byte.setWidth 16
  let last ← getDev (pre 13) fun d => decide (d.cnt = 1 ∧ d.rem = 1)
  let val := if last then val ||| lastByte else val
  pre 14
  emit (.sent p a val)
  setDev (pre 15) fun d => { d with pos := d.pos + 1 }
  setDev (pre 16) fun d => { d with cnt := d.cnt - 1 }
  return true

/-- `msm_i2c_fill_write_buffer`.  The delay before each write has no effect. -/
def fillWriteBuffer (pre : Nat → Prog World Unit) : Prog World Bool := do
  if (← getDev (pre 4) (·.pos)) < 0 then
    fillAddress pre
  else
    let (_, m) ← message (pre 10)
    if m.isRead then
      return false
    else if (← getDev (pre 11) (·.cnt)) = 0 then
      return false
    else
      fillByte pre

/-- `writel(I2C_WRITE_DATA_LAST_BYTE, …)`. -/
def stopRequest (pre : Prog World Unit) : Prog World Unit := do
  pre
  emit (.stop lastByte)

/-- `switch (dev.cnt)`. -/
def requestStop (pre : Nat → Prog World Unit) : Prog World Unit := do
  let cnt ← getDev (pre 18) (·.cnt)
  if cnt = 1 then
    if (← getDev (pre 19) (·.pos)) ≠ 0 then
      return ()
    else
      setDev (pre 20) fun d => { d with needFlush := true }
      stopRequest (pre 21)
  else if cnt = 2 then
    stopRequest (pre 21)
  else
    return ()

/-- `dev.msg->buf[dev.pos] = readl(…)`. -/
def storeByte (b : Board) (pre : Prog World Unit) : Prog World Unit := do
  let (p, m) ← message pre
  modify fun s =>
    let a := (m.buf + s.dev.pos).toNat
    let byte := b.data s.log
    { s with mem := Memory.blit a 1 (fun _ => byte) s.mem, log := .stored p a byte :: s.log }

/-- `msm_i2c_read_buffer`, the branch for an expected byte. -/
def readByte (b : Board) (pre : Nat → Prog World Unit) : Prog World Unit := do
  requestStop pre
  storeByte b (pre 22)
  setDev (pre 23) fun d => { d with cnt := d.cnt - 1 }
  setDev (pre 24) fun d => { d with pos := d.pos + 1 }

/-- `if (dev.flush_cnt & 1)` request the stop again. -/
def repeatStop (pre : Nat → Prog World Unit) : Prog World Unit := do
  if (← getDev (pre 25) (·.flushCnt)) % 2 = 1 then stopRequest (pre 26) else return ()

/-- `msm_i2c_read_buffer`, the branch for surplus bytes. -/
def flush (b : Board) (pre : Nat → Prog World Unit) : Prog World Unit := do
  repeatStop pre
  pre 27
  modify fun s => s.push (.dropped (b.data s.log))
  if ← getDev (pre 28) (·.needFlush) then
    setDev (pre 29) fun d => { d with needFlush := false }
  else
    setDev (pre 29) fun d => { d with flushCnt := d.flushCnt + 1 }

/-- `(dev.msg->flags & I2C_M_RD) && dev.pos >= 0 && dev.cnt`. -/
def expectsByte (pre : Prog World Unit) : Prog World Bool := do
  let (_, m) ← message pre
  query fun s => (m.isRead && decide (0 ≤ s.dev.pos ∧ s.dev.cnt ≠ 0), s)

/-- `msm_i2c_read_buffer`. -/
def readBuffer (b : Board) (pre : Nat → Prog World Unit) : Prog World Unit := do
  if ← expectsByte (pre 17) then readByte b pre else flush b pre

/-- On to the next message. -/
def nextMsg (pre : Nat → Prog World Unit) : Prog World Unit := do
  setDev (pre 32) fun d => { d with rem := d.rem - 1 }
  setDev (pre 33) fun d => { d with msg := d.msg.map fun p => { p with index := p.index + 1 } }
  setDev (pre 34) fun d => { d with pos := -1 }
  let (_, m) ← message (pre 35)
  setDev (pure ()) fun d => { d with cnt := m.len }

/-- The end of `msm_i2c_interrupt_locked`: is the message, or the transfer, complete? -/
def advance (pre : Nat → Prog World Unit) (notDone : Bool) : Prog World Unit := do
  if ← getDev (pre 30) fun d => decide (0 ≤ d.pos ∧ d.cnt = 0) then
    if 1 < (← getDev (pre 31) (·.rem)) then
      nextMsg pre
    else if ← getDev (pre 36) fun d => !notDone && !d.needFlush then
      pre 37
      modify fun s => { s with timeout := 0, log := .done :: s.log }
    else
      return ()
  else
    return ()

/-- `out_err`. -/
def outErr (pre : Nat → Prog World Unit) (p : MsgPtr) : Prog World Unit := do
  pre 2
  modify fun s => { s with dev := { s.dev with ret := error }, log := .aborted p :: s.log }
  pre 3
  modify fun s => { s with timeout := errTimedOut }

/-- The part of `msm_i2c_interrupt_locked` after its tests. -/
def serve (b : Board) (pre : Nat → Prog World Unit) (status : U32) : Prog World Unit := do
  let notDone ← (if wrFull status then pure true else fillWriteBuffer pre : Prog World Bool)
  (if rdFull status then readBuffer b pre else pure () : Prog World Unit)
  advance pre notDone

/-- `msm_i2c_interrupt_locked`. -/
def interruptLocked (b : Board) (pre : Nat → Prog World Unit) : Prog World Unit := do
  pre 0
  let status ← readStatus b .engine
  match ← getDev (pre 1) (·.msg) with
  | none   => return ()
  | some p => if hasError status then outErr pre p else serve b pre status

/-- Nothing comes between the statements. -/
def undisturbed : Nat → Prog World Unit := fun _ => pure ()

/-- `I2CInterruptHandler`. -/
def isr (b : Board) : Prog World Unit := interruptLocked b undisturbed

/-- The handler once it has read the status. -/
def handle (b : Board) (status : U32) : Prog World Unit := do
  match ← getDev (undisturbed 1) (·.msg) with
  | none   => return ()
  | some p => if hasError status then outErr undisturbed p else serve b undisturbed status

/-! ### What the handler can do -/

/-- The address word of a message, with `rem` messages left. -/
def addressWord (rem : Int) (m : I2cMsg) : Word :=
  let val := addrByte ||| m.addr <<< 1
  let val := if m.isRead then val ||| 1#16 else val
  if rem = 1 ∧ m.len = 0 then val ||| lastByte else val

/-- The word of a byte, with `rem` messages and `cnt` bytes of this one left. -/
def dataWord (rem cnt : Int) (byte : Byte) : Word :=
  let val : Word := byte.setWidth 16
  if cnt = 1 ∧ rem = 1 then val ||| lastByte else val

namespace World

variable (s : World)

/-- `dev.msg` points to the element `m`. -/
def At (p : MsgPtr) (m : I2cMsg) : Prop := s.dev.msg = some p ∧ p.deref? = some m

/-- The place in the buffer of `m` that `dev.pos` stands for. -/
def bufAddress (m : I2cMsg) : Nat := (m.buf + s.dev.pos).toNat

/-- The status has been read. -/
def statusRead (b : Board) : World := s.push (.status .engine (b.status s.log))

/-- The address word has been written. -/
def addressed (p : MsgPtr) (m : I2cMsg) : World :=
  { s with
    dev := { s.dev with pos := s.dev.pos + 1 }
    log := .address p (addressWord s.dev.rem m) :: s.log }

/-- A byte has been written. -/
def byteSent (p : MsgPtr) (m : I2cMsg) : World :=
  { s with
    dev := { s.dev with pos := s.dev.pos + 1, cnt := s.dev.cnt - 1 }
    log := .sent p (s.bufAddress m) (dataWord s.dev.rem s.dev.cnt (s.mem (s.bufAddress m)))
      :: s.log }

/-- It is time to request the stop. -/
def StopDue : Prop := s.dev.cnt = 1 ∧ s.dev.pos = 0 ∨ s.dev.cnt = 2

instance : Decidable s.StopDue := inferInstanceAs (Decidable (_ ∨ _))

/-- The stop has been requested, if it is time to. -/
def stopRequested : World :=
  { s with
    dev := { s.dev with needFlush := s.dev.needFlush || decide (s.dev.cnt = 1 ∧ s.dev.pos = 0) }
    log := if s.StopDue then .stop lastByte :: s.log else s.log }

/-- A byte has been stored. -/
def byteStored (b : Board) (p : MsgPtr) (m : I2cMsg) : World :=
  { s with
    dev := { s.dev with pos := s.dev.pos + 1, cnt := s.dev.cnt - 1 }
    mem := Memory.blit (s.bufAddress m) 1 (fun _ => b.data s.log) s.mem
    log := .stored p (s.bufAddress m) (b.data s.log) :: s.log }

/-- The stop has been requested again, if it is time to. -/
def stopRepeated : World :=
  { s with log := if s.dev.flushCnt % 2 = 1 then .stop lastByte :: s.log else s.log }

/-- A surplus byte has been discarded. -/
def byteDropped (b : Board) : World :=
  { s with
    dev :=
      { s.dev with
        needFlush := false
        flushCnt := if s.dev.needFlush then s.dev.flushCnt else s.dev.flushCnt + 1 }
    log := .dropped (b.data s.log) :: s.log }

/-- The engine has gone on to the message `m'`. -/
def advanced (p : MsgPtr) (m' : I2cMsg) : World :=
  { s with
    dev :=
      { s.dev with
        rem := s.dev.rem - 1, msg := some { p with index := p.index + 1 }, pos := -1
        cnt := m'.len } }

/-- The transfer has been found complete. -/
def completed : World := { s with timeout := 0, log := .done :: s.log }

/-- The transfer has been aborted. -/
def failed (p : MsgPtr) : World :=
  { s with
    dev := { s.dev with ret := error }, timeout := errTimedOut, log := .aborted p :: s.log }

end World

variable {b : Board} {s : World} {p : MsgPtr} {m : I2cMsg}

/-! ### The handler, function by function -/

theorem undisturbed_apply (k : Nat) (s : World) : undisturbed k s = (some (), s) := rfl

theorem getDev_apply {α : Type} (k : Nat) (f : MsmI2cDev → α) (s : World) :
    getDev (undisturbed k) f s = (some (f s.dev), s) := rfl

theorem setDev_apply (k : Nat) (f : MsmI2cDev → MsmI2cDev) (s : World) :
    setDev (undisturbed k) f s = (some (), { s with dev := f s.dev }) := rfl

theorem derefMsg_apply (h : s.At p m) : derefMsg s = (some (p, m), s) := by
  unfold derefMsg
  rw [h.1]
  simp only
  rw [h.2]

theorem message_apply (k : Nat) (h : s.At p m) :
    message (undisturbed k) s = (some (p, m), s) := derefMsg_apply h

theorem fillAddress_apply (h : s.At p m) :
    fillAddress undisturbed s = (some true, s.addressed p m) := by
  have hlast : isLastEmpty (undisturbed 7) s = (some (decide (s.dev.rem = 1 ∧ m.len = 0)), s) := by
    apply bind_of (getDev_apply 7 _ s)
    by_cases hrem : s.dev.rem = 1
    · rw [if_pos hrem]
      apply bind_of (derefMsg_apply h)
      simp [hrem, pure_apply]
    · simp [hrem, pure_apply]
  apply bind_of (message_apply 5 h)
  apply bind_of (message_apply 6 h)
  apply bind_of hlast
  simp only [decide_eq_true_eq]
  rfl

theorem fillByte_apply (h : s.At p m) :
    fillByte undisturbed s = (some true, s.byteSent p m) := by
  have htake : takeByte (undisturbed 12) s
      = (some (p, s.bufAddress m, s.mem (s.bufAddress m)), s) :=
    bind_of (message_apply 12 h) rfl
  apply bind_of htake
  apply bind_of (getDev_apply 13 _ s)
  simp only [decide_eq_true_eq]
  rfl

/-- **Filling the write buffer.**  The address word comes first, then the bytes of a write. -/
theorem fillWriteBuffer_apply (h : s.At p m) :
    fillWriteBuffer undisturbed s =
      if s.dev.pos < 0 then (some true, s.addressed p m)
      else if m.isRead = true ∨ s.dev.cnt = 0 then (some false, s)
      else (some true, s.byteSent p m) := by
  apply bind_of (getDev_apply 4 _ s)
  by_cases hpos : s.dev.pos < 0
  · rw [if_pos hpos, if_pos hpos]
    exact fillAddress_apply h
  · rw [if_neg hpos, if_neg hpos]
    apply bind_of (message_apply 10 h)
    cases hread : m.isRead with
    | true => simp [hread, pure_apply]
    | false =>
      simp only [hread, Bool.false_eq_true, if_false, false_or]
      apply bind_of (getDev_apply 11 _ s)
      by_cases hcnt : s.dev.cnt = 0
      · rw [if_pos hcnt, if_pos hcnt, pure_apply]
      · rw [if_neg hcnt, if_neg hcnt]
        exact fillByte_apply h

theorem requestStop_apply (s : World) :
    requestStop undisturbed s = (some (), s.stopRequested) := by
  unfold World.stopRequested
  apply bind_of (getDev_apply 18 _ s)
  by_cases h1 : s.dev.cnt = 1
  · rw [if_pos h1]
    apply bind_of (getDev_apply 19 _ s)
    by_cases hpos : s.dev.pos = 0
    · have hdue : s.StopDue := Or.inl ⟨h1, hpos⟩
      rw [if_neg (not_not_intro hpos), if_pos hdue, decide_eq_true ⟨h1, hpos⟩, Bool.or_true]
      rfl
    · have hand : ¬ (s.dev.cnt = 1 ∧ s.dev.pos = 0) := fun h => hpos h.2
      have hdue : ¬ s.StopDue := not_or.mpr ⟨hand, by omega⟩
      rw [if_pos hpos, if_neg hdue, decide_eq_false hand, Bool.or_false]
      rfl
  · have hand : ¬ (s.dev.cnt = 1 ∧ s.dev.pos = 0) := fun h => h1 h.1
    rw [if_neg h1, decide_eq_false hand, Bool.or_false]
    by_cases h2 : s.dev.cnt = 2
    · have hdue : s.StopDue := Or.inr h2
      rw [if_pos h2, if_pos hdue]
      rfl
    · have hdue : ¬ s.StopDue := not_or.mpr ⟨hand, h2⟩
      rw [if_neg h2, if_neg hdue]
      rfl

theorem readByte_apply (h : s.At p m) :
    readByte b undisturbed s = (some (), s.stopRequested.byteStored b p m) := by
  have hstore : storeByte b (undisturbed 22) s.stopRequested = (some (), _) :=
    bind_of (message_apply 22 h) rfl
  apply bind_of (requestStop_apply s)
  apply bind_of hstore
  rfl

theorem flush_apply (s : World) :
    flush b undisturbed s = (some (), s.stopRepeated.byteDropped b) := by
  have hrepeat : repeatStop undisturbed s = (some (), s.stopRepeated) := by
    unfold World.stopRepeated
    apply bind_of (getDev_apply 25 _ s)
    by_cases hodd : s.dev.flushCnt % 2 = 1
    · rw [if_pos hodd, if_pos hodd]
      rfl
    · rw [if_neg hodd, if_neg hodd, pure_apply]
  apply bind_of hrepeat
  generalize s.stopRepeated = t
  unfold World.byteDropped
  apply bind_of (undisturbed_apply 27 t)
  apply bind_of (show modify _ t = (some (), _) from rfl)
  apply bind_of (getDev_apply 28 _ _)
  show (if t.dev.needFlush = true then _ else _ : Prog World Unit) _ = _
  by_cases hflush : t.dev.needFlush = true
  · rw [if_pos hflush, if_pos hflush]
    rfl
  · have hnone : t.dev.needFlush = false := by simpa using hflush
    rw [if_neg hflush, if_neg hflush, ← hnone]
    rfl

/-- **Emptying the read buffer.**  A byte is stored where one is expected, and discarded
    otherwise. -/
theorem readBuffer_apply (h : s.At p m) :
    readBuffer b undisturbed s =
      if m.isRead = true ∧ 0 ≤ s.dev.pos ∧ s.dev.cnt ≠ 0
      then (some (), s.stopRequested.byteStored b p m)
      else (some (), s.stopRepeated.byteDropped b) := by
  have hexpects : expectsByte (undisturbed 17) s
      = (some (m.isRead && decide (0 ≤ s.dev.pos ∧ s.dev.cnt ≠ 0)), s) :=
    bind_of (message_apply 17 h) rfl
  apply bind_of hexpects
  simp only [Bool.and_eq_true, decide_eq_true_eq]
  split
  · exact readByte_apply h
  · exact flush_apply s

theorem nextMsg_apply {m' : I2cMsg} (h : s.dev.msg = some p)
    (hnext : MsgPtr.deref? { p with index := p.index + 1 } = some m') :
    nextMsg undisturbed s = (some (), s.advanced p m') := by
  apply bind_of (setDev_apply 32 _ s)
  apply bind_of (setDev_apply 33 _ _)
  apply bind_of (setDev_apply 34 _ _)
  rw [h]
  apply bind_of (message_apply 35 ⟨rfl, hnext⟩)
  rfl

/-- **Completion.**  After the last byte of a message the next one follows, or the transfer is
    complete. -/
theorem advance_apply (notDone : Bool) (s : World) :
    advance undisturbed notDone s =
      if 0 ≤ s.dev.pos ∧ s.dev.cnt = 0 then
        if 1 < s.dev.rem then nextMsg undisturbed s
        else if notDone = false ∧ s.dev.needFlush = false then (some (), s.completed)
        else (some (), s)
      else (some (), s) := by
  apply bind_of (getDev_apply 30 _ s)
  simp only [decide_eq_true_eq]
  by_cases hend : 0 ≤ s.dev.pos ∧ s.dev.cnt = 0
  · rw [if_pos hend, if_pos hend]
    apply bind_of (getDev_apply 31 _ s)
    by_cases hrem : 1 < s.dev.rem
    · rw [if_pos hrem, if_pos hrem]
    · rw [if_neg hrem, if_neg hrem]
      apply bind_of (getDev_apply 36 _ s)
      simp only [Bool.and_eq_true, Bool.not_eq_true']
      by_cases hdone : notDone = false ∧ s.dev.needFlush = false
      · rw [if_pos hdone, if_pos hdone]
        rfl
      · rw [if_neg hdone, if_neg hdone, pure_apply]
  · rw [if_neg hend, if_neg hend, pure_apply]

/-- Without a message there is nothing to do. -/
theorem handle_atRest (v : U32) (h : s.dev.msg = none) : handle b v s = (some (), s) := by
  apply bind_of (getDev_apply 1 _ s)
  rw [h]
  rfl

/-! ### Properties of the handler -/

/-- What it takes for `I` to survive the handler.  `R v` is what holds in addition until the
    handler, working with the status `v`, has emptied the read buffer. -/
structure EngineRule (b : Board) (I : World → Prop) (R : U32 → World → Prop) : Prop where
  status : ∀ s, I s → R (b.status s.log) (s.statusRead b)
  rest : ∀ v s, R v s → I s
  deref : ∀ s p, I s → s.dev.msg = some p → ∃ m, p.deref? = some m
  failed : ∀ v s p, R v s → s.dev.msg = some p → hasError v = true → I (s.failed p)
  addressed : ∀ v s p m, R v s → s.At p m → wrFull v = false → s.dev.pos < 0 →
    R v (s.addressed p m)
  byteSent : ∀ v s p m, R v s → s.At p m → wrFull v = false → 0 ≤ s.dev.pos →
    m.isRead = false → s.dev.cnt ≠ 0 → R v (s.byteSent p m)
  byteStored : ∀ v s p m, R v s → s.At p m → rdFull v = true → m.isRead = true →
    0 ≤ s.dev.pos → s.dev.cnt ≠ 0 → I (s.stopRequested.byteStored b p m)
  byteDropped : ∀ v s p m, R v s → s.At p m → rdFull v = true →
    ¬ (m.isRead = true ∧ 0 ≤ s.dev.pos ∧ s.dev.cnt ≠ 0) → I (s.stopRepeated.byteDropped b)
  advanced : ∀ s p m, I s → s.At p m → 0 ≤ s.dev.pos → s.dev.cnt = 0 → 1 < s.dev.rem →
    ∃ m', MsgPtr.deref? { p with index := p.index + 1 } = some m' ∧ I (s.advanced p m')
  completed : ∀ s p m, I s → s.At p m → 0 ≤ s.dev.pos → s.dev.cnt = 0 → s.dev.rem ≤ 1 →
    s.dev.needFlush = false → I s.completed

namespace EngineRule

variable {I : World → Prop} {R : U32 → World → Prop}

/-- A message is set, and stays set while the handler fills and empties the buffers. -/
def Busy (I : World → Prop) (s : World) : Prop := I s ∧ s.dev.msg ≠ none

theorem Busy.at_ (h : EngineRule b I R) (hs : Busy I s) : ∃ p m, s.At p m := by
  obtain ⟨p, hp⟩ := Option.ne_none_iff_exists'.mp hs.2
  obtain ⟨m, hm⟩ := h.deref s p hs.1 hp
  exact ⟨p, m, hp, hm⟩

theorem Busy.rest (h : EngineRule b I R) {v : U32} (hs : Busy (R v) s) : Busy I s :=
  ⟨h.rest v s hs.1, hs.2⟩

theorem fillWriteBuffer (h : EngineRule b I R) {v : U32} (hv : wrFull v = false) :
    Completes (Busy (R v)) (fillWriteBuffer undisturbed) (fun _ => Busy (R v)) := by
  intro s hs
  obtain ⟨p, m, hat⟩ := (hs.rest h).at_ h
  rw [fillWriteBuffer_apply hat]
  by_cases hpos : s.dev.pos < 0
  · rw [if_pos hpos]
    exact ⟨_, _, rfl, h.addressed v s p m hs.1 hat hv hpos, hs.2⟩
  · rw [if_neg hpos]
    by_cases hnone : m.isRead = true ∨ s.dev.cnt = 0
    · rw [if_pos hnone]
      exact ⟨_, _, rfl, hs⟩
    · rw [if_neg hnone]
      obtain ⟨hread, hcnt⟩ := not_or.mp hnone
      have hwrite : m.isRead = false := by simpa using hread
      exact ⟨_, _, rfl, h.byteSent v s p m hs.1 hat hv (by omega) hwrite hcnt, hs.2⟩

theorem readBuffer (h : EngineRule b I R) {v : U32} (hv : rdFull v = true) :
    Completes (Busy (R v)) (readBuffer b undisturbed) (fun _ => Busy I) := by
  intro s hs
  obtain ⟨p, m, hat⟩ := (hs.rest h).at_ h
  rw [readBuffer_apply hat]
  by_cases hexp : m.isRead = true ∧ 0 ≤ s.dev.pos ∧ s.dev.cnt ≠ 0
  · rw [if_pos hexp]
    exact ⟨_, _, rfl, h.byteStored v s p m hs.1 hat hv hexp.1 hexp.2.1 hexp.2.2, hs.2⟩
  · rw [if_neg hexp]
    exact ⟨_, _, rfl, h.byteDropped v s p m hs.1 hat hv hexp, hs.2⟩

theorem advance (h : EngineRule b I R) (notDone : Bool) :
    Completes (Busy I) (advance undisturbed notDone) (fun _ => I) := by
  intro s hs
  obtain ⟨p, m, hat⟩ := hs.at_ h
  rw [advance_apply]
  by_cases hend : 0 ≤ s.dev.pos ∧ s.dev.cnt = 0
  · rw [if_pos hend]
    by_cases hrem : 1 < s.dev.rem
    · obtain ⟨m', hnext, hI⟩ := h.advanced s p m hs.1 hat hend.1 hend.2 hrem
      rw [if_pos hrem, nextMsg_apply hat.1 hnext]
      exact ⟨_, _, rfl, hI⟩
    · rw [if_neg hrem]
      by_cases hdone : notDone = false ∧ s.dev.needFlush = false
      · rw [if_pos hdone]
        exact ⟨_, _, rfl, h.completed s p m hs.1 hat hend.1 hend.2 (by omega) hdone.2⟩
      · rw [if_neg hdone]
        exact ⟨_, _, rfl, hs.1⟩
  · rw [if_neg hend]
    exact ⟨_, _, rfl, hs.1⟩

/-- With a status read, the handler keeps the property. -/
theorem handle (h : EngineRule b I R) (v : U32) : Completes (R v) (handle b v) (fun _ => I) := by
  refine Completes.bind (M := fun msg s => R v s ∧ s.dev.msg = msg)
    (fun s hs => ⟨_, _, getDev_apply 1 _ s, hs, rfl⟩) fun msg => ?_
  cases msg with
  | none   => exact Completes.pure fun s hs => h.rest v s hs.1
  | some p =>
    cases herror : hasError v with
    | true =>
      rintro s ⟨hs, hp⟩
      exact ⟨_, _, rfl, h.failed v s p hs hp herror⟩
    | false =>
      have hbusy : ∀ s, R v s ∧ s.dev.msg = some p → Busy (R v) s := by
        rintro s ⟨hs, hp⟩
        refine ⟨hs, ?_⟩
        rw [hp]
        exact Option.some_ne_none p
      refine Completes.mono (P := Busy (R v)) ?_ hbusy fun _ _ hs => hs
      refine Completes.bind (M := fun _ => Busy (R v)) ?_ fun notDone => ?_
      · cases hw : wrFull v with
        | true  => exact Completes.pure fun s hs => hs
        | false => exact h.fillWriteBuffer hw
      · refine Completes.bind (M := fun _ => Busy I) ?_ fun _ => h.advance notDone
        cases hr : rdFull v with
        | true  => exact h.readBuffer hr
        | false => exact Completes.pure fun s hs => hs.rest h

/-- **The rule.**  A property that survives what the handler can do survives the handler, and
    the handler returns. -/
theorem isr (h : EngineRule b I R) : Completes I (isr b) (fun _ => I) := by
  refine Completes.bind (M := fun _ => I) (Completes.pure fun s hs => hs) fun _ => ?_
  exact Completes.bind (M := R) (Completes.query fun s hs => h.status s hs) h.handle

end EngineRule

end HtcLeo.I2c

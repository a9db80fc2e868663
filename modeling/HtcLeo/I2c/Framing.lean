import Mathlib.Data.List.GetD
import HtcLeo.I2c.Xfer

namespace HtcLeo.I2c

open Prog

/-!
# I2CDxe — framing

What the engine writes to `I2C_WRITE_DATA` and stores in buffers, over any number of runs of the
handler without status errors, for write messages that a read may follow.

* `Transaction` — the lists of messages, and the `frame` they should make.
* `Writing`, `Reading` — how far the engine is, in terms of words written and bytes read.
* `engaged_rule` — the handler stays engaged in the transaction.
* `Engaged.framed` — when the engine has found the transfer complete, the words are the frame
  and the bytes are in the buffer.
-/

/-! ### Words and bytes of a run -/

/-- The word an event writes to `I2C_WRITE_DATA`. -/
def Event.word? : Event → Option Word
  | .address _ w => some w
  | .sent _ _ w  => some w
  | .stop w      => some w
  | _            => none

/-- The byte an event reads from `I2C_READ_DATA`. -/
def Event.byte? : Event → Option Byte
  | .stored _ _ byte => some byte
  | .dropped byte    => some byte
  | _                => none

/-- The words written to `I2C_WRITE_DATA`, in order. -/
def words : History → List Word
  | []     => []
  | e :: h => words h ++ e.word?.toList

/-- The bytes read from `I2C_READ_DATA`, in order. -/
def received : History → List Byte
  | []     => []
  | e :: h => received h ++ e.byte?.toList

/-! ### Frames -/

/-- Write messages, and a read message that may follow them. -/
structure Transaction where
  base : Nat
  writes : List I2cMsg
  read : Option I2cMsg
  areWrites : ∀ m ∈ writes, m.isRead = false
  isRead : ∀ r ∈ read, r.isRead = true ∧ 1 ≤ r.len
  nonempty : writes ++ read.toList ≠ []

/-- The address shifted left by one, the read bit, and the flag of an address word. -/
def addressOf (m : I2cMsg) : Word :=
  m.addr <<< 1 ||| (if m.isRead then 1#16 else 0#16) ||| addrByte

/-- The words of a write message, without a stop. -/
def writeWords (mem : Memory) (m : I2cMsg) : List Word :=
  addressOf m :: (List.range m.len).map fun i => (mem (m.buf + i)).setWidth 16

/-- The last word with the flag that requests the stop. -/
def markLast : List Word → List Word
  | []           => []
  | [w]          => [w ||| lastByte]
  | w :: v :: ws => w :: markLast (v :: ws)

namespace Transaction

variable (t : Transaction)

/-- The array of messages. -/
def array : MsgArray := ⟨t.base, t.writes ++ t.read.toList, t.nonempty⟩

/-- The pointer to the read message. -/
def readPtr : MsgPtr := ⟨t.array, t.writes.length⟩

/-- **The frame.**  Every write message, message by message, and then the address word of the
    read and one stop request; without a read the last word requests the stop. -/
def frame (mem : Memory) : List Word :=
  match t.read with
  | none   => markLast (t.writes.flatMap (writeWords mem))
  | some r => t.writes.flatMap (writeWords mem) ++ [addressOf r, lastByte]

/-- The memory with the buffer of the read filled with the first of the bytes. -/
def filled (bytes : List Byte) (mem : Memory) : Memory :=
  match t.read with
  | none   => mem
  | some r => Memory.blit r.buf r.len (fun i => bytes.getD i 0) mem

/-- How many bytes the controller delivers: a read of one byte stops one byte late. -/
def arrivals : Nat :=
  match t.read with
  | none   => 0
  | some r => if r.len = 1 then 2 else r.len

/-- The words of the first `i` messages. -/
def sentBefore (mem : Memory) (i : Nat) : List Word := (t.writes.take i).flatMap (writeWords mem)

/-- The first `k` words of the write message `m` at index `i`. -/
def sentOf (mem : Memory) (i : Nat) (m : I2cMsg) (k : Nat) : List Word :=
  if k = m.len + 1 ∧ i + 1 = t.array.msgs.length then markLast (writeWords mem m)
  else (writeWords mem m).take k

end Transaction

/-! ### Words -/

theorem markLast_concat (ws : List Word) (w : Word) :
    markLast (ws ++ [w]) = ws ++ [w ||| lastByte] := by
  induction ws with
  | nil => rfl
  | cons v ws ih =>
    cases ws with
    | nil => rfl
    | cons u us =>
      show v :: markLast (u :: us ++ [w]) = _
      rw [ih]
      rfl

theorem writeWords_length (mem : Memory) (m : I2cMsg) : (writeWords mem m).length = m.len + 1 := by
  simp [writeWords]

/-- The engine computes the address word of the frame, with the stop for an empty message at the
    end. -/
theorem addressWord_eq (rem : Int) (m : I2cMsg) :
    addressWord rem m = if rem = 1 ∧ m.len = 0 then addressOf m ||| lastByte else addressOf m := by
  have hval : (if m.isRead then addrByte ||| m.addr <<< 1 ||| 1#16 else addrByte ||| m.addr <<< 1)
      = addressOf m := by
    unfold addressOf
    split
    · rw [BitVec.or_comm _ addrByte, BitVec.or_assoc]
    · rw [BitVec.or_zero, BitVec.or_comm]
  unfold addressWord
  simp only [hval]

variable {t : Transaction} {mem : Memory}

/-- The word after the first `k` ones of a message, with the stop if it is the last one. -/
theorem sentOf_succ {i k : Nat} {m : I2cMsg} {w : Word} (hw : (writeWords mem m)[k]? = some w) :
    t.sentOf mem i m (k + 1)
      = t.sentOf mem i m k
        ++ [if k = m.len ∧ i + 1 = t.array.msgs.length then w ||| lastByte else w] := by
  have hk : k < m.len + 1 := by
    have := (List.getElem?_eq_some_iff.mp hw).1
    rwa [writeWords_length] at this
  have htake : (writeWords mem m).take (k + 1) = (writeWords mem m).take k ++ [w] := by
    rw [List.take_add_one, hw]
    rfl
  have hbefore : t.sentOf mem i m k = (writeWords mem m).take k := by
    unfold Transaction.sentOf
    rw [if_neg (by omega)]
  rw [hbefore]
  unfold Transaction.sentOf
  by_cases hlast : k = m.len ∧ i + 1 = t.array.msgs.length
  · have hall : writeWords mem m = (writeWords mem m).take k ++ [w] := by
      rw [← htake, List.take_of_length_le (by rw [writeWords_length]; omega)]
    rw [if_pos hlast, if_pos (by omega), ← markLast_concat, ← hall]
  · rw [if_neg hlast, if_neg (by omega), htake]

/-- All the words of a message that is not the last one. -/
theorem sentOf_all {i : Nat} {m : I2cMsg} (hlast : i + 1 < t.array.msgs.length) :
    t.sentOf mem i m (m.len + 1) = writeWords mem m := by
  unfold Transaction.sentOf
  rw [if_neg (by omega)]
  exact List.take_of_length_le (by rw [writeWords_length])

theorem sentBefore_succ {i : Nat} {m : I2cMsg} (h : t.writes[i]? = some m) :
    t.sentBefore mem (i + 1) = t.sentBefore mem i ++ writeWords mem m := by
  unfold Transaction.sentBefore
  rw [List.take_add_one, h, List.flatMap_append]
  simp

/-- The words of a transaction that ends in a write. -/
theorem frame_of_last {i : Nat} {m : I2cMsg} (h : t.writes[i]? = some m)
    (hlast : i + 1 = t.array.msgs.length) :
    t.frame mem = t.sentBefore mem i ++ t.sentOf mem i m (m.len + 1) := by
  have hlen : i < t.writes.length := (List.getElem?_eq_some_iff.mp h).1
  have hnone : t.read = none := by
    cases hread : t.read with
    | none   => rfl
    | some r =>
      have : t.array.msgs.length = t.writes.length + 1 := by
        simp [Transaction.array, hread]
      omega
  have htotal : t.array.msgs.length = t.writes.length := by simp [Transaction.array, hnone]
  have hall : t.writes.flatMap (writeWords mem) = t.sentBefore mem i ++ writeWords mem m := by
    rw [← sentBefore_succ h, Transaction.sentBefore, List.take_of_length_le (by omega)]
  obtain ⟨ws, w, hsplit⟩ : ∃ ws w, writeWords mem m = ws ++ [w] :=
    ⟨_, _, (List.dropLast_append_getLast (List.cons_ne_nil _ _)).symm⟩
  unfold Transaction.frame Transaction.sentOf
  rw [hnone, if_pos ⟨rfl, hlast⟩]
  simp only
  rw [hall, hsplit, ← List.append_assoc, markLast_concat, markLast_concat, List.append_assoc]

/-! ### How far the engine is -/

/-- The engine is at the write message `m` at index `i`, and has written `k` words of it. -/
structure Writing (t : Transaction) (mem : Memory) (i : Nat) (m : I2cMsg) (k : Nat) (s : World) :
    Prop where
  message : t.writes[i]? = some m
  msg : s.dev.msg = some ⟨t.array, i⟩
  rem : s.dev.rem = t.array.msgs.length - i
  count : k ≤ m.len + 1
  pos : s.dev.pos = k - 1
  cnt : s.dev.cnt = if k = 0 then (m.len : Int) else m.len + 1 - k
  words : words s.log = t.sentBefore mem i ++ t.sentOf mem i m k
  unread : received s.log = []
  mem : s.mem = mem
  needFlush : s.dev.needFlush = false
  flushCnt : s.dev.flushCnt = 0
  notYet : ∀ w, Event.address t.readPtr w ∉ s.log
  done : Event.done ∈ s.log → k = m.len + 1 ∧ i + 1 = t.array.msgs.length

/-- The words of the read message after `k - 1` bytes: the stop is requested with the last byte
    but one, or with the only one. -/
def readWords (r : I2cMsg) (k : Nat) : List Word :=
  if k = 0 then [] else if 2 ≤ k ∧ r.len ≤ k then [addressOf r, lastByte] else [addressOf r]

/-- The engine is at the read message; it has written its address word if `k` is not zero, and
    stored `k - 1` bytes and discarded `extra`. -/
structure Reading (t : Transaction) (mem : Memory) (r : I2cMsg) (k extra : Nat) (s : World) :
    Prop where
  message : t.read = some r
  msg : s.dev.msg = some t.readPtr
  rem : s.dev.rem = 1
  count : k ≤ r.len + 1
  surplus : extra = 0 ∨ extra = 1 ∧ r.len = 1 ∧ k = 2
  pos : s.dev.pos = k - 1
  cnt : s.dev.cnt = if k = 0 then (r.len : Int) else r.len + 1 - k
  words : words s.log = t.sentBefore mem t.writes.length ++ readWords r k
  bytes : (received s.log).length = k - 1 + extra
  mem : s.mem = Memory.blit r.buf (k - 1) (fun i => (received s.log).getD i 0) mem
  needFlush : s.dev.needFlush = decide (r.len = 1 ∧ k = 2 ∧ extra = 0)
  flushCnt : s.dev.flushCnt = 0
  started : (∃ w, Event.address t.readPtr w ∈ s.log) ↔ k ≠ 0
  done : Event.done ∈ s.log → k = r.len + 1 ∧ (r.len = 1 → extra = 1)

/-- The engine is somewhere in the transaction. -/
inductive Engaged (t : Transaction) (mem : Memory) (s : World) : Prop
  | writing (i : Nat) (m : I2cMsg) (k : Nat) (h : Writing t mem i m k s)
  | reading (r : I2cMsg) (k extra : Nat) (h : Reading t mem r k extra s)

/-- The controller holds a byte for the engine. -/
def Holding (t : Transaction) (mem : Memory) (s : World) : Prop :=
  ∃ r k extra, Reading t mem r k extra s ∧ k ≠ 0 ∧
    (k - 1 + extra < r.len ∨ r.len = 1 ∧ k - 1 + extra = 1)

/-- `RD_BUFFER_FULL` is set only while the controller holds a byte of the read that the driver
    has not read, the surplus byte of a read of one byte included. -/
def HonestReads (b : Board) (t : Transaction) : Prop :=
  ∀ h, rdFull (b.status h) = true → ∃ r, t.read = some r ∧ (∃ w, .address t.readPtr w ∈ h) ∧
    ((received h).length < r.len ∨ r.len = 1 ∧ (received h).length = 1)

/-- What the status says about a byte is still true. -/
def Served (t : Transaction) (mem : Memory) (v : U32) (s : World) : Prop :=
  Engaged t mem s ∧ (rdFull v = true → Holding t mem s)

/-! ### What the handler does to a write message -/

theorem deref_write {i : Nat} {m : I2cMsg} (h : t.writes[i]? = some m) :
    MsgPtr.deref? ⟨t.array, i⟩ = some m := by
  have hlt : i < t.writes.length := (List.getElem?_eq_some_iff.mp h).1
  show (t.writes ++ t.read.toList)[i]? = some m
  rw [List.getElem?_append_left hlt, h]

theorem deref_read {r : I2cMsg} (h : t.read = some r) : t.readPtr.deref? = some r := by
  show (t.writes ++ t.read.toList)[t.writes.length]? = some r
  rw [List.getElem?_append_right (Nat.le_refl _), h, Nat.sub_self]
  rfl

/-- The address word of the read is not that of a write. -/
theorem ne_readPtr {i : Nat} {m : I2cMsg} (h : t.writes[i]? = some m) :
    (⟨t.array, i⟩ : MsgPtr) ≠ t.readPtr := by
  have hlt : i < t.writes.length := (List.getElem?_eq_some_iff.mp h).1
  intro heq
  have hindex : i = t.writes.length := congrArg MsgPtr.index heq
  omega

namespace Writing

variable {i k : Nat} {m : I2cMsg} {s : World}

theorem at_eq (h : Writing t mem i m k s) {p : MsgPtr} {m' : I2cMsg} (hat : s.At p m') :
    p = ⟨t.array, i⟩ ∧ m' = m := by
  have hp : p = ⟨t.array, i⟩ := Option.some.inj (hat.1.symm.trans h.msg)
  subst hp
  exact ⟨rfl, Option.some.inj (hat.2.symm.trans (deref_write h.message))⟩

theorem isWrite (h : Writing t mem i m k s) : m.isRead = false :=
  t.areWrites m (List.mem_of_getElem? h.message)

/-- The number of messages left is one exactly at the last one. -/
theorem rem_eq_one (h : Writing t mem i m k s) :
    s.dev.rem = 1 ↔ i + 1 = t.array.msgs.length := by
  have hrem := h.rem
  omega

/-- No word of the message has been written. -/
theorem none_written (h : Writing t mem i m k s) (hpos : s.dev.pos < 0) : k = 0 := by
  have hk := h.pos
  omega

/-- All words of the message have been written. -/
theorem all_written (h : Writing t mem i m k s) (hpos : 0 ≤ s.dev.pos) (hcnt : s.dev.cnt = 0) :
    k = m.len + 1 := by
  have hk := h.pos
  have hleft := h.cnt
  rw [if_neg (by omega)] at hleft
  omega

/-- An event that is no word, no byte and no completion changes nothing. -/
theorem log_cons (h : Writing t mem i m k s) {e : Event} (hword : e.word? = none)
    (hbyte : e.byte? = none) (hdone : e ≠ .done) :
    Writing t mem i m k { s with log := e :: s.log } where
  message := h.message
  msg := h.msg
  rem := h.rem
  count := h.count
  pos := h.pos
  cnt := h.cnt
  words := by simp [I2c.words, hword, h.words]
  unread := by simp [received, hbyte, h.unread]
  mem := h.mem
  needFlush := h.needFlush
  flushCnt := h.flushCnt
  notYet := by
    intro w hmem
    rcases List.mem_cons.mp hmem with heq | hold
    · rw [← heq] at hword
      exact absurd hword (Option.some_ne_none w)
    · exact h.notYet w hold
  done := fun hmem => h.done (List.mem_of_ne_of_mem hdone.symm hmem)

/-- The address word is written. -/
theorem addressed (h : Writing t mem i m 0 s) :
    Writing t mem i m 1 (s.addressed ⟨t.array, i⟩ m) where
  message := h.message
  msg := h.msg
  rem := h.rem
  count := by omega
  pos := by
    show s.dev.pos + 1 = _
    rw [h.pos]
    rfl
  cnt := by
    show s.dev.cnt = _
    rw [h.cnt, if_pos rfl, if_neg Nat.one_ne_zero]
    omega
  words := by
    have hfirst : (writeWords mem m)[0]? = some (addressOf m) := rfl
    have hlast : (s.dev.rem = 1 ∧ m.len = 0) ↔ (0 = m.len ∧ i + 1 = t.array.msgs.length) := by
      rw [h.rem_eq_one, and_comm, eq_comm]
    show I2c.words s.log ++ [addressWord s.dev.rem m] = _
    rw [sentOf_succ hfirst, h.words, addressWord_eq, List.append_assoc]
    simp only [hlast]
  unread := by simp [World.addressed, received, Event.byte?, h.unread]
  mem := h.mem
  needFlush := h.needFlush
  flushCnt := h.flushCnt
  notYet := by
    intro w hmem
    rcases List.mem_cons.mp hmem with heq | hold
    · exact ne_readPtr h.message (Event.address.inj heq).1.symm
    · exact h.notYet w hold
  done := fun hmem => by
    have hall := h.done (List.mem_of_ne_of_mem (by simp) hmem)
    omega

/-- A byte is written. -/
theorem byteSent (h : Writing t mem i m k s) (hk : k ≠ 0) (hcnt : s.dev.cnt ≠ 0) :
    Writing t mem i m (k + 1) (s.byteSent ⟨t.array, i⟩ m) := by
  have hpos := h.pos
  have hcount := h.cnt
  rw [if_neg hk] at hcount
  have hle := h.count
  have haddr : s.bufAddress m = m.buf + (k - 1) := by
    unfold World.bufAddress
    omega
  exact {
    message := h.message
    msg := h.msg
    rem := h.rem
    count := by omega
    pos := by
      show s.dev.pos + 1 = _
      omega
    cnt := by
      show s.dev.cnt - 1 = _
      rw [if_neg (Nat.succ_ne_zero k)]
      omega
    words := by
      have hword : (writeWords mem m)[k]? = some ((mem (m.buf + (k - 1))).setWidth 16) := by
        obtain ⟨j, rfl⟩ := Nat.exists_eq_succ_of_ne_zero hk
        have hj : j < m.len := by omega
        simp [writeWords, hj]
      have hlast : (s.dev.cnt = 1 ∧ s.dev.rem = 1)
          ↔ (k = m.len ∧ i + 1 = t.array.msgs.length) := by
        rw [h.rem_eq_one]
        omega
      show I2c.words s.log ++ [dataWord s.dev.rem s.dev.cnt (s.mem (s.bufAddress m))] = _
      rw [sentOf_succ hword, h.words, haddr, h.mem, List.append_assoc, dataWord]
      simp only [hlast]
    unread := by simp [World.byteSent, received, Event.byte?, h.unread]
    mem := h.mem
    needFlush := h.needFlush
    flushCnt := h.flushCnt
    notYet := fun w hmem => h.notYet w (List.mem_of_ne_of_mem (by simp) hmem)
    done := fun hmem => by
      have hall := h.done (List.mem_of_ne_of_mem (by simp) hmem)
      omega }

/-- With all its words written, the transfer is not complete while messages follow. -/
theorem not_done (h : Writing t mem i m k s) (hmore : i + 1 < t.array.msgs.length) :
    Event.done ∉ s.log := by
  intro hmem
  have hlast := (h.done hmem).2
  omega

theorem words_all (h : Writing t mem i m (m.len + 1) s) (hmore : i + 1 < t.array.msgs.length) :
    I2c.words s.log = t.sentBefore mem (i + 1) := by
  rw [h.words, sentOf_all hmore, sentBefore_succ h.message]

/-- Another write message follows. -/
theorem advanced_write {m' : I2cMsg} (h : Writing t mem i m (m.len + 1) s)
    (hmore : i + 1 < t.array.msgs.length) (hm' : t.writes[i + 1]? = some m') :
    Writing t mem (i + 1) m' 0 (s.advanced ⟨t.array, i⟩ m') where
  message := hm'
  msg := rfl
  rem := by
    have hleft := h.rem
    show s.dev.rem - 1 = _
    omega
  count := by omega
  pos := rfl
  cnt := rfl
  words := by
    show I2c.words s.log = _
    simp [h.words_all hmore, Transaction.sentOf]
  unread := h.unread
  mem := h.mem
  needFlush := h.needFlush
  flushCnt := h.flushCnt
  notYet := h.notYet
  done := fun hmem => absurd hmem (h.not_done hmore)

/-- The read follows. -/
theorem advanced_read {r : I2cMsg} (h : Writing t mem i m (m.len + 1) s)
    (hread : t.read = some r) (hindex : i + 1 = t.writes.length)
    (hlen : t.array.msgs.length = t.writes.length + 1) :
    Reading t mem r 0 0 (s.advanced ⟨t.array, i⟩ r) where
  message := hread
  msg := by
    show some (⟨t.array, i + 1⟩ : MsgPtr) = some ⟨t.array, t.writes.length⟩
    rw [hindex]
  rem := by
    have hleft := h.rem
    show s.dev.rem - 1 = _
    omega
  count := by omega
  surplus := Or.inl rfl
  pos := rfl
  cnt := rfl
  words := by
    show I2c.words s.log = _
    rw [h.words_all (by omega), hindex]
    simp [readWords]
  bytes := by
    show (received s.log).length = _
    rw [h.unread]
    rfl
  mem := by
    show s.mem = _
    rw [h.mem, Memory.blit_zero]
  needFlush := by
    show s.dev.needFlush = _
    rw [h.needFlush]
    simp
  flushCnt := h.flushCnt
  started := ⟨fun ⟨w, hmem⟩ => absurd hmem (h.notYet w), fun hne => absurd rfl hne⟩
  done := fun hmem => absurd hmem (h.not_done (by omega))

/-- With all its words written, another message follows. -/
theorem advanced (h : Writing t mem i m (m.len + 1) s) (hrem : 1 < s.dev.rem) :
    ∃ m', MsgPtr.deref? ⟨t.array, i + 1⟩ = some m' ∧
      Engaged t mem (s.advanced ⟨t.array, i⟩ m') := by
  have hleft := h.rem
  have hmore : i + 1 < t.array.msgs.length := by omega
  by_cases hwrite : i + 1 < t.writes.length
  · have hm' : t.writes[i + 1]? = some t.writes[i + 1] := List.getElem?_eq_getElem hwrite
    exact ⟨_, deref_write hm', .writing _ _ _ (h.advanced_write hmore hm')⟩
  · -- the read follows the last write message
    have hlen : t.array.msgs.length = t.writes.length + t.read.toList.length := by
      simp [Transaction.array]
    have hi : i < t.writes.length := (List.getElem?_eq_some_iff.mp h.message).1
    cases hread : t.read with
    | none   =>
      rw [hread, Option.toList_none, List.length_nil] at hlen
      omega
    | some r =>
      rw [hread, Option.toList_some, List.length_singleton] at hlen
      have hindex : i + 1 = t.writes.length := by omega
      have hptr : (⟨t.array, i + 1⟩ : MsgPtr) = t.readPtr := by rw [hindex, Transaction.readPtr]
      refine ⟨r, ?_, .reading _ _ _ (h.advanced_read hread hindex hlen)⟩
      rw [hptr, deref_read hread]

/-- The transfer is complete. -/
theorem completed (h : Writing t mem i m (m.len + 1) s) (hrem : s.dev.rem ≤ 1) :
    Writing t mem i m (m.len + 1) s.completed where
  message := h.message
  msg := h.msg
  rem := h.rem
  count := h.count
  pos := h.pos
  cnt := h.cnt
  words := by simp [World.completed, I2c.words, Event.word?, h.words]
  unread := by simp [World.completed, received, Event.byte?, h.unread]
  mem := h.mem
  needFlush := h.needFlush
  flushCnt := h.flushCnt
  notYet := fun w hmem => h.notYet w (List.mem_of_ne_of_mem (by simp) hmem)
  done := fun _ => by
    have hleft := h.rem
    have hi : i < t.array.msgs.length := by
      have hlt := (List.getElem?_eq_some_iff.mp h.message).1
      simp only [Transaction.array, List.length_append]
      omega
    omega

end Writing

/-! ### What the handler does to the read message -/

/-- Requesting the stop adds its word. -/
theorem words_stopRequested (s : World) :
    words s.stopRequested.log = words s.log ++ if s.StopDue then [lastByte] else [] := by
  show words (if s.StopDue then .stop lastByte :: s.log else s.log) = _
  split
  · rfl
  · rw [List.append_nil]

/-- It receives nothing. -/
theorem received_stopRequested (s : World) : received s.stopRequested.log = received s.log := by
  show received (if s.StopDue then .stop lastByte :: s.log else s.log) = _
  split
  · exact List.append_nil _
  · rfl

/-- It adds no other event. -/
theorem mem_of_stopRequested {s : World} {e : Event} (he : e ≠ .stop lastByte)
    (hmem : e ∈ s.stopRequested.log) : e ∈ s.log := by
  replace hmem : e ∈ if s.StopDue then .stop lastByte :: s.log else s.log := hmem
  split at hmem
  · exact List.mem_of_ne_of_mem he hmem
  · exact hmem

theorem mem_stopRequested {s : World} {e : Event} (hmem : e ∈ s.log) :
    e ∈ s.stopRequested.log := by
  show e ∈ if s.StopDue then .stop lastByte :: s.log else s.log
  split
  · exact List.mem_cons_of_mem _ hmem
  · exact hmem

/-- The words of the read message after one more byte. -/
theorem readWords_succ {r : I2cMsg} {k : Nat} (hk : k ≠ 0) (hle : k ≤ r.len) :
    readWords r (k + 1)
      = readWords r k ++ if r.len = k + 1 ∨ r.len = 1 ∧ k = 1 then [lastByte] else [] := by
  unfold readWords
  rw [if_neg (Nat.succ_ne_zero k), if_neg hk]
  by_cases hdue : r.len = k + 1 ∨ r.len = 1 ∧ k = 1
  · rw [if_pos hdue, if_pos (by omega), if_neg (by omega)]
    rfl
  · rw [if_neg hdue, List.append_nil]
    by_cases hstopped : 2 ≤ k ∧ r.len ≤ k
    · rw [if_pos hstopped, if_pos (by omega)]
    · rw [if_neg hstopped, if_neg (by omega)]

namespace Reading

variable {k extra : Nat} {r : I2cMsg} {s : World}

theorem at_eq (h : Reading t mem r k extra s) {p : MsgPtr} {m' : I2cMsg} (hat : s.At p m') :
    p = t.readPtr ∧ m' = r := by
  have hp : p = t.readPtr := Option.some.inj (hat.1.symm.trans h.msg)
  subst hp
  exact ⟨rfl, Option.some.inj (hat.2.symm.trans (deref_read h.message))⟩

theorem isRead (h : Reading t mem r k extra s) : r.isRead = true ∧ 1 ≤ r.len :=
  t.isRead r h.message

/-- Its address word has not been written. -/
theorem none_read (h : Reading t mem r k extra s) (hpos : s.dev.pos < 0) : k = 0 := by
  have hk := h.pos
  omega

/-- All its bytes have been stored. -/
theorem all_read (h : Reading t mem r k extra s) (hpos : 0 ≤ s.dev.pos) (hcnt : s.dev.cnt = 0) :
    k = r.len + 1 := by
  have hk := h.pos
  have hleft := h.cnt
  rw [if_neg (by omega)] at hleft
  omega

/-- An event that is no word, no byte and no completion changes nothing. -/
theorem log_cons (h : Reading t mem r k extra s) {e : Event} (hword : e.word? = none)
    (hbyte : e.byte? = none) (hdone : e ≠ .done) :
    Reading t mem r k extra { s with log := e :: s.log } where
  message := h.message
  msg := h.msg
  rem := h.rem
  count := h.count
  surplus := h.surplus
  pos := h.pos
  cnt := h.cnt
  words := by simp [I2c.words, hword, h.words]
  bytes := by simp [received, hbyte, h.bytes]
  mem := by simp [received, hbyte, h.mem]
  needFlush := h.needFlush
  flushCnt := h.flushCnt
  started := by
    rw [← h.started]
    constructor
    · rintro ⟨w, hmem⟩
      refine ⟨w, List.mem_of_ne_of_mem ?_ hmem⟩
      rintro rfl
      exact absurd hword (Option.some_ne_none w)
    · rintro ⟨w, hmem⟩
      exact ⟨w, List.mem_cons_of_mem _ hmem⟩
  done := fun hmem => h.done (List.mem_of_ne_of_mem hdone.symm hmem)

/-- The address word is written. -/
theorem addressed (h : Reading t mem r 0 extra s) :
    Reading t mem r 1 extra (s.addressed t.readPtr r) where
  message := h.message
  msg := h.msg
  rem := h.rem
  count := by omega
  surplus := by
    have := h.surplus
    omega
  pos := by
    show s.dev.pos + 1 = _
    rw [h.pos]
    rfl
  cnt := by
    show s.dev.cnt = _
    rw [h.cnt, if_pos rfl, if_neg Nat.one_ne_zero]
    omega
  words := by
    have hlen := h.isRead.2
    show I2c.words s.log ++ [addressWord s.dev.rem r] = _
    rw [h.words, addressWord_eq, if_neg (by omega)]
    simp [readWords]
  bytes := by
    show (received s.log ++ []).length = _
    rw [List.append_nil, h.bytes]
  mem := by
    show s.mem = Memory.blit r.buf 0 _ mem
    rw [h.mem]
    simp
  needFlush := by
    show s.dev.needFlush = _
    rw [h.needFlush]
    simp
  flushCnt := h.flushCnt
  started := ⟨fun _ => Nat.one_ne_zero, fun _ => ⟨_, List.mem_cons_self⟩⟩
  done := fun hmem => by
    have hall := h.done (List.mem_of_ne_of_mem (by simp) hmem)
    omega

/-- The stop is requested before the last byte but one, or before the only one. -/
theorem stopDue_iff (h : Reading t mem r k extra s) (hk : k ≠ 0) :
    s.StopDue ↔ r.len = k + 1 ∨ r.len = 1 ∧ k = 1 := by
  have hpos := h.pos
  have hleft := h.cnt
  rw [if_neg hk] at hleft
  show s.dev.cnt = 1 ∧ s.dev.pos = 0 ∨ s.dev.cnt = 2 ↔ _
  omega

/-- A byte is stored, after the stop has been requested if it is time to. -/
theorem byteStored (b : Board) (h : Reading t mem r k extra s) (hk : k ≠ 0)
    (hcnt : s.dev.cnt ≠ 0) :
    Reading t mem r (k + 1) extra (s.stopRequested.byteStored b t.readPtr r) := by
  have hpos := h.pos
  have hleft := h.cnt
  rw [if_neg hk] at hleft
  have hle : k ≤ r.len := by
    have := h.count
    omega
  have hextra : extra = 0 := by
    have := h.surplus
    omega
  have haddr : s.stopRequested.bufAddress r = r.buf + (k - 1) := by
    show (r.buf + s.dev.pos).toNat = _
    omega
  have hbytes : (received s.log).length = k - 1 := by
    rw [h.bytes, hextra, Nat.add_zero]
  have hreceived : received (s.stopRequested.byteStored b t.readPtr r).log
      = received s.log ++ [b.data s.stopRequested.log] := by
    rw [← received_stopRequested s]
    rfl
  exact {
    message := h.message
    msg := h.msg
    rem := h.rem
    count := by omega
    surplus := Or.inl hextra
    pos := by
      show s.dev.pos + 1 = _
      omega
    cnt := by
      show s.dev.cnt - 1 = _
      rw [if_neg (Nat.succ_ne_zero k)]
      omega
    words := by
      show I2c.words s.stopRequested.log ++ [] = _
      rw [List.append_nil, words_stopRequested, h.words, readWords_succ hk hle,
        List.append_assoc]
      simp only [h.stopDue_iff hk]
    bytes := by
      rw [hreceived, List.length_append, hbytes, List.length_singleton]
      omega
    mem := by
      show Memory.blit (s.stopRequested.bufAddress r) 1 (fun _ => b.data s.stopRequested.log) s.mem
        = _
      have hcount : k + 1 - 1 = (received s.log).length + 1 := by omega
      rw [haddr, hreceived, hcount, h.mem, ← hbytes]
      exact Memory.blit_concat _ _ _ _
    needFlush := by
      show (s.dev.needFlush || decide (s.dev.cnt = 1 ∧ s.dev.pos = 0)) = _
      rw [h.needFlush, ← Bool.decide_or, decide_eq_decide]
      omega
    flushCnt := h.flushCnt
    started := by
      obtain ⟨w, hmem⟩ := h.started.mpr hk
      exact ⟨fun _ => Nat.succ_ne_zero k,
        fun _ => ⟨w, List.mem_cons_of_mem _ (mem_stopRequested hmem)⟩⟩
    done := fun hmem => by
      have hall := h.done (mem_of_stopRequested (by simp) (List.mem_of_ne_of_mem (by simp) hmem))
      omega }

/-- The surplus byte of a read of one byte is discarded. -/
theorem byteDropped (b : Board) (h : Reading t mem r 2 0 s) (hlen : r.len = 1) :
    Reading t mem r 2 1 (s.stopRepeated.byteDropped b) := by
  have hrepeat : s.stopRepeated = s := by
    unfold World.stopRepeated
    rw [h.flushCnt]
    rfl
  have hflush : s.dev.needFlush = true := by
    rw [h.needFlush, hlen]
    rfl
  rw [hrepeat]
  unfold World.byteDropped
  rw [hflush, if_pos rfl]
  exact {
    message := h.message
    msg := h.msg
    rem := h.rem
    count := h.count
    surplus := Or.inr ⟨rfl, hlen, rfl⟩
    pos := h.pos
    cnt := h.cnt
    words := by
      show I2c.words s.log ++ [] = _
      rw [List.append_nil, h.words]
    bytes := by
      show (received s.log ++ [_]).length = _
      rw [List.length_append, h.bytes]
      rfl
    mem := by
      show s.mem = _
      rw [h.mem]
      apply Memory.blit_congr
      intro i hi
      have hlt : i < (received s.log).length := by
        rw [h.bytes]
        omega
      show _ = (received s.log ++ [_]).getD i 0
      rw [List.getD_append _ _ _ _ hlt]
    needFlush := by simp
    flushCnt := h.flushCnt
    started := by
      obtain ⟨w, hmem⟩ := h.started.mpr (by decide)
      exact ⟨fun _ => by decide, fun _ => ⟨w, List.mem_cons_of_mem _ hmem⟩⟩
    done := fun _ => ⟨by omega, fun _ => rfl⟩ }

/-- The transfer is complete. -/
theorem completed (h : Reading t mem r (r.len + 1) extra s) (hflush : s.dev.needFlush = false) :
    Reading t mem r (r.len + 1) extra s.completed where
  message := h.message
  msg := h.msg
  rem := h.rem
  count := h.count
  surplus := h.surplus
  pos := h.pos
  cnt := h.cnt
  words := by simp [World.completed, I2c.words, Event.word?, h.words]
  bytes := by simp [World.completed, received, Event.byte?, h.bytes]
  mem := by simp [World.completed, received, Event.byte?, h.mem]
  needFlush := h.needFlush
  flushCnt := h.flushCnt
  started := by
    rw [← h.started]
    constructor
    · rintro ⟨w, hmem⟩
      exact ⟨w, List.mem_of_ne_of_mem (by simp) hmem⟩
    · rintro ⟨w, hmem⟩
      exact ⟨w, List.mem_cons_of_mem _ hmem⟩
  done := fun _ => ⟨rfl, fun hlen => by
    have hdecide : decide (r.len = 1 ∧ r.len + 1 = 2 ∧ extra = 0) = false := by
      rw [← h.needFlush, hflush]
    have hnot := of_decide_eq_false hdecide
    have := h.surplus
    omega⟩

end Reading

/-! ### Any number of runs of the handler -/

/-- A held byte is a byte of the read, or its surplus byte. -/
theorem holding_of_honest {b : Board} {s : World} (hread : HonestReads b t)
    (h : Engaged t mem s) (hv : rdFull (b.status s.log) = true) : Holding t mem s := by
  obtain ⟨r, hr, ⟨w, haddress⟩, hcount⟩ := hread s.log hv
  cases h with
  | writing i m k h => exact absurd haddress (h.notYet w)
  | reading r' k extra h =>
    obtain rfl : r' = r := Option.some.inj (h.message.symm.trans hr)
    rw [h.bytes] at hcount
    exact ⟨r', k, extra, h, h.started.mp ⟨w, haddress⟩, hcount⟩

/-- The state after an event that is no word, no byte and no completion. -/
theorem Served.log_cons {v : U32} {s : World} {e : Event} (h : Served t mem v s)
    (hword : e.word? = none) (hbyte : e.byte? = none) (hdone : e ≠ .done) :
    Served t mem v { s with log := e :: s.log } := by
  refine ⟨?_, fun hv => ?_⟩
  · cases h.1 with
    | writing i m k h => exact .writing i m k (h.log_cons hword hbyte hdone)
    | reading r k extra h => exact .reading r k extra (h.log_cons hword hbyte hdone)
  · obtain ⟨r, k, extra, hr, hk, hcount⟩ := h.2 hv
    exact ⟨r, k, extra, hr.log_cons hword hbyte hdone, hk, hcount⟩

/-- **Engine.**  What the handler can do keeps the engine in the transaction. -/
theorem engaged_rule {b : Board} (herror : ∀ h, hasError (b.status h) = false)
    (hread : HonestReads b t) :
    EngineRule b (Engaged t mem) (fun v s => (∃ h, v = b.status h) ∧ Served t mem v s) where
  status s h := by
    have hserved : Served t mem (b.status s.log) s := ⟨h, holding_of_honest hread h⟩
    exact ⟨⟨s.log, rfl⟩, hserved.log_cons rfl rfl (by simp)⟩
  rest v s h := h.2.1
  deref s p h hp := by
    cases h with
    | writing i m k h =>
      obtain rfl : (⟨t.array, i⟩ : MsgPtr) = p := Option.some.inj (h.msg.symm.trans hp)
      exact ⟨m, deref_write h.message⟩
    | reading r k extra h =>
      obtain rfl : t.readPtr = p := Option.some.inj (h.msg.symm.trans hp)
      exact ⟨r, deref_read h.message⟩
  failed v s p h hp hv := by
    obtain ⟨⟨h', rfl⟩, _⟩ := h
    rw [herror h'] at hv
    exact absurd hv Bool.false_ne_true
  addressed v s p m' h hat _ hpos := by
    obtain ⟨hv, hengaged, hholding⟩ := h
    refine ⟨hv, ?_, fun hfull => ?_⟩
    · cases hengaged with
      | writing i m k h =>
        obtain ⟨rfl, rfl⟩ := h.at_eq hat
        obtain rfl : k = 0 := h.none_written hpos
        exact .writing i m' 1 h.addressed
      | reading r k extra h =>
        obtain ⟨rfl, rfl⟩ := h.at_eq hat
        obtain rfl : k = 0 := h.none_read hpos
        exact .reading m' 1 extra h.addressed
    · -- a byte is held only after the address word
      obtain ⟨r, k, extra, hr, hk, _⟩ := hholding hfull
      have := hr.pos
      omega
  byteSent v s p m' h hat _ hpos hwrite hcnt := by
    obtain ⟨hv, hengaged, hholding⟩ := h
    -- no byte is held while a write message goes on
    have hnone : ¬ rdFull v = true := fun hfull => by
      obtain ⟨r, k, extra, hr, _, _⟩ := hholding hfull
      obtain ⟨_, rfl⟩ := hr.at_eq hat
      rw [hr.isRead.1] at hwrite
      exact Bool.noConfusion hwrite
    refine ⟨hv, ?_, fun hfull => absurd hfull hnone⟩
    cases hengaged with
    | writing i m k h =>
      obtain ⟨rfl, rfl⟩ := h.at_eq hat
      have hk : k ≠ 0 := by
        have := h.pos
        omega
      exact .writing i m' (k + 1) (h.byteSent hk hcnt)
    | reading r k extra h =>
      obtain ⟨_, rfl⟩ := h.at_eq hat
      rw [h.isRead.1] at hwrite
      exact Bool.noConfusion hwrite
  byteStored v s p m' h hat hv _ hpos hcnt := by
    obtain ⟨r, k, extra, hr, hk, _⟩ := h.2.2 hv
    obtain ⟨rfl, rfl⟩ := hr.at_eq hat
    exact .reading m' (k + 1) extra (hr.byteStored b hk hcnt)
  byteDropped v s p m' h hat hv hend := by
    obtain ⟨r, k, extra, hr, hk, hcount⟩ := h.2.2 hv
    obtain ⟨rfl, rfl⟩ := hr.at_eq hat
    have hpos := hr.pos
    have hcnt := hr.cnt
    have hsurplus := hr.surplus
    rw [if_neg hk] at hcnt
    -- a held byte that is not expected is the surplus byte of a read of one byte
    have hall : s.dev.cnt = 0 := by
      by_contra hne
      exact hend ⟨hr.isRead.1, by omega, hne⟩
    obtain ⟨rfl, rfl, hlen⟩ : k = 2 ∧ extra = 0 ∧ m'.len = 1 := by omega
    exact .reading m' 2 1 (hr.byteDropped b hlen)
  advanced s p m' h hat hpos hcnt hrem := by
    cases h with
    | writing i m k h =>
      obtain ⟨rfl, rfl⟩ := h.at_eq hat
      obtain rfl : k = m'.len + 1 := h.all_written hpos hcnt
      exact h.advanced hrem
    | reading r k extra h =>
      have := h.rem
      omega
  completed s p m' h hat hpos hcnt hrem hflush := by
    cases h with
    | writing i m k h =>
      obtain ⟨rfl, rfl⟩ := h.at_eq hat
      obtain rfl : k = m'.len + 1 := h.all_written hpos hcnt
      exact .writing i m' (m'.len + 1) (h.completed hrem)
    | reading r k extra h =>
      obtain rfl : k = r.len + 1 := h.all_read hpos hcnt
      exact .reading r (r.len + 1) extra (h.completed hflush)

/-! ### Framing -/

/-- The start of a transfer, and of the history of interest. -/
def World.fresh (s : World) (msgs : MsgArray) : World := { s.armed msgs with log := [] }

/-- After the set-up the engine is at the first message. -/
theorem engaged_fresh (t : Transaction) (s : World) : Engaged t s.mem (s.fresh t.array) := by
  cases hwrites : t.writes with
  | cons m ms =>
    have hm : t.writes[0]? = some m := by rw [hwrites]; rfl
    have hhead : t.array.msgs.head t.array.nonempty = m := by simp [Transaction.array, hwrites]
    refine .writing 0 m 0 ?_
    exact {
      message := hm
      msg := rfl
      rem := by simp [World.fresh, World.armed, armedDev, MsgArray.num]
      count := by omega
      pos := rfl
      cnt := by simp [World.fresh, World.armed, armedDev, hhead]
      words := by simp [World.fresh, words, Transaction.sentBefore, Transaction.sentOf]
      unread := rfl
      mem := rfl
      needFlush := rfl
      flushCnt := rfl
      notYet := fun _ => List.not_mem_nil
      done := fun hmem => absurd hmem List.not_mem_nil }
  | nil =>
    obtain ⟨r, hread⟩ : ∃ r, t.read = some r := by
      cases hread : t.read with
      | none   => exact absurd (by simp [hwrites, hread]) t.nonempty
      | some r => exact ⟨r, rfl⟩
    have hhead : t.array.msgs.head t.array.nonempty = r := by
      simp [Transaction.array, hwrites, hread]
    have hptr : t.readPtr = ⟨t.array, 0⟩ := by rw [Transaction.readPtr, hwrites]; rfl
    refine .reading r 0 0 ?_
    exact {
      message := hread
      msg := congrArg some hptr.symm
      rem := by simp [World.fresh, World.armed, armedDev, MsgArray.num, Transaction.array, hwrites,
        hread]
      count := by omega
      surplus := Or.inl rfl
      pos := rfl
      cnt := by simp [World.fresh, World.armed, armedDev, hhead]
      words := by simp [World.fresh, words, Transaction.sentBefore, readWords, hwrites]
      bytes := rfl
      mem := by simp [World.fresh, World.armed]
      needFlush := by simp [World.fresh, World.armed, armedDev]
      flushCnt := rfl
      started := ⟨fun ⟨_, hmem⟩ => absurd hmem List.not_mem_nil, fun hne => absurd rfl hne⟩
      done := fun hmem => absurd hmem List.not_mem_nil }

/-- The words, the buffer and the bytes are as the transaction says. -/
structure Framed (t : Transaction) (mem : Memory) (s : World) : Prop where
  words : words s.log = t.frame mem
  mem : s.mem = t.filled (received s.log) mem
  bytes : (received s.log).length = t.arrivals

/-- A transfer found complete is as the transaction says. -/
theorem Engaged.framed {s : World} (h : Engaged t mem s) (hdone : Event.done ∈ s.log) :
    Framed t mem s := by
  cases h with
  | writing i m k h =>
    obtain ⟨rfl, hlast⟩ := h.done hdone
    have hframe : t.frame mem = _ := frame_of_last h.message hlast
    have hnone : t.read = none := by
      cases hread : t.read with
      | none   => rfl
      | some r =>
        have hi : i < t.writes.length := (List.getElem?_eq_some_iff.mp h.message).1
        have htotal : t.array.msgs.length = t.writes.length + 1 := by
          simp [Transaction.array, hread]
        omega
    exact {
      words := h.words.trans hframe.symm
      mem := by rw [Transaction.filled, hnone, h.mem]
      bytes := by rw [h.unread, Transaction.arrivals, hnone]; rfl }
  | reading r k extra h =>
    obtain ⟨rfl, hsurplus⟩ := h.done hdone
    have hlen := h.isRead.2
    have hextra := h.surplus
    exact {
      words := by
        have hall : t.sentBefore mem t.writes.length = t.writes.flatMap (writeWords mem) := by
          rw [Transaction.sentBefore, List.take_length]
        rw [h.words, Transaction.frame, h.message, hall, readWords, if_neg (by omega),
          if_pos (by omega)]
      mem := by
        rw [Transaction.filled, h.message, h.mem]
        rfl
      bytes := by
        rw [h.bytes, Transaction.arrivals, h.message]
        show r.len + 1 - 1 + extra = if r.len = 1 then 2 else r.len
        by_cases hone : r.len = 1
        · rw [if_pos hone, hsurplus hone]
          omega
        · rw [if_neg hone]
          omega }

/-- The flag that requests the stop. -/
def requestsStop (w : Word) : Bool := w.getLsbD 9

/-- The last word requests the stop, and no other does. -/
def StopsOnce (ws : List Word) : Prop :=
  ∃ init w, ws = init ++ [w] ∧ requestsStop w = true ∧ ∀ v ∈ init, requestsStop v = false

/-- Bit 8 of every address is clear: shifted left by one, it would fall on the flag of the stop. -/
def Transaction.KeepsStopClear (t : Transaction) : Prop :=
  ∀ m ∈ t.array.msgs, m.addr.getLsbD 8 = false

/-- An address word requests the stop when bit 8 of the address is set. -/
theorem requestsStop_addressOf (m : I2cMsg) : requestsStop (addressOf m) = m.addr.getLsbD 8 := by
  have hread : ((if m.isRead = true then 1#16 else 0#16) : Word).getLsbD 9 = false := by
    split <;> rfl
  have hflag : addrByte.getLsbD 9 = false := rfl
  unfold requestsStop addressOf
  rw [BitVec.getLsbD_or, BitVec.getLsbD_or, hread, hflag, BitVec.getLsbD_shiftLeft,
    show 9 - 1 = 8 from rfl, Bool.or_false, Bool.or_false]
  rfl

theorem requestsStop_byte (byte : Byte) : requestsStop (byte.setWidth 16) = false := by
  unfold requestsStop
  rw [BitVec.getLsbD_setWidth, BitVec.getLsbD_of_ge _ _ (by decide : 8 ≤ 9)]
  rfl

theorem requestsStop_marked (w : Word) : requestsStop (w ||| lastByte) = true := by
  have hflag : lastByte.getLsbD 9 = true := rfl
  unfold requestsStop
  rw [BitVec.getLsbD_or, hflag, Bool.or_true]

/-- The words of write messages request no stop. -/
theorem requestsStop_writes {ms : List I2cMsg} (h : ∀ m ∈ ms, m.addr.getLsbD 8 = false) :
    ∀ w ∈ ms.flatMap (writeWords mem), requestsStop w = false := by
  intro w hw
  obtain ⟨m, hm, hwm⟩ := List.mem_flatMap.mp hw
  rcases List.mem_cons.mp hwm with rfl | hbyte
  · exact (requestsStop_addressOf m).trans (h m hm)
  · obtain ⟨i, _, rfl⟩ := List.mem_map.mp hbyte
    exact requestsStop_byte _

/-- **One stop.**  The stop is requested once in a frame, by its last word. -/
theorem frame_stopsOnce (h : t.KeepsStopClear) : StopsOnce (t.frame mem) := by
  have hwrites : ∀ w ∈ t.writes.flatMap (writeWords mem), requestsStop w = false :=
    requestsStop_writes fun m hm => h m (List.mem_append_left _ hm)
  unfold Transaction.frame
  cases hread : t.read with
  | some r =>
    refine ⟨t.writes.flatMap (writeWords mem) ++ [addressOf r], lastByte, by simp, rfl, ?_⟩
    intro v hv
    rcases List.mem_append.mp hv with hold | hlast
    · exact hwrites v hold
    · obtain rfl := List.mem_singleton.mp hlast
      exact (requestsStop_addressOf r).trans (h r (by simp [Transaction.array, hread]))
  | none =>
    have hne : t.writes.flatMap (writeWords mem) ≠ [] := by
      intro hnil
      have hnonempty := t.nonempty
      rw [hread, Option.toList_none, List.append_nil] at hnonempty
      obtain ⟨m, ms, hms⟩ := List.exists_cons_of_ne_nil hnonempty
      rw [hms] at hnil
      exact absurd hnil (by simp [writeWords])
    obtain ⟨init, w, hsplit⟩ : ∃ init w, t.writes.flatMap (writeWords mem) = init ++ [w] :=
      ⟨_, _, (List.dropLast_append_getLast hne).symm⟩
    refine ⟨init, w ||| lastByte, ?_, requestsStop_marked w, fun v hv => hwrites v ?_⟩
    · simp only
      rw [hsplit, markLast_concat]
    · rw [hsplit]
      exact List.mem_append_left _ hv

end HtcLeo.I2c

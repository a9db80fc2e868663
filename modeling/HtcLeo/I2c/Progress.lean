import HtcLeo.Lib.Runs
import HtcLeo.I2c.Framing

namespace HtcLeo.I2c

open Prog

/-!
# I2CDxe — a transfer comes to its end

The handler comes further with every status the engine has been waiting for, so that on a
controller that takes words and delivers bytes it finds the transfer complete.

* `progress` — how far the engine has come; `progress_le` bounds it.
* `Helpful` — the status the engine waits for.
* `isr_progress` — one run of the handler.
* `reaches_done` — any number of them.
-/

variable {b : Board} {t : Transaction} {mem : Memory} {v : U32} {s : World} {p : MsgPtr}
  {m : I2cMsg}

/-- How far the engine has come: messages, words and bytes. -/
def progress (s : World) : Nat :=
  (s.dev.msg.map (·.index)).getD 0 + (words s.log).length + (received s.log).length

/-- The status is what the engine waits for: the next byte of the read, or else room for a
    word. -/
def Helpful (t : Transaction) (v : U32) (h : History) : Prop :=
  if (∃ w, Event.address t.readPtr w ∈ h) ∧ (received h).length < t.arrivals then rdFull v = true
  else wrFull v = false

/-! ### A bound -/

theorem markLast_length (ws : List Word) : (markLast ws).length = ws.length := by
  fun_induction markLast ws with
  | case1 => rfl
  | case2 => rfl
  | case3 w v ws ih => simp [ih]

theorem sentBefore_length_le (i : Nat) :
    (t.sentBefore mem i).length ≤ (t.sentBefore mem t.writes.length).length := by
  have hsplit : t.sentBefore mem t.writes.length
      = t.sentBefore mem i ++ (t.writes.drop i).flatMap (writeWords mem) := by
    unfold Transaction.sentBefore
    rw [List.take_length, ← List.flatMap_append, List.take_append_drop]
  rw [hsplit, List.length_append]
  omega

theorem sentOf_length_le (i k : Nat) : (t.sentOf mem i m k).length ≤ m.len + 1 := by
  unfold Transaction.sentOf
  split
  · rw [markLast_length, writeWords_length]
  · rw [List.length_take, writeWords_length]
    omega

/-- The engine does not come further than this. -/
def Transaction.extent (t : Transaction) (mem : Memory) : Nat :=
  t.array.msgs.length + (t.sentBefore mem t.writes.length).length + 2 + t.arrivals

theorem Engaged.progress_le (h : Engaged t mem s) : progress s ≤ t.extent mem := by
  unfold progress Transaction.extent
  cases h with
  | writing i m k h =>
    have hi : i < t.writes.length := (List.getElem?_eq_some_iff.mp h.message).1
    have hlen : t.writes.length ≤ t.array.msgs.length := by simp [Transaction.array]
    -- the words sent are those before this message and some of its own
    have hbefore : (t.sentBefore mem (i + 1)).length
        ≤ (t.sentBefore mem t.writes.length).length := sentBefore_length_le (i + 1)
    have hof : (t.sentOf mem i m k).length ≤ m.len + 1 := sentOf_length_le i k
    rw [sentBefore_succ h.message, List.length_append, writeWords_length] at hbefore
    rw [h.msg, h.words, h.unread, List.length_append, List.length_nil]
    show i + _ + 0 ≤ _
    omega
  | reading r k extra h =>
    have hlen : t.writes.length ≤ t.array.msgs.length := by simp [Transaction.array]
    -- a read has one or two words: its address, and the stop
    have hwords : (readWords r k).length ≤ 2 := by
      unfold readWords
      split
      · simp
      · split <;> simp
    have hbytes : k - 1 + extra ≤ t.arrivals := by
      have hcount := h.count
      have hsurplus := h.surplus
      rw [Transaction.arrivals, h.message]
      show _ ≤ if r.len = 1 then 2 else r.len
      split <;> omega
    rw [h.msg, h.words, h.bytes, List.length_append]
    show t.writes.length + _ + _ ≤ _
    omega

/-! ### What each step adds -/

/-- Reading the status adds nothing. -/
theorem progress_statusRead : progress (s.statusRead b) = progress s := by
  simp only [progress, World.statusRead, World.push, words, received, Event.word?, Event.byte?,
    Option.toList_none, List.append_nil]

/-- Nor does it change what the engine waits for. -/
theorem helpful_statusRead : Helpful t v (s.statusRead b).log ↔ Helpful t v s.log := by
  simp [Helpful, World.statusRead, World.push, received, Event.byte?]

theorem progress_addressed : progress (s.addressed p m) = progress s + 1 := by
  simp only [progress, World.addressed, words, received, Event.word?, Event.byte?,
    Option.toList_some, Option.toList_none, List.length_append, List.length_singleton,
    List.length_nil]
  omega

theorem progress_byteSent : progress (s.byteSent p m) = progress s + 1 := by
  simp only [progress, World.byteSent, words, received, Event.word?, Event.byte?,
    Option.toList_some, Option.toList_none, List.length_append, List.length_singleton,
    List.length_nil]
  omega

theorem progress_stopRequested (s : World) : progress s ≤ progress s.stopRequested := by
  unfold progress
  rw [words_stopRequested, received_stopRequested, List.length_append]
  show (s.dev.msg.map (·.index)).getD 0 + _ + _ ≤ (s.dev.msg.map (·.index)).getD 0 + _ + _
  omega

theorem progress_byteStored : progress s < progress (s.stopRequested.byteStored b p m) := by
  have hstop := progress_stopRequested s
  have hstored : progress (s.stopRequested.byteStored b p m) = progress s.stopRequested + 1 := by
    simp only [progress, World.byteStored, words, received, Event.word?, Event.byte?,
      Option.toList_some, Option.toList_none, List.length_append, List.length_singleton,
      List.length_nil]
    omega
  omega

theorem progress_byteDropped : progress s < progress (s.stopRepeated.byteDropped b) := by
  have hstop : progress s ≤ progress s.stopRepeated := by
    unfold World.stopRepeated
    simp only [progress]
    split
    · simp only [words, received, List.length_append]
      omega
    · exact Nat.le_refl _
  have hdropped : progress (s.stopRepeated.byteDropped b) = progress s.stopRepeated + 1 := by
    simp only [progress, World.byteDropped, words, received, Event.word?, Event.byte?,
      Option.toList_some, Option.toList_none, List.length_append, List.length_singleton,
      List.length_nil]
    omega
  omega

theorem progress_advanced {m' : I2cMsg} (h : s.dev.msg = some p) :
    progress (s.advanced p m') = progress s + 1 := by
  simp only [progress, World.advanced, h, Option.map_some, Option.getD_some]
  omega

theorem progress_completed : progress s.completed = progress s := by
  simp only [progress, World.completed, words, received, Event.word?, Event.byte?,
    Option.toList_none, List.append_nil]

/-- Filling the write buffer writes a word, unless there is none to write. -/
theorem fillWriteBuffer_progress (hat : s.At p m) :
    ∃ notDone s', fillWriteBuffer undisturbed s = (some notDone, s') ∧
      (progress s < progress s' ∨ notDone = false ∧ s' = s ∧ 0 ≤ s.dev.pos ∧
        (m.isRead = true ∨ s.dev.cnt = 0)) := by
  rw [fillWriteBuffer_apply hat]
  by_cases hpos : s.dev.pos < 0
  · rw [if_pos hpos]
    refine ⟨true, _, rfl, Or.inl ?_⟩
    rw [progress_addressed]
    exact Nat.lt_succ_self _
  · rw [if_neg hpos]
    by_cases hnone : m.isRead = true ∨ s.dev.cnt = 0
    · rw [if_pos hnone]
      exact ⟨false, s, rfl, Or.inr ⟨rfl, rfl, by omega, hnone⟩⟩
    · rw [if_neg hnone]
      refine ⟨true, _, rfl, Or.inl ?_⟩
      rw [progress_byteSent]
      exact Nat.lt_succ_self _

/-- Emptying the read buffer reads a byte. -/
theorem readBuffer_progress (hat : s.At p m) :
    ∃ s', readBuffer b undisturbed s = (some (), s') ∧ progress s < progress s' := by
  rw [readBuffer_apply hat]
  split
  · exact ⟨_, rfl, progress_byteStored⟩
  · exact ⟨_, rfl, progress_byteDropped⟩

/-- After the last byte of a message the engine goes on, or the transfer is complete. -/
theorem advance_progress {notDone : Bool} {s' : World} (hat : s.At p m)
    (hnext : 0 ≤ s.dev.pos → s.dev.cnt = 0 → 1 < s.dev.rem →
      ∃ m', MsgPtr.deref? { p with index := p.index + 1 } = some m')
    (hrun : advance undisturbed notDone s = (some (), s')) :
    progress s ≤ progress s' ∧ (0 ≤ s.dev.pos → s.dev.cnt = 0 → notDone = false →
      s.dev.needFlush = false → progress s < progress s' ∨ Event.done ∈ s'.log) := by
  rw [advance_apply] at hrun
  by_cases hend : 0 ≤ s.dev.pos ∧ s.dev.cnt = 0
  · rw [if_pos hend] at hrun
    by_cases hrem : 1 < s.dev.rem
    · rw [if_pos hrem] at hrun
      obtain ⟨m', hm'⟩ := hnext hend.1 hend.2 hrem
      rw [nextMsg_apply hat.1 hm'] at hrun
      obtain rfl := (Prod.mk.inj hrun).2
      rw [progress_advanced hat.1]
      exact ⟨by omega, fun _ _ _ _ => Or.inl (by omega)⟩
    · rw [if_neg hrem] at hrun
      by_cases hdone : notDone = false ∧ s.dev.needFlush = false
      · rw [if_pos hdone] at hrun
        obtain rfl := (Prod.mk.inj hrun).2
        refine ⟨?_, fun _ _ _ _ => Or.inr List.mem_cons_self⟩
        rw [progress_completed]
      · rw [if_neg hdone] at hrun
        obtain rfl := (Prod.mk.inj hrun).2
        exact ⟨Nat.le_refl _, fun _ _ hn hf => absurd ⟨hn, hf⟩ hdone⟩
  · rw [if_neg hend] at hrun
    obtain rfl := (Prod.mk.inj hrun).2
    exact ⟨Nat.le_refl _, fun hpos hcnt _ _ => absurd ⟨hpos, hcnt⟩ hend⟩

/-! ### What a run of the handler adds -/

/-- At the end of a message, with the status the engine waits for, nothing is left to be done
    for the message. -/
theorem Engaged.finished (h : Engaged t mem s) (hat : s.At p m) (hpos : 0 ≤ s.dev.pos)
    (hend : m.isRead = true ∨ s.dev.cnt = 0) (hv : rdFull v = false) (hhelp : Helpful t v s.log) :
    s.dev.cnt = 0 ∧ s.dev.needFlush = false := by
  cases h with
  | writing i m' k h =>
    obtain ⟨_, rfl⟩ := h.at_eq hat
    refine ⟨hend.resolve_left ?_, h.needFlush⟩
    rw [h.isWrite]
    exact Bool.false_ne_true
  | reading r k extra h =>
    have hk : k ≠ 0 := by
      have := h.pos
      omega
    have harrived : ¬ (received s.log).length < t.arrivals := by
      intro hlt
      rw [Helpful, if_pos ⟨h.started.mpr hk, hlt⟩, hv] at hhelp
      exact Bool.noConfusion hhelp
    have hcount := h.count
    have hsurplus := h.surplus
    have hleft := h.cnt
    rw [if_neg hk] at hleft
    have harrivals : t.arrivals = if r.len = 1 then 2 else r.len := by
      rw [Transaction.arrivals, h.message]
    rw [h.bytes, harrivals] at harrived
    rw [h.needFlush, decide_eq_false_iff_not]
    -- a read of one byte has read its surplus byte
    by_cases hone : r.len = 1
    · rw [if_pos hone] at harrived
      omega
    · rw [if_neg hone] at harrived
      omega

/-- The engine works with a message. -/
theorem Engaged.msg_ne_none (h : Engaged t mem s) : s.dev.msg ≠ none := by
  cases h with
  | writing i m k h =>
    rw [h.msg]
    exact Option.some_ne_none _
  | reading r k extra h =>
    rw [h.msg]
    exact Option.some_ne_none _

/-- With a status read, the handler never falls back, and with the one the engine waits for it
    comes further or finds the transfer complete. -/
theorem serve_progress (herror : ∀ h, hasError (b.status h) = false) (hread : HonestReads b t)
    (hv : ∃ h, v = b.status h) (hs : Served t mem v s) :
    ∃ s', serve b undisturbed v s = (some (), s') ∧ Engaged t mem s' ∧ progress s ≤ progress s' ∧
      (Helpful t v s.log → progress s < progress s' ∨ Event.done ∈ s'.log) := by
  have hrule : EngineRule b (Engaged t mem) _ := engaged_rule herror hread
  have hbusy : EngineRule.Busy (fun s => (∃ h, v = b.status h) ∧ Served t mem v s) s :=
    ⟨⟨hv, hs⟩, hs.1.msg_ne_none⟩
  obtain ⟨p, m, hat⟩ := (hbusy.rest hrule).at_ hrule
  have hfill : ∃ notDone s₁,
      (if wrFull v then pure true else fillWriteBuffer undisturbed : Prog World Bool) s
        = (some notDone, s₁) ∧
      EngineRule.Busy (fun s => (∃ h, v = b.status h) ∧ Served t mem v s) s₁ ∧
      (progress s < progress s₁ ∨ s₁ = s ∧ (wrFull v = false →
        notDone = false ∧ 0 ≤ s.dev.pos ∧ (m.isRead = true ∨ s.dev.cnt = 0))) := by
    cases hw : wrFull v with
    | true  => exact ⟨true, s, rfl, hbusy, Or.inr ⟨rfl, fun h => absurd h (by decide)⟩⟩
    | false =>
      obtain ⟨_, _, hrun, hbusy₁⟩ := hrule.fillWriteBuffer hw s hbusy
      obtain ⟨notDone, s₁, hrun₁, hstep⟩ := fillWriteBuffer_progress hat
      obtain rfl := (Prod.mk.inj (hrun.symm.trans hrun₁)).2
      refine ⟨notDone, _, hrun₁, hbusy₁, hstep.imp_right ?_⟩
      exact fun ⟨hdone, hsame, hpos, hend⟩ => ⟨hsame, fun _ => ⟨hdone, hpos, hend⟩⟩
  obtain ⟨notDone, s₁, hrun₁, hbusy₁, hstep₁⟩ := hfill
  have hempty : ∃ s₂, (if rdFull v then readBuffer b undisturbed else pure () : Prog World Unit) s₁
        = (some (), s₂) ∧ EngineRule.Busy (Engaged t mem) s₂ ∧
      (progress s₁ < progress s₂ ∨ rdFull v = false ∧ s₂ = s₁) := by
    cases hr : rdFull v with
    | false => exact ⟨s₁, rfl, hbusy₁.rest hrule, Or.inr ⟨rfl, rfl⟩⟩
    | true  =>
      obtain ⟨_, _, hat₁⟩ := (hbusy₁.rest hrule).at_ hrule
      obtain ⟨_, _, hrun, hbusy₂⟩ := hrule.readBuffer hr s₁ hbusy₁
      obtain ⟨s₂, hrun₂, hstep⟩ := readBuffer_progress hat₁
      obtain rfl := (Prod.mk.inj (hrun.symm.trans hrun₂)).2
      exact ⟨_, hrun₂, hbusy₂, Or.inl hstep⟩
  obtain ⟨s₂, hrun₂, hbusy₂, hstep₂⟩ := hempty
  obtain ⟨_, s₃, hrun₃, hengaged⟩ := hrule.advance notDone s₂ hbusy₂
  obtain ⟨p₂, m₂, hat₂⟩ := hbusy₂.at_ hrule
  obtain ⟨hle, hlast⟩ := advance_progress hat₂ (fun hpos hcnt hrem => by
    obtain ⟨m', hm', _⟩ := hrule.advanced s₂ p₂ m₂ hbusy₂.1 hat₂ hpos hcnt hrem
    exact ⟨m', hm'⟩) hrun₃
  refine ⟨s₃, bind_of hrun₁ (bind_of hrun₂ hrun₃), hengaged, ?_, fun hhelp => ?_⟩
  · rcases hstep₁ with hlt₁ | ⟨rfl, _⟩ <;> rcases hstep₂ with hlt₂ | ⟨_, rfl⟩ <;> omega
  · rcases hstep₂ with hlt₂ | ⟨hnone, rfl⟩
    · rcases hstep₁ with hlt₁ | ⟨rfl, _⟩ <;> exact Or.inl (by omega)
    · rcases hstep₁ with hlt₁ | ⟨rfl, hidle⟩
      · exact Or.inl (by omega)
      · -- no byte is waited for, and none of the message's words is left
        have hwrite : wrFull v = false := by
          by_cases hwaits : (∃ w, Event.address t.readPtr w ∈ s₂.log) ∧
              (received s₂.log).length < t.arrivals
          · rw [Helpful, if_pos hwaits, hnone] at hhelp
            exact Bool.noConfusion hhelp
          · rwa [Helpful, if_neg hwaits] at hhelp
        obtain ⟨hdone, hpos, hend⟩ := hidle hwrite
        obtain ⟨hcnt, hflush⟩ := hs.1.finished hat hpos hend hnone hhelp
        exact hlast hpos hcnt hdone hflush

/-- **One run.**  The same with the status that the board shows. -/
theorem isr_progress (herror : ∀ h, hasError (b.status h) = false) (hread : HonestReads b t)
    (hs : Engaged t mem s) :
    ∃ s', isr b s = (some (), s') ∧ Engaged t mem s' ∧ progress s ≤ progress s' ∧
      (Helpful t (b.status s.log) s.log → progress s < progress s' ∨ Event.done ∈ s'.log) := by
  have hrule : EngineRule b (Engaged t mem) _ := engaged_rule herror hread
  obtain ⟨hv, hserved⟩ := hrule.status s hs
  obtain ⟨s', hrun, hengaged, hle, hstep⟩ := serve_progress herror hread hv hserved
  obtain ⟨p, hp⟩ := Option.ne_none_iff_exists'.mp hs.msg_ne_none
  have hmsg : (s.statusRead b).dev.msg = some p := hp
  have hisr : isr b s = (some (), s') := by
    apply bind_of (undisturbed_apply 0 s)
    apply bind_of (show readStatus b .engine s = (some (b.status s.log), s.statusRead b) from rfl)
    apply bind_of (getDev_apply 1 _ _)
    rw [hmsg, herror]
    exact hrun
  rw [progress_statusRead] at hle hstep
  exact ⟨s', hisr, hengaged, hle, fun hhelp => hstep (helpful_statusRead.mpr hhelp)⟩

/-! ### Any number of runs -/

/-- The transfer prepared, and so many runs of the handler later. -/
def Transaction.after (t : Transaction) (b : Board) (s : World) (n : Nat) : World :=
  (handlers b n (s.fresh t.array)).2

/-- Again and again the controller shows what the engine waits for: `WR_BUFFER_FULL` clear, or
    the next byte. -/
def Fair (b : Board) (t : Transaction) (s : World) : Prop :=
  ∀ n, ∃ k ≥ n, Helpful t (b.status (t.after b s k).log) (t.after b s k).log

/-- The transfer is under way however often the handler has run. -/
theorem after_engaged (herror : ∀ h, hasError (b.status h) = false) (hread : HonestReads b t)
    (n : Nat) : handlers b n (s.fresh t.array) = (some (), t.after b s n) ∧
      Engaged t s.mem (t.after b s n) := by
  have hrule : EngineRule b (Engaged t s.mem) _ := engaged_rule herror hread
  obtain ⟨_, s', hrun, hengaged⟩ :=
    handlers_completes hrule.isr n (s.fresh t.array) (engaged_fresh t s)
  unfold Transaction.after
  rw [hrun]
  exact ⟨rfl, hengaged⟩

/-- One more run. -/
theorem after_succ (herror : ∀ h, hasError (b.status h) = false) (hread : HonestReads b t)
    (n : Nat) : isr b (t.after b s n) = (some (), t.after b s (n + 1)) := by
  obtain ⟨hrun, hengaged⟩ := after_engaged (s := s) herror hread n
  obtain ⟨s', hisr, _⟩ := isr_progress herror hread hengaged
  have hsucc : t.after b s (n + 1) = s' := by
    unfold Transaction.after
    rw [handlers_succ, bind_of hrun hisr]
  rw [hsucc, hisr]

/-- **The end.**  On a fair controller the engine finds the transfer complete. -/
theorem reaches_done (herror : ∀ h, hasError (b.status h) = false) (hread : HonestReads b t)
    (hfair : Fair b t s) : ∃ n, Event.done ∈ (t.after b s n).log := by
  have hstep : ∀ n, progress (t.after b s n) ≤ progress (t.after b s (n + 1)) ∧
      (Helpful t (b.status (t.after b s n).log) (t.after b s n).log →
        progress (t.after b s n) < progress (t.after b s (n + 1)) ∨
        Event.done ∈ (t.after b s (n + 1)).log) := by
    intro n
    obtain ⟨s', hisr, _, hle, hhelp⟩ :=
      isr_progress herror hread (after_engaged (s := s) herror hread n).2
    obtain rfl := (Prod.mk.inj ((after_succ herror hread n).symm.trans hisr)).2
    exact ⟨hle, hhelp⟩
  have hbound : ∀ n, progress (t.after b s n) ≤ t.extent s.mem :=
    fun n => (after_engaged herror hread n).2.progress_le
  apply Runs.reached_of_progress (t.after b s) (fun s' => Event.done ∈ s'.log) progress hbound
    fun n => (hstep n).1
  intro n
  obtain ⟨k, hk, hhelp⟩ := hfair n
  exact ⟨k, hk, (hstep k).2 hhelp⟩

/-! ### The whole transfer -/

/-- **Framing.**  However often the handler has run on a transaction, without status errors and
    with honest reads: if the engine has found it complete, the words written are its frame, in
    which addresses with bit 8 clear leave one stop request, and the buffer holds the bytes
    received.  On a fair controller it does find it complete. -/
theorem framing (b : Board) (t : Transaction) (herror : ∀ h, hasError (b.status h) = false)
    (hread : HonestReads b t) (s : World) :
    (∀ n, Completes (· = s.fresh t.array) (handlers b n) (fun _ s' => Event.done ∈ s'.log →
      Framed t s.mem s' ∧ (t.KeepsStopClear → StopsOnce (words s'.log)))) ∧
    (Fair b t s → ∃ n, Event.done ∈ (t.after b s n).log) := by
  refine ⟨fun n => ?_, reaches_done herror hread⟩
  have hrule : EngineRule b (Engaged t s.mem) _ := engaged_rule herror hread
  apply (handlers_completes hrule.isr n).mono
  · intro s' hs
    rw [hs]
    exact engaged_fresh t s
  · intro _ s' hs hdone
    have hframed := hs.framed hdone
    refine ⟨hframed, fun hclear => ?_⟩
    rw [hframed.words]
    exact frame_stopsOnce hclear

/-- A read of a register of one byte: its number is written, and its value read. -/
def registerRead : Transaction where
  base := 0x1000
  writes := [⟨0x26#16, 0#16, 1, 0x2000⟩]
  read := some ⟨0x26#16, 1#16, 1, 0x3000⟩
  areWrites := by decide
  isRead := by decide
  nonempty := by decide

/-- The address word of the read has been written. -/
def readAddressed (t : Transaction) (h : History) : Bool :=
  h.any fun e => match e with
    | .address p _ => decide (p = t.readPtr)
    | _            => false

/-- A controller that always takes words, and delivers two bytes once the read is addressed. -/
def promptBoard : Board where
  status h :=
    if readAddressed registerRead h = true ∧ (received h).length < 2 then statusRdBufferFull
    else 0#32
  data h := if (received h).length = 0 then 0x5a#8 else 0xff#8
  pin _ _ := true
  irqs _ _ := 0

theorem promptBoard_noError (h : History) : hasError (promptBoard.status h) = false := by
  unfold promptBoard
  simp only
  split
  · decide
  · decide

theorem readAddressed_iff {h : History} :
    readAddressed t h = true ↔ ∃ w, Event.address t.readPtr w ∈ h := by
  unfold readAddressed
  rw [List.any_eq_true]
  constructor
  · rintro ⟨e, he, hp⟩
    cases e with
    | address p w =>
      obtain rfl : p = t.readPtr := of_decide_eq_true hp
      exact ⟨w, he⟩
    | _ => exact absurd hp Bool.false_ne_true
  · rintro ⟨w, he⟩
    exact ⟨_, he, decide_eq_true rfl⟩

theorem promptBoard_honest : HonestReads promptBoard registerRead := by
  intro h hv
  by_cases hheld : readAddressed registerRead h = true ∧ (received h).length < 2
  · refine ⟨_, rfl, readAddressed_iff.mp hheld.1, ?_⟩
    show (received h).length < 1 ∨ 1 = 1 ∧ (received h).length = 1
    have := hheld.2
    omega
  · have hzero : promptBoard.status h = 0#32 := if_neg hheld
    rw [hzero] at hv
    exact absurd hv (by decide)

theorem promptBoard_fair (s : World) : Fair promptBoard registerRead s := by
  intro n
  refine ⟨n, Nat.le_refl n, ?_⟩
  generalize (registerRead.after promptBoard s n).log = h
  have hwaits : ((∃ w, Event.address registerRead.readPtr w ∈ h) ∧
        (received h).length < registerRead.arrivals) ↔
      (readAddressed registerRead h = true ∧ (received h).length < 2) := by
    rw [readAddressed_iff]
    rfl
  unfold Helpful
  by_cases hheld : readAddressed registerRead h = true ∧ (received h).length < 2
  · have hfull : promptBoard.status h = statusRdBufferFull := if_pos hheld
    rw [if_pos (hwaits.mpr hheld), hfull]
    rfl
  · have hzero : promptBoard.status h = 0#32 := if_neg hheld
    rw [if_neg (hwaits.not.mpr hheld), hzero]
    rfl

/-- A bus before a transfer. -/
def World.idle : World := ⟨⟨none, 0, 0, 0, 0, false, 0⟩, 0, fun _ => 0x11#8, []⟩

/-- The handler completes the read of the register. -/
theorem registerRead_framed : ∃ n s, handlers promptBoard n (World.idle.fresh registerRead.array)
        = (some (), s) ∧
    Event.done ∈ s.log ∧ Framed registerRead World.idle.mem s ∧ StopsOnce (words s.log) := by
  obtain ⟨hframed, hends⟩ := framing promptBoard registerRead promptBoard_noError
    promptBoard_honest World.idle
  obtain ⟨n, hdone⟩ := hends (promptBoard_fair World.idle)
  obtain ⟨_, s, hrun, hframed⟩ := hframed n _ rfl
  have hafter : registerRead.after promptBoard World.idle n = s := congrArg Prod.snd hrun
  rw [hafter] at hdone
  have hclear : registerRead.KeepsStopClear := by
    unfold Transaction.KeepsStopClear
    decide
  exact ⟨n, s, hrun, hdone, (hframed hdone).1, (hframed hdone).2 hclear⟩

/-- A write of one byte to the address `0x100`, which shifted left by one has the flag of the
    stop. -/
def strayWrite : Transaction where
  base := 0x1000
  writes := [⟨0x100#16, 0#16, 1, 0x2000⟩]
  read := none
  areWrites := by decide
  isRead := by decide
  nonempty := by decide

/-- A controller that always takes words and delivers none. -/
def idleBoard : Board where
  status _ := 0#32
  data _ := 0#8
  pin _ _ := true
  irqs _ _ := 0

/-- **A stray stop.**  The controller shows no error, is honest and fair, and the engine finds the
    write to `0x100` complete with two words that request the stop. -/
theorem strayWrite_stopsTwice : ∃ s,
    (∀ h, hasError (idleBoard.status h) = false) ∧ HonestReads idleBoard strayWrite ∧
    Fair idleBoard strayWrite World.idle ∧
    handlers idleBoard 3 (World.idle.fresh strayWrite.array) = (some (), s) ∧
    Event.done ∈ s.log ∧ words s.log = [0x300#16, 0x211#16] ∧ ¬ StopsOnce (words s.log) := by
  have hfair : Fair idleBoard strayWrite World.idle := by
    intro n
    refine ⟨n, Nat.le_refl n, ?_⟩
    unfold Helpful
    rw [if_neg fun h => absurd h.2 (Nat.not_lt_zero _)]
    exact (by decide : wrFull 0#32 = false)
  have hhonest : HonestReads idleBoard strayWrite :=
    fun _ hv => absurd hv (by decide : ¬ rdFull 0#32 = true)
  refine ⟨(handlers idleBoard 3 (World.idle.fresh strayWrite.array)).2,
    fun _ => (by decide : hasError 0#32 = false), hhonest, hfair, ?_, by decide, by decide, ?_⟩
  · exact Prod.ext (by decide) rfl
  · rintro ⟨init, w, hsplit, _, hinit⟩
    have hwords : words (handlers idleBoard 3 (World.idle.fresh strayWrite.array)).2.log
        = [0x300#16] ++ [0x211#16] := by decide
    obtain ⟨rfl, _⟩ := List.append_inj' (hwords.symm.trans hsplit) rfl
    exact absurd (hinit 0x300#16 List.mem_cons_self) (by decide)

end HtcLeo.I2c

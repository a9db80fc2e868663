import HtcLeo.Clock.Pcom
import HtcLeo.Lib.Runs
import Mathlib.Tactic.SplitIfs

namespace HtcLeo.Clock

open Runs

/-!
# Replies that overwrite arguments

A reply is stored into the words the command was sent from: an entry of `ClocksLookup`, or the
variables of `pcom_vreg_control` that a retry sends again.

* `Right`, `Uncorrupted` — the commands issued carry what was asked for, and the table is as
  `FillClocksLookup` left it.
* `ReplyKeeps` — the replies to a call return the words later commands are sent from.
* `arguments_iff` — over every run of calls the first holds exactly when every call meets the
  second.
-/

variable {mem : Nat → U32}

/-! ### What is meant to hold -/

/-- The command carries what the call asks for: the id of the clock, or the regulator and, when
    the level is set, the level. -/
def Right (mem : Nat → U32) : Call × Command → Prop
  | (.clkEnable id, cmd) | (.clkDisable id, cmd) | (.clkSetRate id _, cmd)
  | (.clkGetRate id, cmd) =>
    id.toNat < nrClks ∧ cmd.data1 = fillClocksLookup mem id.toNat
  | (.vregControl vreg level _, cmd) =>
    cmd.data1 = vreg ∧ (cmd.cmd = .vregSetLevel → cmd.data2 = level)

/-- Every command issued so far is right, and the table is as initialised. -/
structure Uncorrupted (mem : Nat → U32) (s : Pcom) : Prop where
  right : ∀ e ∈ s.issued, Right mem e
  table : ∀ i < nrClks, s.clocksLookup i = fillClocksLookup mem i

/-- The state after `FillClocksLookup`. -/
def start (mem : Nat → U32) (replies : List Reply) : Pcom :=
  ⟨fillClocksLookup mem, replies, 0, [], false⟩

/-! ### The condition -/

/-- A reply that is no success, so that the command is issued again. -/
def Reply.again (r : Reply) : Bool := r.status ≠ pcomCmdSuccess

/-- The clock command a call issues: its clock, the command and the second data word. -/
def clockCommand (s : Pcom) : Call → Option (U32 × PcomCmd × U32)
  | .clkEnable id =>
    if s.clocksLookup id.toNat ≠ -1 then some (id, .clkRegimeSecEnable, 0) else none
  | .clkDisable id =>
    if s.clocksLookup id.toNat ≠ -1 then some (id, .clkRegimeSecDisable, 0) else none
  | .clkGetRate id =>
    if s.clocksLookup id.toNat ≠ -1 then some (id, .clkRegimeSecMsmGetClkFreqKhz, 0) else none
  | .clkSetRate id freq =>
    (clockSpeed id.toNat freq.toNat).elim (fun speed => some (id, .clkRegimeSecSelSpeed, speed))
      fun _ => none
  | .vregControl .. => none

/-- What the replies to a call have to be.  To a clock command: the clock is in the table, and the
    reply is a failure or returns the clock's id.  To `PCOM_VREG_SET_LEVEL`: every reply up to the
    success is a failure or returns the regulator and the level, and the success returns the
    regulator.  To `PCOM_VREG_SWITCH`: every reply up to the success is a failure or returns the
    regulator. -/
def ReplyKeeps (mem : Nat → U32) (s : Pcom) (c : Call) : Prop :=
  s.waiting = false →
  match c with
  | .vregControl vreg level state =>
    let switchKeeps (replies : List Reply) : Prop :=
      ∀ r ∈ replies.takeWhile Reply.again, r.status = pcomCmdFail ∨ r.data1 = vreg
    if state ≠ 0 then
      (∀ r ∈ s.replies.takeWhile Reply.again,
        r.status = pcomCmdFail ∨ r.data1 = vreg ∧ r.data2 = level) ∧
      ∀ success after, s.replies.dropWhile Reply.again = success :: after →
        success.data1 = vreg ∧ switchKeeps after
    else switchKeeps s.replies
  | c =>
    ∀ id cmd data2, clockCommand s c = some (id, cmd, data2) → id.toNat < nrClks ∧
      ∀ r replies, s.replies = r :: replies →
        r.status = pcomCmdFail ∨ r.data1 = fillClocksLookup mem id.toNat

/-! ### Clock calls -/

/-- The clock of a call. -/
def Call.clock : Call → Option U32
  | .clkEnable id | .clkDisable id | .clkSetRate id _ | .clkGetRate id => some id
  | .vregControl .. => none

/-- A clock call issues its command, or does nothing. -/
theorem runCall_clock (c : Call) {id : U32} (hc : c.clock = some id) (s : Pcom) :
    (runCall c s).2 = match clockCommand s c with
      | some (id, cmd, data2) => (lookupComm c cmd id data2 s).2
      | none => s := by
  cases c with
  | clkEnable id =>
    rw [runCall, Prog.bind_snd fun _ _ => rfl, clkEnable, clockCommand]
    split_ifs
    · exact Prog.bind_snd (fun _ _ => rfl) s
    · rfl
  | clkDisable id =>
    rw [runCall, clkDisable, clockCommand]
    split_ifs
    · exact Prog.bind_snd (fun _ _ => rfl) s
    · rfl
  | clkSetRate id freq =>
    have hret : ∀ (a : U32) (s : Pcom),
        ((if a ≠ -1 then pure a else pure (-1) : Prog Pcom U32) s).2 = s := by
      intro a s
      split_ifs <;> rfl
    rw [runCall, Prog.bind_snd fun _ _ => rfl, clkSetRate, Prog.bind_snd hret,
      cotullaClkSetRate, clockCommand]
    cases clockSpeed id.toNat freq.toNat with
    | inl speed => exact Prog.bind_snd (fun _ _ => rfl) s
    | inr ret => rfl
  | clkGetRate id =>
    rw [runCall, Prog.bind_snd fun _ _ => rfl, clkGetRate, clockCommand]
    split_ifs <;> rfl
  | vregControl vreg level state => simp [Call.clock] at hc

/-- A clock command, without a reply. -/
theorem lookupComm_waits (c : Call) (cmd : PcomCmd) (id data2 : U32) {s : Pcom}
    (h : s.replies = []) : (lookupComm c cmd id data2 s).2 = { s with
      issued := s.issued ++ [(c, ⟨cmd, s.clocksLookup id.toNat, data2⟩)]
      waiting := true } := by
  simp [lookupComm, Prog.bind_apply, Prog.query, msmProcComm, h]

/-- A clock command, with a reply: it is stored into the table. -/
theorem lookupComm_replied (c : Call) (cmd : PcomCmd) (id data2 : U32) {s : Pcom} {r : Reply}
    {replies : List Reply} (h : s.replies = r :: replies) :
    (lookupComm c cmd id data2 s).2 =
      { clocksLookup := Function.update s.clocksLookup id.toNat
          (r.words (s.clocksLookup id.toNat) data2).1
        replies := replies
        appStatus := r.status
        issued := s.issued ++ [(c, ⟨cmd, s.clocksLookup id.toNat, data2⟩)]
        waiting := s.waiting } := by
  simp [-bind_pure_comp, lookupComm, Prog.bind_apply, Prog.pure_apply, Prog.query, Prog.modify,
    msmProcComm, h]

/-- The first word after a reply is the one before exactly if the reply is a failure or returns
    it. -/
theorem words_eq_iff (r : Reply) (data1 data2 : U32) :
    (r.words data1 data2).1 = data1 ↔ r.status = pcomCmdFail ∨ r.data1 = data1 := by
  unfold Reply.words
  split_ifs with hfail <;> simp [hfail]

/-- Commands added to the log. -/
theorem right_append (issued new : List (Call × Command)) :
    (∀ e ∈ issued ++ new, Right mem e) ↔
      (∀ e ∈ issued, Right mem e) ∧ ∀ e ∈ new, Right mem e := by
  simp only [List.mem_append, or_imp, forall_and]

variable (mem) in
/-- What is right for a clock call. -/
theorem right_clock {c : Call} {id : U32} (hc : c.clock = some id) (cmd : Command) :
    Right mem (c, cmd) ↔ id.toNat < nrClks ∧ cmd.data1 = fillClocksLookup mem id.toNat := by
  cases c with
  | vregControl vreg level state => simp [Call.clock] at hc
  | _ =>
    obtain rfl := Option.some.inj hc
    exact Iff.rfl

/-- A clock command is for the clock of its call. -/
theorem clockCommand_clock {s : Pcom} {c : Call} {id : U32} {cmd : PcomCmd} {data2 : U32}
    (h : clockCommand s c = some (id, cmd, data2)) : c.clock = some id := by
  cases c with
  | vregControl vreg level state => simp [clockCommand] at h
  | clkSetRate id' freq =>
    rw [clockCommand] at h
    cases hspeed : clockSpeed id'.toNat freq.toNat with
    | inl speed =>
      rw [hspeed] at h
      simp at h
      simp [Call.clock, h.1]
    | inr ret =>
      rw [hspeed] at h
      simp at h
  | _ =>
    rw [clockCommand] at h
    split_ifs at h
    simp at h
    simp [Call.clock, h.1]

/-- The condition on a clock call. -/
theorem replyKeeps_clock {s : Pcom} {c : Call} {id : U32} (hc : c.clock = some id)
    (hwaiting : s.waiting = false) :
    ReplyKeeps mem s c ↔ ∀ id cmd data2, clockCommand s c = some (id, cmd, data2) →
      id.toNat < nrClks ∧ ∀ r replies, s.replies = r :: replies →
        r.status = pcomCmdFail ∨ r.data1 = fillClocksLookup mem id.toNat := by
  cases c with
  | vregControl vreg level state => simp [Call.clock] at hc
  | _ => simp only [ReplyKeeps, hwaiting, forall_const]

/-- A clock command keeps the arguments uncorrupted exactly when the clock is in the table and the
    reply returns its id. -/
theorem lookupComm_iff {s : Pcom} (h : Uncorrupted mem s) {c : Call} {id : U32}
    (hc : c.clock = some id) (cmd : PcomCmd) (data2 : U32) :
    Uncorrupted mem (lookupComm c cmd id data2 s).2 ↔ id.toNat < nrClks ∧
      ∀ r replies, s.replies = r :: replies →
        r.status = pcomCmdFail ∨ r.data1 = fillClocksLookup mem id.toNat := by
  have hissued : (lookupComm c cmd id data2 s).2.issued
      = s.issued ++ [(c, ⟨cmd, s.clocksLookup id.toNat, data2⟩)] := by
    cases hreplies : s.replies with
    | nil => rw [lookupComm_waits c cmd id data2 hreplies]
    | cons r replies => rw [lookupComm_replied c cmd id data2 hreplies]
  have hright : (∀ e ∈ (lookupComm c cmd id data2 s).2.issued, Right mem e) ↔
      id.toNat < nrClks := by
    rw [hissued, right_append]
    simp only [List.mem_singleton, forall_eq, right_clock mem hc]
    exact ⟨fun hall => hall.2.1, fun hlt => ⟨h.right, hlt, h.table _ hlt⟩⟩
  constructor
  · intro hboth
    obtain ⟨hall, htable⟩ := hboth
    have hlt := hright.mp hall
    refine ⟨hlt, fun r replies hreplies => ?_⟩
    have hid := htable id.toNat hlt
    rw [lookupComm_replied c cmd id data2 hreplies] at hid
    dsimp only at hid
    rw [Function.update_self, ← h.table _ hlt, words_eq_iff, h.table _ hlt] at hid
    exact hid
  · intro hboth
    obtain ⟨hlt, hreply⟩ := hboth
    refine ⟨hright.mpr hlt, fun i hi => ?_⟩
    cases hreplies : s.replies with
    | nil =>
      rw [lookupComm_waits c cmd id data2 hreplies]
      exact h.table i hi
    | cons r replies =>
      rw [lookupComm_replied c cmd id data2 hreplies]
      have hword := hreply r replies hreplies
      rw [← h.table _ hlt, ← words_eq_iff r _ data2] at hword
      dsimp only
      rw [hword, Function.update_eq_self]
      exact h.table i hi

/-- **Clock lemma.**  A clock call keeps the arguments uncorrupted exactly when its replies are as
    they have to be. -/
theorem clock_iff {s : Pcom} (h : Uncorrupted mem s) {c : Call} {id : U32}
    (hc : c.clock = some id) (hwaiting : s.waiting = false) :
    Uncorrupted mem (exec s c) ↔ ReplyKeeps mem s c := by
  rw [replyKeeps_clock hc hwaiting, exec, if_neg (by simp [hwaiting]), runCall_clock c hc]
  cases hcommand : clockCommand s c with
  | none => simp [h]
  | some command =>
    obtain ⟨id', cmd, data2⟩ := command
    dsimp only
    rw [lookupComm_iff h (clockCommand_clock hcommand)]
    constructor
    · intro hkeeps id'' cmd' data2' heq
      obtain ⟨rfl, rfl, rfl⟩ : id' = id'' ∧ cmd = cmd' ∧ data2 = data2' := by
        simpa using heq
      exact hkeeps
    · exact fun hkeeps => hkeeps id' cmd data2 rfl

/-! ### Regulator calls -/

/-- The words of a retry stay good exactly when the replies up to the success return good ones. -/
theorem retryWords_iff (good : U32 × U32 → Prop) {w : U32 × U32} (hw : good w)
    (replies : List Reply) :
    (∀ w' ∈ retryWords w replies, good w') ↔
      ∀ r ∈ replies.takeWhile Reply.again, r.status = pcomCmdFail ∨ good (r.data1, r.data2) := by
  induction replies generalizing w with
  | nil => simp [retryWords, hw]
  | cons r replies ih =>
    by_cases hsuccess : r.status = pcomCmdSuccess
    · have hagain : Reply.again r = false := by
        simp [Reply.again, hsuccess]
      simp [retryWords, hsuccess, hagain, hw]
    · have hagain : Reply.again r = true := by
        simp [Reply.again, hsuccess]
      rw [retryWords, if_neg hsuccess, List.takeWhile_cons, if_pos hagain]
      simp only [List.mem_cons, forall_eq_or_imp]
      by_cases hfail : r.status = pcomCmdFail
      · have hwords : r.words w.1 w.2 = w := by
          simp [Reply.words, hfail]
        rw [hwords, ih hw]
        simp [hw, hfail]
      · have hwords : r.words w.1 w.2 = (r.data1, r.data2) := by
          simp [Reply.words, hfail]
        rw [hwords]
        by_cases hgood : good (r.data1, r.data2)
        · rw [ih hgood]
          simp [hw, hgood]
        · -- the next command is issued with these words
          have hnext : (r.data1, r.data2) ∈ retryWords (r.data1, r.data2) replies := by
            cases replies <;> simp [retryWords]
          simp only [hfail, hgood, or_self, false_and, iff_false]
          intro hall
          exact hgood (hall.2 _ hnext)

/-- What a retry ends with, if its words stay as they were. -/
theorem retryResult_eq {w : U32 × U32} {replies : List Reply}
    (h : ∀ r ∈ replies.takeWhile Reply.again,
      r.status = pcomCmdFail ∨ r.data1 = w.1 ∧ r.data2 = w.2) :
    retryResult w replies = match replies.dropWhile Reply.again with
      | [] => none
      | success :: after => some ((success.data1, success.data2), after) := by
  induction replies with
  | nil => rfl
  | cons r replies ih =>
    by_cases hsuccess : r.status = pcomCmdSuccess
    · have hagain : Reply.again r = false := by
        simp [Reply.again, hsuccess]
      have hne : pcomCmdSuccess ≠ pcomCmdFail := by decide
      simp [retryResult, hsuccess, hagain, Reply.words, hne]
    · have hagain : Reply.again r = true := by
        simp [Reply.again, hsuccess]
      rw [List.takeWhile_cons, if_pos hagain] at h
      simp only [List.mem_cons, forall_eq_or_imp] at h
      have hwords : r.words w.1 w.2 = w := by
        unfold Reply.words
        split_ifs with hfail
        · rfl
        · obtain ⟨h1, h2⟩ := h.1.resolve_left hfail
          rw [h1, h2]
      rw [retryResult, if_neg hsuccess, hwords, List.dropWhile_cons, if_pos hagain]
      exact ih h.2

/-- The commands of a retry that are right. -/
theorem right_map (vreg level state : U32) (cmd : PcomCmd) (words : List (U32 × U32)) :
    (∀ e ∈ words.map (fun w => (Call.vregControl vreg level state, Command.mk cmd w.1 w.2)),
      Right mem e) ↔ ∀ w ∈ words, w.1 = vreg ∧ (cmd = .vregSetLevel → w.2 = level) := by
  simp only [List.mem_map, forall_exists_index, and_imp, forall_apply_eq_imp_iff₂, Right]

/-- What `pcom_vreg_control` issues, switching off. -/
theorem vregOff_spec (vreg level : U32) (s : Pcom) :
    let c := Call.vregControl vreg level 0
    (runCall c s).2.clocksLookup = s.clocksLookup ∧
    (runCall c s).2.issued = s.issued ++ (retryWords (vreg, 0) s.replies).map
      (fun w => (c, Command.mk .vregSwitch w.1 w.2)) := by
  intro c
  obtain ⟨_, htable, hissued, _⟩ := retry_spec c .vregSwitch (vreg, 0) s
  have hrun : runCall c s = ((do
      let _ ← retry c .vregSwitch (vreg, 0)
      return ()) : Prog Pcom Unit) s := rfl
  rw [hrun, Prog.bind_snd fun _ _ => rfl]
  exact ⟨htable, hissued⟩

/-- What `pcom_vreg_control` issues, switching on. -/
theorem vregOn_spec (vreg level : U32) {state : U32} (hstate : state ≠ 0) (s : Pcom) :
    let c := Call.vregControl vreg level state
    (runCall c s).2.clocksLookup = s.clocksLookup ∧
    (runCall c s).2.issued = s.issued
      ++ (retryWords (vreg, level) s.replies).map (fun w => (c, Command.mk .vregSetLevel w.1 w.2))
      ++ match retryResult (vreg, level) s.replies with
        | none => []
        | some (w, after) =>
          (retryWords (w.1, 1) after).map fun w => (c, Command.mk .vregSwitch w.1 w.2) := by
  intro c
  obtain ⟨hresult, htable, hissued, hreplies⟩ := retry_spec c .vregSetLevel (vreg, level) s
  have hrun : runCall c s = ((retry c .vregSetLevel (vreg, level) >>= fun words => do
      let _ ← retry c .vregSwitch (words.1, 1)
      return ()) : Prog Pcom Unit) s := by
    simp only [runCall, pcomVregControl, if_pos hstate, c]
  rw [hrun, Prog.bind_apply]
  obtain ⟨result, s', hretry⟩ : ∃ result s', retry c .vregSetLevel (vreg, level) s = (result, s') :=
    ⟨_, _, rfl⟩
  rw [hretry] at hresult htable hissued hreplies ⊢
  dsimp only at hresult htable hissued hreplies ⊢
  cases hfirst : retryResult (vreg, level) s.replies with
  | none =>
    -- the modem does not answer any more
    obtain rfl : result = none := by simpa [hfirst] using hresult
    simp [htable, hissued]
  | some words =>
    obtain ⟨w, after⟩ := words
    obtain rfl : result = some w := by simpa [hfirst] using hresult
    obtain rfl : s'.replies = after := by simpa [hfirst] using hreplies
    obtain ⟨_, htable', hissued', _⟩ := retry_spec c .vregSwitch (w.1, 1) s'
    dsimp only
    rw [Prog.bind_snd fun _ _ => rfl, htable', hissued', htable, hissued]
    exact ⟨rfl, rfl⟩

/-- **Regulator lemma.**  `pcom_vreg_control` keeps the arguments uncorrupted exactly when its
    replies are as they have to be. -/
theorem vreg_iff {s : Pcom} (h : Uncorrupted mem s) (vreg level state : U32)
    (hwaiting : s.waiting = false) :
    Uncorrupted mem (exec s (.vregControl vreg level state)) ↔
      ReplyKeeps mem s (.vregControl vreg level state) := by
  have hswitch : ∀ (w2 : U32) (replies : List Reply),
      (∀ w ∈ retryWords (vreg, w2) replies,
        w.1 = vreg ∧ (PcomCmd.vregSwitch = .vregSetLevel → w.2 = level)) ↔
      ∀ r ∈ replies.takeWhile Reply.again, r.status = pcomCmdFail ∨ r.data1 = vreg := by
    intro w2 replies
    exact retryWords_iff _ ⟨rfl, nofun⟩ replies |>.trans (by simp)
  have hset : (∀ w ∈ retryWords (vreg, level) s.replies,
      w.1 = vreg ∧ (PcomCmd.vregSetLevel = .vregSetLevel → w.2 = level)) ↔
      ∀ r ∈ s.replies.takeWhile Reply.again,
        r.status = pcomCmdFail ∨ r.data1 = vreg ∧ r.data2 = level :=
    retryWords_iff _ ⟨rfl, fun _ => rfl⟩ s.replies |>.trans (by simp)
  rw [exec, if_neg (by simp [hwaiting])]
  by_cases hstate : state = 0
  · subst hstate
    obtain ⟨htable, hissued⟩ := vregOff_spec vreg level s
    simp only [ReplyKeeps, hwaiting, forall_const]
    rw [if_neg (by simp), ← hswitch 0]
    constructor
    · intro hboth
      obtain ⟨hall, _⟩ := hboth
      rw [hissued, right_append, right_map] at hall
      exact hall.2
    · intro hall
      constructor
      · rw [hissued, right_append, right_map]
        exact ⟨h.right, hall⟩
      · rw [htable]
        exact h.table
  · obtain ⟨htable, hissued⟩ := vregOn_spec vreg level hstate s
    simp only [ReplyKeeps, hwaiting, forall_const]
    rw [if_pos hstate]
    have hright : Uncorrupted mem (runCall (.vregControl vreg level state) s).2 ↔
        ∀ e ∈ (runCall (.vregControl vreg level state) s).2.issued, Right mem e :=
      ⟨fun hafter => hafter.right, fun hall => ⟨hall, by rw [htable]; exact h.table⟩⟩
    rw [hright, hissued, right_append, right_append, right_map, hset, and_assoc,
      and_iff_right h.right]
    refine and_congr_right fun hkeeps => ?_
    -- the retry has ended with the words of the success
    rw [retryResult_eq hkeeps]
    cases s.replies.dropWhile Reply.again with
    | nil => simp
    | cons success after =>
      dsimp only
      rw [right_map]
      constructor
      · intro hall success' after' heq
        obtain ⟨rfl, rfl⟩ : success = success' ∧ after = after' := by simpa using heq
        have hreg : success.data1 = vreg := by
          refine (hall (success.data1, 1) ?_).1
          cases after <;> simp [retryWords]
        rw [hreg] at hall
        exact ⟨hreg, (hswitch 1 after).mp hall⟩
      · intro hafter
        obtain ⟨hreg, hrest⟩ := hafter success after rfl
        rw [hreg]
        exact (hswitch 1 after).mpr hrest

/-! ### Runs -/

/-- **Step lemma.** -/
theorem exec_iff {s : Pcom} (h : Uncorrupted mem s) (c : Call) :
    Uncorrupted mem (exec s c) ↔ ReplyKeeps mem s c := by
  cases hwaiting : s.waiting with
  | true => simp [exec, hwaiting, h, ReplyKeeps]
  | false =>
    cases c with
    | vregControl vreg level state => exact vreg_iff h vreg level state hwaiting
    | _ => exact clock_iff h rfl hwaiting

/-- **Arguments and replies.**  Over every sequence of calls and every sequence of replies, each
    command carries what its call asks for and the table stays as initialised exactly when every
    call is answered by replies that return the words they overwrite. -/
theorem arguments_iff (mem : Nat → U32) (replies : List Reply) (calls : List Call) :
    Always exec (Uncorrupted mem) (start mem replies) calls ↔
      EveryStep exec (ReplyKeeps mem) (start mem replies) calls := by
  have hstart : Uncorrupted mem (start mem replies) :=
    ⟨fun e he => absurd he List.not_mem_nil, fun _ _ => rfl⟩
  rw [always_iff_everyStep (I := fun _ => True) (fun _ _ _ => trivial)
    (fun s c _ h => exec_iff h c) trivial]
  exact and_iff_right hstart

/-- The modem reports success, and returns 0 for the id of the clock. -/
theorem reply_overwrites_clock :
    ¬ Always exec (Uncorrupted fun _ => 0) (start (fun _ => 0) [⟨pcomCmdSuccess, 0, 0⟩])
      [.clkEnable 19, .clkEnable 19] := by
  intro h
  have hright := h.2.2.right (.clkEnable 19, ⟨.clkRegimeSecEnable, 0, 0⟩) (by decide +kernel)
  exact absurd hright.2 (by decide +kernel)

end HtcLeo.Clock

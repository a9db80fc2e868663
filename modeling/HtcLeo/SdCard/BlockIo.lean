import HtcLeo.SdCard.Csd
import HtcLeo.SdCard.Mci

namespace HtcLeo.SdCard

open Prog

/-!
# SdCardDxe — the chunk loop and BlockIo

`mmc_bread` and `mmc_bwrite` of `GPLDrivers/SdCardDxe/mmc.c` and the BlockIo entry points
`MMCHSReadBlocks` and `MMCHSWriteBlocks` of `SdCardDxe.c`, over any single-block transfers.

* `Transfers` — the four transfer functions the chunk loop calls.
* `mmcBread_eq`, `mmcBwrite_eq` — with chunks of one block, the loop is `transferAll`: single
  transfers of consecutive blocks until one fails.
* `chunkLoop_issues` — the calls it issues, and its count, whichever of them fail.
* `recorded` — transfers that also record their outcomes; `transferAll_record` says which those
  are.
-/

/-- The transfer functions of `mmc.c`: block number, for the data mover the number of blocks,
    and the buffer. -/
structure Transfers (σ : Type) where
  readABlock : U32 → Nat → Prog σ Bool
  readABlockDm : U32 → U32 → Nat → Prog σ Bool
  writeABlock : U32 → Nat → Prog σ Bool
  writeABlockDm : U32 → U32 → Nat → Prog σ Bool

variable {σ : Type}

/-- `NUM_BLOCKS_MULT`, with `USE_DM` not defined. -/
def numBlocksMult : U32 := 1#32

/-- The variables of the chunk loop. -/
structure Chunk where
  blknr : U32
  blkcnt : U32
  runBlkcnt : U32
  buffer : Nat

/-- The variables after a chunk of `i` blocks. -/
def Chunk.next (c : Chunk) (i : U32) : Chunk where
  blknr := c.blknr + i
  blkcnt := c.blkcnt - i
  runBlkcnt := c.runBlkcnt + i
  buffer := c.buffer + blockSize * i.toNat

/-- The loop of `mmc_bread` and `mmc_bwrite`, over their two transfer functions. -/
def chunkLoop (single : U32 → Nat → Prog σ Bool) (dm : U32 → U32 → Nat → Prog σ Bool)
    (fuel : Nat) : Chunk → Prog σ U32 :=
  loop (fun c => do
    if c.blkcnt = 0#32 then return .inr c.runBlkcnt
    else
      let i := if numBlocksMult ≤ c.blkcnt then numBlocksMult else c.blkcnt
      let ok ← if i = 1#32 then single c.blknr c.buffer else dm c.blknr i c.buffer
      -- a failure ends the loop with the number of blocks before it
      if !ok then return .inr c.runBlkcnt
      else return .inl (c.next i)) fuel

/-- `mmc_bread`; every iteration takes a block off the count, which bounds them. -/
def mmcBread (t : Transfers σ) (blknr blkcnt : U32) (dst : Nat) : Prog σ U32 :=
  if blkcnt = 0#32 then pure 0#32
  else chunkLoop t.readABlock t.readABlockDm (blkcnt.toNat + 1) ⟨blknr, blkcnt, 0#32, dst⟩

/-- `mmc_bwrite`. -/
def mmcBwrite (t : Transfers σ) (blknr blkcnt : U32) (buffer : Nat) : Prog σ U32 :=
  if blkcnt = 0#32 then pure 0#32
  else chunkLoop t.writeABlock t.writeABlockDm (blkcnt.toNat + 1) ⟨blknr, blkcnt, 0#32, buffer⟩

/-- The shared body of `MMCHSReadBlocks` and `MMCHSWriteBlocks`, over the device function they
    call; a `none` buffer is `NULL`. -/
def mmchsTransfer (device : U32 → U32 → Nat → Prog σ U32) (media : Media) (lba : BitVec 64)
    (bufferSize : U32) (buffer : Option Nat) : Prog σ EfiStatus :=
  if bufferSize % media.blockSize ≠ 0#32 then pure .badBufferSize
  else match buffer with
    | none => pure .invalidParameter
    | some buffer =>
        if bufferSize = 0#32 then pure .success
        else do
          -- `Lba` is cast to 32 bits, and not compared with `LastBlock`
          let ret ← device (lba.setWidth 32) (bufferSize / media.blockSize) buffer
          return if ret ≠ 0#32 then .success else .deviceError

/-- `MMCHSReadBlocks`. -/
def mmchsReadBlocks (t : Transfers σ) : Media → BitVec 64 → U32 → Option Nat → Prog σ EfiStatus :=
  mmchsTransfer (mmcBread t)

/-- `MMCHSWriteBlocks`. -/
def mmchsWriteBlocks (t : Transfers σ) : Media → BitVec 64 → U32 → Option Nat → Prog σ EfiStatus :=
  mmchsTransfer (mmcBwrite t)

/-! ### Chunks of one block -/

/-- Single transfers of `n` consecutive blocks until one fails; `run` counts them. -/
def transferAll (single : U32 → Nat → Prog σ Bool) : Nat → U32 → Nat → U32 → Prog σ U32
  | 0, _, _, run => pure run
  | n + 1, blknr, buffer, run => do
      let ok ← single blknr buffer
      if ok then transferAll single n (blknr + 1#32) (buffer + blockSize) (run + 1#32)
      else return run

/-! ### Consecutive blocks -/

theorem block_succ (block : U32) (j : Nat) :
    block + BitVec.ofNat 32 (j + 1) = block + 1#32 + BitVec.ofNat 32 j := by
  rw [Nat.add_comm j 1, BitVec.ofNat_add, BitVec.add_assoc]

theorem buffer_succ (buffer j : Nat) :
    buffer + blockSize * (j + 1) = buffer + blockSize + blockSize * j := by
  rw [Nat.mul_succ]
  omega

theorem chunkLoop_eq (single : U32 → Nat → Prog σ Bool) (dm : U32 → U32 → Nat → Prog σ Bool)
    {n fuel : Nat} (hfuel : n < fuel) (c : Chunk) (hn : c.blkcnt.toNat = n) :
    chunkLoop single dm fuel c = transferAll single n c.blknr c.buffer c.runBlkcnt := by
  -- by induction on the blocks left; the fuel stays above their number
  induction n generalizing fuel c with
  | zero =>
    obtain ⟨fuel, rfl⟩ : ∃ k, fuel = k + 1 := ⟨fuel - 1, by omega⟩
    have hzero : c.blkcnt = 0#32 := BitVec.eq_of_toNat_eq hn
    funext s
    simp only [chunkLoop, loop, hzero, if_true]
    rfl
  | succ n ih =>
    obtain ⟨fuel, rfl⟩ : ∃ k, fuel = k + 1 := ⟨fuel - 1, by omega⟩
    have hne : c.blkcnt ≠ 0#32 := by
      intro h
      rw [h] at hn
      simp at hn
    have hone : numBlocksMult ≤ c.blkcnt := by
      rw [BitVec.le_def, hn]
      show 1 ≤ n + 1
      omega
    have hcnt : (c.next 1#32).blkcnt.toNat = n := by
      show (c.blkcnt - 1#32).toNat = n
      rw [BitVec.toNat_sub, hn]
      have hlt := c.blkcnt.isLt
      simp only [BitVec.toNat_ofNat]
      omega
    have hbody : chunkLoop single dm (fuel + 1) c = single c.blknr c.buffer >>= fun ok =>
        if ok then chunkLoop single dm fuel (c.next 1#32) else pure c.runBlkcnt := by
      simp only [chunkLoop, loop, if_neg hne, if_pos hone]
      simp only [numBlocksMult, if_true, bind_assoc]
      congr 1
      funext ok
      cases ok <;> rfl
    rw [hbody, ih (by omega) (c.next 1#32) hcnt]
    rfl

/-- **The chunk loop of `mmc_bread`** reads block after block until one read fails. -/
theorem mmcBread_eq (t : Transfers σ) (blknr blkcnt : U32) (dst : Nat) :
    mmcBread t blknr blkcnt dst = transferAll t.readABlock blkcnt.toNat blknr dst 0#32 := by
  by_cases hzero : blkcnt = 0#32
  · subst hzero
    rfl
  · rw [mmcBread, if_neg hzero]
    exact chunkLoop_eq _ _ (Nat.lt_succ_self _) ⟨blknr, blkcnt, 0#32, dst⟩ rfl

/-- **The chunk loop of `mmc_bwrite`** writes block after block until one write fails. -/
theorem mmcBwrite_eq (t : Transfers σ) (blknr blkcnt : U32) (buffer : Nat) :
    mmcBwrite t blknr blkcnt buffer
      = transferAll t.writeABlock blkcnt.toNat blknr buffer 0#32 := by
  by_cases hzero : blkcnt = 0#32
  · subst hzero
    rfl
  · rw [mmcBwrite, if_neg hzero]
    exact chunkLoop_eq _ _ (Nat.lt_succ_self _) ⟨blknr, blkcnt, 0#32, buffer⟩ rfl

/-! ### The transfers that are issued -/

/-- A call of a transfer function, with its arguments. -/
inductive Call
  | readABlock (block : U32) (buffer : Nat)
  | readABlockDm (block n : U32) (buffer : Nat)
  | writeABlock (block : U32) (buffer : Nat)
  | writeABlockDm (block n : U32) (buffer : Nat)
  deriving DecidableEq, Repr

/-- A call that is added to those before it.  `ok` says which calls succeed, by all that has been
    issued. -/
def issue (ok : List Call → Call → Bool) (call : Call) : Prog (List Call) Bool :=
  query fun log => (ok log call, log ++ [call])

theorem issue_apply (ok : List Call → Call → Bool) (call : Call) (log : List Call) :
    issue ok call log = (some (ok log call), log ++ [call]) := rfl

/-- Transfer functions that issue their calls. -/
def Transfers.issuing (ok : List Call → Call → Bool) : Transfers (List Call) where
  readABlock := fun block buffer => issue ok (.readABlock block buffer)
  readABlockDm := fun block n buffer => issue ok (.readABlockDm block n buffer)
  writeABlock := fun block buffer => issue ok (.writeABlock block buffer)
  writeABlockDm := fun block n buffer => issue ok (.writeABlockDm block n buffer)

/-- The calls for the first `m` of consecutive blocks, each with the buffer a block further. -/
def blockCalls (call : U32 → Nat → Call) (blknr : U32) (buffer m : Nat) : List Call :=
  (List.range m).map fun j => call (blknr + BitVec.ofNat 32 j) (buffer + blockSize * j)

/-- From the log on, exactly the calls for the first `k` of `n` blocks succeed before one fails. -/
structure FailsAt (ok : List Call → Call → Bool) (call : U32 → Nat → Call) (blknr : U32)
    (buffer : Nat) (log : List Call) (n k : Nat) : Prop where
  le : k ≤ n
  before : ∀ j < k, ok (log ++ blockCalls call blknr buffer j)
    (call (blknr + BitVec.ofNat 32 j) (buffer + blockSize * j)) = true
  fails : k < n → ok (log ++ blockCalls call blknr buffer k)
    (call (blknr + BitVec.ofNat 32 k) (buffer + blockSize * k)) = false

@[simp] theorem blockCalls_zero (call : U32 → Nat → Call) (blknr : U32) (buffer : Nat) :
    blockCalls call blknr buffer 0 = [] := rfl

/-- The first call, and those for the blocks after the first. -/
theorem blockCalls_succ (call : U32 → Nat → Call) (blknr : U32) (buffer m : Nat) :
    blockCalls call blknr buffer (m + 1)
      = call blknr buffer :: blockCalls call (blknr + 1#32) (buffer + blockSize) m := by
  unfold blockCalls
  rw [List.range_succ_eq_map, List.map_cons, List.map_map, BitVec.add_zero, Nat.mul_zero,
    Nat.add_zero]
  congr 1
  refine List.map_congr_left fun j _ => ?_
  rw [Function.comp_apply, Nat.succ_eq_add_one, block_succ, buffer_succ]

/-- A failure at once. -/
theorem FailsAt.first {ok : List Call → Call → Bool} {call : U32 → Nat → Call} {blknr : U32}
    {buffer : Nat} {log : List Call} (n : Nat) (h : ok log (call blknr buffer) = false) :
    FailsAt ok call blknr buffer log (n + 1) 0 where
  le := Nat.zero_le _
  before := fun j hj => absurd hj (Nat.not_lt_zero j)
  fails := fun _ => by
    rw [blockCalls_zero, List.append_nil, BitVec.add_zero, Nat.mul_zero, Nat.add_zero]
    exact h

/-- A success, and then as from the second block on. -/
theorem FailsAt.succ {ok : List Call → Call → Bool} {call : U32 → Nat → Call} {blknr : U32}
    {buffer : Nat} {log : List Call} {n k : Nat} (h : ok log (call blknr buffer) = true)
    (hrest : FailsAt ok call (blknr + 1#32) (buffer + blockSize) (log ++ [call blknr buffer]) n k) :
    FailsAt ok call blknr buffer log (n + 1) (k + 1) := by
  -- the call for block `j + 1` is issued after the first call and `j` others
  have hlog : ∀ j, log ++ blockCalls call blknr buffer (j + 1)
      = log ++ [call blknr buffer]
        ++ blockCalls call (blknr + 1#32) (buffer + blockSize) j := by
    intro j
    rw [blockCalls_succ, List.append_assoc, List.singleton_append]
  refine ⟨Nat.succ_le_succ hrest.le, fun j hj => ?_, fun hk => ?_⟩
  · cases j with
    | zero =>
      rw [blockCalls_zero, List.append_nil, BitVec.add_zero, Nat.mul_zero, Nat.add_zero]
      exact h
    | succ j =>
      rw [hlog, block_succ blknr j, buffer_succ]
      exact hrest.before j (Nat.lt_of_succ_lt_succ hj)
  · rw [hlog, block_succ blknr k, buffer_succ]
    exact hrest.fails (Nat.lt_of_succ_lt_succ hk)

/-- **Run lemma.**  The loop issues the calls up to the first that fails, that call included, and
    counts those before it. -/
theorem transferAll_issue (ok : List Call → Call → Bool) (call : U32 → Nat → Call) (n : Nat)
    (blknr : U32) (buffer : Nat) (run : U32) (log : List Call) :
    ∃ k, FailsAt ok call blknr buffer log n k ∧
      transferAll (fun b d => issue ok (call b d)) n blknr buffer run log
        = (some (run + BitVec.ofNat 32 k),
          log ++ blockCalls call blknr buffer (min n (k + 1))) := by
  -- by induction on the blocks left: the first call fails, or the rest goes on behind it
  induction n generalizing blknr buffer run log with
  | zero =>
    refine ⟨0, ⟨Nat.le_refl 0, fun j hj => absurd hj (Nat.not_lt_zero j),
      fun h => absurd h (Nat.lt_irrefl 0)⟩, ?_⟩
    rw [Nat.zero_min, blockCalls_zero, List.append_nil, BitVec.add_zero]
    rfl
  | succ n ih =>
    have hissue := issue_apply ok (call blknr buffer) log
    cases hok : ok log (call blknr buffer) with
    | false =>
      rw [hok] at hissue
      refine ⟨0, .first n hok, ?_⟩
      rw [Nat.min_eq_right (Nat.succ_le_succ (Nat.zero_le n)), blockCalls_succ, blockCalls_zero,
        BitVec.add_zero]
      exact bind_of hissue rfl
    | true =>
      rw [hok] at hissue
      obtain ⟨k, hk, hrun⟩ :=
        ih (blknr + 1#32) (buffer + blockSize) (run + 1#32) (log ++ [call blknr buffer])
      refine ⟨k + 1, .succ hok hk, ?_⟩
      rw [Nat.succ_min_succ, blockCalls_succ, block_succ run k, List.append_cons]
      exact bind_of hissue hrun

/-- **The chunk loop.**  `mmc_bread` and `mmc_bwrite` issue single transfers of consecutive blocks,
    each with the buffer a block further, stop with the first that fails, and return the number
    of blocks before it. -/
theorem chunkLoop_issues (ok : List Call → Call → Bool) (blknr blkcnt : U32) (buffer : Nat)
    (log : List Call) :
    (∃ ret : U32, FailsAt ok .readABlock blknr buffer log blkcnt.toNat ret.toNat ∧
      mmcBread (.issuing ok) blknr blkcnt buffer log
        = (some ret,
          log ++ blockCalls .readABlock blknr buffer (min blkcnt.toNat (ret.toNat + 1)))) ∧
    (∃ ret : U32, FailsAt ok .writeABlock blknr buffer log blkcnt.toNat ret.toNat ∧
      mmcBwrite (.issuing ok) blknr blkcnt buffer log
        = (some ret,
          log ++ blockCalls .writeABlock blknr buffer (min blkcnt.toNat (ret.toNat + 1)))) := by
  have hissue : ∀ call : U32 → Nat → Call, ∃ ret : U32,
      FailsAt ok call blknr buffer log blkcnt.toNat ret.toNat ∧
      transferAll (fun b d => issue ok (call b d)) blkcnt.toNat blknr buffer 0#32 log
        = (some ret, log ++ blockCalls call blknr buffer (min blkcnt.toNat (ret.toNat + 1))) := by
    intro call
    obtain ⟨k, hk, hrun⟩ := transferAll_issue ok call blkcnt.toNat blknr buffer 0#32 log
    -- the count of the blocks fits the word it is returned in
    have hret : (BitVec.ofNat 32 k).toNat = k :=
      (BitVec.toNat_ofNat k 32).trans (Nat.mod_eq_of_lt (Nat.lt_of_le_of_lt hk.le blkcnt.isLt))
    refine ⟨BitVec.ofNat 32 k, ?_, ?_⟩
    · rwa [hret]
    · rwa [hret, ← BitVec.zero_add (BitVec.ofNat 32 k)]
  constructor
  · rw [mmcBread_eq]
    exact hissue .readABlock
  · rw [mmcBwrite_eq]
    exact hissue .writeABlock

/-! ### Recorded outcomes -/

/-- A transfer that also records its outcome. -/
def record (x : Prog σ Bool) : Prog (σ × List Bool) Bool := fun p =>
  match x p.1 with
  | (some ok, s) => (some ok, s, p.2 ++ [ok])
  | (none, s)    => (none, s, p.2)

/-- The transfer functions, recording the outcomes. -/
def Transfers.recorded (t : Transfers σ) : Transfers (σ × List Bool) where
  readABlock := fun block buffer => record (t.readABlock block buffer)
  readABlockDm := fun block n buffer => record (t.readABlockDm block n buffer)
  writeABlock := fun block buffer => record (t.writeABlock block buffer)
  writeABlockDm := fun block n buffer => record (t.writeABlockDm block n buffer)

/-- Every recorded transfer succeeded. -/
def AllSucceeded (outcomes : List Bool) : Prop := ∀ ok ∈ outcomes, ok = true

theorem record_eq_some {x : Prog σ Bool} {p p' : σ × List Bool} {ok : Bool} :
    record x p = (some ok, p') ↔ x p.1 = (some ok, p'.1) ∧ p'.2 = p.2 ++ [ok] := by
  obtain ⟨s', l'⟩ := p'
  unfold record
  rcases x p.1 with ⟨_ | b, s⟩
  · simp
  · simp only [Prod.mk.injEq, Option.some.injEq]
    constructor
    · rintro ⟨rfl, rfl, rfl⟩
      exact ⟨⟨rfl, rfl⟩, rfl⟩
    · rintro ⟨⟨rfl, rfl⟩, rfl⟩
      exact ⟨rfl, rfl, rfl⟩

/-- The outcomes of `n` transfers, the first `k` of which succeed before one fails. -/
def outcomesUpTo (n k : Nat) : List Bool :=
  List.replicate k true ++ if k < n then [false] else []

/-- Recording changes nothing else: the loop leads where it leads without it, and the outcomes
    recorded are those of the blocks it counts and of the failure that ends it. -/
theorem transferAll_record {single : U32 → Nat → Prog σ Bool} {n : Nat} {block : U32}
    {buffer : Nat} {run ret : U32} {s s' : σ} (outcomes : List Bool)
    (h : transferAll single n block buffer run s = (some ret, s')) :
    ∃ k ≤ n, ret = run + BitVec.ofNat 32 k ∧
      transferAll (fun b d => record (single b d)) n block buffer run (s, outcomes)
        = (some ret, s', outcomes ++ outcomesUpTo n k) := by
  induction n generalizing block buffer run s outcomes with
  | zero =>
    obtain ⟨hret, rfl⟩ := Prod.mk.inj h
    obtain rfl := Option.some.inj hret
    refine ⟨0, Nat.le_refl 0, (BitVec.add_zero _).symm, ?_⟩
    rw [outcomesUpTo, if_neg (Nat.lt_irrefl 0), List.replicate_zero, List.append_nil,
      List.append_nil]
    rfl
  | succ n ih =>
    obtain ⟨ok, s₁, hfirst, hrest⟩ := bind_eq_some.mp h
    have hrecord : record (single block buffer) (s, outcomes) = (some ok, s₁, outcomes ++ [ok]) :=
      record_eq_some.mpr ⟨hfirst, rfl⟩
    cases ok with
    | false =>
      -- the failure ends the loop
      obtain ⟨hret, rfl⟩ := Prod.mk.inj hrest
      obtain rfl := Option.some.inj hret
      exact ⟨0, Nat.zero_le _, (BitVec.add_zero _).symm, bind_of hrecord rfl⟩
    | true =>
      obtain ⟨k, hk, hret, hrun⟩ := ih (outcomes ++ [true]) hrest
      refine ⟨k + 1, Nat.succ_le_succ hk, hret.trans (block_succ run k).symm, ?_⟩
      have hout : outcomes ++ [true] ++ outcomesUpTo n k
          = outcomes ++ outcomesUpTo (n + 1) (k + 1) := by
        simp [outcomesUpTo, List.replicate_succ]
      rw [← hout]
      exact bind_of hrecord hrun

/-- A recorded transfer that succeeds leads where the transfer leads, as long as all before it
    have succeeded. -/
theorem record_ensures {x : Prog σ Bool} {P Q : σ → Prop}
    (hx : Ensures P x (fun ok s => ok = true → Q s)) :
    Ensures (fun p => AllSucceeded p.2 → P p.1) (record x)
      (fun ok p => (ok = false → ¬ AllSucceeded p.2) ∧
        (ok = true → AllSucceeded p.2 → Q p.1)) := by
  intro p ok p' hp heq
  obtain ⟨hrun, hl⟩ := record_eq_some.mp heq
  rw [hl]
  refine ⟨fun hfail hall => ?_, fun hok hall => ?_⟩
  · -- a failure is the last outcome recorded
    have hlast := hall ok (List.mem_append_right _ List.mem_cons_self)
    rw [hfail] at hlast
    exact absurd hlast (by decide)
  · have hbefore : AllSucceeded p.2 := fun b hb => hall b (List.mem_append_left _ hb)
    exact hx p.1 ok p'.1 (hp hbefore) hrun hok

/-- **Run lemma.**  Where the transfer of block `j` leads from `Block j` to `Block (j + 1)` if
    it succeeds, a loop in which every transfer succeeds leads from `Block 0` to `Block n`, and
    has counted all blocks. -/
theorem transferAll_recorded {single : U32 → Nat → Prog σ Bool} (Block : Nat → σ → Prop)
    (n : Nat) (block : U32) (buffer : Nat) (run : U32)
    (hstep : ∀ j, j < n → Ensures (Block j)
      (single (block + BitVec.ofNat 32 j) (buffer + blockSize * j))
      (fun ok s => ok = true → Block (j + 1) s)) :
    Ensures (fun p => AllSucceeded p.2 → Block 0 p.1)
      (transferAll (fun b d => record (single b d)) n block buffer run)
      (fun ret p => AllSucceeded p.2 → Block n p.1 ∧ ret = run + BitVec.ofNat 32 n) := by
  induction n generalizing Block block buffer run with
  | zero => exact Ensures.pure fun p hp hall => ⟨hp hall, by simp⟩
  | succ n ih =>
    have hfirst := hstep 0 (Nat.succ_pos n)
    rw [BitVec.add_zero, Nat.mul_zero, Nat.add_zero] at hfirst
    refine Ensures.bind (record_ensures hfirst) fun ok => ?_
    cases ok with
    | false => exact Ensures.pure fun p hp hall => absurd hall (hp.1 rfl)
    | true =>
      -- the blocks after the first, counted from the second
      have hnext : ∀ j, j < n → Ensures (Block (j + 1))
          (single (block + 1#32 + BitVec.ofNat 32 j) (buffer + blockSize + blockSize * j))
          (fun ok s => ok = true → Block (j + 1 + 1) s) := by
        intro j hj
        rw [← block_succ, ← buffer_succ]
        exact hstep (j + 1) (Nat.succ_lt_succ hj)
      have hrest := ih (fun j => Block (j + 1)) (block + 1#32) (buffer + blockSize) (run + 1#32)
        hnext
      refine hrest.mono (fun p hp hall => hp.2 rfl hall) fun ret p hp hall => ?_
      rw [block_succ]
      exact hp hall

/-- A recorded transfer keeps what the transfer keeps. -/
theorem record_keeps {I : σ → Prop} {x : Prog σ Bool} (h : Keeps I x) :
    Keeps (fun p => I p.1) (record x) := by
  intro p hp
  have hx := h p.1 hp
  unfold record
  rcases hxs : x p.1 with ⟨_ | ok, s⟩
  · rw [hxs] at hx
    exact hx
  · rw [hxs] at hx
    exact hx

/-- The loop keeps what the transfers of its blocks keep. -/
theorem transferAll_keeps {I : σ → Prop} {single : U32 → Nat → Prog σ Bool} (n : Nat)
    (block : U32) (buffer : Nat) (run : U32)
    (hstep : ∀ j, j < n → ∀ d, Keeps I (single (block + BitVec.ofNat 32 j) d)) :
    Keeps I (transferAll single n block buffer run) := by
  induction n generalizing block buffer run with
  | zero => exact Keeps.pure _
  | succ n ih =>
    have hfirst := hstep 0 (Nat.succ_pos n) buffer
    rw [BitVec.add_zero] at hfirst
    refine Keeps.bind hfirst fun ok => ?_
    split
    · apply ih (block + 1#32) (buffer + blockSize) (run + 1#32)
      intro j hj d
      rw [← block_succ]
      exact hstep (j + 1) (Nat.succ_lt_succ hj) d
    · exact Keeps.pure _

/-- Where every single transfer completes and succeeds, the loop completes with all transfers
    recorded as successes. -/
theorem transferAll_completes {single : U32 → Nat → Prog σ Bool} {Good : σ → Prop}
    (hstep : ∀ block buffer, Completes Good (single block buffer) (fun ok s => ok = true ∧ Good s))
    (n : Nat) (block : U32) (buffer : Nat) (run : U32) :
    Completes (fun p => Good p.1 ∧ AllSucceeded p.2)
      (transferAll (fun b d => record (single b d)) n block buffer run)
      (fun _ p => Good p.1 ∧ AllSucceeded p.2) := by
  induction n generalizing block buffer run with
  | zero => exact Completes.pure fun _ h => h
  | succ n ih =>
    refine Completes.bind (M := fun ok p => ok = true ∧ Good p.1 ∧ AllSucceeded p.2) ?_ fun ok => ?_
    · rintro p ⟨hgood, hall⟩
      obtain ⟨ok, s', hx, rfl, hgood'⟩ := hstep block buffer p.1 hgood
      refine ⟨true, (s', p.2 ++ [true]), record_eq_some.mpr ⟨hx, rfl⟩, rfl, hgood', ?_⟩
      intro b hb
      rcases List.mem_append.mp hb with hb | hb
      · exact hall b hb
      · exact List.mem_singleton.mp hb
    · -- the first transfer has succeeded, and the loop goes on
      rintro p ⟨rfl, hgood, hall⟩
      exact ih _ _ _ p ⟨hgood, hall⟩

/-! ### Requests that pass the buffer checks -/

/-- A request with a buffer whose size is a multiple of `BlockSize`. -/
structure Request where
  media : Media
  lba : BitVec 64
  bufferSize : U32
  buffer : Nat
  positive : media.blockSize ≠ 0#32
  multiple : bufferSize % media.blockSize = 0#32

namespace Request

variable (r : Request)

/-- The number of blocks of the request. -/
def blocks : Nat := r.bufferSize.toNat / r.media.blockSize.toNat

/-- `MMCHSReadBlocks` on the request. -/
def read (t : Transfers σ) : Prog σ EfiStatus :=
  mmchsReadBlocks t r.media r.lba r.bufferSize (some r.buffer)

/-- `MMCHSWriteBlocks` on the request. -/
def write (t : Transfers σ) : Prog σ EfiStatus :=
  mmchsWriteBlocks t r.media r.lba r.bufferSize (some r.buffer)

theorem blockSize_pos : 0 < r.media.blockSize.toNat := by
  rcases Nat.eq_zero_or_pos r.media.blockSize.toNat with h | h
  · exact absurd (BitVec.eq_of_toNat_eq h) r.positive
  · exact h

theorem blocks_lt : r.blocks < 2 ^ 32 :=
  lt_of_le_of_lt (Nat.div_le_self _ _) r.bufferSize.isLt

/-- The buffer holds the blocks of the request. -/
theorem bufferSize_eq : r.bufferSize.toNat = r.blocks * r.media.blockSize.toNat := by
  have hmod : r.bufferSize.toNat % r.media.blockSize.toNat = 0 := by
    have := congrArg BitVec.toNat r.multiple
    rwa [BitVec.toNat_umod] at this
  exact (Nat.div_mul_cancel (Nat.dvd_of_mod_eq_zero hmod)).symm

/-- A request of no blocks succeeds at once; any other is handed to the device function, whose
    count decides the status. -/
theorem mmchsTransfer_eq (device : U32 → U32 → Nat → Prog σ U32) :
    mmchsTransfer device r.media r.lba r.bufferSize (some r.buffer)
      = if r.blocks = 0 then pure .success
        else do
          let ret ← device (r.lba.setWidth 32) (BitVec.ofNat 32 r.blocks) r.buffer
          return if ret ≠ 0#32 then .success else .deviceError := by
  have hcnt : r.bufferSize / r.media.blockSize = BitVec.ofNat 32 r.blocks := by
    apply BitVec.eq_of_toNat_eq
    rw [BitVec.toNat_udiv, BitVec.toNat_ofNat, Nat.mod_eq_of_lt r.blocks_lt]
    rfl
  have hzero : r.bufferSize = 0#32 ↔ r.blocks = 0 := by
    rw [← BitVec.toNat_inj, r.bufferSize_eq]
    have hpos := r.blockSize_pos
    simp [hpos.ne']
  have hmult : ¬ (r.bufferSize % r.media.blockSize ≠ 0#32) := by
    rw [r.multiple]
    simp
  unfold mmchsTransfer
  rw [if_neg hmult, hcnt]
  simp only [hzero]

end Request

end HtcLeo.SdCard

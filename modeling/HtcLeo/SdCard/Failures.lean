import HtcLeo.SdCard.BlockIo

namespace HtcLeo.SdCard

open Prog

/-!
# SdCardDxe — what BlockIo reports of failed transfers

The entry points over single-block transfers that succeed or fail by any given pattern.

* `patterned pattern` — transfers of which number `i` succeeds exactly if `pattern i`; the calls
  and their outcomes are kept.
* `transferAll_patterned`, `mmchsTransfer_patterned` — what the chunk loop and the entry points try,
  and what they return.
* `ReportsFailures` — the status is `EFI_SUCCESS` exactly if every block was transferred, and
  an error whenever one failed; `reportsFailures_iff` says for which patterns that is so.
-/

/-- The calls that were made, and the outcome of each. -/
abbrev Tried := List Call × List Bool

/-- Transfer number `i` succeeds exactly if `pattern i`. -/
def byNumber (pattern : Nat → Bool) (log : List Call) (_ : Call) : Bool := pattern log.length

/-- The transfer functions over a pattern of outcomes. -/
def patterned (pattern : Nat → Bool) : Transfers Tried :=
  (Transfers.issuing (byNumber pattern)).recorded

/-- One of them. -/
def attempt (pattern : Nat → Bool) (call : U32 → Nat → Call) (block : U32) (buffer : Nat) :
    Prog Tried Bool :=
  record (issue (byNumber pattern) (call block buffer))

/-- The first `k` of `n` transfers succeed before one fails. -/
structure LeadingOf (pattern : Nat → Bool) (n k : Nat) : Prop where
  le : k ≤ n
  before : ∀ j < k, pattern j = true
  fails : k < n → pattern k = false

theorem blockCalls_length (call : U32 → Nat → Call) (block : U32) (buffer m : Nat) :
    (blockCalls call block buffer m).length = m := by
  rw [blockCalls, List.length_map, List.length_range]

theorem FailsAt.leading {pattern : Nat → Bool} {call : U32 → Nat → Call} {block : U32}
    {buffer n k : Nat} (h : FailsAt (byNumber pattern) call block buffer [] n k) :
    LeadingOf pattern n k := by
  have hnumber : ∀ j c, byNumber pattern ([] ++ blockCalls call block buffer j) c = pattern j := by
    intro j c
    rw [byNumber, List.nil_append, blockCalls_length]
  exact ⟨h.le, fun j hj => (hnumber j _).symm.trans (h.before j hj),
    fun hk => (hnumber k _).symm.trans (h.fails hk)⟩

/-- What the chunk loop returns, and what it tries. -/
theorem transferAll_patterned (pattern : Nat → Bool) (call : U32 → Nat → Call) {n : Nat}
    (hn : n < 2 ^ 32) (block : U32) (buffer : Nat) :
    ∃ k, LeadingOf pattern n k ∧
      transferAll (attempt pattern call) n block buffer 0#32 ([], [])
        = (some (BitVec.ofNat 32 k), blockCalls call block buffer (min n (k + 1)),
          outcomesUpTo n k) := by
  obtain ⟨k, hk, hrun⟩ := transferAll_issue (byNumber pattern) call n block buffer 0#32 []
  obtain ⟨k', hk', hret, hrecord⟩ := transferAll_record [] hrun
  -- both counts fit the word that is returned
  rw [BitVec.zero_add, BitVec.zero_add, ← BitVec.toNat_inj, BitVec.toNat_ofNat, BitVec.toNat_ofNat,
    Nat.mod_eq_of_lt (Nat.lt_of_le_of_lt hk.le hn),
    Nat.mod_eq_of_lt (Nat.lt_of_le_of_lt hk' hn)] at hret
  obtain rfl := hret
  refine ⟨k, hk.leading, ?_⟩
  rw [BitVec.zero_add, List.nil_append, List.nil_append] at hrecord
  exact hrecord

/-! ### Reports -/

/-- Every block of the request was transferred by a `call`, from or to its place in the buffer. -/
def Request.AllTransferred (r : Request) (call : U32 → Nat → Call) (tried : Tried) : Prop :=
  ∀ i, i < r.blocks →
    (call (r.lba.setWidth 32 + BitVec.ofNat 32 i) (r.buffer + blockSize * i), true)
      ∈ tried.1.zip tried.2

/-- The run of an entry point ends; its status is `EFI_SUCCESS` exactly if every block of the
    request was transferred, and an error if some transfer failed. -/
def Request.Reports (r : Request) (call : U32 → Nat → Call) (entry : Prog Tried EfiStatus) :
    Prop :=
  ∃ status tried, entry ([], []) = (some status, tried) ∧
    (status = .success ↔ r.AllTransferred call tried) ∧
    (false ∈ tried.2 → status.isError = true)

/-- Both entry points report the failures of the pattern. -/
def ReportsFailures (pattern : Nat → Bool) (r : Request) : Prop :=
  r.Reports .readABlock (r.read (patterned pattern)) ∧
    r.Reports .writeABlock (r.write (patterned pattern))

/-- The outcomes hold a failure exactly if not all transfers succeeded. -/
theorem false_mem_outcomesUpTo (n k : Nat) : false ∈ outcomesUpTo n k ↔ k < n := by
  unfold outcomesUpTo
  by_cases hk : k < n
  · simp [hk]
  · simp [hk]

/-- Outcome number `j` is a success exactly if it is one of the first `k`. -/
theorem outcomesUpTo_getElem? (n k j : Nat) :
    (outcomesUpTo n k)[j]? = some true ↔ j < k := by
  unfold outcomesUpTo
  by_cases hj : j < k
  · rw [List.getElem?_append_left (by rwa [List.length_replicate]), List.getElem?_replicate,
      if_pos hj]
    exact iff_of_true rfl hj
  · -- what is behind the successes is no success
    rw [List.getElem?_append_right (by rw [List.length_replicate]; omega)]
    refine iff_of_false (fun h => ?_) hj
    have hmem := List.mem_of_getElem? h
    split at hmem
    · exact absurd (List.mem_singleton.mp hmem) (by decide)
    · exact absurd hmem List.not_mem_nil

theorem blockCalls_getElem? (call : U32 → Nat → Call) (block : U32) (buffer : Nat) {m j : Nat}
    (hj : j < m) :
    (blockCalls call block buffer m)[j]?
      = some (call (block + BitVec.ofNat 32 j) (buffer + blockSize * j)) := by
  rw [blockCalls, List.getElem?_map, List.getElem?_range hj, Option.map_some]

/-- A call that tells its buffer. -/
def TellsBuffer (call : U32 → Nat → Call) : Prop :=
  ∀ b b' d d', call b d = call b' d' → d = d'

/-- The transfers the chunk loop tries for a request are all of its blocks exactly if none of
    its transfers fails. -/
theorem allTransferred_iff {call : U32 → Nat → Call} (hcall : TellsBuffer call) (r : Request)
    {k : Nat} (hk : k ≤ r.blocks) :
    r.AllTransferred call (blockCalls call (r.lba.setWidth 32) r.buffer (min r.blocks (k + 1)),
        outcomesUpTo r.blocks k) ↔ k = r.blocks := by
  constructor
  · intro hall
    by_contra hne
    -- the block of the failure would have to be among the successes
    have hmem := hall k (by omega)
    obtain ⟨j, hj⟩ := List.mem_iff_getElem?.mp hmem
    obtain ⟨hcalled, hok⟩ := List.getElem?_zip_eq_some.mp hj
    have hlt : j < k := (outcomesUpTo_getElem? r.blocks k j).mp hok
    rw [blockCalls_getElem? call _ _ (by omega)] at hcalled
    have hbuffer : r.buffer + 512 * j = r.buffer + 512 * k :=
      hcall _ _ _ _ (Option.some.inj hcalled)
    omega
  · rintro rfl i hi
    refine List.mem_iff_getElem?.mpr ⟨i, List.getElem?_zip_eq_some.mpr ⟨?_, ?_⟩⟩
    · exact blockCalls_getElem? call _ _ (by omega)
    · exact (outcomesUpTo_getElem? r.blocks r.blocks i).mpr hi

/-- What an entry point returns for a request, and what it tries: it is a success as soon as the
    first transfer is. -/
theorem mmchsTransfer_patterned (pattern : Nat → Bool) (call : U32 → Nat → Call) (r : Request)
    {device : U32 → U32 → Nat → Prog Tried U32}
    (hdevice : ∀ blknr blkcnt buffer, device blknr blkcnt buffer
      = transferAll (attempt pattern call) blkcnt.toNat blknr buffer 0#32) :
    ∃ k, LeadingOf pattern r.blocks k ∧
      mmchsTransfer device r.media r.lba r.bufferSize (some r.buffer) ([], [])
        = (some (if r.blocks = 0 ∨ 0 < k then .success else .deviceError),
          blockCalls call (r.lba.setWidth 32) r.buffer (min r.blocks (k + 1)),
          outcomesUpTo r.blocks k) := by
  have hcnt : (BitVec.ofNat 32 r.blocks).toNat = r.blocks := by
    rw [BitVec.toNat_ofNat, Nat.mod_eq_of_lt r.blocks_lt]
  obtain ⟨k, hk, hrun⟩ :=
    transferAll_patterned pattern call r.blocks_lt (r.lba.setWidth 32) r.buffer
  refine ⟨k, hk, ?_⟩
  rw [r.mmchsTransfer_eq, hdevice, hcnt]
  by_cases hzero : r.blocks = 0
  · -- nothing to transfer
    have hk0 : k = 0 := Nat.le_zero.mp (hzero ▸ hk.le)
    rw [if_pos hzero, if_pos (Or.inl hzero), hzero, hk0]
    rfl
  · rw [if_neg hzero]
    -- the count fits in 32 bits, so it is zero only if nothing was transferred
    have hlt : k < 2 ^ 32 := Nat.lt_of_le_of_lt hk.le r.blocks_lt
    have hret : BitVec.ofNat 32 k ≠ 0#32 ↔ r.blocks = 0 ∨ 0 < k := by
      rw [Ne, ← BitVec.toNat_inj, BitVec.toNat_ofNat, Nat.mod_eq_of_lt hlt, BitVec.toNat_zero]
      omega
    refine bind_of hrun ?_
    simp only [hret]
    rfl

/-- A request whose first transfer fails, or none, is reported as it should. -/
theorem reports_iff (pattern : Nat → Bool) (call : U32 → Nat → Call) (hcall : TellsBuffer call)
    (r : Request) (device : U32 → U32 → Nat → Prog Tried U32)
    (hdevice : ∀ blknr blkcnt buffer, device blknr blkcnt buffer
      = transferAll (attempt pattern call) blkcnt.toNat blknr buffer 0#32) :
    r.Reports call (mmchsTransfer device r.media r.lba r.bufferSize (some r.buffer)) ↔
      (pattern 0 = true → ∀ i, i < r.blocks → pattern i = true) := by
  obtain ⟨k, hk, hrun⟩ := mmchsTransfer_patterned pattern call r hdevice
  have hall := allTransferred_iff hcall r hk.le
  constructor
  · rintro ⟨status, tried, heq, hsuccess, -⟩ hp i hi
    obtain ⟨hstatus, rfl⟩ := Prod.mk.inj (hrun.symm.trans heq)
    obtain rfl := Option.some.inj hstatus
    have hpos : 0 < k := by
      by_contra hzero
      obtain rfl : k = 0 := by omega
      exact absurd (hp.symm.trans (hk.fails (by omega))) (by decide)
    -- `EFI_SUCCESS`, whatever the transfers after the first do
    have hend : k = r.blocks := hall.mp (hsuccess.mp (if_pos (Or.inr hpos)))
    exact hk.before i (by omega)
  · intro hpattern
    have hend : (r.blocks = 0 ∨ 0 < k) ↔ k = r.blocks := by
      have hle := hk.le
      refine ⟨fun h => ?_, fun h => by omega⟩
      by_contra hne
      have hlt : k < r.blocks := by omega
      have hfirst := hpattern (hk.before 0 (by omega)) k hlt
      exact absurd (hfirst.symm.trans (hk.fails hlt)) (by decide)
    refine ⟨_, _, hrun, ?_, fun hfalse => ?_⟩
    · rw [hall, ← hend]
      split_ifs with hok
      · exact iff_of_true rfl hok
      · exact iff_of_false (by decide) hok
    · have hlt : k < r.blocks := (false_mem_outcomesUpTo r.blocks k).mp hfalse
      rw [if_neg fun hok => by have := hend.mp hok; omega]
      rfl

/-- **Reported failures.**  Both entry points report the failures of a request exactly for the
    patterns in which the first transfer of the request fails, or none does. -/
theorem reportsFailures_iff (pattern : Nat → Bool) (r : Request) :
    ReportsFailures pattern r ↔
      (pattern 0 = true → ∀ i, i < r.blocks → pattern i = true) := by
  have hread := reports_iff pattern .readABlock (fun _ _ _ _ h => (Call.readABlock.inj h).2) r
    (mmcBread (patterned pattern))
    (fun blknr blkcnt buffer => mmcBread_eq (patterned pattern) blknr blkcnt buffer)
  have hwrite := reports_iff pattern .writeABlock (fun _ _ _ _ h => (Call.writeABlock.inj h).2) r
    (mmcBwrite (patterned pattern))
    (fun blknr blkcnt buffer => mmcBwrite_eq (patterned pattern) blknr blkcnt buffer)
  exact ⟨fun h => hread.mp h.1, fun h => ⟨hread.mpr h, hwrite.mpr h⟩⟩

/-- A read of two blocks whose second transfer fails is reported as `EFI_SUCCESS`. -/
theorem second_failure_not_reported :
    ¬ ReportsFailures (fun i => i == 0) ⟨⟨7, 512⟩, 0, 1024, 4096, by decide, by decide⟩ := by
  rintro ⟨⟨status, tried, hrun, _, herror⟩, _⟩
  have hrun' : (some EfiStatus.success,
      (([.readABlock 0 4096, .readABlock 1 4608], [true, false]) : Tried))
        = (some status, tried) := by
    rw [← hrun]
    decide
  obtain ⟨hstatus, rfl⟩ := Prod.mk.inj hrun'
  obtain rfl := Option.some.inj hstatus
  exact absurd (herror (by simp)) (by decide)

end HtcLeo.SdCard

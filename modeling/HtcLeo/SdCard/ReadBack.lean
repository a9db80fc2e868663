import HtcLeo.SdCard.Disk
import HtcLeo.SdCard.RightBytes

namespace HtcLeo.SdCard

open Prog

/-!
# SdCardDxe — reading what was written

Runs of BlockIo requests, some of which may fail or never return, seen from one sector.

* `Disk.Run.sector_eq` — a run leaves the sectors that none of its writes names.
* `Card.perform_completes` — on a prompt controller every request returns, with success.
* `written_sector_stays` — what was written to a sector with success is read from it, whatever
  happened to other requests in between.
-/

/-! ### Sectors that are not written -/

/-- The event is a write that names sector `n`. -/
def IoEvent.Writes (card : Card) (n : Nat) : IoEvent → Prop
  | .write q => match q.moves card with
      | none => False
      | some (blocks, _) => ∃ j < blocks, q.sector card j = n
  | _ => False

namespace Disk

variable {card : Card} {n : Nat} {s s' : Disk × Memory}

/-- A step leaves the sectors it does not name. -/
theorem Step.sector_eq {e : IoEvent} {r : Option EfiStatus} (h : Step card e r s s')
    (hn : ¬ e.Writes card n) : s'.1 n = s.1 n := by
  cases e with
  | memory mem =>
    obtain ⟨-, rfl⟩ := h
    rfl
  | read q =>
    unfold Step at h
    dsimp only at h
    split at h
    · obtain ⟨-, rfl⟩ := h
      rfl
    · obtain ⟨k, -, -, rfl⟩ := h
      rfl
  | write q =>
    unfold Step at h
    unfold IoEvent.Writes at hn
    dsimp only at h hn
    split at h
    · obtain ⟨-, rfl⟩ := h
      rfl
    · rename_i blocks buffer hmoves
      simp only [hmoves] at hn
      obtain ⟨k, -, -, rfl⟩ := h
      refine storeAll_of_not_mem _ fun w hw heq => hn ?_
      obtain ⟨j, hj, rfl⟩ := List.mem_map.mp (List.mem_of_mem_take hw)
      exact ⟨j, List.mem_range.mp hj, heq⟩

/-- And so does a run. -/
theorem Run.sector_eq {events : List IoEvent} {rs : List (Option EfiStatus)}
    (h : Run card events rs s s') (hn : ∀ e ∈ events, ¬ e.Writes card n) : s'.1 n = s.1 n := by
  induction h with
  | done s => rfl
  | next h _ ih =>
    rw [List.forall_mem_cons] at hn
    exact (ih hn.2).trans (h.sector_eq hn.1)
  | hangs h => exact h.sector_eq (hn _ List.mem_cons_self)

end Disk

/-! ### Reading what was written -/

namespace IoRequest

variable {q : IoRequest} {card : Card} {n buffer : Nat}

/-- It moves a block at least, and on a card with blocks of at least 512 bytes, less than
    `2 ^ 23`. -/
theorem moves_bounds (hmoves : q.moves card = some (n, buffer)) :
    0 < n ∧ (9 ≤ card.readBlLen → n < 2 ^ 23) := by
  obtain ⟨hmod, -, hsize, rfl⟩ := moves_eq_some hmoves
  rw [BitVec.toNat_udiv, card.media_blockSize]
  have hpow : 0 < 2 ^ card.readBlLen := Nat.pow_pos (by decide)
  refine ⟨?_, fun hlen => ?_⟩
  · -- a positive multiple of the block size is not below it
    have hdvd : 2 ^ card.readBlLen ∣ q.bufferSize.toNat := by
      have := congrArg BitVec.toNat hmod
      rw [BitVec.toNat_umod, card.media_blockSize] at this
      exact Nat.dvd_of_mod_eq_zero this
    have hne : q.bufferSize.toNat ≠ 0 := fun h => hsize (BitVec.eq_of_toNat_eq h)
    exact Nat.div_pos (Nat.le_of_dvd (Nat.pos_of_ne_zero hne) hdvd) hpow
  · have hlt := q.bufferSize.isLt
    have h512 : 2 ^ 9 ≤ 2 ^ card.readBlLen := Nat.pow_le_pow_right (by decide) hlen
    rw [Nat.div_lt_iff_lt_mul hpow]
    omega

/-- On such a card, no block of a request but the first addresses its first sector. -/
theorem sector_ne_first (hlen : 9 ≤ card.readBlLen) (hmoves : q.moves card = some (n, buffer))
    {j : Nat} (hj : j < n) (hpos : 0 < j) : q.sector card j ≠ q.sector card 0 := by
  have hn := (moves_bounds hmoves).2 hlen
  have hlba := (q.lba.setWidth 32).isLt
  have hj32 : (BitVec.ofNat 32 j).toNat = j := by
    rw [BitVec.toNat_ofNat]
    omega
  intro heq
  have haddress : 512 * q.sector card j = 512 * q.sector card 0 := by rw [heq]
  rw [← q.byteAddress_eq, ← q.byteAddress_eq, BitVec.add_zero] at haddress
  cases hkind : card.highCapacity with
  | true =>
    rw [hkind] at haddress
    change (_ + BitVec.ofNat 32 j).toNat * 512 = (q.lba.setWidth 32).toNat * 512 at haddress
    rw [BitVec.toNat_add, hj32] at haddress
    omega
  | false =>
    rw [hkind] at haddress
    change ((_ + BitVec.ofNat 32 j) * 512#32).toNat = (q.lba.setWidth 32 * 512#32).toNat
      at haddress
    rw [BitVec.toNat_mul, BitVec.toNat_mul, BitVec.toNat_add, hj32, BitVec.toNat_ofNat] at haddress
    omega

end IoRequest

/-! ### Prompt controllers -/

/-- Where every transfer succeeds, all blocks are counted. -/
theorem transferAll_succeeds {σ : Type} {single : U32 → Nat → Prog σ Bool} {Good : σ → Prop}
    (hstep : ∀ block buffer, Completes Good (single block buffer) (fun ok s => ok = true ∧ Good s))
    (n : Nat) (block : U32) (buffer : Nat) (run : U32) :
    Completes Good (transferAll single n block buffer run)
      (fun ret s => ret = run + BitVec.ofNat 32 n ∧ Good s) := by
  induction n generalizing block buffer run with
  | zero => exact Completes.pure fun s hs => ⟨by simp, hs⟩
  | succ n ih =>
    refine Completes.bind_eq (hstep block buffer) ?_
    refine (ih (block + 1#32) (buffer + blockSize) (run + 1#32)).mono (fun _ h => h) ?_
    rintro ret s ⟨rfl, hs⟩
    exact ⟨(block_succ run n).symm, hs⟩

/-- On a prompt controller, every request that moves blocks returns, with success. -/
theorem Card.perform_completes {card : Card} {q : IoRequest} {n buffer : Nat} {u : Setup}
    (hfuel : 128 < u.fuel) (hmoves : q.moves card = some (n, buffer)) {e : IoEvent}
    (he : e = .read q ∨ e = .write q) :
    Completes Prompt (card.perform u e) (fun status m => status = .success ∧ Prompt m) := by
  let t := cardTransfers card.highCapacity u.fuel u.rca u.dm
  -- the count of all blocks is not zero
  have hstatus : ∀ ret : U32, ret = 0#32 + BitVec.ofNat 32 n →
      (if ret ≠ 0#32 then EfiStatus.success else .deviceError) = .success := by
    rintro ret rfl
    have hpos := (IoRequest.moves_bounds hmoves).1
    obtain ⟨blkcnt, rfl, -⟩ :=
      IoRequest.mmchsTransfer_of_moves (σ := Unit) hmoves fun _ _ _ => pure 0#32
    rw [BitVec.zero_add, BitVec.ofNat_toNat, BitVec.setWidth_eq]
    refine if_pos fun hzero => ?_
    rw [hzero] at hpos
    exact absurd hpos (by decide)
  have hdevice : ∀ device : U32 → U32 → Nat → Prog (Machine Sdcc) U32,
      (∀ blkcnt : U32, Completes Prompt (device (q.lba.setWidth 32) blkcnt buffer)
        fun ret m => ret = 0#32 + BitVec.ofNat 32 blkcnt.toNat ∧ Prompt m) →
      Completes Prompt (mmchsTransfer device card.media q.lba q.bufferSize q.buffer)
        fun status m => status = .success ∧ Prompt m := by
    intro device hrun
    obtain ⟨blkcnt, rfl, htransfer⟩ := IoRequest.mmchsTransfer_of_moves hmoves device
    rw [htransfer]
    refine Completes.bind (hrun blkcnt) fun ret => Completes.pure fun m hm => ?_
    exact ⟨hstatus ret hm.1, hm.2⟩
  rcases he with rfl | rfl
  · refine hdevice (mmcBread t) fun blkcnt => ?_
    rw [mmcBread_eq]
    exact transferAll_succeeds (fun block b => readABlock_completes hfuel block b) _ _ _ _
  · refine hdevice (mmcBwrite t) fun blkcnt => ?_
    rw [mmcBwrite_eq]
    exact transferAll_succeeds (fun block b => writeABlock_completes hfuel block b u.rca) _ _ _ _

/-! ### A sector, from a write to a read -/

section Sectors

variable {card : Card} {q : IoRequest} {n buffer : Nat}

/-- A write with success has stored its first sector. -/
theorem Disk.Step.first_sector {s s' : Disk × Memory} (hlen : 9 ≤ card.readBlLen)
    (hmoves : q.moves card = some (n, buffer))
    (h : Disk.Step card (.write q) (some .success) s s') :
    s'.1 (q.sector card 0) = sectorAt s.2 buffer := by
  unfold Disk.Step at h
  simp only [hmoves] at h
  obtain ⟨k, hk, htells, rfl⟩ := h
  have hk1 : 1 ≤ k := htells
  -- the stores are that of the first sector, and others after it
  obtain ⟨k, rfl⟩ : ∃ i, k = i + 1 := ⟨k - 1, by omega⟩
  obtain ⟨n, rfl⟩ : ∃ i, n = i + 1 := ⟨n - 1, by omega⟩
  rw [IoRequest.stores, List.range_succ_eq_map, List.map_cons, List.take_succ_cons, Nat.mul_zero,
    Nat.add_zero]
  refine storeAll_last [] _ _ fun w hw => ?_
  obtain ⟨i, hi, rfl⟩ := List.mem_map.mp (List.mem_of_mem_take hw)
  obtain ⟨j, hj, rfl⟩ := List.mem_map.mp hi
  have hjn := List.mem_range.mp hj
  exact IoRequest.sector_ne_first hlen hmoves (by omega) (Nat.succ_pos j)

/-- A read with success has read its first sector. -/
theorem Disk.Step.read_first {s s' : Disk × Memory} (hmoves : q.moves card = some (n, buffer))
    (h : Disk.Step card (.read q) (some .success) s s') (i : Fin 512) :
    s'.2 (buffer + i) = s.1 (q.sector card 0) i := by
  unfold Disk.Step at h
  simp only [hmoves] at h
  obtain ⟨k, hk, htells, rfl⟩ := h
  have hi := i.isLt
  have hk512 : 512 ≤ k := htells
  have hdiv : i.val / 512 = 0 := Nat.div_eq_of_lt hi
  have hmod : i.val % 512 = i.val := Nat.mod_eq_of_lt hi
  have hadd : (512 * q.sector card 0 + i.val) / 512 = q.sector card 0 := by omega
  dsimp only
  rw [Memory.blit_inside buffer _ _ (by omega), IoRequest.byteOn, hdiv, hmod, Disk.byte, hadd]
  refine congrArg _ (Fin.ext ?_)
  show (512 * q.sector card 0 + i.val) % 512 = i.val
  omega

/-- **What was written is read.**  On a card with blocks of at least 512 bytes, a write returns
    success; then come any other events, among them requests that fail or hang, none a write that
    names the sector; then a read of the sector returns success.  It has the bytes written. -/
theorem written_sector_stays (u : Setup) (hlen : 9 ≤ card.readBlLen)
    {q' : IoRequest} {n' buffer' : Nat} (hmoves : q.moves card = some (n, buffer))
    (hmoves' : q'.moves card = some (n', buffer')) (hsame : q'.sector card 0 = q.sector card 0)
    {m m' m'' : Machine Sdcc} (hwrite : card.perform u (.write q) m = (some .success, m'))
    (later : List IoEvent) (hlater : ∀ e ∈ later, ¬ e.Writes card (q.sector card 0))
    (hread : card.perform u (.read q') (card.run u later m').2 = (some .success, m''))
    (i : Fin 512) : m''.mem (buffer' + i) = m.mem (buffer + i) := by
  have hstep := card.perform_refines u (.write q) m
  have hlast := card.perform_refines u (.read q') (card.run u later m').2
  rw [hwrite] at hstep
  rw [hread] at hlast
  calc m''.mem (buffer' + i)
      = (Card.view (card.run u later m').2).1 (q'.sector card 0) i := hlast.read_first hmoves' i
    _ = (Card.view m').1 (q.sector card 0) i := by
        rw [hsame, (card.run_refines u later m').sector_eq hlater]
    _ = m.mem (buffer + i) := congrFun (hstep.first_sector hlen hmoves) i

end Sectors

/-- A write of the second sector of `card2GB`, whose buffer is then overwritten, and a read of it. -/
theorem written_sector_stays_card2GB :
    ∃ m' m'' : Machine Sdcc,
      card2GB.perform ⟨129, 0, fun _ _ _ => pure true⟩ (.write ⟨1, 1024, some 0x1000⟩) onesMachine
        = (some .success, m') ∧
      card2GB.perform ⟨129, 0, fun _ _ _ => pure true⟩ (.read ⟨1, 1024, some 0x2000⟩)
        (card2GB.run ⟨129, 0, fun _ _ _ => pure true⟩ [.memory fun _ => 2#8] m').2
        = (some .success, m'') ∧
      ∀ i : Fin 512, m''.mem (0x2000 + i) = onesMachine.mem (0x1000 + i) := by
  let u : Setup := ⟨129, 0, fun _ _ _ => pure true⟩
  have hmoves : (⟨1, 1024, some 0x1000⟩ : IoRequest).moves card2GB = some (1, 0x1000) := by decide
  have hmoves' : (⟨1, 1024, some 0x2000⟩ : IoRequest).moves card2GB = some (1, 0x2000) := by decide
  have hfuel : 128 < u.fuel := by decide
  obtain ⟨_, m', hwrite, rfl, hm'⟩ :=
    Card.perform_completes hfuel hmoves (Or.inr rfl) onesMachine rfl
  obtain ⟨_, m'', hread, rfl, -⟩ := Card.perform_completes hfuel hmoves' (Or.inl rfl)
    (card2GB.run u [.memory fun _ => 2#8] m').2 hm'
  exact ⟨m', m'', hwrite, hread, written_sector_stays u (by decide) hmoves hmoves' rfl hwrite
    [.memory fun _ => 2#8] (by simp [IoEvent.Writes]) hread⟩

end HtcLeo.SdCard

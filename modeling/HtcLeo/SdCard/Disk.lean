import HtcLeo.Lib.Stores
import HtcLeo.SdCard.Atomic
import HtcLeo.SdCard.Requests

namespace HtcLeo.SdCard

open Prog

/-!
# SdCardDxe — the card as a disk

BlockIo requests of any kind, one after the other, on a controller with a card whose polls show
whatever they like: transfers may fail at any stage, and a request may never return.

* `Disk`, `Disk.Step`, `Disk.Run` — the disk such a card is to its users: it stores whole sectors,
  and a request that fails has stored, or read, a first part of what it asked for.
* `Card.perform`, `Card.run` — the driver on a list of requests.
* `Card.run_refines` — every run of the driver is a run of the disk.
-/

/-- A sector of a card. -/
abbrev Sector := Fin 512 → Byte

/-- A card as an array of sectors. -/
abbrev Disk := Nat → Sector

theorem sector_pos : 0 < 512 := by decide

/-- The sectors of a card. -/
def diskOf (content : Memory) : Disk := fun n i => content (512 * n + i)

/-- Byte `a` of a disk. -/
def Disk.byte (d : Disk) (a : Nat) : Byte := d (a / 512) ⟨a % 512, Nat.mod_lt a sector_pos⟩

/-- The bytes of memory that a sector is written from. -/
def sectorAt (mem : Memory) (a : Nat) : Sector := fun i => mem (a + i)

@[simp] theorem diskOf_byte (content : Memory) (a : Nat) : (diskOf content).byte a = content a :=
  congrArg content (Nat.div_add_mod a 512)

/-- Replacing the bytes of a sector stores it. -/
theorem diskOf_blit (content mem : Memory) (n buffer : Nat) :
    diskOf (Memory.blit (512 * n) 512 (fun i => mem (buffer + i)) content)
      = storeAll [(n, sectorAt mem buffer)] (diskOf content) := by
  funext k i
  have hi := i.isLt
  simp only [storeAll_cons, storeAll_nil]
  by_cases hk : k = n
  · subst hk
    rw [Function.update_self]
    exact Memory.blit_inside _ _ _ hi
  · rw [Function.update_of_ne hk]
    exact Memory.blit_outside _ _ (by omega)

/-! ### Requests -/

/-- The parameters of a BlockIo request; a `none` buffer is `NULL`. -/
structure IoRequest where
  lba : BitVec 64
  bufferSize : U32
  buffer : Option Nat

/-- What the users of a card do: a request, or something that changes the memory. -/
inductive IoEvent
  | memory (mem : Memory)
  | read (q : IoRequest)
  | write (q : IoRequest)

namespace IoRequest

variable (q : IoRequest) (card : Card)

/-- The number of blocks and the buffer of a request that moves any. -/
def moves : Option (Nat × Nat) :=
  if q.bufferSize % card.media.blockSize ≠ 0#32 then none
  else match q.buffer with
    | none => none
    | some buffer =>
        if q.bufferSize = 0#32 then none
        else some ((q.bufferSize / card.media.blockSize).toNat, buffer)

/-- The sector of the card that the command for block `j` of the request addresses. -/
def sector (j : Nat) : Nat :=
  byteAddress card.highCapacity
    (commandAddress card.highCapacity (q.lba.setWidth 32 + BitVec.ofNat 32 j)) / 512

/-- The stores of a write of `n` blocks. -/
def stores (mem : Memory) (n buffer : Nat) : List (Nat × Sector) :=
  (List.range n).map fun j => (q.sector card j, sectorAt mem (buffer + 512 * j))

/-- Byte `i` of the blocks of a read. -/
def byteOn (d : Disk) (i : Nat) : Byte := d.byte (512 * q.sector card (i / 512) + i % 512)

/-- Commands address whole sectors. -/
theorem byteAddress_eq (j : Nat) :
    byteAddress card.highCapacity
      (commandAddress card.highCapacity (q.lba.setWidth 32 + BitVec.ofNat 32 j))
      = 512 * q.sector card j := by
  have hdvd : ∀ (hc : Bool) (block : U32), byteAddress hc (commandAddress hc block) % 512 = 0 := by
    intro hc block
    cases hc with
    | true => exact Nat.mul_mod_left _ _
    | false =>
      -- the byte address is a multiple of 512 in 32 bits, and 512 divides `2 ^ 32`
      show (block * 512#32).toNat % 512 = 0
      rw [BitVec.toNat_mul, BitVec.toNat_ofNat]
      omega
  have hmod := hdvd card.highCapacity (q.lba.setWidth 32 + BitVec.ofNat 32 j)
  unfold sector
  omega

end IoRequest

/-! ### The disk -/

/-- What a status tells of a request that moves blocks of `unit` units, of which `k` units have
    been moved: success tells of the first block, and an error that nothing after it was moved. -/
def Tells (r : Option EfiStatus) (unit k : Nat) : Prop :=
  match r with
  | some .success     => unit ≤ k
  | some .deviceError => k ≤ unit
  | some _            => False
  | none              => True

namespace Disk

/-- One request on a disk with the memory beside it; `none` stands for one that does not return.  A
    write stores the first `k` of its blocks, and a read fills the first `k` bytes. -/
def Step (card : Card) (e : IoEvent) (r : Option EfiStatus) (s s' : Disk × Memory) : Prop :=
  match e with
  | .memory mem => r = some .success ∧ s' = (s.1, mem)
  | .read q => match q.moves card with
      | none => r.isSome ∧ s' = s
      | some (n, buffer) => ∃ k ≤ 512 * n, Tells r 512 k ∧
          s' = (s.1, Memory.blit buffer k (q.byteOn card s.1) s.2)
  | .write q => match q.moves card with
      | none => r.isSome ∧ s' = s
      | some (n, buffer) => ∃ k ≤ n, Tells r 1 k ∧
          s' = (storeAll ((q.stores card s.2 n buffer).take k) s.1, s.2)

/-- A run of the disk, with the statuses of its requests; it ends with one that does not return. -/
inductive Run (card : Card) :
    List IoEvent → List (Option EfiStatus) → Disk × Memory → Disk × Memory → Prop
  | done (s : Disk × Memory) : Run card [] [] s s
  | next {e : IoEvent} {status : EfiStatus} {s s' s'' : Disk × Memory} {events : List IoEvent}
      {rs : List (Option EfiStatus)} (h : Step card e (some status) s s')
      (hrest : Run card events rs s' s'') : Run card (e :: events) (some status :: rs) s s''
  | hangs {e : IoEvent} {s s' : Disk × Memory} {events : List IoEvent}
      (h : Step card e none s s') : Run card (e :: events) [none] s s'

end Disk

/-! ### The driver -/

namespace Card

variable (card : Card) (u : Setup)

/-- The driver's answer to an event. -/
def perform : IoEvent → Prog (Machine Sdcc) EfiStatus
  | .memory mem => do
      modify fun m => { m with mem := mem }
      return .success
  | .read q => mmchsReadBlocks (cardTransfers card.highCapacity u.fuel u.rca u.dm) card.media
      q.lba q.bufferSize q.buffer
  | .write q => mmchsWriteBlocks (cardTransfers card.highCapacity u.fuel u.rca u.dm) card.media
      q.lba q.bufferSize q.buffer

/-- The driver on a list of events: the statuses, and the state it comes to. -/
def run : List IoEvent → Machine Sdcc → List (Option EfiStatus) × Machine Sdcc
  | [], m => ([], m)
  | e :: events, m => match card.perform u e m with
      | (some status, m') => (some status :: (run events m').1, (run events m').2)
      | (none, m')        => ([none], m')

/-- The disk and the memory of a machine. -/
def view (m : Machine Sdcc) : Disk × Memory := (diskOf m.dev.content, m.mem)

end Card

/-! ### Requests on the driver -/

namespace IoRequest

variable {q : IoRequest} {card : Card} {n buffer : Nat}

/-- A request that moves blocks passes the checks of the entry points. -/
theorem moves_eq_some (h : q.moves card = some (n, buffer)) :
    q.bufferSize % card.media.blockSize = 0#32 ∧ q.buffer = some buffer ∧ q.bufferSize ≠ 0#32 ∧
      n = (q.bufferSize / card.media.blockSize).toNat := by
  unfold moves at h
  split at h
  · cases h
  · rename_i hmod
    split at h
    · cases h
    · rename_i b hb
      split at h
      · cases h
      · rename_i hsize
        cases h
        exact ⟨not_not.mp hmod, hb, hsize, rfl⟩

/-- The shared body of the entry points on it. -/
theorem mmchsTransfer_of_moves {σ : Type} (h : q.moves card = some (n, buffer))
    (device : U32 → U32 → Nat → Prog σ U32) :
    ∃ blkcnt : U32, blkcnt.toNat = n ∧
      mmchsTransfer device card.media q.lba q.bufferSize q.buffer = do
        let ret ← device (q.lba.setWidth 32) blkcnt buffer
        return if ret ≠ 0#32 then .success else .deviceError := by
  obtain ⟨hmod, hbuffer, hsize, hn⟩ := moves_eq_some h
  refine ⟨q.bufferSize / card.media.blockSize, hn.symm, ?_⟩
  simp only [mmchsTransfer, hbuffer, hmod, ne_eq, not_true_eq_false, if_false, if_neg hsize]

/-- On any other request it returns at once. -/
theorem mmchsTransfer_of_moves_none {σ : Type} (h : q.moves card = none)
    (device : U32 → U32 → Nat → Prog σ U32) :
    ∃ status, mmchsTransfer device card.media q.lba q.bufferSize q.buffer = pure status := by
  unfold moves at h
  unfold mmchsTransfer
  by_cases hmod : q.bufferSize % card.media.blockSize = 0#32
  · rw [if_neg (not_not.mpr hmod)] at h ⊢
    cases hb : q.buffer with
    | none => exact ⟨.invalidParameter, rfl⟩
    | some buffer =>
      by_cases hsize : q.bufferSize = 0#32
      · exact ⟨.success, if_pos hsize⟩
      · simp [hb, hsize] at h
  · exact ⟨.badBufferSize, if_pos hmod⟩

end IoRequest

/-- The status for a count of `j` blocks, when between `j` and `j + 1` blocks have been moved. -/
theorem tells_of_count {unit j k : Nat} {ret : U32} (hj : j < 2 ^ 32)
    (hret : ret = 0#32 + BitVec.ofNat 32 j) (hle : unit * j ≤ k) (hge : k ≤ unit * (j + 1)) :
    Tells (some (if ret ≠ 0#32 then .success else .deviceError)) unit k := by
  have hnat : ret.toNat = j := by
    rw [hret, BitVec.zero_add, BitVec.toNat_ofNat, Nat.mod_eq_of_lt hj]
  by_cases hzero : ret = 0#32
  · -- the first block failed
    have hj0 : j = 0 := by rw [← hnat, hzero]; rfl
    subst hj0
    simpa [hzero, Tells] using hge
  · have hpos : 1 ≤ j := by
      rcases Nat.eq_zero_or_pos j with h | h
      · exact absurd (BitVec.eq_of_toNat_eq (hnat.trans h) : ret = 0#32) hzero
      · exact h
    have hunit : unit * 1 ≤ unit * j := Nat.mul_le_mul_left unit hpos
    simp only [ne_eq, hzero, not_false_eq_true, if_true, Tells]
    omega

/-- What a request leaves, from what the loop over its blocks leaves: for some `j` at most, `j`
    blocks are counted, and between `j` and `j + 1` have been moved. -/
theorem request_outcomes {σ : Type} {x : Prog σ U32} {P : σ → Prop} {Moved : Nat → σ → Prop}
    {unit n : Nat} (hn : n < 2 ^ 32)
    (hx : Outcomes P x fun r s => ∃ j k, j ≤ n ∧ unit * j ≤ k ∧ k ≤ unit * (j + 1) ∧
      k ≤ unit * n ∧ Moved k s ∧ ∀ ret, r = some ret → ret = 0#32 + BitVec.ofNat 32 j) :
    Outcomes P (do
      let ret ← x
      return if ret ≠ 0#32 then EfiStatus.success else .deviceError)
      fun r s => ∃ k ≤ unit * n, Tells r unit k ∧ Moved k s := by
  refine Outcomes.bind hx (fun ret => Outcomes.pure fun s h => ?_) fun s h => ?_
  · obtain ⟨j, k, hj, hle, hge, hkn, hmoved, hret⟩ := h
    exact ⟨k, hkn, tells_of_count (by omega) (hret ret rfl) hle hge, hmoved⟩
  · obtain ⟨j, k, -, -, -, hkn, hmoved, -⟩ := h
    exact ⟨k, hkn, trivial, hmoved⟩

/-- A read of consecutive blocks. -/
theorem readAll_outcomes (card : Card) (u : Setup) (q : IoRequest) (m : Machine Sdcc)
    (n buffer : Nat) :
    Outcomes (· = m)
      (transferAll (cardTransfers card.highCapacity u.fuel u.rca u.dm).readABlock n
        (q.lba.setWidth 32) buffer 0#32)
      fun r s => ∃ j k, j ≤ n ∧ 512 * j ≤ k ∧ k ≤ 512 * (j + 1) ∧ k ≤ 512 * n ∧
        (s.dev.content = m.dev.content ∧
          s.mem = Memory.blit buffer k (q.byteOn card (diskOf m.dev.content)) m.mem) ∧
        ∀ ret, r = some ret → ret = 0#32 + BitVec.ofNat 32 j := by
  let f := q.byteOn card (diskOf m.dev.content)
  let Moved (k : Nat) (s : Machine Sdcc) : Prop :=
    s.dev.content = m.dev.content ∧ s.mem = Memory.blit buffer k f m.mem
  let Failed (j : Nat) (s : Machine Sdcc) : Prop :=
    ∃ k, 512 * j ≤ k ∧ k ≤ 512 * (j + 1) ∧ Moved k s
  have hstep : ∀ j, j < n → Outcomes (fun s => Moved (512 * j) s)
      ((cardTransfers card.highCapacity u.fuel u.rca u.dm).readABlock
        (q.lba.setWidth 32 + BitVec.ofNat 32 j) (buffer + blockSize * j))
      (fun r s => if r = some true then Moved (512 * (j + 1)) s else Failed j s) := by
    rintro j - s ⟨hcontent, hmem⟩
    obtain ⟨i, ⟨hi, hc, hm⟩, hall⟩ := readABlock_outcomes card.highCapacity u.fuel
      (q.lba.setWidth 32 + BitVec.ofNat 32 j) s.dev.content s.mem s.dev.log
      (buffer + blockSize * j) s ⟨rfl, rfl, rfl⟩
    -- the words read are the next bytes of the blocks
    have hbytes : ∀ t, t < 4 * i → s.dev.content (byteAddress card.highCapacity
        (commandAddress card.highCapacity (q.lba.setWidth 32 + BitVec.ofNat 32 j)) + t)
          = f (512 * j + t) := by
      intro t ht
      have hdiv : (512 * j + t) / 512 = j := by omega
      have hmod : (512 * j + t) % 512 = t := by omega
      rw [q.byteAddress_eq, hcontent]
      simp only [f, IoRequest.byteOn, hdiv, hmod, diskOf_byte]
    have hmoved : Moved (512 * j + 4 * i) _ :=
      ⟨hc.trans hcontent, by
        rw [hm, hmem, Memory.blit_congr _ hbytes]
        exact Memory.blit_append buffer (512 * j) (4 * i) f m.mem⟩
    split
    · rename_i hr
      obtain rfl := hall hr
      exact hmoved
    · exact ⟨512 * j + 4 * i, by omega, by omega, hmoved⟩
  have hrun := transferAll_outcomes (fun j s => Moved (512 * j) s) Failed n (q.lba.setWidth 32)
    buffer 0#32 hstep
  refine hrun.mono ?_ fun r s h => ?_
  · rintro s rfl
    exact ⟨rfl, by rw [Nat.mul_zero, Memory.blit_zero]⟩
  · rcases h with ⟨hr, hs⟩ | ⟨j, hj, ⟨k, hle, hge, hs⟩, hr⟩
    · refine ⟨n, 512 * n, le_rfl, le_rfl, by omega, le_rfl, hs, fun ret hret => ?_⟩
      rw [hr] at hret
      exact (Option.some.inj hret).symm
    · exact ⟨j, k, by omega, hle, hge, by omega, hs, hr⟩

/-- A write of consecutive blocks. -/
theorem writeAll_outcomes (card : Card) (u : Setup) (q : IoRequest) (m : Machine Sdcc)
    (n buffer : Nat) :
    Outcomes (· = m)
      (transferAll (cardTransfers card.highCapacity u.fuel u.rca u.dm).writeABlock n
        (q.lba.setWidth 32) buffer 0#32)
      fun r s => ∃ j k, j ≤ n ∧ 1 * j ≤ k ∧ k ≤ 1 * (j + 1) ∧ k ≤ 1 * n ∧
        (diskOf s.dev.content
            = storeAll ((q.stores card m.mem n buffer).take k) (diskOf m.dev.content) ∧
          s.mem = m.mem) ∧
        ∀ ret, r = some ret → ret = 0#32 + BitVec.ofNat 32 j := by
  let Moved (k : Nat) (s : Machine Sdcc) : Prop :=
    diskOf s.dev.content
      = storeAll ((q.stores card m.mem n buffer).take k) (diskOf m.dev.content) ∧ s.mem = m.mem
  have hstep : ∀ j, j < n → Outcomes (Moved j)
      ((cardTransfers card.highCapacity u.fuel u.rca u.dm).writeABlock
        (q.lba.setWidth 32 + BitVec.ofNat 32 j) (buffer + blockSize * j))
      (fun r s => if r = some true then Moved (j + 1) s else Moved j s ∨ Moved (j + 1) s) := by
    rintro j hj s ⟨hdisk, hmem⟩
    obtain ⟨stored, ⟨hm, hc⟩, hall⟩ := writeABlock_outcomes card.highCapacity u.fuel
      (q.lba.setWidth 32 + BitVec.ofNat 32 j) u.rca s.dev.content s.mem s.dev.log
      (buffer + blockSize * j) s ⟨rfl, rfl, rfl⟩
    have hlen : j < (q.stores card m.mem n buffer).length := by simpa [IoRequest.stores] using hj
    have hmoved : Moved (if stored then j + 1 else j)
        (writeABlock (sdcc card.highCapacity) u.fuel card.highCapacity
          (q.lba.setWidth 32 + BitVec.ofNat 32 j) (buffer + blockSize * j) u.rca s).2 := by
      refine ⟨?_, hm.trans hmem⟩
      rw [hc]
      cases stored with
      | false => exact hdisk
      | true =>
        -- one more sector has been stored
        simp only [if_true]
        rw [q.byteAddress_eq, diskOf_blit, hdisk, hmem, ← storeAll_append,
          List.take_add_one, List.getElem?_eq_getElem hlen, Option.toList_some]
        simp [IoRequest.stores]
    split
    · rename_i hr
      rwa [hall hr] at hmoved
    · cases stored with
      | false => exact Or.inl hmoved
      | true => exact Or.inr hmoved
  have hrun := transferAll_outcomes Moved (fun j s => Moved j s ∨ Moved (j + 1) s) n
    (q.lba.setWidth 32) buffer 0#32 hstep
  refine hrun.mono ?_ fun r s h => ?_
  · rintro s rfl
    exact ⟨by simp, rfl⟩
  · rcases h with ⟨hr, hs⟩ | ⟨j, hj, hs | hs, hr⟩
    · refine ⟨n, n, le_rfl, by omega, by omega, by omega, hs, fun ret hret => ?_⟩
      rw [hr] at hret
      exact (Option.some.inj hret).symm
    · exact ⟨j, j, by omega, by omega, by omega, by omega, hs, hr⟩
    · exact ⟨j, j + 1, by omega, by omega, by omega, by omega, hs, hr⟩

namespace Card

variable (card : Card) (u : Setup)

/-- **Step lemma.**  What the driver does with an event is a step of the disk. -/
theorem perform_refines (e : IoEvent) (m : Machine Sdcc) :
    Disk.Step card e (card.perform u e m).1 (view m) (view (card.perform u e m).2) := by
  cases e with
  | memory mem => exact ⟨rfl, rfl⟩
  | read q =>
    unfold Disk.Step
    dsimp only [perform, mmchsReadBlocks]
    split
    · rename_i hmoves
      obtain ⟨status, hstatus⟩ := IoRequest.mmchsTransfer_of_moves_none hmoves
        (mmcBread (cardTransfers card.highCapacity u.fuel u.rca u.dm))
      rw [hstatus]
      exact ⟨rfl, rfl⟩
    · rename_i n buffer hmoves
      obtain ⟨blkcnt, rfl, hrun⟩ := IoRequest.mmchsTransfer_of_moves hmoves
        (mmcBread (cardTransfers card.highCapacity u.fuel u.rca u.dm))
      rw [hrun, mmcBread_eq]
      obtain ⟨k, hk, htells, hcontent, hmem⟩ := request_outcomes blkcnt.isLt
        (readAll_outcomes card u q m blkcnt.toNat buffer) m rfl
      exact ⟨k, hk, htells, Prod.ext (congrArg diskOf hcontent) hmem⟩
  | write q =>
    unfold Disk.Step
    dsimp only [perform, mmchsWriteBlocks]
    split
    · rename_i hmoves
      obtain ⟨status, hstatus⟩ := IoRequest.mmchsTransfer_of_moves_none hmoves
        (mmcBwrite (cardTransfers card.highCapacity u.fuel u.rca u.dm))
      rw [hstatus]
      exact ⟨rfl, rfl⟩
    · rename_i n buffer hmoves
      obtain ⟨blkcnt, rfl, hrun⟩ := IoRequest.mmchsTransfer_of_moves hmoves
        (mmcBwrite (cardTransfers card.highCapacity u.fuel u.rca u.dm))
      rw [hrun, mmcBwrite_eq]
      obtain ⟨k, hk, htells, hdisk, hmem⟩ := request_outcomes blkcnt.isLt
        (writeAll_outcomes card u q m blkcnt.toNat buffer) m rfl
      exact ⟨k, by omega, htells, Prod.ext hdisk hmem⟩

/-- **Refinement.**  Whatever the polls show, and whichever transfers fail or do not end, a run of
    the driver is a run of the disk: every request stores whole sectors only, a first part of those
    it names, or reads a first part of their bytes, and its status tells of its first block. -/
theorem run_refines (events : List IoEvent) (m : Machine Sdcc) :
    Disk.Run card events (card.run u events m).1 (view m) (view (card.run u events m).2) := by
  induction events generalizing m with
  | nil => exact .done _
  | cons e events ih =>
    have hstep := card.perform_refines u e m
    unfold run
    rcases hperform : card.perform u e m with ⟨_ | status, m'⟩
    · rw [hperform] at hstep
      exact .hangs hstep
    · rw [hperform] at hstep
      exact .next hstep (ih m')

end Card

end HtcLeo.SdCard

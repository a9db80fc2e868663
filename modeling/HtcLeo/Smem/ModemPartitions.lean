import HtcLeo.Smem.Strtok
import HtcLeo.Uefi

namespace HtcLeo.Smem

/-!
# SmemPtableDxe — the modem partitions

`smem_add_modem_partitions` of `Drivers/SmemPtableDxe/smem_ptable.c`, which adds the partitions of
`smem_ptable` to a flash partition table, each under the last part of its name.

* `Ptable`, `ptableAdd` — the flash partition table; `smemAddModemPartitions` — a call.
* `Table` — what is left of `smem_ptable` after any number of calls: names that may be settled,
  and everything else as it was.
* `smemAddModemPartitions_appended` — what a call appends, and what it leaves of the names.
* `eachCallAppends_iff` — calls append the same entries, the right ones, exactly when the first
  segment of each name is its last.
-/

/-! ### The tables -/

/-- `struct ptentry`; the name is the string in its 16 characters. -/
structure PtEntry where
  name : List Byte
  start : U32
  length : U32
  flags : U32
  type : Byte
  perm : Byte
  deriving DecidableEq, Repr

/-- `struct ptable`: the first `count` of its `MAX_PTABLE_PARTS` entries. -/
structure Ptable where
  parts : List PtEntry
  count_le : parts.length ≤ 32

/-- The memory from `smem_ptable` on, with the state of `strtok`, and the flash table. -/
structure World where
  strings : Strings
  flash : Ptable

/-- The memory from `smem_ptable` on. -/
abbrev World.mem (w : World) : Memory := w.strings.mem

/-- `smem_ptable.parts[i].name`: entries of 28 bytes behind a header of 16. -/
def nameAt (i : Nat) : Nat := 16 + 28 * i

/-- `smem_ptable.len`. -/
def tableLen (m : Memory) : Nat := (m.load32 12).toNat

/-- `_SMEM_PTABLE_MAGIC_1`. -/
def smemPtableMagic1 : U32 := 0x55EE73AA
/-- `_SMEM_PTABLE_MAGIC_2`. -/
def smemPtableMagic2 : U32 := 0xE35EBDDB

/-! ### The functions -/

/-- `strlcpy`, as in BSD: the characters that it copies, `siz - 1` at most. -/
def strlcpy (m : Memory) (src siz : Nat) : List Byte :=
  ((List.range (siz - 1)).map fun i => m (src + i)).takeWhile (· ≠ 0)

/-- One entry more; a full table fails the assertion. -/
def Ptable.add (flash : Ptable) (ptn : PtEntry) : Option Ptable :=
  if h : flash.parts.length < 32 then
    some ⟨flash.parts ++ [ptn], by rw [List.length_append]; exact h⟩
  else none

/-- `ptable_add`. -/
def ptableAdd (name : Nat) (start length flags : U32) (type perm : Byte) : Prog World Unit :=
  fun w =>
    match w.flash.add ⟨strlcpy w.mem name 16, start, length, flags, type, perm⟩ with
    | some flash => (some (), { w with flash := flash })
    | none       => (none, w)

/-- `":"`. -/
def colon : List Byte := [0x3A]
/-- `TYPE_MODEM_PARTITION`. -/
def typeModemPartition : Byte := 1
/-- `PERM_WRITEABLE`. -/
def permWriteable : Byte := 1

/-- A word of `smem_ptable`. -/
def loadWord (a : Nat) : Prog World U32 := Prog.query fun w => (w.mem.load32 a, w)

/-- The loop body of `smem_add_modem_partitions`. -/
def addModemPartition (fuel i : Nat) : Prog World Unit := do
  let first ← Prog.query fun w => (w.mem (nameAt i), w)
  if first = 0 then return ()
  let pname ← Prog.zoom World.strings (fun strings w => { w with strings := strings })
    (lastToken fuel colon (nameAt i))
  match pname with
  | none => return ()
  | some pname =>
      let start ← loadWord (nameAt i + 16)
      let size ← loadWord (nameAt i + 20)
      ptableAdd pname start size 0 typeModemPartition permWriteable

/-- `for (i = 0; i < smem_ptable.len; i++)`, from `i` on. -/
def addPartitionsFrom (fuel n i : Nat) : Prog World Unit :=
  Prog.loop (fun i => do
    let len ← loadWord 12
    if i < len.toNat then
      addModemPartition fuel i
      pure (.inl (i + 1))
    else pure (.inr ())) n i

/-- `smem_add_modem_partitions`. -/
def smemAddModemPartitions (fuel : Nat) : Prog World Unit := do
  let magic1 ← loadWord 0
  let magic2 ← loadWord 4
  if magic1 ≠ smemPtableMagic1 ∨ magic2 ≠ smemPtableMagic2 then return ()
  addPartitionsFrom fuel fuel 0

/-! ### Names -/

/-- The last segment of a name, cut to 15 characters. -/
def lastName (s : List Byte) : Option (List Byte) :=
  (segments (isDelim colon) s).getLast?.map (List.take 15)

/-- The first segment of a name, cut to 15 characters. -/
def firstName (s : List Byte) : Option (List Byte) :=
  (segments (isDelim colon) s).head?.map (List.take 15)

/-- The name in the 16 characters of an entry. -/
def nameField (m : Memory) (i : Nat) : List Byte :=
  ((List.range 16).map fun k => m (nameAt i + k)).takeWhile (· ≠ 0)

/-- The modem partition for entry `i`, under a name. -/
def modemPartition (m : Memory) (i : Nat) (name : List Byte) : PtEntry where
  name := name
  start := m.load32 (nameAt i + 16)
  length := m.load32 (nameAt i + 20)
  flags := 0
  type := typeModemPartition
  perm := permWriteable

/-- The modem partitions for the entries that have a name. -/
def modemPartitions (m : Memory) (names : Nat → Option (List Byte)) (is : List Nat) :
    List PtEntry :=
  is.filterMap fun i => (names i).map (modemPartition m i)

/-- What a call is to append: the last segment of each name field, if it has one. -/
def expected (m : Memory) : List PtEntry :=
  modemPartitions m (fun i => lastName (nameField m i)) (List.range (tableLen m))

/-- A name has a last segment exactly when it has a character other than a colon. -/
theorem lastName_isSome_iff {s : List Byte} : (lastName s).isSome ↔ ∃ b ∈ s, b ≠ 0x3A := by
  rw [lastName, Option.isSome_map, List.getLast?_isSome, ne_eq, segments_eq_nil_iff]
  simp [isDelim, colon]

theorem firstName_isSome_iff {s : List Byte} : (firstName s).isSome ↔ ∃ b ∈ s, b ≠ 0x3A := by
  rw [firstName, Option.isSome_map, List.isSome_head?, ne_eq, segments_eq_nil_iff]
  simp [isDelim, colon]

/-! ### The table between calls -/

/-- `smem_ptable` with the names `cur`, and otherwise as in `m₀`: no colon behind a name field ends
    a segment, and the loops have enough iterations for the names. -/
structure Table (fuel : Nat) (m₀ : Memory) (cur : Nat → List Byte) (m : Memory) : Prop where
  holds : ∀ i < tableLen m₀, HoldsString m (nameAt i) (cur i)
  inField : ∀ i < tableLen m₀, ∀ k, EndsAt (isDelim colon) (cur i) k → k + 1 < 16
  short : ∀ i < tableLen m₀, (cur i).length + 1 < fuel
  other : ∀ x, (∀ i < tableLen m₀, x < nameAt i ∨ nameAt i + 16 ≤ x) → m x = m₀ x

variable {fuel i : Nat} {m₀ m m' : Memory} {cur : Nat → List Byte} {r : Option Nat}

/-- Words outside the name fields are as they were. -/
theorem Table.load32 (h : Table fuel m₀ cur m) {a : Nat}
    (ha : ∀ i < tableLen m₀, ∀ k < 4, a + k < nameAt i ∨ nameAt i + 16 ≤ a + k) :
    m.load32 a = m₀.load32 a :=
  Memory.load32_congr fun k hk => h.other (a + k) fun i hi => ha i hi k hk

theorem Table.header (h : Table fuel m₀ cur m) {a : Nat} (ha : a ≤ 12) :
    m.load32 a = m₀.load32 a := by
  refine h.load32 fun i _ k hk => Or.inl ?_
  unfold nameAt
  omega

theorem Table.len (h : Table fuel m₀ cur m) : tableLen m = tableLen m₀ :=
  congrArg BitVec.toNat (h.header (Nat.le_refl 12))

theorem Table.numbers (h : Table fuel m₀ cur m) (i : Nat) :
    m.load32 (nameAt i + 16) = m₀.load32 (nameAt i + 16) ∧
      m.load32 (nameAt i + 20) = m₀.load32 (nameAt i + 20) := by
  constructor
  · refine h.load32 fun j _ k hk => ?_
    unfold nameAt
    omega
  · refine h.load32 fun j _ k hk => ?_
    unfold nameAt
    omega

/-- Where a segment ends in a string, it ends in every other that goes on over it. -/
theorem endsAt_overlap {d : Byte → Bool} {a a' k : Nat} {s s' : List Byte}
    (hs : HoldsString m a s) (hs' : HoldsString m a' s') (h : EndsAt d s k) (hlo : a' ≤ a + k)
    (hhi : a + (k + 1) ≤ a' + s'.length) : EndsAt d s' (a + k - a') := by
  obtain ⟨⟨b, hb, hdb⟩, c, hc, hdc⟩ := h
  have hk : k + 1 < s.length := (List.getElem?_eq_some_iff.mp hc).1
  have hb' := (hs.getElem?_eq_some_iff (by omega)).mp hb
  have hc' := (hs.getElem?_eq_some_iff (by omega)).mp hc
  refine ⟨⟨b, (hs'.getElem?_eq_some_iff (by omega)).mpr ?_, hdb⟩, c,
    (hs'.getElem?_eq_some_iff (by omega)).mpr ?_, hdc⟩
  · rwa [Nat.add_sub_cancel' hlo]
  · have hat : a' + (a + k - a' + 1) = a + (k + 1) := by omega
    rwa [hat]

/-- Splitting one name leaves it settled, and the other names as they are. -/
theorem Table.split (h : Table fuel m₀ cur m) (hi : i < tableLen m₀)
    (ht : Tokenized colon m m' (nameAt i) (cur i) none r) :
    Table fuel m₀ (Function.update cur i (settled (isDelim colon) (cur i))) m' := by
  have hchanged : ∀ x, m' x ≠ m x → ∃ k, x = nameAt i + (k + 1) ∧ k + 1 < 16 ∧
      EndsAt (isDelim colon) (cur i) k := by
    intro x hx
    obtain ⟨k, hk, hends⟩ := ht.changed x hx
    exact ⟨k, hk, h.inField i hi k hends, hends⟩
  refine ⟨?_, ?_, ?_, fun x hx => ?_⟩
  · refine (Function.forall_update_iff cur fun j name =>
      j < tableLen m₀ → HoldsString m' (nameAt j) name).mpr ⟨fun _ => ht.settled, ?_⟩
    intro j hji hj
    refine (h.holds j hj).congr fun x hlo hhi => ?_
    -- a colon of name `i` that name `j` goes on over would be one behind its field
    by_contra hne
    obtain ⟨k, rfl, hk, hends⟩ := hchanged x hne
    unfold nameAt at hlo hhi
    have hover := endsAt_overlap (h.holds i hi) (h.holds j hj) hends
      (by unfold nameAt; omega) (by unfold nameAt; omega)
    have hin := h.inField j hj _ hover
    unfold nameAt at hin
    omega
  · refine (Function.forall_update_iff cur fun j name =>
      j < tableLen m₀ → ∀ k, EndsAt (isDelim colon) name k → k + 1 < 16).mpr ⟨fun _ k hk => ?_, ?_⟩
    · exact absurd hk (not_endsAt_settled _ k)
    · exact fun j _ hj => h.inField j hj
  · refine (Function.forall_update_iff cur fun j name =>
      j < tableLen m₀ → name.length + 1 < fuel).mpr ⟨fun _ => ?_, ?_⟩
    · exact Nat.lt_of_le_of_lt (Nat.succ_le_succ (settled_length_le _)) (h.short i hi)
    · exact fun j _ hj => h.short j hj
  · rw [← h.other x hx]
    by_contra hne
    obtain ⟨k, rfl, hk, -⟩ := hchanged x hne
    have hout := hx i hi
    omega

/-! ### What a call appends -/

/-- The entries `l` have been appended and the memory is in `T`, or there is no room for them. -/
def Appended (T : Memory → Prop) (l : List PtEntry) (w : World) (r : Option Unit × World) : Prop :=
  (∃ w', r = (some (), w') ∧ T w'.mem ∧ w'.flash.parts = w.flash.parts ++ l) ∨
    (r.1 = none ∧ 32 < w.flash.parts.length + l.length)

variable {T T' : Memory → Prop} {l l' : List PtEntry} {w w' : World}

theorem Appended.bind {x : Prog World Unit} {f : Unit → Prog World Unit}
    (hx : Appended T l w (x w))
    (hf : ∀ w', T w'.mem → Appended T' l' w' (f () w')) :
    Appended T' (l ++ l') w ((x >>= f) w) := by
  rw [Prog.bind_apply]
  rcases hx with ⟨w', hrun, hT, hparts⟩ | ⟨hrun, hroom⟩
  · rw [hrun]
    rcases hf w' hT with ⟨w'', hrun', hT', hparts'⟩ | ⟨hrun', hroom'⟩
    · refine Or.inl ⟨w'', hrun', hT', ?_⟩
      rw [hparts', hparts, List.append_assoc]
    · refine Or.inr ⟨hrun', ?_⟩
      rw [hparts, List.length_append] at hroom'
      rw [List.length_append]
      omega
  · rcases hxw : x w with ⟨r, w'⟩
    rw [hxw] at hrun
    obtain rfl : r = none := hrun
    refine Or.inr ⟨rfl, ?_⟩
    rw [List.length_append]
    omega

/-- Where there is room the entries are appended. -/
theorem Appended.of_room {r : Option Unit × World} (h : Appended T l w r)
    (hroom : w.flash.parts.length + l.length ≤ 32) :
    ∃ w', r = (some (), w') ∧ T w'.mem ∧ w'.flash.parts = w.flash.parts ++ l := by
  rcases h with h | ⟨-, hfull⟩
  · exact h
  · omega

/-- Where there is a result the entries are appended. -/
theorem Appended.of_result {x : Prog World Unit} (h : Appended T l w (x w))
    (hrun : x w = (some (), w')) : T w'.mem ∧ w'.flash.parts = w.flash.parts ++ l := by
  rw [hrun] at h
  rcases h with ⟨w'', heq, h⟩ | ⟨hnone, -⟩
  · obtain rfl := congrArg Prod.snd heq
    exact h
  · exact absurd hnone (Option.some_ne_none ())

theorem ptableAdd_appended {a : Nat} {name : List Byte} (start length flags : U32)
    (type perm : Byte) (hname : HoldsString w.mem a name) (hT : T w.mem) :
    Appended T [⟨name.take 15, start, length, flags, type, perm⟩] w
      (ptableAdd a start length flags type perm w) := by
  unfold ptableAdd Ptable.add strlcpy
  rw [hname.takeWhile_range]
  by_cases hroom : w.flash.parts.length < 32
  · rw [dif_pos hroom]
    exact Or.inl ⟨_, rfl, hT, rfl⟩
  · rw [dif_neg hroom]
    refine Or.inr ⟨rfl, ?_⟩
    rw [List.length_singleton]
    omega

/-! One entry of `smem_ptable`, for what the tokenizer has found. -/

theorem addModemPartition_empty (hfirst : w.mem (nameAt i) = 0) :
    addModemPartition fuel i w = (some (), w) :=
  Prog.bind_of rfl (by rw [if_pos hfirst]; rfl)

theorem addModemPartition_none {strings : Strings} (hfirst : w.mem (nameAt i) ≠ 0)
    (hrun : lastToken fuel colon (nameAt i) w.strings = (some none, strings)) :
    addModemPartition fuel i w = (some (), { w with strings := strings }) := by
  refine Prog.bind_of rfl ?_
  rw [if_neg hfirst]
  exact Prog.bind_of (Prog.zoom_of hrun) rfl

theorem addModemPartition_some {strings : Strings} {pname : Nat} (hfirst : w.mem (nameAt i) ≠ 0)
    (hrun : lastToken fuel colon (nameAt i) w.strings = (some (some pname), strings)) :
    addModemPartition fuel i w =
      ptableAdd pname (strings.mem.load32 (nameAt i + 16)) (strings.mem.load32 (nameAt i + 20)) 0
        typeModemPartition permWriteable { w with strings := strings } := by
  refine Prog.bind_of rfl ?_
  rw [if_neg hfirst]
  exact Prog.bind_of (Prog.zoom_of hrun) rfl

/-- One entry of `smem_ptable`. -/
theorem addModemPartition_appended (h : Table fuel m₀ cur w.mem) (hi : i < tableLen m₀) :
    Appended (Table fuel m₀ (Function.update cur i (settled (isDelim colon) (cur i))))
      (modemPartitions m₀ (fun i => lastName (cur i)) [i]) w (addModemPartition fuel i w) := by
  have hname := h.holds i hi
  by_cases hfirst : w.mem (nameAt i) = 0
  · -- an empty name
    have hnil : cur i = [] := hname.first_eq_zero_iff.mp hfirst
    have hsame : Function.update cur i (settled (isDelim colon) (cur i)) = cur := by
      rw [hnil]
      exact (congrArg _ hnil.symm).trans (Function.update_eq_self i cur)
    have hnone : modemPartitions m₀ (fun i => lastName (cur i)) [i] = [] := by
      rw [modemPartitions, List.filterMap_cons_none, List.filterMap_nil]
      rw [hnil]
      rfl
    rw [hsame, hnone]
    exact Or.inl ⟨w, addModemPartition_empty hfirst, h, (List.append_nil _).symm⟩
  · have hnul : 0 ∉ colon := by decide
    obtain ⟨r, m', hrun, ht⟩ := lastToken_spec hnul hname (h.short i hi)
    have hnext := h.split hi ht
    cases hlast : (segments (isDelim colon) (cur i)).getLast? with
    | none =>
      obtain rfl := ht.none (List.getLast?_eq_none_iff.mp hlast)
      have hnone : modemPartitions m₀ (fun i => lastName (cur i)) [i] = [] := by
        simp [modemPartitions, lastName, hlast]
      rw [hnone]
      exact Or.inl ⟨_, addModemPartition_none hfirst hrun, hnext, (List.append_nil _).symm⟩
    | some tok =>
      obtain ⟨p, rfl, htok⟩ := ht.last tok hlast
      have hone : modemPartitions m₀ (fun i => lastName (cur i)) [i] =
          [modemPartition m₀ i (tok.take 15)] := by
        simp [modemPartitions, lastName, hlast]
      obtain ⟨hstart, hsize⟩ := hnext.numbers i
      rw [hone, modemPartition, ← hstart, ← hsize, addModemPartition_some hfirst hrun]
      exact ptableAdd_appended (w := ⟨⟨m', none⟩, w.flash⟩) _ _ _ _ _ htok hnext

/-! ### One call -/

/-- The names `cur`, those below `i` settled. -/
def settledBelow (cur : Nat → List Byte) (i j : Nat) : List Byte :=
  if j < i then settled (isDelim colon) (cur j) else cur j

theorem settledBelow_succ (cur : Nat → List Byte) (i : Nat) :
    Function.update (settledBelow cur i) i (settled (isDelim colon) (settledBelow cur i i)) =
      settledBelow cur (i + 1) := by
  funext j
  by_cases hj : j = i
  · subst hj
    simp [settledBelow]
  · have hlt : j < i + 1 ↔ j < i := by omega
    simp [settledBelow, hj, hlt]

theorem Table.congr (h : Table fuel m₀ cur m) {cur' : Nat → List Byte}
    (heq : ∀ i < tableLen m₀, cur' i = cur i) : Table fuel m₀ cur' m := by
  refine ⟨fun i hi => ?_, fun i hi => ?_, fun i hi => ?_, h.other⟩
  · rw [heq i hi]
    exact h.holds i hi
  · rw [heq i hi]
    exact h.inField i hi
  · rw [heq i hi]
    exact h.short i hi

theorem modemPartitions_cons (m : Memory) (names : Nat → Option (List Byte)) (i : Nat)
    (is : List Nat) : modemPartitions m names (i :: is) =
      modemPartitions m names [i] ++ modemPartitions m names is := by
  rw [← List.singleton_append, modemPartitions, List.filterMap_append]
  rfl

theorem modemPartitions_congr {m : Memory} {names names' : Nat → Option (List Byte)}
    {is : List Nat} (h : ∀ i ∈ is, names i = names' i) :
    modemPartitions m names is = modemPartitions m names' is :=
  List.filterMap_congr fun i hi => by rw [h i hi]

/-- One iteration. -/
theorem addPartitionsFrom_succ (n : Nat) (hi : i < tableLen w.mem) :
    addPartitionsFrom fuel (n + 1) i w =
      (addModemPartition fuel i >>= fun _ => addPartitionsFrom fuel n (i + 1)) w := by
  show ((if i < tableLen w.mem then addModemPartition fuel i >>= fun _ => pure (Sum.inl (i + 1))
    else pure (Sum.inr ()) : Prog World (Nat ⊕ Unit)) >>= _) w = _
  rw [if_pos hi, bind_assoc]
  rfl

theorem addPartitionsFrom_end (n : Nat) (hi : ¬ i < tableLen w.mem) :
    addPartitionsFrom fuel (n + 1) i w = (some (), w) := by
  show ((if i < tableLen w.mem then addModemPartition fuel i >>= fun _ => pure (Sum.inl (i + 1))
    else pure (Sum.inr ()) : Prog World (Nat ⊕ Unit)) >>= _) w = _
  rw [if_neg hi]
  rfl

/-- **The loop**, over the last `left` entries. -/
theorem addPartitionsFrom_appended {left n : Nat} (hi : i + left = tableLen m₀) (hn : left < n)
    (h : Table fuel m₀ (settledBelow cur i) w.mem) :
    Appended (Table fuel m₀ (settledBelow cur (tableLen m₀)))
      (modemPartitions m₀ (fun i => lastName (cur i)) (List.range' i left)) w
      (addPartitionsFrom fuel n i w) := by
  -- by induction on the entries left; those before are settled already
  induction left generalizing i n w with
  | zero =>
    obtain ⟨n, rfl⟩ : ∃ k, n = k + 1 := ⟨n - 1, by omega⟩
    obtain rfl : i = tableLen m₀ := hi
    have hend : ¬ tableLen m₀ < tableLen w.mem := by
      rw [h.len]
      exact Nat.lt_irrefl _
    exact Or.inl ⟨w, addPartitionsFrom_end n hend, h, (List.append_nil _).symm⟩
  | succ left ih =>
    obtain ⟨n, rfl⟩ : ∃ k, n = k + 1 := ⟨n - 1, by omega⟩
    have hlt : i < tableLen w.mem := by
      rw [h.len]
      omega
    rw [addPartitionsFrom_succ n hlt, List.range'_succ, modemPartitions_cons]
    have hcur : settledBelow cur i i = cur i := if_neg (Nat.lt_irrefl i)
    have hentry := addModemPartition_appended h (by omega : i < tableLen m₀)
    rw [settledBelow_succ] at hentry
    have hsame : modemPartitions m₀ (fun j => lastName (settledBelow cur i j)) [i] =
        modemPartitions m₀ (fun j => lastName (cur j)) [i] := by
      apply modemPartitions_congr
      simp [hcur]
    rw [hsame] at hentry
    exact hentry.bind fun w' h' => ih (by omega) (by omega) h'

/-- **A call** appends the last segment of each name as it is, and leaves the names settled. -/
theorem smemAddModemPartitions_appended (h : Table fuel m₀ cur w.mem)
    (hmagic1 : m₀.load32 0 = smemPtableMagic1) (hmagic2 : m₀.load32 4 = smemPtableMagic2)
    (hfuel : tableLen m₀ < fuel) :
    Appended (Table fuel m₀ fun i => settled (isDelim colon) (cur i))
      (modemPartitions m₀ (fun i => lastName (cur i)) (List.range (tableLen m₀))) w
      (smemAddModemPartitions fuel w) := by
  have hmagic : ¬ (w.mem.load32 0 ≠ smemPtableMagic1 ∨ w.mem.load32 4 ≠ smemPtableMagic2) := by
    rw [h.header (Nat.zero_le 12), h.header (by omega : 4 ≤ 12)]
    exact not_or.mpr ⟨not_not.mpr hmagic1, not_not.mpr hmagic2⟩
  have hrun : smemAddModemPartitions fuel w = addPartitionsFrom fuel fuel 0 w := by
    refine Prog.bind_of rfl (Prog.bind_of rfl ?_)
    rw [if_neg hmagic]
  have hstart : Table fuel m₀ (settledBelow cur 0) w.mem := by
    rwa [show settledBelow cur 0 = cur from funext fun j => if_neg (Nat.not_lt_zero j)]
  have hloop := addPartitionsFrom_appended (Nat.zero_add _) hfuel hstart
  rw [hrun, List.range_eq_range']
  rcases hloop with ⟨w', hw, hT, hparts⟩ | hnone
  · refine Or.inl ⟨w', hw, hT.congr fun i hi => ?_, hparts⟩
    exact (if_pos hi).symm
  · exact Or.inr hnone

/-! ### Any number of calls -/

/-- `c` calls, one after another. -/
def calls (fuel : Nat) : Nat → Prog World Unit
  | 0 => pure ()
  | c + 1 => do
      calls fuel c
      smemAddModemPartitions fuel

/-- Each of `k` calls appends what `smem_ptable` has before the first. -/
def EachCallAppends (fuel k : Nat) (w : World) : Prop :=
  ∀ c < k, ∃ w₁ w₂, calls fuel c w = (some (), w₁) ∧
    smemAddModemPartitions fuel w₁ = (some (), w₂) ∧
    w₂.flash.parts = w₁.flash.parts ++ expected w.mem

/-- A `smem_ptable` that passes the check, with the names `names`, each up to its NUL.  Where a name
    goes on behind its 16 characters, no colon there ends a segment of it. -/
structure Named (m : Memory) (names : Nat → List Byte) : Prop where
  magic1 : m.load32 0 = smemPtableMagic1
  magic2 : m.load32 4 = smemPtableMagic2
  len_le : tableLen m ≤ 32
  holds : ∀ i < tableLen m, HoldsString m (nameAt i) (names i)
  inField : ∀ i < tableLen m, ∀ k, EndsAt (isDelim colon) (names i) k → k + 1 < 16

/-- The loops have enough iterations for the table. -/
structure Enough (fuel : Nat) (m : Memory) (names : Nat → List Byte) : Prop where
  len : tableLen m < fuel
  short : ∀ i < tableLen m, (names i).length + 1 < fuel

/-- The names after `c` calls. -/
def namesAfter (names : Nat → List Byte) : Nat → Nat → List Byte
  | 0     => names
  | _ + 1 => fun i => settled (isDelim colon) (names i)

variable {k : Nat} {names : Nat → List Byte}

/-- Where every name ends in its 16 characters, the names are what stands in them. -/
theorem Named.of_terminated (hmagic1 : m.load32 0 = smemPtableMagic1)
    (hmagic2 : m.load32 4 = smemPtableMagic2) (hlen : tableLen m ≤ 32)
    (hend : ∀ i < tableLen m, ∃ k < 16, m (nameAt i + k) = 0) : Named m (nameField m) := by
  have hfield : ∀ i < tableLen m, HoldsString m (nameAt i) (nameField m i) ∧
      (nameField m i).length < 16 := by
    intro i hi
    obtain ⟨k, hk, hnul⟩ := hend i hi
    obtain ⟨s, hs, hstr⟩ := HoldsString.exists_of_nul hnul
    have hsame : nameField m i = s := by
      rw [nameField, hstr.takeWhile_range, List.take_of_length_le (by omega)]
    rw [hsame]
    exact ⟨hstr, by omega⟩
  refine ⟨hmagic1, hmagic2, hlen, fun i hi => (hfield i hi).1, fun i hi k hk => ?_⟩
  obtain ⟨-, c, hc, -⟩ := hk
  have hlt := (List.getElem?_eq_some_iff.mp hc).1
  exact Nat.lt_trans hlt (hfield i hi).2

theorem Named.table (h : Named m names) (hfuel : Enough fuel m names) : Table fuel m names m :=
  ⟨h.holds, h.inField, hfuel.short, fun _ _ => rfl⟩

theorem settled_namesAfter (names : Nat → List Byte) (c : Nat) :
    (fun i => settled (isDelim colon) (namesAfter names c i)) = namesAfter names (c + 1) := by
  cases c with
  | zero => rfl
  | succ c => exact funext fun i => settled_settled (names i)

/-- One call more. -/
theorem call_appended (h : Named m names) (hfuel : Enough fuel m names) {c : Nat}
    (ht : Table fuel m (namesAfter names c) w.mem) :
    Appended (Table fuel m (namesAfter names (c + 1)))
      (modemPartitions m (fun i => lastName (namesAfter names c i)) (List.range (tableLen m))) w
      (smemAddModemPartitions fuel w) := by
  rw [← settled_namesAfter]
  exact smemAddModemPartitions_appended ht h.magic1 h.magic2 hfuel.len

/-- What calls leave of the names. -/
theorem calls_table (h : Named w.mem names) (hfuel : Enough fuel w.mem names) {c : Nat}
    (hrun : calls fuel c w = (some (), w')) :
    Table fuel w.mem (namesAfter names c) w'.mem := by
  induction c generalizing w' with
  | zero =>
    obtain rfl := congrArg Prod.snd hrun
    exact h.table hfuel
  | succ c ih =>
    obtain ⟨_, w₁, hcalls, hcall⟩ := Prog.bind_eq_some.mp hrun
    exact ((call_appended h hfuel (ih hcalls)).of_result hcall).1

/-- The calls append the right entries exactly when the names before each of them give them. -/
theorem eachCallAppends_iff_forall (h : Named w.mem names) (hfuel : Enough fuel w.mem names)
    (hroom : w.flash.parts.length + k * (expected w.mem).length ≤ 32) :
    EachCallAppends fuel k w ↔ ∀ c < k,
      modemPartitions w.mem (fun i => lastName (namesAfter names c i))
        (List.range (tableLen w.mem)) = expected w.mem := by
  constructor
  · intro heach c hc
    obtain ⟨w₁, w₂, hcalls, hcall, hparts⟩ := heach c hc
    have happended := (call_appended h hfuel (calls_table h hfuel hcalls)).of_result hcall
    rw [happended.2] at hparts
    exact List.append_cancel_left hparts
  · intro hright
    -- before each call there is room for what it appends
    have hnext : ∀ c < k, ∀ w₁, calls fuel c w = (some (), w₁) →
        w₁.flash.parts.length = w.flash.parts.length + c * (expected w.mem).length →
        ∃ w₂, smemAddModemPartitions fuel w₁ = (some (), w₂) ∧
          w₂.flash.parts = w₁.flash.parts ++ expected w.mem := by
      intro c hc w₁ hcalls hlen
      have happended := call_appended h hfuel (calls_table h hfuel hcalls)
      rw [hright c hc] at happended
      have hle : (c + 1) * (expected w.mem).length ≤ k * (expected w.mem).length :=
        Nat.mul_le_mul_right _ hc
      rw [Nat.succ_mul] at hle
      obtain ⟨w₂, hcall, -, hparts⟩ := happended.of_room (by omega)
      exact ⟨w₂, hcall, hparts⟩
    have hcalls : ∀ c ≤ k, ∃ w', calls fuel c w = (some (), w') ∧
        w'.flash.parts.length = w.flash.parts.length + c * (expected w.mem).length := by
      intro c
      induction c with
      | zero => exact fun _ => ⟨w, rfl, by omega⟩
      | succ c ih =>
        intro hc
        obtain ⟨w₁, hcalls, hlen⟩ := ih (by omega)
        obtain ⟨w₂, hcall, hparts⟩ := hnext c hc w₁ hcalls hlen
        refine ⟨w₂, Prog.bind_of hcalls hcall, ?_⟩
        rw [hparts, List.length_append, hlen, Nat.succ_mul, Nat.add_assoc]
    intro c hc
    obtain ⟨w₁, hrun, hlen⟩ := hcalls c (Nat.le_of_lt hc)
    obtain ⟨w₂, hcall, hparts⟩ := hnext c hc w₁ hrun hlen
    exact ⟨w₁, w₂, hrun, hcall, hparts⟩

/-- Lists that are filtered, where the first keeps all that the second does. -/
theorem filterMap_eq_iff {ι β : Type*} {l : List ι} {f g : ι → Option β}
    (h : ∀ i ∈ l, (g i).isSome → (f i).isSome) :
    l.filterMap f = l.filterMap g ↔ ∀ i ∈ l, f i = g i := by
  refine ⟨fun heq => ?_, List.filterMap_congr⟩
  induction l with
  | nil => simp
  | cons a l ih =>
    obtain ⟨ha, hl⟩ := List.forall_mem_cons.mp h
    have hle : (l.filterMap g).length ≤ (l.filterMap f).length := by
      rw [List.length_filterMap_eq_countP, List.length_filterMap_eq_countP]
      exact List.countP_mono_left hl
    rw [List.filterMap_cons, List.filterMap_cons] at heq
    rw [List.forall_mem_cons]
    cases hf : f a with
    | none =>
      cases hg : g a with
      | none =>
        rw [hf, hg] at heq
        exact ⟨rfl, ih hl heq⟩
      | some y =>
        rw [hf, hg] at ha
        exact absurd (ha rfl) (by simp)
    | some x =>
      cases hg : g a with
      | none =>
        -- the first would be longer
        rw [hf, hg] at heq
        have hlen := congrArg List.length heq
        simp only [List.length_cons] at hlen
        omega
      | some y =>
        rw [hf, hg] at heq
        obtain ⟨hxy, hrest⟩ := List.cons.inj heq
        exact ⟨congrArg some hxy, ih hl hrest⟩

/-- Whatever part of its name an entry is added under, if it is added exactly when it has a
    character other than a colon: the entries are the right ones exactly when the names are. -/
theorem modemPartitions_eq_expected_iff {part : List Byte → Option (List Byte)}
    (hpart : ∀ s, (part s).isSome ↔ ∃ b ∈ s, b ≠ 0x3A) (h : Named m names) :
    modemPartitions m (fun i => part (names i)) (List.range (tableLen m)) = expected m ↔
      ∀ i < tableLen m, part (names i) = lastName (nameField m i) := by
  have hinj : ∀ i, Function.Injective (Option.map (modemPartition m i)) := fun i =>
    Option.map_injective fun _ _ heq => congrArg PtEntry.name heq
  have hmore : ∀ i ∈ List.range (tableLen m),
      ((lastName (nameField m i)).map (modemPartition m i)).isSome →
        ((part (names i)).map (modemPartition m i)).isSome := by
    intro i hi
    rw [Option.isSome_map, Option.isSome_map, hpart, lastName_isSome_iff, nameField,
      (h.holds i (List.mem_range.mp hi)).takeWhile_range]
    rintro ⟨b, hb, hne⟩
    exact ⟨b, List.mem_of_mem_take hb, hne⟩
  refine (filterMap_eq_iff hmore).trans ?_
  simp only [List.mem_range, (hinj _).eq_iff]

/-- **The modem partitions.**  Each of `k` calls appends the last segment of each name field, with
    the entry's start and size, exactly when it is the last segment of the name, up to 15
    characters, for the first call, and the first segment of the name for those after it. -/
theorem eachCallAppends_iff (h : Named w.mem names) (hfuel : Enough fuel w.mem names)
    (hroom : w.flash.parts.length + k * (expected w.mem).length ≤ 32) :
    EachCallAppends fuel k w ↔
      (1 ≤ k → ∀ i < tableLen w.mem, lastName (names i) = lastName (nameField w.mem i)) ∧
      (2 ≤ k → ∀ i < tableLen w.mem, firstName (names i) = lastName (nameField w.mem i)) := by
  have hfirst := modemPartitions_eq_expected_iff (fun s => lastName_isSome_iff) h
  have hlater := modemPartitions_eq_expected_iff (fun s => firstName_isSome_iff) h
  have hsettled : ∀ s, lastName (settled (isDelim colon) s) = firstName s := by
    intro s
    rw [lastName, getLast?_segments_settled]
    rfl
  rw [eachCallAppends_iff_forall h hfuel hroom, ← hfirst, ← hlater]
  -- the first call sees the names as they are, every later one settled names
  constructor
  · intro hall
    refine ⟨fun hk => hall 0 hk, fun hk => ?_⟩
    have hsecond := hall 1 hk
    simp only [namesAfter, hsettled] at hsecond
    exact hsecond
  · rintro ⟨hone, htwo⟩ c hc
    cases c with
    | zero => exact hone hc
    | succ c =>
      simp only [namesAfter, hsettled]
      exact htwo (by omega)

/-- An entry of the table: its name, the block it starts at and its size. -/
def entryAt (i : Nat) (name : List Byte) (start size : U32) (m : Memory) : Memory :=
  Memory.blit (nameAt i) (name.length + 1) (fun j => name.getD j 0)
    (Memory.storeWords (nameAt i + 16) [start, size, 0] m)

/-- The header of a `smem_ptable` for `len` entries. -/
def header (len : U32) : Memory :=
  Memory.storeWords 0 [smemPtableMagic1, smemPtableMagic2, 4, len] fun _ => 0

/-- A `smem_ptable` of one entry, and an empty flash table. -/
def oneEntry (name : List Byte) : World where
  strings := { mem := entryAt 0 name 0x212 0x78 (header 1), last := none }
  flash := ⟨[], Nat.zero_le 32⟩

/-- A `smem_ptable` of two entries, and an empty flash table. -/
def twoEntries (first second : List Byte) : World where
  strings :=
    { mem := entryAt 0 first 0x212 0x78 (entryAt 1 second 0x28A 0x40 (header 2)), last := none }
  flash := ⟨[], Nat.zero_le 32⟩

/-- `":modem"`. -/
def modemName : List Byte := [0x3A, 0x6D, 0x6F, 0x64, 0x65, 0x6D]

/-- `"apps:"`. -/
def appsColonName : List Byte := [0x61, 0x70, 0x70, 0x73, 0x3A]

/-- Names of one segment are appended by every call, in the order of the table. -/
theorem oneSegment_appended : EachCallAppends 10 3 (twoEntries modemName appsColonName) ∧
    (expected (twoEntries modemName appsColonName).mem).map (fun e => (e.name, e.start))
      = [([0x6D, 0x6F, 0x64, 0x65, 0x6D], 0x212), ([0x61, 0x70, 0x70, 0x73], 0x28A)] := by
  have hlen : tableLen (twoEntries modemName appsColonName).mem = 2 := by decide
  have hentry : ∀ i < tableLen (twoEntries modemName appsColonName).mem, i = 0 ∨ i = 1 := by
    intro i hi
    rw [hlen] at hi
    omega
  have hnamed : Named (twoEntries modemName appsColonName).mem
      (nameField (twoEntries modemName appsColonName).mem) := by
    refine Named.of_terminated (by decide) (by decide) (by decide) fun i hi => ?_
    rcases hentry i hi with rfl | rfl
    · exact ⟨6, by decide, by decide⟩
    · exact ⟨5, by decide, by decide⟩
  have henough : Enough 10 (twoEntries modemName appsColonName).mem
      (nameField (twoEntries modemName appsColonName).mem) := by
    refine ⟨by decide, fun i hi => ?_⟩
    rcases hentry i hi with rfl | rfl
    · decide
    · decide
  refine ⟨(eachCallAppends_iff hnamed henough (by decide)).mpr
    ⟨fun _ _ _ => rfl, fun _ i hi => ?_⟩, by decide⟩
  rcases hentry i hi with rfl | rfl
  · decide
  · decide

/-- `"0:APPS"`. -/
def appsName : List Byte := [0x30, 0x3A, 0x41, 0x50, 0x50, 0x53]

/-- The first call leaves the name `"0"`, and the second appends that. -/
theorem second_call_differs :
    (expected (oneEntry appsName).mem).length = 1 ∧ ¬ EachCallAppends 10 2 (oneEntry appsName) := by
  refine ⟨by decide, fun h => ?_⟩
  obtain ⟨w₁, w₂, hcalls, hcall, hparts⟩ := h 1 (by decide)
  obtain rfl := congrArg Prod.snd hcalls
  obtain rfl := congrArg Prod.snd hcall
  exact absurd hparts (by decide)

end HtcLeo.Smem

import HtcLeo.Uefi
import Mathlib.Data.Vector.Basic

namespace HtcLeo.Menu

/-!
# HtcLeoMenuApp — the options

The table `MenuOptions` of `Application/HtcLeoMenuApp/menu.c`, and the functions that fill it and
walk over its active entries.

* `fillMenu`, `rebootMenuOptions` — the two menus; a store behind the table has no result.
* `getActiveMenuEntryLength`, `getRealIndexFromVisibleIndex`, `drawLines` — the walks.
* `fillMenu_spec`, `rebootMenuOptions_spec` — every store is in the table, and the active entries
  are those of the menu that was filled.
* `walk_selected` — the walks agree on the entry of a visible index.
-/

/-! ### The table -/

/-- The functions of the entries. -/
inductive EntryFunction
  | bootDefault
  | bootAndroidKernel
  | startTetris
  | startShell
  | dumpDmesg
  | dumpMemory2Sdcard
  | rebootMenu
  | exitMenu
  | setClkBoot
  | resetCold
  | resetShutdown
  | nullFunction
  deriving DecidableEq

/-- `MenuEntry`; `function` may be `NULL`. -/
structure MenuEntry where
  name : String
  isActive : Bool
  function : Option EntryFunction
  deriving DecidableEq

/-- `MAX_OPTIONS_COUNT`. -/
def maxOptionsCount : Nat := 12

/-- `MenuOptions`. -/
abbrev Options := { entries : List MenuEntry // entries.length = maxOptionsCount }

/-- The table before `FillMenu`. -/
def Options.zero : Options := ⟨List.replicate maxOptionsCount ⟨"", false, none⟩, by simp⟩

/-- `MenuOptions[index] = entry`, which has no result behind the table. -/
def Options.store (options : Options) (index : Nat) (entry : MenuEntry) : Option Options :=
  if index < maxOptionsCount then
    some ⟨options.val.set index entry, by rw [List.length_set, options.property]⟩
  else none

/-- `MenuOptions[Index++] = entry`, for one entry after the other. -/
def Options.storeAll : Options → Nat → List MenuEntry → Option Options
  | options, _, []                   => some options
  | options, index, entry :: entries => do
      let options ← options.store index entry
      options.storeAll (index + 1) entries

/-- The entries of the main menu. -/
def mainEntries : List MenuEntry :=
  [⟨"Boot default", true, some .bootDefault⟩,
   ⟨"Boot Android", false, some .bootAndroidKernel⟩,
   ⟨"Play Tetris", true, some .startTetris⟩,
   ⟨"EFI Shell", true, some .startShell⟩,
   ⟨"Dump DMESG to sdcard", true, some .dumpDmesg⟩,
   ⟨"Dump Memory to sdcard", true, some .dumpMemory2Sdcard⟩,
   ⟨"Reboot Menu", true, some .rebootMenu⟩,
   ⟨"Exit", true, some .exitMenu⟩]

/-- `FillMenu`. -/
def fillMenu (options : Options) : Option Options := options.storeAll 0 mainEntries

/-- The entries of the reboot menu. -/
def rebootEntries (cLK : Bool) : List MenuEntry :=
  [⟨"Reboot to CLK", cLK, some .setClkBoot⟩,
   ⟨"Reboot", true, some .resetCold⟩,
   ⟨"Shutdown", true, some .resetShutdown⟩]

/-- A disabled option. -/
def disabledEntry : MenuEntry := ⟨"", false, some .nullFunction⟩

/-- The `do … while (Index < MAX_OPTIONS_COUNT)` of `RebootMenu`. -/
def fillDisabled (options : Options) (index : Nat) : Option Options := do
  let options ← options.store index disabledEntry
  if index + 1 < maxOptionsCount then fillDisabled options (index + 1) else some options
termination_by maxOptionsCount - index

/-- `RebootMenu`, on the table. -/
def rebootMenuOptions (cLK : Bool) (options : Options) : Option Options := do
  let options ← options.storeAll 0 (rebootEntries cLK)
  fillDisabled options (rebootEntries cLK).length

/-! ### The stores -/

/-- A store in the table. -/
theorem Options.store_lt (options : Options) {index : Nat} (entry : MenuEntry)
    (h : index < maxOptionsCount) :
    ∃ options', options.store index entry = some options' ∧
      options'.val = options.val.take index ++ entry :: options.val.drop (index + 1) := by
  refine ⟨_, if_pos h, ?_⟩
  rw [← options.property] at h
  exact List.set_eq_take_append_cons_drop.trans (if_pos h)

/-- Stores in the table. -/
theorem Options.storeAll_spec (options : Options) (index : Nat) (entries : List MenuEntry)
    (h : index + entries.length ≤ maxOptionsCount) :
    ∃ options', options.storeAll index entries = some options' ∧
      options'.val = options.val.take index ++ entries
        ++ options.val.drop (index + entries.length) := by
  induction entries generalizing options index with
  | nil => exact ⟨options, rfl, by simp⟩
  | cons entry entries ih =>
    rw [List.length_cons] at h
    have hindex : index < maxOptionsCount := by omega
    obtain ⟨next, hstore, hnext⟩ := store_lt options entry hindex
    obtain ⟨last, hall, hlast⟩ := ih next (index + 1) (by omega)
    refine ⟨last, ?_, ?_⟩
    · show (options.store index entry).bind _ = _
      rw [hstore]
      exact hall
    · have hlen : (options.val.take index).length = index := by
        rw [List.length_take, options.property]
        omega
      -- what is stored stays in front of what follows
      have htake : next.val.take (index + 1) = options.val.take index ++ [entry] := by
        rw [hnext, List.take_append, hlen, List.take_of_length_le (by omega)]
        simp
      have hdrop : next.val.drop (index + 1 + entries.length)
          = options.val.drop (index + (entries.length + 1)) := by
        rw [hnext, List.drop_append, hlen, List.drop_of_length_le (by omega), List.nil_append,
          show index + 1 + entries.length - index = entries.length + 1 by omega,
          List.drop_succ_cons, List.drop_drop, Nat.add_assoc, Nat.add_comm 1]
      rw [hlast, htake, hdrop, List.length_cons, List.append_assoc _ [entry]]
      rfl

/-- The rest of the table is disabled. -/
theorem fillDisabled_spec (options : Options) (index : Nat) (h : index < maxOptionsCount) :
    ∃ options', fillDisabled options index = some options' ∧
      options'.val
        = options.val.take index ++ List.replicate (maxOptionsCount - index) disabledEntry := by
  obtain ⟨next, hstore, hnext⟩ := options.store_lt disabledEntry h
  have hlen : (options.val.take index).length = index := by
    rw [List.length_take, options.property]
    omega
  rw [fillDisabled, hstore]
  show ∃ options', (if index + 1 < maxOptionsCount then fillDisabled next (index + 1)
    else some next) = some options' ∧ _
  split
  · next hmore =>
    obtain ⟨last, hfill, hlast⟩ := fillDisabled_spec next (index + 1) hmore
    refine ⟨last, hfill, ?_⟩
    rw [hlast, hnext, List.take_append, hlen, List.take_of_length_le (by omega),
      show index + 1 - index = 1 by omega,
      show maxOptionsCount - index = maxOptionsCount - (index + 1) + 1 by omega,
      List.replicate_succ]
    simp
  · next hlast =>
    refine ⟨next, rfl, ?_⟩
    rw [hnext, List.drop_of_length_le (by rw [options.property]; omega),
      show maxOptionsCount - index = 1 by omega]
    rfl
termination_by maxOptionsCount - index

/-! ### The menus -/

/-- The active entries of a table. -/
def Options.active (options : Options) : List MenuEntry := options.val.filter MenuEntry.isActive

/-- Nothing but disabled options from the ninth entry on: they are not touched by `FillMenu`. -/
def Options.TailInactive (options : Options) : Prop :=
  ∀ entry ∈ options.val.drop mainEntries.length, entry.isActive = false

/-- Among inactive entries none is active. -/
theorem filter_inactive {entries : List MenuEntry} (h : ∀ entry ∈ entries, entry.isActive = false) :
    entries.filter MenuEntry.isActive = [] := by
  rw [List.filter_eq_nil_iff]
  intro entry hmem
  rw [h entry hmem]
  decide

/-- **`FillMenu`.**  The stores are in the table, and the active entries are those of the main
    menu, if no others follow. -/
theorem fillMenu_spec (options : Options) (h : options.TailInactive) :
    ∃ options', fillMenu options = some options' ∧ options'.TailInactive ∧
      options'.active = mainEntries.filter MenuEntry.isActive := by
  obtain ⟨options', hfill, hval⟩ := options.storeAll_spec 0 mainEntries (by decide)
  rw [List.take_zero, List.nil_append, Nat.zero_add] at hval
  refine ⟨options', hfill, ?_, ?_⟩
  · unfold Options.TailInactive
    rw [hval, List.drop_left]
    exact h
  · unfold Options.active
    rw [hval, List.filter_append, filter_inactive h, List.append_nil]

/-- **`RebootMenu`.**  The stores are in the table, and the active entries are those of the reboot
    menu. -/
theorem rebootMenuOptions_spec (cLK : Bool) (options : Options) :
    ∃ options', rebootMenuOptions cLK options = some options' ∧ options'.TailInactive ∧
      options'.active = (rebootEntries cLK).filter MenuEntry.isActive := by
  obtain ⟨first, hfirst, hval⟩ := options.storeAll_spec 0 (rebootEntries cLK)
    (show 3 ≤ 12 by decide)
  obtain ⟨last, hlast, hfill⟩ := fillDisabled_spec first (rebootEntries cLK).length
    (show 3 < 12 by decide)
  rw [List.take_zero, List.nil_append, Nat.zero_add] at hval
  rw [hval, List.take_left] at hfill
  have hoff : ∀ entry ∈ List.replicate (maxOptionsCount - (rebootEntries cLK).length)
      disabledEntry, entry.isActive = false := by
    intro entry hmem
    rw [List.eq_of_mem_replicate hmem]
    rfl
  refine ⟨last, ?_, ?_, ?_⟩
  · unfold rebootMenuOptions
    rw [hfirst]
    exact hlast
  · intro entry hmem
    rw [hfill, List.drop_append] at hmem
    have hnil : (rebootEntries cLK).drop mainEntries.length = [] := rfl
    rw [hnil, List.nil_append] at hmem
    exact hoff entry (List.mem_of_mem_drop hmem)
  · unfold Options.active
    rw [hfill, List.filter_append, filter_inactive hoff, List.append_nil]

/-! ### The walks -/

/-- A drawn line: the option it shows, its number and text, and whether it is highlighted. -/
structure Line where
  option : Nat
  number : U32
  name : String
  highlighted : Bool

/-- The loop of `GetActiveMenuEntryLength`. -/
def countActive : List MenuEntry → U32 → U32
  | [], menuCount               => menuCount
  | entry :: entries, menuCount =>
      countActive entries (if entry.isActive then menuCount + 1 else menuCount)

/-- `GetActiveMenuEntryLength`. -/
def getActiveMenuEntryLength (options : Options) : U32 := countActive options.val 0

/-- The loop of `DrawMenu` over the options from `i` on. -/
def drawLines (selectedIndex : U32) : List MenuEntry → Nat → U32 → List Line
  | [], _, _                       => []
  | entry :: entries, i, visibleIndex =>
      if !entry.isActive then drawLines selectedIndex entries (i + 1) visibleIndex
      else ⟨i, visibleIndex + 1, entry.name, visibleIndex == selectedIndex⟩
        :: drawLines selectedIndex entries (i + 1) (visibleIndex + 1)

/-- The loop of `GetRealIndexFromVisibleIndex` over the options from `i` on. -/
def realIndexFrom (visibleIndex : U32) : List MenuEntry → U32 → U32 → U32
  | [], _, _                 => -1
  | entry :: entries, i, count =>
      if !entry.isActive then realIndexFrom visibleIndex entries (i + 1) count
      else if count = visibleIndex then i
      else realIndexFrom visibleIndex entries (i + 1) (count + 1)

/-- `GetRealIndexFromVisibleIndex`. -/
def getRealIndexFromVisibleIndex (options : Options) (visibleIndex : U32) : U32 :=
  realIndexFrom visibleIndex options.val 0 0

/-- Counting on does not wrap below the limit. -/
theorem succ_toNat (n : U32) (h : n.toNat + 1 < 2 ^ 32) : (n + 1).toNat = n.toNat + 1 :=
  BitVec.toNat_add_of_lt h

/-- The number of active entries. -/
theorem countActive_toNat (entries : List MenuEntry) (menuCount : U32)
    (h : menuCount.toNat + entries.length < 2 ^ 32) :
    (countActive entries menuCount).toNat
      = menuCount.toNat + (entries.filter MenuEntry.isActive).length := by
  induction entries generalizing menuCount with
  | nil => rfl
  | cons entry entries ih =>
    rw [List.length_cons] at h
    cases hactive : entry.isActive with
    | false =>
      rw [countActive, hactive, List.filter_cons_of_neg (by simp [hactive])]
      exact ih menuCount (by omega)
    | true =>
      have hnext := succ_toNat menuCount (by omega)
      rw [countActive, hactive, List.filter_cons_of_pos hactive, if_pos rfl, ih _ (by omega), hnext,
        List.length_cons]
      omega

/-- Every active entry is drawn. -/
theorem drawLines_length (selectedIndex : U32) (entries : List MenuEntry) (i : Nat)
    (visibleIndex : U32) : (drawLines selectedIndex entries i visibleIndex).length
      = (entries.filter MenuEntry.isActive).length := by
  induction entries generalizing i visibleIndex with
  | nil => rfl
  | cons entry entries ih =>
    cases hactive : entry.isActive with
    | false =>
      rw [drawLines, hactive, List.filter_cons_of_neg (by simp [hactive])]
      exact ih (i + 1) visibleIndex
    | true =>
      rw [drawLines, hactive, List.filter_cons_of_pos hactive]
      show (drawLines _ _ _ _).length + 1 = _
      rw [ih, List.length_cons]

/-- Behind the selected line none is highlighted. -/
theorem drawLines_behind (selectedIndex : U32) (entries : List MenuEntry) (i : Nat)
    (visibleIndex : U32) (hlt : selectedIndex.toNat < visibleIndex.toNat)
    (hroom : visibleIndex.toNat + entries.length < 2 ^ 32) :
    (drawLines selectedIndex entries i visibleIndex).filter Line.highlighted = [] := by
  induction entries generalizing i visibleIndex with
  | nil => rfl
  | cons entry entries ih =>
    rw [List.length_cons] at hroom
    rw [drawLines]
    split
    · exact ih (i + 1) visibleIndex hlt (by omega)
    · have hne : (visibleIndex == selectedIndex) = false := by
        rw [beq_eq_false_iff_ne]
        intro heq
        rw [heq] at hlt
        omega
      have hnext := succ_toNat visibleIndex (by omega)
      rw [List.filter_cons_of_neg (by simp [hne])]
      exact ih (i + 1) (visibleIndex + 1) (by omega) (by omega)

/-- **The walks agree.**  Where the visible index is one of an active entry, that entry is the only
    one that is highlighted, and its index is the one that is found. -/
theorem walk_selected (selectedIndex : U32) (entries : List MenuEntry) (i visibleIndex : U32)
    (hle : visibleIndex.toNat ≤ selectedIndex.toNat)
    (hlt : selectedIndex.toNat < visibleIndex.toNat + (entries.filter MenuEntry.isActive).length)
    (hroom : visibleIndex.toNat + entries.length < 2 ^ 32)
    (hindex : i.toNat + entries.length < 2 ^ 32) :
    ∃ j entry, entries[j]? = some entry ∧ entry.isActive = true ∧
      (realIndexFrom selectedIndex entries i visibleIndex).toNat = i.toNat + j ∧
      (drawLines selectedIndex entries i.toNat visibleIndex).filter Line.highlighted
        = [⟨i.toNat + j, selectedIndex + 1, entry.name, true⟩] := by
  induction entries generalizing i visibleIndex with
  | nil =>
    rw [List.filter_nil, List.length_nil] at hlt
    omega
  | cons entry entries ih =>
    rw [List.length_cons] at hroom hindex
    have hi := succ_toNat i (by omega)
    cases hactive : entry.isActive with
    | false =>
      rw [List.filter_cons_of_neg (by simp [hactive])] at hlt
      obtain ⟨j, found, hget, hfound, hreal, hlines⟩ :=
        ih (i + 1) visibleIndex hle hlt (by omega) (by omega)
      rw [hi, Nat.add_right_comm, Nat.add_assoc] at hreal hlines
      refine ⟨j + 1, found, hget, hfound, ?_, ?_⟩
      · rw [realIndexFrom, hactive]
        exact hreal
      · rw [drawLines, hactive]
        exact hlines
    | true =>
      have hnext := succ_toNat visibleIndex (by omega)
      rw [List.filter_cons_of_pos hactive, List.length_cons] at hlt
      by_cases heq : visibleIndex = selectedIndex
      · -- this is the entry; the lines behind it are not highlighted
        refine ⟨0, entry, rfl, hactive, ?_, ?_⟩
        · rw [realIndexFrom, hactive]
          simp only [Bool.not_true, Bool.false_eq_true, if_false, if_pos heq, Nat.add_zero]
        · rw [drawLines, hactive]
          simp only [Bool.not_true, Bool.false_eq_true, if_false]
          have hsame : visibleIndex.toNat = selectedIndex.toNat := by rw [heq]
          rw [List.filter_cons_of_pos (by simp [heq]),
            drawLines_behind selectedIndex entries _ (visibleIndex + 1) (by omega) (by omega), heq,
            beq_self_eq_true, Nat.add_zero]
      · have hnextLe : (visibleIndex + 1).toNat ≤ selectedIndex.toNat := by
          have hne : visibleIndex.toNat ≠ selectedIndex.toNat :=
            fun h => heq (BitVec.eq_of_toNat_eq h)
          omega
        obtain ⟨j, found, hget, hfound, hreal, hlines⟩ :=
          ih (i + 1) (visibleIndex + 1) hnextLe (by omega) (by omega) (by omega)
        rw [hi, Nat.add_right_comm, Nat.add_assoc] at hreal hlines
        refine ⟨j + 1, found, hget, hfound, ?_, ?_⟩
        · rw [realIndexFrom, hactive]
          simp only [Bool.not_true, Bool.false_eq_true, if_false, if_neg heq]
          exact hreal
        · rw [drawLines, hactive]
          simp only [Bool.not_true, Bool.false_eq_true, if_false]
          rw [List.filter_cons_of_neg (by simp [heq])]
          exact hlines

end HtcLeo.Menu

import HtcLeo.Keypad.Press
import HtcLeo.Lib.Runs
import HtcLeo.Menu.Options

namespace HtcLeo.Menu

open Keypad (Key scanUp scanDown charCarriageReturn)
open Runs

/-!
# HtcLeoMenuApp — the selection

The loop of the menu, `DrawMenu` then `HandleKeyInput`, for every sequence of keys and every value
of the cLK flag at each of them.

* `drawMenu`, `mainMenu`, `handleKeyInput` — the functions of the loop.
* `Drawn`, `Drawn.next` — what `HandleKeyInput` finds when it is entered, and what it finds next.
* `Drawn.Valid` — the selected entry is the highlighted one, and the one that Enter calls.
* `selection_valid` — this holds whenever `HandleKeyInput` is entered.
-/

/-! ### The loop -/

/-- `SCAN_HOME`. -/
def scanHome : BitVec 16 := 5
/-- `SCAN_ESC`. -/
def scanEsc : BitVec 16 := 0x17

/-- The variables of the menu. -/
structure Variables where
  options : Options
  menuOptionCount : U32
  selectedIndex : U32

/-- `DrawMenu`: the count is set, and the lines are drawn. -/
def drawMenu (m : Variables) : Variables × List Line :=
  let m := { m with menuOptionCount := getActiveMenuEntryLength m.options }
  (m, drawLines m.selectedIndex m.options.val 0 0)

/-- `MainMenu`. -/
def mainMenu (m : Variables) : Option Variables := do
  let options ← fillMenu m.options
  some { m with options := options, selectedIndex := 0 }

/-- `RebootMenu`. -/
def rebootMenu (cLK : Bool) (m : Variables) : Option Variables := do
  let options ← rebootMenuOptions cLK m.options
  some { m with options := options, selectedIndex := 0 }

/-- The call of an entry's function. -/
def EntryFunction.call (cLK : Bool) (m : Variables) : EntryFunction → Option Variables
  | rebootMenu => Menu.rebootMenu cLK m
  | _          => some m

/-- `HandleKeyInput`: the function that is called, and the variables afterwards; `key` is `none`
    for `EFI_NOT_READY`.  An access behind the table has no result. -/
def handleKeyInput (cLK : Bool) (key : Option Key) (m : Variables) :
    Option (Option EntryFunction × Variables) :=
  match key with
  | none => some (none, m)
  | some key =>
      if key.scanCode = scanHome then do
        some (none, ← mainMenu m)
      else if key.scanCode = scanUp then
        if m.selectedIndex = 0 then
          some (none, { m with selectedIndex := m.menuOptionCount - 1 })
        else some (none, { m with selectedIndex := m.selectedIndex - 1 })
      else if key.scanCode = scanDown then
        if m.selectedIndex = m.menuOptionCount - 1 then
          some (none, { m with selectedIndex := 0 })
        else some (none, { m with selectedIndex := m.selectedIndex + 1 })
      else if key.scanCode = scanEsc then some (none, m)
      else if key.unicodeChar = charCarriageReturn then do
        -- `realIndex >= 0` holds of every `UINTN`
        let entry ← m.options.val[(getRealIndexFromVisibleIndex m.options m.selectedIndex).toNat]?
        match entry.function with
        | some function => some (some function, ← function.call cLK m)
        | none          => some (none, m)
      else some (none, m)

/-- The menu that is shown. -/
inductive Shown
  | main
  | reboot (cLK : Bool)

/-- The entries of a menu. -/
def Shown.entries : Shown → List MenuEntry
  | main       => mainEntries
  | reboot cLK => rebootEntries cLK

/-- What `HandleKeyInput` finds when it is entered: the variables, the lines that `DrawMenu` has
    just drawn, and the menu that was filled last. -/
structure Drawn where
  vars : Variables
  lines : List Line
  shown : Shown

/-- What is found when the variables are drawn. -/
def Variables.draw (m : Variables) (shown : Shown) : Drawn :=
  ⟨(drawMenu m).1, (drawMenu m).2, shown⟩

/-- What happens in a pass: the key, if there is one, and the cLK flag. -/
structure Input where
  key : Option Key
  cLK : Bool

/-- The menu that is filled last, after a key that has called a function. -/
def Shown.next (shown : Shown) (input : Input) (called : Option EntryFunction) : Shown :=
  if input.key.any fun key => key.scanCode = scanHome then .main
  else if called = some .rebootMenu then .reboot input.cLK
  else shown

/-- A pass of the loop, from one `HandleKeyInput` to the next. -/
def Drawn.next (d : Drawn) (input : Input) : Option Drawn := do
  let (called, m) ← handleKeyInput input.cLK input.key d.vars
  some (m.draw (d.shown.next input called))

/-- The same for a loop that may have failed. -/
def loopStep (d : Option Drawn) (input : Input) : Option Drawn := d.bind fun d => d.next input

/-- The first `HandleKeyInput` of the application. -/
def loopStart : Option Drawn := do
  let options ← fillMenu Options.zero
  some ((Variables.mk options 0 0).draw .main)

/-! ### What holds when `HandleKeyInput` is entered -/

/-- The key is Enter. -/
def Key.IsEnter (key : Key) : Prop :=
  key.scanCode ≠ scanHome ∧ key.scanCode ≠ scanUp ∧ key.scanCode ≠ scanDown ∧
    key.scanCode ≠ scanEsc ∧ key.unicodeChar = charCarriageReturn

/-- The selection is valid. -/
structure Drawn.Valid (d : Drawn) : Prop where
  selected : d.vars.selectedIndex.toNat < d.vars.menuOptionCount.toNat
  count : d.vars.menuOptionCount.toNat = d.vars.options.active.length
  lines : d.lines.length = d.vars.options.active.length
  active : d.vars.options.active = d.shown.entries.filter MenuEntry.isActive
  enter : ∃ line entry function, d.lines.filter Line.highlighted = [line] ∧
    (getRealIndexFromVisibleIndex d.vars.options d.vars.selectedIndex).toNat = line.option ∧
    d.vars.options.val[line.option]? = some entry ∧ entry.isActive = true ∧
    line.name = entry.name ∧ entry.function = some function ∧
    ∀ cLK key, Key.IsEnter key →
      (handleKeyInput cLK (some key) d.vars).map Prod.fst = some (some function)

/-- The variables are those of a menu, and select one of its active entries. -/
structure Variables.Selects (m : Variables) (shown : Shown) : Prop where
  tail : m.options.TailInactive
  active : m.options.active = shown.entries.filter MenuEntry.isActive
  selected : m.selectedIndex.toNat < m.options.active.length

/-- Every menu has active entries, and each of them has a function. -/
theorem Shown.active_ne_nil (shown : Shown) :
    0 < (shown.entries.filter MenuEntry.isActive).length ∧
      ∀ entry ∈ shown.entries.filter MenuEntry.isActive, entry.function.isSome := by
  rcases shown with _ | cLK
  · decide
  · cases cLK <;> decide

/-- The count that is drawn. -/
theorem drawMenu_count (m : Variables) :
    (drawMenu m).1.menuOptionCount.toNat = m.options.active.length := by
  show (countActive m.options.val 0).toNat = _
  rw [countActive_toNat _ _ (by rw [m.options.property]; decide)]
  exact Nat.zero_add _

/-- Enter calls the function of the entry that is found. -/
theorem handleKeyInput_enter {m : Variables} {entry : MenuEntry} {function : EntryFunction}
    (hget : m.options.val[(getRealIndexFromVisibleIndex m.options m.selectedIndex).toNat]?
      = some entry) (hfunction : entry.function = some function) (cLK : Bool) {key : Key}
    (hkey : Key.IsEnter key) :
    handleKeyInput cLK (some key) m = (function.call cLK m).map fun m' => (some function, m') := by
  obtain ⟨hhome, hup, hdown, hesc, hchar⟩ := hkey
  unfold handleKeyInput
  dsimp only
  rw [if_neg hhome, if_neg hup, if_neg hdown, if_neg hesc, if_pos hchar, hget]
  simp only [Option.bind_eq_bind, Option.bind_some, hfunction]
  cases function.call cLK m with
  | none => rfl
  | some m' => rfl

/-! ### A pass of the loop -/

/-- The selected index after a walk in a menu with active entries. -/
theorem walk_index {selected count : U32} (h : selected.toNat < count.toNat) :
    (if selected = 0 then count - 1 else selected - 1).toNat < count.toNat ∧
      (if selected = count - 1 then 0 else selected + 1).toNat < count.toNat := by
  have hone : (1 : U32).toNat = 1 := rfl
  have hpred : (count - 1).toNat = count.toNat - 1 := by
    rw [BitVec.toNat_sub, hone]
    omega
  constructor
  · split
    · omega
    · next hne =>
      have hpos : selected.toNat ≠ 0 := fun heq => hne (BitVec.eq_of_toNat_eq heq)
      rw [BitVec.toNat_sub, hone]
      omega
  · split
    · exact Nat.zero_lt_of_lt h
    · next hne =>
      have hlast : selected.toNat ≠ count.toNat - 1 :=
        fun heq => hne (BitVec.eq_of_toNat_eq (heq.trans hpred.symm))
      rw [succ_toNat selected (by omega)]
      omega

/-- A selected index that stays in the menu. -/
theorem Variables.Selects.select {m : Variables} {shown : Shown} (h : m.Selects shown)
    {selectedIndex : U32} (hlt : selectedIndex.toNat < m.options.active.length) :
    { m with selectedIndex := selectedIndex }.Selects shown :=
  ⟨h.tail, h.active, hlt⟩

/-- `MainMenu` selects the first entry of the main menu. -/
theorem mainMenu_spec {m : Variables} (h : m.options.TailInactive) :
    ∃ m', mainMenu m = some m' ∧ m'.Selects .main := by
  obtain ⟨options, hfill, htail, hactive⟩ := fillMenu_spec m.options h
  refine ⟨{ m with options := options, selectedIndex := 0 }, ?_, htail, hactive, ?_⟩
  · unfold mainMenu
    rw [hfill]
    rfl
  · show 0 < options.active.length
    rw [hactive]
    exact (Shown.active_ne_nil .main).1

/-- `RebootMenu` selects the first entry of the reboot menu. -/
theorem rebootMenu_spec (cLK : Bool) (m : Variables) :
    ∃ m', rebootMenu cLK m = some m' ∧ m'.Selects (.reboot cLK) := by
  obtain ⟨options, hfill, htail, hactive⟩ := rebootMenuOptions_spec cLK m.options
  refine ⟨{ m with options := options, selectedIndex := 0 }, ?_, htail, hactive, ?_⟩
  · unfold rebootMenu
    rw [hfill]
    rfl
  · show 0 < options.active.length
    rw [hactive]
    exact (Shown.active_ne_nil (.reboot cLK)).1

/-- A function other than `RebootMenu` leaves the menu. -/
theorem call_spec {m : Variables} {shown : Shown} (h : m.Selects shown) (cLK : Bool)
    (function : EntryFunction) : ∃ m', function.call cLK m = some m' ∧
      m'.Selects (if function = .rebootMenu then .reboot cLK else shown) := by
  by_cases hreboot : function = .rebootMenu
  · rw [hreboot, if_pos rfl]
    exact rebootMenu_spec cLK m
  · rw [if_neg hreboot]
    refine ⟨m, ?_, h⟩
    cases function with
    | rebootMenu => exact absurd rfl hreboot
    | _ => rfl

/-- The entry that is selected: it is active, it has a function, it is found, and its line is the
    only one that is highlighted. -/
theorem Variables.Selects.entry {m : Variables} {shown : Shown} (h : m.Selects shown) :
    ∃ i entry function, m.options.val[i]? = some entry ∧ entry.isActive = true ∧
      entry.function = some function ∧
      (getRealIndexFromVisibleIndex m.options m.selectedIndex).toNat = i ∧
      (drawLines m.selectedIndex m.options.val 0 0).filter Line.highlighted
        = [⟨i, m.selectedIndex + 1, entry.name, true⟩] := by
  have hlen : m.options.val.length < 2 ^ 32 := by
    rw [m.options.property]
    decide
  have hselected : m.selectedIndex.toNat < m.options.active.length := h.selected
  have hzero : (0 : U32).toNat = 0 := rfl
  obtain ⟨i, entry, hget, hactive, hreal, hlines⟩ := walk_selected m.selectedIndex m.options.val 0 0
    (Nat.zero_le _) (by rw [hzero, Nat.zero_add]; exact hselected) (by omega) (by omega)
  rw [hzero, Nat.zero_add] at hreal hlines
  have hmem : entry ∈ m.options.active :=
    List.mem_filter.mpr ⟨List.mem_of_getElem? hget, hactive⟩
  rw [h.active] at hmem
  obtain ⟨function, hfunction⟩ := Option.isSome_iff_exists.mp (shown.active_ne_nil.2 entry hmem)
  exact ⟨i, entry, function, hget, hactive, hfunction, hreal, hlines⟩

/-- **The selection is valid when the menu is drawn.** -/
theorem Variables.Selects.valid {m : Variables} {shown : Shown} (h : m.Selects shown) :
    (m.draw shown).Valid := by
  obtain ⟨i, entry, function, hget, hactive, hfunction, hreal, hlines⟩ := h.entry
  have hcount := drawMenu_count m
  refine ⟨?_, hcount, drawLines_length m.selectedIndex m.options.val 0 0, h.active,
    ⟨_, entry, function, hlines, hreal, hget, hactive, rfl, hfunction, ?_⟩⟩
  · show m.selectedIndex.toNat < (drawMenu m).1.menuOptionCount.toNat
    rw [hcount]
    exact h.selected
  · intro cLK key hkey
    have hfound : (drawMenu m).1.options.val[(getRealIndexFromVisibleIndex (drawMenu m).1.options
        (drawMenu m).1.selectedIndex).toNat]? = some entry := by
      show m.options.val[(getRealIndexFromVisibleIndex m.options m.selectedIndex).toNat]? = _
      rw [hreal, hget]
    have hdrawn : (drawMenu m).1.Selects shown := ⟨h.tail, h.active, h.selected⟩
    obtain ⟨m', hcall, -⟩ := call_spec hdrawn cLK function
    show (handleKeyInput cLK (some key) (drawMenu m).1).map Prod.fst = _
    rw [handleKeyInput_enter hfound hfunction cLK hkey, hcall]
    rfl

/-- `HandleKeyInput` has a result, and what it leaves selects an entry of the menu that is
    shown next. -/
theorem handleKeyInput_spec {m : Variables} {shown : Shown} (h : m.Selects shown)
    (hcount : m.menuOptionCount.toNat = m.options.active.length) (input : Input) :
    ∃ called m', handleKeyInput input.cLK input.key m = some (called, m') ∧
      m'.Selects (shown.next input called) := by
  obtain ⟨key, cLK⟩ := input
  cases key with
  | none => exact ⟨none, m, rfl, h⟩
  | some key =>
    have hindex := walk_index (hcount ▸ h.selected)
    rw [hcount] at hindex
    by_cases hhome : key.scanCode = scanHome
    · obtain ⟨m', hmenu, hselects⟩ := mainMenu_spec h.tail
      refine ⟨none, m', ?_, ?_⟩
      · simp only [handleKeyInput, if_pos hhome, hmenu]
        rfl
      · simp only [Shown.next, Option.any_some, hhome, decide_true, if_true]
        exact hselects
    · have hshown : ∀ called, shown.next ⟨some key, cLK⟩ called
          = if called = some .rebootMenu then .reboot cLK else shown := by
        intro called
        simp only [Shown.next, Option.any_some, hhome, decide_false, Bool.false_eq_true, if_false]
      have hsame : shown.next ⟨some key, cLK⟩ none = shown := by
        rw [hshown]
        exact if_neg (Option.some_ne_none _).symm
      by_cases hup : key.scanCode = scanUp
      · refine ⟨none, _, ?_, by rw [hsame]; exact h.select hindex.1⟩
        simp only [handleKeyInput, if_neg hhome, if_pos hup]
        split <;> rfl
      by_cases hdown : key.scanCode = scanDown
      · refine ⟨none, _, ?_, by rw [hsame]; exact h.select hindex.2⟩
        simp only [handleKeyInput, if_neg hhome, if_neg hup, if_pos hdown]
        split <;> rfl
      by_cases hesc : key.scanCode = scanEsc
      · refine ⟨none, m, ?_, by rw [hsame]; exact h⟩
        simp only [handleKeyInput, if_neg hhome, if_neg hup, if_neg hdown, if_pos hesc]
      by_cases hchar : key.unicodeChar = charCarriageReturn
      · obtain ⟨i, entry, function, hget, -, hfunction, hreal, -⟩ := h.entry
        obtain ⟨m', hcall, hselects⟩ := call_spec h cLK function
        rw [← hreal] at hget
        refine ⟨some function, m', ?_, ?_⟩
        · rw [handleKeyInput_enter hget hfunction cLK ⟨hhome, hup, hdown, hesc, hchar⟩, hcall]
          rfl
        · rw [hshown]
          simpa only [Option.some.injEq] using hselects
      · refine ⟨none, m, ?_, by rw [hsame]; exact h⟩
        simp only [handleKeyInput, if_neg hhome, if_neg hup, if_neg hdown, if_neg hesc,
          if_neg hchar]

/-! ### Every run -/

/-- What is drawn selects an entry of the menu that is shown. -/
def Selected (d : Option Drawn) : Prop :=
  ∃ m shown, d = some (Variables.draw m shown) ∧ m.Selects shown

/-- A pass of the loop keeps the selection. -/
theorem Selected.step {d : Option Drawn} (h : Selected d) (input : Input) :
    Selected (loopStep d input) := by
  obtain ⟨m, shown, rfl, hselects⟩ := h
  have hdrawn : (drawMenu m).1.Selects shown := ⟨hselects.tail, hselects.active, hselects.selected⟩
  obtain ⟨called, m', hkey, hnext⟩ := handleKeyInput_spec hdrawn (drawMenu_count m) input
  refine ⟨m', _, ?_, hnext⟩
  show Drawn.next (m.draw shown) input = _
  unfold Drawn.next
  show (handleKeyInput input.cLK input.key (drawMenu m).1).bind _ = _
  rw [hkey]
  rfl

/-- The application starts in the main menu. -/
theorem selected_start : Selected loopStart := by
  have hzero : Options.zero.TailInactive := by
    intro entry hmem
    rw [List.eq_of_mem_replicate (List.mem_of_mem_drop hmem)]
  obtain ⟨options, hfill, htail, hactive⟩ := fillMenu_spec Options.zero hzero
  refine ⟨⟨options, 0, 0⟩, .main, ?_, htail, hactive, ?_⟩
  · unfold loopStart
    rw [hfill]
    rfl
  · show 0 < options.active.length
    rw [hactive]
    exact (Shown.active_ne_nil .main).1

/-- **The selection.**  For every sequence of keys and every value of the cLK flag at each of them,
    no access is behind the table, and whenever `HandleKeyInput` is entered the selection is
    valid. -/
theorem selection_valid (inputs : List Input) :
    Always loopStep (fun d => ∃ drawn, d = some drawn ∧ drawn.Valid) loopStart inputs := by
  have halways : Always loopStep Selected loopStart inputs :=
    Always.of_invariant (fun d input h => h.step input) selected_start inputs
  refine halways.mono ?_
  intro d h
  obtain ⟨m, shown, rfl, hselects⟩ := h
  exact ⟨_, rfl, hselects.valid⟩

end HtcLeo.Menu

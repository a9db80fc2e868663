import HtcLeo.Lib.CString
import HtcLeo.Lib.Segments

namespace HtcLeo.Smem

/-!
# StrLib — strtok

`strtok` of `Library/StrLib/strtok.c`, which cuts a string where it stands: the delimiter behind
a token becomes a NUL.  Here it is run until no token is left, for the last of them.

* `Strings` — the memory, and `last`, which `strtok` keeps from one call to the next.
* `strtok_none`, `strtok_last`, `strtok_more` — a call, for each way the string can be cut.
* `lastToken_spec` — the loop finds the last segment; it leaves the string settled, and it changes
  no more than the delimiters that end a segment.
-/

/-- The memory, and the static variable `last` of `strtok`. -/
structure Strings where
  mem : Memory
  last : Option Nat

/-- `*s`. -/
def charAt (s : Nat) : Prog Strings Byte := Prog.query fun w => (w.mem s, w)

section

variable (fuel : Nat) (delim : List Byte)

/-- `cont:` — over the leading delimiters; the first other character, and the address behind it. -/
def skipDelimiters (s : Nat) : Prog Strings (Byte × Nat) :=
  Prog.loop (fun s => do
    let c ← charAt s
    if c ∈ delim then pure (.inl (s + 1)) else pure (.inr (c, s + 1))) fuel s

/-- Over the token; what becomes of `*last`. -/
def scanToken (s : Nat) : Prog Strings (Option Nat) :=
  Prog.loop (fun s => do
    let c ← charAt s
    if c = 0 then pure (.inr none)
    else if c ∈ delim then do
      Prog.modify fun w => { w with mem := Memory.blit s 1 (fun _ => 0) w.mem }
      pure (.inr (some (s + 1)))
    else pure (.inl (s + 1))) fuel s

/-- `strtok_r`, with the `last` of `strtok`. -/
def strtok (s : Option Nat) : Prog Strings (Option Nat) := do
  let last ← Prog.query fun w => (w.last, w)
  match s <|> last with
  | none => return none
  | some s =>
      let (c, s) ← skipDelimiters fuel delim s
      if c = 0 then
        Prog.modify fun w => { w with last := none }
        return none
      else
        let last ← scanToken fuel delim s
        Prog.modify fun w => { w with last := last }
        return some (s - 1)

/-- `while (token) { pname = token; token = strtok(NULL, …); }`. -/
def remainingTokens (n : Nat) (pname token : Option Nat) : Prog Strings (Option Nat) :=
  Prog.loop (fun (pname, token) =>
    match token with
    | none => pure (.inr pname)
    | some t => do
        let token ← strtok fuel delim none
        pure (.inl (some t, token))) n (pname, token)

/-- The last token of the string at `s`. -/
def lastToken (s : Nat) : Prog Strings (Option Nat) := do
  let token ← strtok fuel delim (some s)
  remainingTokens fuel delim fuel none token

end

/-- Whether a character is one of the delimiters. -/
def isDelim (delim : List Byte) (c : Byte) : Bool := decide (c ∈ delim)

variable {fuel : Nat} {delim : List Byte} {w w' : Strings} {a n : Nat}

theorem isDelim_iff {c : Byte} : isDelim delim c = true ↔ c ∈ delim := decide_eq_true_iff

theorem not_isDelim_iff {c : Byte} : isDelim delim c = false ↔ c ∉ delim := decide_eq_false_iff_not

/-! ### One call -/

theorem skipDelimiters_run (hskip : ∀ i < n, w.mem (a + i) ∈ delim) (hend : w.mem (a + n) ∉ delim)
    (hfuel : n < fuel) :
    skipDelimiters fuel delim a w = (some (w.mem (a + n), a + n + 1), w) := by
  refine Prog.loop_of_skip (fun i => a + i) (fun i hi => ?_) hfuel ?_
  · exact Prog.bind_of rfl (by rw [if_pos (hskip i hi)]; rfl)
  · exact Prog.bind_of rfl (by rw [if_neg hend]; rfl)

theorem scanToken_nul (hscan : ∀ i < n, w.mem (a + i) ≠ 0 ∧ w.mem (a + i) ∉ delim)
    (hend : w.mem (a + n) = 0) (hfuel : n < fuel) :
    scanToken fuel delim a w = (some none, w) := by
  refine Prog.loop_of_skip (fun i => a + i) (fun i hi => ?_) hfuel ?_
  · exact Prog.bind_of rfl (by rw [if_neg (hscan i hi).1, if_neg (hscan i hi).2]; rfl)
  · exact Prog.bind_of rfl (by rw [if_pos hend]; rfl)

theorem scanToken_delim (hscan : ∀ i < n, w.mem (a + i) ≠ 0 ∧ w.mem (a + i) ∉ delim)
    (hne : w.mem (a + n) ≠ 0) (hend : w.mem (a + n) ∈ delim) (hfuel : n < fuel) :
    scanToken fuel delim a w =
      (some (some (a + n + 1)), { w with mem := Memory.blit (a + n) 1 (fun _ => 0) w.mem }) := by
  refine Prog.loop_of_skip (fun i => a + i) (fun i hi => ?_) hfuel ?_
  · exact Prog.bind_of rfl (by rw [if_neg (hscan i hi).1, if_neg (hscan i hi).2]; rfl)
  · exact Prog.bind_of rfl (by rw [if_neg hne, if_pos hend]; rfl)

variable {s last : Option Nat} {pre tok rest : List Byte} {c : Byte}

theorem strtok_nul (hs : (s <|> w.last) = some a)
    (hskip : skipDelimiters fuel delim a w = (some (0, n), w)) :
    strtok fuel delim s w = (some none, { w with last := none }) := by
  refine Prog.bind_of rfl ?_
  rw [hs]
  exact Prog.bind_of hskip rfl

theorem strtok_token (hs : (s <|> w.last) = some a)
    (hskip : skipDelimiters fuel delim a w = (some (c, n + 1), w)) (hc : c ≠ 0)
    (hscan : scanToken fuel delim (n + 1) w = (some last, w')) :
    strtok fuel delim s w = (some (some n), { w' with last := last }) := by
  refine Prog.bind_of rfl ?_
  rw [hs]
  refine Prog.bind_of hskip ?_
  simp only [if_neg hc]
  exact Prog.bind_of hscan rfl

/-- The delimiters that a string begins with are skipped. -/
theorem skipDelimiters_string (hpre : ∀ b ∈ pre, isDelim delim b = true)
    (hstr : HoldsString w.mem a (pre ++ rest)) (hend : w.mem (a + pre.length) ∉ delim)
    (hfuel : pre.length < fuel) :
    skipDelimiters fuel delim a w =
      (some (w.mem (a + pre.length), a + pre.length + 1), w) :=
  skipDelimiters_run (fun _ hi => isDelim_iff.mp (hpre _ (hstr.byte_mem hi))) hend hfuel

/-- Nothing but delimiters. -/
theorem strtok_none (hnul : 0 ∉ delim) (hs : (s <|> w.last) = some a)
    (hpre : ∀ b ∈ pre, isDelim delim b = true) (hstr : HoldsString w.mem a pre)
    (hfuel : pre.length < fuel) :
    strtok fuel delim s w = (some none, { w with last := none }) := by
  have hzero := hstr.nul
  rw [← List.append_nil pre] at hstr
  have hskip := skipDelimiters_string hpre hstr (by rwa [hzero]) hfuel
  rw [hzero] at hskip
  exact strtok_nul hs hskip

/-- Behind the delimiters, a token. -/
theorem tokenAt (htok : ∀ b ∈ tok, isDelim delim b = false) (hne : tok ≠ [])
    (hstr : HoldsString w.mem a (pre ++ (tok ++ rest))) :
    w.mem (a + pre.length) ≠ 0 ∧ w.mem (a + pre.length) ∉ delim ∧
      (∀ i < tok.length - 1, w.mem (a + pre.length + 1 + i) ≠ 0 ∧
        w.mem (a + pre.length + 1 + i) ∉ delim) := by
  have hall : ∀ i < tok.length, w.mem (a + pre.length + i) ≠ 0 ∧
      w.mem (a + pre.length + i) ∉ delim := by
    intro i hi
    have hmem := hstr.append_right.byte_mem hi
    exact ⟨hstr.append_right.noNul _ (List.mem_append_left rest hmem),
      not_isDelim_iff.mp (htok _ hmem)⟩
  obtain ⟨h0, h0'⟩ := hall 0 (List.length_pos_iff.mpr hne)
  refine ⟨h0, h0', fun i hi => ?_⟩
  rw [Nat.add_assoc _ 1 i]
  exact hall (1 + i) (by omega)

/-- A token that the string ends with. -/
theorem strtok_last (hs : (s <|> w.last) = some a) (hpre : ∀ b ∈ pre, isDelim delim b = true)
    (htok : ∀ b ∈ tok, isDelim delim b = false) (hne : tok ≠ [])
    (hstr : HoldsString w.mem a (pre ++ tok)) (hfuel : (pre ++ tok).length < fuel) :
    strtok fuel delim s w = (some (some (a + pre.length)), { w with last := none }) := by
  have hpos : 0 < tok.length := List.length_pos_iff.mpr hne
  rw [List.length_append] at hfuel
  have hfuel' : pre.length < fuel := by omega
  have hzero := hstr.append_right.nul
  rw [← List.append_nil tok] at hstr
  obtain ⟨hc, hfirst, hscan⟩ := tokenAt htok hne hstr
  have hskip := skipDelimiters_string hpre hstr hfirst hfuel'
  have hend : w.mem (a + pre.length + 1 + (tok.length - 1)) = 0 := by
    rwa [Nat.add_assoc _ 1, Nat.add_sub_cancel' hpos]
  exact strtok_token hs hskip hc (scanToken_nul hscan hend (by omega))

/-- A token with a delimiter behind it. -/
theorem strtok_more (hs : (s <|> w.last) = some a) (hpre : ∀ b ∈ pre, isDelim delim b = true)
    (htok : ∀ b ∈ tok, isDelim delim b = false) (hne : tok ≠ []) (hc : isDelim delim c = true)
    (hstr : HoldsString w.mem a (pre ++ (tok ++ c :: rest)))
    (hfuel : (pre ++ (tok ++ c :: rest)).length < fuel) :
    strtok fuel delim s w =
      (some (some (a + pre.length)),
        ⟨Memory.blit (a + pre.length + tok.length) 1 (fun _ => 0) w.mem,
          some (a + pre.length + tok.length + 1)⟩) := by
  have hpos : 0 < tok.length := List.length_pos_iff.mpr hne
  simp only [List.length_append, List.length_cons] at hfuel
  have hfuel' : pre.length < fuel := by omega
  obtain ⟨hc', hfirst, hscan⟩ := tokenAt htok hne hstr
  have hskip := skipDelimiters_string hpre hstr hfirst hfuel'
  have hat : a + pre.length + 1 + (tok.length - 1) = a + pre.length + tok.length := by omega
  have hbyte : w.mem (a + pre.length + tok.length) = c :=
    hstr.append_right.append_right.bytes 0 (Nat.zero_le _)
  have hcne : c ≠ 0 := hstr.append_right.append_right.noNul c List.mem_cons_self
  have hdelim : w.mem (a + pre.length + 1 + (tok.length - 1)) ∈ delim := by
    rw [hat, hbyte]
    exact isDelim_iff.mp hc
  have hrun := scanToken_delim hscan (by rwa [hat, hbyte]) hdelim (by omega : _ < fuel)
  rw [hat] at hrun
  exact strtok_token hs hskip hc' hrun

/-! ### The last token -/

/-- What the loop over the tokens of `str` at `a` has come to, from the memory `m`, and from the
    token `pname` before. -/
structure Tokenized (delim : List Byte) (m m' : Memory) (a : Nat) (str : List Byte)
    (pname r : Option Nat) : Prop where
  settled : HoldsString m' a (settled (isDelim delim) str)
  changed : ∀ x, m' x ≠ m x → ∃ i, x = a + (i + 1) ∧ EndsAt (isDelim delim) str i
  none : segments (isDelim delim) str = [] → r = pname
  last : ∀ tok ∈ (segments (isDelim delim) str).getLast?, ∃ p, r = some p ∧ HoldsString m' p tok

variable {m : Memory} {str : List Byte} {pname : Option Nat}

theorem remainingTokens_none (pname : Option Nat) (w : Strings) :
    remainingTokens fuel delim (n + 1) pname none w = (some pname, w) := rfl

theorem remainingTokens_some (pname : Option Nat) (t : Nat) :
    remainingTokens fuel delim (n + 1) pname (some t) =
      strtok fuel delim none >>= remainingTokens fuel delim n (some t) := by
  rw [remainingTokens, Prog.loop]
  dsimp only
  rw [bind_assoc]
  rfl

/-- No token: nothing changes. -/
theorem Tokenized.delims (hpre : ∀ b ∈ pre, isDelim delim b = true) (hstr : HoldsString m a pre)
    (pname : Option Nat) : Tokenized delim m m a pre pname pname := by
  refine ⟨?_, fun x hx => absurd rfl hx, fun _ => rfl, ?_⟩
  · rwa [settled_delims hpre]
  · rw [segments_delims hpre]
    intro tok htok
    exact absurd htok (Option.not_mem_none tok)

/-- One token, which the string ends with: nothing changes either. -/
theorem Tokenized.single (hpre : ∀ b ∈ pre, isDelim delim b = true)
    (htok : ∀ b ∈ tok, isDelim delim b = false) (hne : tok ≠ [])
    (hstr : HoldsString m a (pre ++ tok)) (pname : Option Nat) :
    Tokenized delim m m a (pre ++ tok) pname (some (a + pre.length)) := by
  refine ⟨?_, fun x hx => absurd rfl hx, ?_, ?_⟩
  · rwa [settled_last hpre htok hne]
  · rw [segments_last hpre htok hne]
    exact fun h => absurd h (List.cons_ne_nil tok [])
  · rw [segments_last hpre htok hne]
    intro tok' htok'
    obtain rfl : tok = tok' := Option.some.inj htok'
    exact ⟨_, rfl, hstr.append_right⟩

/-- One token more, with a delimiter behind it, which is now a NUL. -/
theorem Tokenized.more {m' : Memory} {r : Option Nat} (hpre : ∀ b ∈ pre, isDelim delim b = true)
    (htok : ∀ b ∈ tok, isDelim delim b = false) (hne : tok ≠ []) (hc : isDelim delim c = true)
    (hleft : HoldsString (Memory.blit (a + pre.length + tok.length) 1 (fun _ => 0) m) a
      (pre ++ tok))
    (h : Tokenized delim (Memory.blit (a + pre.length + tok.length) 1 (fun _ => 0) m) m'
      (a + pre.length + tok.length + 1) rest (some (a + pre.length)) r)
    (pname : Option Nat) : Tokenized delim m m' a (pre ++ (tok ++ c :: rest)) pname r := by
  have hpos : 0 < tok.length := List.length_pos_iff.mpr hne
  have hbefore : ∀ x, x ≤ a + pre.length + tok.length →
      m' x = Memory.blit (a + pre.length + tok.length) 1 (fun _ => 0) m x := by
    intro x hx
    by_contra hne
    obtain ⟨i, hi, -⟩ := h.changed x hne
    omega
  have hleft' : HoldsString m' a (pre ++ tok) := by
    refine hleft.congr fun x _ hx => hbefore x ?_
    rw [List.length_append] at hx
    omega
  refine ⟨?_, fun x hx => ?_, ?_, ?_⟩
  · rwa [settled_more hpre htok hne hc]
  · by_cases hat : x = a + pre.length + tok.length
    · exact ⟨pre.length + (tok.length - 1), by omega, endsAt_more htok hne hc pre rest⟩
    · have hout := Memory.blit_outside (fun _ => 0) m
        (by omega : x < a + pre.length + tok.length ∨ a + pre.length + tok.length + 1 ≤ x)
      rw [← hout] at hx
      obtain ⟨i, hi, hends⟩ := h.changed x hx
      have hlong := hends.append (pre ++ (tok ++ [c]))
      simp only [List.append_assoc, List.singleton_append, List.length_append,
        List.length_singleton] at hlong
      exact ⟨_, by omega, hlong⟩
  · rw [segments_more hpre htok hne hc]
    exact fun hnil => absurd hnil (List.cons_ne_nil _ _)
  · rw [segments_more hpre htok hne hc, List.getLast?_cons]
    intro tok' htok'
    obtain rfl := Option.some.inj htok'
    cases hlast : (segments (isDelim delim) rest).getLast? with
    | none =>
      -- it is the last one
      have hr := h.none (List.getLast?_eq_none_iff.mp hlast)
      exact ⟨_, hr, hleft'.append_right⟩
    | some last => exact h.last last hlast

/-- **Loop over the tokens**, from a call of `strtok` that goes on at `a`. -/
theorem tokens_spec (hnul : 0 ∉ delim) (hcut : Segmented (isDelim delim) str)
    (hs : (s <|> w.last) = some a) (hstr : HoldsString w.mem a str) (hfuel : str.length < fuel)
    (hn : str.length + 1 < n) (pname : Option Nat) :
    ∃ r m', (strtok fuel delim s >>= remainingTokens fuel delim n pname) w = (some r, ⟨m', none⟩) ∧
      Tokenized delim w.mem m' a str pname r := by
  induction hcut generalizing a w s pname n with
  | none hpre =>
    obtain ⟨n, rfl⟩ : ∃ k, n = k + 1 := ⟨n - 1, by omega⟩
    exact ⟨pname, w.mem, Prog.bind_of (strtok_none hnul hs hpre hstr hfuel)
      (remainingTokens_none pname _), Tokenized.delims hpre hstr pname⟩
  | @last pre tok hpre htok hne =>
    have hpos : 0 < tok.length := List.length_pos_iff.mpr hne
    obtain ⟨n, rfl⟩ : ∃ k, n = k + 1 + 1 := by
      rw [List.length_append] at hn
      exact ⟨n - 2, by omega⟩
    refine ⟨some (a + pre.length), w.mem, ?_, Tokenized.single hpre htok hne hstr pname⟩
    refine Prog.bind_of (strtok_last hs hpre htok hne hstr hfuel) ?_
    rw [remainingTokens_some]
    -- `last` is `NULL`: there is no other token
    exact Prog.bind_of (Prog.bind_of rfl rfl) (remainingTokens_none _ _)
  | @more pre tok c rest hpre htok hne hc hrest ih =>
    obtain ⟨n, rfl⟩ : ∃ k, n = k + 1 := ⟨n - 1, by omega⟩
    have hrun := strtok_more hs hpre htok hne hc hstr hfuel
    simp only [List.length_append, List.length_cons] at hfuel hn
    let at' := a + pre.length + tok.length
    let mem := Memory.blit at' 1 (fun _ => 0) w.mem
    -- the rest of the string is where it was, and the first token has a NUL behind it
    have hright : HoldsString mem (at' + 1) rest := by
      have h : HoldsString w.mem (at' + 1) rest :=
        HoldsString.append_right (u := [c]) hstr.append_right.append_right
      exact h.congr fun b hb _ => Memory.blit_outside _ _ (Or.inr hb)
    have hleft : HoldsString mem a (pre ++ tok) := by
      rw [← List.append_assoc] at hstr
      have h := hstr.cut
      rwa [List.length_append, ← Nat.add_assoc] at h
    obtain ⟨r, m', hrest', hr⟩ := ih (w := ⟨mem, some (at' + 1)⟩) (s := none) rfl hright
      (by omega) (by omega : rest.length + 1 < n) (some (a + pre.length))
    refine ⟨r, m', ?_, Tokenized.more hpre htok hne hc hleft hr pname⟩
    refine Prog.bind_of hrun ?_
    rw [remainingTokens_some]
    exact hrest'

/-- **The last token.**  It is the last segment of the string. -/
theorem lastToken_spec (hnul : 0 ∉ delim) (hstr : HoldsString w.mem a str)
    (hfuel : str.length + 1 < fuel) :
    ∃ r m', lastToken fuel delim a w = (some r, ⟨m', none⟩) ∧
      Tokenized delim w.mem m' a str none r :=
  tokens_spec hnul (segmented str) rfl hstr (by omega) hfuel none

end HtcLeo.Smem

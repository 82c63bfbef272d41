import ClassicBasic.Proofs.Expr.Grammar

/-!
# Steps of the scan

What `Lexeme.scan` does at each token: where an operator is found (`symbolAt?_spelling`,
`symbolAt?_eq_none`), and how the texts of operands, quotes and parentheses are passed. Offsets only
serve messages, so that the offset behind a token is left open.
-/

namespace ClassicBasic

namespace Lexeme

open Text (allBlank isBlank isWordChar)

/-! ## Operators -/

theorem symbols_spelling : ∀ e ∈ symbols, e.1 = (Token.symbol e.2).spelling := by decide

/-- An operator stands in a text where its characters do, apart from words if it is one. -/
theorem occursAt_spelling {s : Symbol} {before : Option Char} {cs : List Char} :
    Text.occursAt (Token.symbol s).spelling before cs = true ↔
      ∃ rest, cs = (Token.symbol s).spelling ++ rest ∧
        (Token.symbol s).Apart before rest.head? := by
  have hword : (Token.symbol s).spelling.all Char.isAlpha = (Token.symbol s).isKeyword :=
    Token.forall_symbol s (by decide)
  have halone (rest : List Char) :
      Text.standsAlone (Token.symbol s).spelling before rest.head? = true ↔
        (Token.symbol s).Apart before rest.head? := by
    rw [Text.standsAlone, hword, Token.Apart]
    cases (Token.symbol s).isKeyword <;> simp [Option.any_eq_false]
  simp only [Text.occursAt_iff, halone]

/-- The operator found at the start of a text stands there. -/
theorem symbolAt?_spec {token : List Char} {before : Option Char} {cs : List Char} {s : Symbol}
    {n : Nat} (h : symbolAt? token before cs = some (s, n)) :
    ∃ rest, cs = (Token.symbol s).spelling ++ rest ∧ n = (Token.symbol s).spelling.length ∧
      (Token.symbol s).Apart before rest.head? := by
  obtain ⟨⟨spelling, s'⟩, hfind, heq⟩ := Option.map_eq_some_iff.mp h
  simp only [Prod.mk.injEq] at heq
  obtain ⟨rfl, rfl⟩ := heq
  have hspelling := symbols_spelling _ (List.mem_of_find?_eq_some hfind)
  have hoccurs := List.find?_some hfind
  simp only [Bool.and_eq_true] at hoccurs hspelling
  obtain ⟨rest, hrest, hapart⟩ := occursAt_spelling.mp (hspelling ▸ hoccurs.1)
  exact ⟨rest, hrest, by rw [hspelling], hapart⟩

/-- No operator is found where none of them stands. -/
theorem symbolAt?_eq_none {token : List Char} {before : Option Char} {cs : List Char}
    (h : ∀ s, Text.occursAt (Token.symbol s).spelling before cs = false ∨
      (s = .operator .plus ∨ s = .minus) ∧ inExponent token = true) :
    symbolAt? token before cs = none := by
  rw [symbolAt?, Option.map_eq_none_iff, List.find?_eq_none]
  rintro ⟨spelling, s⟩ hmem
  obtain rfl : spelling = (Token.symbol s).spelling := symbols_spelling _ hmem
  rcases h s with h | ⟨hs, hexp⟩
  · simp [h]
  · rcases hs with rfl | rfl <;> simp [hexp]

/-- No word operator stands where none is found. -/
theorem occursAt_of_symbolAt?_eq_none {token : List Char} {before : Option Char} {cs : List Char}
    (h : symbolAt? token before cs = none) {s : Symbol}
    (hs : (Token.symbol s).isKeyword = true) :
    Text.occursAt (Token.symbol s).spelling before cs = false := by
  rw [symbolAt?, Option.map_eq_none_iff, List.find?_eq_none] at h
  have hsign : (s == .operator .plus || s == .minus) = false := by
    revert hs
    exact Token.forall_symbol s (by decide)
  simpa [hsign] using h _ (Token.mem_symbols s)

/-- The operators in front of another in the table differ from it or go on behind it. -/
theorem earlier_symbols (s : Symbol) : ∀ e ∈ symbols.takeWhile (·.2 != s),
    ¬ (e.1 <+: (Token.symbol s).spelling ∨ (Token.symbol s).spelling <+: e.1) ∨
      e.1 = (Token.symbol s).spelling ++ ['='] ∨ e.1 = (Token.symbol s).spelling ++ ['>'] :=
  Token.forall_symbol s (by decide)

theorem symbols_split (s : Symbol) : ∃ post,
    symbols = symbols.takeWhile (·.2 != s) ++ ((Token.symbol s).spelling, s) :: post := by
  cases s with
  | operator op => cases op <;> exact ⟨_, rfl⟩
  | minus => exact ⟨_, rfl⟩
  | slash => exact ⟨_, rfl⟩

/-- An operator is found where it stands, unless it goes on as a longer one. -/
theorem symbolAt?_spelling {token : List Char} {before : Option Char} {s : Symbol}
    {rest : List Char} (htoken : inExponent token = false)
    (hapart : (Token.symbol s).Apart before rest.head?)
    (hrest : ∀ c ∈ rest.head?, c ≠ '=' ∧ c ≠ '>') :
    symbolAt? token before ((Token.symbol s).spelling ++ rest) =
      some (s, (Token.symbol s).spelling.length) := by
  obtain ⟨post, hsplit⟩ := symbols_split s
  have hs : Text.occursAt (Token.symbol s).spelling before ((Token.symbol s).spelling ++ rest) =
      true := occursAt_spelling.mpr ⟨rest, rfl, hapart⟩
  have hearlier : ∀ e ∈ symbols.takeWhile (·.2 != s),
      Text.occursAt e.1 before ((Token.symbol s).spelling ++ rest) = false := by
    intro e he
    rw [Bool.eq_false_iff]
    intro hoccurs
    obtain ⟨tail, htail, -⟩ := Text.occursAt_iff.mp hoccurs
    rcases earlier_symbols s e he with hdiffer | heq | heq
    · exact hdiffer (List.prefix_or_prefix_of_prefix ⟨tail, htail.symm⟩ ⟨rest, rfl⟩)
    · rw [heq, List.append_assoc] at htail
      rw [List.append_cancel_left htail] at hrest
      exact (hrest '=' rfl).1 rfl
    · rw [heq, List.append_assoc] at htail
      rw [List.append_cancel_left htail] at hrest
      exact (hrest '>' rfl).2 rfl
  rw [symbolAt?, Option.map_eq_some_iff]
  refine ⟨((Token.symbol s).spelling, s), List.find?_eq_some_iff_append.mpr ⟨?_, ?_⟩, rfl⟩
  · simp [hs, htoken]
  · exact ⟨_, post, hsplit, fun e he => by simp [hearlier e he]⟩

/-- The first characters of operators. -/
theorem symbol_head (s : Symbol) : ∀ c ∈ (Token.symbol s).spelling.head?,
    isBlank c = false ∧ Numeral.isMantissa c = false ∧ c ≠ 'e' ∧ c ≠ 'E' ∧
      ((Token.symbol s).isKeyword = false → isWordChar c = false) := by
  cases s with
  | operator op =>
    cases op <;> rintro c ⟨⟩ <;> decide
  | minus =>
    rintro c ⟨⟩
    decide
  | slash =>
    rintro c ⟨⟩
    decide

theorem keyword_spelling {s : Symbol} (h : (Token.symbol s).isKeyword = true) :
    (Token.symbol s).spelling = ['A', 'N', 'D'] ∨ (Token.symbol s).spelling = ['O', 'R'] := by
  revert h
  exact Token.forall_symbol s (by decide)

theorem head?_of_occursAt {s : Symbol} {before : Option Char} {c : Char} {cs : List Char}
    (h : Text.occursAt (Token.symbol s).spelling before (c :: cs) = true) :
    c ∈ (Token.symbol s).spelling.head? := by
  obtain ⟨rest, hrest, -⟩ := occursAt_spelling.mp h
  obtain ⟨d, u, hspelling⟩ := List.exists_cons_of_ne_nil
    (Token.spelling_ne_nil (t := .symbol s) trivial)
  rw [hspelling] at hrest ⊢
  rw [(List.cons.inj hrest).1]
  rfl

/-- No operator starts with a blank, nor with a character that a number can have but a sign. -/
theorem symbolAt?_of_head {token : List Char} {before : Option Char} {c : Char} {cs : List Char}
    (hc : isBlank c = true ∨ Numeral.isMantissa c = true ∨ c = 'e' ∨ c = 'E') :
    symbolAt? token before (c :: cs) = none := by
  refine symbolAt?_eq_none fun s => .inl (Bool.eq_false_iff.mpr fun hoccurs => ?_)
  obtain ⟨hblank, hmantissa, he, hE, -⟩ := symbol_head s c (head?_of_occursAt hoccurs)
  rcases hc with hc | hc | hc | hc
  · rw [hc] at hblank
    cases hblank
  · rw [hc] at hmantissa
    cases hmantissa
  · exact he hc
  · exact hE hc

theorem sign_head (s : Symbol) :
    ((Token.symbol s).spelling.head? = some '+' → s = .operator .plus) ∧
      ((Token.symbol s).spelling.head? = some '-' → s = .minus) :=
  Token.forall_symbol s (by decide)

/-- A sign inside a number is no operator. -/
theorem symbolAt?_of_inExponent {token : List Char} {before : Option Char} {c : Char}
    {cs : List Char} (hc : c = '+' ∨ c = '-') (htoken : inExponent token = true) :
    symbolAt? token before (c :: cs) = none := by
  refine symbolAt?_eq_none fun s => ?_
  by_cases hoccurs : Text.occursAt (Token.symbol s).spelling before (c :: cs) = true
  · have hhead : (Token.symbol s).spelling.head? = some c := head?_of_occursAt hoccurs
    refine .inr ⟨?_, htoken⟩
    rcases hc with rfl | rfl
    · exact .inl ((sign_head s).1 hhead)
    · exact .inr ((sign_head s).2 hhead)
  · exact .inl (by simpa using hoccurs)

/-- No operator stands inside a name, nor at its start. -/
theorem symbolAt?_name {token : List Char} {before : Option Char} {u v rest : List Char} {c : Char}
    (hname : (Token.name (u ++ c :: v)).Valid)
    (hrest : ∀ d ∈ rest.head?, isWordChar d = false) :
    symbolAt? token (u.getLast?.or before) (c :: (v ++ rest)) = none := by
  have hword := Text.isWordChar_of_isName hname.1
  refine symbolAt?_eq_none fun s => .inl (Bool.eq_false_iff.mpr fun hoccurs => ?_)
  have hkey : (Token.symbol s).isKeyword = true := by
    obtain ⟨-, -, -, -, h⟩ := symbol_head s c (head?_of_occursAt hoccurs)
    rw [← Bool.not_eq_false]
    intro hkey
    have := hword c (by simp)
    rw [h hkey] at this
    cases this
  obtain ⟨tail, htail, hapart⟩ := occursAt_spelling.mp hoccurs
  obtain ⟨hbefore, hafter⟩ := hapart hkey
  rcases List.eq_nil_or_concat u with rfl | ⟨init, d, rfl⟩
  · -- Both the name and the operator are the run of word characters at the start.
    have hrun {w x : List Char} (hw : ∀ c ∈ w, isWordChar c = true)
        (hx : ∀ c ∈ x.head?, isWordChar c = false) : (w ++ x).takeWhile isWordChar = w := by
      rw [List.takeWhile_append_of_pos hw]
      cases x with
      | nil => simp
      | cons d x => simp [hx d rfl]
    have hspelling : (Token.symbol s).spelling.all isWordChar = true := by
      rcases keyword_spelling hkey with h | h <;> rw [h] <;> decide
    have heq : c :: v = (Token.symbol s).spelling := by
      rw [← hrun (List.all_eq_true.mp hspelling) hafter, ← htail]
      exact (hrun hword hrest).symm
    rcases keyword_spelling hkey with h | h
    · exact hname.2.1 (heq.trans h)
    · exact hname.2.2 (heq.trans h)
  · have hd := hword d (by simp)
    rw [hbefore d (by simp)] at hd
    cases hd

/-! ## Ends of words -/

/-- A word does not go on: a word character has none behind it. -/
def Boundary (before : Option Char) (cs : List Char) : Prop :=
  ∀ c ∈ before, isWordChar c = true → ∀ d ∈ cs.head?, isWordChar d = false

/-- In front of an operator no word goes on. -/
theorem boundary_before {s : Symbol} {before : Option Char} {cs : List Char}
    (h : (Token.symbol s).Apart before cs.head?) :
    Boundary before ((Token.symbol s).spelling ++ cs) := by
  intro c hc hword d hd
  rw [List.head?_append_of_ne_nil _ (Token.spelling_ne_nil (t := .symbol s) trivial)] at hd
  refine (symbol_head s d hd).2.2.2.2 (Bool.eq_false_iff.mpr fun hkey => ?_)
  rw [(h hkey).1 c hc] at hword
  cases hword

/-- Behind an operator no word goes on. -/
theorem boundary_after {s : Symbol} {before : Option Char} {cs : List Char}
    (h : (Token.symbol s).Apart before cs.head?) :
    Boundary (Token.symbol s).spelling.getLast? cs := by
  have hlast : (Token.symbol s).isKeyword = true ∨
      (Token.symbol s).spelling.getLast?.any isWordChar = false :=
    Token.forall_symbol s (by decide)
  intro c hc hword
  rcases hlast with hkey | hlast
  · exact (h hkey).2
  · rw [hc, Option.any_some, hword] at hlast
    cases hlast

/-! ## Steps of the scan -/

section
variable {token rest : List Char} {before : Option Char}

theorem scan_skip (token u rest : List Char) (before : Option Char) (offset : Nat) :
    ∃ offset', scan token before offset u.length (u ++ rest) =
      scan token (u.getLast?.or before) offset' 0 rest := by
  induction u generalizing before offset with
  | nil => exact ⟨offset, rfl⟩
  | cons c u ih =>
    rw [getLast?_cons_or]
    exact ih _ _

theorem scan_quoted {body : List Char} (hbody : '"' ∉ body) (offset : Nat) :
    ∃ offset', scan token before offset 0 ('"' :: body ++ '"' :: rest) =
      scan (token ++ ('"' :: body ++ ['"'])) (some '"') offset' 0 rest := by
  have hcut : Text.cutAt? (· == '"') (body ++ '"' :: rest) = some (body, rest) :=
    Text.cutAt?_char.mpr ⟨rfl, hbody⟩
  have hstep : scan token before offset 0 ('"' :: body ++ '"' :: rest) =
      scan (token ++ '"' :: body ++ ['"']) (some '"') (offset + '"'.utf8Size)
        (body.length + 1) (body ++ '"' :: rest) := by
    simp [scan, hcut]
  obtain ⟨offset', hskip⟩ := scan_skip (token ++ '"' :: body ++ ['"']) (body ++ ['"']) rest
    (some '"') (offset + '"'.utf8Size)
  exact ⟨offset', hstep.trans (by simpa using hskip)⟩

theorem scan_parens {inner : List Char}
    (h : Text.closing? ('(' :: inner ++ ')' :: rest) = some ('(' :: inner, rest)) (offset : Nat) :
    ∃ offset', scan token before offset 0 ('(' :: inner ++ ')' :: rest) =
      .parens (Text.trim token) inner :: scan [] (some ')') offset' 0 rest := by
  have hstep : scan token before offset 0 ('(' :: inner ++ ')' :: rest) =
      .parens (Text.trim token) inner :: scan [] (some '(') (offset + '('.utf8Size)
        (inner.length + 1) (inner ++ ')' :: rest) := by
    rw [List.cons_append] at h ⊢
    simp [scan, h]
  obtain ⟨offset', hskip⟩ := scan_skip [] (inner ++ [')']) rest (some '(') (offset + '('.utf8Size)
  refine ⟨offset', hstep.trans (congrArg _ ?_)⟩
  simpa using hskip

/-- A character other than a quote or a parenthesis starts an operator or goes on with the operand
text. -/
theorem scan_char {c : Char} (hc : c ≠ '"' ∧ c ≠ '(' ∧ c ≠ ')') (offset : Nat) :
    scan token before offset 0 (c :: rest) =
      match symbolAt? token before (c :: rest) with
      | some (s, length) =>
        flush token ++ .symbol s :: scan [] (some c) (offset + c.utf8Size) (length - 1) rest
      | none => scan (token ++ [c]) (some c) (offset + c.utf8Size) 0 rest := by
  have hquote : ¬ (c == '"') = true := by simpa using hc.1
  have hopen : ¬ (c == '(') = true := by simpa using hc.2.1
  have hclose : ¬ (c == ')') = true := by simpa using hc.2.2
  exact (if_neg hquote).trans ((if_neg hopen).trans (if_neg hclose))

theorem scan_symbol {s : Symbol}
    (h : symbolAt? token before ((Token.symbol s).spelling ++ rest) =
      some (s, (Token.symbol s).spelling.length)) (offset : Nat) :
    ∃ offset', scan token before offset 0 ((Token.symbol s).spelling ++ rest) =
      flush token ++ .symbol s :: scan [] (Token.symbol s).spelling.getLast? offset' 0 rest := by
  have hinert := Token.isInert_symbol s
  have hne : (Token.symbol s).spelling ≠ [] := Token.spelling_ne_nil trivial
  generalize (Token.symbol s).spelling = spelling at h hinert hne ⊢
  obtain ⟨c, u, rfl⟩ := List.exists_cons_of_ne_nil hne
  have hstep : scan token before offset 0 (c :: (u ++ rest)) = _ :=
    scan_char (Text.ne_of_isInert (hinert c (by simp))) offset
  rw [List.cons_append] at h ⊢
  rw [h] at hstep
  obtain ⟨offset', hskip⟩ := scan_skip [] u rest (some c) (offset + c.utf8Size)
  refine ⟨offset', hstep.trans ?_⟩
  simp only [List.length_cons, Nat.add_sub_cancel, hskip]
  rw [← getLast?_cons_or c u none, Option.or_none]

/-- What the scan gives for a text that is not at its end, by what stands there. -/
inductive Step (token : List Char) (before : Option Char) : List Char → List Lexeme → Prop where
  | quoted {body rest : List Char} {offset : Nat} :
    '"' ∉ body →
    Step token before ('"' :: body ++ '"' :: rest)
      (scan (token ++ ('"' :: body ++ ['"'])) (some '"') offset 0 rest)
  | parens {inner rest : List Char} {offset : Nat} :
    Text.closing? ('(' :: inner ++ ')' :: rest) = some ('(' :: inner, rest) →
    Step token before ('(' :: inner ++ ')' :: rest)
      (.parens (Text.trim token) inner :: scan [] (some ')') offset 0 rest)
  | symbol {s : Symbol} {rest : List Char} {offset : Nat} :
    (Token.symbol s).Apart before rest.head? →
    Step token before ((Token.symbol s).spelling ++ rest)
      (flush token ++ .symbol s :: scan [] (Token.symbol s).spelling.getLast? offset 0 rest)
  | char {c : Char} {rest : List Char} {offset : Nat} :
    (∀ s, (Token.symbol s).isKeyword = true →
      Text.occursAt (Token.symbol s).spelling before (c :: rest) = false) →
    Step token before (c :: rest) (scan (token ++ [c]) (some c) offset 0 rest)
  | fault {c : Char} {rest : List Char} {e : SyntaxError} :
    Step token before (c :: rest) [.fault e]

theorem step_quote (cs : List Char) (offset : Nat) :
    Step token before ('"' :: cs) (scan token before offset 0 ('"' :: cs)) := by
  cases hcut : Text.cutAt? (· == '"') cs with
  | none =>
    have hscan : scan token before offset 0 ('"' :: cs) = [.fault (.unterminatedText offset)] := by
      simp [scan, hcut]
    rw [hscan]
    exact .fault
  | some cut =>
    obtain ⟨body, rest⟩ := cut
    obtain ⟨rfl, hquote⟩ := Text.cutAt?_char.mp hcut
    obtain ⟨offset', hscan⟩ : ∃ offset', scan token before offset 0 ('"' :: body ++ '"' :: rest) =
        _ := scan_quoted hquote offset
    rw [← List.cons_append, hscan]
    exact .quoted hquote

theorem step_open (cs : List Char) (offset : Nat) :
    Step token before ('(' :: cs) (scan token before offset 0 ('(' :: cs)) := by
  cases hclosing : Text.closing? ('(' :: cs) with
  | none =>
    have hscan : scan token before offset 0 ('(' :: cs) = [.fault (.unmatchedOpen offset)] := by
      simp [scan, hclosing]
    rw [hscan]
    exact .fault
  | some cut =>
    obtain ⟨body, rest⟩ := cut
    obtain ⟨inner, rfl, rfl, -⟩ := Text.closing?_open hclosing
    obtain ⟨offset', hscan⟩ : ∃ offset', scan token before offset 0
        ('(' :: inner ++ ')' :: rest) = _ := scan_parens hclosing offset
    rw [← List.cons_append, hscan]
    exact .parens hclosing

/-- **One step of the scan.** -/
theorem scan_step (c : Char) (cs : List Char) (offset : Nat) :
    Step token before (c :: cs) (scan token before offset 0 (c :: cs)) := by
  by_cases hquote : c = '"'
  · subst hquote
    exact step_quote cs offset
  · by_cases hopen : c = '('
    · subst hopen
      exact step_open cs offset
    · by_cases hclose : c = ')'
      · subst hclose
        exact .fault
      · cases hsymbol : symbolAt? token before (c :: cs) with
        | none =>
          rw [scan_char ⟨hquote, hopen, hclose⟩, hsymbol]
          exact .char fun s hs => occursAt_of_symbolAt?_eq_none hsymbol hs
        | some found =>
          obtain ⟨s, length⟩ := found
          obtain ⟨rest, hcs, rfl, hapart⟩ := symbolAt?_spec hsymbol
          rw [hcs] at hsymbol ⊢
          obtain ⟨offset', hscan⟩ := scan_symbol hsymbol offset
          rw [hscan]
          exact .symbol hapart

/-- A run of characters at which no operator stands goes on with the operand text. -/
theorem scan_run {w : List Char}
    (h : ∀ u c v, w = u ++ c :: v → (c ≠ '"' ∧ c ≠ '(' ∧ c ≠ ')') ∧
      symbolAt? (token ++ u) (u.getLast?.or before) (c :: (v ++ rest)) = none) (offset : Nat) :
    ∃ offset', scan token before offset 0 (w ++ rest) =
      scan (token ++ w) (w.getLast?.or before) offset' 0 rest := by
  induction w generalizing token before offset with
  | nil => exact ⟨offset, by simp⟩
  | cons c w ih =>
    obtain ⟨hc, hnone⟩ := h [] c w rfl
    simp only [List.append_nil, List.getLast?_nil, Option.none_or] at hnone
    have hrest : ∀ u d v, w = u ++ d :: v → (d ≠ '"' ∧ d ≠ '(' ∧ d ≠ ')') ∧
        symbolAt? (token ++ [c] ++ u) (u.getLast?.or (some c)) (d :: (v ++ rest)) = none := by
      rintro u d v rfl
      have := h (c :: u) d v rfl
      rwa [getLast?_cons_or, List.append_cons] at this
    obtain ⟨offset', hw⟩ := ih hrest (offset + c.utf8Size)
    refine ⟨offset', ?_⟩
    rw [List.cons_append, scan_char hc, hnone, getLast?_cons_or, List.append_cons token c w]
    exact hw

/-! ## Operand texts -/

theorem scan_blanks {ws : List Char} (hws : allBlank ws = true) (offset : Nat) :
    ∃ offset', scan token before offset 0 (ws ++ rest) =
      scan (token ++ ws) (ws.getLast?.or before) offset' 0 rest := by
  refine scan_run (fun u c v heq => ?_) offset
  have hc : isBlank c = true := List.all_eq_true.mp hws c (by simp [heq])
  exact ⟨Text.ne_of_isInert (Text.isInert_of_isBlank hc), symbolAt?_of_head (.inl hc)⟩

theorem scan_name {name : List Char} (hname : (Token.name name).Valid)
    (hrest : ∀ d ∈ rest.head?, isWordChar d = false) (offset : Nat) :
    ∃ offset', scan token before offset 0 (name ++ rest) =
      scan (token ++ name) (name.getLast?.or before) offset' 0 rest := by
  refine scan_run (fun u c v heq => ?_) offset
  subst heq
  have hword := Text.isWordChar_of_isName hname.1 c (by simp)
  exact ⟨Text.ne_of_isInert (Text.isInert_of_isWordChar hword), symbolAt?_name hname hrest⟩

/-- The text of a number up to the letter of its power of ten. -/
theorem inExponent_iff {cs : List Char} : inExponent cs = true ↔
    ∃ m e, Text.trimStart cs = m ++ [e] ∧ (e = 'e' ∨ e = 'E') ∧ m ≠ [] ∧
      ∀ c ∈ m, Numeral.isMantissa c = true := by
  unfold inExponent
  split
  · rename_i e mantissa heq
    rw [List.reverse_eq_cons_iff] at heq
    rw [heq]
    simp only [Bool.and_eq_true, Bool.or_eq_true, beq_iff_eq, Bool.not_eq_true',
      List.isEmpty_eq_false_iff, List.all_eq_true]
    constructor
    · rintro ⟨⟨he, hne⟩, hm⟩
      exact ⟨_, e, rfl, he.symm, by simpa using hne, fun c hc => by
        simpa [Numeral.isMantissa] using hm c (by simpa using hc)⟩
    · rintro ⟨m, e', h, he, hne, hm⟩
      obtain ⟨rfl, heq⟩ := List.append_inj' h rfl
      cases heq
      exact ⟨⟨he.symm, by simpa using hne⟩, fun c hc => by
        simpa [Numeral.isMantissa] using hm c (by simpa using hc)⟩
  · rename_i heq
    rw [List.reverse_eq_nil_iff] at heq
    simp [heq]

theorem scan_number {cs : List Char} (hcs : (Token.number cs).Valid)
    (htoken : allBlank token = true) (offset : Nat) :
    ∃ offset', scan token before offset 0 (cs ++ rest) =
      scan (token ++ cs) (cs.getLast?.or before) offset' 0 rest := by
  refine scan_run (fun u c v heq => ?_) offset
  subst heq
  refine ⟨Text.ne_of_isInert (Token.isInert_number hcs c (by simp)).1, ?_⟩
  have hsign (hc : c = '+' ∨ c = '-') : inExponent (token ++ u) = true := by
    obtain ⟨m, e, rfl, he, hne, hm⟩ := (Token.numeric hcs).sign hc
    refine inExponent_iff.mpr ⟨m, e, ?_, he, hne, hm⟩
    refine Text.dropWhile_isBlank_append htoken fun d hd => ?_
    have hmem : d ∈ m ++ [e] := List.mem_of_mem_head? hd
    exact (Token.isInert_number hcs d (List.mem_append_left _ hmem)).2
  rcases (Token.numeric hcs).chars c (by simp) with hc | hc | hc | hc | hc
  · exact symbolAt?_of_head (.inr (.inl hc))
  · exact symbolAt?_of_head (.inr (.inr (.inl hc)))
  · exact symbolAt?_of_head (.inr (.inr (.inr hc)))
  · exact symbolAt?_of_inExponent (.inl hc) (hsign (.inl hc))
  · exact symbolAt?_of_inExponent (.inr hc) (hsign (.inr hc))

theorem scan_atom {t : Token} (ht : t.isAtom = true) (hv : t.Valid)
    (htoken : allBlank token = true) (hrest : Boundary t.spelling.getLast? rest) (offset : Nat) :
    ∃ offset', scan token before offset 0 (t.spelling ++ rest) =
      scan (token ++ t.spelling) t.spelling.getLast? offset' 0 rest := by
  rw [← Token.spelling_getLast?_or hv before]
  cases t with
  | number cs => exact scan_number hv htoken offset
  | text body =>
    have hcs : (Token.text body).spelling ++ rest = '"' :: body ++ '"' :: rest := by
      simp [Token.spelling]
    have hlast : (Token.text body).spelling.getLast?.or before = some '"' := by
      rw [Token.spelling, List.getLast?_concat, Option.some_or]
    rw [hcs, hlast]
    exact scan_quoted hv offset
  | name cs =>
    obtain ⟨c, hc⟩ := Option.isSome_iff_exists.mp
      (List.getLast?_isSome.mpr (Token.spelling_ne_nil hv))
    have hword := Text.isWordChar_of_isName hv.1 c (List.mem_of_getLast? hc)
    exact scan_name hv (hrest c hc hword) offset
  | symbol => cases ht
  | opening => cases ht
  | closing => cases ht
  | comma => cases ht

theorem getLast?_of_inExponent {cs : List Char} (h : inExponent cs = true) :
    cs.getLast? = some 'e' ∨ cs.getLast? = some 'E' := by
  obtain ⟨m, e, hcs, he, -⟩ := inExponent_iff.mp h
  obtain ⟨pre, hpre⟩ : Text.trimStart cs <:+ cs := List.dropWhile_suffix _
  rw [← hpre, hcs, ← List.append_assoc, List.getLast?_concat]
  rcases he with rfl | rfl
  · exact .inl rfl
  · exact .inr rfl

theorem inExponent_append_blank {c : Char} (hc : isBlank c = true) :
    inExponent (token ++ [c]) = false := by
  rw [Bool.eq_false_iff]
  intro h
  have hlast := getLast?_of_inExponent h
  rw [List.getLast?_concat, Option.some_inj, Option.some_inj] at hlast
  rcases hlast with rfl | rfl <;> exact absurd hc (by decide)

theorem inExponent_of_allBlank (h : allBlank token = true) : inExponent token = false := by
  rcases List.eq_nil_or_concat token with rfl | ⟨init, c, rfl⟩
  · rfl
  · rw [List.concat_eq_append] at h ⊢
    exact inExponent_append_blank (List.all_eq_true.mp h c (by simp))

/-- An atom is not the beginning of a number. -/
theorem inExponent_atom {t : Token} (ht : t.isAtom = true) (hv : t.Valid)
    (htoken : allBlank token = true) : inExponent (token ++ t.spelling) = false := by
  rw [Bool.eq_false_iff]
  intro h
  obtain ⟨m, e, htrim, he, hne, hm⟩ := inExponent_iff.mp h
  have hspelling : t.spelling = m ++ [e] := by
    rw [← htrim]
    exact (Text.dropWhile_isBlank_append htoken (Token.trimmed ht hv).1).symm
  cases t with
  | number cs =>
    obtain ⟨c, hc, hmantissa⟩ := (Token.numeric hv).getLast?
    rw [show cs = m ++ [e] from hspelling, List.getLast?_concat] at hc
    cases hc
    rcases he with rfl | rfl <;> exact absurd hmantissa (by decide)
  | text body =>
    obtain ⟨-, hlast⟩ := List.append_inj' hspelling rfl
    cases hlast
    exact absurd he (by decide)
  | name cs =>
    obtain ⟨c, hc, halpha⟩ := Text.head?_of_isName hv.1
    obtain ⟨d, m, rfl⟩ := List.exists_cons_of_ne_nil hne
    rw [show cs = d :: m ++ [e] from hspelling] at hc
    cases hc
    have hmantissa := hm c (by simp)
    rw [Numeral.isMantissa_iff] at hmantissa
    rw [Text.isAlpha_iff] at halpha
    omega
  | symbol => cases ht
  | opening => cases ht
  | closing => cases ht
  | comma => cases ht

theorem flush_of_allBlank (h : allBlank token = true) : flush token = [] := by
  simp [flush, Text.trim_eq_nil.mpr h]

theorem flush_append_blank {c : Char} (hc : isBlank c = true) :
    flush (token ++ [c]) = flush token := by
  have htrim : Text.trim (token ++ [c]) = Text.trim token := by
    obtain ⟨pre, post, htoken, hpre, htrimmed, hpost⟩ := Text.exists_trim token
    have heq : token ++ [c] = pre ++ Text.trim token ++ (post ++ [c]) := by
      rw [← List.append_assoc, ← htoken]
    rw [heq]
    exact Text.trim_between hpre htrimmed (by simpa [allBlank, hc] using hpost)
  rw [flush, flush, htrim]

theorem flush_atom {t : Token} (ht : t.isAtom = true) (hv : t.Valid)
    (htoken : allBlank token = true) : flush (token ++ t.spelling) = [.operand t.spelling] := by
  have htrim : Text.trim (token ++ t.spelling ++ []) = t.spelling :=
    Text.trim_between htoken (Token.trimmed ht hv) rfl
  rw [List.append_nil] at htrim
  have hne : t.spelling.isEmpty = false := by simpa using Token.spelling_ne_nil hv
  simp [flush, htrim, hne]

end

end Lexeme

end ClassicBasic

import ClassicBasic.Proofs.Expr.Blanks

/-!
# Cutting a text between its lexemes

A text that consists of lexemes can be cut between any two of them (`Lexed.split`): what stands in
front of the cut consists of the lexemes in front of it, for a parenthesis is closed by the same
character whatever follows.

An expression is read from its lexemes (`Expr.lexed_of_parse`), and blanks around it decide nothing
(`Expr.parse_trim_iff`). So a text is no expression if its first lexeme is a word operator
(`Expr.not_parse_of_keyword`) or its last one is an operator (`Expr.not_parse_of_symbol`).
-/

namespace ClassicBasic

namespace Lexed

variable {before : Option Char} {ks ls : List Lexeme} {cs : List Char}

theorem apart_of_append {s : Symbol} {u v : List Char}
    (h : (Token.symbol s).Apart before (u ++ v).head?) : (Token.symbol s).Apart before u.head? := by
  refine fun hkey => ⟨(h hkey).1, fun c hc => (h hkey).2 c ?_⟩
  rw [List.head?_append, hc]
  rfl

/-- A text is cut where its lexemes are. -/
theorem split (h : Lexed before (ks ++ ls) cs) :
    ∃ u v, cs = u ++ v ∧ Lexed before ks u ∧ Lexed (u.getLast?.or before) ls v := by
  generalize hall : ks ++ ls = all at h
  induction h generalizing ks with
  | nil =>
    obtain ⟨rfl, rfl⟩ := List.append_eq_nil_iff.mp hall
    exact ⟨[], [], rfl, .nil, .nil⟩
  | @blank before c all cs hc h ih =>
    obtain ⟨u, v, rfl, hu, hv⟩ := ih hall
    refine ⟨c :: u, v, rfl, .blank hc hu, ?_⟩
    rw [getLast?_cons_or]
    exact hv
  | @symbol before s all cs hapart h ih =>
    cases ks with
    | nil => exact ⟨[], _, rfl, .nil, by simpa [← hall] using Lexed.symbol hapart h⟩
    | cons k ks =>
      obtain ⟨rfl, htail⟩ := List.cons.inj hall
      obtain ⟨u, v, rfl, hu, hv⟩ := ih htail
      refine ⟨(Token.symbol s).spelling ++ u, v, by simp, .symbol (apart_of_append hapart) hu, ?_⟩
      rw [getLast?_append_or, Token.spelling_getLast?_or (t := .symbol s) trivial]
      exact hv
  | @operand before t all cs ht hvalid h ih =>
    cases ks with
    | nil => exact ⟨[], _, rfl, .nil, by simpa [← hall] using Lexed.operand ht hvalid h⟩
    | cons k ks =>
      obtain ⟨rfl, htail⟩ := List.cons.inj hall
      obtain ⟨u, v, rfl, hu, hv⟩ := ih htail
      refine ⟨t.spelling ++ u, v, by simp, .operand ht hvalid hu, ?_⟩
      rw [getLast?_append_or, Token.spelling_getLast?_or hvalid]
      exact hv
  | @parens before name ws inner all cs hname hws hclosing h ih =>
    cases ks with
    | nil => exact ⟨[], _, rfl, .nil, by simpa [← hall] using Lexed.parens hname hws hclosing h⟩
    | cons k ks =>
      obtain ⟨rfl, htail⟩ := List.cons.inj hall
      obtain ⟨u, v, rfl, hu, hv⟩ := ih htail
      have hclosing' := (Text.closingFrom?_spec hclosing).2.closingFrom? u
      refine ⟨name ++ (ws ++ ('(' :: inner ++ ')' :: u)), v, by simp,
        .parens hname hws hclosing' hu, ?_⟩
      have hlast : (name ++ (ws ++ ('(' :: inner ++ ')' :: u))).getLast?.or before =
          u.getLast?.or (some ')') := by
        rw [getLast?_append_or, getLast?_append_or, getLast?_append_or, getLast?_cons_or]
      rwa [hlast]

/-- The first lexeme stands behind blanks only. -/
theorem uncons {l : Lexeme} (h : Lexed before (l :: ls) cs) :
    ∃ ws rest, cs = ws ++ rest ∧ Text.allBlank ws = true ∧
      ((∃ s tail, l = .symbol s ∧ rest = (Token.symbol s).spelling ++ tail ∧
          (Token.symbol s).Apart (ws.getLast?.or before) tail.head? ∧
          Lexed (Token.symbol s).spelling.getLast? ls tail) ∨
        (∃ (t : Token) (tail : List Char), l = .operand t.spelling ∧ t.isAtom = true ∧ t.Valid ∧
          rest = t.spelling ++ tail) ∨ ∃ name inner, l = .parens name inner) := by
  generalize hall : l :: ls = all at h
  induction h with
  | nil => cases hall
  | @blank before c all cs hc _ ih =>
    obtain ⟨ws, rest, rfl, hws, hcases⟩ := ih hall
    refine ⟨c :: ws, rest, rfl, by simpa [Text.allBlank, hc] using hws, ?_⟩
    rwa [getLast?_cons_or]
  | @symbol before s all cs hapart h _ =>
    cases hall
    exact ⟨[], _, rfl, rfl, .inl ⟨s, cs, rfl, rfl, by simpa using hapart, h⟩⟩
  | @operand before t all cs ht hvalid _ _ =>
    cases hall
    exact ⟨[], _, rfl, rfl, .inr (.inl ⟨t, cs, rfl, ht, hvalid, rfl⟩)⟩
  | parens =>
    cases hall
    exact ⟨[], _, rfl, rfl, .inr (.inr ⟨_, _, rfl⟩)⟩

end Lexed

namespace Expr

variable {cs : List Char} {e : Expr}

theorem reads_of_parse (h : Expr.parse cs = .ok e) :
    ∃ parse, Fragment.Reads parse cs (.signs false) (Lexeme.all cs) (.complete e.tree) := by
  obtain ⟨tree, htree, he⟩ := bind_eq_ok.mp h
  cases he
  rw [Tree.parse] at htree
  cases hlength : cs.length with
  | zero =>
    rw [hlength] at htree
    cases htree
  | succ depth =>
    rw [hlength] at htree
    exact ⟨_, Tree.build_eq_ok.mp htree⟩

/-- An expression consists of the lexemes that it is read from. -/
theorem lexed_of_parse (h : Expr.parse cs = .ok e) :
    Lexed none (Lexeme.all cs) cs ∧
      ∃ parse, Fragment.Reads parse cs (.signs false) (Lexeme.all cs) (.complete e.tree) := by
  obtain ⟨parse, hr⟩ := reads_of_parse h
  obtain ⟨ls, hls, hr'⟩ := Lexed.reads_all_iff.mp hr
  have hscan : Lexeme.all cs = ls := hls.scan_eq hr' (.inl rfl) 0
  exact ⟨hscan ▸ hls, parse, hr⟩

/-- Blanks around a text do not decide whether it is an expression. -/
theorem parse_trim_iff : Expr.parse (Text.trim cs) = .ok e ↔ Expr.parse cs = .ok e := by
  refine ⟨fun h => ?_, parse_trim⟩
  obtain ⟨ts, hspelled, hts, hraw⟩ := exists_spelled h
  obtain ⟨pre, post, hcs, hpre, -, hpost⟩ := Text.exists_trim cs
  have hall : Spelled none ts cs := by
    rw [hcs, List.append_assoc]
    refine .blanks hpre ((hspelled.of_before fun c hc => ?_).append_blanks hpost)
    rw [Option.or_none] at hc
    exact Text.not_isWordChar_of_isBlank (List.all_eq_true.mp hpre c (List.mem_of_getLast? hc))
  have htree : Tree.parse cs = .ok e.tree :=
    hts.readable.parseWithin hts.ne_nil hall (Nat.le_refl _)
  rw [Text.trim_trim] at hraw
  rw [Expr.parse, htree]
  obtain ⟨raw, tree⟩ := e
  simp only at hraw
  rw [hraw]
  rfl

/-- No expression starts with a word operator. -/
theorem not_parse_of_keyword {s : Symbol} {rest : List Char}
    (hkey : (Token.symbol s).isKeyword = true)
    (hapart : (Token.symbol s).Apart none rest.head?)
    (hrest : ∀ c ∈ rest.head?, c ≠ '=' ∧ c ≠ '>') :
    Expr.parse ((Token.symbol s).spelling ++ rest) ≠ .ok e := by
  intro h
  obtain ⟨parse, hr⟩ := reads_of_parse h
  obtain ⟨offset, hscan⟩ : ∃ offset, Lexeme.all ((Token.symbol s).spelling ++ rest) =
      .symbol s :: Lexeme.scan [] (Token.symbol s).spelling.getLast? offset 0 rest :=
    Lexeme.scan_symbol (Lexeme.symbolAt?_spelling rfl hapart hrest) 0
  rw [hscan] at hr
  obtain ⟨m, hm, -⟩ := Fragment.reads_cons.mp hr
  rcases (Fragment.addSymbol_isComplete (f := .signs false) hm).2 rfl with rfl | rfl <;> cases hkey

/-- No expression ends in an operator. -/
theorem not_parse_of_symbol {s : Symbol} {ls : List Lexeme}
    (hls : Lexeme.all cs = ls ++ [.symbol s]) : Expr.parse cs ≠ .ok e := by
  intro h
  obtain ⟨parse, hr⟩ := reads_of_parse h
  rw [hls] at hr
  obtain ⟨m, -, hr⟩ := Fragment.reads_append.mp hr
  obtain ⟨m', hm', hr⟩ := Fragment.reads_cons.mp hr
  have hcomplete := (Fragment.addSymbol_isComplete hm').1
  rw [Fragment.reads_nil.mp hr] at hcomplete
  cases hcomplete

end Expr

end ClassicBasic

import ClassicBasic.Proofs.Expr.Cutting
import ClassicBasic.Proofs.Machine.Screen
import ClassicBasic.Proofs.Statement.Written

/-!
# Printing an expression

An expression behind PRINT is a list of one item, unless the scan of the list ends the item inside
it. The scan takes every letter for an operand, those of AND and OR too, so a text in quotes next to
one of them (`Lexeme.clashes`) is taken for two items. `Statement.print_expression` says that this
is all there is to it: where nothing clashes, PRINT writes the value of the expression, and where
something does, the statement is refused.

The scan is followed along the lexemes of the expression. Whether it ends the item depends on the
last character of it (`Clause.lastMark`), which is the last one of the lexeme in front
(`Lexed.continues`). At the first clash one of the two pieces ends in the word operator or starts
with it, and is no expression (`Clause.readPrintItems_clash`).
-/

namespace ClassicBasic

/-! ## Texts next to word operators -/

namespace Lexeme

/-- Operands in quotes. -/
def isQuoted : Lexeme → Bool
  | .operand cs => cs.getLast? == some '"'
  | _ => false

def isKeyword : Lexeme → Bool
  | .symbol s => (Token.symbol s).isKeyword
  | _ => false

/-- One of the two is a text in quotes and the other a word operator. -/
def clashes (a b : Lexeme) : Bool :=
  a.isQuoted && b.isKeyword || a.isKeyword && b.isQuoted

theorem clashes_comm (a b : Lexeme) : a.clashes b = b.clashes a := by
  rw [clashes, clashes, Bool.or_comm, Bool.and_comm, Bool.and_comm a.isQuoted]

theorem not_isKeyword {l : Lexeme} {s : Symbol} (hl : l.isQuoted = true)
    (h : l.clashes (.symbol s) = false) : (Token.symbol s).isKeyword = false := by
  rw [clashes, hl, Bool.true_and, Bool.or_eq_false_iff] at h
  exact h.1

/-- No text in quotes stands next to a word operator. -/
def Unbroken (ls : List Lexeme) : Prop := ls.IsChain fun a b => a.clashes b = false

instance (ls : List Lexeme) : Decidable (Unbroken ls) :=
  inferInstanceAs (Decidable (List.IsChain _ ls))

/-- The last character of a lexeme. -/
def last? : Lexeme → Option Char
  | .operand cs => cs.getLast?
  | .symbol s => (Token.symbol s).spelling.getLast?
  | .parens _ _ => some ')'
  | .fault _ => none

theorem isQuoted_iff {l : Lexeme} : l.isQuoted = true ↔ l.last? = some '"' := by
  cases l with
  | operand cs => simp [isQuoted, last?]
  | symbol s =>
    have hne : (Token.symbol s).spelling.getLast? ≠ some '"' := Token.forall_symbol s (by decide)
    simp [isQuoted, last?, hne]
  | parens => simp [isQuoted, last?]
  | fault => simp [isQuoted, last?]

/-- What comes up to the first clash. -/
theorem exists_clash {ls : List Lexeme} (h : ¬ Unbroken ls) :
    ∃ ks a b rest, ls = ks ++ [a] ++ b :: rest ∧ Unbroken (ks ++ [a]) ∧ a.clashes b = true := by
  induction ls with
  | nil => exact absurd .nil h
  | cons a ls ih =>
    cases ls with
    | nil => exact absurd (.singleton a) h
    | cons b ls =>
      cases hab : a.clashes b with
      | true => exact ⟨[], a, b, ls, rfl, .singleton a, hab⟩
      | false =>
        have htail : ¬ Unbroken (b :: ls) := fun hls => h (List.isChain_cons_cons.mpr ⟨hab, hls⟩)
        obtain ⟨ks, a', b', rest, hls, hks, hclash⟩ := ih htail
        refine ⟨a :: ks, a', b', rest, by rw [hls]; rfl, ?_, hclash⟩
        cases ks with
        | nil =>
          obtain ⟨rfl, -⟩ := List.cons.inj hls
          exact List.isChain_cons_cons.mpr ⟨hab, hks⟩
        | cons k ks =>
          obtain ⟨rfl, -⟩ := List.cons.inj hls
          exact List.isChain_cons_cons.mpr ⟨hab, hks⟩

end Lexeme

/-! ## How an item goes on -/

namespace Clause

variable {item u v ws : List Char}

/-- The last character of an item that is not blank. -/
def lastMark (item : List Char) : Option Char := (item.reverse.dropWhile Text.isBlank).head?

theorem lastMark_append_blanks (item : List Char) (hws : Text.allBlank ws = true) :
    lastMark (item ++ ws) = lastMark item := by
  have hblank : ∀ c ∈ ws.reverse, Text.isBlank c = true := by simpa [Text.allBlank] using hws
  rw [lastMark, List.reverse_append, List.dropWhile_append_of_pos hblank]
  rfl

theorem lastMark_append (item : List Char) (hne : u ≠ []) (hu : Text.Trimmed u) :
    lastMark (item ++ u) = u.getLast? := by
  obtain ⟨v, c, rfl⟩ := (List.eq_nil_or_concat u).resolve_left hne
  have hc : Text.isBlank c = false := hu.2 c (by simp)
  simp [lastMark, hc]

/-- An operand starts a new item behind a text in quotes. -/
theorem startsItem_of_ne {c : Char} (hc : c ≠ '"') (item : List Char) :
    startsItem item c = (c.isAlphanum && lastMark item == some '"') := by
  simp [startsItem, lastMark, hc]

/-- A text in quotes starts a new item behind an operand. -/
theorem startsItem_quote (item : List Char) : startsItem item '"' =
    (lastMark item).any fun c => c.isAlphanum || c == '$' || c == ')' || c == '"' := rfl

/-- The item goes on through `u`, at the end of which no quote and no parenthesis is open. -/
def Continues (item u : List Char) : Prop :=
  runsOn item (false, 0) u = true ∧ u.foldl printNesting (false, 0) = (false, 0)

theorem runsOn_append (item : List Char) (n : Bool × Nat) (u v : List Char) :
    runsOn item n (u ++ v) =
      (runsOn item n u && runsOn (item ++ u) (u.foldl printNesting n) v) := by
  induction u generalizing item n with
  | nil => simp [runsOn]
  | cons c u ih => simp [runsOn, ih, Bool.and_assoc]

theorem runsOn_quoted {body : List Char} (h : '"' ∉ body) (item : List Char) :
    runsOn item (true, 0) (body ++ ['"']) = true := by
  induction body generalizing item with
  | nil => rfl
  | cons c body ih =>
    simp only [List.mem_cons, not_or] at h
    have hnesting : printNesting (true, 0) c = (true, 0) := by
      simpa [printNesting] using fun hc => h.1 hc.symm
    rw [List.cons_append, runsOn, hnesting, ih h.2]
    rfl

/-- No item ends before its parentheses are closed. -/
theorem runsOn_closes {depth : Nat} {quoted : Bool} {body : List Char}
    (h : Text.Closes depth quoted body) (hdepth : depth ≠ 0) (item : List Char) :
    runsOn item (quoted, depth) (body ++ [')']) = true ∧
      (body ++ [')']).foldl printNesting (quoted, depth) = (false, 0) := by
  have hends {quoted : Bool} {depth : Nat} {item : List Char} {c : Char} (hdepth : depth ≠ 0) :
      endsItem item (quoted, depth) c = false := by
    simp [endsItem, hdepth]
  have step {quoted quoted' : Bool} {depth depth' : Nat} {c : Char} {body : List Char}
      (hdepth : depth ≠ 0) (hnesting : printNesting (quoted, depth) c = (quoted', depth'))
      (ih : ∀ item, runsOn item (quoted', depth') (body ++ [')']) = true ∧
        (body ++ [')']).foldl printNesting (quoted', depth') = (false, 0)) (item : List Char) :
      runsOn item (quoted, depth) (c :: body ++ [')']) = true ∧
        (c :: body ++ [')']).foldl printNesting (quoted, depth) = (false, 0) := by
    rw [List.cons_append, runsOn, List.foldl_cons, hends hdepth, hnesting]
    exact ih (item ++ [c])
  induction h generalizing item with
  | nil => exact ⟨by simp [runsOn, hends], rfl⟩
  | @quote depth quoted body _ ih =>
    refine step hdepth ?_ (ih hdepth) item
    cases quoted <;> rfl
  | quoted hc _ ih =>
    refine step hdepth ?_ (ih hdepth) item
    simp [printNesting, hc]
  | opening _ ih =>
    refine step hdepth ?_ (ih (Nat.succ_ne_zero _)) item
    rfl
  | closing _ ih =>
    refine step hdepth ?_ (ih (Nat.succ_ne_zero _)) item
    rfl
  | plain hquote hopen hclose _ ih =>
    refine step hdepth ?_ (ih hdepth) item
    simp [printNesting, hquote, hopen, hclose]

namespace Continues

theorem append (hu : Continues item u) (hv : Continues (item ++ u) v) :
    Continues item (u ++ v) := by
  refine ⟨?_, by rw [List.foldl_append, hu.2, hv.2]⟩
  rw [runsOn_append, hu.1, hu.2, hv.1]
  rfl

theorem printPieces (hu : Continues item u) (cs : List Char) :
    Clause.printPieces item false 0 (u ++ cs) = Clause.printPieces (item ++ u) false 0 cs := by
  have happend := printPieces_append hu.1 cs
  rwa [hu.2] at happend

theorem blanks (item : List Char) (hws : Text.allBlank ws = true) : Continues item ws :=
  runsOn_blanks item (false, 0) hws

/-- Names, numbers and operators, but for what starts with a letter or a digit behind a text in
quotes. -/
theorem inert (hu : ∀ c ∈ u, Text.isInert c = true ∧ c ≠ ';')
    (hitem : lastMark item = some '"' → ∀ c ∈ u, c.isAlphanum = false) : Continues item u := by
  induction u generalizing item with
  | nil => exact ⟨rfl, rfl⟩
  | cons c u ih =>
    obtain ⟨⟨hinert, hsemicolon⟩, hu⟩ := List.forall_mem_cons.mp hu
    obtain ⟨hquote, hopen, hclose⟩ := Text.ne_of_isInert hinert
    have hcomma : c ≠ ',' := by
      rintro rfl
      exact absurd hinert (by decide)
    have hstarts : startsItem item c = false := by
      rw [startsItem_of_ne hquote, Bool.and_eq_false_iff, beq_eq_false_iff_ne]
      by_cases hlast : lastMark item = some '"'
      · exact .inl (hitem hlast c (by simp))
      · exact .inr hlast
    have hends : endsItem item (false, 0) c = false := by
      simp [endsItem, hstarts, hsemicolon, hcomma]
    have hnesting : printNesting (false, 0) c = (false, 0) := by
      simp [printNesting, hquote, hopen, hclose]
    have hfirst : Continues item [c] := ⟨by simp [runsOn, hends], hnesting⟩
    -- A text in quotes stays the last thing only while blanks follow it.
    refine hfirst.append (ih hu fun hlast d hd => ?_)
    cases hblank : Text.isBlank c with
    | true =>
      rw [lastMark_append_blanks item (by simp [Text.allBlank, hblank])] at hlast
      exact hitem hlast d (by simp [hd])
    | false =>
      rw [lastMark_append item (by simp) (by simp [Text.Trimmed, hblank])] at hlast
      exact absurd (Option.some.inj hlast) hquote

theorem quoted {body : List Char} (hbody : '"' ∉ body) (hitem : startsItem item '"' = false) :
    Continues item ('"' :: body ++ ['"']) := by
  have hends : endsItem item (false, 0) '"' = false := by simp [endsItem, hitem]
  have hopen : printNesting (false, 0) '"' = (true, 0) := rfl
  constructor
  · rw [List.cons_append, runsOn, hends, hopen, runsOn_quoted hbody]
    rfl
  · rw [List.cons_append, List.foldl_cons, hopen, List.foldl_append, printNesting_quoted hbody]
    rfl

theorem parens {inner cs : List Char} (item : List Char)
    (h : Text.closing? ('(' :: inner ++ ')' :: cs) = some ('(' :: inner, cs)) :
    Continues item ('(' :: inner ++ [')']) := by
  have hends : endsItem item (false, 0) '(' = false := by
    rw [endsItem, startsItem_of_ne (by decide)]
    rfl
  have hopen : printNesting (false, 0) '(' = (false, 1) := rfl
  have hcloses : Text.Closes 1 false inner := by
    cases (Text.closingFrom?_spec h).2 with
    | opening hinner => exact hinner
    | plain _ hne => exact absurd rfl hne
  obtain ⟨hrun, hnesting⟩ := runsOn_closes hcloses Nat.one_ne_zero (item ++ ['('])
  refine ⟨?_, by rw [List.cons_append, List.foldl_cons, hopen, hnesting]⟩
  rw [List.cons_append, runsOn, hends, hopen, hrun]
  rfl

end Continues

end Clause

/-! ## The scan along the lexemes -/

namespace Token

/-- Operators that are no words neither hold a letter or a digit nor end like an operand. -/
theorem symbol_ends {s : Symbol} (h : (Token.symbol s).isKeyword = false) :
    (∀ c ∈ (Token.symbol s).spelling, c.isAlphanum = false) ∧
      ((Token.symbol s).spelling.getLast?.any fun c =>
        c.isAlphanum || c == '$' || c == ')' || c == '"') = false := by
  have hends : (Token.symbol s).isKeyword = false →
      ((Token.symbol s).spelling.all fun c => !c.isAlphanum) = true ∧
        ((Token.symbol s).spelling.getLast?.any fun c =>
          c.isAlphanum || c == '$' || c == ')' || c == '"') = false :=
    forall_symbol s (by decide)
  obtain ⟨hall, hlast⟩ := hends h
  exact ⟨fun c hc => by simpa using List.all_eq_true.mp hall c hc, hlast⟩

theorem keyword_isAlphanum {s : Symbol} (h : (Token.symbol s).isKeyword = true) :
    ∀ c ∈ (Token.symbol s).spelling, c.isAlphanum = true := by
  rcases Lexeme.keyword_spelling h with hs | hs
  · rw [hs]
    exact List.all_eq_true.mp rfl
  · rw [hs]
    exact List.all_eq_true.mp rfl

theorem symbol_inert (s : Symbol) :
    ∀ c ∈ (Token.symbol s).spelling, Text.isInert c = true ∧ c ≠ ';' := by
  intro c hc
  have hall : ((Token.symbol s).spelling.all (· != ';')) = true := forall_symbol s (by decide)
  exact ⟨isInert_symbol s c hc, by simpa using List.all_eq_true.mp hall c hc⟩

theorem name_inert {cs : List Char} (h : (Token.name cs).Valid) :
    ∀ c ∈ cs, Text.isInert c = true ∧ c ≠ ';' := by
  intro c hc
  have hword := Text.isWordChar_of_isName h.1 c hc
  refine ⟨Text.isInert_of_isWordChar hword, ?_⟩
  rintro rfl
  exact absurd hword (by decide)

theorem number_inert {cs : List Char} (h : (Token.number cs).Valid) :
    ∀ c ∈ cs, Text.isInert c = true ∧ c ≠ ';' := by
  intro c hc
  refine ⟨(isInert_number h c hc).1, ?_⟩
  rintro rfl
  rcases (numeric h).chars _ hc with hc | hc | hc | hc | hc
  all_goals exact absurd hc (by decide)

/-- What ends in a quote starts with one. -/
theorem exists_quote {t : Token} (ht : t.isAtom = true) (hv : t.Valid)
    (h : t.spelling.getLast? = some '"') : ∃ rest, t.spelling = '"' :: rest := by
  have hmem : '"' ∈ t.spelling := List.mem_of_getLast? h
  cases t with
  | number cs => exact absurd (number_inert hv _ hmem).1 (by decide)
  | name cs => exact absurd (name_inert hv _ hmem).1 (by decide)
  | text body => exact ⟨body ++ ['"'], rfl⟩
  | symbol => cases ht
  | opening => cases ht
  | closing => cases ht
  | comma => cases ht

end Token

namespace Lexed

open Clause (lastMark Continues)

variable {parse : List Char → Except SyntaxError Tree} {source : List Char} {f g : Fragment}
variable {before : Option Char} {ls : List Lexeme} {item cs : List Char} {prev : Option Lexeme}

theorem lastMark_ne_quote (hitem : lastMark item = prev.bind Lexeme.last?)
    (hprev : ∀ l ∈ prev, ∃ s, l = .symbol s) : lastMark item ≠ some '"' := by
  intro hlast
  cases prev with
  | none =>
    rw [hitem] at hlast
    cases hlast
  | some l =>
    obtain ⟨s, rfl⟩ := hprev l rfl
    have hquoted : (Lexeme.symbol s).isQuoted = true :=
      Lexeme.isQuoted_iff.mpr (hitem.symm.trans hlast)
    cases hquoted

theorem continues_symbol {s : Symbol} (hitem : lastMark item = prev.bind Lexeme.last?)
    (hls : Lexeme.Unbroken (prev.toList ++ .symbol s :: ls)) :
    Continues item (Token.symbol s).spelling := by
  refine .inert (Token.symbol_inert s) fun hlast => ?_
  cases prev with
  | none =>
    rw [hitem] at hlast
    cases hlast
  | some l =>
    have hquoted : l.isQuoted = true := Lexeme.isQuoted_iff.mpr (hitem.symm.trans hlast)
    have hclash : l.clashes (.symbol s) = false := (List.isChain_cons_cons.mp hls).1
    exact (Token.symbol_ends (Lexeme.not_isKeyword hquoted hclash)).1

theorem continues_operand {t : Token} (ht : t.isAtom = true) (hv : t.Valid)
    (hitem : lastMark item = prev.bind Lexeme.last?) (hprev : ∀ l ∈ prev, ∃ s, l = .symbol s)
    (hls : Lexeme.Unbroken (prev.toList ++ .operand t.spelling :: ls)) :
    Continues item t.spelling := by
  have hquote := lastMark_ne_quote hitem hprev
  cases t with
  | number cs => exact .inert (Token.number_inert hv) fun hlast => absurd hlast hquote
  | name cs => exact .inert (Token.name_inert hv) fun hlast => absurd hlast hquote
  | text body =>
    refine .quoted hv ?_
    rw [Clause.startsItem_quote, hitem]
    cases prev with
    | none => rfl
    | some l =>
      obtain ⟨s, rfl⟩ := hprev l rfl
      have hquoted : (Lexeme.operand (Token.text body).spelling).isQuoted = true := by
        simp [Lexeme.isQuoted, Token.spelling, List.getLast?_cons]
      have hclash : Lexeme.clashes (.symbol s) (.operand (Token.text body).spelling) = false :=
        (List.isChain_cons_cons.mp hls).1
      rw [Lexeme.clashes_comm] at hclash
      exact (Token.symbol_ends (Lexeme.not_isKeyword hquoted hclash)).2
  | symbol => cases ht
  | opening => cases ht
  | closing => cases ht
  | comma => cases ht

/-- Behind the lexeme `prev` the item goes on through what is read, if nothing clashes. -/
theorem continues (h : Lexed before ls cs) (hr : f.Reads parse source ls g)
    (hitem : lastMark item = prev.bind Lexeme.last?)
    (hprev : f.isComplete = false → ∀ l ∈ prev, ∃ s, l = .symbol s)
    (hls : Lexeme.Unbroken (prev.toList ++ ls)) :
    Continues item cs ∧ lastMark (item ++ cs) = (ls.getLast?.or prev).bind Lexeme.last? := by
  have extend {item u cs : List Char} {l : Lexeme} {ls : List Lexeme} {prev : Option Lexeme}
      (hu : Continues item u) (hcs : Continues (item ++ u) cs ∧
        lastMark (item ++ u ++ cs) = (ls.getLast?.or (some l)).bind Lexeme.last?) :
      Continues item (u ++ cs) ∧
        lastMark (item ++ (u ++ cs)) = ((l :: ls).getLast?.or prev).bind Lexeme.last? := by
    refine ⟨hu.append hcs.1, ?_⟩
    rw [← List.append_assoc, hcs.2, List.getLast?_cons, Option.or_some, Option.some_or]
  have unbroken {prev : Option Lexeme} {l : Lexeme} {ls : List Lexeme}
      (h : Lexeme.Unbroken (prev.toList ++ l :: ls)) : Lexeme.Unbroken (l :: ls) := by
    cases prev with
    | none => exact h
    | some k => exact (List.isChain_cons_cons.mp h).2
  -- Each lexeme is `prev` to the next one. An operand can only follow an operator, so a quote in
  -- front of it never matters, and a quote of its own only behind a word operator.
  induction h generalizing f item prev with
  | nil => exact ⟨⟨rfl, rfl⟩, by simpa using hitem⟩
  | @blank before c ls cs hc _ ih =>
    have hblank : Text.allBlank [c] = true := by simp [Text.allBlank, hc]
    have hmark : lastMark (item ++ [c]) = prev.bind Lexeme.last? :=
      (Clause.lastMark_append_blanks item hblank).trans hitem
    obtain ⟨hrest, hlast⟩ := ih hr hmark hprev hls
    exact ⟨(Continues.blanks item hblank).append hrest, by simpa using hlast⟩
  | @symbol before s ls cs _ _ ih =>
    obtain ⟨m, -, hr⟩ := Fragment.reads_cons.mp hr
    have hmark : lastMark (item ++ (Token.symbol s).spelling) =
        (some (Lexeme.symbol s)).bind Lexeme.last? :=
      Clause.lastMark_append item (Token.spelling_ne_nil (t := .symbol s) trivial)
        (Token.trimmed_spelling trivial)
    exact extend (continues_symbol hitem hls)
      (ih hr hmark (fun _ l hl => ⟨s, by simpa using hl.symm⟩) (unbroken hls))
  | @operand before t ls cs ht hv _ ih =>
    obtain ⟨m, hm, hr⟩ := Fragment.reads_cons.mp hr
    obtain ⟨hf, hcomplete⟩ := Fragment.next_operand hm
    have hmark : lastMark (item ++ t.spelling) =
        (some (Lexeme.operand t.spelling)).bind Lexeme.last? :=
      Clause.lastMark_append item (Token.spelling_ne_nil hv) (Token.trimmed_spelling hv)
    exact extend (continues_operand ht hv hitem (hprev hf) hls)
      (ih hr hmark (by simp [hcomplete]) (unbroken hls))
  | @parens before name ws inner ls cs hname hws hclosing _ ih =>
    obtain ⟨m, hm, hr⟩ := Fragment.reads_cons.mp hr
    obtain ⟨hf, hcomplete⟩ := Fragment.next_parens hm
    have hquote := lastMark_ne_quote hitem (hprev hf)
    have hcall : Continues item (name ++ (ws ++ ('(' :: inner ++ [')']))) := by
      refine .append ?_ ((Continues.blanks _ hws).append (.parens _ hclosing))
      rcases hname with rfl | hv
      · exact ⟨rfl, rfl⟩
      · exact .inert (Token.name_inert hv) fun hlast => absurd hlast hquote
    have hmark : lastMark (item ++ (name ++ (ws ++ ('(' :: inner ++ [')'])))) =
        (some (Lexeme.parens name inner)).bind Lexeme.last? := by
      have happend := Clause.lastMark_append (item ++ name ++ ws ++ '(' :: inner)
        (u := [')']) (by simp) ⟨by simp; decide, by simp; decide⟩
      simpa [Lexeme.last?] using happend
    simpa using extend hcall (ih hr hmark (by simp [hcomplete]) (unbroken hls))

end Lexed

/-! ## Reading the list -/

namespace Clause

variable {cs : List Char} {e : Expr} {items : List PrintItem}

/-- An expression in which nothing clashes is one item. -/
theorem readPrintItems_expr (h : Expr.parse cs = .ok e) (hcs : Lexeme.Unbroken (Lexeme.all cs)) :
    readPrintItems cs = .ok [.expr e] := by
  obtain ⟨hlexed, parse, hr⟩ := Expr.lexed_of_parse h
  have hmark : lastMark [] = none.bind Lexeme.last? := rfl
  obtain ⟨hall, -⟩ := hlexed.continues hr hmark (fun _ l hl => by cases hl) hcs
  have hpieces : printPieces [] false 0 cs = [.expr (Text.trim cs)] := by
    have happend := hall.printPieces []
    rwa [List.append_nil, List.nil_append, printPieces,
      printPiece_eq (Expr.not_allBlank_of_parse h)] at happend
  rw [readPrintItems, hpieces, mapM_eq_ok]
  exact .cons (bind_eq_ok.mpr ⟨e, by rw [readExpr, Expr.parse_trim h], rfl⟩) .nil

/-- A list with a piece that is no expression is refused. -/
theorem readPrintItems_ne_ok {piece : PrintPiece} (hpiece : piece ∈ printPieces [] false 0 cs)
    (h : piece = .unclosed ∨
      ∃ text, piece = .expr (Text.trim text) ∧ ∀ e, Expr.parse text ≠ .ok e) :
    readPrintItems cs ≠ .ok items := by
  intro hitems
  rw [readPrintItems, mapM_eq_ok] at hitems
  obtain ⟨item, -, hitem⟩ := forall₂_left hitems hpiece
  rcases h with rfl | ⟨text, rfl, hno⟩
  · cases hitem
  · obtain ⟨e, he, -⟩ := bind_eq_ok.mp hitem
    rw [readExpr] at he
    split at he
    · rename_i e' hparse
      exact hno e' (Expr.parse_trim_iff.mp hparse)
    · cases he

/-- Where an item starts, the one in front of it is a piece. -/
theorem printPieces_starts {item : List Char} {c : Char} (h : startsItem item c = true)
    (cs : List Char) : printPieces item false 0 (c :: cs) =
      .expr (Text.trim item) :: printPieces [c] (c == '"') 0 cs := by
  have hne {d : Char} (hquote : d ≠ '"') (hd : d.isAlphanum = false) : c ≠ d := by
    rintro rfl
    rw [startsItem_of_ne hquote, hd] at h
    cases h
  have hsemicolon : c ≠ ';' := hne (by decide) (by decide)
  have hcomma : c ≠ ',' := hne (by decide) (by decide)
  have hopen : c ≠ '(' := hne (by decide) (by decide)
  rw [printPieces]
  simp [h, hsemicolon, hcomma, hopen, printPiece_eq (startsItem_spec h).1]

section
variable {u ws rest : List Char}

/-- A quote ends an item behind a letter or a digit. -/
theorem mem_printPieces_quote (hu : Continues [] u) (hws : Text.allBlank ws = true)
    (hmark : ∃ c ∈ lastMark u, c.isAlphanum = true) :
    .expr (Text.trim u) ∈ printPieces [] false 0 (u ++ (ws ++ '"' :: rest)) := by
  obtain ⟨c, hc, halnum⟩ := hmark
  have hstarts : startsItem (u ++ ws) '"' = true := by
    rw [startsItem_quote, lastMark_append_blanks u hws, Option.mem_def.mp hc]
    simp [halnum]
  rw [hu.printPieces, printPieces_blanks_append hws, List.nil_append, printPieces_starts hstarts,
    Text.trim_append_right hws]
  exact List.mem_cons_self

/-- A word ends an item behind a quote, and starts the next. -/
theorem exists_printPieces_word {word : List Char} (hu : Continues [] u)
    (hws : Text.allBlank ws = true) (hmark : lastMark u = some '"') (hne : word ≠ [])
    (hword : ∀ c ∈ word, c.isAlphanum = true) :
    ∃ piece ∈ printPieces [] false 0 (u ++ (ws ++ (word ++ rest))),
      piece = .unclosed ∨ ∃ v, v <+: rest ∧ piece = .expr (Text.trim (word ++ v)) := by
  obtain ⟨c, word, rfl⟩ := List.exists_cons_of_ne_nil hne
  have hinert {d : Char} (hd : d ∈ c :: word) : Text.isInert d = true ∧ d ≠ ';' := by
    refine ⟨Text.isInert_of_isWordChar (by simp [Text.isWordChar, hword d hd]), ?_⟩
    rintro rfl
    exact absurd (hword _ hd) (by decide)
  have hc : c.isAlphanum = true := hword c (by simp)
  have hquote : c ≠ '"' := (Text.ne_of_isInert (hinert (by simp)).1).1
  have hblank : Text.isBlank c = false :=
    Text.not_isBlank_of_isWordChar (by simp [Text.isWordChar, hc])
  have hstarts : startsItem (u ++ ws) c = true := by
    rw [startsItem_of_ne hquote, lastMark_append_blanks u hws, hmark, hc]
    rfl
  have hgoes : Continues [c] word := by
    refine .inert (fun d hd => hinert (by simp [hd])) fun hlast => ?_
    simp [lastMark, hblank, hquote] at hlast
  have hnonblank : ¬ Text.allBlank (c :: word) = true := by simp [Text.allBlank, hblank]
  obtain ⟨piece, pieces, hpieces, hpiece⟩ := printPieces_first (n := (false, 0)) hnonblank rest
  refine ⟨piece, ?_, hpiece⟩
  rw [hu.printPieces, printPieces_blanks_append hws, List.nil_append, List.cons_append,
    printPieces_starts hstarts, beq_eq_false_iff_ne.mpr hquote, hgoes.printPieces,
    List.singleton_append, hpieces]
  exact List.mem_cons_of_mem _ List.mem_cons_self

end

/-- An expression in which something clashes is refused: the piece in front of the first clash ends
in a word operator, or the one behind it starts with one. -/
theorem readPrintItems_clash (h : Expr.parse cs = .ok e)
    (hcs : ¬ Lexeme.Unbroken (Lexeme.all cs)) : readPrintItems cs ≠ .ok items := by
  obtain ⟨hlexed, parse, hr⟩ := Expr.lexed_of_parse h
  obtain ⟨ks, a, b, rest, hls, hks, hclash⟩ := Lexeme.exists_clash hcs
  rw [hls] at hlexed hr
  obtain ⟨u, v, rfl, hu, hv⟩ := hlexed.split
  obtain ⟨m, hru, hrv⟩ := Fragment.reads_append.mp hr
  have hmark : lastMark [] = none.bind Lexeme.last? := rfl
  obtain ⟨hgoes, hlast⟩ := hu.continues hru hmark (fun _ l hl => by cases hl) hks
  simp only [List.nil_append, List.getLast?_append, List.getLast?_singleton, Option.some_or,
    Option.bind_some] at hlast
  obtain ⟨ws, v, rfl, hws, hfirst⟩ := hv.uncons
  rw [Lexeme.clashes, Bool.or_eq_true, Bool.and_eq_true, Bool.and_eq_true] at hclash
  rcases hclash with ⟨ha, hb⟩ | ⟨ha, hb⟩
  · -- Behind a text in quotes the piece starts with the word operator.
    rcases hfirst with ⟨s, tail, rfl, rfl, hapart, htail⟩ | ⟨t, tail, rfl, -⟩ | ⟨name, inner, rfl⟩
    · obtain ⟨m', hm', hr'⟩ := Fragment.reads_cons.mp hrv
      have hnext := htail.head?_ne hr' (Fragment.addSymbol_isComplete (f := m) hm').1
      obtain ⟨piece, hmem, hpiece⟩ := exists_printPieces_word hgoes hws
        (hlast.trans (Lexeme.isQuoted_iff.mp ha)) (Token.spelling_ne_nil (t := .symbol s) trivial)
        (Token.keyword_isAlphanum hb)
      refine readPrintItems_ne_ok hmem (hpiece.imp_right ?_)
      rintro ⟨w, ⟨w', rfl⟩, rfl⟩
      refine ⟨_, rfl, fun e' => Expr.not_parse_of_keyword hb ?_ fun c hc => hnext c ?_⟩
      · exact fun hkey => ⟨nofun, (Lexed.apart_of_append hapart hkey).2⟩
      · rw [List.head?_append, Option.mem_def.mp hc]
        rfl
    · cases hb
    · cases hb
  · -- In front of a text in quotes the piece ends in the word operator.
    cases a with
    | symbol s =>
      have hall : Lexeme.all u = ks ++ [.symbol s] := hu.scan_eq hru (.inl rfl) 0
      rcases hfirst with ⟨s', tail, rfl, -⟩ | ⟨t, tail, rfl, ht, hvalid, rfl⟩ | ⟨name, inner, rfl⟩
      · cases hb
      · obtain ⟨w, hw⟩ := Token.exists_quote ht hvalid (Lexeme.isQuoted_iff.mp hb)
        obtain ⟨c, hc⟩ := Option.isSome_iff_exists.mp
          (List.getLast?_isSome.mpr (Token.spelling_ne_nil (t := .symbol s) trivial))
        have halnum := Token.keyword_isAlphanum ha c (List.mem_of_getLast? hc)
        rw [hw, List.cons_append]
        exact readPrintItems_ne_ok
          (mem_printPieces_quote hgoes hws ⟨c, hlast.trans hc, halnum⟩)
          (.inr ⟨u, rfl, fun e' => Expr.not_parse_of_symbol hall⟩)
      · cases hb
    | operand => cases ha
    | parens => cases ha
    | fault => cases ha

end Clause

namespace Statement

/-- PRINT with something behind it. -/
theorem parse_print {cs : List Char} (h : ¬ Text.allBlank cs = true) :
    parse ("PRINT ".toList ++ cs) =
      Clause.readPrintItems cs >>= fun items => .ok (.print items) := by
  have hfilled : Pattern.Filled [Form.text "items"] [cs] [.text (String.ofList (Text.trim cs))] :=
    .last h rfl
  have hbuild : parse (Text.words ["PRINT".toList, cs]) =
      Form.print.build _ [.text (String.ofList (Text.trim cs))] :=
    parseWith_eq_build "PRINT" .print rfl rfl rfl rfl hfilled
  have hwords : Text.words ["PRINT".toList, cs] = "PRINT ".toList ++ cs := by
    simp [Text.words, List.intercalate]
  rw [← hwords, hbuild, Form.build, String.toList_ofList, Clause.readPrintItems_trim]
  rfl

end Statement

namespace Machine

section
variable (p : Program) (s : Settings) (line : Line) (here : Position) {e : Expr} {m m' : Machine}

/-- PRINT of an expression alone writes its value and ends the line. -/
theorem execute_print {v : Value} (hwrites : m.console.writesLeft = none)
    (h : value e m = .ok v m') :
    execute p s line here (.print [.expr e]) m = .ok .next { m' with
      column := 0
      console := { m.console with log := .wrote "\n" :: .wrote v.display :: m.console.log } } := by
  have hconsole : m'.console = m.console := ((value_keeps Silent.storing.toMild e).ok h).1
  have hleft : m'.console.writesLeft = none := hconsole ▸ hwrites
  have hitem : printItem s (.expr e) m = _ := (bind_of_ok h).trans (write_ok hleft v.display)
  have hline {m₁ : Machine} (hleft : m₁.console.writesLeft = none)
      (hitems : [PrintItem.expr e].forM (printItem s) m = .ok () m₁) :
      print s [.expr e] m = _ := (bind_of_ok hitems).trans (write_ok hleft "\n")
  refine (bind_of_ok (hline (by exact hleft) (bind_of_ok hitem))).trans ?_
  rw [hconsole]
  rfl

theorem execute_print_error {failure : RuntimeError} (h : value e m = .error failure m') :
    execute p s line here (.print [.expr e]) m = .error failure m' := by
  have hitem : printItem s (.expr e) m = .error failure m' := bind_of_error h
  have hitems : [PrintItem.expr e].forM (printItem s) m = .error failure m' := bind_of_error hitem
  have hprint : print s [.expr e] m = .error failure m' := bind_of_error hitems
  exact bind_of_error hprint

end

end Machine

namespace Statement

/-- **What PRINT does with an expression.** If no text in quotes stands next to AND or OR in it,
outside its parentheses, the expression is the only item of the list, and PRINT writes the value
that it has and ends the line, or fails as it does. If one does, the statement is refused. -/
theorem print_expression {cs : List Char} {e : Expr} (h : Expr.parse cs = .ok e) :
    (Lexeme.Unbroken (Lexeme.all cs) →
      Clause.readPrintItems cs = .ok [.expr e] ∧
      Statement.parse ("PRINT ".toList ++ cs) = .ok (.print [.expr e]) ∧
      ∀ (p : Program) (s : Settings) (line : Line) (here : Position) (m : Machine),
        m.console.writesLeft = none →
        (∀ v m', Machine.value e m = .ok v m' →
          Machine.execute p s line here (.print [.expr e]) m = .ok .next { m' with
            column := 0
            console := { m.console with
              log := .wrote "\n" :: .wrote v.display :: m.console.log } }) ∧
        ∀ failure m', Machine.value e m = .error failure m' →
          Machine.execute p s line here (.print [.expr e]) m = .error failure m') ∧
    (¬ Lexeme.Unbroken (Lexeme.all cs) →
      (∀ items, Clause.readPrintItems cs ≠ .ok items) ∧
      ∀ statement, Statement.parse ("PRINT ".toList ++ cs) ≠ .ok statement) := by
  have hprint := parse_print (Expr.not_allBlank_of_parse h)
  constructor
  · intro hcs
    have hitems := Clause.readPrintItems_expr h hcs
    refine ⟨hitems, by rw [hprint, hitems]; rfl, fun p s line here m hwrites => ⟨?_, ?_⟩⟩
    · exact fun v m' hv => Machine.execute_print p s line here hwrites hv
    · exact fun failure m' hv => Machine.execute_print_error p s line here hv
  · intro hcs
    have hitems (items : List PrintItem) : Clause.readPrintItems cs ≠ .ok items :=
      Clause.readPrintItems_clash h hcs
    refine ⟨hitems, fun statement hparse => ?_⟩
    rw [hprint] at hparse
    obtain ⟨items, hok, -⟩ := bind_eq_ok.mp hparse
    exact hitems items hok

/-- A text in quotes in front of AND. -/
def comparisons : List Char := "A$=\"X\" AND B$=\"Y\"".toList

/-- The same between parentheses. -/
def groupedComparisons : List Char := "(A$=\"X\") AND (B$=\"Y\")".toList

/-- Both are expressions, and PRINT takes the second but not the first. -/
theorem print_expression_comparisons :
    (∃ e, Expr.parse comparisons = .ok e ∧
      ∀ statement, Statement.parse ("PRINT ".toList ++ comparisons) ≠ .ok statement) ∧
    ∃ e, Expr.parse groupedComparisons = .ok e ∧
      Statement.parse ("PRINT ".toList ++ groupedComparisons) = .ok (.print [.expr e]) := by
  have hcomparisons : ∃ e, Expr.parse comparisons = .ok e := ⟨_, rfl⟩
  have hgrouped : ∃ e, Expr.parse groupedComparisons = .ok e := ⟨_, rfl⟩
  obtain ⟨e, he⟩ := hcomparisons
  obtain ⟨e', he'⟩ := hgrouped
  exact ⟨⟨e, he, ((print_expression he).2 (by decide)).2⟩,
    ⟨e', he', ((print_expression he').1 (by decide)).2.1⟩⟩

end Statement

end ClassicBasic

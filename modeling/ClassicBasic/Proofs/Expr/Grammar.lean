import ClassicBasic.Proofs.Except
import ClassicBasic.Proofs.Number.Numeral
import ClassicBasic.Proofs.Text.Nesting
import ClassicBasic.Expr.Lexeme
import ClassicBasic.Expr.Tree

/-!
# The grammar of expressions

A text is spelled by tokens with blanks between them (`Spelled`); a sequence of tokens is an
expression with a tree (`Derives`). The tree is that of operands added from left to right with
`Tree.push`, and nothing here says how a text is read.

`Spelled.split` and `Spelled.append` cut and join texts along their tokens. `Derives.passes` says
that the parentheses and quotes of an expression close inside it.
-/

namespace ClassicBasic

/-! ## Tokens -/

inductive Token where
  | number (cs : List Char)
  /-- A quoted text, without its quotes. -/
  | text (body : List Char)
  | name (cs : List Char)
  | symbol (s : Symbol)
  | opening
  | closing
  | comma
deriving DecidableEq, Repr

namespace Token

def spelling : Token → List Char
  | .number cs => cs
  | .text body => '"' :: body ++ ['"']
  | .name cs => cs
  | .symbol s => s.spelling.toList
  | .opening => ['(']
  | .closing => [')']
  | .comma => [',']

/-- The operators that are words. -/
def isKeyword : Token → Bool
  | .symbol (.operator .and) | .symbol (.operator .or) => true
  | _ => false

/-- The tokens that are atoms by themselves. -/
def isAtom : Token → Bool
  | .number _ | .text _ | .name _ => true
  | _ => false

def Valid : Token → Prop
  | .number cs => (∃ c ∈ cs.head?, Numeral.isMantissa c = true) ∧ (Numeral.number? cs).isSome = true
  | .text body => '"' ∉ body
  | .name cs => Text.isName cs = true ∧ cs ≠ ['A', 'N', 'D'] ∧ cs ≠ ['O', 'R']
  | .symbol _ | .opening | .closing | .comma => True

/-- A word operator may not touch a word character. -/
def Apart (t : Token) (before after : Option Char) : Prop :=
  t.isKeyword = true →
    (∀ c ∈ before, Text.isWordChar c = false) ∧ ∀ c ∈ after, Text.isWordChar c = false

theorem mem_symbols (s : Symbol) : ((Token.symbol s).spelling, s) ∈ Lexeme.symbols := by
  cases s with
  | operator op => cases op <;> decide
  | minus => decide
  | slash => decide

/-- The table has all operators, so that a fact about them can be checked there. -/
@[elab_as_elim] theorem forall_symbol {motive : Symbol → Prop} (s : Symbol)
    (h : ∀ e ∈ Lexeme.symbols, motive e.2) : motive s :=
  h _ (mem_symbols s)

theorem apart_of_isAtom {t : Token} (h : t.isAtom = true) (before after : Option Char) :
    t.Apart before after := by
  intro hk
  cases t with
  | symbol => cases h
  | _ => cases hk

end Token

/-- `Spelled before ts cs`: the text `cs`, with `before` in front of it, is spelled by the tokens
`ts` with blanks before, between and after them. -/
inductive Spelled : Option Char → List Token → List Char → Prop where
  | nil {before : Option Char} : Spelled before [] []
  | blank {before : Option Char} {c : Char} {ts : List Token} {cs : List Char} :
    Text.isBlank c = true → Spelled (some c) ts cs → Spelled before ts (c :: cs)
  | token {before : Option Char} {t : Token} {ts : List Token} {cs : List Char} :
    t.Valid → t.Apart before cs.head? → Spelled t.spelling.getLast? ts cs →
    Spelled before (t :: ts) (t.spelling ++ cs)

/-! ## Phrases -/

inductive Phrase where
  | atom
  /-- An atom with signs in front. -/
  | operand
  | expression
deriving DecidableEq, Repr

/-- The tree of an atom behind signs: an odd number of minus signs negates it. -/
def Tree.Signed (signs : List Symbol) (atom operand : Tree) : Prop :=
  if signs.count .minus % 2 = 1 then atom.transformed .negate = .ok operand else operand = atom

/-- The tree of an expression, an operator and an operand: minus adds the negated operand, and
slash multiplies by the inverted one. -/
def Tree.Joined (left : Tree) (operand : Tree) : Symbol → Tree → Prop
  | .operator op, tree => tree = left.push op operand
  | .minus, tree => ∃ u, operand.transformed .negate = .ok u ∧ tree = left.push .plus u
  | .slash, tree => ∃ u, operand.transformed .invert = .ok u ∧ tree = left.push .times u

/-- `Derives p ts tree`: the tokens `ts` are a phrase of the kind `p` and stand for `tree`. -/
inductive Derives : Phrase → List Token → Tree → Prop where
  | number {cs : List Char} {x : Float} :
    Numeral.number? cs = some x → Derives .atom [.number cs] (.number x)
  | text {body : List Char} : Derives .atom [.text body] (.text (String.ofList body))
  | name {cs : List Char} : Derives .atom [.name cs] (.var (String.ofList cs))
  | call {cs : List Char} {args : List (List Token × Tree)} :
    (∀ a ∈ args, Derives .expression a.1 a.2) →
    Derives .atom (.name cs :: .opening :: [.comma].intercalate (args.map (·.1)) ++ [.closing])
      (.call (String.ofList cs) (args.map (·.2)))
  | group {ts : List Token} {tree : Tree} :
    Derives .expression ts tree → Derives .atom (.opening :: ts ++ [.closing]) tree.grouped
  | signed {signs : List Symbol} {ts : List Token} {atom operand : Tree} :
    (∀ s ∈ signs, s = .operator .plus ∨ s = .minus) → Derives .atom ts atom →
    Tree.Signed signs atom operand → Derives .operand (signs.map .symbol ++ ts) operand
  | first {ts : List Token} {operand : Tree} :
    Derives .operand ts operand → Derives .expression ts (.single operand)
  | join {ts us : List Token} {s : Symbol} {left operand tree : Tree} :
    Derives .expression ts left → Derives .operand us operand → left.Joined operand s tree →
    Derives .expression (ts ++ .symbol s :: us) tree

/-! ## Texts along their tokens -/

theorem Token.spelling_ne_nil {t : Token} (h : t.Valid) : t.spelling ≠ [] := by
  cases t with
  | number cs =>
    obtain ⟨⟨c, hc, -⟩, -⟩ := h
    rintro rfl
    cases hc
  | name cs =>
    rintro rfl
    exact absurd h.1 (by decide)
  | symbol s => exact forall_symbol s (by decide)
  | text => simp [spelling]
  | opening => simp [spelling]
  | closing => simp [spelling]
  | comma => simp [spelling]

theorem Token.spelling_getLast?_or {t : Token} (h : t.Valid) (before : Option Char) :
    t.spelling.getLast?.or before = t.spelling.getLast? := by
  obtain ⟨c, hc⟩ := Option.isSome_iff_exists.mp (List.getLast?_isSome.mpr (t.spelling_ne_nil h))
  rw [hc, Option.some_or]

/-- The character in front of what follows a text. -/
theorem getLast?_append_or (u v : List Char) (before : Option Char) :
    (u ++ v).getLast?.or before = v.getLast?.or (u.getLast?.or before) := by
  rw [List.getLast?_append, Option.or_assoc]

theorem getLast?_cons_or (c : Char) (cs : List Char) (before : Option Char) :
    (c :: cs).getLast?.or before = cs.getLast?.or (some c) :=
  getLast?_append_or [c] cs before

namespace Spelled

variable {before before' : Option Char} {t : Token} {ts us : List Token} {cs u v ws : List Char}

/-- What stands in front of a text matters to a word operator only. -/
theorem of_before (h : Spelled before ts cs) (hb : ∀ c ∈ before', Text.isWordChar c = false) :
    Spelled before' ts cs := by
  cases h with
  | nil => exact .nil
  | blank hc h => exact .blank hc h
  | token hv ha h => exact .token hv (fun hk => ⟨hb, (ha hk).2⟩) h

theorem blanks (hws : Text.allBlank ws = true) (h : Spelled (ws.getLast?.or before) ts cs) :
    Spelled before ts (ws ++ cs) := by
  induction ws generalizing before with
  | nil => simpa using h
  | cons c ws ih =>
    simp only [Text.allBlank, List.all_cons, Bool.and_eq_true] at hws
    rw [getLast?_cons_or] at h
    exact .blank hws.1 (ih hws.2 h)

theorem uncons (h : Spelled before (t :: ts) cs) :
    ∃ ws rest, cs = ws ++ (t.spelling ++ rest) ∧ Text.allBlank ws = true ∧ t.Valid ∧
      t.Apart (ws.getLast?.or before) rest.head? ∧ Spelled t.spelling.getLast? ts rest := by
  generalize hts : t :: ts = all at h
  induction h with
  | nil => cases hts
  | @blank before c _ cs hc _ ih =>
    obtain ⟨ws, rest, rfl, hws, hv, ha, hrest⟩ := ih hts
    rw [← getLast?_cons_or c ws before] at ha
    exact ⟨c :: ws, rest, rfl, by simpa [Text.allBlank, hc] using hws, hv, ha, hrest⟩
  | @token before _ _ cs hv ha h _ =>
    cases hts
    exact ⟨[], cs, rfl, rfl, hv, by simpa using ha, h⟩

theorem nil_iff : Spelled before [] cs ↔ Text.allBlank cs = true := by
  constructor
  · intro h
    generalize hts : [] = all at h
    induction h with
    | nil => rfl
    | blank hc _ ih => simpa [Text.allBlank, hc] using ih hts
    | token => cases hts
  · intro h
    simpa using blanks h (.nil : Spelled (cs.getLast?.or before) [] [])

/-- A text is cut where its tokens are. -/
theorem split (h : Spelled before (ts ++ us) cs) :
    ∃ u v, cs = u ++ v ∧ Spelled before ts u ∧ Spelled (u.getLast?.or before) us v := by
  induction ts generalizing before cs with
  | nil => exact ⟨[], cs, rfl, .nil, by simpa using h⟩
  | cons t ts ih =>
    obtain ⟨ws, rest, rfl, hws, hv, ha, hrest⟩ := uncons h
    obtain ⟨u, v, rfl, hu, hv'⟩ := ih hrest
    refine ⟨ws ++ (t.spelling ++ u), v, by simp, blanks hws (.token hv ?_ hu), ?_⟩
    · intro hk
      refine ⟨(ha hk).1, fun c hc => (ha hk).2 c ?_⟩
      rw [List.head?_append, hc]
      rfl
    · rw [getLast?_append_or, getLast?_append_or, Token.spelling_getLast?_or hv]
      exact hv'

/-- Texts are joined if no word touches the last operator of the first. -/
theorem append (hu : Spelled before ts u) (hv : Spelled (u.getLast?.or before) us v)
    (hhead : ∀ c ∈ v.head?, Text.isWordChar c = false) : Spelled before (ts ++ us) (u ++ v) := by
  induction hu with
  | nil => simpa using hv
  | @blank before c ts cs hc _ ih =>
    rw [getLast?_cons_or] at hv
    exact .blank hc (ih hv)
  | @token before t ts cs hvalid ha _ ih =>
    rw [getLast?_append_or, Token.spelling_getLast?_or hvalid] at hv
    rw [List.append_assoc]
    refine .token hvalid (fun hk => ⟨(ha hk).1, fun c hc => ?_⟩) (ih hv)
    rw [List.head?_append, Option.mem_def, Option.or_eq_some_iff] at hc
    rcases hc with hc | ⟨-, hc⟩
    · exact (ha hk).2 c hc
    · exact hhead c hc

theorem append_blanks (h : Spelled before ts u) (hws : Text.allBlank ws = true) :
    Spelled before ts (u ++ ws) := by
  have hhead : ∀ c ∈ ws.head?, Text.isWordChar c = false := by
    intro c hc
    simp only [Text.allBlank, List.all_eq_true] at hws
    exact Text.not_isWordChar_of_isBlank (hws c (List.mem_of_mem_head? hc))
  simpa using h.append (nil_iff.mpr hws) hhead

/-- A parenthesis around tokens stands around the text that they spell. -/
theorem parens (h : Spelled before (.opening :: ts ++ .closing :: us) cs) :
    ∃ ws inner rest, cs = ws ++ ('(' :: inner ++ ')' :: rest) ∧ Text.allBlank ws = true ∧
      Spelled none ts inner ∧ Spelled (some ')') us rest := by
  obtain ⟨ws, body, rfl, hws, -, -, hbody⟩ := uncons h
  obtain ⟨inner, tail, rfl, hinner, htail⟩ := split hbody
  obtain ⟨ws', rest, rfl, hws', -, -, hrest⟩ := uncons htail
  have hclosed : Spelled none ts (inner ++ ws') :=
    (hinner.of_before (by simp)).append_blanks hws'
  exact ⟨ws, inner ++ ws', rest, by simp [Token.spelling], hws, hclosed, hrest⟩

theorem of_parens (hts : Spelled none ts u) (hus : Spelled (some ')') us v) :
    Spelled before (.opening :: ts ++ .closing :: us) ('(' :: u ++ ')' :: v) := by
  have hopen : ∀ c ∈ some '(', Text.isWordChar c = false := by
    rintro c ⟨⟩
    rfl
  have hclose : ∀ c ∈ (')' :: v).head?, Text.isWordChar c = false := by
    rintro c ⟨⟩
    rfl
  exact .token trivial nofun ((hts.of_before hopen).append (.token trivial nofun hus) hclose)

/-- Tokens with commas between them spell texts with commas between them. -/
theorem pieces {tss : List (List Token)} (hne : tss ≠ [])
    (h : Spelled before ([.comma].intercalate tss) cs) :
    ∃ us, List.Forall₂ (Spelled none) tss us ∧ cs = [','].intercalate us := by
  induction tss generalizing before cs with
  | nil => contradiction
  | cons ts tss ih =>
    cases tss with
    | nil =>
      have hts : Spelled none ts cs := by
        simpa [List.intercalate] using h.of_before (by simp : ∀ c ∈ none, _)
      exact ⟨[cs], .cons hts .nil, by simp [List.intercalate]⟩
    | cons ts' tss =>
      rw [List.intercalate_cons_cons, List.append_assoc] at h
      obtain ⟨u, v, rfl, hu, hv⟩ := split h
      obtain ⟨ws, rest, rfl, hws, -, -, hrest⟩ := uncons hv
      obtain ⟨us, hus, rfl⟩ := ih (by simp) hrest
      have hpiece : Spelled none ts (u ++ ws) := (hu.of_before (by simp)).append_blanks hws
      cases us with
      | nil => cases hus
      | cons u' us =>
        refine ⟨(u ++ ws) :: u' :: us, .cons hpiece hus, ?_⟩
        rw [List.intercalate_cons_cons]
        simp [Token.spelling]

theorem of_pieces {tss : List (List Token)} {us : List (List Char)}
    (h : List.Forall₂ (Spelled none) tss us) (hb : ∀ c ∈ before, Text.isWordChar c = false) :
    Spelled before ([.comma].intercalate tss) ([','].intercalate us) := by
  induction h generalizing before with
  | nil => exact .nil
  | @cons ts u tss us hu hus ih =>
    cases hus with
    | nil => simpa [List.intercalate] using hu.of_before hb
    | @cons ts' u' tss us hu' hus =>
      rw [List.intercalate_cons_cons, List.intercalate_cons_cons, List.append_assoc,
        List.append_assoc]
      have hcomma : ∀ c ∈ some ',', Text.isWordChar c = false := by
        rintro c ⟨⟩
        rfl
      exact (hu.of_before hb).append (.token trivial nofun (ih hcomma)) hcomma

end Spelled

/-! ## Closed quotes and parentheses -/

namespace Token

theorem numeric {cs : List Char} (h : (Token.number cs).Valid) : Numeral.Numeric cs := by
  obtain ⟨⟨c, hc, hmantissa⟩, hx⟩ := h
  obtain ⟨x, hx⟩ := Option.isSome_iff_exists.mp hx
  cases cs with
  | nil => cases hc
  | cons d cs =>
    cases hc
    exact Numeral.number?_shape hmantissa hx

theorem isInert_of_isMantissa {c : Char} (h : Numeral.isMantissa c = true) :
    Text.isInert c = true ∧ Text.isBlank c = false := by
  rw [Numeral.isMantissa_iff] at h
  rw [← Bool.not_eq_true, Text.isInert_iff, Text.isBlank_iff]
  omega

theorem isInert_number {cs : List Char} (h : (Token.number cs).Valid) :
    ∀ c ∈ cs, Text.isInert c = true ∧ Text.isBlank c = false := by
  intro c hc
  rcases (numeric h).chars c hc with hc | rfl | rfl | rfl | rfl
  · exact isInert_of_isMantissa hc
  all_goals decide

theorem isInert_symbol (s : Symbol) : ∀ c ∈ (Token.symbol s).spelling, Text.isInert c = true :=
  List.all_eq_true.mp (forall_symbol s (by decide))

/-- Tokens other than parentheses and commas. -/
def isPlain : Token → Bool
  | .opening | .closing | .comma => false
  | _ => true

theorem passes {t : Token} (hv : t.Valid) (hp : t.isPlain = true) (m : Nat) :
    Text.Passes m t.spelling := by
  cases t with
  | number cs => exact .inerts fun c hc => (isInert_number hv c hc).1
  | text body => exact .quoted hv
  | name cs =>
    exact .inerts fun c hc => Text.isInert_of_isWordChar (Text.isWordChar_of_isName hv.1 c hc)
  | symbol s => exact .inerts (isInert_symbol s)
  | opening => cases hp
  | closing => cases hp
  | comma => cases hp

theorem head?_atom {t : Token} (ht : t.isAtom = true) (hv : t.Valid) :
    ∀ c ∈ t.spelling.head?, Numeral.isMantissa c = true ∨ c = '"' ∨ Text.isWordChar c = true := by
  intro c hc
  cases t with
  | number cs =>
    obtain ⟨⟨d, hd, hmantissa⟩, -⟩ := hv
    rw [Option.mem_unique hc hd]
    exact .inl hmantissa
  | text body =>
    cases hc
    exact .inr (.inl rfl)
  | name cs => exact .inr (.inr (Text.isWordChar_of_isName hv.1 c (List.mem_of_mem_head? hc)))
  | symbol => cases ht
  | opening => cases ht
  | closing => cases ht
  | comma => cases ht

/-- No atom starts or ends with a blank. -/
theorem trimmed {t : Token} (ht : t.isAtom = true) (hv : t.Valid) : Text.Trimmed t.spelling := by
  have hnone {cs : List Char} (h : ∀ c ∈ cs, Text.isBlank c = false) : Text.Trimmed cs :=
    ⟨fun c hc => h c (List.mem_of_mem_head? hc), fun c hc => h c (List.mem_of_getLast? hc)⟩
  cases t with
  | number cs => exact hnone fun c hc => (isInert_number hv c hc).2
  | text body =>
    refine ⟨?_, fun c hc => ?_⟩
    · rintro c ⟨⟩
      rfl
    · rw [spelling, List.getLast?_concat] at hc
      cases hc
      rfl
  | name cs =>
    refine hnone fun c hc => ?_
    have hword := Text.isWordChar_of_isName hv.1 c hc
    rw [← Bool.not_eq_true]
    intro hblank
    rw [Text.not_isWordChar_of_isBlank hblank] at hword
    cases hword
  | symbol => cases ht
  | opening => cases ht
  | closing => cases ht
  | comma => cases ht

theorem exists_not_blank {t : Token} (hv : t.Valid) : ∃ c ∈ t.spelling, Text.isBlank c = false := by
  have hatom (ht : t.isAtom = true) : ∃ c ∈ t.spelling, Text.isBlank c = false := by
    obtain ⟨c, cs, hcs⟩ := List.exists_cons_of_ne_nil (t.spelling_ne_nil hv)
    exact ⟨c, by simp [hcs], (trimmed ht hv).1 c (by simp [hcs])⟩
  have hany (h : t.spelling.any (!Text.isBlank ·) = true) :
      ∃ c ∈ t.spelling, Text.isBlank c = false := by simpa using h
  cases t with
  | number | text | name => exact hatom rfl
  | symbol s => exact hany (forall_symbol s (by decide))
  | opening | closing | comma => exact hany rfl

end Token

namespace Spelled

variable {before : Option Char} {ts us : List Token} {cs : List Char} {m : Nat}

theorem passes_plain (h : Spelled before ts cs) (hts : ∀ t ∈ ts, t.isPlain = true) :
    Text.Passes m cs := by
  induction h with
  | nil => exact .nil
  | blank hc _ ih => exact .append (.inert (Text.isInert_of_isBlank hc)) (ih hts)
  | token hv _ _ ih =>
    exact .append (Token.passes hv (hts _ (by simp)) m) (ih fun t ht => hts t (by simp [ht]))

/-- A parenthesis closes if what stands in it and behind it does. -/
theorem passes_parens (h : Spelled before (.opening :: ts ++ .closing :: us) cs)
    (hts : ∀ u, Spelled none ts u → Text.Passes 1 u)
    (hus : ∀ u, Spelled (some ')') us u → Text.Passes m u) : Text.Passes m cs := by
  obtain ⟨ws, inner, rest, rfl, hws, hinner, hrest⟩ := parens h
  have heq : ws ++ ('(' :: inner ++ ')' :: rest) = ws ++ ('(' :: inner ++ [')'] ++ rest) := by simp
  rw [heq]
  exact .append (.blanks hws) (.append (.parens (hts _ hinner)) (hus _ hrest))

theorem passes_pieces {tss : List (List Token)}
    (h : Spelled before ([.comma].intercalate tss) cs)
    (htss : ∀ ts ∈ tss, ∀ u, Spelled none ts u → Text.Passes 0 u) : Text.Passes 1 cs := by
  by_cases hne : tss = []
  · subst hne
    exact h.passes_plain (by simp [List.intercalate])
  · obtain ⟨us, hus, rfl⟩ := pieces hne h
    refine .intercalate fun u hu => ?_
    obtain ⟨ts, hts, hspelled⟩ := forall₂_right hus hu
    exact htss ts hts u hspelled

end Spelled

theorem Spelled.not_allBlank {before : Option Char} {ts : List Token} {cs : List Char}
    (h : Spelled before ts cs) (hts : ts ≠ []) : ¬ Text.allBlank cs = true := by
  obtain ⟨t, ts, rfl⟩ := List.exists_cons_of_ne_nil hts
  obtain ⟨ws, rest, rfl, -, hv, -, -⟩ := h.uncons
  obtain ⟨c, hc, hblank⟩ := Token.exists_not_blank hv
  intro hall
  have := List.all_eq_true.mp hall c (by simp [hc])
  rw [hblank] at this
  cases this

theorem Derives.ne_nil {p : Phrase} {ts : List Token} {tree : Tree} (h : Derives p ts tree) :
    ts ≠ [] := by
  induction h with
  | signed _ _ _ ih => simp [ih]
  | first _ ih => exact ih
  | _ => simp

/-- The quotes and parentheses of a phrase close, and its commas stand between parentheses. -/
theorem Derives.passes {p : Phrase} {ts : List Token} {tree : Tree} (h : Derives p ts tree)
    {before : Option Char} {cs : List Char} (hs : Spelled before ts cs) : Text.Passes 0 cs := by
  induction h generalizing before cs with
  | number _ => exact hs.passes_plain (by simp [Token.isPlain])
  | text => exact hs.passes_plain (by simp [Token.isPlain])
  | name => exact hs.passes_plain (by simp [Token.isPlain])
  | @call name args _ ih =>
    have hname : Spelled before ([.name name] ++
        (.opening :: [.comma].intercalate (args.map (·.1)) ++ .closing :: [])) cs := hs
    obtain ⟨u, v, rfl, hu, hv⟩ := hname.split
    refine .append (hu.passes_plain (by simp [Token.isPlain])) (hv.passes_parens ?_ ?_)
    · intro u hu
      refine hu.passes_pieces fun ts hts w hw => ?_
      obtain ⟨a, ha, rfl⟩ := List.mem_map.mp hts
      exact ih a ha hw
    · exact fun u hu => hu.passes_plain (by simp)
  | group _ ih =>
    exact hs.passes_parens (fun u hu => (ih hu).mono) fun u hu => hu.passes_plain (by simp)
  | @signed signs ts atom operand hsigns _ _ ih =>
    obtain ⟨u, v, rfl, hu, hv⟩ := hs.split
    exact .append (hu.passes_plain (by simp [Token.isPlain])) (ih hv)
  | first _ ih => exact ih hs
  | @join ts us s left operand tree _ _ _ ihleft ihoperand =>
    obtain ⟨u, v, rfl, hu, hv⟩ := hs.split
    have hsymbol : Spelled (u.getLast?.or before) ([.symbol s] ++ us) v := hv
    obtain ⟨w, x, rfl, hw, hx⟩ := hsymbol.split
    exact .append (ihleft hu) (.append (hw.passes_plain (by simp [Token.isPlain])) (ihoperand hx))

end ClassicBasic

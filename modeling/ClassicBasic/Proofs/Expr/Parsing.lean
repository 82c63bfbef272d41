import ClassicBasic.Proofs.Expr.Lexed

/-!
# Reading accepts the grammar

`Tree.parse` reads a text if and only if it is spelled by the tokens of an expression, and then
gives the tree of that expression (`Tree.parse_iff`).

One direction follows the fragment that is read: `Denotes` says what tokens a fragment stands for,
and every lexeme keeps it (`Denotes.symbol`, `Denotes.operand`). The other follows the derivation:
the text of each phrase begins with lexemes that have the effect of the phrase (`Begins`, `Effect`).
-/

namespace ClassicBasic

/-! ## Signs and operators -/

/-- A run of signs. -/
def IsSigns (signs : List Symbol) : Prop := ∀ s ∈ signs, s = .operator .plus ∨ s = .minus

/-- Whether signs negate. -/
def isNegative (signs : List Symbol) : Bool := signs.count .minus % 2 == 1

theorem isNegative_append_minus (signs : List Symbol) :
    isNegative (signs ++ [.minus]) = !isNegative signs := by
  simp only [isNegative, List.count_append, List.count_singleton_self]
  rcases Nat.mod_two_eq_zero_or_one (signs.count .minus) with h | h <;> simp [Nat.add_mod, h]

theorem isNegative_append_plus (signs : List Symbol) :
    isNegative (signs ++ [.operator .plus]) = isNegative signs := by
  simp [isNegative]

theorem Fragment.applySign_eq_ok {signs : List Symbol} {atom operand : Tree} :
    applySign (isNegative signs) atom = .ok operand ↔ Tree.Signed signs atom operand := by
  unfold applySign Tree.Signed isNegative
  simp only [beq_iff_eq]
  split
  · rfl
  · simp [eq_comm]

theorem Fragment.join_eq_ok {left operand tree : Tree} {s : Symbol} :
    join left operand s = .ok tree ↔ left.Joined operand s tree := by
  cases s with
  | operator op => simp only [join, Tree.Joined, Except.ok.injEq, eq_comm]
  | minus => simp only [join, Tree.Joined, bind_eq_ok, Except.ok.injEq, eq_comm (a := tree)]
  | slash => simp only [join, Tree.Joined, bind_eq_ok, Except.ok.injEq, eq_comm (a := tree)]

/-! ## What a fragment stands for -/

/-- The tokens that a fragment is read from. -/
def Denotes : Fragment → List Token → Prop
  | .signs negative, us =>
    ∃ signs, IsSigns signs ∧ negative = isNegative signs ∧ us = signs.map .symbol
  | .complete tree, us => Derives .expression us tree
  | .dangling tree s negative, us =>
    ∃ ts signs, Derives .expression ts tree ∧ IsSigns signs ∧ negative = isNegative signs ∧
      us = ts ++ .symbol s :: signs.map .symbol

namespace Denotes

variable {f g : Fragment} {us ts : List Token} {source : List Char} {tree : Tree}

/-- A sign lengthens the signs. -/
theorem sign {signs : List Symbol} {s : Symbol} {negative : Bool} (hsigns : IsSigns signs)
    (h : Fragment.addSign (isNegative signs) s = .ok negative) :
    IsSigns (signs ++ [s]) ∧ negative = isNegative (signs ++ [s]) := by
  have happend (hs : s = .operator .plus ∨ s = .minus) : IsSigns (signs ++ [s]) := by
    intro s' hs'
    rcases List.mem_append.mp hs' with hs' | hs'
    · exact hsigns s' hs'
    · rwa [List.mem_singleton.mp hs']
  rcases Fragment.addSign_eq_ok.mp h with ⟨rfl, rfl⟩ | ⟨rfl, rfl⟩
  · exact ⟨happend (.inr rfl), (isNegative_append_minus signs).symm⟩
  · exact ⟨happend (.inl rfl), (isNegative_append_plus signs).symm⟩

theorem symbol {s : Symbol} (hd : Denotes f us) (h : f.addSymbol s = .ok g) :
    Denotes g (us ++ [.symbol s]) := by
  cases f with
  | signs negative =>
    obtain ⟨signs, hsigns, rfl, rfl⟩ := hd
    obtain ⟨negative, hs, h⟩ := bind_eq_ok.mp h
    cases h
    obtain ⟨hsigns, rfl⟩ := sign hsigns hs
    exact ⟨_, hsigns, rfl, by simp⟩
  | complete tree =>
    cases h
    exact ⟨us, [], hd, nofun, rfl, by simp⟩
  | dangling tree s' negative =>
    obtain ⟨ts, signs, hts, hsigns, rfl, rfl⟩ := hd
    obtain ⟨negative, hs, h⟩ := bind_eq_ok.mp h
    cases h
    obtain ⟨hsigns, rfl⟩ := sign hsigns hs
    exact ⟨ts, _, hts, hsigns, rfl, by simp⟩

theorem operand (hd : Denotes f us) (hatom : Derives .atom ts tree)
    (h : f.addOperand source tree = .ok g) : Denotes g (us ++ ts) := by
  cases f with
  | signs negative =>
    obtain ⟨signs, hsigns, rfl, rfl⟩ := hd
    obtain ⟨u, hu, h⟩ := bind_eq_ok.mp h
    cases h
    exact .first (.signed hsigns hatom (Fragment.applySign_eq_ok.mp hu))
  | complete tree => cases h
  | dangling left s negative =>
    obtain ⟨ls, signs, hls, hsigns, rfl, rfl⟩ := hd
    obtain ⟨u, hu, h⟩ := bind_eq_ok.mp h
    obtain ⟨v, hv, h⟩ := bind_eq_ok.mp h
    cases h
    have hoperand : Derives .operand (signs.map .symbol ++ ts) u :=
      .signed hsigns hatom (Fragment.applySign_eq_ok.mp hu)
    rw [List.append_assoc]
    exact .join hls hoperand (Fragment.join_eq_ok.mp hv)

end Denotes

/-! ## Atoms -/

namespace Tree

variable {parse : List Char → Except SyntaxError Tree}

/-- An operand text that is not quoted is a number or a name, by its first character. -/
theorem literal_cons {c : Char} {cs : List Char} (hc : c ≠ '"') :
    literal (c :: cs) =
      if Numeral.isMantissa c then
        match Numeral.number? (c :: cs) with
        | some x => .ok (.number x)
        | none => .error (.badNumber (String.ofList (c :: cs)))
      else if Text.isName (c :: cs) then .ok (.var (String.ofList (c :: cs)))
      else if cs.any Text.isBlank then .error (.missingOperator (String.ofList (c :: cs)))
      else .error (.badOperand (String.ofList (c :: cs))) := by
  unfold literal
  split
  · rename_i heq
    exact absurd (List.cons.inj heq).1 hc
  · rename_i heq
    cases heq
    rfl
  · rename_i heq
    cases heq

theorem literal_number {cs : List Char} {x : Float} (hv : (Token.number cs).Valid)
    (hx : Numeral.number? cs = some x) : literal cs = .ok (.number x) := by
  obtain ⟨⟨c, hc, hmantissa⟩, -⟩ := hv
  cases cs with
  | nil => cases hc
  | cons d cs =>
    cases hc
    have hquote : c ≠ '"' := by
      rintro rfl
      exact absurd hmantissa (by decide)
    simp only [literal_cons hquote, hmantissa, if_true, hx]

theorem literal_text {body : List Char} (hv : (Token.text body).Valid) :
    literal (Token.text body).spelling = .ok (.text (String.ofList body)) := by
  have hbody : body.contains '"' = false := by simpa [Token.Valid] using hv
  simp only [literal, Token.spelling, List.cons_append, List.getLast?_concat, List.dropLast_concat,
    hbody]
  rfl

theorem literal_name {cs : List Char} (hv : (Token.name cs).Valid) :
    literal cs = .ok (.var (String.ofList cs)) := by
  obtain ⟨c, hc, halpha⟩ := Text.head?_of_isName hv.1
  rw [Text.isAlpha_iff] at halpha
  cases cs with
  | nil => cases hc
  | cons d cs =>
    cases hc
    have hquote : c ≠ '"' := by
      rintro rfl
      exact absurd halpha (by decide)
    have hmantissa : Numeral.isMantissa c = false := by
      rw [Bool.eq_false_iff, Ne, Numeral.isMantissa_iff]
      omega
    simp only [literal_cons hquote, hmantissa, hv.1, if_true, Bool.false_eq_true, if_false]

theorem literal_atom {t : Token} {tree : Tree} (ht : t.isAtom = true) (hv : t.Valid)
    (h : literal t.spelling = .ok tree) : Derives .atom [t] tree := by
  cases t with
  | number cs =>
    obtain ⟨x, hx⟩ := Option.isSome_iff_exists.mp hv.2
    cases h.symm.trans (literal_number hv hx)
    exact .number hx
  | text body =>
    cases h.symm.trans (literal_text hv)
    exact .text
  | name cs =>
    cases h.symm.trans (literal_name hv)
    exact .name
  | symbol => cases ht
  | opening => cases ht
  | closing => cases ht
  | comma => cases ht

end Tree

/-! ## What is read is an expression -/

/-- What `parse` reads is an expression. -/
def Sound (parse : List Char → Except SyntaxError Tree) : Prop :=
  ∀ cs tree, parse cs = .ok tree → ∃ ts, Spelled none ts cs ∧ Derives .expression ts tree

namespace Sound

variable {parse : List Char → Except SyntaxError Tree} (hp : Sound parse)
include hp

/-- The arguments of a call. -/
theorem args {pieces : List (List Char)} {trees : List Tree}
    (h : List.Forall₂ (fun u t => parse u = .ok t) pieces trees) :
    ∃ args : List (List Token × Tree), args.map (·.2) = trees ∧
      List.Forall₂ (Spelled none) (args.map (·.1)) pieces ∧
      ∀ a ∈ args, Derives .expression a.1 a.2 := by
  induction h with
  | nil => exact ⟨[], rfl, .nil, nofun⟩
  | @cons u t pieces trees hu _ ih =>
    obtain ⟨args, rfl, hargs, hderives⟩ := ih
    obtain ⟨ts, hts, htree⟩ := hp u t hu
    exact ⟨(ts, t) :: args, rfl, .cons hts hargs, List.forall_mem_cons.mpr ⟨htree, hderives⟩⟩

theorem parens_group {inner : List Char} {tree : Tree}
    (h : Tree.parens parse [] inner = .ok tree) :
    ∃ ts, Spelled none ts inner ∧ Derives .atom (.opening :: ts ++ [.closing]) tree := by
  obtain ⟨t, ht, h⟩ := bind_eq_ok.mp h
  cases h
  obtain ⟨ts, hts, htree⟩ := hp inner t ht
  exact ⟨ts, hts, .group htree⟩

theorem parens_call {name inner : List Char} {tree : Tree} (hname : (Token.name name).Valid)
    (h : Tree.parens parse name inner = .ok tree) :
    ∃ ts, Spelled none ts inner ∧
      Derives .atom (.name name :: .opening :: ts ++ [.closing]) tree := by
  have hne : name ≠ [] := Token.spelling_ne_nil hname
  simp only [Tree.parens, List.isEmpty_iff, hne, hname.1, if_false, if_true] at h
  split at h
  · rename_i hblank
    obtain ⟨_, ⟨⟩, h⟩ := bind_eq_ok.mp h
    cases h
    exact ⟨[], Spelled.nil_iff.mpr hblank, @Derives.call name [] nofun⟩
  · rename_i hblank
    obtain ⟨trees, htrees, h⟩ := bind_eq_ok.mp h
    cases h
    obtain ⟨args, rfl, hargs, hderives⟩ := hp.args (mapM_eq_ok.mp htrees)
    have hinner : Spelled none _ _ := Spelled.of_pieces hargs nofun
    rw [Text.splitOutsideBrackets_of_not_allBlank hblank, Text.intercalate_piecesFrom] at hinner
    exact ⟨_, hinner, .call hderives⟩

/-- The lexemes behind a fragment. -/
theorem of_lexed {before : Option Char} {ls : List Lexeme} {cs source : List Char} {f : Fragment}
    {us : List Token} {tree : Tree} (h : Lexed before ls cs) (hd : Denotes f us)
    (hr : f.Reads parse source ls (.complete tree)) :
    ∃ ts, Spelled before ts cs ∧ Derives .expression (us ++ ts) tree := by
  induction h generalizing f us with
  | nil =>
    rw [Fragment.reads_nil.mp hr] at hd
    exact ⟨[], .nil, by rwa [List.append_nil]⟩
  | blank hc _ ih =>
    obtain ⟨ts, hts, htree⟩ := ih hd hr
    exact ⟨ts, .blank hc hts, htree⟩
  | @symbol before s ls cs hapart _ ih =>
    obtain ⟨m, hm, hr⟩ := Fragment.reads_cons.mp hr
    obtain ⟨ts, hts, htree⟩ := ih (hd.symbol hm) hr
    exact ⟨.symbol s :: ts, .token trivial hapart hts, by simpa using htree⟩
  | @operand before t ls cs ht hv _ ih =>
    obtain ⟨m, hm, hr⟩ := Fragment.reads_cons.mp hr
    obtain ⟨x, hx, hm⟩ := bind_eq_ok.mp hm
    obtain ⟨ts, hts, htree⟩ := ih (hd.operand (Tree.literal_atom ht hv hx) hm) hr
    exact ⟨t :: ts, .token hv (Token.apart_of_isAtom ht _ _) hts, by simpa using htree⟩
  | @parens before name ws inner ls cs hname hws hclosing _ ih =>
    obtain ⟨m, hnext, hrest⟩ := Fragment.reads_cons.mp hr
    obtain ⟨x, hx, hm⟩ := bind_eq_ok.mp hnext
    rcases hname with rfl | hname
    · obtain ⟨inside, hinside, hatom⟩ := hp.parens_group hx
      obtain ⟨ts, hts, htree⟩ := ih (hd.operand hatom hm) hrest
      refine ⟨.opening :: inside ++ .closing :: ts, ?_, by simpa using htree⟩
      rw [List.nil_append]
      exact Spelled.blanks hws (.of_parens hinside hts)
    · obtain ⟨inside, hinside, hatom⟩ := hp.parens_call hname hx
      obtain ⟨ts, hts, htree⟩ := ih (hd.operand hatom hm) hrest
      exact ⟨.name name :: .opening :: inside ++ .closing :: ts,
        .token hname nofun (Spelled.blanks hws (.of_parens hinside hts)), by simpa using htree⟩

end Sound

theorem Tree.parseWithin_sound (depth : Nat) : Sound (parseWithin depth) := by
  induction depth with
  | zero => nofun
  | succ depth ih =>
    intro cs tree h
    obtain ⟨ls, hls, hr⟩ := Lexed.reads_all_iff.mp (build_eq_ok.mp h)
    have hstart : Denotes (.signs false) [] := ⟨[], nofun, rfl, rfl⟩
    exact ih.of_lexed hls hstart hr

/-! ## Every expression is read -/

/-- The text `cs` begins with the lexemes `ls`, and what follows them is spelled by `us`. -/
def Begins (before : Option Char) (cs : List Char) (ls : List Lexeme) (us : List Token) : Prop :=
  ∃ before' rest, Spelled before' us rest ∧ rest.length ≤ cs.length ∧
    ∀ ks, Lexed before' ks rest → Lexed before (ls ++ ks) cs

namespace Begins

variable {before : Option Char} {cs : List Char} {ls : List Lexeme} {us vs : List Token}

theorem nil (h : Spelled before us cs) : Begins before cs [] us :=
  ⟨before, cs, h, Nat.le_refl _, fun _ h => h⟩

/-- Lexemes behind lexemes. -/
theorem append {P : List Lexeme → Prop} (h : Begins before cs ls us)
    (hrest : ∀ before' rest, Spelled before' us rest → rest.length ≤ cs.length →
      ∃ ks, Begins before' rest ks vs ∧ P ks) :
    ∃ ks, Begins before cs (ls ++ ks) vs ∧ P ks := by
  obtain ⟨before', rest, hus, hlen, hls⟩ := h
  obtain ⟨ks, ⟨before'', rest', hvs, hlen', hks⟩, hP⟩ := hrest before' rest hus hlen
  refine ⟨ks, ⟨before'', rest', hvs, hlen'.trans hlen, fun js hjs => ?_⟩, hP⟩
  rw [List.append_assoc]
  exact hls _ (hks js hjs)

theorem symbol {s : Symbol} (h : Spelled before (.symbol s :: us) cs) :
    Begins before cs [.symbol s] us := by
  obtain ⟨ws, rest, rfl, hws, -, hapart, hrest⟩ := h.uncons
  exact ⟨_, rest, hrest, by simp; omega, fun _ hks => .blanks hws (.symbol hapart hks)⟩

theorem operand {t : Token} (ht : t.isAtom = true) (h : Spelled before (t :: us) cs) :
    t.Valid ∧ Begins before cs [.operand t.spelling] us := by
  obtain ⟨ws, rest, rfl, hws, hv, -, hrest⟩ := h.uncons
  exact ⟨hv, _, rest, hrest, by simp; omega, fun _ hks => .blanks hws (.operand ht hv hks)⟩

theorem parens {ts : List Token} (h : Spelled before (.opening :: ts ++ .closing :: us) cs)
    (hts : ∀ u, Spelled none ts u → Text.Passes 1 u) :
    ∃ inner, Spelled none ts inner ∧ inner.length + 2 ≤ cs.length ∧
      Begins before cs [.parens [] inner] us := by
  obtain ⟨ws, inner, rest, rfl, hws, hinner, hrest⟩ := h.parens
  refine ⟨inner, hinner, by simp; omega, _, rest, hrest, by simp; omega, fun _ hks => ?_⟩
  have hclosing := Text.closing?_parens (hts inner hinner) rest
  exact Lexed.parens (.inl rfl) hws hclosing hks

theorem call {name : List Char} {ts : List Token}
    (h : Spelled before (.name name :: .opening :: ts ++ .closing :: us) cs)
    (hts : ∀ u, Spelled none ts u → Text.Passes 1 u) :
    (Token.name name).Valid ∧ ∃ inner, Spelled none ts inner ∧ inner.length + 2 ≤ cs.length ∧
      Begins before cs [.parens name inner] us := by
  obtain ⟨ws, tail, rfl, hws, hv, -, htail⟩ := Spelled.uncons h
  obtain ⟨ws', inner, rest, rfl, hws', hinner, hrest⟩ := Spelled.parens htail
  refine ⟨hv, inner, hinner, by simp; omega, _, rest, hrest, by simp; omega, fun _ hks => ?_⟩
  have hclosing := Text.closing?_parens (hts inner hinner) rest
  exact .blanks hws (Lexed.parens (.inr hv) hws' hclosing hks)

end Begins

open Fragment (Reads next) in
/-- What the lexemes of a phrase do. -/
def Effect (parse : List Char → Except SyntaxError Tree) (source : List Char) (tree : Tree)
    (ls : List Lexeme) : Phrase → Prop
  | .atom => ∀ f g : Fragment, f.addOperand source tree = .ok g → f.Reads parse source ls g
  | .operand =>
    Reads parse source (.signs false) ls (.complete tree.single) ∧
      ∀ left s joined, left.Joined tree s joined →
        Reads parse source (.dangling left s false) ls (.complete joined)
  | .expression => Reads parse source (.signs false) ls (.complete tree)

/-- The tokens of a phrase are read wherever they stand. -/
def Readable (p : Phrase) (ts : List Token) (tree : Tree) : Prop :=
  ∀ ⦃before us cs⦄, Spelled before (ts ++ us) cs → ∀ ⦃depth⦄, cs.length ≤ depth + 1 →
    ∃ ls, Begins before cs ls us ∧ ∀ source, Effect (Tree.parseWithin depth) source tree ls p

theorem Readable.parseWithin {ts : List Token} {tree : Tree} (h : Readable .expression ts tree)
    (hne : ts ≠ []) {cs : List Char} (hs : Spelled none ts cs) {depth : Nat}
    (hlen : cs.length ≤ depth) : Tree.parseWithin depth cs = .ok tree := by
  cases depth with
  | zero =>
    rw [List.length_eq_zero_iff.mp (Nat.le_zero.mp hlen)] at hs
    exact absurd rfl (hs.not_allBlank hne)
  | succ depth =>
    have hs' : Spelled none (ts ++ []) cs := by rwa [List.append_nil]
    obtain ⟨ls, ⟨before, rest, hrest, -, hls⟩, heffect⟩ := h hs' hlen
    have hblank : Lexed before [] (rest ++ []) := .blanks (Spelled.nil_iff.mp hrest) .nil
    rw [List.append_nil] at hblank
    have hlexed := hls [] hblank
    rw [List.append_nil] at hlexed
    exact Tree.build_eq_ok.mpr (Lexed.reads_all_iff.mpr ⟨ls, hlexed, heffect cs⟩)

section
variable {parse : List Char → Except SyntaxError Tree} {source : List Char}

theorem Effect.of_next {l : Lexeme} {tree : Tree}
    (h : ∀ f : Fragment, f.next parse source l = f.addOperand source tree) :
    Effect parse source tree [l] .atom := by
  intro f g hg
  exact Fragment.reads_cons.mpr ⟨g, (h f).trans hg, Fragment.reads_nil.mpr rfl⟩

/-- A call is read if its arguments are. -/
theorem Tree.parens_eq_call {name inner : List Char} {args : List (List Token × Tree)}
    (hname : (Token.name name).Valid)
    (hinner : Spelled none ([.comma].intercalate (args.map (·.1))) inner)
    (hargs : ∀ a ∈ args, Derives .expression a.1 a.2)
    (hparse : ∀ a ∈ args, ∀ u, Spelled none a.1 u → u.length ≤ inner.length →
      parse u = .ok a.2) :
    Tree.parens parse name inner = .ok (.call (String.ofList name) (args.map (·.2))) := by
  have hne : name ≠ [] := Token.spelling_ne_nil hname
  simp only [Tree.parens, List.isEmpty_iff, hne, hname.1, if_false, if_true]
  by_cases hnil : args = []
  · subst hnil
    have hblank : Text.allBlank inner = true := Spelled.nil_iff.mp hinner
    simp only [hblank, if_true]
    rfl
  · have htokens : [Token.comma].intercalate (args.map (·.1)) ≠ [] := by
      obtain ⟨a, args, rfl⟩ := List.exists_cons_of_ne_nil hnil
      have ha := (hargs a (by simp)).ne_nil
      cases args with
      | nil => simpa [List.intercalate] using ha
      | cons b args => simp [List.intercalate_cons_cons, ha]
    have hblank := hinner.not_allBlank htokens
    obtain ⟨us, hus, rfl⟩ := hinner.pieces (by simpa using hnil)
    rw [List.forall₂_map_left_iff] at hus
    have hpasses : ∀ u ∈ us, Text.Passes 0 u := by
      intro u hu
      obtain ⟨a, ha, hspelled⟩ := forall₂_right hus hu
      exact (hargs a ha).passes hspelled
    have hne : us ≠ [] := by
      rintro rfl
      exact hnil (List.forall₂_nil_right_iff.mp hus)
    have hread : List.Forall₂ (fun u t => parse u = .ok t) us (args.map (·.2)) := by
      have hlen : ∀ u ∈ us, u.length ≤ ([','].intercalate us).length :=
        fun u hu => Text.length_le_intercalate hu
      have hboth := ((List.forall₂_and_left _ _).mpr ⟨hparse, hus⟩).flip
      rw [List.forall₂_map_right_iff]
      refine ((List.forall₂_and_left _ _).mpr ⟨hlen, hboth⟩).imp ?_
      rintro u a ⟨hlen, hparse, hspelled⟩
      exact hparse u hspelled hlen
    simp only [hblank, Text.splitOutsideBrackets_of_not_allBlank hblank,
      Text.piecesFrom_intercalate hne hpasses, mapM_eq_ok.mpr hread]
    rfl

/-! ### Signs -/

theorem addSign_isNegative {pre : List Symbol} {s : Symbol}
    (hs : s = .operator .plus ∨ s = .minus) :
    Fragment.addSign (isNegative pre) s = .ok (isNegative (pre ++ [s])) := by
  rcases hs with rfl | rfl
  · rw [isNegative_append_plus]
    rfl
  · rw [isNegative_append_minus]
    rfl

theorem addSymbol_signs (negative : Bool) (s : Symbol) :
    (Fragment.signs negative).addSymbol s = (Fragment.addSign negative s).map .signs := by
  rw [Fragment.addSymbol]
  cases Fragment.addSign negative s <;> rfl

theorem addSymbol_dangling {left : Tree} {op : Symbol} (negative : Bool) (s : Symbol) :
    (Fragment.dangling left op negative).addSymbol s =
      (Fragment.addSign negative s).map (.dangling left op) := by
  rw [Fragment.addSymbol]
  cases Fragment.addSign negative s <;> rfl

/-- Signs are collected in a fragment `F` that is open to them. -/
theorem reads_signs {F : Bool → Fragment}
    (hF : ∀ negative s, (F negative).addSymbol s = (Fragment.addSign negative s).map F)
    {signs : List Symbol} (hsigns : IsSigns signs) (pre : List Symbol) :
    (F (isNegative pre)).Reads parse source (signs.map .symbol)
      (F (isNegative (pre ++ signs))) := by
  induction signs generalizing pre with
  | nil => simpa using Fragment.reads_nil.mpr rfl
  | cons s signs ih =>
    have hs : Fragment.addSign (isNegative pre) s = .ok _ := addSign_isNegative (hsigns s (by simp))
    have hrest := ih (fun s hs => hsigns s (by simp [hs])) (pre ++ [s])
    rw [List.append_assoc, List.singleton_append] at hrest
    refine Fragment.reads_cons.mpr ⟨_, ?_, hrest⟩
    exact (hF _ _).trans (by rw [hs]; rfl)

theorem Begins.signs {before : Option Char} {cs : List Char} {us : List Token}
    {signs : List Symbol} (h : Spelled before (signs.map .symbol ++ us) cs) :
    Begins before cs (signs.map .symbol) us := by
  induction signs generalizing before cs with
  | nil => exact .nil h
  | cons s signs ih =>
    obtain ⟨ks, hks, rfl⟩ := (Begins.symbol h).append (P := (· = signs.map .symbol))
      fun before' rest hrest _ => ⟨_, ih hrest, rfl⟩
    exact hks

end

/-! ### Phrases -/

theorem Readable.operand {t : Token} {tree : Tree} (ht : t.isAtom = true)
    (h : t.Valid → Tree.literal t.spelling = .ok tree) : Readable .atom [t] tree := by
  intro before us cs hs depth _
  obtain ⟨hv, hbegins⟩ := Begins.operand ht hs
  refine ⟨_, hbegins, fun source => .of_next fun f => ?_⟩
  rw [Fragment.next, h hv]
  rfl

theorem Readable.call {name : List Char} {args : List (List Token × Tree)}
    (hargs : ∀ a ∈ args, Derives .expression a.1 a.2)
    (hread : ∀ a ∈ args, Readable .expression a.1 a.2) :
    Readable .atom (.name name :: .opening :: [.comma].intercalate (args.map (·.1)) ++ [.closing])
      (.call (String.ofList name) (args.map (·.2))) := by
  intro before us cs hs depth hlen
  have hpasses : ∀ u, Spelled none ([.comma].intercalate (args.map (·.1))) u → Text.Passes 1 u := by
    intro u hu
    refine hu.passes_pieces fun ts hts w hw => ?_
    obtain ⟨a, ha, rfl⟩ := List.mem_map.mp hts
    exact (hargs a ha).passes hw
  rw [List.append_assoc] at hs
  obtain ⟨hname, inner, hinner, hshort, hbegins⟩ := Begins.call hs hpasses
  refine ⟨_, hbegins, fun source => .of_next fun f => ?_⟩
  have hparens := Tree.parens_eq_call hname hinner hargs fun a ha u hu hlen' =>
    (hread a ha).parseWithin (hargs a ha).ne_nil hu (by omega : u.length ≤ depth)
  rw [Fragment.next, hparens]
  rfl

theorem Readable.group {ts : List Token} {tree : Tree} (h : Derives .expression ts tree)
    (hread : Readable .expression ts tree) :
    Readable .atom (.opening :: ts ++ [.closing]) tree.grouped := by
  intro before us cs hs depth hlen
  rw [List.append_assoc] at hs
  obtain ⟨inner, hinner, hshort, hbegins⟩ :=
    Begins.parens hs fun u hu => (h.passes hu).mono
  refine ⟨_, hbegins, fun source => .of_next fun f => ?_⟩
  have hparse := hread.parseWithin h.ne_nil hinner (by omega : inner.length ≤ depth)
  have hparens : Tree.parens (Tree.parseWithin depth) [] inner = .ok tree.grouped := by
    simp only [Tree.parens, List.isEmpty_nil, if_true, hparse]
    rfl
  rw [Fragment.next, hparens]
  rfl

theorem Readable.signed {signs : List Symbol} {ts : List Token} {atom operand : Tree}
    (hsigns : IsSigns signs) (hread : Readable .atom ts atom)
    (hsigned : Tree.Signed signs atom operand) :
    Readable .operand (signs.map .symbol ++ ts) operand := by
  intro before us cs hs depth hlen
  rw [List.append_assoc] at hs
  obtain ⟨ls, hbegins, heffect⟩ := (Begins.signs hs).append fun before' rest hrest hle =>
    hread hrest (hle.trans hlen)
  have hsign := Fragment.applySign_eq_ok.mpr hsigned
  refine ⟨_, hbegins, fun source => ⟨?_, fun left s joined hjoined => ?_⟩⟩
  · refine Fragment.reads_append.mpr
      ⟨_, reads_signs addSymbol_signs hsigns [], heffect source _ _ ?_⟩
    exact bind_eq_ok.mpr ⟨operand, hsign, rfl⟩
  · refine Fragment.reads_append.mpr
      ⟨_, reads_signs addSymbol_dangling hsigns [], heffect source _ _ ?_⟩
    exact bind_eq_ok.mpr
      ⟨operand, hsign, bind_eq_ok.mpr ⟨joined, Fragment.join_eq_ok.mpr hjoined, rfl⟩⟩

theorem Derives.readable {p : Phrase} {ts : List Token} {tree : Tree} (h : Derives p ts tree) :
    Readable p ts tree := by
  induction h with
  | number hx => exact .operand rfl fun hv => Tree.literal_number hv hx
  | text => exact .operand rfl Tree.literal_text
  | name => exact .operand rfl Tree.literal_name
  | call hargs ih => exact .call hargs ih
  | group h ih => exact .group h ih
  | signed hsigns _ hsigned ih => exact .signed hsigns ih hsigned
  | first _ ih =>
    intro before us cs hs depth hlen
    obtain ⟨ls, hbegins, heffect⟩ := ih hs hlen
    exact ⟨ls, hbegins, fun source => (heffect source).1⟩
  | @join ts us s left operand tree _ _ hjoined ihleft ihoperand =>
    intro before vs cs hs depth hlen
    rw [List.append_assoc] at hs
    obtain ⟨ls, hls, hleft⟩ := ihleft hs hlen
    have hrest : ∃ ks, Begins before cs (ls ++ ks) vs ∧ ∀ source,
        Fragment.Reads (Tree.parseWithin depth) source (.complete left) ks (.complete tree) := by
      refine hls.append fun before' rest hrest hle => ?_
      obtain ⟨js, hjs, hoperand⟩ := (Begins.symbol hrest).append fun before'' rest' hrest' hle' =>
        ihoperand hrest' ((hle'.trans hle).trans hlen)
      exact ⟨_, hjs, fun source =>
        Fragment.reads_cons.mpr ⟨_, rfl, (hoperand source).2 left s tree hjoined⟩⟩
    obtain ⟨ks, hks, hjoin⟩ := hrest
    exact ⟨_, hks, fun source => Fragment.reads_append.mpr ⟨_, hleft source, hjoin source⟩⟩

/-- **Reading accepts the grammar and gives its trees.** A text is read as `tree` exactly if it is
spelled by the tokens of an expression that stands for `tree`. -/
theorem Tree.parse_iff (text : List Char) (tree : Tree) :
    Tree.parse text = .ok tree ↔
      ∃ ts, Spelled none ts text ∧ Derives .expression ts tree := by
  constructor
  · exact Tree.parseWithin_sound text.length text tree
  · rintro ⟨ts, hts, htree⟩
    exact htree.readable.parseWithin htree.ne_nil hts (Nat.le_refl _)

/-! ## Signs in front of texts -/

/-- A sign, and not an operator between operands, stands in front of a quoted text. -/
def SignsText (ts : List Token) : Prop :=
  ∃ us s body vs, ts = us ++ .symbol s :: .text body :: vs ∧ (s = .operator .plus ∨ s = .minus) ∧
    ∀ t ∈ us.getLast?, t = .opening ∨ t = .comma ∨ ∃ s', t = .symbol s'

/-- The first token of a text that does not start with a blank. -/
theorem Spelled.first {before : Option Char} {c : Char} {cs : List Char} {ts : List Token}
    (h : Spelled before ts (c :: cs)) (hc : Text.isBlank c = false) :
    ∃ t ts' rest, ts = t :: ts' ∧ t.Valid ∧ t.spelling.head? = some c ∧
      c :: cs = t.spelling ++ rest ∧ Spelled t.spelling.getLast? ts' rest := by
  generalize hcs : c :: cs = all at h
  cases h with
  | nil => cases hcs
  | blank hblank _ =>
    cases hcs
    rw [hc] at hblank
    cases hblank
  | @token _ t ts rest hv _ h =>
    refine ⟨t, ts, rest, rfl, hv, ?_, rfl, h⟩
    rw [← List.head?_append_of_ne_nil _ (t.spelling_ne_nil hv), ← hcs]
    rfl

/-- A text that starts with a sign and a quote is spelled so. -/
theorem SignsText.of_spelled {ts : List Token} {cs : List Char}
    (h : Spelled none ts ('+' :: '"' :: cs)) : SignsText ts := by
  obtain ⟨t, ts, rest, rfl, hv, hhead, hrest, h⟩ := h.first rfl
  obtain rfl : t = .symbol (.operator .plus) := by
    cases t with
    | symbol s => rw [(Lexeme.sign_head s).1 hhead]
    | number | text | name =>
      rcases Token.head?_atom rfl hv '+' hhead with h | h | h <;> exact absurd h (by decide)
    | opening | closing | comma => cases hhead
  obtain rfl : '"' :: cs = rest := (List.cons.inj hrest).2
  obtain ⟨t, ts, rest, rfl, hv, hhead, -, -⟩ := h.first rfl
  obtain ⟨body, rfl⟩ : ∃ body, t = .text body := by
    cases t with
    | text body => exact ⟨body, rfl⟩
    | number cs =>
      exact absurd (Token.isInert_number hv '"' (List.mem_of_mem_head? hhead)).1 (by decide)
    | name cs =>
      exact absurd (Text.isWordChar_of_isName hv.1 '"' (List.mem_of_mem_head? hhead)) (by decide)
    | symbol s =>
      exact absurd (Token.isInert_symbol s '"' (List.mem_of_mem_head? hhead)) (by decide)
    | opening | closing | comma => cases hhead
  exact ⟨[], .operator .plus, body, ts, rfl, .inl rfl, nofun⟩

/-- A plus sign in front of a quoted text is not a fault. -/
theorem Tree.parse_signed_text : ¬ ∀ text tree, Tree.parse text = .ok tree ↔
    ∃ ts, Spelled none ts text ∧ Derives .expression ts tree ∧ ¬ SignsText ts := by
  intro h
  have hparse : Tree.parse ['+', '"', 'A', '"'] = .ok (.single (.text "A")) := rfl
  obtain ⟨ts, hts, -, hsigns⟩ := (h _ _).mp hparse
  exact hsigns (.of_spelled hts)

end ClassicBasic

import ClassicBasic.Proofs.Expr.Blanks
import ClassicBasic.Proofs.Text.Composition

/-!
# The words of an expression

The names in the tree of an expression (`Tree.names`), AND and OR are the words of its text, and it
has no colon outside quotes (`Expr.composed`). So a keyword that no name equals is not found in the
text of an expression.
-/

namespace ClassicBasic

/-! ## Names of a tree -/

namespace Tree

mutual

/-- The variables and functions of a tree. -/
def names : Tree → List String
  | .number _ | .text _ => []
  | .var name => [name]
  | .call name args => name :: namesEach args
  | .transform _ operand => names operand
  | .chain _ _ operands => namesEach operands

def namesEach : List Tree → List String
  | [] => []
  | t :: ts => names t ++ namesEach ts

end

theorem mem_namesEach {n : String} {ts : List Tree} :
    n ∈ namesEach ts ↔ ∃ t ∈ ts, n ∈ t.names := by
  induction ts with
  | nil => simp [namesEach]
  | cons t ts ih => simp [namesEach, ih]

mutual

/-- Adding an operand loses no name. -/
theorem mem_names_push {n : String} (tree : Tree) {op : Op} {operand : Tree}
    (h : n ∈ tree.names ∨ n ∈ operand.names) : n ∈ (tree.push op operand).names := by
  cases tree with
  | chain op' group operands =>
    rw [push]
    rw [names] at h
    split
    · rw [names, mem_namesEach]
      rw [mem_namesEach] at h
      rcases h with ⟨t, ht, hn⟩ | hn
      · exact ⟨t, by simp [ht], hn⟩
      · exact ⟨operand, by simp, hn⟩
    split
    · rw [names]
      exact mem_names_pushLast operands h
    · simpa [names, namesEach] using h
  | _ => simpa [push, names, namesEach, or_assoc] using h

theorem mem_names_pushLast {n : String} (trees : List Tree) {op : Op} {operand : Tree}
    (h : n ∈ namesEach trees ∨ n ∈ operand.names) : n ∈ namesEach (pushLast trees op operand) := by
  match trees with
  | [] => simpa [pushLast, namesEach] using h
  | [last] =>
    rw [pushLast, namesEach]
    have hlast : n ∈ last.names ∨ n ∈ operand.names := by simpa [namesEach] using h
    simpa using Or.inl (mem_names_push last hlast)
  | t :: next :: rest =>
    rw [pushLast, namesEach, List.mem_append]
    rw [namesEach, List.mem_append, or_assoc] at h
    exact h.imp_right (mem_names_pushLast (next :: rest))

end

theorem mem_names_transformed {n : String} {t : Transform} {tree u : Tree}
    (h : tree.transformed t = .ok u) (hn : n ∈ tree.names) : n ∈ u.names := by
  cases tree with
  | number x => simp [names] at hn
  | text s => cases h
  | _ =>
    cases h
    exact hn

theorem names_grouped (tree : Tree) : tree.grouped.names = tree.names := by
  cases tree <;> rfl

theorem Signed.mem_names {n : String} {signs : List Symbol} {atom operand : Tree}
    (h : Signed signs atom operand) (hn : n ∈ atom.names) : n ∈ operand.names := by
  unfold Signed at h
  split at h
  · exact mem_names_transformed h hn
  · rwa [h]

theorem Joined.mem_names {n : String} {left operand tree : Tree} {s : Symbol}
    (h : left.Joined operand s tree) (hn : n ∈ left.names ∨ n ∈ operand.names) :
    n ∈ tree.names := by
  cases s with
  | operator op =>
    rw [h]
    exact mem_names_push left hn
  | minus =>
    obtain ⟨u, hu, rfl⟩ := h
    exact mem_names_push left (hn.imp_right (mem_names_transformed hu))
  | slash =>
    obtain ⟨u, hu, rfl⟩ := h
    exact mem_names_push left (hn.imp_right (mem_names_transformed hu))

end Tree

/-! ## Texts of phrases -/

open Text (Composed isPunctuation)

theorem Token.symbol_marks {s : Symbol} (h : (Token.symbol s).isKeyword = false) :
    ∀ c ∈ (Token.symbol s).spelling, isPunctuation c = true ∧ c ≠ ':' := by
  have hall : (Token.symbol s).isKeyword ||
      (Token.symbol s).spelling.all (fun c => isPunctuation c && c != ':') = true :=
    forall_symbol s (by decide)
  simpa [h] using hall

theorem Numeral.Numeric.isNumeric {cs : List Char} (h : Numeral.Numeric cs) :
    ∀ c ∈ cs, Text.isNumeric c = true := by
  intro c hc
  rcases h.chars c hc with hc | rfl | rfl | rfl | rfl
  · simp only [Numeral.isMantissa, Bool.or_eq_true, beq_iff_eq] at hc
    rcases hc with hc | rfl
    · simp [Text.isNumeric, hc]
    · rfl
  all_goals rfl

section
variable {W : List Char → Prop} {before : Option Char} {cs u ws : List Char}

theorem composed_blanks (h : Text.allBlank ws = true) : Composed W (· ≠ ':') ws := by
  refine .marks fun c hc => ?_
  have hblank := List.all_eq_true.mp h c hc
  refine ⟨Text.isPunctuation_of_isBlank hblank, ?_⟩
  rintro rfl
  cases hblank

/-- Blanks in front of a text do not make it start with a word. -/
theorem not_isWordChar_head? (hws : Text.allBlank ws = true)
    (hu : ∀ c ∈ u.head?, Text.isWordChar c = false) :
    ∀ c ∈ (ws ++ u).head?, Text.isWordChar c = false := by
  cases ws with
  | nil => exact hu
  | cons c ws =>
    simp only [Text.allBlank, List.all_cons, Bool.and_eq_true] at hws
    rintro d ⟨⟩
    exact Text.not_isWordChar_of_isBlank hws.1

theorem not_isWordChar_getLast? (h : Text.allBlank ws = true) :
    ∀ c ∈ ws.getLast?, Text.isWordChar c = false := fun c hc =>
  Text.not_isWordChar_of_isBlank (List.all_eq_true.mp h c (List.mem_of_getLast? hc))

/-- A text with blanks in front and behind. -/
theorem composed_between {ws' : List Char} (hws : Text.allBlank ws = true)
    (hu : Composed W (· ≠ ':') u) (hws' : Text.allBlank ws' = true) :
    Composed W (· ≠ ':') (ws ++ (u ++ ws')) :=
  .append (composed_blanks hws)
    (.append hu (composed_blanks hws') (.of_head? fun c hc => Text.not_isWordChar_of_isBlank
      (List.all_eq_true.mp hws' c (List.mem_of_mem_head? hc))))
    (.of_getLast? (not_isWordChar_getLast? hws))

theorem Spelled.composed_atom {t : Token} (h : Spelled before [t] cs)
    (ht : t.Valid → Composed W (· ≠ ':') t.spelling) : Composed W (· ≠ ':') cs := by
  obtain ⟨ws, rest, rfl, hws, hv, -, hrest⟩ := h.uncons
  exact composed_between hws (ht hv) (nil_iff.mp hrest)

theorem Spelled.composed_parens {ts : List Token}
    (h : Spelled before (.opening :: ts ++ [.closing]) cs)
    (hts : ∀ u, Spelled none ts u → Composed W (· ≠ ':') u) : Composed W (· ≠ ':') cs := by
  obtain ⟨ws, inner, rest, rfl, hws, hinner, hrest⟩ := parens h
  have heq : ws ++ ('(' :: inner ++ ')' :: rest) = ws ++ ('(' :: inner ++ [')'] ++ rest) := by simp
  rw [heq]
  exact composed_between hws (.parens (hts _ hinner)) (nil_iff.mp hrest)

theorem Spelled.head?_opening {ts : List Token} (h : Spelled before (.opening :: ts) cs) :
    ∀ c ∈ cs.head?, Text.isWordChar c = false := by
  obtain ⟨ws, rest, rfl, hws, -, -, -⟩ := h.uncons
  refine not_isWordChar_head? hws ?_
  rintro c ⟨⟩
  rfl

theorem Spelled.composed_pieces {tss : List (List Token)}
    (h : Spelled before ([.comma].intercalate tss) cs)
    (htss : ∀ ts ∈ tss, ∀ u, Spelled none ts u → Composed W (· ≠ ':') u) :
    Composed W (· ≠ ':') cs := by
  by_cases hne : tss = []
  · subst hne
    exact composed_blanks (nil_iff.mp h)
  · obtain ⟨us, hus, rfl⟩ := pieces hne h
    refine .intercalate rfl (by decide) fun u hu => ?_
    obtain ⟨ts, hts, hspelled⟩ := forall₂_right hus hu
    exact htss ts hts u hspelled

theorem Token.composed_symbol (hand : W ['A', 'N', 'D']) (hor : W ['O', 'R']) (s : Symbol) :
    Composed W (· ≠ ':') (Token.symbol s).spelling := by
  cases hk : (Token.symbol s).isKeyword with
  | false => exact .marks (symbol_marks hk)
  | true =>
    cases s with
    | operator op =>
      cases op with
      | and => exact .word (List.all_eq_true.mp rfl) hand
      | or => exact .word (List.all_eq_true.mp rfl) hor
      | _ => cases hk
    | minus => cases hk
    | slash => cases hk

/-- Signs are marks. -/
theorem Spelled.signs_marks {signs : List Symbol}
    (hsigns : ∀ s ∈ signs, s = .operator .plus ∨ s = .minus)
    (h : Spelled before (signs.map .symbol) cs) :
    ∀ c ∈ cs, isPunctuation c = true ∧ c ≠ ':' := by
  generalize hts : signs.map Token.symbol = ts at h
  induction h generalizing signs with
  | nil => simp
  | blank hc _ ih =>
    refine List.forall_mem_cons.mpr ⟨⟨Text.isPunctuation_of_isBlank hc, ?_⟩, ih hsigns hts⟩
    rintro rfl
    cases hc
  | token _ _ _ ih =>
    obtain ⟨s, signs, rfl, rfl, rfl⟩ := List.map_eq_cons_iff.mp hts
    obtain ⟨hs, hsigns⟩ := List.forall_mem_cons.mp hsigns
    have hkeyword : (Token.symbol s).isKeyword = false := by rcases hs with rfl | rfl <;> rfl
    intro c hc
    rcases List.mem_append.mp hc with hc | hc
    · exact Token.symbol_marks hkeyword c hc
    · exact ih hsigns rfl c hc

/-- The words of a phrase are its names, AND and OR. -/
theorem Derives.composed {p : Phrase} {ts : List Token} {tree : Tree}
    (hand : W ['A', 'N', 'D']) (hor : W ['O', 'R']) (h : Derives p ts tree)
    (hW : ∀ n ∈ tree.names, W n.toList) (hs : Spelled before ts cs) :
    Composed W (· ≠ ':') cs := by
  have hname {name : List Char} (hn : W (String.ofList name).toList)
      (hv : (Token.name name).Valid) : Composed W (· ≠ ':') name :=
    .word (Text.isWordChar_of_isName hv.1) (by rwa [String.toList_ofList] at hn)
  induction h generalizing before cs with
  | number _ => exact hs.composed_atom fun hv => .numeral (Token.numeric hv).isNumeric
  | text => exact hs.composed_atom .quoted
  | name => exact hs.composed_atom (hname (hW _ (by simp [Tree.names])))
  | @call name args _ ih =>
    have hsplit : Spelled before ([.name name] ++
        (.opening :: [.comma].intercalate (args.map (·.1)) ++ [.closing])) cs := hs
    obtain ⟨u, v, rfl, hu, hv⟩ := hsplit.split
    refine .append (hu.composed_atom (hname (hW _ (by simp [Tree.names]))))
      (hv.composed_parens fun inner hinner => ?_) (.of_head? hv.head?_opening)
    refine hinner.composed_pieces fun ts hts w hw => ?_
    obtain ⟨a, ha, rfl⟩ := List.mem_map.mp hts
    refine ih a ha (fun n hn => hW n ?_) hw
    rw [Tree.names, List.mem_cons, Tree.mem_namesEach]
    exact .inr ⟨a.2, List.mem_map_of_mem ha, hn⟩
  | group _ ih => exact hs.composed_parens fun u hu => ih (by rwa [Tree.names_grouped] at hW) hu
  | @signed signs ts atom operand hsigns _ hsigned ih =>
    obtain ⟨u, v, rfl, hu, hv⟩ := hs.split
    have hmarks := hu.signs_marks hsigns
    refine .append (.marks hmarks) (ih (fun n hn => hW n (hsigned.mem_names hn)) hv) ?_
    exact .of_getLast? fun c hc =>
      Text.not_isWordChar_of_isPunctuation (hmarks c (List.mem_of_getLast? hc)).1
  | first _ ih =>
    refine ih (fun n hn => hW n ?_) hs
    simpa [Tree.single, Tree.names, Tree.namesEach] using hn
  | @join ts us s left operand tree _ _ hjoined ihleft ihoperand =>
    obtain ⟨u, v, rfl, hu, hv⟩ := hs.split
    obtain ⟨ws, rest, rfl, hws, hvalid, hapart, hrest⟩ := hv.uncons
    have hleft := ihleft (fun n hn => hW n (hjoined.mem_names (.inl hn))) hu
    have hoperand := ihoperand (fun n hn => hW n (hjoined.mem_names (.inr hn))) hrest
    have hsymbol := Token.composed_symbol hand hor s
    refine .append hleft (.append (composed_blanks hws) (.append hsymbol hoperand ?_)
      (.of_getLast? (not_isWordChar_getLast? hws))) ?_
    · -- No word touches AND and OR, and the other operators are marks.
      cases hk : (Token.symbol s).isKeyword with
      | true => exact .of_head? (hapart hk).2
      | false =>
        exact .of_getLast? fun c hc => Text.not_isWordChar_of_isPunctuation
          (Token.symbol_marks hk c (List.mem_of_getLast? hc)).1
    · cases hk : (Token.symbol s).isKeyword with
      | true =>
        cases ws with
        | nil => exact .of_getLast? fun c hc => (hapart hk).1 c (by simp [Option.mem_def.mp hc])
        | cons c ws =>
          simp only [Text.allBlank, List.all_cons, Bool.and_eq_true] at hws
          refine .of_head? ?_
          rintro d ⟨⟩
          exact Text.not_isWordChar_of_isBlank hws.1
      | false =>
        refine .of_head? (not_isWordChar_head? hws fun c hc => ?_)
        obtain ⟨k, ks, hspelling⟩ := List.exists_cons_of_ne_nil (Token.spelling_ne_nil hvalid)
        rw [hspelling] at hc
        cases hc
        exact Text.not_isWordChar_of_isPunctuation
          (Token.symbol_marks hk c (by simp [hspelling])).1

/-- The words of an expression are its names, AND and OR. -/
theorem Expr.composed {e : Expr} (hand : W ['A', 'N', 'D']) (hor : W ['O', 'R'])
    (h : Expr.parse cs = .ok e) (hW : ∀ n ∈ e.tree.names, W n.toList) :
    Composed W (· ≠ ':') cs := by
  obtain ⟨ts, hspelled, hts, -⟩ := Expr.exists_spelled h
  exact hts.composed hand hor hW hspelled

end

end ClassicBasic

import ClassicBasic.Proofs.Contract
import ClassicBasic.Proofs.Expr.Parsing
import ClassicBasic.Proofs.Text.Parentheses

/-!
# Where the faults of an expression are

Three faults of reading an expression give a place in the text. The scan finds them where everything
in front of them is balanced (`Lexeme.all_placed`), so a fault of the text itself is where it says.

What stands between parentheses is read on its own, and its places count from its start. It is
balanced, so it has no such fault, unless it is an argument that the cut at commas made too short
(`Balanced.piece`). That takes a bracket of another kind, and only leaves a parenthesis open
(`Tree.parseWithin_unmatchedOpen`).
-/

namespace ClassicBasic

open Text (Balanced Closes byteLength endsQuoted UnmatchedOpenAt UnmatchedCloseAt UnclosedQuoteAt)

/-! ## The scan -/

theorem Text.byteLength_concat (u : List Char) (c : Char) :
    byteLength (u ++ [c]) = byteLength u + c.utf8Size := by
  simp [byteLength]

namespace Lexeme

/-- Where a lexeme of `text` stands. What is in front of a parenthesis or a fault is balanced. -/
def Placed (text : List Char) : Lexeme → Prop
  | .parens _ inner =>
    ∃ u v, text = u ++ ('(' :: inner ++ ')' :: v) ∧ Balanced u ∧ Closes 1 false inner
  | .fault (.unmatchedOpen k) =>
    ∃ u v, text = u ++ '(' :: v ∧ byteLength u = k ∧ Balanced u ∧ Text.closing? ('(' :: v) = none
  | .fault (.unexpectedClose k) => ∃ u v, text = u ++ ')' :: v ∧ byteLength u = k ∧ Balanced u
  | .fault (.unterminatedText k) =>
    ∃ u v, text = u ++ '"' :: v ∧ byteLength u = k ∧ Balanced u ∧ '"' ∉ v
  | .fault _ => False
  | _ => True

theorem flush_placed (text token : List Char) : ∀ l ∈ flush token, l.Placed text := by
  intro l hl
  rw [flush] at hl
  split at hl
  · cases hl
  · rw [List.mem_singleton.mp hl]
    trivial

/-- An operator has no quote and no parenthesis in it. -/
theorem balanced_of_symbolAt? {token cs : List Char} {before : Option Char} {c : Char} {s : Symbol}
    {n : Nat} (h : symbolAt? token before (c :: cs) = some (s, n)) :
    Balanced (c :: cs.take (n - 1)) := by
  obtain ⟨rest, hspelling, rfl, -⟩ := symbolAt?_spec h
  have hpos := List.length_pos_iff.mpr ((Token.symbol s).spelling_ne_nil trivial)
  rw [← List.take_succ_cons, Nat.sub_add_cancel hpos, hspelling, List.take_left]
  exact .plain fun d hd => Text.ne_of_isInert (Token.isInert_symbol s d hd)

/-- The invariant of the scan: what is in front of it, with what is still to skip, is balanced. -/
theorem scan_placed {text pre cs token : List Char} {before : Option Char} {skip : Nat}
    (htext : text = pre ++ cs) (hpre : Balanced (pre ++ cs.take skip)) :
    ∀ l ∈ scan token before (byteLength pre) skip cs, l.Placed text := by
  induction cs generalizing pre token before skip with
  | nil =>
    rw [scan]
    exact flush_placed text token
  | cons c cs ih =>
    -- Whatever is skipped behind `c`, the scan goes on with one character more in front of it.
    have hnext {token : List Char} {skip : Nat} (h : Balanced (pre ++ c :: cs.take skip)) :
        ∀ l ∈ scan token (some c) (byteLength pre + c.utf8Size) skip cs, l.Placed text := by
      rw [← Text.byteLength_concat]
      exact ih (by simpa using htext) (by simpa using h)
    cases skip with
    | succ skip => exact hnext hpre
    | zero =>
      rw [List.take_zero, List.append_nil] at hpre
      rw [scan]
      split
      · rename_i hquote
        obtain rfl := eq_of_beq hquote
        cases hcut : Text.cutAt? (· == '"') cs with
        | none =>
          have hquote := Text.cutAt?_char_eq_none.mp hcut
          exact List.forall_mem_singleton.mpr ⟨pre, cs, htext, rfl, hpre, hquote⟩
        | some r =>
          obtain ⟨hcs, hbody⟩ := Text.cutAt?_char.mp hcut
          refine hnext (hpre.append ?_)
          rw [hcs, List.take_length_add_append]
          exact (Text.Passes.quoted hbody).balanced
      · split
        · rename_i hopen
          obtain rfl := eq_of_beq hopen
          cases hclosing : Text.closing? ('(' :: cs) with
          | none => exact List.forall_mem_singleton.mpr ⟨pre, cs, htext, rfl, hpre, hclosing⟩
          | some r =>
            obtain ⟨inner, hbody, hcs, hinner⟩ := Text.closing?_open hclosing
            refine List.forall_mem_cons.mpr ⟨⟨pre, r.2, ?_, hpre, ?_⟩, hnext (hpre.append ?_)⟩
            · rw [htext, hcs, hbody]
              rfl
            · rw [hbody]
              exact hinner
            · rw [hbody, List.length_cons, hcs, List.take_length_add_append]
              exact hinner.balanced.parens
        · split
          · rename_i hclose
            obtain rfl := eq_of_beq hclose
            exact List.forall_mem_singleton.mpr ⟨pre, cs, htext, rfl, hpre⟩
          · rename_i hquote hopen hclose
            cases hsymbol : symbolAt? token before (c :: cs) with
            | none =>
              refine hnext (hpre.append (.plain (List.forall_mem_singleton.mpr ?_)))
              simpa using And.intro hquote (And.intro hopen hclose)
            | some r =>
              refine List.forall_mem_append.mpr ⟨flush_placed text token, ?_⟩
              exact List.forall_mem_cons.mpr
                ⟨trivial, hnext (hpre.append (balanced_of_symbolAt? hsymbol))⟩

theorem all_placed (text : List Char) : ∀ l ∈ all text, l.Placed text :=
  @scan_placed text [] text [] none 0 rfl rfl

end Lexeme

/-! ## Faults with a place -/

/-- The place that a fault gives. -/
def SyntaxError.offset? : SyntaxError → Option Nat
  | .unmatchedOpen k | .unexpectedClose k | .unterminatedText k => some k
  | _ => none

/-- What faults of `x` there are give no place. -/
def Unplaced {α : Type} (x : Except SyntaxError α) : Prop := FaultsAre (·.offset? = none) x

theorem Tree.transformed_unplaced (t : Transform) (tree : Tree) :
    Unplaced (tree.transformed t) := by
  unfold transformed
  split
  · exact .ok _
  · exact .error rfl
  · exact .ok _

theorem Tree.literal_unplaced (cs : List Char) : Unplaced (literal cs) := by
  rintro e h
  unfold literal at h
  grind [SyntaxError.offset?]

namespace Fragment

theorem applySign_unplaced (negative : Bool) (operand : Tree) :
    Unplaced (applySign negative operand) := by
  unfold applySign
  split
  · exact operand.transformed_unplaced .negate
  · exact .ok _

theorem join_unplaced (tree operand : Tree) (s : Symbol) : Unplaced (join tree operand s) := by
  cases s with
  | operator op => exact .ok _
  | minus => exact .bind (operand.transformed_unplaced _) fun _ => .ok _
  | slash => exact .bind (operand.transformed_unplaced _) fun _ => .ok _

theorem addOperand_unplaced (source : List Char) (operand : Tree) (f : Fragment) :
    Unplaced (f.addOperand source operand) := by
  cases f with
  | complete _ => exact .error rfl
  | signs negative => exact .bind (applySign_unplaced negative operand) fun _ => .ok _
  | dangling tree s negative =>
    exact .bind (applySign_unplaced negative operand) fun operand =>
      .bind (join_unplaced tree operand s) fun _ => .ok _

theorem addSign_unplaced (negative : Bool) (s : Symbol) : Unplaced (addSign negative s) := by
  unfold addSign
  split
  · exact .ok _
  · exact .ok _
  · exact .error rfl

theorem addSymbol_unplaced (s : Symbol) (f : Fragment) : Unplaced (f.addSymbol s) := by
  cases f with
  | complete _ => exact .ok _
  | signs negative => exact .bind (addSign_unplaced negative s) fun _ => .ok _
  | dangling _ _ negative => exact .bind (addSign_unplaced negative s) fun _ => .ok _

theorem finish_unplaced (f : Fragment) : Unplaced f.finish := by
  unfold finish
  split
  · exact .ok _
  all_goals exact .error rfl

end Fragment

/-- A fault with a place comes from the scan or from a text between parentheses. -/
theorem Tree.build_faults {E : SyntaxError → Prop} (hE : ∀ e, e.offset? = none → E e)
    {parse : List Char → Except SyntaxError Tree} {source : List Char} {ls : List Lexeme}
    (hfault : ∀ e, .fault e ∈ ls → E e)
    (hparens : ∀ name inner, .parens name inner ∈ ls → FaultsAre E (parens parse name inner))
    (f : Fragment) : FaultsAre E (build parse source f ls) := by
  induction ls generalizing f with
  | nil => exact fun e h => hE e (f.finish_unplaced e h)
  | cons l ls ih =>
    have htail := ih (fun e he => hfault e (.tail _ he)) fun name inner h =>
      hparens name inner (.tail _ h)
    have hoperand (operand : Tree) : FaultsAre E (f.addOperand source operand) := fun e h =>
      hE e (f.addOperand_unplaced source operand e h)
    cases l with
    | fault e => exact .error (hfault e (.head _))
    | symbol s => exact .bind (fun e h => hE e (f.addSymbol_unplaced s e h)) htail
    | operand cs =>
      exact .bind (fun e h => hE e (literal_unplaced cs e h)) fun operand =>
        .bind (hoperand operand) htail
    | parens name inner =>
      exact .bind (hparens name inner (.head _)) fun operand => .bind (hoperand operand) htail

/-! ## Texts that are read on their own -/

/-- In `front ++ (part ++ behind)` the text between parentheses, or one of the arguments between
them, is `part`. An argument that is not balanced has a comma behind it. -/
structure ReadAlone (front part behind : List Char) : Prop where
  unquoted : endsQuoted false front = false
  opened : front.getLast? = some '(' ∨ front.getLast? = some ','
  level : ∃ depth, Text.level {} part = some ⟨false, depth⟩
  closed : Balanced part ∨ Text.nesting {} part = {} ∧ behind.head? = some ','

namespace Tree

theorem balanced_of_parseWithin {depth : Nat} {cs : List Char} {tree : Tree}
    (h : parseWithin depth cs = .ok tree) : Balanced cs := by
  obtain ⟨ts, hspelled, hts⟩ := parseWithin_sound depth cs tree h
  exact (hts.passes hspelled).balanced

/-- The fault `e` is that of a text in `text` that is read on its own. -/
def FaultInside (depth : Nat) (text : List Char) (e : SyntaxError) : Prop :=
  ∃ front part behind, text = front ++ (part ++ behind) ∧ ReadAlone front part behind ∧
    parseWithin depth part = .error e

/-- A fault with a place inside a parenthesis is that of one of the texts in it. -/
theorem parens_faults {depth : Nat} {text name inner : List Char}
    (hplaced : (Lexeme.parens name inner).Placed text) :
    FaultsAre (fun e => e.offset? = none ∨ FaultInside depth text e)
      (parens (parseWithin depth) name inner) := by
  obtain ⟨u, v, rfl, hu, hinner⟩ := hplaced
  have hunquoted {w : List Char} (hw : Balanced w) : endsQuoted false (u ++ '(' :: w) = false := by
    rw [Text.endsQuoted_append, ← Text.level_quoted hu]
    exact (Text.level_quoted hw).symm
  unfold parens
  split
  · refine .bind (fun e he => .inr ?_) fun _ => .ok _
    refine ⟨u ++ ['('], inner, ')' :: v, by simp, ?_, he⟩
    exact ⟨hunquoted rfl, .inl (by simp), ⟨0, hinner.balanced⟩, .inl hinner.balanced⟩
  · split
    · dsimp only
      split
      · exact .bind (.ok _) fun _ => .ok _
      · refine .bind (fun e he => .inr ?_) fun _ => .ok _
        -- The arguments in front of the first faulty one were read, so they are balanced.
        obtain ⟨us, a, vs, hcut, hus, ha⟩ := mapM_error he
        obtain ⟨front, behind, rfl, hfront, hlast, hlevel, hclosed⟩ := hinner.balanced.piece hcut
          fun w hw => (hus w hw).elim fun _ => balanced_of_parseWithin
        refine ⟨u ++ '(' :: front, a, behind ++ ')' :: v, by simp, ?_, ha⟩
        refine ⟨hunquoted hfront, ?_, hlevel, hclosed.imp_right (And.imp_right fun h => ?_)⟩
        · rcases hlast with rfl | hlast
          · exact .inl (by simp)
          · exact .inr (by simp [List.getLast?_append, List.getLast?_cons, hlast])
        · rw [List.head?_append, h]
          rfl
    · exact .error (.inl rfl)

theorem parseWithin_faults (depth : Nat) (cs : List Char) :
    FaultsAre (fun e => e.offset? = none ∨ .fault e ∈ Lexeme.all cs ∨ FaultInside depth cs e)
      (parseWithin (depth + 1) cs) := by
  refine build_faults (fun e => .inl) (fun e he => .inr (.inl he)) (fun name inner h => ?_) _
  intro e he
  exact (parens_faults (Lexeme.all_placed cs _ h) e he).imp_right .inr

end Tree

/-! ## Where the faults are -/

/-- Byte `k` of an argument in `cs` is a parenthesis outside quotes that no other one in the
argument closes. A bracket of another kind stands behind it, and the argument ends at a comma. -/
def SeveredAt (cs : List Char) (k : Nat) : Prop :=
  ∃ front u v behind, cs = front ++ (u ++ '(' :: v ++ ',' :: behind) ∧
    (front.getLast? = some '(' ∨ front.getLast? = some ',') ∧
    endsQuoted false front = false ∧ endsQuoted false u = false ∧ endsQuoted false v = false ∧
    byteLength u = k ∧ (∀ body rest, v = body ++ ')' :: rest → ¬ Closes 1 false body) ∧
    ∃ before c after, v = before ++ c :: after ∧ endsQuoted false before = false ∧
      (c = ']' ∨ c = '\x7d')

section
variable {text front part behind : List Char} {k : Nat}

theorem SeveredAt.within (h : SeveredAt part k) (hfront : endsQuoted false front = false)
    (behind : List Char) : SeveredAt (front ++ (part ++ behind)) k := by
  obtain ⟨front', u, v, behind', rfl, hlast, hquoted, hparts⟩ := h
  refine ⟨front ++ front', u, v, behind' ++ behind, by simp, ?_, ?_, hparts⟩
  · rcases hlast with hlast | hlast
    · exact .inl (by rw [List.getLast?_append, hlast]; rfl)
    · exact .inr (by rw [List.getLast?_append, hlast]; rfl)
  · rw [Text.endsQuoted_append, hfront, hquoted]

/-- A parenthesis that stays open in a text read on its own is cut off from its partner. -/
theorem ReadAlone.severedAt (h : ReadAlone front part behind) (hopen : UnmatchedOpenAt part k) :
    SeveredAt (front ++ (part ++ behind)) k := by
  rcases h.closed with hbalanced | ⟨hnesting, hcomma⟩
  · exact absurd hopen hbalanced.not_unmatchedOpenAt
  · obtain ⟨u, v, rfl, hk, hu, hv⟩ := hopen
    obtain ⟨behind, rfl⟩ : ∃ rest, behind = ',' :: rest := List.head?_eq_some_iff.mp hcomma
    have hcut := (Text.nesting_open hu v).symm.trans hnesting
    refine ⟨front, u, v, behind, by simp, h.opened, h.unquoted, hu, ?_, hk, hv, ?_⟩
    · rw [← Text.nesting_quoted ⟨false, _⟩ v, hcut]
    · exact Text.exists_closer (Text.closingFrom?_eq_none hv) hcut

end

namespace Lexeme.Placed

variable {text : List Char} {k : Nat}

theorem unmatchedOpenAt (h : (fault (.unmatchedOpen k)).Placed text) : UnmatchedOpenAt text k := by
  obtain ⟨u, v, rfl, rfl, hu, hv⟩ := h
  refine ⟨u, v, rfl, rfl, (Text.level_quoted hu).symm, ?_⟩
  rintro body rest rfl hbody
  have hclosing := hbody.closingFrom? rest
  simp [Text.closing?, Text.closingFrom?, hclosing] at hv

theorem unmatchedCloseAt (h : (fault (.unexpectedClose k)).Placed text) :
    UnmatchedCloseAt text k := by
  obtain ⟨u, v, rfl, rfl, hu⟩ := h
  exact hu.unmatchedCloseAt v

theorem unclosedQuoteAt (h : (fault (.unterminatedText k)).Placed text) :
    UnclosedQuoteAt text k := by
  obtain ⟨u, v, rfl, rfl, hu, hv⟩ := h
  exact ⟨u, v, rfl, rfl, (Text.level_quoted hu).symm, hv⟩

end Lexeme.Placed

namespace Tree

/-- In a text that closes its quotes and closes no parenthesis too many, the only fault with a place
is a parenthesis that stays open. -/
theorem parseWithin_unmatchedOpen {depth d : Nat} {cs : List Char} {e : SyntaxError}
    (hlevel : Text.level {} cs = some ⟨false, d⟩) (h : parseWithin depth cs = .error e)
    (hplaced : e.offset? ≠ none) : ∃ k, e = .unmatchedOpen k := by
  induction depth generalizing cs d with
  | zero =>
    cases h
    exact absurd rfl hplaced
  | succ depth ih =>
    rcases parseWithin_faults depth cs e h with
      hnone | hfault | ⟨front, part, behind, rfl, hpart, he⟩
    · exact absurd hnone hplaced
    · have hfault := Lexeme.all_placed cs _ hfault
      cases e with
      | unmatchedOpen k => exact ⟨k, rfl⟩
      | unexpectedClose k =>
        obtain ⟨u, v, rfl, -, hu⟩ := hfault
        rw [Text.level_append, hu] at hlevel
        cases hlevel
      | unterminatedText k =>
        obtain ⟨u, v, rfl, -, hu, hv⟩ := hfault
        rw [Text.level_append, hu] at hlevel
        have hquoted : false = endsQuoted true v := Text.level_quoted hlevel
        rw [Text.endsQuoted_of_forall fun c hc hquote => hv (hquote ▸ hc)] at hquoted
        cases hquoted
      | _ => cases hfault
    · obtain ⟨d', hd'⟩ := hpart.level
      exact ih hd' he

theorem parseWithin_open {depth k : Nat} {cs : List Char}
    (h : parseWithin depth cs = .error (.unmatchedOpen k)) :
    UnmatchedOpenAt cs k ∨ SeveredAt cs k := by
  induction depth generalizing cs with
  | zero => cases h
  | succ depth ih =>
    rcases parseWithin_faults depth cs _ h with
      hnone | hfault | ⟨front, part, behind, rfl, hpart, he⟩
    · cases hnone
    · exact .inl (Lexeme.all_placed cs _ hfault).unmatchedOpenAt
    · rcases ih he with hopen | hsevered
      · exact .inr (hpart.severedAt hopen)
      · exact .inr (hsevered.within hpart.unquoted behind)

/-- Any other fault with a place is one of the scan. -/
theorem parseWithin_placed {depth : Nat} {cs : List Char} {e : SyntaxError}
    (h : parseWithin depth cs = .error e) (hplaced : e.offset? ≠ none)
    (hopen : ∀ k, e ≠ .unmatchedOpen k) : (Lexeme.fault e).Placed cs := by
  cases depth with
  | zero =>
    cases h
    exact absurd rfl hplaced
  | succ depth =>
    rcases parseWithin_faults depth cs e h with
      hnone | hfault | ⟨front, part, behind, rfl, hpart, he⟩
    · exact absurd hnone hplaced
    · exact Lexeme.all_placed cs _ hfault
    · obtain ⟨d, hd⟩ := hpart.level
      obtain ⟨k, rfl⟩ := parseWithin_unmatchedOpen hd he hplaced
      exact absurd rfl (hopen k)

end Tree

namespace Expr

variable {cs : List Char}

theorem parse_error {e : SyntaxError} (h : parse cs = .error e) :
    Tree.parseWithin cs.length cs = .error e := by
  unfold parse Tree.parse at h
  cases hparse : Tree.parseWithin cs.length cs with
  | error e' =>
    rw [hparse] at h
    cases h
    rfl
  | ok tree =>
    rw [hparse] at h
    cases h

theorem balanced_of_parse {e : Expr} (h : parse cs = .ok e) : Balanced cs := by
  obtain ⟨tree, htree, -⟩ := bind_eq_ok.mp h
  exact Tree.balanced_of_parseWithin htree

/-- **The place in a fault is that of a parenthesis or a quote without its partner**, except for an
opening parenthesis that a bracket of another kind cuts off from its partner: it stands in an
argument, and the place counts from there. A text that is read has none without its partner. -/
theorem parse_offsets (cs : List Char) (k : Nat) :
    (parse cs = .error (.unmatchedOpen k) → UnmatchedOpenAt cs k ∨ SeveredAt cs k) ∧
      (parse cs = .error (.unexpectedClose k) → UnmatchedCloseAt cs k) ∧
      (parse cs = .error (.unterminatedText k) → UnclosedQuoteAt cs k) ∧
      ∀ e, parse cs = .ok e → Balanced cs := by
  refine ⟨fun h => ?_, fun h => ?_, fun h => ?_, fun e => balanced_of_parse⟩
  · exact Tree.parseWithin_open (parse_error h)
  · exact (Tree.parseWithin_placed (parse_error h) nofun nofun).unmatchedCloseAt
  · exact (Tree.parseWithin_placed (parse_error h) nofun nofun).unclosedQuoteAt

/-- In `F((A],B))` every parenthesis has its partner, and byte 0 is no parenthesis. -/
theorem parse_offsets_severed :
    (parse "F((A],B))".toList = .error (.unmatchedOpen 0) ∧
        (∀ k, ¬ UnmatchedOpenAt "F((A],B))".toList k) ∧ SeveredAt "F((A],B))".toList 0) ∧
      (parse "\"é\"+2)".toList = .error (.unexpectedClose 6) ∧
        UnmatchedCloseAt "\"é\"+2)".toList 6) ∧
      (parse "(A)+\"B)".toList = .error (.unterminatedText 4) ∧
        UnclosedQuoteAt "(A)+\"B)".toList 4) := by
  have hopen : parse "F((A],B))".toList = .error (.unmatchedOpen 0) := rfl
  have hbalanced : Balanced "F((A],B))".toList := rfl
  have hclose : parse "\"é\"+2)".toList = .error (.unexpectedClose 6) := rfl
  have hquote : parse "(A)+\"B)".toList = .error (.unterminatedText 4) := rfl
  refine ⟨⟨hopen, fun k => hbalanced.not_unmatchedOpenAt, ?_⟩, ⟨hclose, ?_⟩, ⟨hquote, ?_⟩⟩
  · exact ((parse_offsets _ 0).1 hopen).resolve_left hbalanced.not_unmatchedOpenAt
  · exact (parse_offsets _ 6).2.1 hclose
  · exact (parse_offsets _ 4).2.2.1 hquote

end Expr

end ClassicBasic

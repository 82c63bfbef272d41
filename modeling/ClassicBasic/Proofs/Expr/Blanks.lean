import ClassicBasic.Proofs.Expr.Parsing
import ClassicBasic.Proofs.Text.Search

/-!
# Blanks around an expression

Blanks around an expression do not count (`Expr.parse_trim`), and its quotes are closed
(`Expr.endsQuoted_of_parse`). Both are read off the tokens that spell it: a token neither starts nor
ends with a blank, and quotes stand around texts only.
-/

namespace ClassicBasic

namespace Token

theorem trimmed_spelling {t : Token} (h : t.Valid) : Text.Trimmed t.spelling := by
  cases t with
  | number | text | name => exact trimmed rfl h
  | symbol s =>
    have hends : (Token.symbol s).spelling.head?.all (!Text.isBlank ·) &&
        (Token.symbol s).spelling.getLast?.all (!Text.isBlank ·) = true :=
      forall_symbol s (by decide)
    simpa [Text.Trimmed, Option.all_eq_true] using hends
  | opening | closing | comma => exact ⟨by rintro c ⟨⟩; rfl, by rintro c ⟨⟩; rfl⟩

theorem endsQuoted_spelling {t : Token} (h : t.Valid) (quoted : Bool) :
    Text.endsQuoted quoted t.spelling = quoted := by
  cases t with
  | text body =>
    have hbody : ∀ c ∈ body, c ≠ '"' := by
      rintro c hc rfl
      exact h hc
    rw [spelling, List.cons_append, ← List.singleton_append, Text.endsQuoted_append,
      Text.endsQuoted_append, Text.endsQuoted_of_forall hbody]
    cases quoted <;> rfl
  | number cs =>
    refine Text.endsQuoted_of_forall (fun c hc => ?_) quoted
    exact (Text.ne_of_isInert (isInert_number h c hc).1).1
  | name cs =>
    refine Text.endsQuoted_of_forall (fun c hc => ?_) quoted
    exact (Text.ne_of_isInert (Text.isInert_of_isWordChar (Text.isWordChar_of_isName h.1 c hc))).1
  | symbol s =>
    refine Text.endsQuoted_of_forall (fun c hc => ?_) quoted
    exact (Text.ne_of_isInert (isInert_symbol s c hc)).1
  | opening | closing | comma => exact Text.endsQuoted_of_forall (by simp [spelling]) quoted

end Token

namespace Spelled

variable {before : Option Char} {ts : List Token} {cs ws : List Char} {c : Char}

theorem of_blank (h : Spelled before ts (c :: cs)) (hc : Text.isBlank c = true) :
    Spelled (some c) ts cs := by
  generalize hu : c :: cs = u at h
  cases h with
  | nil => cases hu
  | blank _ h =>
    cases hu
    exact h
  | @token _ t _ rest hv _ _ =>
    obtain ⟨d, spelling, hspelling⟩ := List.exists_cons_of_ne_nil (t.spelling_ne_nil hv)
    rw [hspelling, List.cons_append] at hu
    obtain ⟨rfl, -⟩ := List.cons.inj hu
    have hfirst := (Token.trimmed_spelling hv).1 c (by simp [hspelling])
    rw [hc] at hfirst
    cases hfirst

/-- The blanks in front of the first token may be left out. -/
theorem of_blanks (h : Spelled none ts (ws ++ cs)) (hws : Text.allBlank ws = true) :
    Spelled none ts cs := by
  induction ws with
  | nil => exact h
  | cons c ws ih =>
    simp only [Text.allBlank, List.all_cons, Bool.and_eq_true] at hws
    exact ih ((h.of_blank hws.1).of_before (by simp)) hws.2

/-- So may those behind the last one. -/
theorem of_append_blanks (h : Spelled before ts (cs ++ ws)) (hws : Text.allBlank ws = true) :
    Spelled before ts cs := by
  generalize hu : cs ++ ws = u at h
  induction h generalizing cs with
  | nil =>
    rw [(List.append_eq_nil_iff.mp hu).1]
    exact .nil
  | @blank before c ts u hc h ih =>
    cases cs with
    | nil =>
      -- Nothing but blanks is left, which spell no token.
      by_cases hts : ts = []
      · rw [hts]
        exact .nil
      · have hspelled : Spelled before ts (c :: u) := .blank hc h
        rw [← hu] at hspelled
        exact absurd hws (hspelled.not_allBlank hts)
    | cons d cs =>
      obtain ⟨rfl, htail⟩ := List.cons.inj hu
      exact .blank hc (ih htail)
  | @token before t ts u hv ha h ih =>
    have hjoin (tail : List Char) (htail : tail ++ ws = u) :
        Spelled before (t :: ts) (t.spelling ++ tail) := by
      refine .token hv (fun hk => ⟨(ha hk).1, fun c hc => (ha hk).2 c ?_⟩) (ih htail)
      rw [← htail, List.head?_append, hc]
      rfl
    rcases List.append_eq_append_iff.mp hu with ⟨extra, hextra, hrest⟩ | ⟨tail, rfl, hrest⟩
    · cases hlast : extra.getLast? with
      | none =>
        rw [List.getLast?_eq_none_iff.mp hlast] at hextra hrest
        rw [List.append_nil] at hextra
        simpa [hextra] using hjoin [] hrest
      | some c =>
        -- The token would end in one of the blanks.
        have hblank : Text.isBlank c = true :=
          List.all_eq_true.mp hws c (by rw [hrest]; simp [List.mem_of_getLast? hlast])
        have hend := (Token.trimmed_spelling hv).2 c (by
          rw [hextra, List.getLast?_append, hlast]
          rfl)
        rw [hblank] at hend
        cases hend
    · exact hjoin tail hrest.symm

/-- Behind the tokens of a text no quoted region is open. -/
theorem endsQuoted (h : Spelled before ts cs) : Text.endsQuoted false cs = false := by
  induction h with
  | nil => rfl
  | @blank _ c _ cs hc _ ih =>
    have hstep : Text.endsQuoted false (c :: cs) = Text.endsQuoted false cs := by
      simp [Text.endsQuoted, Text.ne_quote_of_isBlank hc]
    rw [hstep]
    exact ih
  | token hv _ _ ih =>
    rw [Text.endsQuoted_append, Token.endsQuoted_spelling hv]
    exact ih

end Spelled

namespace Expr

variable {cs : List Char} {e : Expr}

/-- What spells the tree of an expression. -/
theorem exists_spelled (h : Expr.parse cs = .ok e) :
    ∃ ts, Spelled none ts cs ∧ Derives .expression ts e.tree ∧
      e.raw = String.ofList (Text.trim cs) := by
  obtain ⟨tree, htree, he⟩ := bind_eq_ok.mp h
  cases he
  obtain ⟨ts, hspelled, hts⟩ := Tree.parseWithin_sound _ _ _ htree
  exact ⟨ts, hspelled, hts, rfl⟩

/-- Blanks around an expression do not count. -/
theorem parse_trim (h : Expr.parse cs = .ok e) : Expr.parse (Text.trim cs) = .ok e := by
  obtain ⟨ts, hspelled, hts, hraw⟩ := exists_spelled h
  obtain ⟨before, after, hcs, hbefore, -, hafter⟩ := Text.exists_trim cs
  have htrim : Spelled none ts (Text.trim cs) := by
    rw [hcs, List.append_assoc] at hspelled
    exact (hspelled.of_blanks hbefore).of_append_blanks hafter
  have htree : Tree.parse (Text.trim cs) = .ok e.tree :=
    hts.readable.parseWithin hts.ne_nil htrim (Nat.le_refl _)
  rw [Expr.parse, htree]
  obtain ⟨raw, tree⟩ := e
  simp only at hraw
  rw [hraw]
  simp [bind, Except.bind]

theorem not_allBlank_of_parse (h : Expr.parse cs = .ok e) : ¬ Text.allBlank cs = true := by
  obtain ⟨ts, hspelled, hts, -⟩ := exists_spelled h
  exact hspelled.not_allBlank hts.ne_nil

/-- The quotes of an expression are closed. -/
theorem endsQuoted_of_parse (h : Expr.parse cs = .ok e) : Text.endsQuoted false cs = false := by
  obtain ⟨ts, hspelled, -, -⟩ := exists_spelled h
  exact hspelled.endsQuoted

end Expr

end ClassicBasic

import ClassicBasic.Proofs.Expr.Blanks
import ClassicBasic.Proofs.Statement.Blocks

/-!
# Blocks behind a THEN

What the statement `IF c THEN s` is, for a condition and a block that can be read on their own. The
forms of IF with an ELSE are tried first, and they look for it in all of `s`, whatever statement of
`s` it stands in: the first ELSE belongs to the outermost IF. So the branch is the block that `s` is
on its own if `s` has no such ELSE, and otherwise `s` is cut there (`parse_if_then`).

The four patterns of IF share their start, up to the THEN (`fits?_if`), and a number of a line is
not found where a block starts (`fits?_int_eq_none`).
-/

namespace ClassicBasic

/-- What stands in front of and behind the first ELSE of `s` outside quotes, if neither is blank. -/
def Statement.splitElse? (s : List Char) : Option (List Char × List Char) :=
  match Text.findOutsideQuotes? "ELSE".toList (Text.trim s) with
  | some (before, rest) =>
    let after := rest.drop "ELSE".length
    if Text.allBlank before || Text.allBlank after then none else some (before, after)
  | none => none

/-! ## The patterns of IF -/

namespace Pattern

section
variable {parts : List Part} {cs rest : List Char}

/-- A slot for one text takes what is in front of the literal behind it. -/
theorem fits?_text_eq {span : List Char} (name : String)
    (h : capturedBy parts (Text.trimStart cs) = .ok (span, rest)) :
    fits? (Form.text name :: parts) cs =
      if Text.allBlank span then none
      else (fits? parts rest).map (.text (String.ofList (Text.trim span)) :: ·) := by
  rw [Form.text, fits?, h, ← Text.isEmpty_trim, Option.map_eq_bind]
  rfl

/-- No number of a line stands where a letter or a colon does. -/
theorem fits?_int_eq_none {name : String}
    (h : ∃ c ∈ (Text.trimStart cs).head?, c = ':' ∨ c.isAlpha = true) :
    fits? (Form.int name :: parts) cs = none := by
  rw [Option.eq_none_iff_forall_ne_some]
  intro captures hfits
  obtain ⟨span, rest, capture, _, hspan, hne, hcapture, -, -⟩ := fits?_slot hfits
  obtain ⟨c, hc, hstart⟩ := h
  have hblank := Text.head?_trimStart cs c hc
  rw [capturedBy_eq hspan] at hc
  cases span with
  | nil => exact hne rfl
  | cons d span =>
    cases hc
    have hhead : (Text.trim (c :: span)).head? = some c :=
      Text.head?_trim (by rintro d ⟨⟩; exact hblank)
    obtain ⟨tail, htail⟩ := List.head?_eq_some_iff.mp hhead
    rw [htail] at hcapture
    obtain ⟨n, hn, -⟩ := bind_eq_ok.mp hcapture
    rw [Slot.toInt] at hn
    split at hn
    · rename_i m hm
      have hint := Numeral.int?_chars hm c List.mem_cons_self
      rw [Text.isDigit_iff, ← Char.toNat_inj, ← Char.toNat_inj] at hint
      rw [Text.isAlpha_iff, ← Char.toNat_inj] at hstart
      simp only [Char.reduceToNat] at hint hstart
      omega
    · cases hn

end

theorem fits?_text (name : String) (cs : List Char) : fits? [Form.text name] cs =
    if Text.allBlank cs then none else some [.text (String.ofList (Text.trim cs))] := by
  rw [fits?_text_eq name rfl, Text.trim_trimStart, ← Text.isEmpty_trim, Text.trim_trimStart,
    Text.isEmpty_trim]
  rfl

theorem fits?_text_else {cs s : List Char} (h : Text.trimStart cs = Text.trim s)
    (name elseName : String) :
    fits? [Form.text name, .literal "ELSE", Form.text elseName] cs =
      (Statement.splitElse? s).map fun r =>
        [.text (String.ofList (Text.trim r.1)), .text (String.ofList (Text.trim r.2))] := by
  rw [Statement.splitElse?]
  cases hfind : Text.findOutsideQuotes? "ELSE".toList (Text.trim s) with
  | none =>
    have hcaptured : capturedBy [.literal "ELSE", Form.text elseName] (Text.trimStart cs) =
        .error (.notFound "ELSE") := by
      rw [h, capturedBy, hfind]
    rw [Form.text, fits?, hcaptured]
    rfl
  | some found =>
    obtain ⟨before, rest⟩ := found
    obtain ⟨-, after, rfl⟩ := Text.findOutsideQuotes?_spec hfind
    have hcaptured : capturedBy [.literal "ELSE", Form.text elseName] (Text.trimStart cs) =
        .ok (before, "ELSE".toList ++ after) := by
      rw [h, capturedBy, hfind]
    have helse : Text.trimStart ("ELSE".toList ++ after) = "ELSE".toList ++ after := rfl
    have hafter : ("ELSE".toList ++ after).drop "ELSE".length = after := rfl
    simp only [fits?_text_eq name hcaptured, fits?_literal_eq helse, fits?_text, hafter]
    cases Text.allBlank before <;> cases Text.allBlank after <;> rfl

/-- The condition of an IF ends in front of the THEN. -/
theorem captured_condition {c : List Char} {e : Expr} (hc : Expr.parse c = .ok e)
    (hthen : Text.findOutsideQuotes? "THEN".toList c = none) (parts : List Part)
    (rest : List Char) :
    capturedBy (.literal "THEN" :: parts) (Text.trimStart (' ' :: c ++ " THEN ".toList ++ rest)) =
      .ok (Text.trimStart c ++ [' '], "THEN".toList ++ ' ' :: rest) := by
  have hstart : Text.trimStart (' ' :: c ++ " THEN ".toList ++ rest) =
      Text.trimStart c ++ ' ' :: ("THEN".toList ++ ' ' :: rest) := by
    rw [← Text.trimStart_append (Expr.not_allBlank_of_parse hc)]
    simp [Text.trimStart, Text.isBlank]
  have hquoted : Text.endsQuoted false (Text.trimStart c) = false := by
    rw [Text.endsQuoted_trimStart, Expr.endsQuoted_of_parse hc]
  have hnone : Text.findFrom? "THEN".toList none false (Text.trimStart c) = none := by
    rw [Text.findOutsideQuotes?_eq Text.isKeyword_then.ne_nil] at hthen
    exact Text.findFrom?_trimStart_eq_none Text.isKeyword_then hthen
  have hfound : Text.findFrom? "THEN".toList (some ' ') false ("THEN".toList ++ ' ' :: rest) =
      some ([], "THEN".toList ++ ' ' :: rest) := rfl
  rw [capturedBy, hstart, Text.findOutsideQuotes?_eq Text.isKeyword_then.ne_nil,
    Text.findFrom?_append Text.isKeyword_then.isSolid rfl, hnone, hquoted]
  simp only [hfound, Option.map_some]

theorem fits?_if {c : List Char} {e : Expr} (hc : Expr.parse c = .ok e)
    (hthen : Text.findOutsideQuotes? "THEN".toList c = none) (parts : List Part)
    (rest : List Char) :
    fits? (.literal "IF" :: Form.text "cond" :: .literal "THEN" :: parts)
        ("IF ".toList ++ c ++ " THEN ".toList ++ rest) =
      (fits? parts (' ' :: rest)).map (.text (String.ofList (Text.trim c)) :: ·) := by
  have hblank : Text.allBlank (Text.trimStart c) = false := by
    rw [← Text.isEmpty_trim, Text.trim_trimStart, Text.isEmpty_trim, ← Bool.not_eq_true]
    exact Expr.not_allBlank_of_parse hc
  have hspace : Text.allBlank [' '] = true := rfl
  have hif : Text.trimStart ("IF ".toList ++ c ++ " THEN ".toList ++ rest) =
      "IF".toList ++ (' ' :: c ++ " THEN ".toList ++ rest) := rfl
  have hthen' : Text.trimStart ("THEN".toList ++ ' ' :: rest) = "THEN".toList ++ ' ' :: rest := rfl
  rw [fits?_literal_eq hif, fits?_text_eq _ (captured_condition hc hthen parts rest),
    fits?_literal_eq hthen',
    Text.trim_append_right hspace, Text.trim_trimStart, Text.allBlank_append, hblank]
  rfl

end Pattern

namespace Statement

variable {c s : List Char} {e : Expr} {block : Block}

theorem candidates_if (text : List Char) :
    Pattern.candidates Form.pattern Form.all ('I' :: 'F' :: ' ' :: text) =
      [.ifElseLine, .ifElse, .ifLine, .ifThen, .ifGoto, .assign] := by
  rfl

/-- The form of an IF with a block behind its THEN. -/
theorem firstMatch?_if (hc : Expr.parse c = .ok e)
    (hthen : Text.findOutsideQuotes? "THEN".toList c = none) (hs : parseBlock s = .ok block) :
    Pattern.firstMatch? Form.pattern Form.all
        (Text.trim ("IF ".toList ++ c ++ " THEN ".toList ++ s)) =
      some (match splitElse? s with
        | none =>
          (.ifThen, [.text (String.ofList (Text.trim c)), .text (String.ofList (Text.trim s))])
        | some (before, after) =>
          (.ifElse, [.text (String.ofList (Text.trim c)), .text (String.ofList (Text.trim before)),
            .text (String.ofList (Text.trim after))])) := by
  have hstarts := starts_of_parseBlock hs
  have hblank : ¬ Text.allBlank s = true := by
    intro hall
    rw [Text.trim_eq_nil.mpr hall] at hstarts
    obtain ⟨_, ⟨⟩, -⟩ := hstarts
  obtain ⟨ws, hws, htrim⟩ : ∃ ws, Text.allBlank ws = true ∧
      Text.trim ("IF ".toList ++ c ++ " THEN ".toList ++ s) =
        "IF ".toList ++ c ++ " THEN ".toList ++ (ws ++ Text.trim s) :=
    Text.trim_append rfl hblank
  have hrest : Text.trimStart (' ' :: (ws ++ Text.trim s)) = Text.trim s :=
    Text.dropWhile_isBlank_append (hws : Text.allBlank (' ' :: ws) = true) (Text.trimmed_trim s).1
  have hif (parts : List Part) := Pattern.fits?_if hc hthen parts (ws ++ Text.trim s)
  have hline (name : String) (parts : List Part) :
      Pattern.fits? (Form.int name :: parts) (' ' :: (ws ++ Text.trim s)) = none :=
    Pattern.fits?_int_eq_none (by rwa [hrest])
  have helse (name elseName : String) := Pattern.fits?_text_else (s := s) hrest name elseName
  have hblock : Pattern.fits? [Form.text "stmts"] (' ' :: (ws ++ Text.trim s)) =
      some [.text (String.ofList (Text.trim s))] := by
    rw [Pattern.fits?_text, ← Text.isEmpty_trim, ← Text.trim_trimStart, hrest, Text.trim_trim,
      Text.isEmpty_trim, if_neg hblank]
  have hcandidates : Pattern.candidates Form.pattern Form.all
      ("IF ".toList ++ c ++ " THEN ".toList ++ (ws ++ Text.trim s)) =
        [.ifElseLine, .ifElse, .ifLine, .ifThen, .ifGoto, .assign] := candidates_if _
  rw [Pattern.firstMatch?_eq, Text.trim_trim, htrim, hcandidates]
  simp only [List.findSome?_cons, Form.pattern, Form.parts, hif, hline, helse, hblock]
  cases splitElse? s <;> rfl

/-- **A block behind a THEN.** For a condition in which no THEN stands by itself outside quotes, an
IF with a block behind its THEN takes the first ELSE in that block, if there is text on both sides
of it, as its own; without such an ELSE its branch is the block. -/
theorem parse_if_then (hc : Expr.parse c = .ok e)
    (hthen : Text.findOutsideQuotes? "THEN".toList c = none) (hs : parseBlock s = .ok block) :
    parse ("IF ".toList ++ c ++ " THEN ".toList ++ s) =
      match splitElse? s with
      | none => .ok (.ifThen e block)
      | some (before, after) => do
        let first ← parseBlock before
        let second ← parseBlock after
        return .ifElse e first second := by
  have hcondition : Clause.readExpr (Text.trim c) = .ok e := by
    rw [Clause.readExpr, Expr.parse_trim hc]
  have hne : (Text.trim ("IF ".toList ++ c ++ " THEN ".toList ++ s)).isEmpty = false :=
    Text.isEmpty_trim _
  rw [parse_eq, parseWith]
  simp only [hne, firstMatch?_if hc hthen hs]
  cases splitElse? s with
  | none =>
    simp only [Form.build, String.toList_ofList, hcondition, parseBlock_trim, hs]
    rfl
  | some branches =>
    simp only [Form.build, String.toList_ofList, hcondition, parseBlock_trim]
    rfl

/-- The ELSE of the inner IF is taken by the outer one, and the one in quotes by neither. -/
theorem parse_if_then_nested :
    parseBlock "IF Y THEN A$=\"ELSE\" ELSE END".toList =
        .ok [.ifElse ⟨"Y", .single (.var "Y")⟩
          [.assign "A$" ⟨"\"ELSE\"", .single (.text "ELSE")⟩] [.finish]] ∧
      parse ("IF ".toList ++ "X".toList ++ " THEN ".toList ++
          "IF Y THEN A$=\"ELSE\" ELSE END".toList) =
        .ok (.ifElse ⟨"X", .single (.var "X")⟩
          [.ifThen ⟨"Y", .single (.var "Y")⟩
            [.assign "A$" ⟨"\"ELSE\"", .single (.text "ELSE")⟩]] [.finish]) := by
  have hx : Expr.parse "X".toList = .ok ⟨"X", .single (.var "X")⟩ := rfl
  have hblock : parseBlock "IF Y THEN A$=\"ELSE\" ELSE END".toList =
      .ok [.ifElse ⟨"Y", .single (.var "Y")⟩
        [.assign "A$" ⟨"\"ELSE\"", .single (.text "ELSE")⟩] [.finish]] := rfl
  have hsplit : splitElse? "IF Y THEN A$=\"ELSE\" ELSE END".toList =
      some ("IF Y THEN A$=\"ELSE\" ".toList, " END".toList) := rfl
  refine ⟨hblock, ?_⟩
  rw [parse_if_then hx rfl hblock, hsplit]
  rfl

/-- A block that can be read on its own need not be one behind a THEN: the ELSE of this one is
taken by the IF in front of it, and leaves a number alone in its branch. -/
theorem not_parse_if_then_block :
    ¬ ∀ (c s : List Char) (e : Expr) (block : Block), Expr.parse c = .ok e →
      Text.findOutsideQuotes? "THEN".toList c = none →
      Text.findOutsideQuotes? "ELSE".toList c = none → parseBlock s = .ok block →
      parse ("IF ".toList ++ c ++ " THEN ".toList ++ s) = .ok (.ifThen e block) := by
  intro h
  have hparse := h "X".toList "IF Y THEN 10 ELSE 20".toList ⟨"X", .single (.var "X")⟩
    [.ifElseLine ⟨"Y", .single (.var "Y")⟩ 10 20] rfl rfl rfl rfl
  have hfault : parse "IF X THEN IF Y THEN 10 ELSE 20".toList = .error (.unknown "20") := rfl
  exact nomatch hfault.symm.trans hparse

end Statement

end ClassicBasic

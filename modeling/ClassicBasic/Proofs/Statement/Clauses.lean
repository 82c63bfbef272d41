import ClassicBasic.Proofs.Statement.Rendering

/-!
# Reading written clauses

Names, targets, signatures, constants and lists of them are read back as they were written. An item
of a list neither starts nor ends with a blank and has no comma outside quotes and parentheses
(`Text.IsItem`), so a list is cut into the items that were written.
-/

namespace ClassicBasic

open Text (commas applied inQuotes decimal signature inputList isFree Passes Trimmed)

/-! ## Items of lists -/

namespace Text

/-- A text that stands in a list as one item. -/
structure IsItem (u : List Char) : Prop where
  passes : Passes 0 u
  trimmed : Trimmed u
  ne_nil : u ≠ []

namespace IsItem

variable {u : List Char} {us : List (List Char)}

theorem not_allBlank (h : IsItem u) : ¬ allBlank u = true :=
  not_allBlank_of_trimmed h.trimmed h.ne_nil

theorem word (h : ∀ c ∈ u, isWordChar c = true) (hne : u ≠ []) : IsItem u where
  passes := .inerts fun c hc => isInert_of_isWordChar (h c hc)
  trimmed := trimmed_of_forall fun c hc => not_isBlank_of_isWordChar (h c hc)
  ne_nil := hne

theorem numeral (h : ∀ c ∈ u, isNumeric c = true) (hne : u ≠ []) : IsItem u where
  passes := .inerts fun c hc => (isInert_of_isNumeric (h c hc)).1
  trimmed := trimmed_of_forall fun c hc => (isInert_of_isNumeric (h c hc)).2.2
  ne_nil := hne

theorem inQuotes {s : String} (h : '"' ∉ s.toList) : IsItem (inQuotes s) where
  passes := .quoted h
  trimmed := by
    refine ⟨by rintro c ⟨⟩; rfl, fun c hc => ?_⟩
    rw [Text.inQuotes, List.getLast?_concat] at hc
    cases hc
    rfl
  ne_nil := by simp [Text.inQuotes]

theorem applied {name : String} (hword : ∀ c ∈ name.toList, isWordChar c = true)
    (hne : name.toList ≠ []) (hus : ∀ u ∈ us, Passes 0 u) : IsItem (applied name us) where
  passes := .append (.inerts fun c hc => isInert_of_isWordChar (hword c hc))
    (.parens (.intercalate hus))
  trimmed := by
    obtain ⟨c, cs, hcs⟩ := List.exists_cons_of_ne_nil hne
    refine ⟨fun d hd => ?_, fun d hd => ?_⟩
    · rw [Text.applied, hcs] at hd
      cases hd
      exact not_isBlank_of_isWordChar (hword c (by simp [hcs]))
    · rw [Text.applied, ← List.append_assoc, List.getLast?_concat] at hd
      cases hd
      rfl
  ne_nil := by simp [Text.applied, hne]

end IsItem

section
variable {us : List (List Char)}

theorem commas_cons_cons (u v : List Char) (us : List (List Char)) :
    commas (u :: v :: us) = u ++ ',' :: commas (v :: us) := by
  rw [commas, List.intercalate_cons_cons, List.append_assoc]
  rfl

theorem commas_singleton (u : List Char) : commas [u] = u := List.intercalate_singleton

theorem commas_cons (c : Char) (u : List Char) (us : List (List Char)) :
    commas ((c :: u) :: us) = c :: commas (u :: us) := by
  cases us <;> simp [commas, List.intercalate]

theorem getLast?_commas (h : ∀ u ∈ us, IsItem u) (hne : us ≠ []) :
    ∃ c ∈ (commas us).getLast?, isBlank c = false := by
  obtain ⟨u, hu⟩ := Option.isSome_iff_exists.mp (List.getLast?_isSome.mpr hne)
  have hitem := h u (List.mem_of_getLast? hu)
  obtain ⟨c, hc⟩ := Option.isSome_iff_exists.mp (List.getLast?_isSome.mpr hitem.ne_nil)
  refine ⟨c, ?_, hitem.trimmed.2 c hc⟩
  rw [commas, getLast?_intercalate fun u hu => (h u hu).ne_nil, hu]
  exact hc

theorem trimmed_commas (h : ∀ u ∈ us, IsItem u) : Trimmed (commas us) :=
  trimmed_intercalate (fun u hu => (h u hu).ne_nil) fun u hu => (h u hu).trimmed

theorem not_allBlank_commas (h : ∀ u ∈ us, IsItem u) (hne : us ≠ []) :
    ¬ allBlank (commas us) = true := by
  refine not_allBlank_of_trimmed (trimmed_commas h) fun hnil => ?_
  obtain ⟨c, hc, -⟩ := getLast?_commas h hne
  rw [hnil] at hc
  cases hc

/-- A list is cut into its items. -/
theorem split_commas (h : ∀ u ∈ us, Passes 0 u) (hne : us ≠ [])
    (hblank : ¬ allBlank (commas us) = true) : splitOutsideBrackets ',' (commas us) = us := by
  rw [splitOutsideBrackets_of_not_allBlank hblank]
  exact piecesFrom_intercalate hne h

end

end Text

/-! ## Lists in patterns -/

namespace Text

theorem decimal_ne_nil (n : Nat) : decimal n ≠ [] := Nat.toDigits_ne_nil

theorem isDigit_decimal (n : Nat) : ∀ c ∈ decimal n, c.isDigit = true := fun _ hc =>
  Nat.isDigit_of_mem_toDigits (by decide) (by decide) hc

theorem isNumeric_decimal (n : Nat) : ∀ c ∈ decimal n, isNumeric c = true := fun c hc => by
  simp [isNumeric, isDigit_decimal n c hc]

theorem IsItem.decimal (n : Nat) : IsItem (decimal n) :=
  .numeral (isNumeric_decimal n) (decimal_ne_nil n)

/-- The digits of a number read as the number. -/
theorem digits?_decimal (n : Nat) : Numeral.digits? (decimal n) = some n := by
  have hall : (decimal n).all Char.isDigit = true := List.all_eq_true.mpr (isDigit_decimal n)
  have hvalue : Numeral.ofDigits (decimal n) = n := by
    rw [Numeral.ofDigits, ← Nat.ofDigitChars_eq_foldl]
    exact Nat.ofDigitChars_ten_toDigits
  simp [Numeral.digits?, hall, hvalue, decimal_ne_nil]

theorem int?_decimal {n : Nat} (h : IsLineNumber n) :
    Numeral.int? (decimal n) = some (n : Int) := by
  have hsign : Numeral.splitSign (decimal n) = (false, decimal n) := by
    unfold Numeral.splitSign
    split
    · rename_i heq
      exact absurd (isDigit_decimal n '-' (by simp [heq])) (by decide)
    · rename_i heq
      exact absurd (isDigit_decimal n '+' (by simp [heq])) (by decide)
    · rfl
  have hbound : n < 4294967296 := h
  have hmin : Double.minInt = -9223372036854775808 := rfl
  have hmax : Double.maxInt = 9223372036854775807 := rfl
  rw [Numeral.int?, hsign]
  simp only [digits?_decimal, Option.map_some, Double.signed, Bool.false_eq_true, if_false]
  rw [Option.filter_some, if_pos]
  simp only [hmin, hmax, Bool.and_eq_true, decide_eq_true_eq]
  omega

end Text

theorem Clause.readLine_eq {n : Nat} (h : IsLineNumber n) : Clause.readLine n = .ok n := by
  have hbound : n < UInt32.size := h
  simp [Clause.readLine, hbound]

namespace Slot

variable {us : List (List Char)}

theorem elements_commas (name : String) (kind : SlotKind) (h : ∀ u ∈ us, Text.IsItem u)
    (hne : us ≠ []) :
    ({ name, kind, isList := true } : Slot).elements (Text.trim (commas us)) = .ok us := by
  have hsplit := Text.split_commas (fun u hu => (h u hu).passes) hne
    (Text.not_allBlank_commas h hne)
  have htrim : us.map Text.trim = us :=
    (List.map_congr_left fun u hu => Text.trim_of_trimmed (h u hu).trimmed).trans (List.map_id us)
  rw [Text.trim_of_trimmed (Text.trimmed_commas h)]
  simp [elements, hsplit, htrim]

theorem convert_texts (name : String) (h : ∀ u ∈ us, Text.IsItem u) (hne : us ≠ []) :
    ({ name, kind := .text, isList := true } : Slot).convert (Text.trim (commas us)) =
      .ok (.texts (us.map String.ofList)) := by
  simp only [convert, elements_commas name .text h hne]
  rfl

theorem convert_ints (name : String) {lines : List Nat} (h : ∀ n ∈ lines, IsLineNumber n)
    (hne : lines ≠ []) :
    ({ name, kind := .int, isList := true } : Slot).convert
        (Text.trim (commas (lines.map decimal))) = .ok (.ints (lines.map Int.ofNat)) := by
  have hitems : ∀ u ∈ lines.map decimal, Text.IsItem u := by
    simpa using fun n _ => Text.IsItem.decimal n
  have hlines : (lines.map decimal).mapM
      ({ name, kind := .int, isList := true } : Slot).toInt = .ok (lines.map Int.ofNat) := by
    rw [mapM_eq_ok, List.forall₂_map_left_iff, List.forall₂_map_right_iff, List.forall₂_same]
    intro n hn
    rw [toInt, Text.int?_decimal (h n hn)]
    rfl
  simp only [convert, elements_commas name .int hitems (by simpa using hne)]
  exact bind_eq_ok.mpr ⟨_, rfl, bind_eq_ok.mpr ⟨_, hlines, rfl⟩⟩

theorem convert_int (name : String) {n : Nat} (h : IsLineNumber n) :
    ({ name, kind := .int } : Slot).convert (Text.trim (decimal n)) = .ok (.int n) := by
  rw [Text.trim_of_trimmed (Text.IsItem.decimal n).trimmed]
  simp only [convert, toInt, Text.int?_decimal h]
  rfl

end Slot

/-! ## Names -/

namespace Text

theorem isName_of_isFree {name : String} (h : isFree name = true) : isName name.toList = true := by
  simp only [isFree, Bool.and_eq_true] at h
  exact h.1.1.1

theorem isWordChar_of_isFree {name : String} (h : isFree name = true) :
    ∀ c ∈ name.toList, isWordChar c = true := isWordChar_of_isName (isName_of_isFree h)

theorem toList_ne_nil_of_isFree {name : String} (h : isFree name = true) : name.toList ≠ [] := by
  obtain ⟨c, hc, -⟩ := head?_of_isName (isName_of_isFree h)
  rintro hnil
  rw [hnil] at hc
  cases hc

theorem IsItem.free {name : String} (h : isFree name = true) : IsItem name.toList :=
  .word (isWordChar_of_isFree h) (toList_ne_nil_of_isFree h)

/-- A free name is none of the words of the grammar. -/
theorem not_prefix_of_isFree {name keyword : String} (h : isFree name = true)
    (hkeyword : keyword ∈ reserved) : ¬ keyword.toList <+: name.toList := by
  simp only [isFree, Bool.and_eq_true, Bool.not_eq_true', List.any_eq_false] at h
  exact fun hprefix => h.1.1.2 keyword hkeyword (List.isPrefixOf_iff_prefix.mpr hprefix)

end Text

namespace Clause

section
variable {name : String} {us : List (List Char)}

theorem readName_free (h : isFree name = true) : readName name.toList = .ok name := by
  rw [readName, Text.trim_of_trimmed (Text.IsItem.free h).trimmed,
    if_pos (Text.isName_of_isFree h), String.ofList_toList]

/-- A name in front of a list in parentheses. -/
theorem splitCall?_applied (hname : isFree name = true) (hus : ∀ u ∈ us, Passes 0 u)
    (hne : us ≠ []) (hblank : ¬ Text.allBlank (commas us) = true) :
    splitCall? (applied name us) = some (name.toList, us) := by
  have hcut : Text.cutAt? (· == '(') (applied name us) =
      some (name.toList, commas us ++ [')']) := by
    refine Text.cutAt?_append rfl fun c hc => ?_
    have hinert := Text.isInert_of_isWordChar (Text.isWordChar_of_isFree hname c hc)
    simpa using (Text.ne_of_isInert hinert).2.1
  have hclosing : Text.closing? ((applied name us).drop name.toList.length) =
      some ('(' :: commas us, []) := by
    rw [applied, List.drop_left]
    exact Text.closing?_parens (Passes.intercalate hus) []
  simp only [splitCall?, hcut, Option.bind_eq_bind, Option.bind_some, hclosing]
  rw [List.tail_cons, Text.split_commas hus hne hblank,
    Text.trim_of_trimmed (Text.IsItem.free hname).trimmed]

theorem splitCall?_word {cs : List Char} (h : ∀ c ∈ cs, Text.isWordChar c = true) :
    splitCall? cs = none := by
  cases hcut : Text.cutAt? (· == '(') cs with
  | none => simp [splitCall?, hcut]
  | some r =>
    obtain ⟨c, hc, hcs, -⟩ := Text.cutAt?_spec hcut
    have hword := h c (by simp [hcs])
    rw [eq_of_beq hc] at hword
    cases hword

theorem readTarget_name (h : Text.isName name.toList = true) :
    readTarget name.toList = .ok (.scalar name) := by
  have hword := Text.isWordChar_of_isName h
  have hne : name.toList ≠ [] := by
    rintro hnil
    rw [hnil] at h
    cases h
  rw [readTarget, Text.trim_of_trimmed (Text.IsItem.word hword hne).trimmed]
  simp only [splitCall?_word hword, h, String.ofList_toList, if_true]

end

section
variable {w : Speller}

theorem readExpr_spelled {e : Expr} (h : w.Spells e) : readExpr (w.expr e) = .ok e := by
  rw [readExpr, h.parse]

theorem readExpr_trim {e : Expr} (h : w.Spells e) : readExpr (Text.trim (w.expr e)) = .ok e := by
  rw [readExpr, Expr.parse_trim h.parse]

theorem passes_spelled {e : Expr} (h : w.Spells e) : Passes 0 (w.expr e) := by
  obtain ⟨ts, hspelled, hts, -⟩ := Expr.exists_spelled h.parse
  exact hts.passes hspelled

/-- Subscripts that spell expressions are not all blank. -/
theorem not_allBlank_subscripts {e : Element} (h : e.Writable w) :
    (e.subscripts.map w.expr).all Text.allBlank = false ∧
      ¬ Text.allBlank (commas (e.subscripts.map w.expr)) = true := by
  obtain ⟨x, xs, hxs⟩ := List.exists_cons_of_ne_nil h.ne_nil
  have hx := Expr.not_allBlank_of_parse (h.spells x (by simp [hxs])).parse
  constructor
  · simp [hxs, hx]
  · rw [hxs, List.map_cons]
    intro hblank
    cases xs with
    | nil => exact hx (by rwa [List.map_nil, Text.commas_singleton] at hblank)
    | cons y ys =>
      rw [List.map_cons, Text.commas_cons_cons, Text.allBlank_append, Bool.and_eq_true] at hblank
      exact hx hblank.1

theorem readTarget_element {e : Element} (h : e.Writable w) :
    readTarget (e.render w) = .ok (.element e) := by
  have hpasses : ∀ u ∈ e.subscripts.map w.expr, Passes 0 u := by
    simpa using fun x hx => passes_spelled (h.spells x hx)
  have hitem : Text.IsItem (e.render w) :=
    .applied (Text.isWordChar_of_isFree h.name) (Text.toList_ne_nil_of_isFree h.name) hpasses
  have hsplit : splitCall? (e.render w) = some (e.name.toList, e.subscripts.map w.expr) :=
    splitCall?_applied h.name hpasses (by simpa using h.ne_nil) (not_allBlank_subscripts h).2
  have hsubscripts : (e.subscripts.map w.expr).mapM readExpr = .ok e.subscripts := by
    rw [mapM_eq_ok, List.forall₂_map_left_iff, List.forall₂_same]
    exact fun x hx => readExpr_spelled (h.spells x hx)
  rw [readTarget, Text.trim_of_trimmed hitem.trimmed]
  simp only [hsplit, Text.isName_of_isFree h.name, (not_allBlank_subscripts h).1, hsubscripts,
    String.ofList_toList]
  rfl

theorem readTarget_render {t : Target} (h : t.Writable w) : readTarget (t.render w) = .ok t := by
  cases t with
  | scalar name =>
    have hname : isFree name = true := h
    exact readTarget_name (Text.isName_of_isFree hname)
  | element e => exact readTarget_element h

theorem readArray_render {e : Element} (h : e.Writable w) : readArray (e.render w) = .ok e := by
  rw [readArray, readTarget_element h]

theorem isItem_element {e : Element} (h : e.Writable w) : Text.IsItem (e.render w) := by
  refine .applied (Text.isWordChar_of_isFree h.name) (Text.toList_ne_nil_of_isFree h.name) ?_
  simpa using fun x hx => passes_spelled (h.spells x hx)

theorem head?_target {t : Target} (h : t.Writable w) :
    ∃ c ∈ (t.render w).head?, c.isAlpha = true := by
  cases t with
  | scalar name => exact Text.head?_of_isName (Text.isName_of_isFree h)
  | element e =>
    obtain ⟨c, hc, halpha⟩ := Text.head?_of_isName (Text.isName_of_isFree h.name)
    refine ⟨c, ?_, halpha⟩
    rw [Target.render, Element.render, applied, List.head?_append, hc]
    rfl

theorem isItem_target {t : Target} (h : t.Writable w) : Text.IsItem (t.render w) := by
  cases t with
  | scalar name => exact .free h
  | element e => exact isItem_element h

end

/-! ## Signatures -/

theorem isItem_signature {name : String} {params : List String} (hname : isFree name = true)
    (hparams : ∀ p ∈ params, isFree p = true) : Text.IsItem (signature name params) := by
  rw [signature]
  split
  · exact .free hname
  · refine .applied (Text.isWordChar_of_isFree hname) (Text.toList_ne_nil_of_isFree hname) ?_
    simpa using fun p hp => (Text.IsItem.free (hparams p hp)).passes

theorem readSignature_signature {name : String} {params : List String} (hname : isFree name = true)
    (hparams : ∀ p ∈ params, isFree p = true) :
    readSignature (signature name params) = .ok (name, params) := by
  by_cases hne : params = []
  · subst hne
    rw [signature, readSignature]
    simp only [List.isEmpty_nil, if_true, Text.trim_of_trimmed (Text.IsItem.free hname).trimmed,
      splitCall?_word (Text.isWordChar_of_isFree hname), readName_free hname]
    rfl
  · have hitems : ∀ u ∈ params.map String.toList, Text.IsItem u := by
      simpa using fun p hp => Text.IsItem.free (hparams p hp)
    have hne' : params.map String.toList ≠ [] := by simpa using hne
    have hsplit := splitCall?_applied hname (fun u hu => (hitems u hu).passes) hne'
      (Text.not_allBlank_commas hitems hne')
    have hfilter : (params.map String.toList).filter (fun a => !Text.allBlank a) =
        params.map String.toList := by
      rw [List.filter_eq_self]
      exact fun u hu => by simpa using (hitems u hu).not_allBlank
    have hread : (params.map String.toList).mapM readName = .ok params := by
      rw [mapM_eq_ok, List.forall₂_map_left_iff, List.forall₂_same]
      exact fun p hp => readName_free (hparams p hp)
    rw [readSignature, Text.trim_of_trimmed (isItem_signature hname hparams).trimmed, signature,
      if_neg (by simpa using hne)]
    simp only [hsplit, readName_free hname, hfilter, hread]
    rfl

end Clause

/-! ## Constants -/

namespace Text

/-- The letters of the names of infinity and of no number, in either case. -/
theorem isNumeric_of_toLower {c : Char} (h : c.toLower ∈ ['i', 'n', 'f', 't', 'y', 'a']) :
    isNumeric c = true := by
  by_cases hupper : c.val ≥ 'A'.val ∧ c.val ≤ 'Z'.val
  · have hbounds : 65 ≤ c.toNat ∧ c.toNat ≤ 90 := by
      simpa [UInt32.le_iff_toNat_le] using hupper
    have hnat : c.toLower.toNat = c.toNat + 32 := by
      have heq : c.toLower.val = c.val + ('a'.val - 'A'.val) := congrArg Char.val (dif_pos hupper)
      rw [Char.toNat, heq, UInt32.toNat_add]
      have hdiff : ('a'.val - 'A'.val).toNat = 32 := rfl
      rw [hdiff]
      change (c.toNat + 32) % 2 ^ 32 = c.toNat + 32
      omega
    have hcase {d u : Char} (hd : c.toLower = d) (hu : d.toNat = u.toNat + 32) : c = u := by
      rw [← Char.toNat_inj]
      rw [hd] at hnat
      omega
    simp only [List.mem_cons, List.not_mem_nil, or_false] at h
    rcases h with h | h | h | h | h | h
    · rw [@hcase _ 'I' h rfl]
      rfl
    · rw [@hcase _ 'N' h rfl]
      rfl
    · rw [@hcase _ 'F' h rfl]
      rfl
    · rw [@hcase _ 'T' h rfl]
      rfl
    · rw [@hcase _ 'Y' h rfl]
      rfl
    · rw [@hcase _ 'A' h rfl]
      rfl
  · have heq : c.toLower = c := dif_neg hupper
    rw [heq] at h
    simp only [List.mem_cons, List.not_mem_nil, or_false] at h
    rcases h with rfl | rfl | rfl | rfl | rfl | rfl <;> rfl

theorem isNumeric_of_number? {cs : List Char} {x : Float} (h : Numeral.number? cs = some x) :
    cs ≠ [] ∧ ∀ c ∈ cs, isNumeric c = true := by
  obtain ⟨sign, hcs, hsign⟩ := Numeral.splitSign_spec cs
  have hname {l : List Char} (hl : l ≠ []) (hall : ∀ d ∈ l, d ∈ ['i', 'n', 'f', 't', 'y', 'a'])
      (heq : String.ofList ((Numeral.splitSign cs).2.map Char.toLower) = String.ofList l) :
      (Numeral.splitSign cs).2 ≠ [] ∧ ∀ c ∈ (Numeral.splitSign cs).2, isNumeric c = true := by
    rw [String.ofList_inj] at heq
    refine ⟨fun hnil => hl (by rw [← heq, hnil]; rfl), fun c hc => isNumeric_of_toLower ?_⟩
    exact hall _ (heq ▸ List.mem_map_of_mem hc)
  have hbody : (Numeral.splitSign cs).2 ≠ [] ∧
      ∀ c ∈ (Numeral.splitSign cs).2, isNumeric c = true := by
    simp only [Numeral.number?, Bool.or_eq_true, beq_iff_eq] at h
    split at h
    · rename_i hinf
      rcases hinf with hinf | hinf
      · exact @hname ['i', 'n', 'f'] (by simp) (by simp) hinf
      · exact @hname ['i', 'n', 'f', 'i', 'n', 'i', 't', 'y'] (by simp) (by simp) hinf
    split at h
    · exact @hname ['n', 'a', 'n'] (by simp) (by simp) ‹_›
    · obtain ⟨d, hd, -⟩ := Option.map_eq_some_iff.mp h
      have hshape := Numeral.decimal?_shape hd
      refine ⟨fun hnil => ?_, hshape.isNumeric⟩
      obtain ⟨c, hc, -⟩ := hshape.getLast?
      rw [hnil] at hc
      cases hc
  refine ⟨fun hnil => hbody.1 ?_, fun c hc => ?_⟩
  · exact (List.append_eq_nil_iff.mp (hcs.symm.trans hnil)).2
  · rw [hcs] at hc
    rcases List.mem_append.mp hc with hc | hc
    · rcases hsign with rfl | rfl | rfl
      · cases hc
      · rw [List.mem_singleton.mp hc]
        rfl
      · rw [List.mem_singleton.mp hc]
        rfl
    · exact hbody.2 c hc

end Text

namespace Clause

section
variable {w : Speller}

theorem isItem_constant {v : Value} (h : v.Writable w) : Text.IsItem (v.render w) := by
  cases v with
  | number x =>
    have hnumeric := Text.isNumeric_of_number? h
    exact .numeral hnumeric.2 hnumeric.1
  | text s => exact .inQuotes h

theorem unquote?_inQuotes (s : String) : unquote? (inQuotes s) = some s.toList := by
  simp [unquote?, inQuotes]

theorem readConstant_render {v : Value} (h : v.Writable w) : readConstant (v.render w) = v := by
  rw [readConstant, Text.trim_of_trimmed (isItem_constant h).trimmed]
  cases v with
  | number x =>
    obtain ⟨hne, hnumeric⟩ := Text.isNumeric_of_number? h
    have hunquote : unquote? (w.number x) = none := by
      unfold unquote?
      split
      · rename_i body heq
        exact absurd (hnumeric '"' (by simp [heq])) (by decide)
      · rfl
    have hx : Numeral.number? (w.number x) = some x := h
    simp only [Value.render, hunquote, hx]
  | text s => simp only [Value.render, unquote?_inQuotes, String.ofList_toList]

/-! ## Lists of INPUT -/

/-- Targets with commas between them, with blanks around each. -/
theorem readTargets_commas {us : List (List Char)} {targets : List Target}
    (h : List.Forall₂ (fun u t => Passes 0 u ∧ ¬ Text.allBlank u = true ∧ readTarget u = .ok t) us
      targets) (hne : us ≠ []) :
    ((Text.splitOutsideBrackets ',' (commas us)).filter fun p => !Text.allBlank p).mapM readTarget =
      .ok targets := by
  have hitem : ∀ u ∈ us, Passes 0 u ∧ ¬ Text.allBlank u = true := by
    intro u hu
    obtain ⟨t, -, hpasses, hblank, -⟩ := forall₂_left h hu
    exact ⟨hpasses, hblank⟩
  have hblank : ¬ Text.allBlank (commas us) = true := by
    obtain ⟨u, us, rfl⟩ := List.exists_cons_of_ne_nil hne
    intro hall
    refine (hitem u (by simp)).2 ?_
    cases us with
    | nil => rwa [Text.commas_singleton] at hall
    | cons v us =>
      rw [Text.commas_cons_cons, Text.allBlank_append, Bool.and_eq_true] at hall
      exact hall.1
  have hfilter : us.filter (fun p => !Text.allBlank p) = us := by
    rw [List.filter_eq_self]
    exact fun u hu => by simpa using (hitem u hu).2
  rw [Text.split_commas (fun u hu => (hitem u hu).1) hne hblank, hfilter, mapM_eq_ok]
  exact h.imp fun _ _ h => h.2.2

theorem readPrompt_none {text : List Char}
    (h : ∀ c ∈ text.head?, Text.isBlank c = false ∧ c ≠ '"') :
    readPrompt text = .ok (none, text) := by
  rw [readPrompt, Text.trimStart_eq fun c hc => (h c hc).1]
  split
  · exact absurd rfl (h '"' rfl).2
  · rfl

theorem inQuotes_append (p : String) (rest : List Char) :
    inQuotes p ++ rest = '"' :: (p.toList ++ '"' :: rest) := by
  simp [inQuotes]

/-- Behind a prompt, blanks and one separator are skipped. -/
theorem readPrompt_quoted {p : String} {text list : List Char} (hp : '"' ∉ p.toList)
    (htext : Text.trimStart text = inQuotes p ++ list) :
    readPrompt text = .ok (some p, dropSeparator (Text.trimStart list)) := by
  rw [inQuotes_append] at htext
  simp only [readPrompt, htext, Text.cutAt?_char.mpr ⟨rfl, hp⟩, String.ofList_toList]

theorem readPrompt_some {prompt : String} (h : '"' ∉ prompt.toList) (rest : List Char) :
    readPrompt (inQuotes prompt ++ ';' :: rest) = .ok (some prompt, rest) :=
  readPrompt_quoted h (Text.trimStart_eq (by rintro c ⟨⟩; rfl))

theorem readTarget_space (u : List Char) : readTarget (' ' :: u) = readTarget u := by
  have htrim : Text.trim (' ' :: u) = Text.trim u :=
    Text.trim_append_left (by rfl : Text.allBlank [' '] = true) u
  rw [readTarget, readTarget, htrim]

/-- A list of INPUT is read back with its prompt. -/
theorem readInputList_inputList {prompt : Option String} {targets : List Target}
    (hprompt : ∀ p ∈ prompt, '"' ∉ p.toList) (hne : targets ≠ [])
    (htargets : ∀ t ∈ targets, t.Writable w) :
    readInputList (Text.inputList w prompt targets) = .ok (prompt, targets) := by
  obtain ⟨t, ts, rfl⟩ := List.exists_cons_of_ne_nil hne
  obtain ⟨ht, hts⟩ := List.forall_mem_cons.mp htargets
  have hitem := isItem_target ht
  have hfirst : readTarget (t.render w) = .ok t := readTarget_render ht
  have hrest : List.Forall₂
      (fun u t => Passes 0 u ∧ ¬ Text.allBlank u = true ∧ readTarget u = .ok t)
      (ts.map (Target.render w)) ts := by
    rw [List.forall₂_map_left_iff, List.forall₂_same]
    intro t ht
    have hitem := isItem_target (hts t ht)
    exact ⟨hitem.passes, hitem.not_allBlank, readTarget_render (hts t ht)⟩
  -- The first target may have the space behind the prompt in front of it.
  have hread {u : List Char} (hpasses : Passes 0 u) (hblank : ¬ Text.allBlank u = true)
      (hu : readTarget u = .ok t) :
      ((Text.splitOutsideBrackets ',' (commas (u :: ts.map (Target.render w)))).filter
        fun p => !Text.allBlank p).mapM readTarget = .ok (t :: ts) :=
    readTargets_commas (.cons ⟨hpasses, hblank, hu⟩ hrest) (by simp)
  cases prompt with
  | none =>
    have hprompt : readPrompt (Text.inputList w none (t :: ts)) =
        .ok (none, commas (t.render w :: ts.map (Target.render w))) := by
      refine readPrompt_none fun c hc => ?_
      obtain ⟨d, hd, halpha⟩ := head?_target ht
      have hhead : (Text.inputList w none (t :: ts)).head? = (t.render w).head? :=
        Text.head?_intercalate hitem.ne_nil _
      rw [hhead] at hc
      rw [Option.mem_unique hc hd]
      have hword := Text.isWordChar_of_isAlpha halpha
      exact ⟨Text.not_isBlank_of_isWordChar hword,
        (Text.ne_of_isInert (Text.isInert_of_isWordChar hword)).1⟩
    simp only [readInputList, hprompt]
    exact bind_eq_ok.mpr ⟨_, rfl, bind_eq_ok.mpr
      ⟨_, hread hitem.passes hitem.not_allBlank hfirst, rfl⟩⟩
  | some p =>
    have hprompt : readPrompt (Text.inputList w (some p) (t :: ts)) =
        .ok (some p, commas ((' ' :: t.render w) :: ts.map (Target.render w))) := by
      rw [← readPrompt_some (hprompt p rfl), Text.commas_cons]
      simp [Text.inputList, Text.words, List.intercalate]
    have hspace : Passes 0 (' ' :: t.render w) := .append (.inert rfl) hitem.passes
    have hblank : ¬ Text.allBlank (' ' :: t.render w) = true := hitem.not_allBlank
    simp only [readInputList, hprompt]
    exact bind_eq_ok.mpr ⟨_, rfl, bind_eq_ok.mpr
      ⟨_, hread hspace hblank ((readTarget_space _).trans hfirst), rfl⟩⟩

theorem trimmed_inputList {prompt : Option String} {targets : List Target}
    (hprompt : ∀ p ∈ prompt, '"' ∉ p.toList) (hne : targets ≠ [])
    (htargets : ∀ t ∈ targets, t.Writable w) :
    Trimmed (Text.inputList w prompt targets) ∧ Text.inputList w prompt targets ≠ [] := by
  have hitems : ∀ u ∈ targets.map (Target.render w), Text.IsItem u := by
    simpa using fun t ht => isItem_target (htargets t ht)
  have hne' : targets.map (Target.render w) ≠ [] := by simpa using hne
  have hlist := Text.trimmed_commas hitems
  obtain ⟨c, hc, hblank⟩ := Text.getLast?_commas hitems hne'
  cases prompt with
  | none =>
    refine ⟨hlist, fun hnil => Text.not_allBlank_commas hitems hne' ?_⟩
    rw [show commas (targets.map (Target.render w)) = [] from hnil]
    rfl
  | some p =>
    have htext : Text.inputList w (some p) targets =
        inQuotes p ++ ';' :: ' ' :: commas (targets.map (Target.render w)) := by
      simp [Text.inputList, Text.words, List.intercalate]
    rw [htext]
    refine ⟨⟨?_, fun d hd => ?_⟩, by simp⟩
    · rintro d ⟨⟩
      rfl
    · rw [List.getLast?_append, List.getLast?_cons, List.getLast?_cons, hc] at hd
      cases hd
      exact hblank

end

end Clause

end ClassicBasic

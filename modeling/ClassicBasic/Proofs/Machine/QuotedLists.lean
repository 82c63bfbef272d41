import ClassicBasic.Machine.Step
import ClassicBasic.Proofs.Statement.RoundTrip

/-!
# Quoted lists

Texts in quotes with commas between them are written alike in DATA and in a reply to INPUT. The two
are cut apart by different rules: DATA at commas outside quotes and brackets, after its line was cut
at colons, a reply at commas outside quotes only. In a quoted text nothing counts but the quote that
ends it (`Text.piecesFrom_quoted`), so both give the texts back (`quotedList_decoded`).
-/

namespace ClassicBasic

open Text (commas inQuotes)

/-- The texts of a list, each in quotes, with commas between them. -/
def Text.quotedList (texts : List String) : List Char := commas (texts.map inQuotes)

namespace Text

variable {texts : List String}

theorem isItem_inQuotes (h : ∀ s ∈ texts, '"' ∉ s.toList) : ∀ u ∈ texts.map inQuotes, IsItem u :=
  List.forall_mem_map.mpr fun s hs => .inQuotes (h s hs)

/-- A reply is cut into the quoted texts. -/
theorem splitOutsideQuotes_quotedList (hne : texts ≠ []) (h : ∀ s ∈ texts, '"' ∉ s.toList) :
    splitOutsideQuotes ',' (quotedList texts) = texts.map inQuotes := by
  have hne' : texts.map inQuotes ≠ [] := by simpa using hne
  have htext : quotedList texts ≠ [] := fun hnil =>
    not_allBlank_commas (isItem_inQuotes h) hne' (by rw [← quotedList, hnil]; rfl)
  have hpieces : piecesFrom .quotes ',' {} (commas (texts.map inQuotes)) = texts.map inQuotes := by
    refine piecesFrom_join rfl hne' (List.forall_mem_map.mpr fun s hs cs => ?_)
    exact piecesFrom_quoted .quotes ',' 0 (h s hs) cs
  rw [splitOutsideQuotes, splitOutside, if_neg (by simpa using htext), quotedList, hpieces]

end Text

namespace Machine

theorem replyPiece_inQuotes {s : String} (h : '"' ∉ s.toList) : replyPiece (inQuotes s) = s := by
  rw [replyPiece, Text.trim_of_trimmed (Text.IsItem.inQuotes h).trimmed, Clause.unquote?_inQuotes,
    Option.getD_some, String.ofList_toList]

theorem convertFor_text {name : String} (h : isTextName name = true) (s : String) :
    convertFor name (.text s) = .ok (.text s) := if_pos h

/-- Each target takes the text in quotes that stands at its place. -/
theorem mapM_quoted {texts : List String} {targets : List Target}
    (hlength : targets.length = texts.length) (h : ∀ s ∈ texts, '"' ∉ s.toList)
    (hname : ∀ t ∈ targets, isTextName t.name = true) :
    ((targets.zip (texts.map inQuotes)).mapM fun (target, piece) =>
      (convertFor target.name (.text (replyPiece piece))).toOption) =
        some (texts.map Value.text) := by
  induction texts generalizing targets with
  | nil =>
    rw [List.length_eq_zero_iff.mp hlength]
    rfl
  | cons s texts ih =>
    obtain ⟨t, targets, rfl⟩ := List.exists_cons_of_length_eq_add_one hlength
    obtain ⟨hs, htexts⟩ := List.forall_mem_cons.mp h
    obtain ⟨ht, htargets⟩ := List.forall_mem_cons.mp hname
    have hrest := ih (Nat.succ.inj hlength) htexts htargets
    simp only [List.map_cons, List.zip_cons_cons, List.mapM_cons, replyPiece_inQuotes hs,
      convertFor_text ht, hrest]
    rfl

/-- A reply of quoted texts gives them to as many targets. -/
theorem reply?_quotedList {texts : List String} {targets : List Target} (hne : texts ≠ [])
    (hlength : targets.length = texts.length) (h : ∀ s ∈ texts, '"' ∉ s.toList)
    (hname : ∀ t ∈ targets, isTextName t.name = true) :
    reply? targets (String.ofList (Text.quotedList texts)) = some (texts.map Value.text) := by
  have hpieces := Text.splitOutsideQuotes_quotedList hne h
  simp only [reply?, String.toList_ofList, hpieces, List.length_map, hlength, beq_self_eq_true,
    if_true]
  exact mapM_quoted hlength h hname

end Machine

namespace Statement

theorem render_quotedList (w : Speller) (texts : List String) :
    Block.render w [.data (texts.map Value.text)] = "DATA ".toList ++ Text.quotedList texts := by
  have hvalues : (texts.map Value.text).map (Value.render w) = texts.map inQuotes := by
    rw [List.map_map]
    rfl
  rw [Block.render, List.map_singleton, List.intercalate_singleton, render_data, hvalues,
    Text.words, List.intercalate_cons_cons, List.intercalate_singleton]
  rfl

/-- DATA in front of quoted texts is one statement with these texts as its constants. -/
theorem parseBlock_quotedList {texts : List String} (hne : texts ≠ [])
    (h : ∀ s ∈ texts, '"' ∉ s.toList) :
    parseBlock ("DATA ".toList ++ Text.quotedList texts) = .ok [.data (texts.map Value.text)] := by
  have hne' : texts.map Value.text ≠ [] := by simpa using hne
  -- There is no expression and no number in the list, so any way of writing them will do.
  rw [← render_quotedList ⟨fun _ => [], fun _ => []⟩]
  have hvalues : ∀ v ∈ texts.map Value.text, v.Writable ⟨fun _ => [], fun _ => []⟩ :=
    List.forall_mem_map.mpr h
  refine parseBlock_render_of_each ⟨by simp, ?_⟩ (by simp) ?_
  · exact List.forall_mem_singleton.mpr (.data hne' hvalues)
  · exact List.forall_mem_singleton.mpr (parseWith_data hne' hvalues)

/-- **Quoted lists survive both decoders.** A list of texts without quotes, each put in quotes, is
read back from DATA and from a reply to INPUT. -/
theorem quotedList_decoded {texts : List String} {targets : List Target} (hne : texts ≠ [])
    (hquote : ∀ s ∈ texts, '"' ∉ s.toList) (hlength : targets.length = texts.length)
    (hname : ∀ t ∈ targets, isTextName t.name = true) :
    parseBlock ("DATA ".toList ++ Text.quotedList texts) = .ok [.data (texts.map Value.text)] ∧
      Machine.reply? targets (String.ofList (Text.quotedList texts)) =
        some (texts.map Value.text) :=
  ⟨parseBlock_quotedList hne hquote, Machine.reply?_quotedList hne hlength hquote hname⟩

/-- Texts with all that counts somewhere: separators, brackets, keywords, blanks, nothing at all. -/
def specialTexts : List String := ["A,B:C", " (] ", "", "IF X THEN REM"]

/-- Variables and an element of an array for them. -/
def specialTargets : List Target := [.scalar "A$", .element ⟨"B$", []⟩, .scalar "C$", .scalar "D$"]

theorem quotedList_decoded_specialTexts :
    parseBlock "DATA \"A,B:C\",\" (] \",\"\",\"IF X THEN REM\"".toList =
        .ok [.data (specialTexts.map Value.text)] ∧
      Machine.reply? specialTargets "\"A,B:C\",\" (] \",\"\",\"IF X THEN REM\"" =
        some (specialTexts.map Value.text) := by
  have hdata : "DATA ".toList ++ Text.quotedList specialTexts =
      "DATA \"A,B:C\",\" (] \",\"\",\"IF X THEN REM\"".toList := rfl
  have hreply : String.ofList (Text.quotedList specialTexts) =
      "\"A,B:C\",\" (] \",\"\",\"IF X THEN REM\"" :=
    String.toList_inj.mp (String.toList_ofList.trans rfl)
  have hquote : ∀ s ∈ specialTexts, '"' ∉ s.toList := by simp [specialTexts]
  have hname : ∀ t ∈ specialTargets, isTextName t.name = true := List.all_eq_true.mp rfl
  obtain ⟨hparsed, hanswered⟩ := quotedList_decoded (by simp [specialTexts]) hquote rfl hname
  exact ⟨(congrArg parseBlock hdata).symm.trans hparsed,
    (congrArg (Machine.reply? specialTargets) hreply).symm.trans hanswered⟩

end Statement

end ClassicBasic

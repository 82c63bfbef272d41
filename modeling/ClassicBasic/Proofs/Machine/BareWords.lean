import ClassicBasic.Proofs.Machine.DataStream
import ClassicBasic.Proofs.Machine.QuotedLists

/-!
# Bare words in DATA

A word of letters in DATA stands for itself, with three exceptions that depend on no letter case:
`inf` and `infinity` are read as infinity and `nan` as no number (`Numeral.number?_letters`). READ
gives any other word to a text variable as it is written and refuses it for a number
(`Machine.bareWord_read`).
-/

namespace ClassicBasic

/-! ## Words that are numbers -/

namespace Numeral

/-- The words that are numbers, in small letters. -/
def numberWords : List (String × Float) :=
  [("inf", Double.infinity false), ("infinity", Double.infinity false), ("nan", Double.nanFloat)]

/-- The number that a word stands for, in small letters or not. -/
def ofWord? (cs : List Char) : Option Float :=
  numberWords.lookup (String.ofList (cs.map Char.toLower))

theorem splitSign_letters {cs : List Char} (h : ∀ c ∈ cs, c.isAlpha = true) :
    splitSign cs = (false, cs) := by
  unfold splitSign
  split
  · exact absurd (h '-' (by simp)) (by decide)
  · exact absurd (h '+' (by simp)) (by decide)
  · rfl

/-- Digits or points are missing. -/
theorem decimal?_letters {cs : List Char} (h : ∀ c ∈ cs, c.isAlpha = true) :
    decimal? cs = none := by
  cases hd : decimal? cs with
  | none => rfl
  | some d =>
    obtain ⟨m, tail, rfl, hne, hm, -⟩ := decimal?_shape hd
    obtain ⟨c, m, rfl⟩ := List.exists_cons_of_ne_nil hne
    have hletter := Text.isAlpha_iff.mp (h c (by simp))
    have hmantissa := isMantissa_iff.mp (hm c (by simp))
    omega

/-- A word of letters is a number only if it is one of `numberWords`. -/
theorem number?_letters {cs : List Char} (h : ∀ c ∈ cs, c.isAlpha = true) :
    number? cs = ofWord? cs := by
  simp only [number?, splitSign_letters h, decimal?_letters h, ofWord?, numberWords,
    List.lookup_cons, List.lookup_nil]
  cases String.ofList (cs.map Char.toLower) == "inf" <;>
    cases String.ofList (cs.map Char.toLower) == "infinity" <;>
    cases String.ofList (cs.map Char.toLower) == "nan" <;> rfl

end Numeral

/-! ## Reading them -/

theorem Text.trim_letters {cs : List Char} (h : ∀ c ∈ cs, c.isAlpha = true) : trim cs = cs :=
  trim_of_trimmed (trimmed_of_forall fun c hc =>
    not_isBlank_of_isWordChar (isWordChar_of_isAlpha (h c hc)))

namespace Clause

variable {w : String}

theorem unquote?_letters {cs : List Char} (h : ∀ c ∈ cs, c.isAlpha = true) :
    unquote? cs = none := by
  unfold unquote?
  split
  · exact absurd (h '"' (by simp)) (by decide)
  · rfl

/-- A word stands for itself, unless it is a number. -/
theorem readConstant_letters (h : ∀ c ∈ w.toList, c.isAlpha = true) :
    readConstant w.toList = ((Numeral.ofWord? w.toList).map Value.number).getD (.text w) := by
  rw [readConstant, Text.trim_letters h]
  simp only [unquote?_letters h, Numeral.number?_letters h]
  cases Numeral.ofWord? w.toList with
  | none => simp
  | some x => rfl

end Clause

/-- A word is an item of DATA, whatever stands in front of it and behind it. -/
theorem Statement.parse_data_word {w : String} (hne : w ≠ "")
    (hw : ∀ c ∈ w.toList, c.isAlpha = true) {us vs : List (List Char)}
    (hus : ∀ u ∈ us, Text.IsItem u) (hvs : ∀ v ∈ vs, Text.IsItem v) :
    parse (Text.words ["DATA".toList, Text.commas (us ++ w.toList :: vs)]) =
      .ok (.data (us.map Clause.readConstant ++
        Clause.readConstant w.toList :: vs.map Clause.readConstant)) := by
  have hitem : Text.IsItem w.toList :=
    .word (fun c hc => Text.isWordChar_of_isAlpha (hw c hc)) (by simpa using hne)
  have hitems : ∀ u ∈ us ++ w.toList :: vs, Text.IsItem u :=
    List.forall_mem_append.mpr ⟨hus, List.forall_mem_cons.mpr ⟨hitem, hvs⟩⟩
  rw [parse, parseWith_constants (by simp) hitems, List.map_append, List.map_cons]

namespace Machine

section
variable {m : Machine} {data : DataCursor} {c v : Value} {e : RuntimeError} {t : Target}

/-- The next constant goes into a target in the kind of its name. -/
theorem readInto_converted (hread : m.data.read? = some (c, data))
    (hv : convertFor t.name c = .ok v) : readInto t m = store v t { m with data } := by
  rw [readInto_eq, hread]
  simp only [hv]

/-- The next constant is used up even if it is not of that kind. -/
theorem readInto_refused (hread : m.data.read? = some (c, data))
    (he : convertFor t.name c = .error e) : readInto t m = .error e { m with data } := by
  rw [readInto_eq, hread]
  simp only [he]

end

theorem get?_of_store_scalar (v : Value) (name : String) (m : Machine) :
    ∃ m', store v (.scalar name) m = .ok () m' ∧ m'.workspace.vars.get? name = some v :=
  ⟨_, rfl, (Table.get?_insert _ _ _ _).trans (if_pos rfl)⟩

theorem convertFor_number (name : String) (x : Float) :
    convertFor name (.number x) =
      .ok (if isTextName name then .text (Numeral.display x) else .number x) := by
  rw [convertFor]
  split <;> rfl

/-- A word that is no number is refused for one. -/
theorem convertFor_letters {w name : String} (hw : ∀ c ∈ w.toList, c.isAlpha = true)
    (hword : Numeral.ofWord? w.toList = none) (hname : isTextName name = false) :
    convertFor name (.text w) = .error (.notNumeric name w) := by
  rw [convertFor, hname, if_neg Bool.false_ne_true, Text.trim_letters hw,
    Numeral.number?_letters hw, hword]

/-- **Bare words in DATA are texts, but for the names of numbers.** A word of letters in DATA that
is not `inf`, `infinity` or `nan`, in whatever letter case, is the constant text of its letters.
READ stores it as it is in whatever has a text name, and refuses it for a name of a number. Each of
the three words is a number instead, which READ stores under the name of a number, and in its
written form under a text name. -/
theorem bareWord_read {w : String} (hne : w ≠ "") (hw : ∀ c ∈ w.toList, c.isAlpha = true) :
    (∀ us vs : List (List Char), (∀ u ∈ us, Text.IsItem u) → (∀ v ∈ vs, Text.IsItem v) →
        Statement.parse (Text.words ["DATA".toList, Text.commas (us ++ w.toList :: vs)]) =
          .ok (.data (us.map Clause.readConstant ++
            Clause.readConstant w.toList :: vs.map Clause.readConstant))) ∧
      (Numeral.ofWord? w.toList = none →
        Clause.readConstant w.toList = .text w ∧
          ∀ m data, m.data.read? = some (Clause.readConstant w.toList, data) →
            (∀ t : Target, isTextName t.name = true →
              readInto t m = store (.text w) t { m with data }) ∧
            (∀ name, isTextName name = true → ∃ m', readInto (.scalar name) m = .ok () m' ∧
              m'.workspace.vars.get? name = some (.text w)) ∧
            ∀ t : Target, isTextName t.name = false →
              readInto t m = .error (.notNumeric t.name w) { m with data }) ∧
      ∀ x, Numeral.ofWord? w.toList = some x →
        Clause.readConstant w.toList = .number x ∧
          ∀ m data, m.data.read? = some (Clause.readConstant w.toList, data) → ∀ t : Target,
            readInto t m = store (if isTextName t.name then .text (Numeral.display x)
              else .number x) t { m with data } := by
  have hconstant := Clause.readConstant_letters hw
  refine ⟨fun us vs hus hvs => Statement.parse_data_word hne hw hus hvs, fun hword => ?_,
    fun x hword => ?_⟩
  · have htext : Clause.readConstant w.toList = .text w := by rw [hconstant, hword]; rfl
    refine ⟨htext, fun m data hread => ?_⟩
    rw [htext] at hread
    have hstore : ∀ t : Target, isTextName t.name = true →
        readInto t m = store (.text w) t { m with data } :=
      fun t ht => readInto_converted hread (convertFor_text ht w)
    refine ⟨hstore, fun name hname => ?_, fun t ht =>
      readInto_refused hread (convertFor_letters hw hword ht)⟩
    rw [hstore (.scalar name) hname]
    exact get?_of_store_scalar _ _ _
  · have hnumber : Clause.readConstant w.toList = .number x := by rw [hconstant, hword]; rfl
    refine ⟨hnumber, fun m data hread t => ?_⟩
    rw [hnumber] at hread
    exact readInto_converted hread (convertFor_number t.name x)

/-- A machine that is to read two words. -/
def wordsAhead : Machine :=
  { start ⟨[]⟩ (.ofSeed 0) {} with
    data := ⟨[Clause.readConstant "HELLO".toList, Clause.readConstant "Nan".toList], 0⟩ }

/-- One of the words is a text, and is refused for a number; the other one is a number. -/
theorem bareWord_read_wordsAhead :
    (∀ c ∈ "HELLO".toList, c.isAlpha = true) ∧ (∀ c ∈ "Nan".toList, c.isAlpha = true) ∧
      (∃ m', readInto (.scalar "A$") wordsAhead = .ok () m' ∧
        m'.workspace.vars.get? "A$" = some (.text "HELLO")) ∧
      (∃ m', readInto (.scalar "A") wordsAhead = .error (.notNumeric "A" "HELLO") m') ∧
      Clause.readConstant "Nan".toList = .number Double.nanFloat := by
  have hhello : ∀ c ∈ "HELLO".toList, c.isAlpha = true := List.all_eq_true.mp rfl
  have hnan : ∀ c ∈ "Nan".toList, c.isAlpha = true := List.all_eq_true.mp rfl
  obtain ⟨-, hread⟩ := (bareWord_read (by decide) hhello).2.1 rfl
  obtain ⟨-, htext, hnumber⟩ := hread wordsAhead { wordsAhead.data with position := 1 } rfl
  exact ⟨hhello, hnan, htext "A$" rfl, ⟨_, hnumber (.scalar "A") rfl⟩,
    ((bareWord_read (by decide) hnan).2.2 _ rfl).1⟩

end Machine

end ClassicBasic

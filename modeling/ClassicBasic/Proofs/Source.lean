import ClassicBasic.Source
import ClassicBasic.Proofs.Statement.Clauses

/-!
# Loading what was written

A source is written as numbered lines and blank ones, each ended in one of two ways
(`Source.render`). Loading it gives the numbered lines with their places in the source and their
texts as they stand (`Source.load_written`): the lines of the source are those that were written
(`Source.lines_render`), and the first blank of a line is the one behind the number.

A source may also be loaded from bytes, which are collected into lines one by one and decoded line by
line. What is collected is what cutting all bytes behind each line feed gives
(`Source.readLines_eq`). The byte of a line feed stands for nothing but a line feed
(`Text.lineFeed_notMem`), so these are the bytes of the lines of the text (`Text.splitAfter_encode`),
and each of them decodes to its line.
-/

namespace ClassicBasic

namespace Source

open Text (decimal splitAfter)

/-! ## Written sources -/

/-- A line with a number and a text that can be told from what does not count around it. -/
structure NumberedText where
  number : Nat
  text : String
  number_lt : number < UInt32.size
  ne_nil : text.toList ≠ []
  no_lineFeed : '\n' ∉ text.toList
  last : ∀ c ∈ text.toList.getLast?, c ≠ ' ' ∧ c ≠ '\t' ∧ c ≠ '\r'

/-- A line of a source. -/
inductive Entry where
  | blank (spaces : List Char) (h : ∀ c ∈ spaces, c = ' ' ∨ c = '\t')
  | numbered (line : NumberedText)

/-- How a line is ended. -/
inductive LineEnd where
  | lineFeed
  | returnAndLineFeed

def LineEnd.chars : LineEnd → List Char
  | .lineFeed => ['\n']
  | .returnAndLineFeed => ['\r', '\n']

def Entry.render : Entry → List Char
  | .blank spaces _ => spaces
  | .numbered line => decimal line.number ++ ' ' :: line.text.toList

/-- Lines with their ends, and perhaps a last one that is not ended. -/
def render (lines : List (Entry × LineEnd)) (last : Option Entry) : List Char :=
  lines.flatMap (fun l => l.1.render ++ l.2.chars) ++ last.elim [] Entry.render

/-- The numbered lines among `entries`, the first of which is line `sourceLine` of the source. -/
def numberedFrom : (sourceLine : Nat) → List Entry → List SourceLine
  | _, [] => []
  | sourceLine, .blank .. :: entries => numberedFrom (sourceLine + 1) entries
  | sourceLine, .numbered line :: entries =>
    ⟨sourceLine, line.number, line.text⟩ :: numberedFrom (sourceLine + 1) entries

/-! ## Reading a line back -/

/-- The line that an entry stands for. -/
def Entry.line? (sourceLine : Nat) : Entry → Option SourceLine
  | .blank .. => none
  | .numbered line => some ⟨sourceLine, line.number, line.text⟩

theorem numberedFrom_cons (sourceLine : Nat) (e : Entry) (entries : List Entry) :
    numberedFrom sourceLine (e :: entries) =
      (e.line? sourceLine).toList ++ numberedFrom (sourceLine + 1) entries := by
  cases e with
  | blank => rfl
  | numbered => rfl

theorem natBelow?_decimal {n : Nat} (h : n < numberLimit) :
    Numeral.natBelow? numberLimit (decimal n) = some n := by
  have hbody : Numeral.natBelow? numberLimit (decimal n) =
      (Numeral.digits? (decimal n)).filter (· < numberLimit) := by
    unfold Numeral.natBelow?
    split
    · rename_i heq
      exact absurd (Text.isDigit_decimal n '+' (by simp [heq])) (by decide)
    · rfl
  rw [hbody, Text.digits?_decimal, Option.filter_some, if_pos (by simpa using h)]

theorem not_isBlank_of_isDigit {c : Char} (h : c.isDigit = true) : Text.isBlank c = false :=
  Text.not_isBlank_of_isWordChar (by simp [Text.isWordChar, Char.isAlphanum, h])

theorem isBlank_of_isEdge {c : Char} (h : isEdge c = true) : Text.isBlank c = true := by
  simp only [isEdge, Bool.or_eq_true, beq_iff_eq] at h
  rcases h with ((rfl | rfl) | rfl) | rfl <;> rfl

theorem not_isEdge_of_isDigit {c : Char} (h : c.isDigit = true) : isEdge c = false := by
  rw [← Bool.not_eq_true]
  intro hedge
  have hblank := isBlank_of_isEdge hedge
  rw [not_isBlank_of_isDigit h] at hblank
  cases hblank

/-- What a numbered line ends with counts. -/
theorem NumberedText.last_counts (line : NumberedText) :
    ∀ c ∈ (Entry.numbered line).render.getLast?, isEdge c = false := by
  intro c hc
  rw [Entry.render, List.append_cons, List.getLast?_append_of_ne_nil _ line.ne_nil] at hc
  obtain ⟨hspace, htab, hreturn⟩ := line.last c hc
  have hfeed : c ≠ '\n' := by
    rintro rfl
    exact line.no_lineFeed (List.mem_of_getLast? hc)
  simp [isEdge, hspace, htab, hreturn, hfeed]

/-- Neither end of a numbered line is taken off. -/
theorem NumberedText.trimBy_render (line : NumberedText) :
    Text.trimBy isEdge (Entry.numbered line).render = (Entry.numbered line).render := by
  have hfirst : ∀ c ∈ (Entry.numbered line).render.head?, isEdge c = false := by
    intro c hc
    rw [Entry.render, List.head?_append_of_ne_nil _ (Text.decimal_ne_nil _)] at hc
    exact not_isEdge_of_isDigit (Text.isDigit_decimal _ c (List.mem_of_mem_head? hc))
  have htrim := Text.trimBy_between (by rfl : ([] : List Char).all isEdge = true) hfirst
    line.last_counts (by rfl : ([] : List Char).all isEdge = true)
  rwa [List.nil_append, List.append_nil] at htrim

/-- A written line is read back. -/
theorem parseLine_render (sourceLine : Nat) (e : Entry) :
    parseLine sourceLine e.render = .ok (e.line? sourceLine) := by
  cases e with
  | blank spaces h =>
    have hspaces : spaces.all isEdge = true := by
      rw [List.all_eq_true]
      intro c hc
      rcases h c hc with rfl | rfl <;> rfl
    have hblank : Text.trimBy isEdge (spaces ++ [] ++ []) = [] :=
      Text.trimBy_between hspaces (by simp) (by simp) (by rfl)
    rw [List.append_nil, List.append_nil] at hblank
    simp [parseLine, Entry.render, Entry.line?, hblank]
  | numbered line =>
    have hne : (Entry.numbered line).render.isEmpty = false := by
      simp [Entry.render, Text.decimal_ne_nil]
    have hcut : Text.cutAt? Text.isBlank (Entry.numbered line).render =
        some (decimal line.number, line.text.toList) :=
      Text.cutAt?_append rfl fun c hc => not_isBlank_of_isDigit (Text.isDigit_decimal _ c hc)
    simp [parseLine, line.trimBy_render, hne, hcut, natBelow?_decimal line.number_lt, Entry.line?]

/-- Written lines are read back, one after the other. -/
theorem parseLines_render (sourceLine : Nat) (entries : List Entry) :
    parseLines .ok sourceLine (entries.map Entry.render) =
      .ok (numberedFrom sourceLine entries) := by
  induction entries generalizing sourceLine with
  | nil => rfl
  | cons e entries ih =>
    simp only [List.map_cons, parseLines, bind, Except.bind, parseLine_render, ih,
      numberedFrom_cons]
    rfl

/-! ## Reading a source back -/

theorem Entry.no_lineFeed (e : Entry) : ∀ c ∈ e.render, (c == '\n') = false := by
  intro c hc
  rw [beq_eq_false_iff_ne]
  rintro rfl
  cases e with
  | blank spaces h => exact absurd (h _ hc) (by decide)
  | numbered line =>
    simp only [Entry.render, List.mem_append, List.mem_cons] at hc
    rcases hc with hc | hc | hc
    · exact absurd (Text.isDigit_decimal _ _ hc) (by decide)
    · exact absurd hc (by decide)
    · exact line.no_lineFeed hc

/-- A line without an end is all of itself. -/
theorem dropEnd_of_open {cs : List Char} (h : ∀ c ∈ cs, (c == '\n') = false) : dropEnd cs = cs := by
  have hlast : ∀ rest, cs.reverse ≠ '\n' :: rest := by
    intro rest heq
    have hmem : '\n' ∈ cs := List.mem_reverse.mp (heq ▸ List.mem_cons_self)
    cases h _ hmem
  unfold dropEnd
  split
  · exact absurd ‹_› (hlast _)
  · exact absurd ‹_› (hlast _)
  · rfl

/-- The end of a line is taken off it, and no more. -/
theorem dropEnd_ended (e : Entry) (lineEnd : LineEnd) :
    dropEnd (e.render ++ lineEnd.chars) = e.render := by
  cases lineEnd with
  | returnAndLineFeed => simp [dropEnd, LineEnd.chars]
  | lineFeed =>
    have hreturn : ∀ rest, e.render.reverse ≠ '\r' :: rest := by
      intro rest heq
      have hlast : e.render.getLast? = some '\r' := by rw [List.getLast?_eq_head?_reverse, heq]; rfl
      cases e with
      | blank spaces h => exact absurd (h _ (List.mem_of_getLast? hlast)) (by decide)
      | numbered line => exact absurd (line.last_counts _ hlast) (by decide)
    have hreversed : (e.render ++ LineEnd.lineFeed.chars).reverse = '\n' :: e.render.reverse := by
      simp [LineEnd.chars]
    rw [dropEnd, hreversed]
    split
    · rename_i heq
      exact absurd (List.cons.inj heq).2 (hreturn _)
    · rename_i heq
      rw [← (List.cons.inj heq).2, List.reverse_reverse]
    · rename_i hnone
      exact absurd rfl (hnone _)

/-- A line reaches to its end. -/
theorem splitAfter_line (e : Entry) (lineEnd : LineEnd) (cs : List Char) :
    splitAfter (· == '\n') (e.render ++ lineEnd.chars ++ cs) =
      (e.render ++ lineEnd.chars) :: splitAfter (· == '\n') cs := by
  cases lineEnd with
  | lineFeed =>
    have hsplit := Text.splitAfter_separator e.no_lineFeed (beq_self_eq_true '\n') cs
    simpa [LineEnd.chars] using hsplit
  | returnAndLineFeed =>
    have hopen : ∀ c ∈ e.render ++ ['\r'], (c == '\n') = false :=
      List.forall_mem_append.mpr ⟨e.no_lineFeed, List.forall_mem_singleton.mpr rfl⟩
    have hsplit := Text.splitAfter_separator hopen (beq_self_eq_true '\n') cs
    simpa [LineEnd.chars] using hsplit

/-- What is behind the last line end is a line unless it is empty. -/
def lastLine (last : Option Entry) : List Entry :=
  (last.filter fun e => !e.render.isEmpty).toList

theorem lines_lastLine (last : Option Entry) :
    lines (last.elim [] Entry.render) = (lastLine last).map Entry.render := by
  cases last with
  | none => rfl
  | some e =>
    by_cases hne : e.render = []
    · simp [lastLine, Option.filter_some, hne, lines, splitAfter]
    · simp [lastLine, Option.filter_some, hne, lines, Text.splitAfter_open hne e.no_lineFeed,
        dropEnd_of_open e.no_lineFeed]

/-- The lines of a written source are those that were written. -/
theorem lines_render (ls : List (Entry × LineEnd)) (last : Option Entry) :
    lines (render ls last) = (ls.map Prod.fst ++ lastLine last).map Entry.render := by
  induction ls with
  | nil => exact lines_lastLine last
  | cons l ls ih =>
    obtain ⟨e, lineEnd⟩ := l
    have hrender : render ((e, lineEnd) :: ls) last =
        e.render ++ lineEnd.chars ++ render ls last := by
      simp only [render, List.flatMap_cons, List.append_assoc]
    rw [hrender, lines, splitAfter_line, List.map_cons, dropEnd_ended, ← lines, ih]
    rfl

/-- A line that is left out because it is empty is no numbered one. -/
theorem numberedFrom_lastLine (sourceLine : Nat) (entries : List Entry) (last : Option Entry) :
    numberedFrom sourceLine (entries ++ lastLine last) =
      numberedFrom sourceLine (entries ++ last.toList) := by
  induction entries generalizing sourceLine with
  | nil =>
    rcases last with _ | ⟨spaces, h⟩ | line
    · rfl
    · cases spaces <;> rfl
    · simp [lastLine, Option.filter_some, Entry.render]
  | cons e entries ih =>
    rw [List.cons_append, List.cons_append, numberedFrom_cons, ih, numberedFrom_cons]

end Source

/-! ## Bytes -/

namespace Text

/-- The bytes of a text. -/
def encode (cs : List Char) : List UInt8 := cs.flatMap String.utf8EncodeChar

/-- Only a line feed has the byte of a line feed in it: other characters of one byte have another
one, and all bytes of longer ones are at least 128. -/
theorem lineFeed_notMem {c : Char} (h : c ≠ '\n') :
    ∀ b ∈ String.utf8EncodeChar c, (b == '\n'.toUInt8) = false := by
  intro b hb
  rw [beq_eq_false_iff_ne, ne_eq, ← UInt8.toNat_inj]
  have hfeed : '\n'.toUInt8.toNat = 10 := rfl
  have hc : c.val.toNat ≠ 10 := fun hval => h (Char.toNat_inj.mp hval)
  rw [hfeed]
  unfold String.utf8EncodeChar at hb
  simp only at hb
  split at hb
  · rw [List.mem_singleton.mp hb, UInt8.toNat_ofNat']
    omega
  split at hb
  · simp only [List.mem_cons, List.not_mem_nil, or_false] at hb
    rcases hb with rfl | rfl <;> rw [UInt8.toNat_ofNat'] <;> omega
  split at hb
  · simp only [List.mem_cons, List.not_mem_nil, or_false] at hb
    rcases hb with rfl | rfl | rfl <;> rw [UInt8.toNat_ofNat'] <;> omega
  · simp only [List.mem_cons, List.not_mem_nil, or_false] at hb
    rcases hb with rfl | rfl | rfl | rfl <;> rw [UInt8.toNat_ofNat'] <;> omega

theorem splitAfter_encode (cs : List Char) :
    splitAfter (· == '\n'.toUInt8) (encode cs) = (splitAfter (· == '\n') cs).map encode := by
  induction cs with
  | nil => rfl
  | cons c cs ih =>
    have hcons : encode (c :: cs) = String.utf8EncodeChar c ++ encode cs := List.flatMap_cons
    by_cases hc : c = '\n'
    · subst hc
      have hfeed : String.utf8EncodeChar '\n' = ['\n'.toUInt8] := rfl
      rw [hcons, hfeed, List.singleton_append, splitAfter, splitAfter, ih]
      rfl
    · have hne : (c == '\n') = false := by simpa using hc
      rw [hcons]
      cases hsplit : splitAfter (· == '\n') cs with
      | nil =>
        rw [hsplit, List.map_nil] at ih
        rw [splitAfter_append_nil String.utf8EncodeChar_ne_nil (lineFeed_notMem hc) ih]
        simp [splitAfter, hne, hsplit, encode]
      | cons u us =>
        rw [hsplit, List.map_cons] at ih
        rw [splitAfter_append (lineFeed_notMem hc) ih]
        simp [splitAfter, hne, hsplit, encode]

end Text

namespace Source

open Text (splitAfter encode)

theorem toUTF8_ofList (cs : List Char) :
    (String.ofList cs).toUTF8 = ⟨(encode cs).toArray⟩ := by
  refine ByteArray.ext ?_
  rw [String.toUTF8_eq_toByteArray, String.toByteArray_ofList, List.utf8Encode,
    List.data_toByteArray]
  rfl

theorem decode_encode (path : String) (cs : List Char) : decode path (encode cs) = .ok cs := by
  have hdecoded : String.fromUTF8? ⟨(encode cs).toArray⟩ = some (String.ofList cs) := by
    rw [← toUTF8_ofList, String.fromUTF8?, String.toUTF8_eq_toByteArray,
      dif_pos (String.ofList cs).isValidUTF8]
    rfl
  simp only [decode, hdecoded, String.toList_ofList]

/-- Bytes that are collected one by one make the lines that all of them cut behind each line feed
make. -/
theorem readLines_eq {begun : List UInt8} (h : ∀ b ∈ begun, (b == '\n'.toUInt8) = false)
    (bytes : List UInt8) :
    readLines begun bytes = splitAfter (· == '\n'.toUInt8) (begun.reverse ++ bytes) := by
  have hbegun : ∀ b ∈ begun.reverse, (b == '\n'.toUInt8) = false :=
    fun b hb => h b (List.mem_reverse.mp hb)
  induction bytes generalizing begun with
  | nil =>
    rw [readLines, List.append_nil]
    split
    · rename_i hnil
      rw [List.isEmpty_iff.mp hnil]
      rfl
    · rename_i hne
      exact (Text.splitAfter_open (by simpa using hne) hbegun).symm
  | cons b bytes ih =>
    rw [readLines]
    split
    · rename_i hfeed
      rw [Text.splitAfter_separator hbegun hfeed, List.reverse_cons, ih (by simp) (by simp)]
      rfl
    · rename_i hfeed
      have hb : (b == '\n'.toUInt8) = false := by simpa using hfeed
      have hmore : ∀ a ∈ b :: begun, (a == '\n'.toUInt8) = false :=
        List.forall_mem_cons.mpr ⟨hb, h⟩
      rw [ih hmore fun a ha => hmore a (List.mem_reverse.mp ha), List.reverse_cons,
        List.append_assoc, List.singleton_append]

theorem parseLines_decodeLine (path : String) (sourceLine : Nat) (ls : List (List Char)) :
    parseLines (decodeLine path) sourceLine (ls.map encode) =
      parseLines .ok sourceLine (ls.map dropEnd) := by
  induction ls generalizing sourceLine with
  | nil => rfl
  | cons cs ls ih =>
    have hline : decodeLine path (encode cs) = .ok (dropEnd cs) := by
      rw [decodeLine, decode_encode]
      rfl
    simp only [List.map_cons, parseLines, hline, ih]

/-- Bytes that are a text are loaded as the text. -/
theorem loadBytes_encode (path : String) (cs : List Char) :
    loadBytes path (encode cs) = load cs := by
  rw [loadBytes, readLines_eq (by simp), List.reverse_nil, List.nil_append, Text.splitAfter_encode,
    parseLines_decodeLine, load, lines]

/-- **Loading undoes writing, from a text and from its bytes.** -/
theorem load_written :
    (∀ (lines : List (Entry × LineEnd)) (last : Option Entry),
      load (render lines last) = .ok (numberedFrom 1 (lines.map Prod.fst ++ last.toList))) ∧
    ∀ (path : String) (source : String),
      loadBytes path source.toUTF8.data.toList = load source.toList := by
  refine ⟨fun ls last => ?_, fun path source => ?_⟩
  · rw [load, lines_render, parseLines_render, numberedFrom_lastLine]
  have hbytes := toUTF8_ofList source.toList
  rw [String.ofList_toList] at hbytes
  rw [hbytes, loadBytes_encode]

end Source

end ClassicBasic

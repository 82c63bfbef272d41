import ClassicBasic.Proofs.Expr.Scanning
import ClassicBasic.Expr.Parser

/-!
# The lexemes of a text

`Lexed` says what lexemes a text consists of. `Lexeme.scan` finds them: if the lexemes of a text can
be read at all, they are what the scan gives (`Lexed.scan_eq`), and if what the scan gives can be
read, the text consists of it (`Lexed.of_scan`).
-/

namespace ClassicBasic

/-- `Lexed before ls cs`: the text `cs`, with `before` in front of it, consists of the lexemes `ls`
and blanks. -/
inductive Lexed : Option Char → List Lexeme → List Char → Prop where
  | nil {before : Option Char} : Lexed before [] []
  | blank {before : Option Char} {c : Char} {ls : List Lexeme} {cs : List Char} :
    Text.isBlank c = true → Lexed (some c) ls cs → Lexed before ls (c :: cs)
  | symbol {before : Option Char} {s : Symbol} {ls : List Lexeme} {cs : List Char} :
    (Token.symbol s).Apart before cs.head? → Lexed (Token.symbol s).spelling.getLast? ls cs →
    Lexed before (.symbol s :: ls) ((Token.symbol s).spelling ++ cs)
  | operand {before : Option Char} {t : Token} {ls : List Lexeme} {cs : List Char} :
    t.isAtom = true → t.Valid → Lexed t.spelling.getLast? ls cs →
    Lexed before (.operand t.spelling :: ls) (t.spelling ++ cs)
  | parens {before : Option Char} {name ws inner : List Char} {ls : List Lexeme} {cs : List Char} :
    name = [] ∨ (Token.name name).Valid → Text.allBlank ws = true →
    Text.closing? ('(' :: inner ++ ')' :: cs) = some ('(' :: inner, cs) →
    Lexed (some ')') ls cs →
    Lexed before (.parens name inner :: ls) (name ++ (ws ++ ('(' :: inner ++ ')' :: cs)))

/-! ## Reading lexemes -/

namespace Fragment

/-- The fragment followed by a lexeme. -/
def next (parse : List Char → Except SyntaxError Tree) (source : List Char) (f : Fragment) :
    Lexeme → Except SyntaxError Fragment
  | .fault e => .error e
  | .symbol s => f.addSymbol s
  | .operand cs => do f.addOperand source (← Tree.literal cs)
  | .parens name inner => do f.addOperand source (← Tree.parens parse name inner)

/-- The lexemes `ls` take the fragment `f` to the fragment `g`. -/
def Reads (parse : List Char → Except SyntaxError Tree) (source : List Char) (f : Fragment)
    (ls : List Lexeme) (g : Fragment) : Prop :=
  ls.foldlM (next parse source) f = .ok g

variable {parse : List Char → Except SyntaxError Tree} {source : List Char} {f g : Fragment}

theorem reads_nil : Reads parse source f [] g ↔ f = g := by
  simp [Reads, pure, Except.pure]

theorem reads_cons {l : Lexeme} {ls : List Lexeme} :
    Reads parse source f (l :: ls) g ↔
      ∃ m, next parse source f l = .ok m ∧ Reads parse source m ls g := by
  rw [Reads, List.foldlM_cons, bind_eq_ok]
  rfl

theorem reads_append {ks ls : List Lexeme} :
    Reads parse source f (ks ++ ls) g ↔
      ∃ m, Reads parse source f ks m ∧ Reads parse source m ls g := by
  rw [Reads, List.foldlM_append, bind_eq_ok]
  rfl

def isComplete : Fragment → Bool
  | .complete _ => true
  | _ => false

/-- An operand completes a fragment that is not complete. -/
theorem addOperand_isComplete {operand : Tree} (h : f.addOperand source operand = .ok g) :
    f.isComplete = false ∧ g.isComplete = true := by
  cases f with
  | signs negative =>
    obtain ⟨u, -, h⟩ := bind_eq_ok.mp h
    cases h
    exact ⟨rfl, rfl⟩
  | complete tree => cases h
  | dangling tree s negative =>
    obtain ⟨u, -, h⟩ := bind_eq_ok.mp h
    obtain ⟨v, -, h⟩ := bind_eq_ok.mp h
    cases h
    exact ⟨rfl, rfl⟩

theorem addSign_eq_ok {negative negative' : Bool} {s : Symbol} :
    addSign negative s = .ok negative' ↔
      s = .minus ∧ negative' = !negative ∨ s = .operator .plus ∧ negative' = negative := by
  unfold addSign
  split
  · simp [eq_comm]
  · simp [eq_comm]
  · rename_i hminus hplus
    refine ⟨nofun, ?_⟩
    rintro (⟨hs, -⟩ | ⟨hs, -⟩)
    · exact (hminus hs).elim
    · exact (hplus hs).elim

/-- No operator but a sign follows an operator. -/
theorem addSymbol_isComplete {s : Symbol} (h : f.addSymbol s = .ok g) :
    g.isComplete = false ∧ (f.isComplete = false → s = .operator .plus ∨ s = .minus) := by
  have hsign {negative negative' : Bool} (h : addSign negative s = .ok negative') :
      s = .operator .plus ∨ s = .minus := by
    rcases addSign_eq_ok.mp h with ⟨hs, -⟩ | ⟨hs, -⟩
    · exact .inr hs
    · exact .inl hs
  cases f with
  | signs negative =>
    obtain ⟨_, hs, h⟩ := bind_eq_ok.mp h
    cases h
    exact ⟨rfl, fun _ => hsign hs⟩
  | complete tree =>
    cases h
    exact ⟨rfl, nofun⟩
  | dangling tree s' negative =>
    obtain ⟨_, hs, h⟩ := bind_eq_ok.mp h
    cases h
    exact ⟨rfl, fun _ => hsign hs⟩

theorem next_operand {w : List Char} (h : next parse source f (.operand w) = .ok g) :
    f.isComplete = false ∧ g.isComplete = true := by
  obtain ⟨_, -, h⟩ := bind_eq_ok.mp h
  exact addOperand_isComplete h

theorem next_parens {name inner : List Char}
    (h : next parse source f (.parens name inner) = .ok g) :
    f.isComplete = false ∧ g.isComplete = true := by
  obtain ⟨_, -, h⟩ := bind_eq_ok.mp h
  exact addOperand_isComplete h

theorem finish_eq_ok {tree : Tree} : f.finish = .ok tree ↔ f = .complete tree := by
  unfold finish
  split <;> simp

end Fragment

namespace Tree

variable {parse : List Char → Except SyntaxError Tree} {source : List Char} {f : Fragment}

theorem build_cons (l : Lexeme) (ls : List Lexeme) :
    build parse source f (l :: ls) =
      f.next parse source l >>= fun g => build parse source g ls := by
  cases l with
  | fault e => rfl
  | symbol s => rfl
  | operand cs => simp only [build, Fragment.next, bind_assoc]
  | parens name inner => simp only [build, Fragment.next, bind_assoc]

/-- An expression is built if the lexemes take nothing to a complete fragment. -/
theorem build_eq_ok {ls : List Lexeme} {tree : Tree} :
    build parse source f ls = .ok tree ↔ f.Reads parse source ls (.complete tree) := by
  induction ls generalizing f with
  | nil => rw [build, Fragment.finish_eq_ok, Fragment.reads_nil]
  | cons l ls ih => simp only [build_cons, bind_eq_ok, Fragment.reads_cons, ih]

end Tree

/-! ## The scan finds the lexemes -/

namespace Lexed

open Lexeme (Boundary)

variable {parse : List Char → Except SyntaxError Tree} {source : List Char} {f g : Fragment}
variable {before : Option Char} {ls : List Lexeme} {cs : List Char}

/-- Behind an operand no word goes on. -/
theorem boundary (h : Lexed before ls cs) (hr : f.Reads parse source ls g)
    (hf : f.isComplete = true) : Boundary before cs := by
  cases h with
  | nil => nofun
  | blank hblank _ =>
    rintro c - - d ⟨⟩
    exact Text.not_isWordChar_of_isBlank hblank
  | symbol hapart _ => exact Lexeme.boundary_before hapart
  | operand _ _ _ =>
    obtain ⟨m, hm, -⟩ := Fragment.reads_cons.mp hr
    rw [(Fragment.next_operand hm).1] at hf
    cases hf
  | parens _ _ _ _ =>
    obtain ⟨m, hm, -⟩ := Fragment.reads_cons.mp hr
    rw [(Fragment.next_parens hm).1] at hf
    cases hf

/-- Behind an operator no operator goes on. -/
theorem head?_ne (h : Lexed before ls cs) (hr : f.Reads parse source ls g)
    (hf : f.isComplete = false) : ∀ c ∈ cs.head?, c ≠ '=' ∧ c ≠ '>' := by
  intro c hc
  have hword (h : Text.isWordChar c = true) : c ≠ '=' ∧ c ≠ '>' := by
    constructor <;> rintro rfl <;> exact absurd h (by decide)
  cases h with
  | nil => cases hc
  | blank hblank _ =>
    cases hc
    constructor <;> rintro rfl <;> exact absurd hblank (by decide)
  | @symbol _ s _ cs hapart _ =>
    obtain ⟨m, hm, -⟩ := Fragment.reads_cons.mp hr
    rcases (Fragment.addSymbol_isComplete hm).2 hf with rfl | rfl
    · cases hc
      decide
    · cases hc
      decide
  | @operand _ t _ cs ht hv _ =>
    rw [List.head?_append_of_ne_nil _ (Token.spelling_ne_nil hv)] at hc
    rcases Token.head?_atom ht hv c hc with h | rfl | h
    · constructor <;> rintro rfl <;> exact absurd h (by decide)
    · decide
    · exact hword h
  | @parens _ name ws inner _ cs hname hws _ _ =>
    rcases hname with rfl | hv
    · cases ws with
      | nil =>
        cases hc
        decide
      | cons d ws =>
        cases hc
        have hblank : Text.isBlank c = true := List.all_eq_true.mp hws c (by simp)
        constructor <;> rintro rfl <;> exact absurd hblank (by decide)
    · have hne : name ≠ [] := Token.spelling_ne_nil hv
      rw [List.head?_append_of_ne_nil _ hne] at hc
      exact hword (Text.isWordChar_of_isName hv.1 c (List.mem_of_mem_head? hc))

theorem scan_eq (h : Lexed before ls cs) (hr : f.Reads parse source ls g) {token : List Char}
    (htoken : Text.allBlank token = true ∨
      Lexeme.inExponent token = false ∧ f.isComplete = true) (offset : Nat) :
    Lexeme.scan token before offset 0 cs = Lexeme.flush token ++ ls := by
  have hexp {token : List Char} {f : Fragment} (htoken : Text.allBlank token = true ∨
      Lexeme.inExponent token = false ∧ f.isComplete = true) :
      Lexeme.inExponent token = false :=
    htoken.elim Lexeme.inExponent_of_allBlank And.left
  induction h generalizing f token offset with
  | nil => simp [Lexeme.scan]
  | @blank before c ls cs hc _ ih =>
    obtain ⟨offset', hscan⟩ : ∃ offset', Lexeme.scan token before offset 0 ([c] ++ cs) =
        Lexeme.scan (token ++ [c]) (some c) offset' 0 cs :=
      Lexeme.scan_blanks (by simp [Text.allBlank, hc]) offset
    rw [← List.singleton_append, hscan, ih hr ?_, Lexeme.flush_append_blank hc]
    rcases htoken with htoken | ⟨-, hf⟩
    · exact .inl (by simpa [Text.allBlank, hc] using htoken)
    · exact .inr ⟨Lexeme.inExponent_append_blank hc, hf⟩
  | @symbol before s ls cs hapart h ih =>
    obtain ⟨m, hm, hr⟩ := Fragment.reads_cons.mp hr
    have hrest := h.head?_ne hr (Fragment.addSymbol_isComplete hm).1
    obtain ⟨offset', hscan⟩ :=
      Lexeme.scan_symbol (Lexeme.symbolAt?_spelling (hexp htoken) hapart hrest) offset
    rw [hscan, ih hr (.inl rfl)]
    rfl
  | @operand before t ls cs ht hv h ih =>
    obtain ⟨m, hm, hr⟩ := Fragment.reads_cons.mp hr
    obtain ⟨hf, hcomplete⟩ := Fragment.next_operand hm
    have hblank : Text.allBlank token = true := htoken.resolve_right (by simp [hf])
    obtain ⟨offset', hscan⟩ : ∃ offset', Lexeme.scan token before offset 0 (t.spelling ++ cs) = _ :=
      Lexeme.scan_atom ht hv hblank (h.boundary hr hcomplete) offset
    rw [hscan, ih hr (.inr ⟨Lexeme.inExponent_atom ht hv hblank, hcomplete⟩),
      Lexeme.flush_atom ht hv hblank, Lexeme.flush_of_allBlank hblank]
    rfl
  | @parens before name ws inner ls cs hname hws hclosing h ih =>
    obtain ⟨m, hm, hr⟩ := Fragment.reads_cons.mp hr
    obtain ⟨hf, -⟩ := Fragment.next_parens hm
    have hblank : Text.allBlank token = true := htoken.resolve_right (by simp [hf])
    have htrimmed : Text.Trimmed name := by
      rcases hname with rfl | hv
      · simp [Text.Trimmed]
      · exact Token.trimmed rfl hv
    obtain ⟨offset₁, hscan₁⟩ : ∃ offset', Lexeme.scan token before offset 0
        (name ++ (ws ++ ('(' :: inner ++ ')' :: cs))) =
        Lexeme.scan (token ++ name) (name.getLast?.or before) offset' 0
          (ws ++ ('(' :: inner ++ ')' :: cs)) := by
      rcases hname with rfl | hv
      · exact ⟨offset, by simp⟩
      · refine Lexeme.scan_name hv (fun d hd => ?_) offset
        cases ws with
        | nil =>
          cases hd
          rfl
        | cons e ws =>
          cases hd
          exact Text.not_isWordChar_of_isBlank (List.all_eq_true.mp hws d (by simp))
    obtain ⟨offset₂, hscan₂⟩ : ∃ offset', Lexeme.scan (token ++ name) (name.getLast?.or before)
        offset₁ 0 (ws ++ ('(' :: inner ++ ')' :: cs)) = _ := Lexeme.scan_blanks hws offset₁
    obtain ⟨offset₃, hscan₃⟩ : ∃ offset', Lexeme.scan (token ++ name ++ ws)
        (ws.getLast?.or (name.getLast?.or before)) offset₂ 0 ('(' :: inner ++ ')' :: cs) = _ :=
      Lexeme.scan_parens hclosing offset₂
    rw [hscan₁, hscan₂, hscan₃, ih hr (.inl rfl), Text.trim_between hblank htrimmed hws,
      Lexeme.flush_of_allBlank hblank]
    rfl

end Lexed

/-! ## Atoms -/

/-- An operand text that can be read is an atom, unless it is a word operator. -/
theorem Tree.literal_token {w : List Char} {tree : Tree} (h : literal w = .ok tree)
    (hw : w ≠ ['A', 'N', 'D'] ∧ w ≠ ['O', 'R']) :
    ∃ t : Token, t.spelling = w ∧ t.isAtom = true ∧ t.Valid := by
  unfold literal at h
  split at h
  · rename_i body
    simp only [Bool.and_eq_true, decide_eq_true_eq, Bool.not_eq_true'] at h
    split at h
    · rename_i hbody
      cases h
      obtain ⟨init, rfl⟩ := List.getLast?_eq_some_iff.mp hbody.1
      exact ⟨.text init, rfl, rfl, by simpa [Token.Valid] using hbody.2⟩
    · cases h
  · rename_i c rest _
    split at h
    · rename_i hc
      split at h
      · rename_i x hx
        cases h
        exact ⟨.number (c :: rest), rfl, rfl, ⟨⟨c, rfl, hc⟩, by simp [hx]⟩⟩
      · cases h
    · split at h
      · rename_i hname
        cases h
        exact ⟨.name (c :: rest), rfl, rfl, hname, hw⟩
      · split at h <;> cases h
  · cases h

/-! ## The text consists of what the scan gives -/

/-- No word operator stands at the first character of the operand text `token`, which has `before`
in front of it and `cs` behind it. -/
def Unkeyed (before : Option Char) (token cs : List Char) : Prop :=
  ∀ u v, token = u ++ v → Text.allBlank u = true → v ≠ [] →
    ∀ s, (Token.symbol s).isKeyword = true →
      Text.occursAt (Token.symbol s).spelling (u.getLast?.or before) (v ++ cs) = false

namespace Unkeyed

open Lexeme (Boundary)

variable {before : Option Char} {token cs w : List Char}

theorem nil : Unkeyed before [] cs := by
  intro u v heq _ hne
  exact absurd (List.nil_eq_append_iff.mp heq).2 hne

/-- An operand text goes on with a character, or with a quoted text. -/
theorem append (h : Unkeyed before token (w ++ cs))
    (hw : w.tail = [] ∨ ∀ c ∈ w.head?, Text.isBlank c = false)
    (hkey : ∀ s, (Token.symbol s).isKeyword = true →
      Text.occursAt (Token.symbol s).spelling (token.getLast?.or before) (w ++ cs) = false) :
    Unkeyed before (token ++ w) cs := by
  intro u v heq hu hne s hs
  rcases List.append_eq_append_iff.mp heq with ⟨a, rfl, rfl⟩ | ⟨a, rfl, rfl⟩
  · -- The first character would stand behind the start of `w`.
    cases a with
    | nil => simpa using hkey s hs
    | cons c a =>
      rcases hw with hw | hw
      · simp only [List.cons_append, List.tail_cons, List.append_eq_nil_iff] at hw
        exact absurd hw.2 hne
      · have hc : Text.isBlank c = true := List.all_eq_true.mp hu c (by simp)
        rw [hw c rfl] at hc
        cases hc
  · cases a with
    | nil => simpa using hkey s hs
    | cons c a => simpa using h u (c :: a) rfl hu (by simp) s hs

/-- An operand text between other tokens is not a word operator. -/
theorem trim_ne (h : Unkeyed before token cs) (hstart : Boundary before (token ++ cs))
    (hend : Boundary (token.getLast?.or before) cs) {s : Symbol}
    (hs : (Token.symbol s).isKeyword = true) : Text.trim token ≠ (Token.symbol s).spelling := by
  intro htrim
  obtain ⟨pre, post, htoken, hpre, -, hpost⟩ := Text.exists_trim token
  rw [htrim, List.append_assoc] at htoken
  have hne : (Token.symbol s).spelling ≠ [] := Token.spelling_ne_nil (t := .symbol s) trivial
  have hwords : ∀ c ∈ (Token.symbol s).spelling, Text.isWordChar c = true := by
    refine List.all_eq_true.mp ?_
    rcases Lexeme.keyword_spelling hs with h | h <;> rw [h] <;> decide
  have hapart : (Token.symbol s).Apart (pre.getLast?.or before) (post ++ cs).head? := by
    refine fun _ => ⟨fun c hc => ?_, fun c hc => ?_⟩
    · rcases List.eq_nil_or_concat pre with rfl | ⟨init, d, rfl⟩
      · obtain ⟨d, u, hspelling⟩ := List.exists_cons_of_ne_nil hne
        have hd : d ∈ (token ++ cs).head? := by
          rw [htoken, hspelling]
          rfl
        rw [Bool.eq_false_iff]
        intro hword
        have hnot := hstart c hc hword d hd
        rw [hwords d (by simp [hspelling])] at hnot
        cases hnot
      · rw [List.concat_eq_append, List.getLast?_concat] at hc
        cases hc
        exact Text.not_isWordChar_of_isBlank (List.all_eq_true.mp hpre c (by simp))
    · cases post with
      | nil =>
        obtain ⟨d, hd⟩ := Option.isSome_iff_exists.mp (List.getLast?_isSome.mpr hne)
        have hlast : token.getLast?.or before = some d := by
          rw [htoken, List.append_nil, getLast?_append_or, hd, Option.some_or]
        exact hend d hlast (hwords d (List.mem_of_getLast? hd)) c hc
      | cons d post =>
        cases hc
        exact Text.not_isWordChar_of_isBlank (List.all_eq_true.mp hpost c (by simp))
  have hfalse := h pre _ htoken hpre (by simp [hne]) s hs
  rw [List.append_assoc, Lexeme.occursAt_spelling.mpr ⟨_, rfl, hapart⟩] at hfalse
  cases hfalse

end Unkeyed

namespace Lexed

open Lexeme (Boundary)

variable {parse : List Char → Except SyntaxError Tree} {source : List Char} {f g : Fragment}
variable {before : Option Char} {ls : List Lexeme} {token cs ws : List Char}

theorem blanks (hws : Text.allBlank ws = true) (h : Lexed (ws.getLast?.or before) ls cs) :
    Lexed before ls (ws ++ cs) := by
  induction ws generalizing before with
  | nil => simpa using h
  | cons c ws ih =>
    simp only [Text.allBlank, List.all_cons, Bool.and_eq_true] at hws
    rw [getLast?_cons_or] at h
    exact .blank hws.1 (ih hws.2 h)

/-- The word operators are not operand texts. -/
theorem trim_token_ne (hkey : Unkeyed before token cs) (hstart : Boundary before (token ++ cs))
    (hend : Boundary (token.getLast?.or before) cs) :
    Text.trim token ≠ ['A', 'N', 'D'] ∧ Text.trim token ≠ ['O', 'R'] :=
  ⟨hkey.trim_ne hstart hend (s := .operator .and) rfl,
    hkey.trim_ne hstart hend (s := .operator .or) rfl⟩

/-- A collected operand text that can be read is an operand. -/
theorem flush (hkey : Unkeyed before token cs) (hstart : Boundary before (token ++ cs))
    (hend : Boundary (token.getLast?.or before) cs)
    (hr : f.Reads parse source (Lexeme.flush token) g)
    (h : Lexed (token.getLast?.or before) ls cs) :
    Lexed before (Lexeme.flush token ++ ls) (token ++ cs) := by
  by_cases hblank : Text.trim token = []
  · have hflush : Lexeme.flush token = [] := Lexeme.flush_of_allBlank (Text.trim_eq_nil.mp hblank)
    rw [hflush]
    exact blanks (Text.trim_eq_nil.mp hblank) h
  · have hflush : Lexeme.flush token = [.operand (Text.trim token)] := by
      simp [Lexeme.flush, hblank]
    rw [hflush] at hr ⊢
    obtain ⟨m, hm, -⟩ := Fragment.reads_cons.mp hr
    obtain ⟨tree, htree, -⟩ := bind_eq_ok.mp hm
    obtain ⟨t, ht, hatom, hv⟩ := Tree.literal_token htree (trim_token_ne hkey hstart hend)
    obtain ⟨pre, post, htoken, hpre, -, hpost⟩ := Text.exists_trim token
    rw [← ht] at htoken ⊢
    rw [htoken] at h ⊢
    rw [getLast?_append_or, getLast?_append_or, Token.spelling_getLast?_or hv] at h
    rw [List.append_assoc, List.append_assoc]
    exact blanks hpre (.operand hatom hv (blanks hpost h))

/-- An operator behind an operand text. -/
theorem flush_symbol {s : Symbol} (hkey : Unkeyed before token ((Token.symbol s).spelling ++ cs))
    (hstart : Boundary before (token ++ ((Token.symbol s).spelling ++ cs)))
    (hapart : (Token.symbol s).Apart (token.getLast?.or before) cs.head?)
    (hr : f.Reads parse source (Lexeme.flush token) g)
    (h : Lexed (Token.symbol s).spelling.getLast? ls cs) :
    Lexed before (Lexeme.flush token ++ .symbol s :: ls)
      (token ++ ((Token.symbol s).spelling ++ cs)) :=
  flush hkey hstart (Lexeme.boundary_before hapart) hr (.symbol hapart h)

/-- A parenthesis, perhaps behind a name. -/
theorem token_parens {inner : List Char}
    (hclosing : Text.closing? ('(' :: inner ++ ')' :: cs) = some ('(' :: inner, cs))
    (hkey : Unkeyed before token ('(' :: inner ++ ')' :: cs))
    (hstart : Boundary before (token ++ ('(' :: inner ++ ')' :: cs)))
    (hnext : f.next parse source (.parens (Text.trim token) inner) = .ok g)
    (h : Lexed (some ')') ls cs) :
    Lexed before (.parens (Text.trim token) inner :: ls)
      (token ++ ('(' :: inner ++ ')' :: cs)) := by
  have hend : Boundary (token.getLast?.or before) ('(' :: inner ++ ')' :: cs) := by
    rintro c - - d ⟨⟩
    rfl
  have hname : Text.trim token = [] ∨ (Token.name (Text.trim token)).Valid := by
    obtain ⟨tree, htree, -⟩ := bind_eq_ok.mp hnext
    unfold Tree.parens at htree
    split at htree
    · rename_i hempty
      exact .inl (List.isEmpty_iff.mp hempty)
    · split at htree
      · rename_i hname
        exact .inr ⟨hname, trim_token_ne hkey hstart hend⟩
      · cases htree
  obtain ⟨pre, post, htoken, hpre, -, hpost⟩ := Text.exists_trim token
  have hcs (rest : List Char) : token ++ rest = pre ++ (Text.trim token ++ (post ++ rest)) := by
    rw [← List.append_assoc, ← List.append_assoc, ← htoken]
  rw [hcs]
  exact blanks hpre (.parens hname hpost hclosing h)

/-- **If what the scan gives can be read, the text consists of it.** -/
theorem of_scan (hkey : Unkeyed before token cs) (hstart : Boundary before (token ++ cs))
    {offset : Nat}
    (hr : f.Reads parse source (Lexeme.scan token (token.getLast?.or before) offset 0 cs) g) :
    ∃ ls, Lexed before ls (token ++ cs) ∧ f.Reads parse source ls g := by
  -- The induction is on the text left: an operator or a parenthesis skips more than one character.
  induction hn : cs.length using Nat.strong_induction_on
    generalizing before token cs f offset with
  | h n ih =>
    cases cs with
    | nil =>
      have hend : Boundary (token.getLast?.or before) [] := nofun
      exact ⟨_, flush hkey hstart hend hr .nil, by simpa [Lexeme.scan] using hr⟩
    | cons c cs =>
      have hstep : Lexeme.Step token (token.getLast?.or before) (c :: cs) _ :=
        Lexeme.scan_step c cs offset
      generalize Lexeme.scan token (token.getLast?.or before) offset 0 (c :: cs) = ls at hr hstep
      generalize c :: cs = cs at hkey hstart hn hstep ⊢
      cases hstep with
      | @quoted body rest offset hbody =>
        have hlast : (token ++ ('"' :: body ++ ['"'])).getLast?.or before = some '"' := by
          rw [getLast?_append_or, List.getLast?_concat, Option.some_or]
        have hcs : '"' :: body ++ '"' :: rest = ('"' :: body ++ ['"']) ++ rest := by simp
        rw [← hlast] at hr
        rw [hcs] at hkey hstart hn ⊢
        rw [← List.append_assoc] at hstart ⊢
        refine ih rest.length ?_ (hkey.append (.inr ?_) fun s _ => ?_) hstart hr rfl
        · simp at hn
          omega
        · rintro c ⟨⟩
          rfl
        · rw [Bool.eq_false_iff]
          intro hoccurs
          have hinert := Token.isInert_symbol s _
            (List.mem_of_mem_head? (Lexeme.head?_of_occursAt hoccurs))
          exact absurd hinert (by decide)
      | @parens inner rest offset hclosing =>
        obtain ⟨m, hm, hr⟩ := Fragment.reads_cons.mp hr
        have hrest : Unkeyed (some ')') [] rest := .nil
        have hword : Boundary (some ')') rest := by
          rintro c ⟨⟩ hword
          exact absurd hword (by decide)
        obtain ⟨ls, hls, hr⟩ := ih rest.length (by simp at hn; omega) hrest hword hr rfl
        exact ⟨_, token_parens hclosing hkey hstart hm hls, Fragment.reads_cons.mpr ⟨m, hm, hr⟩⟩
      | @symbol s rest offset hapart =>
        obtain ⟨m, hflush, hr⟩ := Fragment.reads_append.mp hr
        obtain ⟨m', hm', hr⟩ := Fragment.reads_cons.mp hr
        have hlen : rest.length < n := by
          have := List.length_pos_iff.mpr (Token.spelling_ne_nil (t := .symbol s) trivial)
          rw [List.length_append] at hn
          omega
        have hrest : Unkeyed (Token.symbol s).spelling.getLast? [] rest := .nil
        obtain ⟨ls, hls, hr⟩ :=
          ih rest.length hlen hrest (Lexeme.boundary_after hapart) hr rfl
        exact ⟨_, flush_symbol hkey hstart hapart hflush hls,
          Fragment.reads_append.mpr ⟨m, hflush, Fragment.reads_cons.mpr ⟨m', hm', hr⟩⟩⟩
      | @char c rest offset hnone =>
        have hlast : (token ++ [c]).getLast?.or before = some c := by
          rw [List.getLast?_concat, Option.some_or]
        rw [← hlast] at hr
        rw [List.append_cons] at hstart ⊢
        have hkey' : Unkeyed before (token ++ [c]) rest := hkey.append (.inl rfl) hnone
        exact ih rest.length (by simp at hn; omega) hkey' hstart hr rfl
      | fault =>
        obtain ⟨m, hm, -⟩ := Fragment.reads_cons.mp hr
        cases hm

/-- What is read from a text is what is read from its lexemes. -/
theorem reads_all_iff {text : List Char} : f.Reads parse source (Lexeme.all text) g ↔
    ∃ ls, Lexed none ls text ∧ f.Reads parse source ls g := by
  constructor
  · intro hr
    have hkey : Unkeyed none [] text := .nil
    exact of_scan hkey nofun hr
  · rintro ⟨ls, h, hr⟩
    have hscan : Lexeme.all text = ls := h.scan_eq hr (.inl rfl) 0
    rwa [hscan]

end Lexed

end ClassicBasic

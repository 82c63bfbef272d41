import ClassicBasic.Proofs.Text.Splitting

/-!
# Open and closed parentheses

`level` follows the parentheses of a text outside its quotes, up to one that is closed without
having been opened. A text is `Balanced` if it closes what it opens; what stands between a
parenthesis and the one that closes it is (`Closes.balanced`).

A cut at commas counts brackets of all kinds alike, and each of them closes any other. It can leave
a parenthesis open in a piece only if a bracket of another kind was taken to close it
(`exists_closer`).
-/

namespace ClassicBasic.Text

namespace Nesting

/-- The state after reading `c`, where only parentheses count and only open ones are closed. -/
def parens? (n : Nesting) (c : Char) : Option Nesting :=
  if c == '"' then some { n with quoted := !n.quoted }
  else if n.quoted then some n
  else if c == '(' then some { n with depth := n.depth + 1 }
  else if c == ')' then if n.depth = 0 then none else some { n with depth := n.depth - 1 }
  else some n

section
variable {n n' : Nesting} {c : Char}

theorem parens?_quoted (h : n.parens? c = some n') :
    n'.quoted = if c == '"' then !n.quoted else n.quoted := by
  unfold parens? at h
  grind

/-- More parentheses may be open around a text. -/
theorem parens?_add (h : n.parens? c = some n') (k : Nat) :
    Nesting.parens? ⟨n.quoted, n.depth + k⟩ c = some ⟨n'.quoted, n'.depth + k⟩ := by
  unfold parens? at h ⊢
  grind

theorem parens?_plain (h : c ≠ '"' ∧ c ≠ '(' ∧ c ≠ ')') (n : Nesting) : n.parens? c = some n := by
  simp [parens?, h]

/-- Outside quotes, brackets that are no parentheses only count as open ones. -/
theorem step_of_parens? {depth : Nat} (h : n.parens? c = some n')
    (hc : n.quoted = false → c ≠ ']' ∧ c ≠ '\x7d') (hdepth : n.depth ≤ depth) :
    ∃ depth', Nesting.step .quotesAndBrackets ⟨n.quoted, depth⟩ c = ⟨n'.quoted, depth'⟩ ∧
      n'.depth ≤ depth' := by
  unfold parens? at h
  unfold Nesting.step isOpener isCloser
  obtain ⟨quoted, open'⟩ := n
  grind

end

end Nesting

/-- The state behind a text, from that in front of it. -/
def level (n : Nesting) (cs : List Char) : Option Nesting := cs.foldlM Nesting.parens? n

section
variable {n n' : Nesting} {c : Char} {u v cs : List Char}

theorem level_cons (n : Nesting) (c : Char) (cs : List Char) :
    level n (c :: cs) = (n.parens? c).bind fun n' => level n' cs := rfl

theorem level_append (n : Nesting) (u v : List Char) :
    level n (u ++ v) = (level n u).bind fun n' => level n' v := List.foldlM_append

theorem level_quoted (h : level n cs = some n') : n'.quoted = endsQuoted n.quoted cs := by
  induction cs generalizing n with
  | nil =>
    cases h
    rfl
  | cons c cs ih =>
    obtain ⟨m, hm, h⟩ := Option.bind_eq_some_iff.mp h
    rw [ih h, Nesting.parens?_quoted hm]
    rfl

theorem level_add (h : level n cs = some n') (k : Nat) :
    level ⟨n.quoted, n.depth + k⟩ cs = some ⟨n'.quoted, n'.depth + k⟩ := by
  induction cs generalizing n with
  | nil =>
    cases h
    rfl
  | cons c cs ih =>
    obtain ⟨m, hm, h⟩ := Option.bind_eq_some_iff.mp h
    rw [level_cons, Nesting.parens?_add hm]
    exact ih h

end

/-! ## Balanced texts -/

/-- The text closes the quotes and parentheses that it opens, and no others. -/
def Balanced (cs : List Char) : Prop := level {} cs = some {}

/-- What stands in front of a closing parenthesis closes the others. -/
theorem Closes.level_eq {depth : Nat} {quoted : Bool} {body : List Char}
    (h : Closes (depth + 1) quoted body) : level ⟨quoted, depth⟩ body = some {} := by
  generalize hk : depth + 1 = k at h
  induction h generalizing depth with
  | nil =>
    cases hk
    rfl
  | quote _ ih => exact ih hk
  | quoted hc _ ih => simpa [level_cons, Nesting.parens?, hc] using ih hk
  | opening _ ih => exact ih (congrArg (· + 1) hk)
  | @closing k body _ ih =>
    obtain rfl : depth = k + 1 := by omega
    exact ih rfl
  | plain hquote hopen hclose _ ih =>
    rw [level_cons, Nesting.parens?_plain ⟨hquote, hopen, hclose⟩]
    exact ih hk

theorem Closes.balanced {body : List Char} (h : Closes 1 false body) : Balanced body := h.level_eq

theorem Passes.balanced {u : List Char} (h : Passes 0 u) : Balanced u := by
  have hclosing : closingFrom? 1 false (u ++ [')']) = some (u, []) := by
    rw [h.closing 0]
    simp [closingFrom?]
  exact (closingFrom?_spec hclosing).2.balanced

namespace Balanced

variable {c : Char} {u v : List Char}

theorem level_eq (h : Balanced u) (depth : Nat) : level ⟨false, depth⟩ u = some ⟨false, depth⟩ := by
  simpa using level_add h depth

theorem append (hu : Balanced u) (hv : Balanced v) : Balanced (u ++ v) := by
  rw [Balanced, level_append, hu]
  exact hv

theorem plain (h : ∀ c ∈ u, c ≠ '"' ∧ c ≠ '(' ∧ c ≠ ')') : Balanced u := by
  induction u with
  | nil => rfl
  | cons c u ih =>
    obtain ⟨hc, hu⟩ := List.forall_mem_cons.mp h
    rw [Balanced, level_cons, Nesting.parens?_plain hc]
    exact ih hu

theorem parens (h : Balanced u) : Balanced ('(' :: u ++ [')']) := by
  have hu : level ⟨false, 0⟩ ('(' :: u) = some ⟨false, 1⟩ := h.level_eq 1
  rw [Balanced, level_append, hu]
  rfl

end Balanced

/-! ## Parentheses that stay open -/

section
variable {cs u v : List Char} {k : Nat}

/-- Byte `k` of the text is a parenthesis outside quotes that no other one closes. -/
def UnmatchedOpenAt (cs : List Char) (k : Nat) : Prop :=
  ∃ u v, cs = u ++ '(' :: v ∧ byteLength u = k ∧ endsQuoted false u = false ∧
    ∀ body rest, v = body ++ ')' :: rest → ¬ Closes 1 false body

/-- Byte `k` of the text is a parenthesis outside quotes that closes no other one. -/
def UnmatchedCloseAt (cs : List Char) (k : Nat) : Prop :=
  ∃ u v, cs = u ++ ')' :: v ∧ byteLength u = k ∧ endsQuoted false u = false ∧
    ∀ before body, u = before ++ '(' :: body → endsQuoted false before = false →
      ¬ Closes 1 false body

/-- Byte `k` of the text is a quote that opens a quoted text, and none closes it. -/
def UnclosedQuoteAt (cs : List Char) (k : Nat) : Prop :=
  ∃ u v, cs = u ++ '"' :: v ∧ byteLength u = k ∧ endsQuoted false u = false ∧ '"' ∉ v

/-- A parenthesis stays open up to the end of the text if none closes it. -/
theorem level_of_closingFrom? {depth : Nat} {quoted : Bool}
    (h : closingFrom? (depth + 1) quoted cs = none) :
    ∃ n, level ⟨quoted, depth + 1⟩ cs = some n ∧ 1 ≤ n.depth := by
  induction cs generalizing depth quoted with
  | nil => exact ⟨_, rfl, by simp⟩
  | cons c cs ih =>
    rw [level_cons]
    by_cases hquote : c = '"'
    · subst hquote
      exact ih (by simpa [closingFrom?] using h)
    · cases quoted with
      | true =>
        have hstep : Nesting.parens? ⟨true, depth + 1⟩ c = some ⟨true, depth + 1⟩ := by
          simp [Nesting.parens?, hquote]
        rw [hstep]
        exact ih (by simpa [closingFrom?, hquote] using h)
      | false =>
        by_cases hopen : c = '('
        · subst hopen
          exact ih (by simpa [closingFrom?] using h)
        · by_cases hclose : c = ')'
          · subst hclose
            cases depth with
            | zero => simp [closingFrom?] at h
            | succ depth => exact ih (by simpa [closingFrom?] using h)
          · rw [Nesting.parens?_plain ⟨hquote, hopen, hclose⟩]
            exact ih (by simpa [closingFrom?, hquote, hopen, hclose] using h)

/-- In a text that closes no parenthesis too many, the state in front of a part of it. -/
theorem level_of_append {n : Nesting} (h : level {} (u ++ v) = some n)
    (hu : endsQuoted false u = false) :
    ∃ depth, level {} u = some ⟨false, depth⟩ ∧ level ⟨false, depth⟩ v = some n := by
  rw [level_append] at h
  obtain ⟨⟨quoted, depth⟩, hlevel, h⟩ := Option.bind_eq_some_iff.mp h
  obtain rfl : quoted = false := (level_quoted hlevel).trans hu
  exact ⟨depth, hlevel, h⟩

/-- Where nothing is open, a closing parenthesis closes no other one. -/
theorem Balanced.unmatchedCloseAt (h : Balanced u) (v : List Char) :
    UnmatchedCloseAt (u ++ ')' :: v) (byteLength u) := by
  refine ⟨u, v, rfl, rfl, (level_quoted h).symm, ?_⟩
  rintro before body rfl hbefore hbody
  obtain ⟨depth, -, hlevel⟩ := level_of_append h hbefore
  have hopen : level ⟨false, depth⟩ ('(' :: body) = some ⟨false, depth + 1⟩ :=
    hbody.balanced.level_eq (depth + 1)
  rw [hopen] at hlevel
  cases hlevel

theorem closingFrom?_eq_none (h : ∀ body rest, cs = body ++ ')' :: rest → ¬ Closes 1 false body) :
    closingFrom? 1 false cs = none := by
  cases hclosing : closingFrom? 1 false cs with
  | none => rfl
  | some r =>
    obtain ⟨hcut, hbody⟩ := closingFrom?_spec hclosing
    exact absurd hbody (h _ _ hcut)

/-- No parenthesis stays open in a balanced text. -/
theorem Balanced.not_unmatchedOpenAt (h : Balanced cs) : ¬ UnmatchedOpenAt cs k := by
  rintro ⟨u, v, rfl, -, hu, hv⟩
  obtain ⟨depth, -, hlevel⟩ := level_of_append h hu
  obtain ⟨n, hn, hdepth⟩ := level_of_closingFrom? (closingFrom?_eq_none hv)
  have hopen : level ⟨false, depth⟩ ('(' :: v) = some ⟨n.quoted, n.depth + depth⟩ := by
    rw [← level_add hn depth, Nat.zero_add, Nat.add_comm 1 depth]
    rfl
  rw [hopen, Option.some.injEq] at hlevel
  have hzero := congrArg Nesting.depth hlevel
  simp only at hzero
  omega

/-! ## Pieces -/

/-- The state behind a text, where brackets of all kinds count alike. -/
def nesting (n : Nesting) (cs : List Char) : Nesting := cs.foldl (·.step .quotesAndBrackets) n

theorem nesting_quoted (n : Nesting) (cs : List Char) :
    (nesting n cs).quoted = endsQuoted n.quoted cs :=
  n.scan_quoted .quotesAndBrackets cs

/-- One bracket more is open behind a parenthesis. -/
theorem nesting_open (hu : endsQuoted false u = false) (v : List Char) :
    nesting {} (u ++ '(' :: v) = nesting ⟨false, (nesting {} u).depth + 1⟩ v := by
  have hquoted : (nesting {} u).quoted = false := (nesting_quoted {} u).trans hu
  have hstep : (nesting {} u).step .quotesAndBrackets '(' =
      ⟨false, (nesting {} u).depth + 1⟩ := by
    simp [Nesting.step, hquoted, isOpener]
  rw [← hstep]
  exact List.foldl_append

/-- A piece with another one behind it leaves nothing open. -/
theorem nesting_piece {sep : Char} {n : Nesting} {p : List Char} {ps : List (List Char)}
    (h : piecesFrom .quotesAndBrackets sep n cs = p :: ps) :
    (ps ≠ [] → nesting n p = {}) ∧ ∀ u ∈ ps.dropLast, nesting {} u = {} := by
  have hcut := piecesFrom_cut .quotesAndBrackets sep n cs
  rw [h] at hcut
  cases hcut with
  | last _ => simp
  | piece _ hp hps => exact ⟨fun _ => hp, (cut_iff.mp hps).2.2⟩

/-- The pieces in front of a piece, with their commas, are balanced if each of them is. -/
theorem exists_front {us : List (List Char)} (hus : ∀ u ∈ us, Balanced u) (a : List Char)
    (vs : List (List Char)) :
    ∃ front, [','].intercalate (us ++ a :: vs) = front ++ [','].intercalate (a :: vs) ∧
      Balanced front ∧ (front = [] ∨ front.getLast? = some ',') := by
  induction us with
  | nil => exact ⟨[], rfl, rfl, .inl rfl⟩
  | cons u us ih =>
    obtain ⟨hu, hus⟩ := List.forall_mem_cons.mp hus
    obtain ⟨front, hfront, hbalanced, hlast⟩ := ih hus
    have hcomma : Balanced [','] := rfl
    refine ⟨u ++ [','] ++ front, ?_, (hu.append hcomma).append hbalanced, .inr ?_⟩
    · rw [List.cons_append, List.intercalate_cons_of_ne_nil (by simp), hfront]
      simp
    · rcases hlast with rfl | hlast
      · simp
      · rw [List.getLast?_append, hlast]
        rfl

/-- Where a piece of a balanced text stands, if those in front of it are balanced. The last piece is
balanced too; any other one has a comma behind it, and no bracket is open there. -/
theorem Balanced.piece {us vs : List (List Char)} {a : List Char} (h : Balanced cs)
    (hcut : splitOutsideBrackets ',' cs = us ++ a :: vs) (hus : ∀ u ∈ us, Balanced u) :
    ∃ front behind, cs = front ++ (a ++ behind) ∧ Balanced front ∧
      (front = [] ∨ front.getLast? = some ',') ∧ (∃ depth, level {} a = some ⟨false, depth⟩) ∧
      (Balanced a ∨ nesting {} a = {} ∧ behind.head? = some ',') := by
  have hpieces : piecesFrom .quotesAndBrackets ',' {} cs = us ++ a :: vs := by
    rw [splitOutsideBrackets, splitOutside] at hcut
    split at hcut
    · simp at hcut
    · exact hcut
  have hcs := intercalate_piecesFrom .quotesAndBrackets ',' {} cs
  obtain ⟨front, hfront, hbalanced, hlast⟩ := exists_front hus a vs
  rw [hpieces, hfront] at hcs
  cases vs with
  | nil =>
    rw [List.intercalate_singleton] at hcs
    rw [Balanced, ← hcs, level_append, hbalanced] at h
    exact ⟨front, [], by simp [hcs], hbalanced, hlast, ⟨0, h⟩, .inl h⟩
  | cons v vs =>
    rw [List.intercalate_cons_cons, List.append_assoc] at hcs
    have hnesting : nesting {} a = {} := by
      cases us with
      | nil => exact (nesting_piece hpieces).1 (by simp)
      | cons u us =>
        have ha : a ∈ (us ++ a :: v :: vs).dropLast := by
          simp [List.dropLast_append_of_ne_nil]
        exact (nesting_piece hpieces).2 a ha
    have hquoted : endsQuoted false a = false := by
      rw [← nesting_quoted {} a, hnesting]
    rw [Balanced, ← hcs, level_append, hbalanced] at h
    obtain ⟨depth, hlevel, -⟩ := level_of_append h hquoted
    exact ⟨front, _, hcs.symm, hbalanced, hlast, ⟨depth, hlevel⟩, .inr ⟨hnesting, rfl⟩⟩

/-- Where no other bracket closes anything, a cut at commas counts at least the parentheses. -/
theorem level_le_nesting {n n' : Nesting} {depth : Nat} (h : level n cs = some n')
    (hcloser : ∀ before c after, cs = before ++ c :: after → endsQuoted n.quoted before = false →
      c ≠ ']' ∧ c ≠ '\x7d') (hdepth : n.depth ≤ depth) :
    n'.depth ≤ (nesting ⟨n.quoted, depth⟩ cs).depth := by
  induction cs generalizing n depth with
  | nil =>
    cases h
    exact hdepth
  | cons c cs ih =>
    obtain ⟨m, hm, h⟩ := Option.bind_eq_some_iff.mp h
    obtain ⟨depth', hstep, hdepth'⟩ := Nesting.step_of_parens? hm (hcloser [] c cs rfl) hdepth
    have htail : n'.depth ≤ (nesting ⟨m.quoted, depth'⟩ cs).depth := by
      refine ih h (fun before d after hcs hbefore => ?_) hdepth'
      refine hcloser (c :: before) d after (by rw [hcs]; rfl) ?_
      rw [Nesting.parens?_quoted hm] at hbefore
      exact hbefore
    rw [← hstep] at htail
    exact htail

/-- A bracket of another kind closes a parenthesis that stays open in a piece. -/
theorem exists_closer {depth : Nat} (hopen : closingFrom? 1 false cs = none)
    (hcut : nesting ⟨false, depth + 1⟩ cs = {}) :
    ∃ before c after, cs = before ++ c :: after ∧ endsQuoted false before = false ∧
      (c = ']' ∨ c = '\x7d') := by
  by_contra hnone
  obtain ⟨n, hn, hdepth⟩ := level_of_closingFrom? hopen
  have hle := level_le_nesting hn (fun before c after hcs hbefore => ?_)
    (Nat.le_add_left 1 depth)
  · rw [Nat.zero_add] at hle
    rw [hcut] at hle
    exact absurd (hdepth.trans hle) (by decide)
  · by_contra hc
    refine hnone ⟨before, c, after, hcs, hbefore, ?_⟩
    by_contra hne
    exact hc (not_or.mp hne)

end

end ClassicBasic.Text

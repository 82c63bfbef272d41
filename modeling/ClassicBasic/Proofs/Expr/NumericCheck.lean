import ClassicBasic.Proofs.Expr.BigStep
import ClassicBasic.Proofs.Expr.Builtins
import ClassicBasic.Proofs.Expr.Proper
import ClassicBasic.Proofs.Workspace

/-!
# Where the check for numbers is wrong

`Tree.isNumeric` says that a tree gives a number if it gives anything. It goes by names: a call
counts as a number when the function is declared so or has a name without `$`. Nothing enforces the
names. `TAB` gives a text, and so may a function that the program defines, whatever it is called;
these are the misnamed functions. Arrays keep to their names, and so do all other built-in
functions.

`Workspace.Declared.misnamed_of_text` says that there is no other way for the check to be wrong: it
calls a tree numeric and the tree gives a text only if the tree is a sum of calls of misnamed
functions and nothing else. One addend that is anything else makes the answer right.
-/

namespace ClassicBasic

/-! ## Grids -/

theorem Value.kind_unset (k : Kind) : (Value.unset k).kind = k := by
  cases k <;> rfl

namespace Grid

/-- All elements are of the grid's own kind. -/
def Uniform (g : Grid) : Prop := ∀ v ∈ g.cells, v.kind = g.kind

variable {g g' : Grid} {kind : Kind} {sizes cs : List Nat} {v : Value}

theorem make_uniform (h : make kind sizes = .ok g) : g.kind = kind ∧ g.Uniform := by
  unfold make at h
  split at h
  · split at h
    · cases h
      refine ⟨rfl, fun v hv => ?_⟩
      rw [Array.eq_of_mem_replicate hv, Value.kind_unset]
    · cases h
  · cases h

theorem Uniform.set (hg : g.Uniform) (h : g.set cs v = .ok g') :
    g'.kind = g.kind ∧ g'.Uniform := by
  unfold Grid.set at h
  split at h
  · rename_i hkind
    split at h
    · cases h
      refine ⟨rfl, fun u hu => ?_⟩
      rcases Array.mem_or_eq_of_mem_setIfInBounds hu with hu | rfl
      · exact hg u hu
      · simpa using hkind
    · cases h
  · cases h

theorem Uniform.get (hg : g.Uniform) (h : g.get cs = .ok v) : v.kind = g.kind := by
  unfold Grid.get at h
  split at h
  · rename_i i _
    cases h
    rw [Array.getD_eq_getD_getElem?]
    cases hcell : g.cells[i]? with
    | none => exact Value.kind_unset g.kind
    | some u => exact hg u (Array.mem_of_getElem? hcell)
  · cases h

end Grid

/-! ## Declarations -/

namespace Workspace

/-- The workspaces that begin with the built-in functions and are made by declarations: DIM makes an
array, of the kind of its name, and DEF a function of any name and body. Elements of arrays may be
stored in between, and the variables may be any at any time. -/
inductive Declared : Workspace → Prop
  | builtins (vars : Table Value) : Declared ({ vars } : Workspace).withBuiltins
  | dim {w : Workspace} {name : String} {sizes : List Nat} {g : Grid} : Declared w →
      Grid.make (Kind.ofName name) sizes = .ok g →
      Declared { w with
        functions := w.functions.insert name .array, arrays := w.arrays.insert name g }
  | define {w : Workspace} (name : String) (params : List String) (body : Expr) : Declared w →
      Declared { w with functions := w.functions.insert name (.defined params body) }
  | store {w : Workspace} {name : String} {g g' : Grid} {cs : List Nat} {v : Value} : Declared w →
      w.arrays.get? name = some g → g.set cs v = .ok g' →
      Declared { w with arrays := w.arrays.insert name g' }
  | assign {w : Workspace} (vars : Table Value) : Declared w → Declared { w with vars }

/-- Built-in functions go by their own names, and arrays hold what their names say. -/
structure Named (w : Workspace) : Prop where
  builtin : ∀ name b, w.functions.get? name = some (.builtin b) → b.name = name
  array : ∀ name g, w.arrays.get? name = some g → g.kind = Kind.ofName name ∧ g.Uniform

theorem Declared.named {w : Workspace} (h : w.Declared) : w.Named := by
  induction h with
  | builtins vars =>
    refine ⟨fun name b hb => ?_, nofun⟩
    obtain ⟨b', hb', hname⟩ | hold := withBuiltins_get? hb
    · cases hb'
      exact hname
    · cases hold
  | @dim w name sizes g _ hmake ih =>
    refine ⟨fun name' b hb => ?_, fun name' g' hg' => ?_⟩
    · rw [Table.get?_insert] at hb
      split at hb
      · cases hb
      · exact ih.builtin name' b hb
    · rw [Table.get?_insert] at hg'
      split at hg'
      · rename_i hname
        cases hg'
        exact hname ▸ Grid.make_uniform hmake
      · exact ih.array name' g' hg'
  | define name params body _ ih =>
    refine ⟨fun name' b hb => ?_, ih.array⟩
    rw [Table.get?_insert] at hb
    split at hb
    · cases hb
    · exact ih.builtin name' b hb
  | @store w name g g' cs v _ hg hset ih =>
    refine ⟨ih.builtin, fun name' g'' hg'' => ?_⟩
    rw [Table.get?_insert] at hg''
    split at hg''
    · rename_i hname
      cases hg''
      obtain ⟨hkind, huniform⟩ := ih.array name g hg
      obtain ⟨hkind', huniform'⟩ := huniform.set hset
      exact ⟨by rw [hkind', hkind, hname], huniform'⟩
    · exact ih.array name' g'' hg''
  | assign vars _ ih => exact ⟨ih.builtin, ih.array⟩

/-! ## Misnamed functions -/

/-- Whether a function may give a text under a name that says number: `TAB` does, and functions that
the program defines may. -/
def misnamed (w : Workspace) (name : String) : Bool :=
  match w.functions.get? name with
  | some (.builtin b) => b == .tab
  | some .array => false
  | some (.defined ..) => Kind.ofName name == .number
  | none => false

/-- Whether a tree is a call of a misnamed function. -/
def callsMisnamed (w : Workspace) : Tree → Bool
  | .call name _ => w.misnamed name
  | _ => false

end Workspace

theorem Workspace.readElement_kind {g : Grid} (hg : g.Uniform) {args : Args} {v : Value}
    (h : readElement g args = .ok v) : v.kind = g.kind := by
  obtain ⟨coordinates, -, h⟩ := bind_eq_ok.mp h
  split at h
  · rename_i hget
    cases h
    exact hg.get hget
  · cases h

/-- A call that counts as a number and gives a text is one of a misnamed function. -/
theorem Calls.misnamed {w : Workspace} (hw : w.Named) {depth : Nat} {bound : Bindings}
    {name : String} {args : Args} {f : Function} {r r' : Random} {s : String}
    (h : Calls w depth bound name args f r (.ok (.text s) r'))
    (hf : w.functions.get? name = some f) (hnum : w.callIsNumeric name = true) :
    w.misnamed name = true := by
  simp only [Workspace.callIsNumeric, hf] at hnum
  simp only [Workspace.misnamed, hf]
  cases f with
  | builtin b =>
    have hcall := h.eq
    rw [Workspace.applyWithin_builtin] at hcall
    obtain ⟨-, hkind⟩ := (b.apply_gives args).ok trivial hcall
    simp only [Bool.or_eq_true, beq_iff_eq] at hnum
    by_cases htab : b = .tab
    · simp [htab]
    · -- A function that is named for what it gives has given a number.
      have hnumber : b.kind = .number := by
        rcases hnum with hnum | hnum
        · exact Builtin.kind_of_givesNumber hnum
        · rw [← Builtin.ofName_name htab, hw.builtin name b hf, hnum]
      rw [hnumber] at hkind
      cases hkind
  | array =>
    cases h with
    | array hg hv =>
      obtain ⟨hkind, huniform⟩ := hw.array name _ hg
      have htext : Kind.text = Kind.ofName name :=
        (Workspace.readElement_kind huniform hv).trans hkind
      simp [← htext] at hnum
  | defined params body => exact hnum

/-! ## Sums -/

namespace Op

variable {op : Op} {v x y : Value}

/-- All operators but `+` give numbers. -/
theorem kind_apply (hop : op ≠ .plus) (h : op.apply v x = .ok y) : y.kind = .number := by
  unfold Op.apply at h
  split at h
  · cases h
    cases op with
    | plus => exact absurd rfl hop
    | _ => rfl
  · split at h
    · rename_i htexts
      cases h
      cases op with
      | plus => exact absurd rfl hop
      | times | power | and | or => cases htexts
      | _ =>
        cases htexts
        rfl
    · cases h
  · cases h

/-- A sum that is a text has only texts in it. -/
theorem texts_of_plus {s : String} (h : Op.plus.apply v x = .ok (.text s)) :
    (∃ a, v = .text a) ∧ ∃ b, x = .text b := by
  cases v with
  | number a => cases x <;> cases h
  | text a =>
    cases x with
    | number b => cases h
    | text b => exact ⟨⟨a, rfl⟩, b, rfl⟩

end Op

namespace Tree

mutual

/-- The operands of the sum that a tree is; a tree that is no sum is its only operand. -/
def addends : Tree → List Tree
  | .chain op group operands =>
    if op = .plus then addendsAll operands else [.chain op group operands]
  | t => [t]

def addendsAll : List Tree → List Tree
  | [] => []
  | t :: rest => addends t ++ addendsAll rest

end

theorem Proper.addends_ne_nil {t : Tree} (h : t.Proper) : t.addends ≠ [] := by
  induction h with
  | @chain op group operands hne _ _ ih =>
    rw [addends]
    split
    · obtain ⟨t, ts, rfl⟩ := List.exists_cons_of_ne_nil hne
      simp [addendsAll, ih t (by simp)]
    · simp
  | _ => simp [addends]

end Tree

section
variable {w : Workspace} {depth : Nat} {bound : Bindings}

/-- A chain of any operator but `+` gives a number, once the operator was applied. -/
theorem EvaluatesRest.kind_number {op : Op} (hop : op ≠ .plus) {v y : Value} {ts : List Tree}
    {r r' : Random} (h : EvaluatesRest w depth bound op v ts r (.ok y r'))
    (hv : ts = [] → v.kind = .number) : y.kind = .number := by
  induction ts generalizing v r with
  | nil =>
    cases h
    exact hv rfl
  | cons t rest ih =>
    cases h with
    | cons _ happly hrest => exact ih hrest fun _ => Op.kind_apply hop happly

/-- A sum that is a text has only texts in it, so what holds of the addends of its operands that are
texts holds of all its addends. -/
theorem EvaluatesRest.forall_addends {P : Tree → Prop} {v : Value} {ts : List Tree} {r r' : Random}
    {s : String} (h : EvaluatesRest w depth bound .plus v ts r (.ok (.text s) r'))
    (hts : ∀ t ∈ ts, ∀ r r' s, Evaluates w depth bound t r (.ok (.text s) r') →
      ∀ a ∈ t.addends, P a) :
    (∃ a, v = .text a) ∧ ∀ a ∈ Tree.addendsAll ts, P a := by
  induction ts generalizing v r with
  | nil =>
    cases h
    exact ⟨⟨s, rfl⟩, by simp [Tree.addendsAll]⟩
  | cons t rest ih =>
    obtain ⟨ht, hrest⟩ := List.forall_mem_cons.mp hts
    cases h with
    | cons hx happly hnext =>
      obtain ⟨⟨a, rfl⟩, haddends⟩ := ih hnext hrest
      obtain ⟨hv, ⟨b, rfl⟩⟩ := Op.texts_of_plus happly
      refine ⟨hv, ?_⟩
      rw [Tree.addendsAll, List.forall_mem_append]
      exact ⟨ht _ _ _ hx, haddends⟩

theorem Tree.isNumeric_of_mem {ts : List Tree} (h : allNumeric w bound ts = true) :
    ∀ t ∈ ts, t.isNumeric w bound = true := by
  induction ts with
  | nil => simp
  | cons t rest ih =>
    simp only [allNumeric, Bool.and_eq_true] at h
    exact List.forall_mem_cons.mpr ⟨h.1, ih h.2⟩

/-- A tree that counts as a number and gives a text is a sum of calls of misnamed functions. -/
theorem Evaluates.callsMisnamed (hw : w.Named) {t : Tree} (ht : t.Proper) {r r' : Random}
    {s : String} (h : Evaluates w depth bound t r (.ok (.text s) r'))
    (hnum : t.isNumeric w bound = true) : ∀ a ∈ t.addends, w.callsMisnamed a = true := by
  induction ht generalizing r r' s with
  | number => cases h
  | text => cases hnum
  | var =>
    cases h with
    | var hv => simp [Tree.isNumeric, Workspace.nameIsNumeric, hv, Value.kind] at hnum
  | @call name args _ _ =>
    generalize hresult : EStateM.Result.ok (Value.text s) r' = result at h
    cases h with
    | @call _ _ _ _ f values _ _ result hf _ hcall =>
      cases result with
      | error => cases hresult
      | ok v r'' =>
        cases hresult
        simp [Tree.addends, Workspace.callsMisnamed, hcall.misnamed hw hf hnum]
    | badArgument | unknownCall => cases hresult
  | transform => cases h
  | @chain op group operands _ hlength _ ih =>
    cases h with
    | @chain _ _ _ _ first rest v _ _ _ hfirst hrest =>
      by_cases hop : op = .plus
      · subst hop
        have hall : Tree.allNumeric w bound (first :: rest) = true := by
          simpa [Tree.isNumeric] using hnum
        obtain ⟨ihfirst, ihrest⟩ := List.forall_mem_cons.mp fun t ht r r' s
            (h : Evaluates w depth bound t r (.ok (.text s) r')) =>
          ih t ht h (Tree.isNumeric_of_mem hall t ht)
        obtain ⟨⟨a, rfl⟩, haddends⟩ := hrest.forall_addends ihrest
        simp only [Tree.addends, Tree.addendsAll, if_true, List.forall_mem_append]
        exact ⟨ihfirst _ _ _ hfirst, haddends⟩
      · -- There is a second operand, so the operator has been applied.
        have hne : rest ≠ [] := by
          rintro rfl
          have htwo := hlength hop
          simp at htwo
        have hnumber := hrest.kind_number hop fun he => absurd he hne
        cases hnumber

end

namespace Workspace

/-- **Only misnamed functions deceive the check for numbers.** Where an expression that was read
counts as numeric and yet gives a text, in a workspace that was made by declarations and with any
variables and bindings, it is a sum whose addends are all calls of misnamed functions. -/
theorem Declared.misnamed_of_text {w : Workspace} (hw : w.Declared) {text : List Char} {e : Expr}
    (he : Expr.parse text = .ok e) {bound : Bindings} (hnum : e.tree.isNumeric w bound = true)
    {r r' : Random} {s : String} (h : w.eval bound e.tree r = .ok (.text s) r') :
    e.tree.addends ≠ [] ∧ ∀ t ∈ e.tree.addends, w.callsMisnamed t = true := by
  have hproper := Expr.parse_proper he
  have hruns : Evaluates w 0 bound e.tree r (.ok (.text s) r') :=
    (w.evaluates_iff 0 bound e.tree r _).mpr h
  exact ⟨hproper.addends_ne_nil, hruns.callsMisnamed hw.named hproper hnum⟩

/-- A workspace with a function that gives what it is given, under a name that says number. -/
def withIdentity : Workspace :=
  { ({} : Workspace).withBuiltins with
    functions := ({} : Workspace).withBuiltins.functions.insert "FNA"
      (.defined ["X"] ⟨"X", .single (.var "X")⟩) }

/-- The sum of a text that `TAB` gives and one that the function is given. -/
def tabPlusIdentity : Expr :=
  ⟨"TAB(1)+FNA(\"A\")",
    .chain .plus false [.call "TAB" [.single (.number 1)], .call "FNA" [.single (.text "A")]]⟩

theorem tabPlusIdentity_parse : Expr.parse "TAB(1)+FNA(\"A\")".toList = .ok tabPlusIdentity := by
  have htree : Tree.parse "TAB(1)+FNA(\"A\")".toList =
      .ok ((Tree.single (.call "TAB" [.single (.number 1)])).push .plus
        (.call "FNA" [.single (.text "A")])) := rfl
  rw [Tree.single, Tree.push_chain_self] at htree
  rw [Expr.parse, htree]
  rfl

/-- The sum counts as numeric and is a text. -/
theorem misnamed_of_text_tabPlusIdentity :
    withIdentity.Declared ∧ tabPlusIdentity.tree.isNumeric withIdentity [] = true ∧
      (∃ s r', withIdentity.eval [] tabPlusIdentity.tree (Random.ofSeed 0) = .ok (.text s) r') ∧
      tabPlusIdentity.tree.addends =
        [.call "TAB" [.single (.number 1)], .call "FNA" [.single (.text "A")]] ∧
      ∀ t ∈ tabPlusIdentity.tree.addends, withIdentity.callsMisnamed t = true := by
  have hw : withIdentity.Declared := .define "FNA" ["X"] _ (.builtins {})
  have hnum : tabPlusIdentity.tree.isNumeric withIdentity [] = true := rfl
  have heval : ∃ s r', withIdentity.eval [] tabPlusIdentity.tree (Random.ofSeed 0) =
      .ok (.text s) r' := ⟨_, _, rfl⟩
  obtain ⟨s, r', h⟩ := heval
  obtain ⟨-, haddends⟩ := hw.misnamed_of_text tabPlusIdentity_parse hnum h
  exact ⟨hw, hnum, ⟨s, r', h⟩, rfl, haddends⟩

end Workspace

end ClassicBasic

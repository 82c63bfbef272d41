import ClassicBasic.Statement.Form
import Mathlib.Data.List.Nodup

/-!
# The patterns of the forms

The patterns of the forms are what their texts describe (`Form.compile_grammar`), so the set that is
made of the texts has them in the order of the forms (`Form.patternSet_eq`). Looking for the first
form whose pattern fits is looking for a pattern in that set; as no two forms have a name in common,
the name of the pattern tells the form (`Form.find?_patternSet`).
-/

namespace ClassicBasic

namespace Pattern

section
variable {α : Type} (pattern : α → Pattern) (items : List α) (text : List Char)

theorem candidates_map :
    candidates id (items.map pattern) text = (candidates pattern items text).map pattern := by
  simp only [candidates, List.filter_map, List.map_append]
  rfl

/-- Items with patterns are searched as their patterns are. -/
theorem firstMatch?_map :
    firstMatch? id (items.map pattern) text =
      (firstMatch? pattern items text).map fun found => (pattern found.1, found.2) := by
  rw [firstMatch?, firstMatch?, candidates_map, List.findSome?_map, List.map_findSome?]
  congr 1
  funext item
  simp only [Function.comp, id]
  cases (pattern item).captures text with
  | error e => rfl
  | ok captures => rfl

end

end Pattern

namespace Form

/-- The text of a form describes its pattern. -/
theorem compile_grammar (f : Form) : Pattern.compile f.name f.grammar.toList = .ok f.pattern := by
  -- A finite table: each text is read by evaluation, one form at a time.
  cases f <;> decide +kernel

/-- No two forms have a name in common. -/
theorem name_injective : Function.Injective name := by
  have hnodup : (all.map name).Nodup := by decide
  intro f g h
  exact List.inj_on_of_nodup_map hnodup (by cases f <;> decide) (by cases g <;> decide) h

theorem foldlM_add (fs : List Form) (set : PatternSet) :
    fs.foldlM (fun set f => set.add f.name f.grammar.toList) set =
      .ok ⟨set.patterns ++ fs.map pattern⟩ := by
  induction fs generalizing set with
  | nil =>
    rw [List.map_nil, List.append_nil]
    rfl
  | cons f fs ih =>
    have hadd : set.add f.name f.grammar.toList = .ok ⟨set.patterns ++ [f.pattern]⟩ := by
      rw [PatternSet.add, compile_grammar]
      rfl
    rw [List.foldlM_cons, hadd]
    exact (ih _).trans (by simp)

/-- All texts can be read, and their patterns stand in the order of the forms. -/
theorem patternSet_eq : patternSet = .ok ⟨all.map pattern⟩ := foldlM_add all {}

/-- **Statements are matched with a set of patterns.** The set can be made of the texts of the
forms, and a form is the first to fit a statement if and only if what is found in the set has its
name. -/
theorem find?_patternSet (text : List Char) :
    ∃ set, patternSet = .ok set ∧ ∀ f captures,
      Pattern.firstMatch? pattern all text = some (f, captures) ↔
        (set.find? text).map (fun found => (found.1.name, found.2)) = some (f.name, captures) := by
  refine ⟨_, patternSet_eq, fun f captures => ?_⟩
  rw [PatternSet.find?, Pattern.firstMatch?_map, Option.map_map]
  cases Pattern.firstMatch? pattern all text with
  | none => simp
  | some found =>
    obtain ⟨g, captures'⟩ := found
    have hname : g.pattern.name = g.name := rfl
    simp [hname, name_injective.eq_iff]

end Form

end ClassicBasic

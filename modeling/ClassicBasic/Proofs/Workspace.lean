import ClassicBasic.Expr.Eval

/-!
# What workspaces hold

What a name stands for after a table was changed, what a table of a list holds, and the functions
that a workspace begins with.
-/

namespace ClassicBasic

namespace Table

variable {α : Type}

theorem lookup_cons (key k : String) (v : α) (rest : List (String × α)) :
    ((k, v) :: rest).lookup key = if key = k then some v else rest.lookup key := by
  rw [List.lookup_cons]
  by_cases h : key = k
  · simp [h]
  · have hbeq : (key == k) = false := by simpa using h
    simp [h, hbeq]

theorem lookup_alterEntries (name key : String) (f : Option α → α) (entries : List (String × α)) :
    (alterEntries name f entries).lookup key =
      if key = name then some (f (entries.lookup name)) else entries.lookup key := by
  induction entries with
  | nil => rw [alterEntries, lookup_cons]; rfl
  | cons entry rest ih =>
    obtain ⟨k, v⟩ := entry
    by_cases hk : k = name
    · simp only [alterEntries, hk, beq_self_eq_true, if_true, lookup_cons]
      split <;> rfl
    · simp only [alterEntries, beq_iff_eq, hk, Ne.symm hk, if_false, lookup_cons, ih]
      by_cases hkey : key = k
      · simp [hkey, hk]
      · simp [hkey]

theorem get?_insert (t : Table α) (name key : String) (v : α) :
    (t.insert name v).get? key = if key = name then some v else t.get? key :=
  lookup_alterEntries name key _ t.entries

/-- What is found after an insertion was inserted or was there before. -/
theorem get?_insert_some {t : Table α} {name key : String} {v x : α}
    (h : (t.insert name v).get? key = some x) :
    key = name ∧ x = v ∨ key ≠ name ∧ t.get? key = some x := by
  rw [get?_insert] at h
  split at h
  · exact .inl ⟨‹_›, (Option.some.inj h).symm⟩
  · exact .inr ⟨‹_›, h⟩

theorem alterEntries_of_notMem {name : String} {entries : List (String × α)}
    (h : name ∉ entries.map (·.1)) (f : Option α → α) :
    alterEntries name f entries = entries ++ [(name, f none)] := by
  induction entries with
  | nil => rfl
  | cons entry rest ih =>
    simp only [List.map_cons, List.mem_cons, not_or] at h
    have hkey : (entry.1 == name) = false := by simpa using Ne.symm h.1
    simp [alterEntries, hkey, ih h.2]

/-- Entries with different names are kept as they are given. -/
theorem entries_ofList {entries : List (String × α)} (h : (entries.map (·.1)).Nodup) :
    (ofList entries).entries = entries := by
  have hadd : ∀ t : Table α, ((t.entries ++ entries).map (·.1)).Nodup →
      (entries.foldl (fun t e => t.insert e.1 e.2) t).entries = t.entries ++ entries := by
    clear h
    induction entries with
    | nil => simp
    | cons entry rest ih =>
      intro t h
      have hnew : entry.1 ∉ t.entries.map (·.1) := by
        rw [List.map_append, List.map_cons, List.nodup_append] at h
        exact fun hmem => h.2.2 _ hmem _ List.mem_cons_self rfl
      have hinsert : (t.insert entry.1 entry.2).entries = t.entries ++ [entry] :=
        alterEntries_of_notMem hnew _
      rw [List.foldl_cons, ih _ (by rwa [hinsert, ← List.append_cons]), hinsert, ← List.append_cons]
  exact hadd empty h

end Table

namespace Workspace

/-- The functions that a program finds are built in, and go by their own names. -/
theorem withBuiltins_get? {w : Workspace} {name : String} {f : Function}
    (h : w.withBuiltins.functions.get? name = some f) :
    (∃ b, f = .builtin b ∧ b.name = name) ∨ w.functions.get? name = some f := by
  -- The functions are added from a list, so one more is added to those that were there.
  have hadd (bs : List Builtin) : ∀ fs : Table Function,
      (bs.foldl (fun fs b => fs.insert b.name (.builtin b)) fs).get? name = some f →
      (∃ b, f = .builtin b ∧ b.name = name) ∨ fs.get? name = some f := by
    induction bs with
    | nil => exact fun fs h => .inr h
    | cons b bs ih =>
      intro fs h
      obtain hb | hfs := ih _ h
      · exact .inl hb
      · rw [Table.get?_insert] at hfs
        split at hfs
        · rename_i hname
          cases hfs
          exact .inl ⟨b, rfl, hname.symm⟩
        · exact .inr hfs
  exact hadd Builtin.all w.functions h

end Workspace

end ClassicBasic

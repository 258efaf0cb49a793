import Mathlib.Data.List.Nodup

namespace MbxCache.Relational

structure Table (Row Key : Type) (key : Row → Key) (check : Row → Bool) where
  rows : List Row
  distinct : (rows.map key).Nodup
  checked : ∀ row ∈ rows, check row = true

namespace Table

variable {Row Key : Type} [DecidableEq Key] {key : Row → Key} {check : Row → Bool}

def empty : Table Row Key key check := ⟨[], by simp, by simp⟩

def lookup (table : Table Row Key key check) (wanted : Key) : Option Row :=
  table.rows.find? fun row => key row = wanted

theorem lookup_key {table : Table Row Key key check} {wanted : Key} {row : Row}
    (found : table.lookup wanted = some row) : key row = wanted := by
  simpa using List.find?_some found

theorem lookup_mem {table : Table Row Key key check} {wanted : Key} {row : Row}
    (found : table.lookup wanted = some row) : row ∈ table.rows :=
  List.mem_of_find?_eq_some found

theorem mem_lookup {table : Table Row Key key check} {row : Row} (member : row ∈ table.rows) :
    table.lookup (key row) = some row := by
  have distinct := table.distinct
  unfold lookup
  generalize table.rows = rows at member distinct
  induction rows with
  | nil => cases member
  | cons first rest ih =>
      rw [List.map_cons, List.nodup_cons] at distinct
      rcases List.mem_cons.mp member with rfl | later
      · simp
      · have different : key first ≠ key row := by
          intro same
          exact distinct.1 (same ▸ List.mem_map_of_mem later)
        rw [List.find?_cons_of_neg (by simpa using different)]
        exact ih later distinct.2

theorem lookup_none {table : Table Row Key key check} {wanted : Key}
    (absent : table.lookup wanted = none) : ∀ row ∈ table.rows, key row ≠ wanted := by
  simpa [lookup] using absent

theorem filter_key (table : Table Row Key key check) (wanted : Key) :
    table.rows.filter (fun row => key row = wanted) = (table.lookup wanted).toList := by
  have distinct := table.distinct
  unfold lookup
  generalize table.rows = rows at distinct
  induction rows with
  | nil => rfl
  | cons first rest ih =>
      rw [List.map_cons, List.nodup_cons] at distinct
      by_cases same : key first = wanted
      · have none : rest.filter (fun row => key row = wanted) = [] := by
          simp only [List.filter_eq_nil_iff, decide_eq_true_eq]
          intro row member other
          exact distinct.1 (same.trans other.symm ▸ List.mem_map_of_mem member)
        simp [same, none]
      · simp [same, ih distinct.2]

/-- `INSERT .. ON CONFLICT DO NOTHING`, with the number of rows inserted. A row
that fails a check is refused whether or not it conflicts. -/
def insertIfAbsent (table : Table Row Key key check) (row : Row) :
    Option (Table Row Key key check × Nat) :=
  if checks : check row = true then
    match absent : table.lookup (key row) with
    | some _ => some (table, 0)
    | none => some (⟨table.rows ++ [row], by
        have fresh := lookup_none absent
        rw [List.map_append, List.nodup_append]
        refine ⟨table.distinct, by simp, ?_⟩
        simp only [List.mem_map, List.map_cons, List.map_nil, List.mem_singleton]
        rintro _ ⟨other, member, rfl⟩ _ rfl
        exact fresh other member, by
        simp only [List.mem_append, List.mem_singleton]
        rintro other (member | rfl)
        · exact table.checked other member
        · exact checks⟩, 1)
  else none

/-- `UPDATE .. WHERE`, with the number of rows changed. Keys and checked columns
stay as they are. -/
def update (table : Table Row Key key check) (selected : Row → Bool) (change : Row → Row)
    (sameKey : ∀ row, key (change row) = key row)
    (sameChecks : ∀ row, check (change row) = check row) : Table Row Key key check × Nat :=
  (⟨table.rows.map fun row => if selected row then change row else row, by
      have same : (table.rows.map fun row => if selected row then change row else row).map key =
          table.rows.map key := by
        rw [List.map_map]
        refine List.map_congr_left fun row _ => ?_
        simp only [Function.comp]
        split
        · exact sameKey row
        · rfl
      rw [same]
      exact table.distinct, by
      intro row member
      obtain ⟨old, present, rfl⟩ := List.mem_map.mp member
      split
      · rw [sameChecks]
        exact table.checked old present
      · exact table.checked old present⟩,
    table.rows.countP selected)

/-- `DELETE .. WHERE` -/
def delete (table : Table Row Key key check) (selected : Row → Bool) : Table Row Key key check :=
  ⟨table.rows.filter fun row => !selected row,
    table.distinct.sublist (List.filter_sublist.map key),
    fun row member => table.checked row (List.mem_filter.mp member).1⟩

/-- `INSERT .. ON CONFLICT DO UPDATE` -/
def upsert (table : Table Row Key key check) (row : Row) (change : Row → Row)
    (sameKey : ∀ row, key (change row) = key row)
    (sameChecks : ∀ row, check (change row) = check row) : Option (Table Row Key key check) :=
  match table.insertIfAbsent row with
  | none => none
  | some (_, 0) => some (table.update (fun old => key old = key row) change sameKey sameChecks).1
  | some (inserted, _) => some inserted

@[simp] theorem lookup_empty (wanted : Key) :
    (empty : Table Row Key key check).lookup wanted = none := rfl

theorem upsert_refused (table : Table Row Key key check) (row : Row) (change : Row → Row)
    (sameKey : ∀ row, key (change row) = key row)
    (sameChecks : ∀ row, check (change row) = check row) (fails : check row = false) :
    table.upsert row change sameKey sameChecks = none := by
  simp [upsert, insertIfAbsent, fails]

theorem insertIfAbsent_refused (table : Table Row Key key check) (row : Row)
    (fails : check row = false) : table.insertIfAbsent row = none := by
  simp [insertIfAbsent, fails]

theorem insertIfAbsent_present (table : Table Row Key key check) (row : Row) {held : Row}
    (checks : check row = true) (present : table.lookup (key row) = some held) :
    table.insertIfAbsent row = some (table, 0) := by
  unfold insertIfAbsent
  rw [dif_pos checks]
  split <;> rename_i found
  · rfl
  · rw [present] at found
    cases found

theorem insertIfAbsent_absent (table : Table Row Key key check) (row : Row)
    (checks : check row = true) (absent : table.lookup (key row) = none) :
    ∃ inserted, table.insertIfAbsent row = some (inserted, 1) ∧
      ∀ wanted, inserted.lookup wanted =
        if wanted = key row then some row else table.lookup wanted := by
  unfold insertIfAbsent
  rw [dif_pos checks]
  split <;> rename_i found
  · rw [absent] at found
    cases found
  · refine ⟨_, rfl, fun wanted => ?_⟩
    simp only [lookup, List.find?_append]
    by_cases same : wanted = key row
    · subst same
      have none : table.rows.find? (fun other => key other = key row) = none := absent
      simp [none]
    · have different : ¬ key row = wanted := fun other => same other.symm
      simp [same, different]

theorem lookup_update (table : Table Row Key key check) (selected : Row → Bool)
    (change : Row → Row) (sameKey : ∀ row, key (change row) = key row)
    (sameChecks : ∀ row, check (change row) = check row) (wanted : Key) :
    (table.update selected change sameKey sameChecks).1.lookup wanted =
      (table.lookup wanted).map fun row => if selected row then change row else row := by
  simp only [update, lookup, List.find?_map]
  congr 2
  funext row
  simp only [Function.comp]
  split
  · rw [sameKey]
  · rfl

/-- An update of one row under a condition counts that row. -/
theorem update_count (table : Table Row Key key check) (wanted : Key) (condition : Row → Bool)
    (change : Row → Row) (sameKey : ∀ row, key (change row) = key row)
    (sameChecks : ∀ row, check (change row) = check row) :
    (table.update (fun row => key row = wanted && condition row) change sameKey sameChecks).2 =
      if (table.lookup wanted).any condition then 1 else 0 := by
  have split : table.rows.countP (fun row => decide (key row = wanted) && condition row) =
      ((table.rows.filter fun row => key row = wanted).filter condition).length := by
    rw [List.countP_eq_length_filter, List.filter_filter]
    congr 2
    funext row
    exact Bool.and_comm _ _
  simp only [update, split, filter_key]
  cases table.lookup wanted with
  | none => rfl
  | some row => cases held : condition row <;> simp [held]

theorem lookup_delete (table : Table Row Key key check) (removed wanted : Key) :
    (table.delete fun row => key row = removed).lookup wanted =
      if wanted = removed then none else table.lookup wanted := by
  simp only [delete, lookup, List.find?_filter]
  by_cases same : wanted = removed
  · subst same
    rw [if_pos rfl, List.find?_eq_none]
    intro row _
    simp
  · rw [if_neg same]
    congr 1
    funext row
    by_cases held : key row = wanted
    · simp [held, same]
    · simp [held]

theorem upsert_lookup (table : Table Row Key key check) (row : Row) (change : Row → Row)
    (sameKey : ∀ row, key (change row) = key row)
    (sameChecks : ∀ row, check (change row) = check row) (checks : check row = true) :
    ∃ after, table.upsert row change sameKey sameChecks = some after ∧
      ∀ wanted, after.lookup wanted =
        if wanted = key row then some (((table.lookup wanted).map change).getD row)
        else table.lookup wanted := by
  unfold upsert
  cases found : table.lookup (key row) with
  | some held =>
      rw [insertIfAbsent_present table row checks found]
      refine ⟨_, rfl, fun wanted => ?_⟩
      rw [lookup_update]
      by_cases same : wanted = key row
      · subst same
        simp [found, lookup_key found]
      · rw [if_neg same]
        cases other : table.lookup wanted with
        | none => rfl
        | some found =>
            have different : ¬ key found = key row := (lookup_key other).symm ▸ same
            simp [different]
  | none =>
      obtain ⟨inserted, result, lookups⟩ := insertIfAbsent_absent table row checks found
      rw [result]
      refine ⟨inserted, rfl, fun wanted => ?_⟩
      rw [lookups]
      by_cases same : wanted = key row
      · subst same
        simp [found]
      · simp [same]

end Table
end MbxCache.Relational

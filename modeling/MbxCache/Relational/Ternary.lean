import MbxCache.Relational.Table

/-! Conditions over rows that may compare with `NULL`. -/

namespace MbxCache.Relational

/-- True, false, or unknown. -/
abbrev Truth := Option Bool

namespace Truth

variable {Row α : Type}

/-- Comparing with `NULL` is unknown. -/
def eq [DecidableEq α] (left right : Option α) : Truth :=
  match left, right with
  | some a, some b => some (a = b)
  | _, _ => none

protected def and : Truth → Truth → Truth
  | some false, _ | _, some false => some false
  | some true, some true => some true
  | _, _ => none

protected def not (truth : Truth) : Truth := truth.map (! ·)

/-- What a `WHERE` keeps. -/
def holds (truth : Truth) : Bool := truth == some true

/-- `EXISTS` is never unknown. -/
def anyRow (rows : List Row) (condition : Row → Truth) : Truth :=
  some (rows.any fun row => (condition row).holds)

theorem holds_eq [DecidableEq α] (left right : Option α) :
    (eq left right).holds = true ↔ ∃ a, left = some a ∧ right = some a := by
  cases left <;> cases right <;> simp [eq, holds, eq_comm]

theorem holds_and (left right : Truth) :
    (left.and right).holds = true ↔ left.holds = true ∧ right.holds = true := by
  rcases left with _ | _ | _ <;> rcases right with _ | _ | _ <;> simp [Truth.and, holds]

theorem holds_anyRow (rows : List Row) (condition : Row → Truth) :
    (anyRow rows condition).holds = true ↔ ∃ row ∈ rows, (condition row).holds = true := by
  simp [anyRow, holds]

/-- A `NOT EXISTS` holds where no row meets the condition, also for want of a value. -/
theorem holds_not_anyRow (rows : List Row) (condition : Row → Truth) :
    (anyRow rows condition).not.holds = true ↔
      ∀ row ∈ rows, ¬ (condition row).holds = true := by
  simp [anyRow, Truth.not, holds]

end Truth

namespace Table

variable {Row Key : Type} {key : Row → Key} {check : Row → Bool}

/-- `DELETE .. WHERE`, with the number of rows deleted. -/
def deleteWhere (table : Table Row Key key check) (condition : Row → Truth) :
    Table Row Key key check × Nat :=
  (table.delete fun row => (condition row).holds,
    table.rows.countP fun row => (condition row).holds)

theorem mem_deleteWhere (table : Table Row Key key check) (condition : Row → Truth) (row : Row) :
    row ∈ (table.deleteWhere condition).1.rows ↔
      row ∈ table.rows ∧ ¬ (condition row).holds = true := by
  simp [deleteWhere, delete]

theorem length_deleteWhere (table : Table Row Key key check) (condition : Row → Truth) :
    (table.deleteWhere condition).1.rows.length + (table.deleteWhere condition).2 =
      table.rows.length := by
  have kept : (table.rows.filter fun row => !(condition row).holds).length =
      table.rows.countP fun row => decide ¬ (condition row).holds = true := by
    rw [List.countP_eq_length_filter]
    congr 1
    exact List.filter_congr fun row _ => by simp
  have parts := List.length_eq_countP_add_countP (fun row => (condition row).holds) (l := table.rows)
  simp only [deleteWhere, delete]
  omega

theorem deleteWhere_none {table : Table Row Key key check} {condition : Row → Truth}
    (none : ∀ row ∈ table.rows, ¬ (condition row).holds = true) :
    table.deleteWhere condition = (table, 0) := by
  have kept : (table.rows.filter fun row => !(condition row).holds) = table.rows :=
    List.filter_eq_self.mpr fun row member => by simpa using none row member
  have gone : (table.rows.countP fun row => (condition row).holds) = 0 :=
    List.countP_eq_zero.mpr none
  unfold deleteWhere delete
  rw [Prod.mk.injEq]
  refine ⟨?_, gone⟩
  cases table
  simp only [Table.mk.injEq]
  exact kept

end Table
end MbxCache.Relational

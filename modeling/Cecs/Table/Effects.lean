import Cecs.Table.Rows

/-! # Rows gained and lost

What the operations on tables do to `ty`, to the columns and to the number of
rows, whatever the table. -/

namespace Cecs

open Foundation

namespace EntityTable

variable {Value : Type} {table after : EntityTable Value}

/-- The same type and columns, and `gained` rows more where `lost` rows are gone. -/
structure Counts (before after : EntityTable Value) (lost gained : Nat) : Prop where
  ty : after.ty = before.ty
  types : after.types = before.types
  rows : after.rows + lost = before.rows + gained

theorem Counts.refl (table : EntityTable Value) (rows : Nat) : Counts table table rows rows :=
  ⟨rfl, rfl, rfl⟩

theorem Counts.trans {middle : EntityTable Value} {lost gained lostNext gainedNext : Nat}
    (first : Counts table middle lost gained) (second : Counts middle after lostNext gainedNext) :
    Counts table after (lost + lostNext) (gained + gainedNext) :=
  ⟨second.ty.trans first.ty, second.types.trans first.types, by
    have rows := second.rows
    have firstRows := first.rows
    omega⟩

theorem dropRow_counts {index : Nat} (positive : 0 < table.rows) :
    Counts table (table.dropRow index) 1 0 :=
  ⟨rfl, types_dropRow index, by
    simp only [dropRow]
    omega⟩

theorem remove_eq_some {index : Nat} {moved : Option EntityId}
    (removed : table.remove index = some (moved, after)) :
    after = table.dropRow index ∧ 0 < table.rows ∧ index < table.entities.length ∧
      after.movedInto index = some moved := by
  simp only [remove, Option.bind_eq_bind, Option.bind_eq_some_iff, Option.guard_eq_some',
    Option.pure_def, Option.some.injEq, Prod.mk.injEq] at removed
  rcases removed with ⟨_, _, _, inRange, _, positive, _, moves, rfl, rfl⟩
  exact ⟨rfl, positive, inRange, moves⟩

theorem insertEntity_counts {id : EntityId} {index : Nat}
    (inserted : table.insertEntity id = some (index, after)) : Counts table after 0 1 := by
  simp only [insertEntity, Option.bind_eq_bind, Option.bind_eq_some_iff,
    Option.pure_def, Option.some.injEq, Prod.mk.injEq] at inserted
  rcases inserted with ⟨_, _, _, rfl⟩
  exact ⟨rfl, rfl, rfl⟩

theorem moveEntity_counts {target source grown : EntityTable Value} {index row : Nat}
    {moved : Option EntityId}
    (move : table.moveEntity target index = some (row, moved, source, grown)) :
    Counts table source 1 0 ∧ Counts target grown 0 1 := by
  simp only [moveEntity, Option.bind_eq_bind, Option.bind_eq_some_iff, Option.guard_eq_some',
    Option.pure_def, Option.some.injEq, Prod.mk.injEq] at move
  rcases move with ⟨_, _, _, positive, _, _, _, _, _, _, ⟨_, inserted⟩, insertion, _, _, _, _,
    rfl, rfl⟩
  have counts := insertEntity_counts insertion
  exact ⟨dropRow_counts positive, counts.ty,
    (BTreeMap.keySet_map ..).trans counts.types, counts.rows⟩

theorem moveEntityInto_counts {target source written : EntityTable Value}
    {index targetIndex : Nat} {moved : Option EntityId}
    (move : table.moveEntityInto index target targetIndex = some (moved, source, written)) :
    Counts table source 1 0 ∧ Counts target written 0 0 := by
  simp only [moveEntityInto, Option.bind_eq_bind, Option.bind_eq_some_iff,
    Option.guard_eq_some', Option.pure_def, Option.some.injEq, Prod.mk.injEq] at move
  rcases move with ⟨_, _, _, positive, _, _, _, _, _, _, _, rfl, rfl⟩
  exact ⟨dropRow_counts positive, rfl, BTreeMap.keySet_map .., rfl⟩

theorem mergeInto_counts {rhs target source written : EntityTable Value}
    {index targetIndex : Nat}
    (merge : table.mergeInto index rhs target targetIndex = some (source, written)) :
    Counts table source 1 0 ∧ Counts target written 0 0 := by
  simp only [mergeInto, Option.bind_eq_bind, Option.bind_eq_some_iff, Option.guard_eq_some',
    Option.pure_def, Option.some.injEq, Prod.mk.injEq] at merge
  rcases merge with ⟨_, _, _, _, _, _, _, _, _, positive, rfl, rfl⟩
  exact ⟨dropRow_counts positive, rfl, BTreeMap.keySet_map .., rfl⟩

theorem setComponent_counts {index : Nat} {ty : TypeId} {value : Value}
    (set : table.setComponent index ty value = some after) : Counts table after 0 0 := by
  simp only [setComponent, Option.bind_eq_bind, Option.bind_eq_some_iff, Option.pure_def,
    Option.some.injEq] at set
  rcases set with ⟨_, present, _, _, rfl⟩
  exact ⟨rfl, BTreeMap.keySet_insert_of_present present _, rfl⟩

theorem writeCell_counts (table : EntityTable Value) (ty : TypeId) (row : Nat)
    (value : Value) : Counts table (table.writeCell ty row value) 0 0 := by
  rw [writeCell]
  split
  · rename_i present
    exact ⟨rfl, BTreeMap.keySet_insert_of_present present _, rfl⟩
  · exact .refl table 0

theorem insertInto_counts {table after : EntityTable Value} {bundle : Bundle Value}
    {index : Nat} (inserted : bundle.insertInto table index = some after) :
    Counts table after 0 0 := by
  induction bundle generalizing table with
  | nil =>
      cases inserted
      exact .refl _ 0
  | cons entry bundle induction =>
      rw [Bundle.insertInto, List.foldlM_cons] at inserted
      rcases Option.bind_eq_some_iff.mp inserted with ⟨middle, set, rest⟩
      exact (setComponent_counts set).trans (induction rest)

theorem swapComponents_counts {a b : Nat}
    (swapped : table.swapComponents a b = some after) :
    Counts table after 0 0 ∧ after.entities = table.entities := by
  simp only [swapComponents, Option.bind_eq_bind, Option.bind_eq_some_iff, Option.pure_def,
    Option.some.injEq] at swapped
  rcases swapped with ⟨_, _, _, _, rfl⟩
  exact ⟨⟨rfl, BTreeMap.keySet_map .., rfl⟩, rfl⟩

section Listing

/-- The same entities in the same rows. -/
structure SameList (before after : EntityTable Value) : Prop where
  rows : after.rows = before.rows
  entities : after.entities = before.entities

theorem SameList.refl (table : EntityTable Value) : SameList table table := ⟨rfl, rfl⟩

theorem SameList.counted (same : SameList table after) (counted : table.Counted) :
    after.Counted := by
  rw [Counted, same.rows, same.entities]
  exact counted

/-- The entity has the last row. -/
structure Appends (before after : EntityTable Value) (id : EntityId) : Prop where
  counted : after.Counted
  entities : after.entities = before.entities ++ [id]

theorem Appends.sameList {middle : EntityTable Value} {id : EntityId}
    (appends : Appends table middle id) (same : SameList middle after) : Appends table after id :=
  ⟨same.counted appends.counted, same.entities.trans appends.entities⟩

theorem remove_listed (counted : table.Counted) {index : Nat} {moved : Option EntityId}
    (removed : table.remove index = some (moved, after)) :
    moved = (table.dropRow index).entities[index]? ∧ after = table.dropRow index := by
  rcases remove_eq_some removed with ⟨rfl, _, _, moves⟩
  rw [(counted.dropRow index).movedInto index, Option.some.injEq] at moves
  exact ⟨moves.symm, rfl⟩

theorem insertEntity_listed {id : EntityId} {index : Nat}
    (inserted : table.insertEntity id = some (index, after)) :
    index = table.rows ∧ Appends table after id := by
  simp only [insertEntity, Option.bind_eq_bind, Option.bind_eq_some_iff, Option.guard_eq_some',
    Option.pure_def, Option.some.injEq, Prod.mk.injEq, exists_const] at inserted
  rcases inserted with ⟨counted, rfl, rfl⟩
  exact ⟨rfl, counted.symm, rfl⟩

theorem moveEntity_listed {target source grown : EntityTable Value} {index row : Nat}
    {moved : Option EntityId}
    (move : table.moveEntity target index = some (row, moved, source, grown)) :
    ∃ id, table.entities[index]? = some id ∧ row = target.rows ∧
      moved = (table.dropRow index).entities[index]? ∧ source = table.dropRow index ∧
      Appends target grown id := by
  simp only [moveEntity, Option.bind_eq_bind, Option.bind_eq_some_iff, Option.guard_eq_some',
    Option.pure_def, Option.some.injEq, Prod.mk.injEq, exists_const] at move
  rcases move with ⟨counted, _, _, _, id, owner, ⟨_, inserted⟩, insertion, _, moves, rfl, rfl,
    rfl, rfl⟩
  rcases insertEntity_listed insertion with ⟨rfl, appends⟩
  rw [(Counted.dropRow counted.symm index).movedInto index, Option.some.injEq] at moves
  exact ⟨id, owner, rfl, moves.symm, rfl, Appends.sameList appends ⟨rfl, rfl⟩⟩

theorem moveEntityInto_listed (counted : table.Counted) {target source written : EntityTable Value}
    {index targetIndex : Nat} {moved : Option EntityId}
    (move : table.moveEntityInto index target targetIndex = some (moved, source, written)) :
    moved = (table.dropRow index).entities[index]? ∧ source = table.dropRow index ∧
      SameList target written := by
  simp only [moveEntityInto, Option.bind_eq_bind, Option.bind_eq_some_iff,
    Option.guard_eq_some', Option.pure_def, Option.some.injEq, Prod.mk.injEq,
    exists_const] at move
  rcases move with ⟨_, _, _, _, _, moves, rfl, rfl, rfl⟩
  rw [(counted.dropRow index).movedInto index, Option.some.injEq] at moves
  exact ⟨moves.symm, rfl, rfl, rfl⟩

theorem mergeInto_listed {rhs target source written : EntityTable Value}
    {index targetIndex : Nat}
    (merge : table.mergeInto index rhs target targetIndex = some (source, written)) :
    source = table.dropRow index ∧ SameList target written := by
  simp only [mergeInto, Option.bind_eq_bind, Option.bind_eq_some_iff, Option.guard_eq_some',
    Option.pure_def, Option.some.injEq, Prod.mk.injEq, exists_const] at merge
  rcases merge with ⟨_, _, _, _, _, rfl, rfl⟩
  exact ⟨rfl, rfl, rfl⟩

theorem setComponent_listed {index : Nat} {ty : TypeId} {value : Value}
    (set : table.setComponent index ty value = some after) : SameList table after := by
  simp only [setComponent, Option.bind_eq_bind, Option.bind_eq_some_iff, Option.pure_def,
    Option.some.injEq] at set
  rcases set with ⟨_, _, _, _, rfl⟩
  exact ⟨rfl, rfl⟩

theorem insertInto_listed {table after : EntityTable Value} {bundle : Bundle Value}
    {index : Nat} (inserted : bundle.insertInto table index = some after) :
    SameList table after := by
  induction bundle generalizing table with
  | nil =>
      cases inserted
      exact .refl _
  | cons entry bundle induction =>
      rw [Bundle.insertInto, List.foldlM_cons] at inserted
      rcases Option.bind_eq_some_iff.mp inserted with ⟨middle, set, rest⟩
      have first := setComponent_listed set
      have second := induction rest
      exact ⟨second.rows.trans first.rows, second.entities.trans first.entities⟩

theorem writeCell_listed (table : EntityTable Value) (ty : TypeId) (row : Nat) (value : Value) :
    SameList table (table.writeCell ty row value) := by
  rw [writeCell]
  split
  · exact ⟨rfl, rfl⟩
  · exact .refl table

end Listing

end EntityTable

end Cecs

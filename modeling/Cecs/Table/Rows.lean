import Cecs.Table

/-! # Tables as lists of rows

A table whose vectors all have the length `rows` is a list of entities with
their components. The operations on its columns are list operations on it. -/

namespace Cecs

open Foundation

namespace EntityTable

variable {Value : Type}

structure Aligned (table : EntityTable Value) : Prop where
  entities : table.entities.length = table.rows
  columns : ∀ (ty : TypeId) (column : Column Value), table.components[ty]? = some column →
    column.length = table.rows

/-- The component types of a table. -/
def types (table : EntityTable Value) : Finset TypeId := table.components.keySet

def row (table : EntityTable Value) (index : Nat) : Row Value :=
  fun ty => table.getComponent ty index

def rowList (table : EntityTable Value) : List (EntityId × Row Value) :=
  table.entities.mapIdx fun index id => (id, table.row index)

section Lookup

variable {table : EntityTable Value}

theorem containsColumn_iff {ty : TypeId} :
    table.containsColumn ty = true ↔ ∃ column, table.components[ty]? = some column :=
  BTreeMap.contains_eq_true

theorem mem_types {ty : TypeId} : ty ∈ table.types ↔ table.containsColumn ty = true := by
  rw [types, BTreeMap.mem_keySet, containsColumn_iff]

theorem getElem?_rowList (index : Nat) :
    table.rowList[index]? = table.entities[index]?.map fun id => (id, table.row index) := by
  simp [rowList]

@[simp] theorem length_rowList : table.rowList.length = table.entities.length := by
  simp [rowList]

theorem rowList_map_fst : table.rowList.map Prod.fst = table.entities := by
  apply List.ext_getElem?
  intro index
  rw [List.getElem?_map, getElem?_rowList]
  cases table.entities[index]? <;> rfl

/-- The cells fill the columns exactly. -/
def Fills (cells : Row Value) (table : EntityTable Value) : Prop :=
  ∀ ty, (cells ty).isSome = true ↔ ty ∈ table.types

/-- Every row of an aligned table has exactly the components of the table. -/
theorem Aligned.fills_row (aligned : table.Aligned) {index : Nat}
    (inRange : index < table.rows) : Fills (table.row index) table := by
  intro ty
  rw [mem_types, containsColumn_iff, row, getComponent]
  cases found : table.components[ty]? with
  | none => simp
  | some column =>
      have length := aligned.columns ty column found
      simp [length, inRange]

theorem Aligned.inRange (aligned : table.Aligned) {index : Nat} {id : EntityId}
    (owner : table.entities[index]? = some id) : index < table.rows := by
  rw [← aligned.entities]
  exact (List.getElem?_eq_some_iff.mp owner).1

theorem Aligned.columnsHold (aligned : table.Aligned) {index : Nat}
    (inRange : index < table.rows) : table.columnsHold index = true := by
  rw [EntityTable.columnsHold, BTreeMap.allEntries_eq_true]
  intro ty column found
  rw [aligned.columns ty column found]
  exact decide_eq_true inRange

/-- The number of rows is that of the entities. -/
def Counted (table : EntityTable Value) : Prop := table.entities.length = table.rows

theorem Counted.movedInto (counted : table.Counted) (index : Nat) :
    table.movedInto index = some table.entities[index]? := by
  rw [EntityTable.movedInto, ← counted]
  by_cases inRange : index < table.entities.length
  · simp [inRange]
  · simp [inRange]

theorem Aligned.movedInto (aligned : table.Aligned) (index : Nat) :
    table.movedInto index = some table.entities[index]? :=
  Counted.movedInto aligned.entities index

theorem Aligned.isEmpty_iff (aligned : table.Aligned) :
    table.isEmpty = true ↔ table.rowList = [] := by
  rw [isEmpty, beq_iff_eq, ← aligned.entities, ← length_rowList, List.length_eq_zero_iff]

end Lookup

section DropRow

variable {table : EntityTable Value}

theorem getElem?_components_dropRow (index : Nat) (ty : TypeId) :
    (table.dropRow index).components[ty]? =
      table.components[ty]?.map fun column => swapRemove column index := by
  simp [dropRow]

theorem types_dropRow (index : Nat) : (table.dropRow index).types = table.types := by
  ext ty
  simp only [mem_types, containsColumn_iff, getElem?_components_dropRow, Option.map_eq_some_iff]
  constructor
  · rintro ⟨_, column, found, _⟩
    exact ⟨column, found⟩
  · rintro ⟨column, found⟩
    exact ⟨_, column, found, rfl⟩

theorem Counted.dropRow (counted : table.Counted) (index : Nat) :
    (table.dropRow index).Counted := by
  rw [Counted] at counted ⊢
  simp only [EntityTable.dropRow, length_swapRemove, counted]

theorem Aligned.dropRow (aligned : table.Aligned) (index : Nat) :
    (table.dropRow index).Aligned where
  entities := Counted.dropRow aligned.entities index
  columns ty column found := by
    rw [getElem?_components_dropRow, Option.map_eq_some_iff] at found
    rcases found with ⟨before, foundBefore, rfl⟩
    simp only [EntityTable.dropRow, length_swapRemove, aligned.columns ty before foundBefore]

theorem Aligned.row_dropRow (aligned : table.Aligned) {index position : Nat}
    (within : position < table.rows - 1) :
    (table.dropRow index).row position =
      if position = index then table.row (table.rows - 1) else table.row position := by
  funext ty
  rw [row, getComponent, getElem?_components_dropRow]
  cases found : table.components[ty]? with
  | none => by_cases same : position = index <;> simp [same, row, getComponent, found]
  | some column =>
      have cells := getElem?_swapRemove column index position
      rw [aligned.columns ty column found, if_pos within] at cells
      simp only [Option.map_some, Option.bind_some, cells]
      by_cases same : position = index <;> simp [same, row, getComponent, found]

theorem Aligned.rowList_dropRow (aligned : table.Aligned) (index : Nat) :
    (table.dropRow index).rowList = swapRemove table.rowList index := by
  apply List.ext_getElem?
  intro position
  have ids : (table.dropRow index).entities[position]? = _ :=
    getElem?_swapRemove table.entities index position
  rw [aligned.entities] at ids
  rw [getElem?_rowList, ids, getElem?_swapRemove, length_rowList, aligned.entities]
  by_cases within : position < table.rows - 1
  · rw [if_pos within, if_pos within, aligned.row_dropRow within]
    by_cases same : position = index <;> simp [same, getElem?_rowList]
  · rw [if_neg within, if_neg within]
    rfl

theorem Aligned.remove_eq (aligned : table.Aligned) {index : Nat}
    (inRange : index < table.rows) :
    table.remove index =
      some ((table.dropRow index).entities[index]?, table.dropRow index) := by
  have positive : 0 < table.rows := by omega
  simp [remove, aligned.columnsHold inRange, aligned.entities, inRange, positive,
    (aligned.dropRow index).movedInto index]

end DropRow

section PushRow

/-- `after` is `before` with one more row; only the cells `cells` are filled in. -/
structure Extends (before after : EntityTable Value) (id : EntityId) (cells : Row Value) :
    Prop where
  ty : after.ty = before.ty
  rows : after.rows = before.rows + 1
  entities : after.entities = before.entities ++ [id]
  columns : ∀ ty : TypeId, after.components[ty]? =
    before.components[ty]?.map fun column => column ++ (cells ty).toList

variable {before after : EntityTable Value} {id : EntityId} {cells : Row Value}

theorem Extends.types (extended : Extends before after id cells) :
    after.types = before.types := by
  ext ty
  simp only [mem_types, containsColumn_iff, extended.columns, Option.map_eq_some_iff]
  constructor
  · rintro ⟨_, column, found, _⟩
    exact ⟨column, found⟩
  · rintro ⟨column, found⟩
    exact ⟨_, column, found, rfl⟩

/-- Cells of other types than the columns do not matter. -/
theorem Extends.congr (extended : Extends before after id cells) {same : Row Value}
    (agree : ∀ ty ∈ before.types, same ty = cells ty) : Extends before after id same where
  ty := extended.ty
  rows := extended.rows
  entities := extended.entities
  columns ty := by
    rw [extended.columns]
    cases found : before.components[ty]? with
    | none => rfl
    | some column =>
        rw [agree ty (mem_types.mpr (containsColumn_iff.mpr ⟨column, found⟩))]

theorem Aligned.insertEntity_eq (aligned : before.Aligned) (id : EntityId) :
    before.insertEntity id =
      some (before.rows,
        { before with entities := before.entities ++ [id], rows := before.rows + 1 }) := by
  simp [insertEntity, aligned.entities]

theorem extends_insertEntity (before : EntityTable Value) (id : EntityId) :
    Extends before
      { before with entities := before.entities ++ [id], rows := before.rows + 1 } id
      (fun _ => none) where
  ty := rfl
  rows := rfl
  entities := rfl
  columns ty := by simp

/-- A move removes the row from `src` and fills in the columns that `dst` shares. -/
theorem Aligned.moveEntity_eq {src dst : EntityTable Value} (alignedSrc : src.Aligned)
    (alignedDst : dst.Aligned) {index : Nat} (inRange : index < src.rows)
    (owner : src.entities[index]? = some id) :
    ∃ result, src.moveEntity dst index =
        some (dst.rows, (src.dropRow index).entities[index]?, src.dropRow index, result) ∧
      Extends dst result id (src.row index) := by
  have positive : 0 < src.rows := by omega
  refine ⟨{ dst with
      entities := dst.entities ++ [id]
      rows := dst.rows + 1
      components := pushRow dst.components src.components index }, ?_, rfl, rfl, rfl, ?_⟩
  · rcases List.getElem?_eq_some_iff.mp owner with ⟨_, ownerAt⟩
    simpa [moveEntity, alignedSrc.columnsHold inRange, alignedSrc.entities, inRange, positive,
      alignedDst.insertEntity_eq, (alignedSrc.dropRow index).movedInto index] using ownerAt
  · intro ty
    simp only [pushRow, Std.ExtTreeMap.getElem?_map]
    cases dst.components[ty]? with
    | none => rfl
    | some column =>
        cases shared : src.components[ty]? <;> simp [row, getComponent, shared]

theorem setComponent_eq {table : EntityTable Value} {ty : TypeId} {column : Column Value}
    (found : table.components[ty]? = some column) {index : Nat}
    (bound : index ≤ column.length) (value : Value) :
    table.setComponent index ty value = some { table with
      components := table.components.insert ty
        (if index = column.length then column ++ [value] else column.set index value) } := by
  simp only [setComponent, found]
  simp [bound]

theorem Extends.setComponent (extended : Extends before after id cells)
    (aligned : before.Aligned) {ty : TypeId} (present : ty ∈ before.types) (value : Value) :
    ∃ result, after.setComponent before.rows ty value = some result ∧
      Extends before result id (cells.insert ty value) := by
  rcases containsColumn_iff.mp (mem_types.mp present) with ⟨column, found⟩
  have length := aligned.columns ty column found
  have target : after.components[ty]? = some (column ++ (cells ty).toList) := by
    rw [extended.columns, found]
    rfl
  have written : (if before.rows = (column ++ (cells ty).toList).length then
      (column ++ (cells ty).toList) ++ [value]
      else (column ++ (cells ty).toList).set before.rows value) = column ++ [value] := by
    cases cells ty with
    | none => simp [length]
    | some old => simp [← length]
  refine ⟨{ after with components := after.components.insert ty (column ++ [value]) },
    ?_, extended.ty, extended.rows, extended.entities, ?_⟩
  · have bound : before.rows ≤ (column ++ (cells ty).toList).length := by
      simp [length]
    rw [setComponent_eq target bound, written]
  · intro other
    rw [BTreeMap.getElem?_insert, extended.columns]
    by_cases same : ty = other
    · subst same
      simp [found, Row.insert]
    · simp [same, Row.insert, Function.update_of_ne (Ne.symm same)]

theorem Extends.insertInto (extended : Extends before after id cells)
    (aligned : before.Aligned) {bundle : Bundle Value}
    (present : ∀ entry ∈ bundle, entry.1 ∈ before.types) :
    ∃ result, bundle.insertInto after before.rows = some result ∧
      Extends before result id (cells.insertBundle bundle) := by
  induction bundle generalizing after cells with
  | nil => exact ⟨after, rfl, extended⟩
  | cons entry bundle induction =>
      rcases extended.setComponent aligned (present entry List.mem_cons_self) entry.2 with
        ⟨middle, set, extendedMiddle⟩
      rcases induction extendedMiddle fun other member => present other
          (List.mem_cons_of_mem _ member) with
        ⟨result, inserted, extendedResult⟩
      refine ⟨result, ?_, extendedResult⟩
      rw [Bundle.insertInto, List.foldlM_cons, set]
      exact inserted

theorem Fills.of_column (full : Fills cells before) {ty : TypeId} {column : Column Value}
    (found : before.components[ty]? = some column) : ∃ value, cells ty = some value :=
  Option.isSome_iff_exists.mp
    ((full ty).mpr (mem_types.mpr (containsColumn_iff.mpr ⟨column, found⟩)))

theorem Fills.of_no_column (full : Fills cells before) {ty : TypeId}
    (found : before.components[ty]? = none) : cells ty = none := by
  rw [← Option.not_isSome_iff_eq_none, full ty, mem_types, containsColumn_iff, found]
  simp

theorem Extends.row (extended : Extends before after id cells) (aligned : before.Aligned)
    (full : Fills cells before) (position : Nat) :
    after.row position =
      if position < before.rows then before.row position
      else if position = before.rows then cells else fun _ => none := by
  funext ty
  simp only [EntityTable.row, getComponent, extended.columns]
  cases found : before.components[ty]? with
  | none =>
      have absent := full.of_no_column found
      by_cases within : position < before.rows
      · simp [within, EntityTable.row, getComponent, found]
      · by_cases last : position = before.rows <;> simp [last, within, absent]
  | some column =>
      rcases full.of_column found with ⟨value, cell⟩
      have length := aligned.columns ty column found
      simp only [Option.map_some, Option.bind_some, cell, Option.toList_some]
      by_cases within : position < before.rows
      · rw [if_pos within, List.getElem?_append_left (by omega)]
        simp [EntityTable.row, getComponent, found]
      · rw [if_neg within]
        by_cases last : position = before.rows
        · simp [last, cell, ← length]
        · have beyond : (column ++ [value]).length ≤ position := by
            rw [List.length_append, length, List.length_singleton]
            omega
          rw [if_neg last, List.getElem?_eq_none beyond]

/-- Once every column has its cell, the table is one row longer. -/
theorem Extends.complete (extended : Extends before after id cells)
    (aligned : before.Aligned) (full : Fills cells before) :
    after.Aligned ∧ after.rowList = before.rowList ++ [(id, cells)] := by
  refine ⟨⟨?_, ?_⟩, ?_⟩
  · rw [extended.entities, extended.rows, List.length_append, aligned.entities]
    rfl
  · intro ty column found
    rw [extended.columns, Option.map_eq_some_iff] at found
    rcases found with ⟨old, foundOld, rfl⟩
    rcases full.of_column foundOld with ⟨value, cell⟩
    simp [cell, extended.rows, aligned.columns ty old foundOld]
  · apply List.ext_getElem?
    intro position
    rw [getElem?_rowList, extended.entities, extended.row aligned full, List.getElem?_append,
      List.getElem?_append, getElem?_rowList, length_rowList, aligned.entities]
    by_cases within : position < before.rows
    · simp [within]
    · by_cases last : position = before.rows
      · simp [last]
      · cases difference : position - before.rows with
        | zero => omega
        | succ extra => simp [within]

end PushRow

section Overwrite

/-- `after` is `before` with the cells `cells` in row `index`. -/
structure Overwrites (before after : EntityTable Value) (index : Nat) (cells : Row Value) :
    Prop where
  ty : after.ty = before.ty
  rows : after.rows = before.rows
  entities : after.entities = before.entities
  columns : ∀ ty : TypeId, after.components[ty]? =
    before.components[ty]?.map fun column =>
      ((cells ty).map fun value => column.set index value).getD column

variable {before after : EntityTable Value} {index : Nat} {cells : Row Value}

theorem overwrites_self (before : EntityTable Value) (index : Nat) :
    Overwrites before before index (before.row index) where
  ty := rfl
  rows := rfl
  entities := rfl
  columns ty := by
    cases found : before.components[ty]? with
    | none => rfl
    | some column =>
        cases cell : column[index]? with
        | none => simp [row, getComponent, found, cell]
        | some value =>
            rcases List.getElem?_eq_some_iff.mp cell with ⟨inRange, valueAt⟩
            simp [row, getComponent, found, inRange]

theorem Overwrites.types (overwritten : Overwrites before after index cells) :
    after.types = before.types := by
  ext ty
  simp only [mem_types, containsColumn_iff, overwritten.columns, Option.map_eq_some_iff]
  constructor
  · rintro ⟨_, column, found, _⟩
    exact ⟨column, found⟩
  · rintro ⟨column, found⟩
    exact ⟨_, column, found, rfl⟩

theorem Overwrites.setComponent (overwritten : Overwrites before after index cells)
    (aligned : before.Aligned) (inRange : index < before.rows) {ty : TypeId}
    (present : ty ∈ before.types) (value : Value) :
    ∃ result, after.setComponent index ty value = some result ∧
      Overwrites before result index (cells.insert ty value) := by
  rcases containsColumn_iff.mp (mem_types.mp present) with ⟨column, found⟩
  have length := aligned.columns ty column found
  let current := ((cells ty).map fun value => column.set index value).getD column
  have target : after.components[ty]? = some current := by
    rw [overwritten.columns, found]
    rfl
  have currentLength : current.length = before.rows := by
    cases cell : cells ty <;> simp [current, cell, length]
  have written : current.set index value = column.set index value := by
    cases cell : cells ty <;> simp [current, cell]
  refine ⟨_, setComponent_eq target (by omega) value, overwritten.ty, overwritten.rows,
    overwritten.entities, ?_⟩
  intro other
  rw [if_neg (by omega), written, BTreeMap.getElem?_insert, overwritten.columns]
  by_cases same : ty = other
  · subst same
    simp [found, Row.insert]
  · simp [same, Row.insert, Function.update_of_ne (Ne.symm same)]

theorem Overwrites.insertInto (overwritten : Overwrites before after index cells)
    (aligned : before.Aligned) (inRange : index < before.rows) {bundle : Bundle Value}
    (present : ∀ entry ∈ bundle, entry.1 ∈ before.types) :
    ∃ result, bundle.insertInto after index = some result ∧
      Overwrites before result index (cells.insertBundle bundle) := by
  induction bundle generalizing after cells with
  | nil => exact ⟨after, rfl, overwritten⟩
  | cons entry bundle induction =>
      rcases overwritten.setComponent aligned inRange (present entry List.mem_cons_self)
          entry.2 with
        ⟨middle, set, overwrittenMiddle⟩
      rcases induction overwrittenMiddle fun other member => present other
          (List.mem_cons_of_mem _ member) with
        ⟨result, inserted, overwrittenResult⟩
      refine ⟨result, ?_, overwrittenResult⟩
      rw [Bundle.insertInto, List.foldlM_cons, set]
      exact inserted

theorem Overwrites.row (overwritten : Overwrites before after index cells)
    (aligned : before.Aligned) (inRange : index < before.rows) (full : Fills cells before)
    (position : Nat) :
    after.row position = if index = position then cells else before.row position := by
  funext ty
  simp only [EntityTable.row, getComponent, overwritten.columns]
  cases found : before.components[ty]? with
  | none =>
      have absent := full.of_no_column found
      by_cases same : index = position <;>
        simp [same, absent, EntityTable.row, getComponent, found]
  | some column =>
      rcases full.of_column found with ⟨value, cell⟩
      have length := aligned.columns ty column found
      by_cases same : index = position
      · subst same
        simp [cell, length, inRange]
      · simp [cell, same, EntityTable.row, getComponent, found]

theorem Overwrites.complete (overwritten : Overwrites before after index cells)
    (aligned : before.Aligned) {id : EntityId} (owner : before.entities[index]? = some id)
    (full : Fills cells before) :
    after.Aligned ∧ after.rowList = before.rowList.set index (id, cells) := by
  have inRange := aligned.inRange owner
  refine ⟨⟨?_, ?_⟩, ?_⟩
  · rw [overwritten.entities, overwritten.rows, aligned.entities]
  · intro ty column found
    rw [overwritten.columns, Option.map_eq_some_iff] at found
    rcases found with ⟨old, foundOld, rfl⟩
    have length := aligned.columns ty old foundOld
    rw [overwritten.rows]
    cases cells ty <;> simp [length]
  · apply List.ext_getElem?
    intro position
    rw [getElem?_rowList, overwritten.entities, List.getElem?_set, length_rowList,
      aligned.entities, getElem?_rowList, overwritten.row aligned inRange full]
    by_cases same : index = position
    · subst same
      rw [owner]
      simp [inRange]
    · simp [same]

end Overwrite

end EntityTable

end Cecs

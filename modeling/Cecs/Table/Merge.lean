import Cecs.Table.Shape

/-! # Merging rows

`merge_entities` makes a table for the union of two shapes and writes the row of
one entity over the row of another. In the merged row a cell of the first
overrides the cell of the second. -/

namespace Cecs

open Foundation

namespace Row

variable {Value : Type}

def overriddenBy (row other : Row Value) : Row Value := fun ty => (other ty).or (row ty)

theorem overriddenBy_isSome {row other : Row Value} {ty : TypeId} :
    (overriddenBy row other ty).isSome = true ↔
      (row ty).isSome = true ∨ (other ty).isSome = true := by
  rw [overriddenBy, Option.isSome_or, Bool.or_eq_true, or_comm]

end Row

namespace EntityTable

variable {Value : Type}

/-- The components of a row are those of its table. -/
theorem Aligned.fills_overriddenBy {left right target : EntityTable Value}
    (alignedLeft : left.Aligned) (alignedRight : right.Aligned) {i j : Nat}
    (inLeft : i < left.rows) (inRight : j < right.rows)
    (types : target.types = right.types ∪ left.types) :
    Fills (Row.overriddenBy (right.row j) (left.row i)) target := by
  intro ty
  rw [Row.overriddenBy_isSome, alignedRight.fills_row inRight ty,
    alignedLeft.fills_row inLeft ty, types, Finset.mem_union]

/-- A row with all the components overrides the whole other row. -/
theorem Aligned.overriddenBy_eq {left right : EntityTable Value}
    (alignedLeft : left.Aligned) (alignedRight : right.Aligned) {i j : Nat}
    (inLeft : i < left.rows) (inRight : j < right.rows)
    (types : left.types = right.types ∪ left.types) :
    Row.overriddenBy (right.row j) (left.row i) = left.row i := by
  funext ty
  cases cell : left.row i ty with
  | some value => simp [Row.overriddenBy, cell]
  | none =>
      have absent : ¬ty ∈ right.types := by
        intro member
        have inLeftTypes : ty ∈ left.types := types ▸ Finset.mem_union_left _ member
        rw [← alignedLeft.fills_row inLeft ty, cell] at inLeftTypes
        cases inLeftTypes
      rw [← alignedRight.fills_row inRight ty, Option.not_isSome_iff_eq_none] at absent
      simp [Row.overriddenBy, cell, absent]

/-- A row that is listed under another id stays as it is. -/
theorem Aligned.setEntity {table : EntityTable Value} (aligned : table.Aligned) {index : Nat}
    (inRange : index < table.rows) (id : EntityId) :
    Aligned { table with entities := table.entities.set index id } ∧
      rowList { table with entities := table.entities.set index id } =
        table.rowList.set index (id, table.row index) := by
  refine ⟨⟨by simp [aligned.entities], aligned.columns⟩, ?_⟩
  apply List.ext_getElem?
  intro position
  rw [getElem?_rowList, List.getElem?_set, List.getElem?_set, length_rowList,
    getElem?_rowList]
  by_cases same : index = position
  · subst same
    rw [if_pos rfl, if_pos rfl, aligned.entities, if_pos inRange, if_pos inRange]
    rfl
  · rw [if_neg same, if_neg same]
    rfl

section Shape

variable [UnitTypeId]

/-- `merged` is `extend_with_column` along the other table's columns. -/
theorem merged_eq_extendTypes (table other : EntityTable Value) :
    table.merged other = other.components.keys.foldl extendWithColumn table.cloneEmpty := by
  -- The test whether `table` has the column is also one of the table built so far.
  have along : ∀ (keys : List TypeId) (result : EntityTable Value), keys.Nodup →
      (∀ ty ∈ keys, result.containsColumn ty = table.containsColumn ty) →
      keys.foldl
        (fun result ty =>
          if table.containsColumn ty then result
          else { result with
            ty := result.extendedHash ty
            components := result.components.insert ty [] })
        result = keys.foldl extendWithColumn result := by
    intro keys
    induction keys with
    | nil => exact fun _ _ _ => rfl
    | cons ty keys induction =>
        intro result distinct same
        rw [List.nodup_cons] at distinct
        have step : (if table.containsColumn ty then result
            else { result with
              ty := result.extendedHash ty
              components := result.components.insert ty [] }) =
            result.extendWithColumn ty := by
          rw [extendWithColumn, same ty List.mem_cons_self]
        rw [List.foldl_cons, List.foldl_cons, step]
        apply induction _ distinct.2
        intro other member
        have different : ty ≠ other := fun equal => distinct.1 (equal ▸ member)
        rw [← same other (List.mem_cons_of_mem _ member), Bool.eq_iff_iff, ← mem_types,
          ← mem_types, types_extendWithColumn, Finset.mem_insert]
        simp [Ne.symm different]
  apply along _ _ Std.ExtTreeMap.nodup_keys
  intro ty _
  rw [Bool.eq_iff_iff, ← mem_types, ← mem_types, types_cloneEmpty]

theorem blank_merged (table other : EntityTable Value) : (table.merged other).Blank := by
  rw [merged_eq_extendTypes]
  exact blank_foldl_extendWithColumn (blank_cloneEmpty table) other.components.keys

theorem Shaped.merged {table : EntityTable Value} (shaped : table.Shaped)
    (other : EntityTable Value) :
    (table.merged other).Blank ∧ (table.merged other).Shaped ∧
      (table.merged other).types = table.types ∪ other.types := by
  rw [merged_eq_extendTypes]
  exact shaped.extendTypes other.components.keys

end Shape

section Rows

variable {src dst : EntityTable Value} {srcIndex dstIndex : Nat}

/-- What a cell of `src` does to the column of `dst` it is written over. -/
theorem getElem?_overwriteRow (ty : TypeId) :
    (overwriteRow dst.components src.components srcIndex dstIndex)[ty]? =
      dst.components[ty]?.map fun column =>
        ((src.row srcIndex ty).map fun value => column.set dstIndex value).getD column := by
  simp only [overwriteRow, Std.ExtTreeMap.getElem?_map]
  cases dst.components[ty]? with
  | none => rfl
  | some column =>
      cases shared : src.components[ty]? <;> simp [row, getComponent, shared]

/-- `move_entity_into` removes the row from `src` and writes it over that of `dst`. -/
theorem Aligned.moveEntityInto_eq (alignedSrc : src.Aligned) (alignedDst : dst.Aligned)
    (inSrc : srcIndex < src.rows) (inDst : dstIndex < dst.rows) :
    ∃ result, src.moveEntityInto srcIndex dst dstIndex =
        some ((src.dropRow srcIndex).entities[srcIndex]?, src.dropRow srcIndex, result) ∧
      Overwrites dst result dstIndex
        (Row.overriddenBy (dst.row dstIndex) (src.row srcIndex)) := by
  have positive : 0 < src.rows := by omega
  have shared : sharedColumnsHold dst.components src.components dstIndex = true := by
    rw [sharedColumnsHold, BTreeMap.allEntries_eq_true]
    intro ty column found
    simp [alignedDst.columns ty column found, inDst]
  refine ⟨{ dst with
      components := overwriteRow dst.components src.components srcIndex dstIndex },
    ?_, rfl, rfl, rfl, ?_⟩
  · simp [moveEntityInto, alignedSrc.columnsHold inSrc, alignedSrc.entities, inSrc, positive,
      shared, (alignedSrc.dropRow srcIndex).movedInto srcIndex]
  · intro ty
    rw [getElem?_overwriteRow]
    -- A cell that stays is written over itself.
    have kept := (overwrites_self dst dstIndex).columns ty
    cases cell : src.row srcIndex ty with
    | none => simpa [Row.overriddenBy, cell] using kept
    | some value => simp [Row.overriddenBy, cell]

/-- The columns of `src` fill up the row that `rhs` began in the merged table. -/
theorem Aligned.mergeInto_eq {rhs merged begun : EntityTable Value} {id : EntityId}
    {rhsIndex : Nat} (alignedSrc : src.Aligned) (alignedRhs : rhs.Aligned)
    (alignedMerged : merged.Aligned) (inSrc : srcIndex < src.rows)
    (inRhs : rhsIndex < rhs.rows) (types : merged.types = rhs.types ∪ src.types)
    (extended : Extends merged begun id (rhs.row rhsIndex)) :
    ∃ result, src.mergeInto srcIndex rhs begun merged.rows =
        some (src.dropRow srcIndex, result) ∧
      Extends merged result id (Row.overriddenBy (rhs.row rhsIndex) (src.row srcIndex)) := by
  have positive : 0 < src.rows := by omega
  have columns : (src.components.keys.all fun ty => begun.components.contains ty) = true := by
    rw [List.all_eq_true]
    intro ty member
    have present : ty ∈ begun.types := by
      rw [extended.types, types, Finset.mem_union]
      exact Or.inr (List.mem_toFinset.mpr member)
    exact mem_types.mp present
  have filled : ∀ (ty : TypeId) (column : Column Value), begun.components[ty]? = some column →
      ty ∈ rhs.types → merged.rows < column.length := by
    intro ty column found present
    rw [extended.columns, Option.map_eq_some_iff] at found
    rcases found with ⟨before, foundBefore, rfl⟩
    rcases Option.isSome_iff_exists.mp ((alignedRhs.fills_row inRhs ty).mpr present) with
      ⟨value, cell⟩
    simp [cell, alignedMerged.columns ty before foundBefore]
  have shared : (begun.components.allEntries fun ty column =>
      !(src.components.contains ty && rhs.components.contains ty) ||
        decide (merged.rows < column.length)) = true := by
    rw [BTreeMap.allEntries_eq_true]
    intro ty column found
    cases inBoth : src.components.contains ty && rhs.components.contains ty with
    | false => rfl
    | true =>
        rw [Bool.and_eq_true] at inBoth
        simpa using filled ty column found (mem_types.mpr inBoth.2)
  refine ⟨{ begun with
      components := mergeRow begun.components src.components rhs srcIndex merged.rows },
    ?_, extended.ty, extended.rows, extended.entities, ?_⟩
  · simp only [mergeInto, columns, shared]
    simp [alignedSrc.columnsHold inSrc, alignedSrc.entities, inSrc, positive]
  · intro ty
    simp only [mergeRow, Std.ExtTreeMap.getElem?_map, extended.columns]
    cases foundMerged : merged.components[ty]? with
    | none => rfl
    | some column =>
        have length := alignedMerged.columns ty column foundMerged
        cases foundSrc : src.components[ty]? with
        | none => simp [Row.overriddenBy, row, getComponent, foundSrc]
        | some source =>
            have inSource : srcIndex < source.length := by
              rw [alignedSrc.columns ty source foundSrc]
              exact inSrc
            have cell : src.row srcIndex ty = some source[srcIndex] := by
              simp [row, getComponent, foundSrc, inSource]
            cases foundRhs : rhs.components[ty]? with
            | none =>
                have absent : rhs.components.contains ty = false :=
                  BTreeMap.contains_eq_false.mpr foundRhs
                have missing : rhs.row rhsIndex ty = none := by
                  simp [row, getComponent, foundRhs]
                simp [Row.overriddenBy, cell, missing, absent, inSource]
            | some other =>
                have present : rhs.components.contains ty = true :=
                  BTreeMap.contains_eq_true.mpr ⟨other, foundRhs⟩
                have inOther : rhsIndex < other.length := by
                  rw [alignedRhs.columns ty other foundRhs]
                  exact inRhs
                have old : rhs.row rhsIndex ty = some other[rhsIndex] := by
                  simp [row, getComponent, foundRhs, inOther]
                simp [Row.overriddenBy, cell, old, present, inSource, ← length]

end Rows

end EntityTable

end Cecs

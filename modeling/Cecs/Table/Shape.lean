import Cecs.Table.Rows

/-! # Shapes of tables

The shape of a table is the set of its component types; its `ty` is the hash of
that set. The functions that build a new table keep the two in step. -/

namespace Cecs

open Foundation

namespace EntityTable

variable {Value : Type} [UnitTypeId] {table : EntityTable Value}

/-- The unit column is there and `ty` is the hash of the component types. -/
structure Shaped (table : EntityTable Value) : Prop where
  unitColumn : unitTypeId ∈ table.types
  hashed : table.ty = hashTypes table.types

omit [UnitTypeId] in
theorem types_eq_of_columns {left right : EntityTable Value}
    (same : ∀ ty : TypeId, (∃ column, left.components[ty]? = some column) ↔
      ∃ column, right.components[ty]? = some column) : left.types = right.types := by
  ext ty
  rw [mem_types, mem_types, containsColumn_iff, containsColumn_iff]
  exact same ty

omit [UnitTypeId] in
theorem types_insert_column (table : EntityTable Value) (ty : TypeId) (column : Column Value)
    (hash : TypeHash) :
    types { table with ty := hash, components := table.components.insert ty column } =
      insert ty table.types := by
  ext other
  simp only [mem_types, containsColumn_iff, Finset.mem_insert, BTreeMap.getElem?_insert]
  by_cases same : ty = other
  · simp [same]
  · simp [same, Ne.symm same]

omit [UnitTypeId] in
theorem types_erase_column (table : EntityTable Value) (ty : TypeId) (hash : TypeHash) :
    types { table with ty := hash, components := table.components.erase ty } =
      table.types.erase ty := by
  ext other
  simp only [mem_types, containsColumn_iff, Finset.mem_erase, BTreeMap.getElem?_erase]
  by_cases same : ty = other
  · simp [same]
  · simp [same, Ne.symm same]

omit [UnitTypeId] in
@[simp] theorem types_cloneEmpty (table : EntityTable Value) :
    table.cloneEmpty.types = table.types := by
  apply types_eq_of_columns
  intro ty
  simp [cloneEmpty]

/-- The table has no rows at all. -/
structure Blank (table : EntityTable Value) : Prop where
  rows : table.rows = 0
  entities : table.entities = []
  columns : ∀ (ty : TypeId) (column : Column Value), table.components[ty]? = some column →
    column = []

omit [UnitTypeId] in
theorem Blank.aligned (blank : table.Blank) : table.Aligned where
  entities := by rw [blank.entities, blank.rows, List.length_nil]
  columns ty column found := by
    rw [blank.columns ty column found, blank.rows, List.length_nil]

omit [UnitTypeId] in
theorem Blank.rowList (blank : table.Blank) : table.rowList = [] := by
  rw [EntityTable.rowList, blank.entities]
  rfl

omit [UnitTypeId] in
theorem blank_cloneEmpty (table : EntityTable Value) : table.cloneEmpty.Blank where
  rows := rfl
  entities := rfl
  columns ty column found := by
    simp only [cloneEmpty, Std.ExtTreeMap.getElem?_map, Option.map_eq_some_iff] at found
    rcases found with ⟨_, _, rfl⟩
    rfl

theorem blank_empty : (empty : EntityTable Value).Blank where
  rows := rfl
  entities := rfl
  columns ty column found := by
    simp only [empty, BTreeMap.getElem?_insert] at found
    split at found
    · exact (Option.some.inj found).symm
    · simp at found

theorem types_empty : (empty : EntityTable Value).types = {unitTypeId} := by
  ext ty
  simp only [mem_types, containsColumn_iff, empty, BTreeMap.getElem?_insert,
    Finset.mem_singleton]
  by_cases same : unitTypeId = ty
  · simp [same]
  · simp [same, Ne.symm same]

theorem hashTypes_unit : hashTypes {unitTypeId} = VOID_TY := by
  simp [hashTypes, xorSum, VOID_TY]

theorem shaped_empty : (empty : EntityTable Value).Shaped where
  unitColumn := by
    rw [types_empty]
    exact Finset.mem_singleton_self _
  hashed := by
    rw [types_empty, hashTypes_unit]
    exact hashTypeId_unitTypeId

theorem hashTypes_insert {types : Finset TypeId} {ty : TypeId} (fresh : ty ∉ types) :
    hashTypes (insert ty types) = hashTypes types ^^^ hashTypeId ty := by
  rw [hashTypes, xorSum_insert hashTypeId fresh, BitVec.xor_comm]
  rfl

section Extend

theorem types_extendWithColumn (ty : TypeId) :
    (table.extendWithColumn ty).types = insert ty table.types := by
  rw [extendWithColumn]
  by_cases present : table.containsColumn ty = true
  · rw [if_pos present, Finset.insert_eq_of_mem (mem_types.mpr present)]
  · rw [if_neg present, types_insert_column]

theorem hashed_extendWithColumn (hashed : table.ty = hashTypes table.types) (ty : TypeId) :
    (table.extendWithColumn ty).ty = hashTypes (table.extendWithColumn ty).types := by
  rw [types_extendWithColumn, extendWithColumn]
  by_cases present : table.containsColumn ty = true
  · rw [if_pos present, Finset.insert_eq_of_mem (mem_types.mpr present), hashed]
  · have fresh : ty ∉ table.types := fun member => present (mem_types.mp member)
    rw [if_neg present, hashTypes_insert fresh, ← hashed]
    rfl

theorem blank_extendWithColumn (blank : table.Blank) (ty : TypeId) :
    (table.extendWithColumn ty).Blank := by
  rw [extendWithColumn]
  by_cases present : table.containsColumn ty = true
  · rw [if_pos present]
    exact blank
  · rw [if_neg present]
    refine ⟨blank.rows, blank.entities, ?_⟩
    intro other column found
    rw [BTreeMap.getElem?_insert] at found
    split at found
    · exact (Option.some.inj found).symm
    · exact blank.columns other column found

theorem blank_foldl_extendWithColumn (blank : table.Blank) (types : List TypeId) :
    (types.foldl extendWithColumn table).Blank := by
  induction types generalizing table with
  | nil => exact blank
  | cons ty types induction => exact induction (blank_extendWithColumn blank ty)

/-- What `extend_with_column` does along a list of types. -/
theorem extendWithColumn_foldl (hashed : table.ty = hashTypes table.types)
    (types : List TypeId) :
    let result := types.foldl extendWithColumn table
    result.ty = hashTypes result.types ∧ result.types = table.types ∪ types.toFinset := by
  induction types generalizing table with
  | nil => exact ⟨hashed, by simp⟩
  | cons ty types induction =>
      rcases induction (hashed_extendWithColumn hashed ty) with ⟨hashedResult, typesResult⟩
      refine ⟨hashedResult, typesResult.trans ?_⟩
      rw [types_extendWithColumn, List.toFinset_cons, Finset.insert_union,
        Finset.union_insert]

/-- A table without rows that got columns for more types. -/
theorem Shaped.extendTypes (shaped : table.Shaped) (types : List TypeId) :
    let result := types.foldl extendWithColumn table.cloneEmpty
    result.Blank ∧ result.Shaped ∧ result.types = table.types ∪ types.toFinset := by
  have hashed : table.cloneEmpty.ty = hashTypes table.cloneEmpty.types := by
    rw [types_cloneEmpty]
    exact shaped.hashed
  have blank := blank_foldl_extendWithColumn (blank_cloneEmpty table) types
  rcases extendWithColumn_foldl hashed types with ⟨hashedResult, typesResult⟩
  rw [types_cloneEmpty] at typesResult
  refine ⟨blank, ⟨?_, hashedResult⟩, typesResult⟩
  rw [typesResult]
  exact Finset.mem_union_left _ shaped.unitColumn

theorem Shaped.extend (shaped : table.Shaped) (bundle : Bundle Value) :
    (bundle.extend table).Blank ∧ (bundle.extend table).Shaped ∧
      (bundle.extend table).types = table.types ∪ bundle.types := by
  have extended := shaped.extendTypes (bundle.map Prod.fst)
  rw [List.foldl_map] at extended
  exact extended

theorem blank_extend (bundle : Bundle Value) (table : EntityTable Value) :
    (bundle.extend table).Blank := by
  have blank := blank_foldl_extendWithColumn (blank_cloneEmpty table) (bundle.map Prod.fst)
  rw [List.foldl_map] at blank
  exact blank

/-- A hash that is updated type by type, where a type is new to the table. -/
theorem Shaped.foldl_hash (shaped : table.Shaped) {types : List TypeId}
    (distinct : types.Nodup) :
    types.foldl
        (fun hash ty => if table.containsColumn ty then hash else hash ^^^ hashTypeId ty)
        table.ty = hashTypes (table.types ∪ types.toFinset) := by
  -- `seen` are the types hashed so far: those of the table and of the front of the list.
  have along : ∀ (rest : List TypeId) (seen : Finset TypeId), table.types ⊆ seen →
      rest.Nodup → (∀ ty ∈ rest, ty ∈ seen → ty ∈ table.types) →
      rest.foldl
          (fun hash ty => if table.containsColumn ty then hash else hash ^^^ hashTypeId ty)
        (hashTypes seen) = hashTypes (seen ∪ rest.toFinset) := by
    intro rest
    induction rest with
    | nil => simp
    | cons ty rest induction =>
        intro seen covers distinct apart
        rw [List.nodup_cons] at distinct
        have step : (if table.containsColumn ty then hashTypes seen
            else hashTypes seen ^^^ hashTypeId ty) = hashTypes (insert ty seen) := by
          by_cases present : table.containsColumn ty = true
          · rw [if_pos present, Finset.insert_eq_of_mem (covers (mem_types.mpr present))]
          · have fresh : ty ∉ seen := fun member =>
              present (mem_types.mp (apart ty List.mem_cons_self member))
            rw [if_neg present, hashTypes_insert fresh]
        rw [List.foldl_cons, step, induction (insert ty seen)]
        · rw [List.toFinset_cons, Finset.insert_union, Finset.union_insert]
        · exact fun other member => Finset.mem_insert_of_mem (covers member)
        · exact distinct.2
        · intro other member inserted
          rcases Finset.mem_insert.mp inserted with same | before
          · exact absurd (same ▸ member) distinct.1
          · exact apart other (List.mem_cons_of_mem _ member) before
  rw [shaped.hashed]
  exact along types table.types (Finset.Subset.refl _) distinct fun _ _ present => present

/-- The hash that `compute_hash_from_table` looks up belongs to the union. -/
theorem Shaped.computeHashFromTable (shaped : table.Shaped) {bundle : Bundle Value}
    (distinct : bundle.Distinct) :
    bundle.computeHashFromTable table = hashTypes (table.types ∪ bundle.types) := by
  have hashed := shaped.foldl_hash distinct
  rw [List.foldl_map] at hashed
  exact hashed

end Extend

section Reduce

theorem blank_reduce (table : EntityTable Value) (ty : TypeId) :
    (table.cloneEmpty.reduceWithColumn ty).Blank := by
  have blank := blank_cloneEmpty table
  rw [reduceWithColumn]
  split
  · refine ⟨blank.rows, blank.entities, ?_⟩
    intro other erased found
    rw [BTreeMap.getElem?_erase] at found
    split at found
    · cases found
    · exact blank.columns other erased found
  · exact blank

theorem Shaped.reduce (shaped : table.Shaped) {ty : TypeId} (notUnit : ty ≠ unitTypeId)
    (present : ty ∈ table.types) :
    (table.cloneEmpty.reduceWithColumn ty).Blank ∧
      (table.cloneEmpty.reduceWithColumn ty).Shaped ∧
      (table.cloneEmpty.reduceWithColumn ty).types = table.types.erase ty ∧
      (table.cloneEmpty.reduceWithColumn ty).ty = table.extendedHash ty := by
  have column : table.cloneEmpty.containsColumn ty = true := by
    rw [← mem_types, types_cloneEmpty]
    exact present
  refine ⟨blank_reduce table ty, ?_⟩
  rw [reduceWithColumn, if_pos column]
  have types := types_erase_column table.cloneEmpty ty (table.cloneEmpty.extendedHash ty)
  rw [types_cloneEmpty] at types
  refine ⟨⟨?_, ?_⟩, types, rfl⟩
  · rw [types]
    exact Finset.mem_erase.mpr ⟨notUnit.symm, shaped.unitColumn⟩
  · rw [types, hashTypes, xorSum_erase hashTypeId present]
    change table.ty ^^^ hashTypeId ty = _
    rw [shaped.hashed]
    rfl

/-- The hash that `remove_component` looks up, whatever the columns hash to. -/
theorem ty_reduceWithColumn_cloneEmpty {ty : TypeId} (present : table.containsColumn ty = true) :
    (table.cloneEmpty.reduceWithColumn ty).ty = table.extendedHash ty := by
  have column : table.cloneEmpty.containsColumn ty = true := by
    rw [← mem_types, types_cloneEmpty, mem_types]
    exact present
  rw [reduceWithColumn, if_pos column]
  rfl

theorem Shaped.extendedHash (shaped : table.Shaped) {ty : TypeId} (present : ty ∈ table.types) :
    table.extendedHash ty = hashTypes (table.types.erase ty) := by
  rw [EntityTable.extendedHash, shaped.hashed, hashTypes, hashTypes,
    xorSum_erase hashTypeId present]

end Reduce

omit [UnitTypeId] in
theorem canInsert_iff {bundle : Bundle Value} :
    bundle.canInsert table = true ↔ bundle.types ⊆ table.types := by
  simp only [Bundle.canInsert, List.all_eq_true, ← mem_types, Finset.subset_iff, Bundle.types,
    List.mem_toFinset, List.mem_map]
  constructor
  · rintro all ty ⟨entry, member, rfl⟩
    exact all entry member
  · exact fun all entry member => all ⟨entry, member, rfl⟩

end EntityTable

end Cecs

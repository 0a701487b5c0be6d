import Cecs.EntityIndex.Alike
import Cecs.Foundation.RowStore
import Cecs.Table.Shape
import Cecs.World

/-! # Well-formed worlds

The index and the tables of a world are a store of rows with back pointers, and
what the store looks up is the abstract map from entities to components. -/

namespace Cecs

open Foundation

namespace World

variable {Value : Type}

/-- The index is the directory, the tables in memory are the tables. -/
def store (w : World Value) : RowStore Ptr EntityId (Row Value) where
  place := w.entityIds.place
  rows ptr := ((w.tables ptr).map EntityTable.rowList).getD []

/-- The components of every live entity. -/
def view (w : World Value) : EntityId → Option (Row Value) := w.store.view

/-- Index and tables name each other and the columns of a table are `rows` long. -/
structure Consistent (w : World Value) : Prop where
  index : ∃ slots, w.entityIds.Sound slots
  aligned : ∀ ptr table, w.tables ptr = some table → table.Aligned
  linked : w.store.Linked

/-- Every table in memory is owned by one of the two maps, under its `ty`. -/
structure Owned (w : World Value) : Prop where
  archetypes : ∀ (key : TypeHash) (ptr : Ptr), w.archetypes[key]? = some ptr →
    ∃ table, w.tables ptr = some table ∧ table.ty = key
  staging : ∀ (key : TypeHash) (ptr : Ptr), w.archetypesStaging[key]? = some ptr →
    ∃ table, w.tables ptr = some table ∧ table.ty = key
  owner : ∀ ptr table, w.tables ptr = some table →
    w.archetypes[table.ty]? = some ptr ∨ w.archetypesStaging[table.ty]? = some ptr
  unshared : ∀ (key : TypeHash) (ptr : Ptr), w.archetypes[key]? = some ptr →
    w.archetypesStaging[key]? ≠ some ptr
  fresh : ∀ ptr table, w.tables ptr = some table → ptr < w.nextTable

/-- The part of well-formedness that does not mention the index: every table has
the unit column and the hash of its columns, and new entities have a table. -/
structure Formed [UnitTypeId] (w : World Value) : Prop extends Owned w where
  aligned : ∀ ptr table, w.tables ptr = some table → table.Aligned
  shaped : ∀ ptr table, w.tables ptr = some table → table.Shaped
  void : ∃ ptr table, w.archetypes[VOID_TY]? = some ptr ∧ w.tables ptr = some table ∧
    table.types = {unitTypeId}

structure WellFormed [UnitTypeId] (w : World Value) : Prop extends Consistent w, Formed w

section Store

variable {w : World Value}

theorem rows_store_of_table {ptr : Ptr} {table : EntityTable Value}
    (found : w.tables ptr = some table) : w.store.rows ptr = table.rowList := by
  simp [store, found]

theorem keys_store_of_table {ptr : Ptr} {table : EntityTable Value}
    (found : w.tables ptr = some table) : w.store.keys ptr = table.entities := by
  rw [RowStore.keys, rows_store_of_table found, EntityTable.rowList_map_fst]

theorem view_eq_none_iff (consistent : w.Consistent) {id : EntityId} :
    w.view id = none ↔ w.entityIds.place id = none :=
  consistent.linked.view_eq_none_iff

/-- A live entity names a table and a row of it that holds exactly this entity. -/
theorem Consistent.table_of_place (consistent : w.Consistent) {id : EntityId} {ptr : Ptr}
    {index : Nat} (placed : w.entityIds.place id = some (ptr, index)) :
    ∃ table, w.tables ptr = some table ∧ table.Aligned ∧ index < table.rows ∧
      table.entities[index]? = some id ∧ w.view id = some (table.row index) := by
  rcases consistent.linked.getElem?_rows placed with ⟨row, rowAt, viewed⟩
  cases found : w.tables ptr with
  | none => simp [store, found] at rowAt
  | some table =>
      have aligned := consistent.aligned ptr table found
      rw [rows_store_of_table found, EntityTable.getElem?_rowList,
        Option.map_eq_some_iff] at rowAt
      rcases rowAt with ⟨owner, ownerAt, pair⟩
      rcases Prod.mk.inj pair with ⟨rfl, rfl⟩
      exact ⟨table, rfl, aligned, aligned.inRange ownerAt, ownerAt, viewed⟩

/-- The same, from the abstract map. -/
theorem Consistent.table_of_view (consistent : w.Consistent) {id : EntityId} {row : Row Value}
    (live : w.view id = some row) :
    ∃ ptr index table, w.entityIds.read id = .ok (ptr, index) ∧ w.tables ptr = some table ∧
      table.Aligned ∧ index < table.rows ∧ table.entities[index]? = some id ∧
      table.row index = row := by
  obtain ⟨⟨ptr, index⟩, placed⟩ : ∃ spot, w.entityIds.place id = some spot := by
    rw [← Option.ne_none_iff_exists']
    intro absent
    rw [(view_eq_none_iff consistent).mpr absent] at live
    cases live
  rcases consistent.table_of_place placed with
    ⟨table, found, aligned, inRange, owner, viewed⟩
  rw [live, Option.some.injEq] at viewed
  exact ⟨ptr, index, table, EntityIndex.read_of_place placed, found, aligned, inRange, owner,
    viewed.symm⟩

theorem place_of_entities (linked : w.store.Linked) {id : EntityId} {ptr : Ptr} {index : Nat}
    {table : EntityTable Value} (found : w.tables ptr = some table)
    (owner : table.entities[index]? = some id) : w.entityIds.place id = some (ptr, index) := by
  apply (linked id ptr index).mpr
  rw [keys_store_of_table found]
  exact owner

theorem Consistent.place_of_entities (consistent : w.Consistent) {id : EntityId} {ptr : Ptr}
    {index : Nat} {table : EntityTable Value} (found : w.tables ptr = some table)
    (owner : table.entities[index]? = some id) : w.entityIds.place id = some (ptr, index) :=
  World.place_of_entities consistent.linked found owner

theorem owner_of_place (linked : w.store.Linked) {id : EntityId} {ptr : Ptr} {index : Nat}
    (placed : w.entityIds.place id = some (ptr, index)) :
    ∃ table, w.tables ptr = some table ∧ table.entities[index]? = some id := by
  have listed := (linked id ptr index).mp placed
  cases found : w.tables ptr with
  | none => simp [RowStore.keys, store, found] at listed
  | some table =>
      rw [keys_store_of_table found] at listed
      exact ⟨table, rfl, listed⟩

/-- The entity swapped into a gap of a table was in that table before, and it is not
the one whose row was dropped. -/
theorem moved_of_dropRow (linked : w.store.Linked) {id : EntityId} {ptr : Ptr} {index : Nat}
    {table : EntityTable Value} (found : w.tables ptr = some table)
    (owner : table.entities[index]? = some id) :
    (table.dropRow index).entities[index]? ≠ some id ∧
      ∀ other, (table.dropRow index).entities[index]? = some other →
        ∃ before, w.entityIds.place other = some (ptr, before) := by
  have nodup := linked.keys_nodup ptr
  rw [keys_store_of_table found] at nodup
  constructor
  · intro moved
    exact ((getElem?_swapRemove_eq_some_iff nodup owner index id).mp moved).1 rfl
  · intro other moved
    have member := mem_of_mem_swapRemove (List.mem_of_getElem? moved)
    rcases List.mem_iff_getElem?.mp member with ⟨before, foundBefore⟩
    exact ⟨before, place_of_entities linked found foundBefore⟩

/-- What `updateMoved` does after the row of `id` was dropped: it places the
entity swapped into the gap, as the store does when it detaches `id`. -/
theorem Consistent.updateMoved_dropRow (consistent : w.Consistent) {slots : List Nat}
    (sound : w.entityIds.Sound slots) {id : EntityId} {ptr : Ptr} {index : Nat}
    {table : EntityTable Value} (found : w.tables ptr = some table)
    (owner : table.entities[index]? = some id) :
    ∃ result, w.entityIds.updateMoved (table.dropRow index).entities[index]? index =
        some result ∧ w.entityIds.Alike slots result ∧
      (∀ other, w.entityIds.Claimed slots other → result.Claimed slots other) ∧
      (table.dropRow index).entities[index]? ≠ some id ∧
      ∀ other, other ≠ id → result.place other = (w.store.detach id ptr index).place other := by
  rcases moved_of_dropRow consistent.linked found owner with ⟨different, movedPlaced⟩
  rcases EntityIndex.updateMoved_spec sound movedPlaced index with
    ⟨result, updated, soundResult, places, claims⟩
  have alike : w.entityIds.Alike slots result :=
    ⟨sound, soundResult, EntityIndex.updateMoved_generationAt updated⟩
  refine ⟨result, updated, alike, claims, different, ?_⟩
  intro other different
  rw [places, RowStore.place_detach, if_neg different, keys_store_of_table found]
  rfl

theorem rows_store_setTable (w : World Value) (ptr : Ptr) (table : EntityTable Value) :
    (w.setTable ptr table).store.rows =
      Function.update w.store.rows ptr table.rowList := by
  funext other
  by_cases same : other = ptr
  · subst same
    simp [store, setTable]
  · simp [store, setTable, same]

theorem keys_store_setTable (w : World Value) (ptr : Ptr) (table : EntityTable Value) :
    (w.setTable ptr table).store.keys = Function.update w.store.keys ptr table.entities := by
  funext other
  rw [RowStore.keys, rows_store_setTable, Function.update_apply, Function.update_apply]
  by_cases same : other = ptr
  · rw [if_pos same, if_pos same, EntityTable.rowList_map_fst]
  · rw [if_neg same, if_neg same, RowStore.keys]

end Store

section Tables

variable {w : World Value}

/-- Replacing a table by one of the same type keeps the ownership. -/
theorem Owned.setTable (owned : w.Owned) {ptr : Ptr} {before after : EntityTable Value}
    (found : w.tables ptr = some before) (sameTy : after.ty = before.ty) :
    (w.setTable ptr after).Owned := by
  have keyed : ∀ (key : TypeHash) (other : Ptr),
      (∃ table, w.tables other = some table ∧ table.ty = key) →
      ∃ table, (w.setTable ptr after).tables other = some table ∧ table.ty = key := by
    rintro key other ⟨table, foundOther, ty⟩
    by_cases same : other = ptr
    · subst same
      rw [found] at foundOther
      cases foundOther
      exact ⟨after, by simp [World.setTable], sameTy.trans ty⟩
    · exact ⟨table, by simp [World.setTable, same, foundOther], ty⟩
  have present : ∀ other table, (w.setTable ptr after).tables other = some table →
      ∃ old, w.tables other = some old ∧ old.ty = table.ty := by
    intro other table foundOther
    by_cases same : other = ptr
    · subst same
      simp only [World.setTable, Function.update_self, Option.some.injEq] at foundOther
      exact ⟨before, found, foundOther ▸ sameTy.symm⟩
    · simp only [World.setTable, Function.update_of_ne same] at foundOther
      exact ⟨table, foundOther, rfl⟩
  refine ⟨?_, ?_, ?_, owned.unshared, ?_⟩
  · exact fun key other owner => keyed key other (owned.archetypes key other owner)
  · exact fun key other owner => keyed key other (owned.staging key other owner)
  · intro other table foundOther
    rcases present other table foundOther with ⟨old, foundOld, ty⟩
    rw [← ty]
    exact owned.owner other old foundOld
  · intro other table foundOther
    rcases present other table foundOther with ⟨old, foundOld, _⟩
    exact owned.fresh other old foundOld

/-- A property of every table survives a change of one table that keeps it. -/
theorem forall_setTable {Holds : EntityTable Value → Prop}
    (before : ∀ ptr table, w.tables ptr = some table → Holds table) {ptr : Ptr}
    {after : EntityTable Value} (holds : Holds after) :
    ∀ other table, (w.setTable ptr after).tables other = some table → Holds table := by
  intro other table found
  by_cases same : other = ptr
  · subst same
    simp only [setTable, Function.update_self, Option.some.injEq] at found
    exact found ▸ holds
  · simp only [setTable, Function.update_of_ne same] at found
    exact before other table found

variable [UnitTypeId]

theorem Formed.wellFormed (formed : w.Formed) {entityIds : EntityIndex} {slots : List Nat}
    (sound : entityIds.Sound slots) (linked : (w.setIndex entityIds).store.Linked) :
    (w.setIndex entityIds).WellFormed where
  index := ⟨slots, sound⟩
  linked := linked
  aligned := formed.aligned
  archetypes := formed.archetypes
  staging := formed.staging
  owner := formed.owner
  unshared := formed.unshared
  fresh := formed.fresh
  shaped := formed.shaped
  void := formed.void

/-- A table may change its rows. -/
theorem Formed.setTable (formed : w.Formed) {ptr : Ptr} {before after : EntityTable Value}
    (found : w.tables ptr = some before) (sameTy : after.ty = before.ty)
    (sameTypes : after.types = before.types) (aligned : after.Aligned) :
    (w.setTable ptr after).Formed := by
  have shapedBefore := formed.shaped ptr before found
  have shaped : after.Shaped := by
    refine ⟨sameTypes ▸ shapedBefore.unitColumn, ?_⟩
    rw [sameTy, sameTypes, shapedBefore.hashed]
  refine { formed.toOwned.setTable found sameTy with
    aligned := forall_setTable formed.aligned aligned
    shaped := forall_setTable formed.shaped shaped
    void := ?_ }
  rcases formed.void with ⟨void, table, owner, foundVoid, types⟩
  by_cases same : void = ptr
  · subst same
    rw [found] at foundVoid
    cases foundVoid
    exact ⟨void, after, owner, by simp [World.setTable], sameTypes.trans types⟩
  · exact ⟨void, table, owner, by simp [World.setTable, same, foundVoid], types⟩

theorem Formed.dropRow (formed : w.Formed) {ptr : Ptr} {table : EntityTable Value}
    (found : w.tables ptr = some table) (index : Nat) :
    (w.setTable ptr (table.dropRow index)).Formed :=
  have sameTy : (table.dropRow index).ty = table.ty := rfl
  formed.setTable found sameTy (EntityTable.types_dropRow index)
    ((formed.aligned ptr table found).dropRow index)

end Tables

end World

end Cecs

import Cecs.EntityIndex.Population
import Cecs.Table.Effects
import Cecs.World.Refinement

/-! # Merging two entities of one table

`merge_entities` exchanges the rows of the two entities and their places in the
index, and then deletes `lhs` by its new place. It does not exchange their
entries of `entities`, so the row that goes is listed under `rhs`, and `lhs`
stays in the table. -/

namespace Cecs

open Foundation

namespace World

section Merge

variable {Value : Type} {w : World Value} {lhs rhs : EntityId}

/-- `rhs` takes over the components of `lhs`, which is gone. -/
def MergesIntoRhs [UnitTypeId] (w : World Value) (lhs rhs : EntityId) : Prop :=
  ∃ after, w.mergeEntities lhs rhs = some (.ok (), after) ∧ after.Consistent ∧
    after.view = Function.update (Function.update w.view rhs (w.view lhs)) lhs none

/-- What a deletion that succeeds did. -/
theorem deleteEntity_eq_ok {id : EntityId} {ptr : Ptr} {index : Nat} {table : EntityTable Value}
    {after : World Value} (outcome : w.entityIds.read id = .ok (ptr, index))
    (found : w.tables ptr = some table) (deleted : w.deleteEntity id = some (.ok (), after)) :
    after.tables ptr = some (table.dropRow index) ∧ index < table.entities.length ∧
      after.entityIds.place id = none := by
  simp only [deleteEntity, outcome, found, Option.bind_eq_bind, Option.bind_some,
    Option.bind_eq_some_iff, Option.pure_def, Option.some.injEq, Prod.mk.injEq] at deleted
  rcases deleted with ⟨⟨_, removed⟩, remove, _, _, _, _, _, freed, _, rfl⟩
  rcases EntityTable.remove_eq_some remove with ⟨rfl, _, inRange, _⟩
  refine ⟨?_, inRange, EntityIndex.place_free freed⟩
  simp [setTable, setIndex]

/-- A table that lists an entity without a place belies the index. -/
theorem not_consistent_of_listed {id : EntityId} {ptr : Ptr} {table : EntityTable Value}
    (found : w.tables ptr = some table) (listed : id ∈ table.entities)
    (absent : w.entityIds.place id = none) : ¬w.Consistent := by
  intro consistent
  rcases List.mem_iff_getElem?.mp listed with ⟨index, owner⟩
  have placed := consistent.place_of_entities found owner
  rw [absent] at placed
  cases placed

variable [UnitTypeId]

/-- In one table the merge is `mergeSameType`. -/
theorem mergeEntities_sameTable {ptr : Ptr} {i j : Nat} (different : lhs ≠ rhs)
    (left : w.entityIds.place lhs = some (ptr, i))
    (right : w.entityIds.place rhs = some (ptr, j)) {table : EntityTable Value}
    (found : w.tables ptr = some table) :
    w.mergeEntities lhs rhs = w.mergeSameType lhs rhs i ptr j := by
  simp [mergeEntities, different, EntityIndex.read_of_place left,
    EntityIndex.read_of_place right, found]

/-- Merging two entities of one table never works out. -/
theorem not_mergesIntoRhs_of_sameTable (consistent : w.Consistent) (different : lhs ≠ rhs)
    {ptr : Ptr} {i j : Nat} (left : w.entityIds.place lhs = some (ptr, i))
    (right : w.entityIds.place rhs = some (ptr, j)) : ¬w.MergesIntoRhs lhs rhs := by
  rintro ⟨after, merged, consistentAfter, _⟩
  rcases consistent.table_of_place left with ⟨table, found, _, _, ownerLeft, _⟩
  rcases consistent.table_of_place right with ⟨_, foundAgain, _, _, ownerRight, _⟩
  rw [found] at foundAgain
  cases foundAgain
  have otherRow : i ≠ j := by
    rintro rfl
    rw [ownerLeft] at ownerRight
    exact different (Option.some.inj ownerRight)
  rw [mergeEntities_sameTable different left right found] at merged
  simp only [mergeSameType, found, Option.bind_eq_bind, Option.bind_some,
    Option.bind_eq_some_iff] at merged
  rcases merged with ⟨swapped, swap, first, updateLeft, second, updateRight, deleted⟩
  rcases EntityTable.swapComponents_counts swap with ⟨_, sameEntities⟩
  -- The index takes `lhs` to row `j` and `rhs` to row `i`.
  rcases consistent.index with ⟨slots, sound⟩
  rcases EntityIndex.updateRowIndex_spec sound left j with ⟨_, same, soundFirst, places, _⟩
  cases updateLeft.symm.trans same
  have rightFirst : first.place rhs = some (ptr, j) := by
    rw [places, Function.update_of_ne (Ne.symm different), right]
  rcases EntityIndex.updateRowIndex_spec soundFirst rightFirst i with
    ⟨_, same, _, placesSecond, _⟩
  cases updateRight.symm.trans same
  have leftSecond : second.place lhs = some (ptr, j) := by
    rw [placesSecond, Function.update_of_ne different, places, Function.update_self]
  -- The deletion drops row `j` of `entities`, but `lhs` stands in row `i`.
  have foundSwapped : ((w.setTable ptr swapped).setIndex second).tables ptr = some swapped := by
    simp [setTable, setIndex]
  rcases deleteEntity_eq_ok (EntityIndex.read_of_place leftSecond) foundSwapped deleted with
    ⟨foundAfter, inRange, dead⟩
  rw [sameEntities] at inRange
  have listed : lhs ∈ (swapped.dropRow j).entities := by
    simp only [EntityTable.dropRow, sameEntities]
    exact mem_swapRemove_of_getElem? inRange otherRow ownerLeft
  exact not_consistent_of_listed foundAfter listed dead consistentAfter

end Merge

section Example

open Sample

/-- Two entities of one table, with the values 1 and 2. -/
def twoOfOneTable : Option (World Nat) :=
  (World.new 2).bind (runOperations · [.insertEntity, .insertEntity,
    .setBundle (EntityId.new 0 0) [(7#128, 1)], .setBundle (EntityId.new 1 0) [(7#128, 2)]])

theorem twoOfOneTable_consistent {w : World Nat} (made : twoOfOneTable = some w) :
    w.Consistent := by
  rcases Option.bind_eq_some_iff.mp made with ⟨start, created, ran⟩
  exact (runOperations_wellFormed (new_spec created).1 ran).toConsistent

theorem not_mergesIntoRhs_of_sameTable_sample :
    ∃ w, twoOfOneTable = some w ∧ EntityId.new 0 0 ≠ EntityId.new 1 0 ∧
      ¬w.MergesIntoRhs (EntityId.new 0 0) (EntityId.new 1 0) := by
  obtain ⟨w, made, left, right⟩ :
      ∃ w : World Nat, twoOfOneTable = some w ∧
        w.entityIds.place (EntityId.new 0 0) = some (1, 0) ∧
        w.entityIds.place (EntityId.new 1 0) = some (1, 1) :=
    ⟨_, rfl, rfl, rfl⟩
  have consistent := twoOfOneTable_consistent made
  have different : EntityId.new 0 0 ≠ EntityId.new 1 0 := by decide
  exact ⟨w, made, different,
    not_mergesIntoRhs_of_sameTable consistent different left right⟩

/-- The merge succeeds, but `rhs` keeps its value and the table lists `lhs`. -/
theorem mergeEntities_twoOfOneTable :
    ∃ w after : World Nat, twoOfOneTable = some w ∧ w.Consistent ∧
      w.entityIds.place (EntityId.new 0 0) = some (1, 0) ∧
      w.entityIds.place (EntityId.new 1 0) = some (1, 1) ∧
      w.mergeEntities (EntityId.new 0 0) (EntityId.new 1 0) = some (.ok (), after) ∧
      w.getComponent (EntityId.new 0 0) 7#128 = some 1 ∧
      after.getComponent (EntityId.new 1 0) 7#128 = some 2 ∧
      ¬w.MergesIntoRhs (EntityId.new 0 0) (EntityId.new 1 0) := by
  obtain ⟨w, after, table, made, left, right, merged, before, kept, found, entities, absent⟩ :
      ∃ (w after : World Nat) (table : EntityTable Nat), twoOfOneTable = some w ∧
        w.entityIds.place (EntityId.new 0 0) = some (1, 0) ∧
        w.entityIds.place (EntityId.new 1 0) = some (1, 1) ∧
        w.mergeEntities (EntityId.new 0 0) (EntityId.new 1 0) = some (.ok (), after) ∧
        w.getComponent (EntityId.new 0 0) 7#128 = some 1 ∧
        after.getComponent (EntityId.new 1 0) 7#128 = some 2 ∧
        after.tables 1 = some table ∧ table.entities = [EntityId.new 0 0] ∧
        after.entityIds.place (EntityId.new 0 0) = none :=
    ⟨_, _, _, rfl, rfl, rfl, rfl, rfl, rfl, rfl, rfl, rfl⟩
  refine ⟨w, after, made, twoOfOneTable_consistent made, left, right, merged, before, kept, ?_⟩
  rintro ⟨_, mergedAgain, consistent, _⟩
  cases merged.symm.trans mergedAgain
  have listed : EntityId.new 0 0 ∈ table.entities := by simp [entities]
  exact not_consistent_of_listed found listed absent consistent

end Example

end World

end Cecs

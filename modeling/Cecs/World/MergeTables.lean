import Cecs.Table.Merge
import Cecs.World.Evolution
import Cecs.World.Refinement

/-! # Merging entities of two tables

Entities with different components lie in different tables. The merge either
writes over the row of `rhs`, or passes the row of `lhs` on to `rhs`, or moves
both rows to a third table; in each case `rhs` ends with the components of both
and `lhs` with a free slot. -/

namespace Cecs

open Foundation

namespace World

variable {Value : Type} {w : World Value} {lhs rhs : EntityId}

/-- The two entities lie in two tables. -/
structure Apart (w : World Value) (lhs rhs : EntityId) (lhsArch rhsArch : Ptr) (i j : Nat)
    (left right : EntityTable Value) : Prop where
  foundLhs : w.tables lhsArch = some left
  foundRhs : w.tables rhsArch = some right
  ownerLhs : left.entities[i]? = some lhs
  ownerRhs : right.entities[j]? = some rhs
  tables : lhsArch ≠ rhsArch

/-- `rhs` has the cells `cells`, and `lhs` left a free slot. -/
structure Merged [UnitTypeId] (w : World Value) (lhs rhs : EntityId) (cells : Row Value)
    (after : World Value) : Prop where
  wellFormed : after.WellFormed
  view : after.view = Function.update (Function.update w.view rhs (some cells)) lhs none
  free : ∃ slots, after.entityIds.Sound slots ∧ lhs.index ∈ slots

theorem setTable_comm (w : World Value) {ptr other : Ptr} (different : ptr ≠ other)
    (table second : EntityTable Value) :
    (w.setTable ptr table).setTable other second =
      (w.setTable other second).setTable ptr table := by
  simp only [setTable]
  rw [Function.update_comm different]

theorem setTable_setTable (w : World Value) (ptr : Ptr) (table second : EntityTable Value) :
    (w.setTable ptr table).setTable ptr second = w.setTable ptr second := by
  simp only [setTable, Function.update_idem]

section Branches

variable {lhsArch rhsArch : Ptr} {i j : Nat} {left right : EntityTable Value}

theorem Apart.ne (apart : w.Apart lhs rhs lhsArch rhsArch i j left right)
    (consistent : w.Consistent) : lhs ≠ rhs := by
  rintro rfl
  have placedLhs := consistent.place_of_entities apart.foundLhs apart.ownerLhs
  have placedRhs := consistent.place_of_entities apart.foundRhs apart.ownerRhs
  rw [placedLhs, Option.some.injEq, Prod.mk.injEq] at placedRhs
  exact apart.tables placedRhs.1

theorem Apart.rows (apart : w.Apart lhs rhs lhsArch rhsArch i j left right)
    (consistent : w.Consistent) :
    left.Aligned ∧ right.Aligned ∧ i < left.rows ∧ j < right.rows :=
  have alignedLeft := consistent.aligned lhsArch left apart.foundLhs
  have alignedRight := consistent.aligned rhsArch right apart.foundRhs
  ⟨alignedLeft, alignedRight, alignedLeft.inRange apart.ownerLhs,
    alignedRight.inRange apart.ownerRhs⟩

variable [UnitTypeId]

/-- The components of `lhs` are written over those of `rhs`. -/
theorem mergeIntoRhs_apart (wf : w.WellFormed)
    (apart : w.Apart lhs rhs lhsArch rhsArch i j left right)
    (types : right.types = right.types ∪ left.types) :
    ∃ after, w.mergeIntoRhs lhs lhsArch i rhsArch j = some (.ok (), after) ∧
      w.Merged lhs rhs (Row.overriddenBy (right.row j) (left.row i)) after := by
  rcases apart.rows wf.toConsistent with ⟨alignedLeft, alignedRight, inLeft, inRight⟩
  rcases alignedLeft.moveEntityInto_eq alignedRight inLeft inRight with
    ⟨result, moved, overwritten⟩
  rcases wf.rewrite apart.foundRhs apart.ownerRhs overwritten
      (alignedLeft.fills_overriddenBy alignedRight inLeft inRight types) with
    ⟨_, wfWritten, viewWritten⟩
  have foundLhs : (w.setTable rhsArch result).tables lhsArch = some left := by
    rw [tables_setTable, Function.update_of_ne apart.tables, apart.foundLhs]
  rcases wf.index with ⟨slots, sound⟩
  rcases wfWritten.dropEntity sound foundLhs apart.ownerLhs with
    ⟨renamed, freed, rename, _, _, free, _, soundFreed, wfAfter, viewAfter⟩
  rw [viewWritten] at viewAfter
  refine ⟨_, ?_, wfAfter, viewAfter, lhs.index :: slots, soundFreed, List.mem_cons_self⟩
  have same : w.entityIds.updateMoved (left.dropRow i).entities[i]? i = some renamed := rename
  simp only [mergeIntoRhs, apart.foundLhs, apart.foundRhs, moved, same, free,
    Option.bind_eq_bind, Option.bind_some, Option.pure_def]
  rw [setTable_comm w apart.tables]

/-- The row of `lhs`, which has all the components, passes on to `rhs`. -/
theorem mergeIntoLhs_apart (wf : w.WellFormed)
    (apart : w.Apart lhs rhs lhsArch rhsArch i j left right)
    (types : left.types = right.types ∪ left.types) :
    ∃ after, w.mergeIntoLhs lhs rhs lhsArch i rhsArch j = some (.ok (), after) ∧
      w.Merged lhs rhs (Row.overriddenBy (right.row j) (left.row i)) after := by
  have different := apart.ne wf.toConsistent
  rcases apart.rows wf.toConsistent with ⟨alignedLeft, alignedRight, inLeft, inRight⟩
  rw [alignedLeft.overriddenBy_eq alignedRight inLeft inRight types]
  rcases wf.index with ⟨slots, sound⟩
  have placedLhs := wf.place_of_entities apart.foundLhs apart.ownerLhs
  have placedRhs := wf.place_of_entities apart.foundRhs apart.ownerRhs
  rcases wf.updateMoved_dropRow sound apart.foundRhs apart.ownerRhs with
    ⟨renamed, rename, alike, claims, _, places⟩
  rcases EntityIndex.update_spec alike.right (claims rhs (sound.claimed placedRhs)) lhsArch i
    with ⟨updated, update, soundUpdated, placesUpdated, claimsUpdated⟩
  rcases EntityIndex.free_spec soundUpdated
      (claimsUpdated lhs (claims lhs (sound.claimed placedLhs))) with
    ⟨freed, free, soundFreed, placesFreed⟩
  let heir : EntityTable Value := { left with entities := left.entities.set i rhs }
  obtain ⟨alignedHeir, rowsHeir⟩ :
      heir.Aligned ∧ heir.rowList = left.rowList.set i (rhs, left.row i) :=
    alignedLeft.setEntity inLeft rhs
  have foundLeft : (w.setTable rhsArch (right.dropRow j)).tables lhsArch = some left := by
    rw [tables_setTable, Function.update_of_ne apart.tables, apart.foundLhs]
  have linkedDetached := wf.linked.detach placedRhs
  have absent : (w.store.detach rhs rhsArch j).place rhs = none :=
    RowStore.place_detach_self rhs rhsArch j
  have rowsLeft : (w.store.detach rhs rhsArch j).rows lhsArch = left.rowList := by
    rw [RowStore.rows_detach, Function.update_of_ne apart.tables,
      rows_store_of_table apart.foundLhs]
  have stillPlaced : (w.store.detach rhs rhsArch j).place lhs = some (lhsArch, i) := by
    apply (linkedDetached lhs lhsArch i).mpr
    rw [RowStore.keys, rowsLeft, EntityTable.rowList_map_fst, apart.ownerLhs]
  have edit : (((w.setTable rhsArch (right.dropRow j)).setTable lhsArch heir).setIndex
      freed).store =
      (w.store.detach rhs rhsArch j).handOver lhs rhs lhsArch i (left.row i) := by
    apply RowStore.ext
    · funext other
      change freed.place other = _
      rw [placesFreed, placesUpdated]
      simp only [RowStore.handOver]
      by_cases isLhs : other = lhs
      · subst isLhs
        rw [Function.update_self, Function.update_of_ne different, Function.update_self]
      · rw [Function.update_of_ne isLhs]
        by_cases isRhs : other = rhs
        · subst isRhs
          rw [Function.update_self, Function.update_self]
        · rw [Function.update_of_ne isRhs, Function.update_of_ne isRhs,
            Function.update_of_ne isLhs, places other isRhs]
    · refine (rows_store_setTable _ lhsArch heir).trans ?_
      rw [rows_store_setTable, rowsHeir, alignedRight.rowList_dropRow,
        ← rows_store_of_table apart.foundRhs]
      simp only [RowStore.handOver, rowsLeft]
      rfl
  refine ⟨((w.setTable rhsArch (right.dropRow j)).setTable lhsArch heir).setIndex freed, ?_,
    ?_, ?_, lhs.index :: slots, soundFreed, List.mem_cons_self⟩
  · rcases List.getElem?_eq_some_iff.mp apart.ownerLhs with ⟨listed, _⟩
    simp [mergeIntoLhs, apart.foundLhs, apart.foundRhs, alignedRight.remove_eq inRight, rename,
      listed, update, free, heir]
  · have formed : ((w.setTable rhsArch (right.dropRow j)).setTable lhsArch heir).Formed :=
      (wf.toFormed.dropRow apart.foundRhs j).setTable foundLeft rfl rfl alignedHeir
    apply formed.wellFormed soundFreed
    rw [edit]
    exact linkedDetached.handOver stillPlaced absent (left.row i)
  · rw [World.view, edit, linkedDetached.view_handOver stillPlaced absent,
      wf.linked.view_detach placedRhs, Function.update_comm different, Function.update_idem]
    rfl

/-- The hash that a merge computes is that of the union. -/
theorem mergedHash_eq (shaped : right.Shaped) (left : EntityTable Value) :
    mergedHash left right = hashTypes (right.types ∪ left.types) :=
  shaped.foldl_hash Std.ExtTreeMap.nodup_keys

/-- The table of the union is found, or made. -/
theorem entryOrInsert_merged (wf : w.WellFormed) (foundRhs : w.tables rhsArch = some right)
    (determined : w.HashDetermines (right.types ∪ left.types)) :
    ∃ dst base target,
      w.entryOrInsert (mergedHash left right) (right.merged left) = (dst, base) ∧
      base.WellFormed ∧ base.view = w.view ∧ base.entityIds = w.entityIds ∧
      base.tables dst = some target ∧ target.types = right.types ∪ left.types ∧
      ∀ ptr table, w.tables ptr = some table → base.tables ptr = some table := by
  have shaped := wf.shaped rhsArch right foundRhs
  have hash := mergedHash_eq shaped left
  cases lookup : w.archetypes[mergedHash left right]? with
  | some dst =>
      rcases wf.archetypes _ dst lookup with ⟨target, foundTarget, ty⟩
      exact ⟨dst, w, target, by simp [entryOrInsert, lookup], wf, rfl, rfl, foundTarget,
        determined dst target foundTarget (ty.trans hash), fun _ _ found => found⟩
  | none =>
      rcases shaped.merged left with ⟨blank, shapedNew, types⟩
      have newTy : mergedHash left right = (right.merged left).ty := by
        rw [hash, shapedNew.hashed, types]
      rw [newTy] at lookup ⊢
      rcases wf.addTable lookup blank shapedNew with ⟨wfAdded, viewAdded⟩
      have tables := tables_addTable (right.merged left) lookup
      refine ⟨w.nextTable, w.addTable (right.merged left), right.merged left, ?_, wfAdded,
        viewAdded, rfl, by rw [tables, Function.update_self], types, ?_⟩
      · rw [entryOrInsert, lookup]
        rfl
      · intro ptr table found
        rw [tables, Function.update_of_ne (Nat.ne_of_lt (wf.fresh ptr table found)), found]

/-- Both rows go to a third table. -/
theorem mergeIntoThird_apart (wf : w.WellFormed)
    (apart : w.Apart lhs rhs lhsArch rhsArch i j left right)
    (determined : w.HashDetermines (right.types ∪ left.types))
    (notRight : right.types ≠ right.types ∪ left.types)
    (notLeft : left.types ≠ right.types ∪ left.types) :
    ∃ after, w.mergeIntoThird lhs rhs lhsArch i rhsArch j (mergedHash left right) =
        some (.ok (), after) ∧
      w.Merged lhs rhs (Row.overriddenBy (right.row j) (left.row i)) after := by
  rcases apart.rows wf.toConsistent with ⟨alignedLeft, alignedRight, inLeft, inRight⟩
  rcases entryOrInsert_merged wf apart.foundRhs determined with
    ⟨dst, base, target, entry, wfBase, viewBase, sameIndex, foundTarget, types, kept⟩
  have foundLhs := kept lhsArch left apart.foundLhs
  have foundRhs := kept rhsArch right apart.foundRhs
  have lhsNotDst : lhsArch ≠ dst := by
    rintro rfl
    rw [foundLhs] at foundTarget
    cases foundTarget
    exact notLeft types
  have rhsNotDst : rhsArch ≠ dst := by
    rintro rfl
    rw [foundRhs] at foundTarget
    cases foundTarget
    exact notRight types
  have alignedTarget := wfBase.aligned dst target foundTarget
  rcases wfBase.index with ⟨slots, sound⟩
  rcases alignedRight.moveEntity_eq alignedTarget inRight apart.ownerRhs with
    ⟨begun, move, extension⟩
  rcases alignedLeft.mergeInto_eq alignedRight alignedTarget inLeft inRight types extension with
    ⟨result, merging, filled⟩
  rcases wfBase.updateMoved_dropRow sound foundRhs apart.ownerRhs with ⟨renamed, rename, _⟩
  -- Once `rhs` is where it belongs, `lhs` is deleted as by `delete_entity`.
  rcases finish_move wfBase sound foundRhs apart.ownerRhs foundTarget rhsNotDst filled
      (alignedLeft.fills_overriddenBy alignedRight inLeft inRight types) rename with
    ⟨entityIds, update, alike, wfMoved, viewMoved⟩
  have foundMoved : (((base.setTable rhsArch (right.dropRow j)).setTable dst result).setIndex
      entityIds).tables lhsArch = some left := by
    simp [setIndex, setTable, lhsNotDst, apart.tables, foundLhs]
  rcases wfMoved.dropEntity alike.right foundMoved apart.ownerLhs with
    ⟨renamedLhs, freed, renameLhs, _, _, free, _, soundFreed, wfAfter, viewAfter⟩
  rw [viewMoved, viewBase] at viewAfter
  -- The index is told of the new place of `rhs` after that of the entity moved for `lhs`.
  have otherSlot : ∀ other, (left.dropRow i).entities[i]? = some other →
      other.index ≠ rhs.index := by
    intro other moved
    rcases List.mem_iff_getElem?.mp (mem_of_mem_swapRemove (List.mem_of_getElem? moved)) with
      ⟨before, owner⟩
    have moves : w.Apart other rhs lhsArch rhsArch before j left right :=
      { apart with ownerLhs := owner }
    have placed := wf.place_of_entities apart.foundLhs owner
    have placedRhs := wf.place_of_entities apart.foundRhs apart.ownerRhs
    exact index_ne_of_live (moves.ne wf.toConsistent) (EntityIndex.read_of_place placed)
      (EntityIndex.read_of_place placedRhs)
  rcases (EntityIndex.update_updateMoved_iff otherSlot).mp ⟨_, update, renameLhs⟩ with
    ⟨middle, renameFirst, updateSecond⟩
  refine ⟨_, ?_, wfAfter, viewAfter, _, soundFreed, List.mem_cons_self⟩
  have movedRow : base.moveEntity rhsArch dst j =
      some (target.rows, (right.dropRow j).entities[j]?,
        (base.setTable rhsArch (right.dropRow j)).setTable dst begun) := by
    simp [moveEntity, rhsNotDst, foundRhs, foundTarget, move]
  have foundBegun : ((base.setTable rhsArch (right.dropRow j)).setTable dst begun).tables dst =
      some begun := by
    simp [setTable]
  have sameAfter :
      (((base.setTable rhsArch (right.dropRow j)).setTable dst begun).setTable lhsArch
        (left.dropRow i)).setTable dst result =
      ((base.setTable rhsArch (right.dropRow j)).setTable dst result).setTable lhsArch
        (left.dropRow i) := by
    rw [setTable_comm _ lhsNotDst, setTable_setTable]
  have renameBegun : ((base.setTable rhsArch (right.dropRow j)).setTable dst
      begun).entityIds.updateMoved (right.dropRow j).entities[j]? j = some renamed := rename
  simp only [mergeIntoThird, apart.foundLhs, apart.foundRhs, entry, movedRow, foundBegun,
    renameBegun, merging, (alignedLeft.dropRow i).movedInto, renameFirst, updateSecond, free,
    lhsNotDst, sameAfter, Option.bind_eq_bind, Option.bind_some, Option.pure_def, ne_eq,
    not_false_eq_true, guard_true]
  rfl

end Branches

section MergeEntities

variable [UnitTypeId]

/-- No table of another shape has the hash of the union or that of `rhs`. -/
def MergeDetermines (w : World Value) (lhs rhs : EntityId) : Prop :=
  ∀ left right, w.entityTable lhs = some left → w.entityTable rhs = some right →
    w.HashDetermines (right.types ∪ left.types) ∧ w.HashDetermines right.types

theorem mergeEntities_live (wf : w.WellFormed) (noCollision : w.MergeDetermines lhs rhs)
    {left right : Row Value} (liveLhs : w.view lhs = some left)
    (liveRhs : w.view rhs = some right)
    (different : ∃ ty, (left ty).isSome ≠ (right ty).isSome) :
    ∃ after, w.mergeEntities lhs rhs = some (.ok (), after) ∧
      w.Merged lhs rhs (Row.overriddenBy right left) after := by
  rcases wf.toConsistent.table_of_view liveLhs with
    ⟨lhsArch, i, leftTable, readLhs, foundLhs, alignedLeft, inLeft, ownerLhs, rfl⟩
  rcases wf.toConsistent.table_of_view liveRhs with
    ⟨rhsArch, j, rightTable, readRhs, foundRhs, alignedRight, inRight, ownerRhs, rfl⟩
  have otherTypes : leftTable.types ≠ rightTable.types := by
    intro same
    rcases different with ⟨ty, cells⟩
    apply cells
    rw [Bool.eq_iff_iff, alignedLeft.fills_row inLeft ty, alignedRight.fills_row inRight ty, same]
  have apart : w.Apart lhs rhs lhsArch rhsArch i j leftTable rightTable := by
    refine ⟨foundLhs, foundRhs, ownerLhs, ownerRhs, ?_⟩
    rintro rfl
    rw [foundLhs] at foundRhs
    cases foundRhs
    exact otherTypes rfl
  rcases noCollision leftTable rightTable (by simp [entityTable, readLhs, foundLhs])
      (by simp [entityTable, readRhs, foundRhs]) with ⟨determined, determinedRight⟩
  have hashedRight := (wf.shaped rhsArch rightTable foundRhs).hashed
  have hash := mergedHash_eq (wf.shaped rhsArch rightTable foundRhs) leftTable
  have otherTy : leftTable.ty ≠ rightTable.ty := fun same =>
    otherTypes (determinedRight lhsArch leftTable foundLhs (same.trans hashedRight))
  simp only [mergeEntities, apart.ne wf.toConsistent, if_false, readLhs, readRhs, foundLhs,
    foundRhs, Option.bind_eq_bind, Option.bind_some, otherTy]
  by_cases intoRhs : mergedHash leftTable rightTable = rightTable.ty
  · rw [if_pos intoRhs]
    exact mergeIntoRhs_apart wf apart
      (determined rhsArch rightTable foundRhs (intoRhs.symm.trans hash))
  · rw [if_neg intoRhs]
    by_cases intoLhs : mergedHash leftTable rightTable = leftTable.ty
    · rw [if_pos intoLhs]
      exact mergeIntoLhs_apart wf apart
        (determined lhsArch leftTable foundLhs (intoLhs.symm.trans hash))
    · rw [if_neg intoLhs]
      apply mergeIntoThird_apart wf apart determined
      · intro same
        apply intoRhs
        rw [hash, ← same, hashedRight]
      · intro same
        apply intoLhs
        rw [hash, ← same, (wf.shaped lhsArch leftTable foundLhs).hashed]

theorem mergeEntities_dead (different : lhs ≠ rhs)
    (dead : w.entityIds.isValid lhs = false ∨ w.entityIds.isValid rhs = false) :
    w.mergeEntities lhs rhs = some (.error .EntityNotFound, w) := by
  rw [mergeEntities, if_neg different]
  simp only [EntityIndex.isValid_eq_false_iff] at dead
  rcases dead with deadLhs | deadRhs
  · rcases EntityIndex.read_of_place_none deadLhs with ⟨error, outcome⟩
    simp [outcome]
  · rcases EntityIndex.read_of_place_none deadRhs with ⟨error, outcome⟩
    cases w.entityIds.read lhs <;> simp [outcome]

/-- Entities with different components merge into `rhs`; with a dead one nothing
happens. -/
theorem mergeEntities_apart (wf : w.WellFormed) (noCollision : w.MergeDetermines lhs rhs) :
    (∀ left right, w.view lhs = some left → w.view rhs = some right →
      (∃ ty, (left ty).isSome ≠ (right ty).isSome) →
      ∃ after, w.mergeEntities lhs rhs = some (.ok (), after) ∧
        w.Merged lhs rhs (Row.overriddenBy right left) after ∧
        after.entityIds.isValid lhs = false) ∧
    (lhs ≠ rhs → w.entityIds.isValid lhs = false ∨ w.entityIds.isValid rhs = false →
      w.mergeEntities lhs rhs = some (.error .EntityNotFound, w)) := by
  refine ⟨?_, mergeEntities_dead⟩
  intro left right liveLhs liveRhs different
  rcases mergeEntities_live wf noCollision liveLhs liveRhs different with
    ⟨after, returned, merged⟩
  refine ⟨after, returned, merged, ?_⟩
  have gone : after.view lhs = none := by
    rw [merged.view, Function.update_self]
  rw [view_eq_none_iff merged.wellFormed.toConsistent] at gone
  exact EntityIndex.isValid_eq_false_iff.mpr gone

end MergeEntities

section Example

open Sample

/-- Two entities with one component each, of different types. -/
def twoTables : Option (World Nat) :=
  (World.new 2).bind (runOperations · [.insertEntity, .insertEntity,
    .setBundle (EntityId.new 0 0) [(7#128, 1)], .setBundle (EntityId.new 1 0) [(9#128, 2)]])

theorem mergeEntities_apart_sample :
    ∃ w after : World Nat, twoTables = some w ∧
      w.mergeEntities (EntityId.new 0 0) (EntityId.new 1 0) = some (.ok (), after) ∧
      after.WellFormed ∧ after.entityIds.isValid (EntityId.new 0 0) = false ∧
      ∃ row, after.view (EntityId.new 1 0) = some row ∧ row 7#128 = some 1 := by
  obtain ⟨start, w, left, right, tableLhs, tableRhs, created, ran, liveLhs, liveRhs, cellLhs,
      cellRhs, foundLhs, foundRhs, union, own⟩ :
      ∃ (start w : World Nat) (left right : Row Nat) (tableLhs tableRhs : EntityTable Nat),
        World.new 2 = some start ∧
        start.runOperations [.insertEntity, .insertEntity,
          .setBundle (EntityId.new 0 0) [(7#128, 1)],
          .setBundle (EntityId.new 1 0) [(9#128, 2)]] = some w ∧
        w.view (EntityId.new 0 0) = some left ∧ w.view (EntityId.new 1 0) = some right ∧
        left 7#128 = some 1 ∧ right 7#128 = none ∧
        w.entityTable (EntityId.new 0 0) = some tableLhs ∧
        w.entityTable (EntityId.new 1 0) = some tableRhs ∧
        w.keyDetermines (tableRhs.types ∪ tableLhs.types) = true ∧
        w.keyDetermines tableRhs.types = true :=
    ⟨_, _, _, _, _, _, rfl, rfl, rfl, rfl, rfl, rfl, rfl, rfl, rfl, rfl⟩
  have wf := runOperations_wellFormed (new_spec created).1 ran
  have noCollision : w.MergeDetermines (EntityId.new 0 0) (EntityId.new 1 0) := by
    intro first second same sameRhs
    rw [foundLhs] at same
    rw [foundRhs] at sameRhs
    cases same
    cases sameRhs
    exact ⟨wf.toOwned.hashDetermines union, wf.toOwned.hashDetermines own⟩
  have different : ∃ ty, (left ty).isSome ≠ (right ty).isSome :=
    ⟨7#128, by simp [cellLhs, cellRhs]⟩
  rcases (mergeEntities_apart wf noCollision).1 left right liveLhs liveRhs different with
    ⟨after, returned, merged, dead⟩
  refine ⟨w, after, ?_, returned, merged.wellFormed, dead, Row.overriddenBy right left,
    ?_, ?_⟩
  · rw [twoTables, created]
    exact ran
  · rw [merged.view, Function.update_of_ne (by decide), Function.update_self]
  · simp [Row.overriddenBy, cellLhs]

end Example

end World

end Cecs

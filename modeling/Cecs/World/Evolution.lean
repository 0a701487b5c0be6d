import Cecs.World.Effects

/-! # Every operation evolves the tables

Insertion, deletion and merges, without assuming that the world is well-formed. -/

namespace Cecs

open Foundation

namespace World

variable {Value : Type} {w after : World Value} {id : EntityId}

open EntityIndex (pointsTo)

theorem deleteEntity_evolves {result : WorldResult Unit}
    (deleted : w.deleteEntity id = some (result, after)) : Evolves false w after := by
  rw [deleteEntity] at deleted
  cases outcome : w.entityIds.read id with
  | error error =>
      simp only [outcome, Option.some.injEq, Prod.mk.injEq] at deleted
      rw [← deleted.2]
      exact .refl w
  | ok spot =>
      rcases spot with ⟨ptr, index⟩
      have live := EntityIndex.arch_of_read outcome
      simp only [outcome, Option.bind_eq_bind, Option.bind_eq_some_iff, Option.guard_eq_some',
        Option.pure_def, Option.some.injEq, Prod.mk.injEq, exists_and_left, exists_const]
        at deleted
      rcases deleted with ⟨table, found, ⟨moved, removed⟩, remove, _, renamed, updated, freed,
        free, _, rfl⟩
      rcases EntityTable.remove_eq_some remove with ⟨rfl, positive, _, _⟩
      have drops : table.Counts (table.dropRow index) 1 0 := EntityTable.dropRow_counts positive
      have shifts := shifts_setTable found drops
      have repoints := (EntityIndex.updateMoved_same updated).repoints
        (EntityIndex.free_repoints free)
      apply shifts.evolves_fewer
      · intro other
        have counted := repoints.population other
        rw [live, pointsTo_some, EntityIndex.pointsTo_none] at counted
        omega
      · intro other
        simp [rowsAt]
      · intro slot other pointer
        rw [repoints.arch, Function.update_apply] at pointer
        split at pointer
        · cases pointer
        · exact ⟨slot, pointer⟩

theorem writeCell_evolves (w : World Value) (ptr : Ptr) (ty : TypeId) (row : Nat)
    (value : Value) : Evolves false w (w.writeCell ptr ty row value) := by
  rw [writeCell]
  split
  · rename_i table found
    apply (shifts_setTable found (table.writeCell_counts ty row value)).evolves_fewer
    · exact fun _ => Nat.le_refl _
    · exact fun _ => Nat.le_refl _
    · exact fun slot other pointer => ⟨slot, pointer⟩
  · exact .refl w

section Insertion

variable [UnitTypeId] [BuiltinValues Value]

/-- A new entity gets the last row of the void table, with the unit value. -/
theorem initId_eq_some_iff : w.initId id = some after ↔
    ∃ ptr table row grown written entityIds, w.archetypes[VOID_TY]? = some ptr ∧
      w.tables ptr = some table ∧ table.insertEntity id = some (row, grown) ∧
      grown.setComponent row unitTypeId unitValue = some written ∧
      w.entityIds.update id ptr row = some entityIds ∧
      (w.setTable ptr written).setIndex entityIds = after := by
  simp only [initId, Option.bind_eq_bind, Option.bind_eq_some_iff, Option.pure_def,
    Option.some.injEq]
  constructor
  · intro init
    rcases init with ⟨ptr, owner, table, found, ⟨row, grown⟩, push, written, set, entityIds,
      updated, same⟩
    exact ⟨ptr, table, row, grown, written, entityIds, owner, found, push, set, updated, same⟩
  · intro init
    rcases init with ⟨ptr, table, row, grown, written, entityIds, owner, found, push, set,
      updated, same⟩
    exact ⟨ptr, owner, table, found, (row, grown), push, written, set, entityIds, updated, same⟩

theorem initId_evolves (init : w.initId id = some after) : Evolves false w after := by
  rcases initId_eq_some_iff.mp init with ⟨ptr, table, index, pushed, written, entityIds, owner,
    found, push, set, updated, rfl⟩
  have counts := (EntityTable.insertEntity_counts push).trans (EntityTable.setComponent_counts set)
  have repoints := EntityIndex.update_repoints updated
  apply (shifts_setTable found counts).evolves
  · intro other
    have counted := repoints.population other
    rw [pointsTo_some] at counted
    simp only [rowsAt_zero, noRows, Nat.add_zero]
    omega
  · intro other
    by_cases atPtr : ptr = other
    · exact Or.inr (Or.inl ⟨VOID_TY, atPtr ▸ owner⟩)
    · left
      simp [rowsAt, atPtr]
  · intro slot other pointer
    rw [repoints.arch, Function.update_apply] at pointer
    split at pointer
    · cases pointer
      exact Or.inr ⟨table, found⟩
    · exact Or.inl ⟨slot, pointer⟩

/-- A new entity is counted already, and its entry gets a table. -/
theorem initId_index (init : w.initId id = some after) :
    (∃ ptr, w.entityIds.Repoints after.entityIds id.index (some ptr)) ∧
      after.entityIds.count = w.entityIds.count := by
  rcases initId_eq_some_iff.mp init with ⟨ptr, _, _, _, _, _, _, _, _, _, updated, rfl⟩
  exact ⟨⟨ptr, EntityIndex.update_repoints updated⟩, EntityIndex.update_count updated⟩

theorem insertEntity_evolves (inserted : w.insertEntity = some (id, after)) :
    Evolves false w after := by
  simp only [insertEntity, Option.bind_eq_bind, Option.bind_eq_some_iff, Option.pure_def,
    Option.some.injEq, Prod.mk.injEq] at inserted
  rcases inserted with ⟨⟨allocatedId, entityIds⟩, allocated, _, init, rfl, rfl⟩
  have fewer := EntityIndex.allocateWithResize_fewer allocated
  exact (evolves_setIndex fewer).trans (initId_evolves init)

theorem insertId_eq_some_iff {result : Except InsertError Unit} :
    w.insertId id = some (result, after) ↔
      ∃ entityIds, w.entityIds.insertId id = some (result, entityIds) ∧
        match result with
        | .error _ => w.setIndex entityIds = after
        | .ok _ => (w.setIndex entityIds).initId id = some after := by
  simp only [insertId, Option.bind_eq_bind, Option.bind_eq_some_iff]
  constructor
  · intro inserted
    rcases inserted with ⟨⟨outcome, entityIds⟩, insertion, rest⟩
    cases outcome with
    | error error =>
        cases rest
        exact ⟨entityIds, insertion, rfl⟩
    | ok done =>
        simp only [Option.bind_eq_some_iff, Option.pure_def, Option.some.injEq,
          Prod.mk.injEq] at rest
        rcases rest with ⟨_, init, rfl, rfl⟩
        exact ⟨entityIds, insertion, init⟩
  · intro inserted
    rcases inserted with ⟨entityIds, insertion, rest⟩
    refine ⟨(result, entityIds), insertion, ?_⟩
    cases result with
    | error error =>
        cases rest
        rfl
    | ok done =>
        simp only [Option.bind_eq_some_iff, Option.pure_def, Option.some.injEq, Prod.mk.injEq]
        exact ⟨after, rest, trivial, rfl⟩

theorem insertId_evolves {result : Except InsertError Unit}
    (inserted : w.insertId id = some (result, after)) : Evolves false w after := by
  rcases insertId_eq_some_iff.mp inserted with ⟨entityIds, insertion, rest⟩
  have grown : Evolves false w (w.setIndex entityIds) :=
    evolves_setIndex (EntityIndex.insertId_fewer insertion)
  cases result with
  | error error => exact rest ▸ grown
  | ok done => exact grown.trans (initId_evolves rest)

omit [UnitTypeId] [BuiltinValues Value] in
theorem reserveEntities_evolves {additional : Nat}
    (reserved : w.reserveEntities additional = some after) : Evolves false w after := by
  simp only [reserveEntities, Option.bind_eq_bind, Option.bind_eq_some_iff, Option.pure_def,
    Option.some.injEq] at reserved
  rcases reserved with ⟨entityIds, grown, rfl⟩
  exact evolves_setIndex (EntityIndex.reserve_fewer grown)

end Insertion

section Merge

variable {lhs rhs : EntityId} {lhsArch rhsArch : Ptr} {lhsIndex rhsIndex : Nat}
  {lhsTable rhsTable : EntityTable Value} {result : WorldResult Unit}

theorem mergeSameType_evolves
    (merged : w.mergeSameType lhs rhs lhsIndex rhsArch rhsIndex = some (result, after)) :
    Evolves false w after := by
  simp only [mergeSameType, Option.bind_eq_bind, Option.bind_eq_some_iff] at merged
  rcases merged with ⟨table, found, swapped, swap, first, updatedLhs, second, updatedRhs,
    deleted⟩
  have same := (EntityIndex.updateRowIndex_same updatedLhs).trans
    (EntityIndex.updateRowIndex_same updatedRhs)
  have shifts := shifts_setTable found (EntityTable.swapComponents_counts swap).1
  have swapping : Evolves false w ((w.setTable rhsArch swapped).setIndex second) := by
    apply shifts.evolves_fewer
    · intro ptr
      rw [same.population]
    · exact fun _ => Nat.le_refl _
    · intro slot ptr pointer
      rw [same.arch] at pointer
      exact ⟨slot, pointer⟩
  exact swapping.trans (deleteEntity_evolves deleted)

/-- A row of `lhs` is gone, `lhs` is freed, and nothing else happens to the counts. -/
theorem evolves_freed {entityIds renamed : EntityIndex} {middle : World Value}
    (live : w.entityIds.arch lhs.index = some lhsArch)
    (shifts : Shifts w middle (pointsTo (some lhsArch)) noRows)
    (same : w.entityIds.SamePointers renamed) (freed : renamed.free lhs = some entityIds) :
    Evolves false w (middle.setIndex entityIds) := by
  have repoints := same.repoints (EntityIndex.free_repoints freed)
  apply shifts.evolves_fewer
  · intro ptr
    have counted := repoints.population ptr
    rw [live, EntityIndex.pointsTo_none] at counted
    omega
  · exact fun ptr => Nat.zero_le _
  · intro slot ptr pointer
    rw [repoints.arch, Function.update_apply] at pointer
    split at pointer
    · cases pointer
    · exact ⟨slot, pointer⟩

theorem mergeIntoRhs_evolves (live : w.entityIds.read lhs = .ok (lhsArch, lhsIndex))
    (different : lhsArch ≠ rhsArch)
    (merged : w.mergeIntoRhs lhs lhsArch lhsIndex rhsArch rhsIndex = some (result, after)) :
    Evolves false w after := by
  simp only [mergeIntoRhs, Option.bind_eq_bind, Option.bind_eq_some_iff, Option.pure_def,
    Option.some.injEq, Prod.mk.injEq] at merged
  rcases merged with ⟨source, foundSource, target, foundTarget, ⟨moved, removed, written⟩, move,
    renamed, updated, entityIds, freed, _, rfl⟩
  rcases EntityTable.moveEntityInto_counts move with ⟨drops, writes⟩
  have foundNext : (w.setTable lhsArch removed).tables rhsArch = some target := by
    rw [tables_setTable, Function.update_of_ne (Ne.symm different), foundTarget]
  have shifts := (shifts_setTable foundSource drops).trans (shifts_setTable foundNext writes)
  rw [rowsAt_zero, rowsAt_zero, ← pointsTo_some] at shifts
  exact evolves_freed (EntityIndex.arch_of_read live) shifts
    (EntityIndex.updateMoved_same updated) freed

/-- Two live entities are in different slots. -/
theorem index_ne_of_live (different : lhs ≠ rhs)
    (liveLhs : w.entityIds.read lhs = .ok (lhsArch, lhsIndex))
    (liveRhs : w.entityIds.read rhs = .ok (rhsArch, rhsIndex)) : lhs.index ≠ rhs.index := by
  intro sameSlot
  have placedLhs := EntityIndex.place_of_read liveLhs
  have placedRhs := EntityIndex.place_of_read liveRhs
  rcases EntityIndex.place_eq_some_iff.mp placedLhs with ⟨entry, found, current, _⟩
  rw [EntityIndex.place_eq_none_of_current found current sameSlot.symm different.symm]
    at placedRhs
  cases placedRhs

/-- `rhs` gets the table `dst` and `lhs` is freed. -/
theorem merged_index {index renamed updated freed : EntityIndex} {dst : Ptr} {row : Nat}
    (different : lhs.index ≠ rhs.index) (liveLhs : index.arch lhs.index = some lhsArch)
    (liveRhs : index.arch rhs.index = some rhsArch) (same : index.SamePointers renamed)
    (update : renamed.update rhs dst row = some updated)
    (free : updated.free lhs = some freed) :
    (∀ ptr, freed.population ptr + (pointsTo (some lhsArch) ptr + pointsTo (some rhsArch) ptr) =
      index.population ptr + pointsTo (some dst) ptr) ∧
    ∀ slot ptr, freed.arch slot = some ptr → index.arch slot = some ptr ∨ ptr = dst := by
  have first := same.repoints (EntityIndex.update_repoints update)
  have second := EntityIndex.free_repoints free
  constructor
  · intro ptr
    have counted := first.population ptr
    have countedNext := second.population ptr
    rw [liveRhs] at counted
    rw [first.arch, Function.update_of_ne different, liveLhs,
      EntityIndex.pointsTo_none] at countedNext
    omega
  · intro slot ptr pointer
    rw [second.arch, Function.update_apply] at pointer
    split at pointer
    · cases pointer
    · rw [first.arch, Function.update_apply] at pointer
      split at pointer
      · cases pointer
        exact Or.inr rfl
      · exact Or.inl pointer

theorem mergeIntoLhs_evolves (different : lhs ≠ rhs) (differentArch : lhsArch ≠ rhsArch)
    (liveLhs : w.entityIds.read lhs = .ok (lhsArch, lhsIndex))
    (liveRhs : w.entityIds.read rhs = .ok (rhsArch, rhsIndex))
    (merged : w.mergeIntoLhs lhs rhs lhsArch lhsIndex rhsArch rhsIndex = some (result, after)) :
    Evolves false w after := by
  simp only [mergeIntoLhs, Option.bind_eq_bind, Option.bind_eq_some_iff, Option.pure_def,
    Option.some.injEq, Prod.mk.injEq, Option.guard_eq_some', exists_and_left, exists_const]
    at merged
  rcases merged with ⟨target, foundTarget, source, foundSource, ⟨moved, removed⟩, remove,
    renamed, rename, _, updated, update, freed, free, _, rfl⟩
  rcases EntityTable.remove_eq_some remove with ⟨rfl, positive, _, _⟩
  have listed : target.Counts { target with entities := target.entities.set lhsIndex rhs } 0 0 :=
    ⟨rfl, rfl, rfl⟩
  have foundNext : (w.setTable rhsArch (source.dropRow rhsIndex)).tables lhsArch =
      some target := by
    rw [tables_setTable, Function.update_of_ne differentArch, foundTarget]
  have shifts := (shifts_setTable foundSource (EntityTable.dropRow_counts positive)).trans
    (shifts_setTable foundNext listed)
  have indexes := merged_index (index_ne_of_live different liveLhs liveRhs)
    (EntityIndex.arch_of_read liveLhs) (EntityIndex.arch_of_read liveRhs)
    (EntityIndex.updateMoved_same rename) update free
  apply shifts.evolves_fewer
  · intro ptr
    have counted := indexes.1 ptr
    simp only [pointsTo_some, rowsAt_zero, noRows] at counted ⊢
    omega
  · intro ptr
    simp [rowsAt]
  · intro slot ptr pointer
    rcases indexes.2 slot ptr pointer with before | same
    · exact ⟨slot, before⟩
    · exact ⟨lhs.index, same ▸ EntityIndex.arch_of_read liveLhs⟩

variable [UnitTypeId]

/-- The new table of a merge has no rows, and the hash it is looked up by. -/
theorem merged_shape (lhsTable rhsTable : EntityTable Value) :
    (rhsTable.merged lhsTable).rows = 0 ∧
      (rhsTable.merged lhsTable).ty = mergedHash lhsTable rhsTable := by
  have along : ∀ (keys : List TypeId) (table : EntityTable Value),
      (keys.foldl (fun result ty =>
        if rhsTable.containsColumn ty then result
        else { result with
          ty := result.extendedHash ty
          components := result.components.insert ty [] }) table).rows = table.rows ∧
      (keys.foldl (fun result ty =>
        if rhsTable.containsColumn ty then result
        else { result with
          ty := result.extendedHash ty
          components := result.components.insert ty [] }) table).ty =
      keys.foldl (fun hash ty =>
        if rhsTable.containsColumn ty then hash else hash ^^^ hashTypeId ty) table.ty := by
    intro keys
    induction keys with
    | nil => exact fun _ => ⟨rfl, rfl⟩
    | cons ty keys induction =>
        intro table
        simp only [List.foldl_cons]
        by_cases present : rhsTable.containsColumn ty = true
        · rw [if_pos present, if_pos present]
          exact induction table
        · rw [if_neg present, if_neg present]
          exact induction _
  exact along lhsTable.components.keys rhsTable.cloneEmpty

/-- The general path works on the tables of `w`, or on these and a new one. -/
theorem mergeIntoThird_evolves (different : lhs ≠ rhs)
    (liveLhs : w.entityIds.read lhs = .ok (lhsArch, lhsIndex))
    (liveRhs : w.entityIds.read rhs = .ok (rhsArch, rhsIndex))
    (foundLhs : w.tables lhsArch = some lhsTable) (foundRhs : w.tables rhsArch = some rhsTable)
    (differentArch : lhsArch ≠ rhsArch) (fresh : w.tables w.nextTable = none)
    (merged : w.mergeIntoThird lhs rhs lhsArch lhsIndex rhsArch rhsIndex
      (mergedHash lhsTable rhsTable) = some (result, after)) :
    ∃ base, Evolves false base after ∧
      (base = w ∨ w.archetypes[mergedHash lhsTable rhsTable]? = none ∧
        base = w.addTable (rhsTable.merged lhsTable)) := by
  have shape := merged_shape lhsTable rhsTable
  -- The destination is found in `archetypes`, or entered there.
  obtain ⟨dst, base, entry, added, reached, sameIndex, kept⟩ : ∃ dst base,
      w.entryOrInsert (mergedHash lhsTable rhsTable) (rhsTable.merged lhsTable) = (dst, base) ∧
      (base = w ∨ w.archetypes[mergedHash lhsTable rhsTable]? = none ∧
        base = w.addTable (rhsTable.merged lhsTable)) ∧
      (∃ key : TypeHash, base.archetypes[key]? = some dst) ∧ base.entityIds = w.entityIds ∧
      ∀ ptr table, w.tables ptr = some table → base.tables ptr = some table := by
    cases lookup : w.archetypes[mergedHash lhsTable rhsTable]? with
    | some dst =>
        exact ⟨dst, w, by simp [entryOrInsert, lookup], Or.inl rfl,
          ⟨mergedHash lhsTable rhsTable, lookup⟩, rfl, fun _ _ found => found⟩
    | none =>
        refine ⟨w.nextTable, w.addTable (rhsTable.merged lhsTable), ?_, Or.inr ⟨rfl, rfl⟩,
          ⟨_, archetypes_addTable w _⟩, rfl, ?_⟩
        · rw [entryOrInsert, lookup, addTable, shape.2]
          rfl
        · intro ptr table found
          have notNew : ptr ≠ w.nextTable := by
            intro same
            rw [same, fresh] at found
            cases found
          rw [← shape.2] at lookup
          rw [tables_addTable _ lookup, Function.update_of_ne notNew, found]
  refine ⟨base, ?_, added⟩
  simp only [mergeIntoThird, entry, foundLhs, foundRhs, Option.bind_eq_bind, Option.bind_some,
    Option.bind_eq_some_iff, Option.pure_def, Option.some.injEq, Prod.mk.injEq,
    Option.guard_eq_some', exists_and_left, exists_const] at merged
  rcases merged with ⟨⟨row, movedRhs, shifted⟩, move, renamed, rename, notDst, target,
    foundTarget, ⟨dropped, written⟩, merging, movedLhs, _, again, renameAgain, updated, update,
    freed, free, _, rfl⟩
  rcases moveEntity_shifts move with ⟨shifts, present, movedIndex⟩
  rcases EntityTable.mergeInto_counts merging with ⟨drops, writes⟩
  have foundSource : shifted.tables lhsArch = some lhsTable := by
    rw [tables_moveEntity_of_ne move differentArch notDst, kept lhsArch lhsTable foundLhs]
  have foundNext : (shifted.setTable lhsArch dropped).tables dst = some target := by
    rw [tables_setTable, Function.update_of_ne (Ne.symm notDst), foundTarget]
  have allShifts := (shifts.trans (shifts_setTable foundSource drops)).trans
    (shifts_setTable foundNext writes)
  rw [movedIndex, sameIndex] at rename
  have indexes := merged_index (index_ne_of_live different liveLhs liveRhs)
    (EntityIndex.arch_of_read liveLhs) (EntityIndex.arch_of_read liveRhs)
    ((EntityIndex.updateMoved_same rename).trans (EntityIndex.updateMoved_same renameAgain))
    update free
  rw [← sameIndex] at indexes
  apply allShifts.evolves
  · intro ptr
    have counted := indexes.1 ptr
    simp only [pointsTo_some, rowsAt_zero, noRows] at counted ⊢
    omega
  · intro ptr
    by_cases atDst : dst = ptr
    · exact Or.inr (Or.inl (atDst ▸ reached))
    · left
      simp [pointsTo, rowsAt, atDst]
  · intro slot ptr pointer
    rcases indexes.2 slot ptr pointer with before | same
    · exact Or.inl ⟨slot, before⟩
    · exact Or.inr (same ▸ present)

/-- A merge adds a table only on the general path. -/
theorem mergeEntities_evolves (fresh : w.tables w.nextTable = none)
    (merged : w.mergeEntities lhs rhs = some (result, after)) :
    Evolves false w after ∨ ∃ lhsTable rhsTable, w.entityTable lhs = some lhsTable ∧
      w.entityTable rhs = some rhsTable ∧ lhsTable.ty ≠ rhsTable.ty ∧
      mergedHash lhsTable rhsTable ≠ rhsTable.ty ∧ mergedHash lhsTable rhsTable ≠ lhsTable.ty ∧
      w.archetypes[mergedHash lhsTable rhsTable]? = none ∧
      Evolves false (w.addTable (rhsTable.merged lhsTable)) after := by
  rw [mergeEntities] at merged
  split at merged
  · simp only [Option.some.injEq, Prod.mk.injEq] at merged
    rw [← merged.2]
    exact Or.inl (.refl w)
  · rename_i different
    split at merged
    · rename_i lhsArch lhsIndex rhsArch rhsIndex liveLhs liveRhs
      simp only [Option.bind_eq_bind, Option.bind_eq_some_iff] at merged
      rcases merged with ⟨lhsTable, foundLhs, rhsTable, foundRhs, merged⟩
      split at merged
      · exact Or.inl (mergeSameType_evolves merged)
      · rename_i differentTy
        have differentArch : lhsArch ≠ rhsArch := by
          intro same
          rw [same, foundRhs] at foundLhs
          cases foundLhs
          exact differentTy rfl
        split at merged
        · exact Or.inl (mergeIntoRhs_evolves liveLhs differentArch merged)
        · rename_i notRhs
          split at merged
          · exact Or.inl (mergeIntoLhs_evolves different differentArch liveLhs liveRhs merged)
          · rename_i notLhs
            rcases mergeIntoThird_evolves different liveLhs liveRhs foundLhs foundRhs
                differentArch fresh merged with
              ⟨base, evolves, same | ⟨absent, new⟩⟩
            · exact Or.inl (same ▸ evolves)
            · exact Or.inr ⟨lhsTable, rhsTable, by simp [entityTable, liveLhs, foundLhs],
                by simp [entityTable, liveRhs, foundRhs], differentTy, notRhs, notLhs, absent,
                new ▸ evolves⟩
    · simp only [Option.some.injEq, Prod.mk.injEq] at merged
      rw [← merged.2]
      exact Or.inl (.refl w)

end Merge

end World

end Cecs

import Cecs.World.Changes

/-! # Other tables in the memory

The tables of a second world may lie in the memory that a world works in. An
operation follows pointers of its own world only, so it does there what it does in
a memory of its own, and the other tables stay as they are. -/

namespace Cecs

open Foundation

namespace World

variable {Value : Type}

/-- The world in a memory that holds other tables as well. -/
def beside (w : World Value) (others : Ptr → Option (EntityTable Value)) : World Value :=
  { w with tables := fun ptr => (w.tables ptr).or (others ptr) }

/-- The other tables were allocated before, and none of them belongs to `w`. -/
def Beside (w : World Value) (others : Ptr → Option (EntityTable Value)) : Prop :=
  ∀ ptr table, others ptr = some table → w.tables ptr = none ∧ ptr < w.nextTable

variable {w after : World Value} {others : Ptr → Option (EntityTable Value)}

theorem tables_beside {ptr : Ptr} {table : EntityTable Value}
    (found : w.tables ptr = some table) : (w.beside others).tables ptr = some table := by
  simp [beside, found]

theorem Beside.tables (apart : w.Beside others) {ptr : Ptr} {table : EntityTable Value}
    (found : others ptr = some table) : (w.beside others).tables ptr = some table := by
  simp [beside, (apart ptr table found).1, found]

theorem setTable_beside (ptr : Ptr) (table : EntityTable Value) :
    (w.beside others).setTable ptr table = (w.setTable ptr table).beside others := by
  simp only [beside, setTable, mk.injEq, true_and, and_true]
  funext other
  by_cases same : other = ptr
  · subst same
    simp
  · simp [same]

theorem setIndex_beside (entityIds : EntityIndex) :
    (w.beside others).setIndex entityIds = (w.setIndex entityIds).beside others := rfl

section Frame

variable {id : EntityId} {src dst ptr : Ptr} {index row : Nat}

theorem moveEntity_beside {moved : Option EntityId}
    (move : w.moveEntity src dst index = some (row, moved, after)) :
    (w.beside others).moveEntity src dst index = some (row, moved, after.beside others) := by
  simp only [moveEntity, Option.bind_eq_bind, Option.bind_eq_some_iff, Option.guard_eq_some',
    Option.pure_def, Option.some.injEq, Prod.mk.injEq, exists_const] at move
  rcases move with ⟨different, source, foundSource, target, foundTarget, ⟨res, id, first, second⟩,
    moves, rfl, rfl, rfl⟩
  simp [moveEntity, different, tables_beside foundSource, tables_beside foundTarget, moves,
    setTable_beside]

theorem insertArchetype_beside {table : EntityTable Value}
    (inserted : w.insertArchetype src index table = some (ptr, after)) :
    (w.beside others).insertArchetype src index table = some (ptr, after.beside others) := by
  simp only [insertArchetype, Option.bind_eq_bind, Option.bind_eq_some_iff,
    Option.guard_eq_some', Option.pure_def, Option.some.injEq, Prod.mk.injEq,
    exists_and_left, exists_const] at inserted
  rcases inserted with ⟨⟨res, moved, shifted⟩, move, atStart, absent, renamed, update, rfl, rfl⟩
  have boxed : (w.beside others).allocateTable table =
      (w.nextTable, (w.allocateTable table).2.beside others) := by
    simp only [allocateTable, setTable_beside]
    rfl
  have entered : (shifted.beside others).insertArchetypes table.ty w.nextTable =
      (shifted.insertArchetypes table.ty w.nextTable).beside others := by
    simp [insertArchetypes, beside, absent, dropTable]
  simp only [insertArchetype, boxed, Option.bind_eq_bind, Option.bind_eq_some_iff,
    Option.guard_eq_some', Option.pure_def, Option.some.injEq, Prod.mk.injEq,
    exists_and_left, exists_const]
  refine ⟨_, moveEntity_beside move, atStart, absent, renamed, update, rfl, ?_⟩
  rw [← setIndex_beside]
  exact congrArg (setIndex · renamed) entered

theorem deleteEntity_beside {result : WorldResult Unit}
    (deleted : w.deleteEntity id = some (result, after)) :
    (w.beside others).deleteEntity id = some (result, after.beside others) := by
  have sameIndex : (w.beside others).entityIds = w.entityIds := rfl
  rw [deleteEntity] at deleted ⊢
  rw [sameIndex]
  cases outcome : w.entityIds.read id with
  | error error =>
      simp only [outcome, Option.some.injEq, Prod.mk.injEq] at deleted ⊢
      rcases deleted with ⟨rfl, rfl⟩
      exact ⟨rfl, rfl⟩
  | ok spot =>
      simp only [outcome, Option.bind_eq_bind, Option.bind_eq_some_iff, Option.guard_eq_some',
        Option.pure_def, Option.some.injEq, Prod.mk.injEq, exists_and_left, exists_const]
        at deleted ⊢
      rcases deleted with ⟨table, found, removed, remove, different, renamed, updated, freed,
        free, rfl, rfl⟩
      exact ⟨table, tables_beside found, removed, remove, different, renamed, updated, freed,
        free, rfl, by rw [setTable_beside, setIndex_beside]⟩

theorem initId_beside [UnitTypeId] [BuiltinValues Value] (init : w.initId id = some after) :
    (w.beside others).initId id = some (after.beside others) := by
  rcases initId_eq_some_iff.mp init with ⟨ptr, table, row, grown, written, entityIds, owner,
    found, push, set, updated, rfl⟩
  exact initId_eq_some_iff.mpr ⟨ptr, table, row, grown, written, entityIds, owner,
    tables_beside found, push, set, updated, by rw [setTable_beside, setIndex_beside]⟩

theorem insertEntity_beside [UnitTypeId] [BuiltinValues Value]
    (inserted : w.insertEntity = some (id, after)) :
    (w.beside others).insertEntity = some (id, after.beside others) := by
  simp only [insertEntity, Option.bind_eq_bind, Option.bind_eq_some_iff, Option.pure_def,
    Option.some.injEq, Prod.mk.injEq] at inserted ⊢
  rcases inserted with ⟨allocation, allocated, _, init, rfl, rfl⟩
  exact ⟨allocation, allocated, _, initId_beside init, rfl, rfl⟩

theorem insertId_beside [UnitTypeId] [BuiltinValues Value] {result : Except InsertError Unit}
    (inserted : w.insertId id = some (result, after)) :
    (w.beside others).insertId id = some (result, after.beside others) := by
  rcases insertId_eq_some_iff.mp inserted with ⟨entityIds, insertion, rest⟩
  refine insertId_eq_some_iff.mpr ⟨entityIds, insertion, ?_⟩
  cases result with
  | error error =>
      cases rest
      rfl
  | ok done => exact initId_beside rest

variable [UnitTypeId]

theorem placeForBundle_beside {bundle : Bundle Value} {placed : World Value}
    (place : w.placeForBundle src index bundle = some (placed, dst, row)) :
    (w.beside others).placeForBundle src index bundle =
      some (placed.beside others, dst, row) := by
  simp only [placeForBundle, Option.bind_eq_bind, Option.bind_eq_some_iff] at place ⊢
  rcases place with ⟨table, found, place⟩
  refine ⟨table, tables_beside found, ?_⟩
  by_cases fits : bundle.canInsert table = true
  · rw [if_pos fits] at place ⊢
    cases place
    rfl
  · rw [if_neg fits] at place ⊢
    have sameLookup : (w.beside others).getArchetypeByKey (bundle.computeHashFromTable table) =
        w.getArchetypeByKey (bundle.computeHashFromTable table) := rfl
    rw [sameLookup]
    cases lookup : w.getArchetypeByKey (bundle.computeHashFromTable table) with
    | some newArch =>
        simp only [lookup, Option.bind_eq_some_iff, Option.pure_def, Option.some.injEq,
          Prod.mk.injEq] at place ⊢
        rcases place with ⟨⟨res, moved, shifted⟩, move, entityIds, updated, rfl, rfl, rfl⟩
        exact ⟨_, moveEntity_beside move, entityIds, updated, rfl, rfl, rfl⟩
    | none =>
        simp only [lookup, Option.bind_eq_some_iff, Option.guard_eq_some', Option.pure_def,
          Option.some.injEq, Prod.mk.injEq, exists_and_left, exists_const] at place ⊢
        rcases place with ⟨sameHash, inserted, insertion, rfl, rfl, rfl⟩
        exact ⟨sameHash, _, insertArchetype_beside insertion, rfl, rfl, rfl⟩

theorem setBundle_beside {bundle : Bundle Value} {result : WorldResult Unit}
    (set : w.setBundle id bundle = some (result, after)) :
    (w.beside others).setBundle id bundle = some (result, after.beside others) := by
  have sameIndex : (w.beside others).entityIds = w.entityIds := rfl
  rw [setBundle] at set ⊢
  rw [sameIndex]
  cases outcome : w.entityIds.read id with
  | error error =>
      simp only [outcome, Option.some.injEq, Prod.mk.injEq] at set ⊢
      rcases set with ⟨rfl, rfl⟩
      exact ⟨rfl, rfl⟩
  | ok spot =>
      simp only [outcome, Option.bind_eq_bind, Option.bind_eq_some_iff, Option.pure_def,
        Option.some.injEq, Prod.mk.injEq] at set ⊢
      rcases set with ⟨⟨placed, dst, row⟩, place, target, foundTarget, written, inserted,
        entityIds, updated, rfl, rfl⟩
      exact ⟨_, placeForBundle_beside place, target, tables_beside foundTarget, written,
        inserted, entityIds, updated, rfl, by rw [setTable_beside, setIndex_beside]⟩

theorem placeWithout_beside {table : EntityTable Value} {ty : TypeId} {placed : World Value}
    (place : w.placeWithout id src index table ty = some (placed, dst, row)) :
    (w.beside others).placeWithout id src index table ty =
      some (placed.beside others, dst, row) := by
  have sameLookup : (w.beside others).archetypes[table.extendedHash ty]? =
      w.archetypes[table.extendedHash ty]? := rfl
  rw [placeWithout] at place ⊢
  rw [sameLookup]
  cases lookup : w.archetypes[table.extendedHash ty]? with
  | some newArch =>
      simp only [lookup, Option.bind_eq_bind, Option.bind_eq_some_iff, Option.guard_eq_some',
        Option.pure_def, Option.some.injEq, Prod.mk.injEq, exists_and_left, exists_const]
        at place ⊢
      rcases place with ⟨moving, move, notSelf, entityIds, updated, rfl, rfl, rfl⟩
      exact ⟨_, moveEntity_beside move, notSelf, entityIds, updated, rfl, rfl, rfl⟩
  | none =>
      simp only [lookup, Option.bind_eq_bind, Option.bind_eq_some_iff, Option.pure_def,
        Option.some.injEq, Prod.mk.injEq] at place ⊢
      rcases place with ⟨inserted, insertion, rfl, rfl, rfl⟩
      exact ⟨_, insertArchetype_beside insertion, rfl, rfl, rfl⟩

theorem removeComponent_beside {ty : TypeId} {result : WorldResult Unit}
    (removed : w.removeComponent id ty = some (result, after)) :
    (w.beside others).removeComponent id ty = some (result, after.beside others) := by
  have sameIndex : (w.beside others).entityIds = w.entityIds := rfl
  rw [removeComponent] at removed ⊢
  rw [sameIndex]
  cases outcome : w.entityIds.read id with
  | error error =>
      simp only [outcome, Option.some.injEq, Prod.mk.injEq] at removed ⊢
      rcases removed with ⟨rfl, rfl⟩
      exact ⟨rfl, rfl⟩
  | ok spot =>
      simp only [outcome, Option.bind_eq_bind, Option.bind_eq_some_iff] at removed ⊢
      rcases removed with ⟨table, found, removed⟩
      refine ⟨table, tables_beside found, ?_⟩
      by_cases column : table.containsColumn ty = true
      · rw [if_pos column] at removed ⊢
        simp only [Option.bind_eq_some_iff, Option.pure_def, Option.some.injEq,
          Prod.mk.injEq] at removed ⊢
        rcases removed with ⟨⟨placed, dst, row⟩, place, entityIds, updated, rfl, rfl⟩
        exact ⟨_, placeWithout_beside place, entityIds, updated, rfl, rfl⟩
      · rw [if_neg column] at removed ⊢
        cases removed
        rfl

end Frame

section Changes

variable [UnitTypeId] [BuiltinValues Value] {types : Finset TypeId}

/-- A change finds the tables as they are, or as they are with one more. -/
theorem change_evolves {change : Change Value} {answer : Answer}
    (changed : w.change change = some (answer, after)) :
    ∃ base, Evolves true base after ∧ (base = w ∨ ∃ table : EntityTable Value,
      w.archetypes[table.ty]? = none ∧ base = w.addTable table) := by
  cases change with
  | insertId id =>
      rcases Option.map_eq_some_iff.mp changed with ⟨_, inserted, pair⟩
      cases pair
      exact ⟨w, (insertId_evolves inserted).weaken, Or.inl rfl⟩
  | operation operation =>
      rcases Option.map_eq_some_iff.mp changed with ⟨performing, performed, pair⟩
      cases pair
      cases operation with
      | insertEntity =>
          rcases Option.map_eq_some_iff.mp performed with ⟨_, inserted, pair⟩
          cases pair
          exact ⟨w, (insertEntity_evolves inserted).weaken, Or.inl rfl⟩
      | deleteEntity id =>
          rcases Option.map_eq_some_iff.mp performed with ⟨_, deleted, pair⟩
          cases pair
          exact ⟨w, (deleteEntity_evolves deleted).weaken, Or.inl rfl⟩
      | setBundle id bundle =>
          rcases Option.map_eq_some_iff.mp performed with ⟨⟨result, final⟩, set, pair⟩
          cases pair
          rcases setBundle_relocated set with
            same | ⟨src, dst, table, base, found, relocated, rfl | ⟨absent, rfl⟩⟩
          · subst same
            exact ⟨_, .refl _, Or.inl rfl⟩
          · exact ⟨base, relocated.evolves, Or.inl rfl⟩
          · rw [getArchetypeByKey, Option.or_eq_none_iff] at absent
            exact ⟨_, relocated.evolves, Or.inr ⟨_, absent.1, rfl⟩⟩
      | removeComponent id ty =>
          rcases Option.map_eq_some_iff.mp performed with ⟨⟨result, final⟩, removed, pair⟩
          cases pair
          rcases removeComponent_relocated removed with
            same | ⟨src, dst, table, base, found, column, relocated, rfl | ⟨absent, rfl⟩⟩
          · subst same
            exact ⟨_, .refl _, Or.inl rfl⟩
          · exact ⟨base, relocated.evolves, Or.inl rfl⟩
          · rw [← EntityTable.ty_reduceWithColumn_cloneEmpty column] at absent
            exact ⟨_, relocated.evolves, Or.inr ⟨_, absent, rfl⟩⟩

/-- New tables get addresses of their own. -/
theorem Beside.change (apart : w.Beside others) {change : Change Value} {answer : Answer}
    (changed : w.change change = some (answer, after)) : after.Beside others := by
  rcases change_evolves changed with ⟨base, evolves, added⟩
  have keeps : base.Beside others := by
    rcases added with rfl | ⟨table, absent, rfl⟩
    · exact apart
    · intro ptr other found
      rcases apart ptr other found with ⟨missing, below⟩
      rw [tables_addTable _ absent, Function.update_of_ne (Nat.ne_of_lt below)]
      exact ⟨missing, Nat.lt_succ_of_lt below⟩
  intro ptr other found
  rcases keeps ptr other found with ⟨missing, below⟩
  exact ⟨evolves.absent ptr missing, evolves.nextTable ▸ below⟩

theorem perform_beside {operation : Operation Value} {outcome : Outcome}
    (performed : w.perform operation = some (outcome, after)) :
    (w.beside others).perform operation = some (outcome, after.beside others) := by
  cases operation with
  | insertEntity =>
      rcases Option.map_eq_some_iff.mp performed with ⟨_, inserted, pair⟩
      cases pair
      exact Option.map_eq_some_iff.mpr ⟨_, insertEntity_beside inserted, rfl⟩
  | deleteEntity id =>
      rcases Option.map_eq_some_iff.mp performed with ⟨_, deleted, pair⟩
      cases pair
      exact Option.map_eq_some_iff.mpr ⟨_, deleteEntity_beside deleted, rfl⟩
  | setBundle id bundle =>
      rcases Option.map_eq_some_iff.mp performed with ⟨_, set, pair⟩
      cases pair
      exact Option.map_eq_some_iff.mpr ⟨_, setBundle_beside set, rfl⟩
  | removeComponent id ty =>
      rcases Option.map_eq_some_iff.mp performed with ⟨_, removed, pair⟩
      cases pair
      exact Option.map_eq_some_iff.mpr ⟨_, removeComponent_beside removed, rfl⟩

/-- What a change does is the same in a memory with other tables. -/
theorem Twins.change_beside (twins : Twins types w w) (hashes : HashesApart types)
    {change : Change Value} (permitted : change.Permitted) (within : change.types ⊆ types) :
    (w.beside others).change change =
      (w.change change).map fun (answer, after) => (answer, after.beside others) := by
  rcases twins.change hashes permitted within with
    ⟨full, _⟩ | ⟨answer, after, _, changed, _, _⟩
  · have fullBeside : (w.beside others).NoRoom change := by
      cases change with
      | insertId id => exact full
      | operation operation => cases operation <;> exact full
    rw [full.change_eq_none, fullBeside.change_eq_none]
    rfl
  · rw [changed]
    cases change with
    | insertId id =>
        rcases Option.map_eq_some_iff.mp changed with ⟨_, inserted, pair⟩
        cases pair
        exact Option.map_eq_some_iff.mpr ⟨_, insertId_beside inserted, rfl⟩
    | operation operation =>
        rcases Option.map_eq_some_iff.mp changed with ⟨⟨outcome, final⟩, performed, pair⟩
        cases pair
        exact Option.map_eq_some_iff.mpr ⟨_, perform_beside performed, rfl⟩

/-- The same for a sequence of changes, which leaves the other tables alone. -/
theorem Twins.changes_beside (twins : Twins types w w) (hashes : HashesApart types)
    (apart : w.Beside others) {list : List (Change Value)}
    (permitted : ∀ change ∈ list, change.Permitted ∧ change.types ⊆ types) :
    (w.beside others).changes list =
      (w.changes list).map (fun (answers, after) => (answers, after.beside others)) ∧
    ∀ answers after, w.changes list = some (answers, after) → after.Beside others := by
  induction list generalizing w with
  | nil =>
      refine ⟨rfl, ?_⟩
      intro answers after ran
      cases ran
      exact apart
  | cons change rest induction =>
      rcases permitted change List.mem_cons_self with ⟨allowed, within⟩
      have same : (w.beside others).change change = _ :=
        twins.change_beside hashes allowed within
      rcases twins.change hashes allowed within with
        ⟨full, _⟩ | ⟨answer, middle, _, changed, again, twinsMiddle⟩
      · rw [full.change_eq_none] at same
        simp [World.changes, same, full.change_eq_none]
      · cases changed.symm.trans again
        rw [changed] at same
        rcases induction twinsMiddle (apart.change changed) (fun later member => permitted later
            (List.mem_cons_of_mem _ member)) with
          ⟨sameRest, apartRest⟩
        constructor
        · simp only [World.changes, same, changed, Option.map_some, Option.bind_eq_bind,
            Option.bind_some, sameRest]
          cases middle.changes rest <;> rfl
        · intro answers after ran
          simp only [World.changes, changed, Option.bind_eq_bind, Option.bind_some,
            Option.bind_eq_some_iff, Option.pure_def, Option.some.injEq, Prod.mk.injEq] at ran
          rcases ran with ⟨⟨later, final⟩, ranRest, _, rfl⟩
          exact apartRest later final ranRest

end Changes

end World

end Cecs

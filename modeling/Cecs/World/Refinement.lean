import Cecs.EntityMap
import Cecs.World.Operations

/-! # The world refines the entity map -/

namespace Cecs

open Foundation

namespace World

section Refinement

variable {Value : Type} [UnitTypeId] [BuiltinValues Value]

def perform (w : World Value) : Operation Value → Option (Outcome × World Value)
  | .insertEntity => (w.insertEntity).map fun (id, after) => (.inserted id, after)
  | .deleteEntity id => (w.deleteEntity id).map fun (result, after) => (.answer result, after)
  | .setBundle id bundle =>
      (w.setBundle id bundle).map fun (result, after) => (.answer result, after)
  | .removeComponent id ty =>
      (w.removeComponent id ty).map fun (result, after) => (.answer result, after)

/-- The component types of the entity after the operation, when they change. -/
def targetTypes (w : World Value) : Operation Value → Option (Finset TypeId)
  | .setBundle id bundle => (w.entityTable id).map fun table => table.types ∪ bundle.types
  | .removeComponent id ty => (w.entityTable id).map fun table => table.types.erase ty
  | _ => none

/-- What is found under the hash of the columns that the entity gets has just these columns. -/
def FindsTarget (w : World Value) : Operation Value → Prop
  | .setBundle id bundle => w.FindsExtended id bundle
  | .removeComponent id ty =>
      (∃ table, w.entityTable id = some table ∧ ty ∈ table.types) → w.FindsWithout id ty
  | _ => True

/-- No table of another shape has the hash of the shape that the entity gets. -/
def NoCollision (w : World Value) (operation : Operation Value) : Prop :=
  ∀ types, w.targetTypes operation = some types → w.HashDetermines types

/-- The index has room for a new entity, a bundle names every type once, and the
unit component stays. -/
def Admissible (w : World Value) : Operation Value → Prop
  | .insertEntity => w.entityIds.HasRoom
  | .deleteEntity _ => True
  | .setBundle _ bundle => bundle.Distinct
  | .removeComponent _ ty => ty ≠ unitTypeId

instance (w : World Value) (operation : Operation Value) :
    Decidable (w.Admissible operation) :=
  match operation with
  | .insertEntity => inferInstanceAs (Decidable w.entityIds.HasRoom)
  | .deleteEntity _ => inferInstanceAs (Decidable True)
  | .setBundle _ bundle => inferInstanceAs (Decidable bundle.Distinct)
  | .removeComponent _ ty => inferInstanceAs (Decidable (ty ≠ unitTypeId))

omit [BuiltinValues Value] in
theorem NoCollision.findsTarget {w : World Value} {operation : Operation Value}
    (noCollision : w.NoCollision operation) (wf : w.WellFormed)
    (admissible : w.Admissible operation) : w.FindsTarget operation := by
  cases operation with
  | setBundle id bundle =>
      apply wf.findsExtended_of_determines (wf.toFormed.computeHashFromTable admissible)
      exact fun table found => noCollision _ (by simp [targetTypes, found])
  | removeComponent id ty =>
      rintro ⟨table, found, member⟩
      exact wf.findsWithout_of_determines found member
        (noCollision _ (by simp [targetTypes, found]))
  | _ => trivial

/-- A first world is well-formed and has no entities. -/
theorem new_spec {initialCapacity : Nat} {w : World Value}
    (created : new initialCapacity = some w) :
    w.WellFormed ∧ w.view = fun _ => none := by
  simp only [new, Option.bind_eq_bind, Option.bind_eq_some_iff, Option.pure_def,
    Option.some.injEq] at created
  rcases created with ⟨entityIds, createdIds, created⟩
  rcases EntityIndex.new_spec createdIds with ⟨sound, places⟩
  -- It is a world without tables to which the void table was added.
  let bare : World Value :=
    { entityIds, tables := fun _ => none, nextTable := 0, archetypes := ∅,
      archetypesStaging := ∅, resources := firstResources, commands := [] }
  have owned : bare.Owned := by
    constructor <;> simp [bare]
  have absent : bare.archetypes[(EntityTable.empty : EntityTable Value).ty]? = none := by
    simp [bare]
  have voidTy : (EntityTable.empty : EntityTable Value).ty = VOID_TY := hashTypeId_unitTypeId
  have added : bare.addTable EntityTable.empty = w := by
    rw [← created]
    simp [addTable, allocateTable, insertArchetypes, dropTable, setTable, bare, voidTy]
  have tables : w.tables = Function.update bare.tables 0 (some EntityTable.empty) :=
    congrArg World.tables created.symm
  have only : ∀ ptr table, w.tables ptr = some table → table = EntityTable.empty := by
    intro ptr table found
    rw [tables, Function.update_apply] at found
    split at found
    · exact (Option.some.inj found).symm
    · simp [bare] at found
  have rows : ∀ ptr, w.store.rows ptr = [] := by
    intro ptr
    cases found : w.tables ptr with
    | none => simp [store, found]
    | some table =>
        rw [rows_store_of_table found, only ptr table found]
        exact EntityTable.blank_empty.rowList
  have place : w.store.place = fun _ => none := by
    rw [← places, ← created]
    rfl
  have linked : w.store.Linked := by
    intro key ptr position
    simp [place, RowStore.keys, rows ptr]
  have ownedWorld : w.Owned := added ▸ owned.addTable absent
  have soundWorld : w.entityIds.Sound (List.range' 0 (max initialCapacity 1)) := by
    rw [← created]
    exact sound
  refine ⟨{ ownedWorld with
    index := ⟨_, soundWorld⟩, linked := linked, aligned := ?_, shaped := ?_, void := ?_ }, ?_⟩
  · intro ptr table found
    rw [only ptr table found]
    exact EntityTable.blank_empty.aligned
  · intro ptr table found
    rw [only ptr table found]
    exact EntityTable.shaped_empty
  · refine ⟨0, EntityTable.empty, ?_, ?_, EntityTable.types_empty⟩
    · rw [← created, BTreeMap.getElem?_insert, if_pos rfl]
    · rw [tables, Function.update_self]
  · funext id
    rw [view, RowStore.view, place]
    rfl

theorem perform_insertEntity {w : World Value} (wf : w.WellFormed)
    (room : w.entityIds.HasRoom) :
    ∃ outcome after, w.perform .insertEntity = some (outcome, after) ∧ after.WellFormed ∧
      EntityMap.Step w.view .insertEntity outcome after.view := by
  rcases insertEntity_spec wf room with ⟨id, after, inserted, wfAfter, fresh, viewAfter⟩
  have step := EntityMap.Step.insert fresh
  rw [← viewAfter] at step
  exact ⟨.inserted id, after, by simp [perform, inserted], wfAfter, step⟩

theorem perform_dead {w : World Value} (wf : w.WellFormed) {operation : Operation Value}
    {id : EntityId} (about : operation.entity = some id) (dead : w.view id = none) :
    w.perform operation = some (.answer (.error .EntityNotFound), w) := by
  have absent := (view_eq_none_iff wf.toConsistent).mp dead
  cases operation with
  | insertEntity => cases about
  | deleteEntity =>
      cases about
      simp [perform, deleteEntity_dead absent]
  | setBundle _ bundle =>
      cases about
      simp [perform, setBundle_dead absent bundle]
  | removeComponent _ ty =>
      cases about
      simp [perform, removeComponent_dead absent ty]

theorem perform_live {w : World Value} (wf : w.WellFormed) {operation : Operation Value}
    {id : EntityId} (about : operation.entity = some id) {row : Row Value}
    (live : w.view id = some row) (admissible : w.Admissible operation)
    (finds : w.FindsTarget operation) :
    ∃ outcome after, w.perform operation = some (outcome, after) ∧ after.WellFormed ∧
      EntityMap.Step w.view operation outcome after.view := by
  rcases wf.index with ⟨slots, sound⟩
  cases operation with
  | insertEntity => cases about
  | deleteEntity =>
      cases about
      rcases deleteEntity_live wf sound live with ⟨after, _, deleted, wfAfter, viewAfter, _⟩
      have step := EntityMap.Step.delete live
      rw [← viewAfter] at step
      exact ⟨.answer (.ok ()), after, by simp [perform, deleted], wfAfter, step⟩
  | setBundle _ bundle =>
      cases about
      rcases setBundle_found wf sound live (wf.toFormed.computeHashFromTable admissible) finds with
        ⟨after, set, wfAfter, viewAfter, _⟩
      have step : EntityMap.Step w.view (.setBundle id bundle) _ _ := .set live
      rw [← viewAfter] at step
      exact ⟨.answer (.ok ()), after, by simp [perform, set], wfAfter, step⟩
  | removeComponent _ ty =>
      cases about
      cases present : row ty with
      | none =>
          have missing := removeComponent_missing wf live present
          exact ⟨_, w, by simp [perform, missing], wf, .missing live present⟩
      | some value =>
          rcases wf.toConsistent.table_of_view live with
            ⟨ptr, index, table, outcome, found, aligned, inRange, _, rfl⟩
          have column : ∃ table, w.entityTable id = some table ∧ ty ∈ table.types := by
            refine ⟨table, by simp [entityTable, outcome, found], ?_⟩
            rw [← aligned.fills_row inRange ty, present]
            rfl
          rcases removeComponent_hashed wf sound live admissible present (finds column) with
            ⟨after, removed, wfAfter, viewAfter, _⟩
          have step := EntityMap.Step.remove live present
          rw [← viewAfter] at step
          exact ⟨.answer (.ok ()), after, by simp [perform, removed], wfAfter, step⟩

section Check

/-- The tables that the maps have under the hash of `types` have these columns. -/
def keyDetermines (w : World Value) (types : Finset TypeId) : Bool :=
  [w.archetypes[hashTypes types]?, w.archetypesStaging[hashTypes types]?].all fun owner =>
    owner.all fun ptr => (w.tables ptr).all fun table => decide (table.types = types)

/-- The conditions of an operation, as a test. -/
def admits (w : World Value) (operation : Operation Value) : Bool :=
  (w.targetTypes operation).all w.keyDetermines && decide (w.Admissible operation)

/-- Performs operations as long as they are admitted. -/
def runOperations (w : World Value) : List (Operation Value) → Option (World Value)
  | [] => some w
  | operation :: rest =>
      if w.admits operation then
        (w.perform operation).bind fun (_, after) => after.runOperations rest
      else
        none

omit [BuiltinValues Value] in
theorem Owned.hashDetermines {w : World Value} (owned : w.Owned) {types : Finset TypeId}
    (check : w.keyDetermines types = true) : w.HashDetermines types := by
  intro ptr table found ty
  simp only [keyDetermines, List.all_cons, List.all_nil, Bool.and_true, Bool.and_eq_true]
    at check
  rcases owned.owner ptr table found with owner | owner <;> rw [ty] at owner
  · simpa [owner, found] using check.1
  · simpa [owner, found] using check.2

omit [BuiltinValues Value] in
theorem Owned.of_admits {w : World Value} (owned : w.Owned) {operation : Operation Value}
    (admitted : w.admits operation = true) :
    w.Admissible operation ∧ w.NoCollision operation := by
  rw [admits, Bool.and_eq_true] at admitted
  rcases admitted with ⟨keys, arguments⟩
  refine ⟨of_decide_eq_true arguments, ?_⟩
  intro types target
  rw [target] at keys
  exact owned.hashDetermines keys

/-- Worlds that come from admitted operations are well-formed. -/
theorem runOperations_wellFormed {w after : World Value} (wf : w.WellFormed)
    {operations : List (Operation Value)} (ran : w.runOperations operations = some after) :
    after.WellFormed := by
  induction operations generalizing w with
  | nil =>
      cases ran
      exact wf
  | cons operation rest induction =>
      rw [runOperations] at ran
      split at ran
      · rename_i admitted
        rcases wf.toOwned.of_admits admitted with ⟨admissible, noCollision⟩
        rcases Option.bind_eq_some_iff.mp ran with ⟨⟨outcome, middle⟩, performed, ran⟩
        apply induction _ ran
        cases about : operation.entity with
        | none =>
            cases operation <;> cases about
            rcases perform_insertEntity wf admissible with ⟨_, _, same, wfMiddle, _⟩
            cases performed.symm.trans same
            exact wfMiddle
        | some id =>
            cases live : w.view id with
            | none =>
                cases performed.symm.trans (perform_dead wf about live)
                exact wf
            | some row =>
                rcases perform_live wf about live admissible
                    (noCollision.findsTarget wf admissible) with
                  ⟨_, _, same, wfMiddle, _⟩
                cases performed.symm.trans same
                exact wfMiddle
      · cases ran

end Check

end Refinement

end World

end Cecs

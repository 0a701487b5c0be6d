import Cecs.Commands
import Cecs.World.Clone

/-! # What operations on entities leave alone

No operation on entities or tables looks at the resources or at the buffers, so it does the
same in a world that carries others. -/

namespace Cecs

open Foundation

namespace World

variable {Value : Type}

/-- The world with other resources and buffers. -/
def carrying (w : World Value) (resources : BTreeMap TypeId Value)
    (commands : List (List (CommandPayload Value))) : World Value :=
  { w with resources, commands }

variable {w : World Value} {resources : BTreeMap TypeId Value}
  {commands : List (List (CommandPayload Value))}

theorem setIndex_carrying (entityIds : EntityIndex) :
    (w.carrying resources commands).setIndex entityIds =
      (w.setIndex entityIds).carrying resources commands := rfl

theorem reserveEntities_carrying (additional : Nat) :
    (w.carrying resources commands).reserveEntities additional =
      (w.reserveEntities additional).map fun after => after.carrying resources commands := by
  simp only [reserveEntities, Option.bind_eq_bind, Option.map_bind, Function.comp_def]
  rfl

theorem moveEntity_carrying (src dst : Ptr) (index : Nat) :
    (w.carrying resources commands).moveEntity src dst index =
      (w.moveEntity src dst index).map fun result =>
        (result.1, result.2.1, result.2.2.carrying resources commands) := by
  simp only [moveEntity, Option.bind_eq_bind, Option.map_bind, Function.comp_def]
  rfl

theorem insertArchetype_carrying (archetype : Ptr) (rowIndex : Nat)
    (newArch : EntityTable Value) :
    (w.carrying resources commands).insertArchetype archetype rowIndex newArch =
      (w.insertArchetype archetype rowIndex newArch).map fun result =>
        (result.1, result.2.carrying resources commands) := by
  have boxed : (w.carrying resources commands).allocateTable newArch =
      ((w.allocateTable newArch).1, (w.allocateTable newArch).2.carrying resources commands) := rfl
  simp only [insertArchetype, boxed, moveEntity_carrying, Option.bind_eq_bind, Option.map_bind,
    Option.bind_map, Function.comp_def]
  rfl

theorem deleteEntity_carrying (id : EntityId) :
    (w.carrying resources commands).deleteEntity id =
      (w.deleteEntity id).map fun result => (result.1, result.2.carrying resources commands) := by
  have same : (w.carrying resources commands).entityIds = w.entityIds := rfl
  rw [deleteEntity, deleteEntity, same]
  cases w.entityIds.read id with
  | error error => rfl
  | ok place =>
      simp only [Option.bind_eq_bind, Option.map_bind, Function.comp_def]
      rfl

theorem writeCell_carrying (ptr : Ptr) (ty : TypeId) (row : Nat) (value : Value) :
    (w.carrying resources commands).writeCell ptr ty row value =
      (w.writeCell ptr ty row value).carrying resources commands := by
  have same : (w.carrying resources commands).tables = w.tables := rfl
  rw [writeCell, writeCell, same]
  cases w.tables ptr <;> rfl

section Shapes

variable [UnitTypeId]

theorem placeForBundle_carrying (arch : Ptr) (index : Nat) (bundle : Bundle Value) :
    (w.carrying resources commands).placeForBundle arch index bundle =
      (w.placeForBundle arch index bundle).map fun result =>
        (result.1.carrying resources commands, result.2) := by
  have same : (w.carrying resources commands).tables = w.tables := rfl
  rw [placeForBundle, placeForBundle, same]
  cases w.tables arch with
  | none => rfl
  | some archetype =>
      simp only [Option.bind_eq_bind, Option.bind_some]
      split
      · rfl
      · have key : (w.carrying resources commands).getArchetypeByKey
            (bundle.computeHashFromTable archetype) =
              w.getArchetypeByKey (bundle.computeHashFromTable archetype) := rfl
        rw [key]
        cases w.getArchetypeByKey (bundle.computeHashFromTable archetype) with
        | none =>
            simp only [insertArchetype_carrying, Option.bind_map, Option.map_bind,
              Function.comp_def]
            rfl
        | some newArch =>
            simp only [moveEntity_carrying, Option.bind_map, Option.map_bind, Function.comp_def]
            rfl

theorem setBundle_carrying (entityId : EntityId) (bundle : Bundle Value) :
    (w.carrying resources commands).setBundle entityId bundle =
      (w.setBundle entityId bundle).map fun result =>
        (result.1, result.2.carrying resources commands) := by
  have same : (w.carrying resources commands).entityIds = w.entityIds := rfl
  rw [setBundle, setBundle, same]
  cases w.entityIds.read entityId with
  | error error => rfl
  | ok place =>
      simp only [placeForBundle_carrying, Option.bind_eq_bind, Option.bind_map, Option.map_bind,
        Function.comp_def]
      rfl

theorem placeWithout_carrying (entityId : EntityId) (arch : Ptr) (index : Nat)
    (archetype : EntityTable Value) (ty : TypeId) :
    (w.carrying resources commands).placeWithout entityId arch index archetype ty =
      (w.placeWithout entityId arch index archetype ty).map fun result =>
        (result.1.carrying resources commands, result.2) := by
  have same : (w.carrying resources commands).archetypes = w.archetypes := rfl
  rw [placeWithout, placeWithout, same]
  cases w.archetypes[archetype.extendedHash ty]? with
  | none =>
      simp only [insertArchetype_carrying, Option.bind_eq_bind, Option.bind_map, Option.map_bind,
        Function.comp_def]
      rfl
  | some newArch =>
      simp only [moveEntity_carrying, Option.bind_eq_bind, Option.bind_map, Option.map_bind,
        Function.comp_def]
      rfl

theorem removeComponent_carrying (entityId : EntityId) (ty : TypeId) :
    (w.carrying resources commands).removeComponent entityId ty =
      (w.removeComponent entityId ty).map fun result =>
        (result.1, result.2.carrying resources commands) := by
  have index : (w.carrying resources commands).entityIds = w.entityIds := rfl
  have tables : (w.carrying resources commands).tables = w.tables := rfl
  rw [removeComponent, removeComponent, index, tables]
  cases w.entityIds.read entityId with
  | error error => rfl
  | ok place =>
      simp only
      cases w.tables place.1 with
      | none => rfl
      | some archetype =>
          simp only [Option.bind_eq_bind, Option.bind_some]
          split
          · simp only [placeWithout_carrying, Option.bind_map, Option.map_bind, Function.comp_def]
            rfl
          · rfl

end Shapes

section Lifecycle

variable [UnitTypeId] [BuiltinValues Value]

theorem initId_carrying (id : EntityId) :
    (w.carrying resources commands).initId id =
      (w.initId id).map fun after => after.carrying resources commands := by
  simp only [initId, Option.bind_eq_bind, Option.map_bind, Function.comp_def]
  rfl

theorem insertEntity_carrying :
    (w.carrying resources commands).insertEntity =
      w.insertEntity.map fun result => (result.1, result.2.carrying resources commands) := by
  simp only [insertEntity, setIndex_carrying, initId_carrying, Option.bind_eq_bind,
    Option.bind_map, Option.map_bind, Function.comp_def]
  rfl

theorem insertId_carrying (id : EntityId) :
    (w.carrying resources commands).insertId id =
      (w.insertId id).map fun result => (result.1, result.2.carrying resources commands) := by
  have same : (w.carrying resources commands).entityIds = w.entityIds := rfl
  rw [insertId, insertId, same]
  cases w.entityIds.insertId id with
  | none => rfl
  | some outcome =>
      rcases outcome with ⟨result, entityIds⟩
      cases result with
      | error error => rfl
      | ok done =>
          simp only [setIndex_carrying, initId_carrying, Option.bind_eq_bind, Option.bind_some,
            Option.bind_map, Option.map_bind, Function.comp_def]
          rfl

end Lifecycle

section Merge

theorem entryOrInsert_carrying (key : TypeHash) (table : EntityTable Value) :
    (w.carrying resources commands).entryOrInsert key table =
      ((w.entryOrInsert key table).1,
        (w.entryOrInsert key table).2.carrying resources commands) := by
  have same : (w.carrying resources commands).archetypes = w.archetypes := rfl
  rw [entryOrInsert, entryOrInsert, same]
  cases w.archetypes[key]? <;> rfl

theorem mergeSameType_carrying (lhs rhs : EntityId) (lhsIndex : Nat) (rhsArch : Ptr)
    (rhsIndex : Nat) :
    (w.carrying resources commands).mergeSameType lhs rhs lhsIndex rhsArch rhsIndex =
      (w.mergeSameType lhs rhs lhsIndex rhsArch rhsIndex).map fun result =>
        (result.1, result.2.carrying resources commands) := by
  simp only [mergeSameType, Option.bind_eq_bind, Option.map_bind, Function.comp_def,
    ← deleteEntity_carrying]
  rfl

theorem mergeIntoRhs_carrying (lhs : EntityId) (lhsArch : Ptr) (lhsIndex : Nat) (rhsArch : Ptr)
    (rhsIndex : Nat) :
    (w.carrying resources commands).mergeIntoRhs lhs lhsArch lhsIndex rhsArch rhsIndex =
      (w.mergeIntoRhs lhs lhsArch lhsIndex rhsArch rhsIndex).map fun result =>
        (result.1, result.2.carrying resources commands) := by
  simp only [mergeIntoRhs, Option.bind_eq_bind, Option.map_bind, Function.comp_def]
  rfl

theorem mergeIntoLhs_carrying (lhs rhs : EntityId) (lhsArch : Ptr) (lhsIndex : Nat)
    (rhsArch : Ptr) (rhsIndex : Nat) :
    (w.carrying resources commands).mergeIntoLhs lhs rhs lhsArch lhsIndex rhsArch rhsIndex =
      (w.mergeIntoLhs lhs rhs lhsArch lhsIndex rhsArch rhsIndex).map fun result =>
        (result.1, result.2.carrying resources commands) := by
  simp only [mergeIntoLhs, Option.bind_eq_bind, Option.map_bind, Function.comp_def]
  rfl

variable [UnitTypeId]

theorem mergeIntoThird_carrying (lhs rhs : EntityId) (lhsArch : Ptr) (lhsIndex : Nat)
    (rhsArch : Ptr) (rhsIndex : Nat) (dstHash : TypeHash) :
    (w.carrying resources commands).mergeIntoThird lhs rhs lhsArch lhsIndex rhsArch rhsIndex
        dstHash =
      (w.mergeIntoThird lhs rhs lhsArch lhsIndex rhsArch rhsIndex dstHash).map fun result =>
        (result.1, result.2.carrying resources commands) := by
  simp only [mergeIntoThird, entryOrInsert_carrying, moveEntity_carrying, Option.bind_eq_bind,
    Option.bind_map, Option.map_bind, Function.comp_def]
  rfl

theorem mergeEntities_carrying (lhs rhs : EntityId) :
    (w.carrying resources commands).mergeEntities lhs rhs =
      (w.mergeEntities lhs rhs).map fun result =>
        (result.1, result.2.carrying resources commands) := by
  have index : (w.carrying resources commands).entityIds = w.entityIds := rfl
  have tables : (w.carrying resources commands).tables = w.tables := rfl
  rw [mergeEntities, mergeEntities, index, tables]
  split
  · rfl
  · cases w.entityIds.read lhs with
    | error error => rfl
    | ok lhsPlace =>
        cases w.entityIds.read rhs with
        | error error => rfl
        | ok rhsPlace =>
            simp only
            cases w.tables lhsPlace.1 with
            | none => rfl
            | some lhsArchetype =>
                cases w.tables rhsPlace.1 with
                | none => rfl
                | some rhsArchetype =>
                    simp only [Option.bind_eq_bind, Option.bind_some, mergeSameType_carrying,
                      mergeIntoRhs_carrying, mergeIntoLhs_carrying, mergeIntoThird_carrying]
                    split
                    · rfl
                    · split
                      · rfl
                      · split <;> rfl

end Merge

theorem promote_carrying (key : TypeHash) :
    (w.carrying resources commands).promote key =
      (w.promote key).map fun after => after.carrying resources commands := by
  simp only [promote, Option.bind_eq_bind, Option.map_bind, Function.comp_def]
  rfl

theorem demote_carrying (key : TypeHash) :
    (w.carrying resources commands).demote key =
      (w.demote key).map fun after => after.carrying resources commands := by
  simp only [demote, Option.bind_eq_bind, Option.map_bind, Function.comp_def]
  rfl

theorem foldlM_carrying {step : World Value → TypeHash → Option (World Value)}
    (carries : ∀ w key, step (World.carrying w resources commands) key =
      (step w key).map fun after => after.carrying resources commands) (keys : List TypeHash) :
    keys.foldlM step (w.carrying resources commands) =
      (keys.foldlM step w).map fun after => after.carrying resources commands := by
  induction keys generalizing w with
  | nil => rfl
  | cons key keys induction =>
      simp only [List.foldlM_cons, carries, Option.bind_eq_bind, Option.bind_map, Option.map_bind,
        Function.comp_def, induction]

theorem moveArchetypes_carrying :
    (w.carrying resources commands).moveArchetypes =
      w.moveArchetypes.map fun after => after.carrying resources commands := by
  have promoting : (w.carrying resources commands).promotionQueue = w.promotionQueue := rfl
  have demoting : ∀ w : World Value,
      (w.carrying resources commands).demotionQueue = w.demotionQueue := fun _ => rfl
  simp only [moveArchetypes, promoting, foldlM_carrying (fun _ => promote_carrying),
    Option.bind_eq_bind, Option.bind_map, Option.map_bind, Function.comp_def, demoting,
    foldlM_carrying (fun _ => demote_carrying)]

theorem clone_carrying : (w.carrying resources commands).clone =
    w.clone.map fun after => after.carrying resources [] := by
  have listed : (w.carrying resources commands).listedIds = w.listedIds := rfl
  have entry : (w.carrying resources commands).cloneEntry = w.cloneEntry := rfl
  simp only [clone, listed, entry, Option.bind_eq_bind, Option.map_bind, Function.comp_def]
  rfl

end World

section Commands

variable {Value : Type} {w : World Value} {resources : BTreeMap TypeId Value}
  {commands : List (List (CommandPayload Value))}

theorem forEach_carrying {α : Type} {step : α → Effect Value}
    (carries : ∀ item w, step item (World.carrying w resources commands) =
      (step item w).map fun result => (result.1, result.2.carrying resources commands))
    (items : List α) :
    forEach step items (w.carrying resources commands) =
      (forEach step items w).map fun result =>
        (result.1, result.2.carrying resources commands) := by
  induction items generalizing w with
  | nil => rfl
  | cons item items induction =>
      rw [forEach, forEach, carries]
      cases step item w with
      | none => rfl
      | some outcome =>
          rcases outcome with ⟨result, after⟩
          cases result with
          | ok done => exact induction
          | error error => rfl

variable [UnitTypeId]

theorem ComponentCommand.apply_carrying (command : ComponentCommand Value) (id : EntityId) :
    command.apply id (w.carrying resources commands) =
      (command.apply id w).map fun result => (result.1, result.2.carrying resources commands) := by
  cases command with
  | Insert bundle => exact World.setBundle_carrying id bundle
  | Delete ty =>
      rw [apply, apply, World.removeComponent_carrying]
      cases w.removeComponent id ty with
      | none => rfl
      | some outcome =>
          rcases outcome with ⟨result, after⟩
          cases result with
          | ok done => rfl
          | error error => cases error <;> rfl

namespace EntityCommands

theorem applyPayload_carrying (payload : List (ComponentCommand Value)) (id : EntityId) :
    applyPayload payload id (w.carrying resources commands) =
      (applyPayload payload id w).map fun result =>
        (result.1, result.2.carrying resources commands) := by
  have same : (w.carrying resources commands).isIdValid id = w.isIdValid id := rfl
  rw [applyPayload, applyPayload, same]
  split
  · exact forEach_carrying (fun command w => command.apply_carrying id) payload
  · rfl

theorem apply_carrying [BuiltinValues Value] (self : EntityCommands Value) :
    self.apply (w.carrying resources commands) =
      (self.apply w).map fun result => (result.1, result.2.carrying resources commands) := by
  rcases self with ⟨action, payload⟩
  cases action with
  | Fetch id => exact applyPayload_carrying payload id
  | Init id =>
      simp only [apply, World.initId_carrying, World.reserveEntities_carrying,
        applyPayload_carrying, Option.bind_eq_bind, Option.bind_map, Option.map_bind,
        Function.comp_def]
  | InsertId id =>
      simp only [apply, World.insertId_carrying]
      cases w.insertId id with
      | none => rfl
      | some outcome =>
          rcases outcome with ⟨result, after⟩
          cases result with
          | ok done => exact applyPayload_carrying payload id
          | error error =>
              cases error with
              | Taken id => rfl
              | AlreadyInserted id => exact applyPayload_carrying payload _
  | Insert =>
      simp only [apply, World.insertEntity_carrying, applyPayload_carrying, Option.bind_eq_bind,
        Option.bind_map, Option.map_bind, Function.comp_def]
  | Delete id =>
      simp only [apply, World.deleteEntity_carrying, Option.bind_eq_bind, Option.bind_map,
        Option.map_bind, Function.comp_def]
      rfl
  | Merge src dst => exact World.mergeEntities_carrying src dst

end EntityCommands

end Commands

end Cecs

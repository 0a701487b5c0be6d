import Cecs.EntityIndex
import Cecs.Table

/-! # The world

Tables are boxed, so the index can name them by pointer: memory maps a pointer
to the table of a live allocation, and two ordered maps own the boxes, one for
the tables that queries walk and one for parked tables. Dropping a box removes
its table from memory. An operation answers `none` where the source would panic
or follow a dangling pointer. -/

namespace Cecs

open Foundation

inductive WorldError where
  | OutOfCapacity
  | EntityNotFound
  | ComponentNotFound
  | InsertInvalidId (id : EntityId)
  deriving DecidableEq, Repr

abbrev WorldResult (α : Type) := Except WorldError α

inductive EntityAction where
  | Fetch (id : EntityId)
  | Init (id : EntityId)
  | InsertId (id : EntityId)
  | Insert
  | Delete (id : EntityId)
  | Merge (src dst : EntityId)
  deriving DecidableEq, Repr

/-- A queued change of one entity, the component type erased. -/
inductive ComponentCommand (Value : Type) where
  | Insert (bundle : Bundle Value)
  | Delete (ty : TypeId)

structure EntityCommands (Value : Type) where
  action : EntityAction
  payload : List (ComponentCommand Value)

inductive ResourceCommand (Value : Type) where
  | Insert (ty : TypeId) (value : Value)
  | Delete (ty : TypeId)

inductive WorldCommands where
  | Reserve (additional : Nat)

inductive CommandPayload (Value : Type) where
  | Entity (commands : EntityCommands Value)
  | Resource (command : ResourceCommand Value)
  | World (command : WorldCommands)

structure World (Value : Type) where
  entityIds : EntityIndex
  tables : Ptr → Option (EntityTable Value)
  nextTable : Ptr
  archetypes : BTreeMap TypeHash Ptr
  archetypesStaging : BTreeMap TypeHash Ptr
  resources : BTreeMap TypeId Value
  commands : List (List (CommandPayload Value))

namespace World

variable {Value : Type}

def setTable (w : World Value) (ptr : Ptr) (table : EntityTable Value) : World Value :=
  { w with tables := Function.update w.tables ptr (some table) }

def setIndex (w : World Value) (entityIds : EntityIndex) : World Value :=
  { w with entityIds }

/-- Drops the box a map insertion replaced. -/
def dropTable (tables : Ptr → Option (EntityTable Value)) :
    Option Ptr → Ptr → Option (EntityTable Value)
  | none => tables
  | some ptr => Function.update tables ptr none

/-- `archetypes.insert`. -/
def insertArchetypes (w : World Value) (key : TypeHash) (ptr : Ptr) : World Value :=
  { w with
    tables := dropTable w.tables w.archetypes[key]?
    archetypes := w.archetypes.insert key ptr }

/-- `archetypes_staging.insert`. -/
def insertStaging (w : World Value) (key : TypeHash) (ptr : Ptr) : World Value :=
  { w with
    tables := dropTable w.tables w.archetypesStaging[key]?
    archetypesStaging := w.archetypesStaging.insert key ptr }

/-- `Box::pin`. -/
def allocateTable (w : World Value) (table : EntityTable Value) : Ptr × World Value :=
  (w.nextTable, { w.setTable w.nextTable table with nextTable := w.nextTable + 1 })

def numEntities (w : World Value) : Nat := w.entityIds.len

def reserveEntities (w : World Value) (additional : Nat) : Option (World Value) := do
  return w.setIndex (← w.entityIds.reserve additional)

/-- `move_entity` between two tables in memory. -/
def moveEntity (w : World Value) (src dst : Ptr) (index : Nat) :
    Option (Nat × Option EntityId × World Value) := do
  guard (src ≠ dst)
  let source ← w.tables src
  let target ← w.tables dst
  let (res, moved, source, target) ← source.moveEntity target index
  return (res, moved, (w.setTable src source).setTable dst target)

def getArchetypeByKey (w : World Value) (key : TypeHash) : Option Ptr :=
  w.archetypes[key]?.or w.archetypesStaging[key]?

/-- Boxes `newArch`, moves the row into it and makes it a table of `archetypes`. -/
def insertArchetype (w : World Value) (archetype : Ptr) (rowIndex : Nat)
    (newArch : EntityTable Value) : Option (Ptr × World Value) := do
  let (ptr, boxed) := w.allocateTable newArch
  let (index, movedEntity, moved) ← boxed.moveEntity archetype ptr rowIndex
  guard (index = 0)
  guard (moved.archetypes[newArch.ty]? = none)
  let inserted := moved.insertArchetypes newArch.ty ptr
  return (ptr, inserted.setIndex (← inserted.entityIds.updateMoved movedEntity rowIndex))

def deleteEntity (w : World Value) (id : EntityId) :
    Option (WorldResult Unit × World Value) :=
  match w.entityIds.read id with
  | .error _ => some (.error .EntityNotFound, w)
  | .ok (ptr, index) => do
      let archetype ← w.tables ptr
      let (updatedEntity, archetype) ← archetype.remove index
      guard (updatedEntity ≠ some id)
      let entityIds ← w.entityIds.updateMoved updatedEntity index
      let entityIds ← entityIds.free id
      return (.ok (), (w.setTable ptr archetype).setIndex entityIds)

def getComponent (w : World Value) (id : EntityId) (ty : TypeId) : Option Value :=
  match w.entityIds.read id with
  | .error _ => none
  | .ok (ptr, index) => do
      let archetype ← w.tables ptr
      archetype.getComponent ty index

/-- An assignment through a reference to a cell of the table at `ptr`. -/
def writeCell (w : World Value) (ptr : Ptr) (ty : TypeId) (row : Nat) (value : Value) :
    World Value :=
  match w.tables ptr with
  | some table => w.setTable ptr (table.writeCell ty row value)
  | none => w

def entityTable (w : World Value) (id : EntityId) : Option (EntityTable Value) :=
  match w.entityIds.read id with
  | .error _ => none
  | .ok (ptr, _) => w.tables ptr

section Shapes

variable [UnitTypeId]

/-- Where the entity goes so that its table has the columns of the bundle: it
stays, moves to an existing or parked table, or to a new one. -/
def placeForBundle (w : World Value) (arch : Ptr) (index : Nat) (bundle : Bundle Value) :
    Option (World Value × Ptr × Nat) := do
  let archetype ← w.tables arch
  if bundle.canInsert archetype then
    return (w, arch, index)
  else
    let newHash := bundle.computeHashFromTable archetype
    match w.getArchetypeByKey newHash with
    | some newArch =>
        let (i, updatedEntity, moved) ← w.moveEntity arch newArch index
        return (moved.setIndex (← moved.entityIds.updateMoved updatedEntity index),
          newArch, i)
    | none =>
        let newArch := bundle.extend archetype
        guard (newHash = newArch.ty)
        let (ptr, inserted) ← w.insertArchetype arch index newArch
        return (inserted, ptr, 0)

def setBundle (w : World Value) (entityId : EntityId) (bundle : Bundle Value) :
    Option (WorldResult Unit × World Value) :=
  match w.entityIds.read entityId with
  | .error _ => some (.error .EntityNotFound, w)
  | .ok (arch, index) => do
      let (placed, arch, index) ← w.placeForBundle arch index bundle
      let archetype ← placed.tables arch
      let archetype ← bundle.insertInto archetype index
      let entityIds ← placed.entityIds.update entityId arch index
      return (.ok (), (placed.setTable arch archetype).setIndex entityIds)

def setComponent (w : World Value) (entityId : EntityId) (ty : TypeId) (component : Value) :
    Option (WorldResult Unit × World Value) :=
  w.setBundle entityId [(ty, component)]

/-- The same choice for `remove_component`, which does not look at parked tables. -/
def placeWithout (w : World Value) (entityId : EntityId) (arch : Ptr) (index : Nat)
    (archetype : EntityTable Value) (ty : TypeId) : Option (World Value × Ptr × Nat) :=
  match w.archetypes[archetype.extendedHash ty]? with
  | some newArch => do
      let (i, updatedEntity, moved) ← w.moveEntity arch newArch index
      guard (updatedEntity ≠ some entityId)
      return (moved.setIndex (← moved.entityIds.updateMoved updatedEntity index),
        newArch, i)
  | none => do
      let (ptr, inserted) ←
        w.insertArchetype arch index (archetype.cloneEmpty.reduceWithColumn ty)
      return (inserted, ptr, 0)

def removeComponent (w : World Value) (entityId : EntityId) (ty : TypeId) :
    Option (WorldResult Unit × World Value) :=
  match w.entityIds.read entityId with
  | .error _ => some (.error .EntityNotFound, w)
  | .ok (arch, index) => do
      let archetype ← w.tables arch
      if archetype.containsColumn ty then
        let (placed, arch, index) ← w.placeWithout entityId arch index archetype ty
        return (.ok (), placed.setIndex (← placed.entityIds.update entityId arch index))
      else
        return (.error .ComponentNotFound, w)

end Shapes

section Lifecycle

variable [UnitTypeId] [BuiltinValues Value]

/-- What `new` inserts with `insert_resource`. -/
def firstResources : BTreeMap TypeId Value :=
  match (jobPool : Option (TypeId × Value)) with
  | some (ty, pool) => (∅ : BTreeMap TypeId Value).insert ty pool
  | none => ∅

def new (initialCapacity : Nat) : Option (World Value) := do
  let entityIds ← EntityIndex.new initialCapacity
  return { entityIds
           tables := Function.update (fun _ => none) 0 (some EntityTable.empty)
           nextTable := 1
           archetypes := (∅ : BTreeMap TypeHash Ptr).insert VOID_TY 0
           archetypesStaging := ∅
           resources := firstResources
           commands := [] }

def initId (w : World Value) (id : EntityId) : Option (World Value) := do
  let ptr ← w.archetypes[VOID_TY]?
  let voidStore ← w.tables ptr
  let (index, voidStore) ← voidStore.insertEntity id
  let voidStore ← voidStore.setComponent index unitTypeId unitValue
  return (w.setTable ptr voidStore).setIndex (← w.entityIds.update id ptr index)

def insertEntity (w : World Value) : Option (EntityId × World Value) := do
  let (id, entityIds) ← w.entityIds.allocateWithResize
  return (id, ← (w.setIndex entityIds).initId id)

def insertId (w : World Value) (id : EntityId) :
    Option (Except InsertError Unit × World Value) := do
  match ← w.entityIds.insertId id with
  | (.error error, entityIds) => return (.error error, w.setIndex entityIds)
  | (.ok (), entityIds) => return (.ok (), ← (w.setIndex entityIds).initId id)

end Lifecycle

section Merge

variable [UnitTypeId]

/-- Both entities are in tables of one type: swap their rows, then delete `lhs`. -/
def mergeSameType (w : World Value) (lhs rhs : EntityId) (lhsIndex : Nat) (rhsArch : Ptr)
    (rhsIndex : Nat) : Option (WorldResult Unit × World Value) := do
  let archetype ← w.tables rhsArch
  let archetype ← archetype.swapComponents lhsIndex rhsIndex
  let entityIds ← w.entityIds.updateRowIndex lhs rhsIndex
  let entityIds ← entityIds.updateRowIndex rhs lhsIndex
  ((w.setTable rhsArch archetype).setIndex entityIds).deleteEntity lhs

/-- The components of `lhs` are a subset: write them over those of `rhs`. -/
def mergeIntoRhs (w : World Value) (lhs : EntityId) (lhsArch : Ptr) (lhsIndex : Nat)
    (rhsArch : Ptr) (rhsIndex : Nat) : Option (WorldResult Unit × World Value) := do
  let lhsArchetype ← w.tables lhsArch
  let rhsArchetype ← w.tables rhsArch
  let (moved, lhsArchetype, rhsArchetype) ←
    lhsArchetype.moveEntityInto lhsIndex rhsArchetype rhsIndex
  let entityIds ← w.entityIds.updateMoved moved lhsIndex
  let entityIds ← entityIds.free lhs
  return (.ok (),
    ((w.setTable lhsArch lhsArchetype).setTable rhsArch rhsArchetype).setIndex entityIds)

/-- The components of `rhs` are a subset: `rhs` takes over the row of `lhs`. -/
def mergeIntoLhs (w : World Value) (lhs rhs : EntityId) (lhsArch : Ptr) (lhsIndex : Nat)
    (rhsArch : Ptr) (rhsIndex : Nat) : Option (WorldResult Unit × World Value) := do
  let lhsArchetype ← w.tables lhsArch
  let rhsArchetype ← w.tables rhsArch
  let (moved, rhsArchetype) ← rhsArchetype.remove rhsIndex
  let entityIds ← w.entityIds.updateMoved moved rhsIndex
  guard (lhsIndex < lhsArchetype.entities.length)
  let lhsArchetype :=
    { lhsArchetype with entities := lhsArchetype.entities.set lhsIndex rhs }
  let entityIds ← entityIds.update rhs lhsArch lhsIndex
  let entityIds ← entityIds.free lhs
  return (.ok (),
    ((w.setTable rhsArch rhsArchetype).setTable lhsArch lhsArchetype).setIndex entityIds)

/-- `archetypes.entry(key).or_insert_with`. -/
def entryOrInsert (w : World Value) (key : TypeHash) (table : EntityTable Value) :
    Ptr × World Value :=
  match w.archetypes[key]? with
  | some ptr => (ptr, w)
  | none =>
      let (ptr, boxed) := w.allocateTable table
      (ptr, boxed.insertArchetypes key ptr)

/-- Neither is a subset of the other: both rows go to a third table. -/
def mergeIntoThird (w : World Value) (lhs rhs : EntityId) (lhsArch : Ptr) (lhsIndex : Nat)
    (rhsArch : Ptr) (rhsIndex : Nat) (dstHash : TypeHash) :
    Option (WorldResult Unit × World Value) := do
  let lhsArchetype ← w.tables lhsArch
  let rhsArchetype ← w.tables rhsArch
  let (dstArch, w) := w.entryOrInsert dstHash (rhsArchetype.merged lhsArchetype)
  let (dstIndex, moved, w) ← w.moveEntity rhsArch dstArch rhsIndex
  let entityIds ← w.entityIds.updateMoved moved rhsIndex
  guard (lhsArch ≠ dstArch)
  let dst ← w.tables dstArch
  let (lhsArchetype, dst) ← lhsArchetype.mergeInto lhsIndex rhsArchetype dst dstIndex
  let moved ← lhsArchetype.movedInto lhsIndex
  let entityIds ← entityIds.updateMoved moved lhsIndex
  let entityIds ← entityIds.update rhs dstArch dstIndex
  let entityIds ← entityIds.free lhs
  return (.ok (),
    ((w.setTable lhsArch lhsArchetype).setTable dstArch dst).setIndex entityIds)

/-- The hash of the union of the columns. -/
def mergedHash (lhsArchetype rhsArchetype : EntityTable Value) : TypeHash :=
  lhsArchetype.components.keys.foldl
    (fun hash ty =>
      if rhsArchetype.containsColumn ty then hash else hash ^^^ hashTypeId ty)
    rhsArchetype.ty

def mergeEntities (w : World Value) (lhs rhs : EntityId) :
    Option (WorldResult Unit × World Value) :=
  if lhs = rhs then
    some (.ok (), w)
  else
    match w.entityIds.read lhs, w.entityIds.read rhs with
    | .ok (lhsArch, lhsIndex), .ok (rhsArch, rhsIndex) => do
        let lhsArchetype ← w.tables lhsArch
        let rhsArchetype ← w.tables rhsArch
        if lhsArchetype.ty = rhsArchetype.ty then
          w.mergeSameType lhs rhs lhsIndex rhsArch rhsIndex
        else
          let dstHash := mergedHash lhsArchetype rhsArchetype
          if dstHash = rhsArchetype.ty then
            w.mergeIntoRhs lhs lhsArch lhsIndex rhsArch rhsIndex
          else if dstHash = lhsArchetype.ty then
            w.mergeIntoLhs lhs rhs lhsArch lhsIndex rhsArch rhsIndex
          else
            w.mergeIntoThird lhs rhs lhsArch lhsIndex rhsArch rhsIndex dstHash
    | _, _ => some (.error .EntityNotFound, w)

end Merge

/-- Remove empty archetypes. -/
def vacuum (w : World Value) : World Value :=
  { w with
    tables := fun ptr =>
      if (w.archetypesStaging.toList.map Prod.snd).contains ptr then none else w.tables ptr
    archetypesStaging := ∅ }

def insertResource (w : World Value) (ty : TypeId) (value : Value) : World Value :=
  { w with resources := w.resources.insert ty value }

def removeResource (w : World Value) (ty : TypeId) : World Value :=
  { w with resources := w.resources.erase ty }

end World

end Cecs

import Cecs.Calls
import Cecs.Foundation.Boxes

/-! # Erased resources and commands

A resource, and a command for a component or a resource, is a leaked box behind a pointer
that has lost its type. The pointer is null once the value has been moved out, so that
dropping what is left does nothing. `none` stands for a panic and for following a pointer
to a box that is gone or of another type. -/

namespace Cecs

open Foundation

/-- What a box holds, and the type that it was leaked with. -/
inductive BoxContent (Value : Type) where
  | resource (ty : TypeId) (value : Value)
  | componentCommand (command : ComponentCommand Value)
  | resourceCommand (command : ResourceCommand Value)

abbrev Heap (Value : Type) := Boxes (BoxContent Value)

section Erased

variable {Value : Type}

/-- `drop` of an erased value: nothing, if the pointer is null. -/
def dropInner (inner : Option Nat) (heap : Heap Value) : Option (Heap Value) :=
  match inner with
  | none => some heap
  | some address => (heap.fromRaw address).map Prod.snd

structure ErasedResource where
  inner : Option Nat

namespace ErasedResource

def new (ty : TypeId) (value : Value) (heap : Heap Value) : ErasedResource × Heap Value :=
  let (inner, heap) := heap.leak (.resource ty value)
  ({ inner := some inner }, heap)

/-- `drop` calls `finalize`. -/
def drop (self : ErasedResource) (heap : Heap Value) : Option (Heap Value) :=
  dropInner self.inner heap

def asInner (self : ErasedResource) (ty : TypeId) (heap : Heap Value) : Option Value := do
  match ← heap.cells (← self.inner) with
  | .resource other value => if other = ty then some value else none
  | _ => none

/-- An assignment through `as_inner_mut`. -/
def assign (self : ErasedResource) (ty : TypeId) (value : Value) (heap : Heap Value) :
    Option (Heap Value) := do
  let _ ← self.asInner ty heap
  heap.write (← self.inner) (.resource ty value)

/-- The box, as one of type `ty`. -/
def intoInner (self : ErasedResource) (ty : TypeId) (heap : Heap Value) :
    Option (Nat × Heap Value) := do
  let inner ← self.inner
  let _ ← self.asInner ty heap
  let moved : ErasedResource := { self with inner := none }
  return (inner, ← moved.drop heap)

def clone (self : ErasedResource) (heap : Heap Value) : Option (ErasedResource × Heap Value) := do
  match ← heap.cells (← self.inner) with
  | .resource ty value => return new ty value heap
  | _ => none

end ErasedResource

structure ResourceStorage where
  resources : BTreeMap TypeId ErasedResource

namespace ResourceStorage

def new : ResourceStorage := { resources := ∅ }

/-- The entry that was there is dropped. -/
def insert (self : ResourceStorage) (ty : TypeId) (value : Value) (heap : Heap Value) :
    Option (ResourceStorage × Heap Value) :=
  let (made, heap) := ErasedResource.new ty value heap
  let inserted := { self with resources := self.resources.insert ty made }
  match self.resources[ty]? with
  | some old => (old.drop heap).map fun heap => (inserted, heap)
  | none => some (inserted, heap)

def fetch (self : ResourceStorage) (ty : TypeId) (heap : Heap Value) : Option (Option Value) :=
  match self.resources[ty]? with
  | some table => (table.asInner ty heap).map some
  | none => some none

/-- An assignment through `fetch_mut`, if it finds something. -/
def assign (self : ResourceStorage) (ty : TypeId) (value : Value) (heap : Heap Value) :
    Option (ResourceStorage × Heap Value) :=
  match self.resources[ty]? with
  | some table => (table.assign ty value heap).map fun heap => (self, heap)
  | none => some (self, heap)

def fetchOrDefault (self : ResourceStorage) (ty : TypeId) (default : Value) (heap : Heap Value) :
    Option (ResourceStorage × Heap Value) :=
  match self.resources[ty]? with
  | some table => (table.asInner ty heap).map fun _ => (self, heap)
  | none =>
      let (made, heap) := ErasedResource.new ty default heap
      some ({ self with resources := self.resources.insert ty made }, heap)

/-- The box that is returned now belongs to the caller. -/
def remove (self : ResourceStorage) (ty : TypeId) (heap : Heap Value) :
    Option (Option Nat × ResourceStorage × Heap Value) :=
  match self.resources[ty]? with
  | some table => (table.intoInner ty heap).map fun (inner, heap) =>
      (some inner, { self with resources := self.resources.erase ty }, heap)
  | none => some (none, self, heap)

def clone (self : ResourceStorage) (heap : Heap Value) : Option (ResourceStorage × Heap Value) :=
  self.resources.toList.foldlM (fun (copy, heap) entry => do
    let (made, heap) ← entry.2.clone heap
    return ({ resources := copy.resources.insert entry.1 made }, heap)) (new, heap)

def drop (self : ResourceStorage) (heap : Heap Value) : Option (Heap Value) :=
  self.resources.toList.foldlM (fun heap entry => entry.2.drop heap) heap

end ResourceStorage

/-- A queued command, up to how the commands for components and resources are kept. -/
inductive QueuedCommand (C R : Type) where
  | Entity (action : EntityAction) (payload : List C)
  | Resource (command : R)
  | World (command : WorldCommands)

namespace QueuedCommand

variable {C R C' R' : Type}

def map (component : C → C') (resource : R → R') : QueuedCommand C R → QueuedCommand C' R'
  | .Entity action payload => .Entity action (payload.map component)
  | .Resource command => .Resource (resource command)
  | .World command => .World command

/-- The command without what is erased. The sort looks at nothing else. -/
def outline : QueuedCommand C R → CommandPayload Unit
  | .Entity action _ => .Entity { action, payload := [] }
  | .Resource _ => .Resource (.Delete 0)
  | .World command => .World command

end QueuedCommand

structure ErasedComponentCommand where
  inner : Option Nat

structure ErasedResourceCommand where
  inner : Option Nat

abbrev ErasedPayload := QueuedCommand ErasedComponentCommand ErasedResourceCommand

namespace ErasedComponentCommand

/-- `from_component` and `from_bundle` -/
def new (command : ComponentCommand Value) (heap : Heap Value) :
    ErasedComponentCommand × Heap Value :=
  let (inner, heap) := heap.leak (.componentCommand command)
  ({ inner := some inner }, heap)

def drop (self : ErasedComponentCommand) (heap : Heap Value) : Option (Heap Value) :=
  dropInner self.inner heap

/-- Drops what is left of a vector. -/
def dropAll (payload : List ErasedComponentCommand) (heap : Heap Value) : Option (Heap Value) :=
  payload.foldlM (fun heap command => command.drop heap) heap

variable [UnitTypeId]

/-- The pointer is cleared before the box is taken back, so what is left is dropped as null. -/
def apply (self : ErasedComponentCommand) (id : EntityId) (w : World Value) (heap : Heap Value) :
    Option (WorldResult Unit × World Value × Heap Value) := do
  let ptr ← self.inner
  let moved : ErasedComponentCommand := { self with inner := none }
  match ← heap.fromRaw ptr with
  | (.componentCommand command, heap) =>
      let (result, w) ← command.apply id w
      return (result, w, ← moved.drop heap)
  | _ => none

/-- The loop over the payload. After an error the rest is dropped. -/
def applyAll (id : EntityId) : List ErasedComponentCommand → World Value → Heap Value →
    Option (WorldResult Unit × World Value × Heap Value)
  | [], w, heap => some (.ok (), w, heap)
  | command :: payload, w, heap => do
      match ← command.apply id w heap with
      | (.ok (), w, heap) => applyAll id payload w heap
      | (.error error, w, heap) => return (.error error, w, ← dropAll payload heap)

/-- The second half of `EntityCommands::apply`, once the id is known. -/
def applyPayload (payload : List ErasedComponentCommand) (id : EntityId) (w : World Value)
    (heap : Heap Value) : Option (WorldResult Unit × World Value × Heap Value) :=
  if w.isIdValid id then
    applyAll id payload w heap
  else
    (dropAll payload heap).map fun heap => (.error .EntityNotFound, w, heap)

variable [BuiltinValues Value]

/-- `EntityCommands::apply`. A payload that is not looked at is dropped. -/
def applyEntity (action : EntityAction) (payload : List ErasedComponentCommand)
    (w : World Value) (heap : Heap Value) :
    Option (WorldResult Unit × World Value × Heap Value) :=
  match action with
  | .Fetch id => applyPayload payload id w heap
  | .Init id => do
      let w ← w.initId id
      let w ← w.reserveEntities 1
      applyPayload payload id w heap
  | .InsertId id => do
      match ← w.insertId id with
      | (.error (.Taken _), w) =>
          return (.error (.InsertInvalidId id), w, ← dropAll payload heap)
      | (_, w) => applyPayload payload id w heap
  | .Insert => do
      let (id, w) ← w.insertEntity
      applyPayload payload id w heap
  | .Delete id => do
      let (_, w) ← w.deleteEntity id
      return (.ok (), w, ← dropAll payload heap)
  | .Merge src dst => do
      let (result, w) ← w.mergeEntities src dst
      return (result, w, ← dropAll payload heap)

end ErasedComponentCommand

namespace ErasedResourceCommand

def new (command : ResourceCommand Value) (heap : Heap Value) :
    ErasedResourceCommand × Heap Value :=
  let (inner, heap) := heap.leak (.resourceCommand command)
  ({ inner := some inner }, heap)

def drop (self : ErasedResourceCommand) (heap : Heap Value) : Option (Heap Value) :=
  dropInner self.inner heap

/-- A resource that is removed is dropped. -/
def apply (self : ErasedResourceCommand) (resources : ResourceStorage) (heap : Heap Value) :
    Option (ResourceStorage × Heap Value) := do
  let ptr ← self.inner
  let moved : ErasedResourceCommand := { self with inner := none }
  let (content, heap) ← heap.fromRaw ptr
  let (resources, heap) ← match content with
    | .resourceCommand (.Insert ty value) => resources.insert ty value heap
    | .resourceCommand (.Delete ty) => do
        let (removed, resources, heap) ← resources.remove ty heap
        return (resources, ← dropInner removed heap)
    | _ => none
  return (resources, ← moved.drop heap)

end ErasedResourceCommand

/-- The tables and the index of `base`, with resources and commands behind pointers. -/
structure BoxedWorld (Value : Type) where
  base : World Value
  resources : ResourceStorage
  commands : List (List ErasedPayload)

namespace ErasedPayload

def drop (self : ErasedPayload) (heap : Heap Value) : Option (Heap Value) :=
  match self with
  | .Entity _ payload => ErasedComponentCommand.dropAll payload heap
  | .Resource command => command.drop heap
  | .World _ => some heap

def dropAll (commands : List ErasedPayload) (heap : Heap Value) : Option (Heap Value) :=
  commands.foldlM (fun heap command => drop command heap) heap

/-- A command of `Commands` that is not a payload. -/
def new (command : CommandPayload Value) (heap : Heap Value) :
    Option (ErasedPayload × Heap Value) :=
  match command with
  | .Entity { action, payload := [] } => some (.Entity action [], heap)
  | .Entity _ => none
  | .Resource command =>
      let (command, heap) := ErasedResourceCommand.new command heap
      some (.Resource command, heap)
  | .World command => some (.World command, heap)

variable [UnitTypeId] [BuiltinValues Value]

def apply (self : ErasedPayload) (w : BoxedWorld Value) (heap : Heap Value) :
    Option (WorldResult Unit × BoxedWorld Value × Heap Value) :=
  match self with
  | .Entity action payload => do
      let (result, base, heap) ← ErasedComponentCommand.applyEntity action payload w.base heap
      return (result, { w with base }, heap)
  | .Resource command => do
      let (resources, heap) ← command.apply w.resources heap
      return (.ok (), { w with resources }, heap)
  | .World (.Reserve additional) => do
      return (.ok (), { w with base := ← w.base.reserveEntities additional }, heap)

/-- The loop of `apply_commands`. After an error the rest of the batch is dropped. -/
def applyBatch : List ErasedPayload → BoxedWorld Value → Heap Value →
    Option (WorldResult Unit × BoxedWorld Value × Heap Value)
  | [], w, heap => some (.ok (), w, heap)
  | command :: batch, w, heap => do
      match ← apply command w heap with
      | (.ok (), w, heap) => applyBatch batch w heap
      | (.error error, w, heap) => return (.error error, w, ← dropAll batch heap)

end ErasedPayload

namespace BoxedWorld

def setBuffer (w : BoxedWorld Value) (systemIdx : Nat) (buffer : List ErasedPayload) :
    BoxedWorld Value :=
  { w with commands := w.commands.set systemIdx buffer }

/-- `cmd.push(command)` -/
def pushCommand (w : BoxedWorld Value) (systemIdx : Nat) (command : CommandPayload Value)
    (heap : Heap Value) : Option (BoxedWorld Value × Heap Value) := do
  let cmd ← w.commands[systemIdx]?
  let (command, heap) ← ErasedPayload.new command heap
  return (w.setBuffer systemIdx (cmd ++ [command]), heap)

/-- `cmd.last_mut().unwrap().entity_mut()` -/
def lastCommand (w : BoxedWorld Value) (systemIdx : Nat) :
    Option (EntityAction × List ErasedComponentCommand) := do
  let cmd ← w.commands[systemIdx]?
  match ← cmd.getLast? with
  | .Entity action payload => some (action, payload)
  | _ => none

def setLastCommand (w : BoxedWorld Value) (systemIdx : Nat) (action : EntityAction)
    (payload : List ErasedComponentCommand) : Option (BoxedWorld Value) := do
  let cmd ← w.commands[systemIdx]?
  return w.setBuffer systemIdx (cmd.dropLast ++ [.Entity action payload])

/-- `insert`, `insert_bundle` and `remove` of `EntityCommands` -/
def extendCommand (w : BoxedWorld Value) (systemIdx : Nat) (command : ComponentCommand Value)
    (heap : Heap Value) : Option (BoxedWorld Value × Heap Value) := do
  let (action, payload) ← w.lastCommand systemIdx
  let (command, heap) := ErasedComponentCommand.new command heap
  return (← w.setLastCommand systemIdx action (payload ++ [command]), heap)

/-- `EntityCommands::id` -/
def commandId (w : BoxedWorld Value) (systemIdx : Nat) : Option (BoxedWorld Value) := do
  let (action, payload) ← w.lastCommand systemIdx
  match action with
  | .Insert =>
      match ← w.base.entityIds.allocate with
      | (.error _, entityIds) => return { w with base := w.base.setIndex entityIds }
      | (.ok id, entityIds) =>
          let allocated := { w with base := w.base.setIndex entityIds }
          allocated.setLastCommand systemIdx (.Init id) payload
  | _ => return w

def resizeCommands (w : BoxedWorld Value) (len : Nat) : BoxedWorld Value :=
  { w with commands := w.commands ++ List.replicate (len - w.commands.length) [] }

/-- A world is dropped with its resources and the commands that are still queued. -/
def drop (w : BoxedWorld Value) (heap : Heap Value) : Option (Heap Value) := do
  ErasedPayload.dropAll w.commands.flatten (← w.resources.drop heap)

variable [UnitTypeId] [BuiltinValues Value]

def applyCommands (w : BoxedWorld Value) (batch : List ErasedPayload) (heap : Heap Value) :
    Option (WorldResult Unit × BoxedWorld Value × Heap Value) := do
  let drained := { w with commands := w.commands.map fun _ => [] }
  match ← ErasedPayload.applyBatch batch drained heap with
  | (.ok (), w, heap) => return (.ok (), { w with base := ← w.base.moveArchetypes }, heap)
  | (.error error, w, heap) => return (.error error, w, heap)

def new (initialCapacity : Nat) (heap : Heap Value) :
    Option (BoxedWorld Value × Heap Value) := do
  let base ← World.new initialCapacity
  let (resources, heap) ← match (jobPool : Option (TypeId × Value)) with
    | some (ty, pool) => ResourceStorage.new.insert ty pool heap
    | none => some (.new, heap)
  return ({ base, resources, commands := [] }, heap)

def clone (w : BoxedWorld Value) (heap : Heap Value) :
    Option (BoxedWorld Value × Heap Value) := do
  let base ← w.base.clone
  let (resources, heap) ← w.resources.clone heap
  return ({ base, resources, commands := [] }, heap)

end BoxedWorld

end Erased

end Cecs

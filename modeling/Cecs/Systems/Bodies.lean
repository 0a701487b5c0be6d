import Cecs.Calls
import Cecs.Foundation.Footprint
import Cecs.Systems.Validation

/-! # What systems do

A system is a program over what its parameters hand out. It goes on with the answer
to each instruction, so it is any deterministic function of what it has seen. `none`
stands for a panic, and for an instruction that safe code cannot make. -/

namespace Cecs

open Foundation

deriving instance DecidableEq for Param

/-- The free list of the index is sound, as it is in a well-formed world. -/
def World.Indexed {Value : Type} (w : World Value) : Prop := ∃ slots, w.entityIds.Sound slots

/-- `subset::<T1>` and `with_filter::<F1>`. -/
inductive Derivation where
  | subset (fragment : QueryFragment)
  | withFilter (filter : Filter)

namespace Derivation

def derive (self : Derivation) (query : Query) : Option Query :=
  match self with
  | .subset fragment => do
      guard (query.subsetAllowed fragment = true)
      return { query with fragment }
  | .withFilter filter => some { query with filter := .pair query.filter filter }

end Derivation

/-- The methods of a query. `single` and `one` take the first item of `iter`, and
`par_for_each` hands the items of `iter` to its closure. -/
inductive QueryMethod where
  | count
  | isEmpty
  | any
  | iter
  | iterMut
  | fetch (id : EntityId)
  | fetchMut (id : EntityId)
  | contains (id : EntityId)

inductive Instruction (Value : Type) where
  | query (source : Query) (derivations : List Derivation) (method : QueryMethod)
  | read (reference : Reference)
  | write (reference : Reference) (value : Value)
  | resource (ty : TypeId)
  | setResource (ty : TypeId) (value : Value)
  | pushCommand (command : CommandPayload Value)
  | extendCommand (command : ComponentCommand Value)
  | commandId
  | worldMut (change : World Value → Option (World Value))

inductive Response (Value : Type) where
  | done
  | count (count : Nat)
  | flag (flag : Bool)
  | items (items : List (Item Reference))
  | item (item : Option (Item Reference))
  | value (value : Option Value)
  | id (result : Except HandleTableError EntityId)
  | world (w : World Value)

inductive Program (Value : Type) where
  | finish
  | panic
  | step (instruction : Instruction Value) (next : Response Value → Program Value)

/-- What a running system holds: its parameters and the references it was handed. -/
structure Handles where
  leaves : List Param
  systemIdx : Nat
  references : List Reference

section Queries

variable {Value : Type}

namespace Query

/-- `iter` borrows every component shared. -/
def iterShared (self : Query) (w : World Value) : List (Item Reference) :=
  (self.archetypes w).flatMap fun entry =>
    self.fragment.iterColumns (QueryFragment.refColumns .shared .shared entry.1 entry.2) entry.2

def fetchShared (self : Query) (w : World Value) (id : EntityId) : Option (Item Reference) := do
  let (ptr, index, archetype) ← self.lookup w id
  self.fragment.fetchColumns (QueryFragment.refColumns .shared .shared ptr archetype) archetype
    index

end Query

def QueryMethod.answer (self : QueryMethod) (query : Query) (w : World Value) : Response Value :=
  match self with
  | .count => .count (query.count w)
  | .isEmpty => .flag (query.isEmpty w)
  | .any => .flag (query.any w)
  | .iter => .items (query.iterShared w)
  | .iterMut => .items (query.iterMut w)
  | .fetch id => .item (query.fetchShared w id)
  | .fetchMut id => .item (query.fetchMut w id)
  | .contains id => .flag (query.contains w id)

def Response.references : Response Value → List Reference
  | .items rows => rows.flatMap Item.references
  | .item row => row.toList.flatMap Item.references
  | _ => []

end Queries

namespace Param

/-- The queries that a leaf hands out. -/
def queries : Param → List Query
  | .query q => [q]
  | .querySet queries => queries
  | _ => []

/-- `new` does not panic. -/
def isReady {Value : Type} (systemIdx : Nat) (w : World Value) : Param → Bool
  | .res ty => w.resources.contains ty
  | .resMut ty => w.resources.contains ty
  | .commands => systemIdx < w.commands.length
  | _ => true

end Param

section Run

variable {Value : Type}

def Handles.receive (self : Handles) (answer : Response Value) : Handles :=
  { self with references := self.references ++ answer.references }

/-- The lock of the world is free when the index allocates, unless the system holds it. -/
def Instruction.run (handles : Handles) : Instruction Value → Action (World Value) (Response Value)
  | .query source derivations method => Action.reading fun w => do
      guard (source ∈ handles.leaves.flatMap Param.queries)
      let query ← derivations.foldlM (fun query derivation => derivation.derive query) source
      return method.answer query w
  | .read reference => Action.reading fun w => do
      guard (reference ∈ handles.references)
      return .value (← w.deref reference)
  | .write reference value => fun w => do
      guard (reference ∈ handles.references)
      guard (reference.access = .exclusive)
      return (.done, w.writeCell reference.archetype reference.ty reference.row value)
  | .resource ty => Action.reading fun w => do
      guard (∃ leaf ∈ handles.leaves, leaf.resource.map Prod.fst = some ty)
      return .value w.resources[ty]?
  | .setResource ty value => fun w => do
      guard (∃ leaf ∈ handles.leaves, leaf.resource = some (ty, .exclusive))
      guard (w.resources.contains ty = true)
      return (.done, w.insertResource ty value)
  | .pushCommand command => fun w => do
      guard (.commands ∈ handles.leaves)
      guard (command.isFresh = true)
      return (.done, ← w.pushCommand handles.systemIdx command)
  | .extendCommand command => fun w => do
      guard (.commands ∈ handles.leaves)
      return (.done, ← w.extendCommand handles.systemIdx command)
  | .commandId => fun w => do
      guard (.commands ∈ handles.leaves)
      guard (.worldAccess ∉ handles.leaves)
      let (result, after) ← w.commandId handles.systemIdx
      return (.id result, after)
  | .worldMut change => fun w => do
      guard (.worldAccess ∈ handles.leaves)
      let after ← change w
      return (.world after, after)

def Program.run : Program Value → Handles → Action (World Value) Unit
  | .finish, _ => fun w => some ((), w)
  | .panic, _ => fun _ => none
  | .step instruction next, handles =>
      (instruction.run handles).andThen fun answer => (next answer).run (handles.receive answer)

namespace ErasedSystem

/-- The parameters are made, each `WorldAccess` takes the lock of the world, and the
function is called. -/
def execute (self : ErasedSystem (Program Value)) : Action (World Value) Unit :=
  let leaves := self.descriptor.params.flatMap Param.leaves
  let start : Action (World Value) Unit := Action.reading fun w => do
    guard (leaves.count .worldAccess ≤ 1)
    guard (∀ leaf ∈ leaves, leaf.isReady self.systemIdx w = true)
  start.andThen fun _ =>
    self.descriptor.factory.run { leaves, systemIdx := self.systemIdx, references := [] }

end ErasedSystem

namespace SystemStage

/-- The systems one by one, as they are sorted. -/
def runSorted (self : SystemStage (Program Value)) : Action (World Value) Unit :=
  Action.sequence ErasedSystem.execute self.systems

/-- The systems at the positions `order`, one by one. -/
def runInOrder (self : SystemStage (Program Value)) (order : List Nat) :
    Action (World Value) Unit :=
  Action.sequence (fun i w => do (← self.systems[i]?).execute w) order

end SystemStage

end Run

end Cecs

import Cecs.Foundation.Sorting
import Cecs.World

/-! # Commands

Systems queue commands in buffers, and `apply_commands` drains, sorts and applies
them. The standard sort is unstable, so a batch may be applied in any order that
`SortCommands` allows. -/

namespace Cecs

open Foundation

section Order

variable {Value : Type}

namespace CommandPayload

def cmdTy : CommandPayload Value → Nat
  | .Entity _ => 0
  | .Resource _ => 1
  | .World _ => 2

end CommandPayload

namespace EntityAction

def actionTy : EntityAction → Nat
  | .Init _ => 0
  | .InsertId _ => 0
  | .Insert => 0
  | .Fetch _ => 1
  | .Merge _ _ => 1
  | .Delete _ => 2

end EntityAction

/-- The key of the inner sort: the block of the closure ends in `;`, so the
action's type is computed and dropped. -/
def innerKey : CommandPayload Value → Unit
  | .Entity commands => Function.const Nat () commands.action.actionTy
  | _ => ()

variable {α : Type}

/-- The first chunk of commands of one kind, and the rest. -/
def kindChunk (payload : α → CommandPayload Value) (cmd : List α) : List α × List α :=
  firstChunk (fun a b => (payload a).cmdTy == (payload b).cmdTy) cmd

/-- The orders that `sort_commands` may leave elements with a command each in. -/
def SortCommands (payload : α → CommandPayload Value) (cmd sorted : List α) : Prop :=
  ∃ byKind chunk, SortsBy (fun a => (payload a).cmdTy) cmd byKind ∧
    SortsBy (fun a => innerKey (payload a)) (kindChunk payload byKind).1 chunk ∧
    sorted = chunk ++ (kindChunk payload byKind).2

/-- `sort_commands` with sorts that keep the order of elements of one key. -/
def sortCommands (payload : α → CommandPayload Value) (cmd : List α) : List α :=
  let byKind := stableSortBy (fun a => (payload a).cmdTy) cmd
  let (chunk, others) := kindChunk payload byKind
  stableSortBy (fun a => innerKey (payload a)) chunk ++ others

theorem sortCommands_sorts (payload : α → CommandPayload Value) (cmd : List α) :
    SortCommands payload cmd (sortCommands payload cmd) :=
  ⟨_, _, stableSortBy_sortsBy _ cmd, stableSortBy_sortsBy _ _, rfl⟩

end Order

section Apply

variable {Value : Type}

/-- A step on the world: its result and the world it leaves, also after an error. -/
abbrev Effect (Value : Type) := World Value → Option (WorldResult Unit × World Value)

/-- A loop over `items` whose body ends in `?`. -/
def forEach {α : Type} (step : α → Effect Value) : List α → Effect Value
  | [], w => some (.ok (), w)
  | item :: rest, w => do
      match ← step item w with
      | (.ok (), w) => forEach step rest w
      | (.error error, w) => return (.error error, w)

namespace World

def isIdValid (w : World Value) (id : EntityId) : Bool := w.entityIds.isValid id

end World

namespace ResourceCommand

def apply (command : ResourceCommand Value) : Effect Value := fun w =>
  match command with
  | .Insert ty value => some (.ok (), w.insertResource ty value)
  | .Delete ty => some (.ok (), w.removeResource ty)

end ResourceCommand

namespace WorldCommands

def apply (command : WorldCommands) : Effect Value := fun w =>
  match command with
  | .Reserve additional => do return (.ok (), ← w.reserveEntities additional)

end WorldCommands

variable [UnitTypeId]

namespace ComponentCommand

/-- Inserting one component is `set_component`, a bundle of one. -/
def apply (command : ComponentCommand Value) (id : EntityId) : Effect Value := fun w =>
  match command with
  | .Insert bundle => w.setBundle id bundle
  | .Delete ty => do
      match ← w.removeComponent id ty with
      | (.error .ComponentNotFound, w) => return (.ok (), w)
      | outcome => return outcome

end ComponentCommand

variable [BuiltinValues Value]

namespace EntityCommands

/-- The second half of `apply`, once the id is known. -/
def applyPayload (payload : List (ComponentCommand Value)) (id : EntityId) : Effect Value :=
  fun w =>
    if w.isIdValid id then
      forEach (fun command => command.apply id) payload w
    else
      some (.error .EntityNotFound, w)

def apply (commands : EntityCommands Value) : Effect Value := fun w =>
  match commands.action with
  | .Fetch id => applyPayload commands.payload id w
  | .Init id => do
      let w ← w.initId id
      let w ← w.reserveEntities 1
      applyPayload commands.payload id w
  | .InsertId id => do
      match ← w.insertId id with
      | (.error (.Taken _), w) => return (.error (.InsertInvalidId id), w)
      | (_, w) => applyPayload commands.payload id w
  | .Insert => do
      let (id, w) ← w.insertEntity
      applyPayload commands.payload id w
  | .Delete id => do
      let (_, w) ← w.deleteEntity id
      return (.ok (), w)
  | .Merge src dst => w.mergeEntities src dst

end EntityCommands

namespace CommandPayload

def apply (command : CommandPayload Value) : Effect Value :=
  match command with
  | .Entity commands => commands.apply
  | .Resource command => command.apply
  | .World command => command.apply

end CommandPayload

/-- The loop of `apply_commands` over the sorted batch. -/
def applyBatch (batch : List (CommandPayload Value)) : Effect Value :=
  forEach CommandPayload.apply batch

end Apply

namespace World

variable {Value : Type}

/-- The commands of all buffers, buffer by buffer. -/
def queuedCommands (w : World Value) : List (CommandPayload Value) := w.commands.flatten

/-- `drain(..)` of every buffer. -/
def drained (w : World Value) : World Value :=
  { w with commands := w.commands.map fun _ => [] }

/-- The table at `ptr` has rows. -/
def holdsRows (w : World Value) (ptr : Ptr) : Bool :=
  (w.tables ptr).any fun table => !table.isEmpty

/-- The parked tables that hold entities. -/
def promotionQueue (w : World Value) : List TypeHash :=
  (w.archetypesStaging.toList.filter fun entry => w.holdsRows entry.2).map Prod.fst

/-- The tables of `archetypes` that hold none, apart from the void table. -/
def demotionQueue (w : World Value) : List TypeHash :=
  (w.archetypes.toList.filter fun entry =>
    entry.1 ≠ VOID_TY && !w.holdsRows entry.2).map Prod.fst

def promote (w : World Value) (key : TypeHash) : Option (World Value) := do
  let ptr ← w.archetypesStaging[key]?
  return { w with archetypesStaging := w.archetypesStaging.erase key }.insertArchetypes key ptr

def demote (w : World Value) (key : TypeHash) : Option (World Value) := do
  let ptr ← w.archetypes[key]?
  return { w with archetypes := w.archetypes.erase key }.insertStaging key ptr

/-- The end of `apply_commands`: tables move between the maps by content. -/
def moveArchetypes (w : World Value) : Option (World Value) := do
  let promoted ← w.promotionQueue.foldlM promote w
  promoted.demotionQueue.foldlM demote promoted

variable [UnitTypeId] [BuiltinValues Value]

/-- `apply_commands` with the batch in the order the sort left it in. -/
def applySorted (w : World Value) (batch : List (CommandPayload Value)) :
    Option (WorldResult Unit × World Value) := do
  match ← applyBatch batch w.drained with
  | (.ok (), applied) => return (.ok (), ← applied.moveArchetypes)
  | (.error error, applied) => return (.error error, applied)

/-- A call of `apply_commands`: the sort picks the order. -/
def ApplyCommands (w : World Value) (result : WorldResult Unit) (after : World Value) : Prop :=
  ∃ batch, SortCommands id w.queuedCommands batch ∧ w.applySorted batch = some (result, after)

end World

end Cecs

import Cecs.Commands

/-! # Queueing commands

What a `Commands` parameter does to the buffer of its system. The methods of
`Commands` return a reference to the command that they push, so what is done with
it is done to the last command of the buffer. -/

namespace Cecs

namespace World

variable {Value : Type}

/-- `resize_commands`. -/
def resizeCommands (w : World Value) (len : Nat) : World Value :=
  { w with commands := w.commands ++ List.replicate (len - w.commands.length) [] }

def setBuffer (w : World Value) (systemIdx : Nat) (buffer : List (CommandPayload Value)) :
    World Value :=
  { w with commands := w.commands.set systemIdx buffer }

/-- `cmd.push(command)`. -/
def pushCommand (w : World Value) (systemIdx : Nat) (command : CommandPayload Value) :
    Option (World Value) := do
  let cmd ← w.commands[systemIdx]?
  return w.setBuffer systemIdx (cmd ++ [command])

/-- `cmd.last_mut().unwrap().entity_mut()`. -/
def lastCommand (w : World Value) (systemIdx : Nat) : Option (EntityCommands Value) := do
  let cmd ← w.commands[systemIdx]?
  match ← cmd.getLast? with
  | .Entity commands => some commands
  | _ => none

def setLastCommand (w : World Value) (systemIdx : Nat) (commands : EntityCommands Value) :
    Option (World Value) := do
  let cmd ← w.commands[systemIdx]?
  return w.setBuffer systemIdx (cmd.dropLast ++ [.Entity commands])

/-- `insert`, `insert_bundle` and `remove` of `EntityCommands`. -/
def extendCommand (w : World Value) (systemIdx : Nat) (command : ComponentCommand Value) :
    Option (World Value) := do
  let commands ← w.lastCommand systemIdx
  w.setLastCommand systemIdx { commands with payload := commands.payload ++ [command] }

/-- `EntityCommands::id`. -/
def commandId (w : World Value) (systemIdx : Nat) :
    Option (Except HandleTableError EntityId × World Value) := do
  let commands ← w.lastCommand systemIdx
  match commands.action with
  | .InsertId id => return (.ok id, w)
  | .Init id => return (.ok id, w)
  | .Fetch id => return (.ok id, w)
  | .Delete id => return (.ok id, w)
  | .Merge _ dst => return (.ok dst, w)
  | .Insert =>
      match ← w.entityIds.allocate with
      | (.error error, entityIds) => return (.error error, w.setIndex entityIds)
      | (.ok id, entityIds) => return (.ok id, ← (w.setIndex entityIds).setLastCommand
          systemIdx { commands with action := .Init id })

end World

end Cecs

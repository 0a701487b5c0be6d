import Cecs.Calls
import Cecs.Commands.OwnedWorld
import Cecs.Commands.Sorter

/-! # Programs over several worlds

A program makes worlds, calls them, clones and drops them, and keeps the boxes that
`remove_resource` returns. It is run on boxes and on typed values: one faults when the
other does, their answers agree, and no box outlives its owner. -/

namespace Cecs

open Foundation

section Processes

variable {Value : Type}

/-- What a program can see of a call. -/
inductive CallAnswer (Value : Type) where
  | resource (value : Option Value)
  | applied (result : WorldResult Unit)

/-- The world after a call, if it is not dropped, and what the call made. -/
structure CallResult (W B Value : Type) where
  world : Option W
  made : List W
  taken : List B
  answers : List (CallAnswer Value)

namespace CallResult

variable {W W' B B' : Type}

/-- The call has changed the world only. -/
def changed (world : W) : CallResult W B Value :=
  { world := some world, made := [], taken := [], answers := [] }

def map (world : W → W') (box : B → B') (self : CallResult W B Value) : CallResult W' B' Value :=
  { world := self.world.map world
    made := self.made.map world
    taken := self.taken.map box
    answers := self.answers }

end CallResult

/-- The worlds of a program, the boxes that it keeps, and its answers so far. -/
structure Holdings (W B Value : Type) where
  worlds : List (Option W)
  taken : List B
  answers : List (CallAnswer Value)

namespace Holdings

variable {W W' B B' : Type}

def none : Holdings W B Value := { worlds := [], taken := [], answers := [] }

def record (self : Holdings W B Value) (place : Nat) (outcome : CallResult W B Value) :
    Holdings W B Value :=
  { worlds := self.worlds.set place outcome.world ++ outcome.made.map some
    taken := self.taken ++ outcome.taken
    answers := self.answers ++ outcome.answers }

def addWorld (self : Holdings W B Value) (w : W) : Holdings W B Value :=
  { self with worlds := self.worlds ++ [some w] }

def dropBox (self : Holdings W B Value) (place : Nat) : Holdings W B Value :=
  { self with taken := self.taken.eraseIdx place }

def map (world : W → W') (box : B → B') (self : Holdings W B Value) : Holdings W' B' Value :=
  { worlds := self.worlds.map fun w => w.map world
    taken := self.taken.map box
    answers := self.answers }

/-- No world and no box is left. -/
def Ended (self : Holdings W B Value) : Prop :=
  (∀ w ∈ self.worlds, w = Option.none) ∧ self.taken = []

end Holdings

/-- The call acts on the index and the tables. -/
def Call.onTables : Call Value → Bool
  | .insertEntity => true
  | .deleteEntity _ => true
  | .insertId _ => true
  | .reserveEntities _ => true
  | .mergeEntities _ _ => true
  | .writeCell _ _ _ _ => true
  | .vacuum => true
  | _ => false

/-- `setResource` is an assignment through `get_resource_mut`. -/
inductive WorldCall (Value : Type) : Type 1 where
  | tables (call : Call Value) (onTables : call.onTables = true)
  | insertResource (ty : TypeId) (value : Value)
  | getResource (ty : TypeId)
  | setResource (ty : TypeId) (value : Value)
  | getResourceOrDefault (ty : TypeId) (default : Value)
  | removeResource (ty : TypeId)
  | resizeCommands (len : Nat)
  | pushCommand (systemIdx : Nat) (command : CommandPayload Value)
      (fresh : command.isFresh = true)
  | extendCommand (systemIdx : Nat) (command : ComponentCommand Value)
  | commandId (systemIdx : Nat)
  | applyCommands (sort : CommandSort)
  | clone
  | drop

inductive ProcessCall (Value : Type) : Type 1 where
  | new (initialCapacity : Nat)
  | call (place : Nat) (call : WorldCall Value)
  | dropBox (place : Nat)

section Boxed

variable [UnitTypeId] [BuiltinValues Value]

abbrev BoxedResult (Value : Type) := CallResult (BoxedWorld Value) Nat Value

def BoxedWorld.invoke (w : BoxedWorld Value) (heap : Heap Value) :
    WorldCall Value → Option (BoxedResult Value × Heap Value)
  | .tables call _ => do
      return (.changed { w with base := ← call.run w.base }, heap)
  | .insertResource ty value => do
      let (resources, heap) ← w.resources.insert ty value heap
      return (.changed { w with resources }, heap)
  | .getResource ty => do
      let value ← w.resources.fetch ty heap
      return ({ (.changed w : BoxedResult Value) with answers := [.resource value] }, heap)
  | .setResource ty value => do
      let (resources, heap) ← w.resources.assign ty value heap
      return (.changed { w with resources }, heap)
  | .getResourceOrDefault ty default => do
      let (resources, heap) ← w.resources.fetchOrDefault ty default heap
      return (.changed { w with resources }, heap)
  | .removeResource ty => do
      let (removed, resources, heap) ← w.resources.remove ty heap
      return ({ (.changed { w with resources } : BoxedResult Value) with
        taken := removed.toList }, heap)
  | .resizeCommands len => some (.changed (w.resizeCommands len), heap)
  | .pushCommand systemIdx command _ => do
      let (w, heap) ← w.pushCommand systemIdx command heap
      return (.changed w, heap)
  | .extendCommand systemIdx command => do
      let (w, heap) ← w.extendCommand systemIdx command heap
      return (.changed w, heap)
  | .commandId systemIdx => do
      return (.changed (← w.commandId systemIdx), heap)
  | .applyCommands sort => do
      let batch := sort.sort QueuedCommand.outline w.commands.flatten
      let (result, w, heap) ← w.applyCommands batch heap
      return ({ (.changed w : BoxedResult Value) with answers := [.applied result] }, heap)
  | .clone => do
      let (copy, heap) ← w.clone heap
      return ({ (.changed w : BoxedResult Value) with made := [copy] }, heap)
  | .drop => do
      let heap ← w.drop heap
      return ({ (.changed w : BoxedResult Value) with world := none }, heap)

/-- The program with its boxes. -/
structure Process (Value : Type) where
  heap : Heap Value
  holdings : Holdings (BoxedWorld Value) Nat Value

namespace Process

def start : Process Value := { heap := Boxes.empty, holdings := .none }

/-- A call on a world or a box that is gone cannot be written down: here it does nothing. -/
def step (self : Process Value) : ProcessCall Value → Option (Process Value)
  | .new initialCapacity => do
      let (w, heap) ← BoxedWorld.new initialCapacity self.heap
      return { heap, holdings := self.holdings.addWorld w }
  | .call place call =>
      match self.holdings.worlds[place]? with
      | some (some w) => do
          let (outcome, heap) ← w.invoke self.heap call
          return { heap, holdings := self.holdings.record place outcome }
      | _ => some self
  | .dropBox place =>
      match self.holdings.taken[place]? with
      | some address => do
          let heap ← dropInner (some address) self.heap
          return { heap, holdings := self.holdings.dropBox place }
      | none => some self

end Process

abbrev TypedResult (Value : Type) := CallResult (World Value) (TypeId × Value) Value

def World.invoke (w : World Value) : WorldCall Value → Option (TypedResult Value)
  | .tables call _ => (call.run w).map .changed
  | .insertResource ty value => some (.changed (w.insertResource ty value))
  | .getResource ty =>
      some { (.changed w : TypedResult Value) with answers := [.resource w.resources[ty]?] }
  | .setResource ty value =>
      some (.changed { w with
        resources := if w.resources[ty]?.isSome then w.resources.insert ty value else w.resources })
  | .getResourceOrDefault ty default =>
      some (.changed { w with
        resources := if w.resources[ty]?.isSome then w.resources
          else w.resources.insert ty default })
  | .removeResource ty =>
      some { (.changed (w.removeResource ty) : TypedResult Value) with
        taken := w.resources[ty]?.toList.map fun value => (ty, value) }
  | .resizeCommands len => some (.changed (w.resizeCommands len))
  | .pushCommand systemIdx command _ => (w.pushCommand systemIdx command).map .changed
  | .extendCommand systemIdx command => (w.extendCommand systemIdx command).map .changed
  | .commandId systemIdx => ((w.commandId systemIdx).map Prod.snd).map .changed
  | .applyCommands sort => do
      let (result, w) ← w.applySorted (sort.sort CommandPayload.outline w.queuedCommands)
      return { (.changed w : TypedResult Value) with answers := [.applied result] }
  | .clone => do
      return { (.changed w : TypedResult Value) with made := [← w.clone] }
  | .drop => some { (.changed w : TypedResult Value) with world := none }

/-- The program with values in place of boxes. -/
abbrev TypedProcess (Value : Type) := Holdings (World Value) (TypeId × Value) Value

namespace TypedProcess

def step (self : TypedProcess Value) : ProcessCall Value → Option (TypedProcess Value)
  | .new initialCapacity => do return self.addWorld (← World.new initialCapacity)
  | .call place call =>
      match self.worlds[place]? with
      | some (some w) => (w.invoke call).map (self.record place)
      | _ => some self
  | .dropBox place => some (self.dropBox place)

end TypedProcess

end Boxed

end Processes

end Cecs

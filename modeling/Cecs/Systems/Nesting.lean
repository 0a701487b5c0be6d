import Cecs.Calls.Buffers
import Cecs.Scheduler
import Cecs.Systems.Bodies

/-! # Nested runs

Code outside of systems, and a system that holds the `WorldAccess`, call the methods of
the world: they run systems and stages, and these run further ones. Each thread has a
stack of what is under way on it, and what a system does next is left open. An action is
`none` where it would panic, and where it is not possible. A parallel stage starts a
thread for each system when the parents in its schedule are done; otherwise every system
waits for all before it. -/

namespace Cecs

open Foundation

section Stages

variable {Body : Type}

/-- A stage with the conditions that decide whether its systems run. -/
structure GuardedStage (Body : Type) extends SystemStage Body where
  shouldRun : List (ErasedSystem Body)

structure GuardedStageBuilder (Body : Type) extends SystemStageBuilder Body where
  shouldRun : List (ErasedSystem Body)

/-- A call of `add_system` or `with_system`, or of `add_should_run` or `with_should_run`. -/
inductive Registration (Body : Type) where
  | system (descriptor : SystemDescriptor Body)
  | shouldRun (descriptor : SystemDescriptor Body)

namespace ErasedSystem

/-- `From<SystemDescriptor>`. -/
def fromDescriptor (descriptor : SystemDescriptor Body) : ErasedSystem Body :=
  { systemIdx := 0, descriptor }

end ErasedSystem

namespace GuardedStageBuilder

def new : GuardedStageBuilder Body := { systems := [], shouldRun := [] }

def addShouldRun (self : GuardedStageBuilder Body) (descriptor : SystemDescriptor Body) :
    GuardedStageBuilder Body :=
  { self with shouldRun := self.shouldRun ++ [ErasedSystem.fromDescriptor descriptor] }

def register (parallel : Bool) (self : GuardedStageBuilder Body) :
    Registration Body → GuardedStageBuilder Body
  | .system descriptor =>
      { self with
        systems := (self.toSystemStageBuilder.addSystem parallel descriptor).systems }
  | .shouldRun descriptor => self.addShouldRun descriptor

def assemble (parallel : Bool) (registrations : List (Registration Body)) :
    GuardedStageBuilder Body :=
  registrations.foldl (register parallel) new

def build (self : GuardedStageBuilder Body) : Option (GuardedStage Body) := do
  return { systems := ← sortedSystems self.systems
           shouldRun := ← sortedSystems self.shouldRun }

end GuardedStageBuilder

/-- The stage comes from a builder. A clone has the same indices, and `run_stage` hands
its stage back as it was. -/
def GuardedStage.Assembled (parallel : Bool) (stage : GuardedStage Body) : Prop :=
  ∃ registrations, (GuardedStageBuilder.assemble parallel registrations).build = some stage

end Stages

section Stacks

variable {Body : Type}

/-- Who made the parameters of a system, and who goes on after it. -/
inductive Origin where
  | runSystem
  | ensureCommands
  | condition
  | stage (thread position : Nat)

/-- `execute_stage` under way. -/
structure Execution (Body : Type) where
  /-- A reference into `system_stages`, which is followed once more after the conditions. -/
  stage : GuardedStage Body
  /-- The place of the stage in `system_stages`. -/
  index : Nat
  ticking : Bool
  parents : List (List Nat)
  conditions : List (ErasedSystem Body)
  /-- A condition was false. -/
  skipped : Bool
  started : List Nat
  finished : List Nat

inductive Frame (Body : Type) where
  | outside
  | system (leaves : List Param) (systemIdx : Nat) (origin : Origin)
  | stage (execution : Execution Body)
  | tick (next stop : Nat)

namespace Execution

def schedule [CommandSentinelTypeId] (parallel : Bool) (stage : GuardedStage Body) :
    Option (List (List Nat)) :=
  if parallel then (Schedule.fromStage stage.toSystemStage).map Schedule.parents
  else some ((List.range stage.systems.length).map List.range)

def new (stage : GuardedStage Body) (index : Nat) (ticking : Bool)
    (parents : List (List Nat)) : Execution Body where
  stage := stage
  index := index
  ticking := ticking
  parents := parents
  conditions := stage.shouldRun
  skipped := false
  started := []
  finished := []

/-- The system may start. -/
def isReady (self : Execution Body) (position : Nat) : Bool :=
  self.conditions.isEmpty && !self.skipped && !self.started.contains position &&
    ((self.parents[position]?).getD []).all self.finished.contains

def isOver (self : Execution Body) : Bool :=
  self.skipped || (self.conditions.isEmpty &&
    (List.range self.stage.systems.length).all self.finished.contains)

end Execution

namespace Frame

/-- The parameters that are alive. -/
def leaves : Frame Body → List Param
  | .system leaves _ _ => leaves
  | _ => []

/-- The code has the world as `&mut World`. -/
def callsWorld : Frame Body → Bool
  | .outside => true
  | .system leaves _ _ => leaves.contains .worldAccess
  | _ => false

end Frame

end Stacks

section Sessions

/-- A world with its lock and its stages, and the code that runs on it. -/
structure Session (Value Body : Type) where
  world : World Value
  locked : Bool
  systemStages : List (GuardedStage Body)
  threads : List (List (Frame Body))

/-- What the top of a stack does next. `batch` is the order that a sort of
`apply_commands` leaves the commands in, `flag` the answer of a condition. -/
inductive Act (Value Body : Type) where
  | call (call : Call Value)
  | addStage (stage : GuardedStage Body)
  | ensureCommands
  | runSystem (params : List Param)
  | runStage (stage : GuardedStage Body)
  | tick
  | executeStage
  | endTick
  | condition
  | system (position : Nat)
  | endStage (batch : List (CommandPayload Value))
  | pushCommand (command : CommandPayload Value)
  | extendCommand (command : ComponentCommand Value)
  | commandId
  | dropAccess
  | finish (flag : Bool) (batch : List (CommandPayload Value))

/-- The parameters of a system are made: the world they are made from, the index that
each is given, and the stacks once they are there. -/
structure Construction (Value Body : Type) where
  world : World Value
  leaves : List Param
  systemIdx : Nat
  threads : List (List (Frame Body))

/-- Calls of `WorldLock::lock`, with all guards kept. -/
def acquire (locked : Bool) : Nat → Option Bool
  | 0 => some locked
  | count + 1 => if locked then none else acquire true count

namespace Session

variable {Value Body : Type}

/-- The parameters that an action makes. -/
def construction (s : Session Value Body) (thread : Nat) :
    Act Value Body → Option (Construction Value Body)
  | .ensureCommands => do
      let frame :: below ← s.threads[thread]? | none
      guard (frame.callsWorld = true)
      return { world := s.world.resizeCommands 1, leaves := [.commands], systemIdx := 0
               threads := s.threads.set thread
                (.system [.commands] 0 .ensureCommands :: frame :: below) }
  | .runSystem params => do
      let frame :: below ← s.threads[thread]? | none
      guard (frame.callsWorld = true)
      let leaves := params.flatMap Param.leaves
      return { world := s.world.resizeCommands 1, leaves, systemIdx := 0
               threads := s.threads.set thread (.system leaves 0 .runSystem :: frame :: below) }
  | .condition => do
      let .stage execution :: below ← s.threads[thread]? | none
      let condition :: rest := execution.conditions | none
      guard (execution.skipped = false)
      let leaves := condition.descriptor.params.flatMap Param.leaves
      return { world := s.world, leaves, systemIdx := condition.systemIdx
               threads := s.threads.set thread
                (.system leaves condition.systemIdx .condition ::
                  .stage { execution with conditions := rest } :: below) }
  | .system position => do
      let .stage execution :: below ← s.threads[thread]? | none
      let system ← execution.stage.systems[position]?
      guard (execution.isReady position = true)
      let leaves := system.descriptor.params.flatMap Param.leaves
      return { world := s.world, leaves, systemIdx := system.systemIdx
               threads := s.threads.set thread
                (.stage { execution with started := position :: execution.started } :: below) ++
                [[.system leaves system.systemIdx (.stage thread position)]] }
  | _ => none

/-- No parameter panics: not the resources, the buffers and not the lock. -/
def enter (s : Session Value Body) (made : Construction Value Body) :
    Option (Session Value Body) := do
  guard (∀ leaf ∈ made.leaves, leaf.isReady made.systemIdx made.world = true)
  let locked ← acquire s.locked (made.leaves.count .worldAccess)
  return { s with world := made.world, locked, threads := made.threads }

/-- `execute_stage` gives each system a buffer. -/
def executeStage (s : Session Value Body) (thread : Nat) (execution : Execution Body)
    (below : List (Frame Body)) : Session Value Body :=
  { s with
    world := s.world.resizeCommands execution.stage.systems.length
    threads := s.threads.set thread (.stage execution :: below) }

/-- The code at the top of a stack takes the id of an entity that it spawned, and that
has none yet. -/
def allocatesId (s : Session Value Body) (thread : Nat) : Bool :=
  match s.threads[thread]? with
  | some (.system _ systemIdx _ :: _) =>
      match s.world.lastCommand systemIdx with
      | some { action := .Insert, .. } => true
      | _ => false
  | _ => false

/-- How often an action calls `lock`. -/
def lockings (s : Session Value Body) (thread : Nat) (act : Act Value Body) : Nat :=
  match act with
  | .commandId => (s.allocatesId thread).toNat
  | _ => ((s.construction thread act).map fun made => made.leaves.count .worldAccess).getD 0

variable [UnitTypeId] [BuiltinValues Value]

/-- A system returns; its `WorldAccess` is dropped before the commands are applied. -/
def finish (s : Session Value Body) (thread : Nat) (flag : Bool)
    (batch : List (CommandPayload Value)) : Option (Session Value Body) := do
  let .system leaves _ origin :: below ← s.threads[thread]? | none
  let locked := s.locked && !leaves.contains .worldAccess
  match origin, below with
  | .ensureCommands, _ => return { s with locked, threads := s.threads.set thread below }
  | .runSystem, _ =>
      let (_, world) ← s.world.applySorted batch
      return { s with world, locked, threads := s.threads.set thread below }
  | .condition, .stage execution :: rest =>
      let checked := { execution with skipped := !flag }
      return { s with locked, threads := s.threads.set thread (.stage checked :: rest) }
  | .stage owner position, [] =>
      let .stage execution :: rest ← s.threads[owner]? | none
      let done := { execution with finished := position :: execution.finished }
      return { s with
        locked
        threads := (s.threads.set thread []).set owner (.stage done :: rest) }
  | _, _ => none

variable [CommandSentinelTypeId]

def step (parallel : Bool) (s : Session Value Body) (thread : Nat) :
    Act Value Body → Option (Session Value Body)
  | .call call => do
      let frame :: _ ← s.threads[thread]? | none
      guard (frame.callsWorld = true)
      guard (call.isMethod = true)
      return { s with world := ← call.run s.world }
  | .addStage stage => do
      let frame :: _ ← s.threads[thread]? | none
      guard (frame.callsWorld = true)
      let _ ← Execution.schedule parallel stage
      return { s with systemStages := s.systemStages ++ [stage] }
  | .runStage stage => do
      let frame :: below ← s.threads[thread]? | none
      guard (frame.callsWorld = true)
      let parents ← Execution.schedule parallel stage
      let execution := Execution.new stage s.systemStages.length false parents
      let pushed := { s with systemStages := s.systemStages ++ [stage] }
      return pushed.executeStage thread execution (frame :: below)
  | .tick => do
      let frame :: below ← s.threads[thread]? | none
      guard (frame.callsWorld = true)
      return { s with
        threads := s.threads.set thread (.tick 0 s.systemStages.length :: frame :: below) }
  | .executeStage => do
      let .tick next stop :: below ← s.threads[thread]? | none
      guard (next < stop)
      let stage ← s.systemStages[next]?
      let parents ← Execution.schedule parallel stage
      return s.executeStage thread (Execution.new stage next true parents)
        (.tick (next + 1) stop :: below)
  | .endTick => do
      let .tick next stop :: below ← s.threads[thread]? | none
      guard (next = stop)
      return { s with threads := s.threads.set thread below }
  | .endStage batch => do
      let .stage execution :: below ← s.threads[thread]? | none
      guard (execution.isOver = true)
      let (result, world) ← s.world.applySorted batch
      -- `tick` unwraps the result; `run_stage` takes its stage out again.
      guard (execution.ticking = true → result.isOk = true)
      let systemStages :=
        if execution.ticking then s.systemStages else s.systemStages.eraseIdx execution.index
      return { s with world, systemStages, threads := s.threads.set thread below }
  | .pushCommand command => do
      let .system leaves systemIdx _ :: _ ← s.threads[thread]? | none
      guard (.commands ∈ leaves)
      guard (command.isFresh = true)
      return { s with world := ← s.world.pushCommand systemIdx command }
  | .extendCommand command => do
      let .system leaves systemIdx _ :: _ ← s.threads[thread]? | none
      guard (.commands ∈ leaves)
      return { s with world := ← s.world.extendCommand systemIdx command }
  | .commandId => do
      let .system leaves systemIdx _ :: _ ← s.threads[thread]? | none
      guard (.commands ∈ leaves)
      let _ ← acquire s.locked (s.allocatesId thread).toNat
      let (_, world) ← s.world.commandId systemIdx
      return { s with world }
  | .dropAccess => do
      let .system leaves systemIdx origin :: below ← s.threads[thread]? | none
      guard (.worldAccess ∈ leaves)
      return { s with
        locked := false
        threads := s.threads.set thread
          (.system (leaves.erase .worldAccess) systemIdx origin :: below) }
  | .finish flag batch => s.finish thread flag batch
  | act => do s.enter (← s.construction thread act)

/-- The sorts pick an order, and stages come from builders. -/
def Admissible (parallel : Bool) (s : Session Value Body) : Act Value Body → Prop
  | .call call => call.Admissible s.world
  | .addStage stage => stage.Assembled parallel
  | .runStage stage => stage.Assembled parallel
  | .endStage batch => SortCommands id s.world.queuedCommands batch
  | .finish _ batch => SortCommands id s.world.queuedCommands batch
  | _ => True

/-- Code outside of systems has the world. -/
structure Fresh (parallel : Bool) (s : Session Value Body) : Prop where
  unlocked : s.locked = false
  stages : ∀ stage ∈ s.systemStages, stage.Assembled parallel
  threads : s.threads = [[.outside]]

/-- What a run of any number of actions leads to. -/
inductive Reached (parallel : Bool) (start : Session Value Body) : Session Value Body → Prop where
  | start : Reached parallel start start
  | step {s after : Session Value Body} {thread : Nat} {act : Act Value Body}
      (reached : Reached parallel start s) (admissible : s.Admissible parallel act)
      (stepped : s.step parallel thread act = some after) : Reached parallel start after

/-- A stage is pushed onto `system_stages` while a condition is under way, so that the
reference to the stage of the condition may dangle. -/
def MovesStages (s : Session Value Body) (act : Act Value Body) : Prop :=
  (∃ stage, act = .addStage stage ∨ act = .runStage stage) ∧
    ∃ stack ∈ s.threads, ∃ leaves systemIdx, .system leaves systemIdx .condition ∈ stack

/-- What a run leads to in which stages stay in place while their conditions are asked. -/
inductive ReachedInPlace (parallel : Bool) (start : Session Value Body) :
    Session Value Body → Prop where
  | start : ReachedInPlace parallel start start
  | step {s after : Session Value Body} {thread : Nat} {act : Act Value Body}
      (reached : ReachedInPlace parallel start s) (inPlace : ¬s.MovesStages act)
      (admissible : s.Admissible parallel act)
      (stepped : s.step parallel thread act = some after) : ReachedInPlace parallel start after

theorem ReachedInPlace.reached {parallel : Bool} {start s : Session Value Body}
    (inPlace : ReachedInPlace parallel start s) : Reached parallel start s := by
  induction inPlace with
  | start => exact .start
  | step _ _ admissible stepped induction => exact .step induction admissible stepped

end Session

end Sessions

end Cecs

import Cecs.Scheduler
import Cecs.Systems.Bodies

/-! # A stage under execution

Under the `parallel` feature the systems of a stage are jobs of a graph. Threads that
execute systems make their instructions in turn, in any order. -/

namespace Cecs

open Foundation JobSystem

variable {Value : Type}

/-- A call of a system that has not returned: what it goes on with, and what it holds. -/
abbrev SystemCall (Value : Type) := Program Value × Handles

/-- The parameters are made. -/
def ErasedSystem.enter {Body : Type} (self : ErasedSystem Body) : Action (World Value) Handles :=
  let leaves := self.descriptor.params.flatMap Param.leaves
  Action.reading fun w => do
    guard (leaves.count .worldAccess ≤ 1)
    guard (∀ leaf ∈ leaves, leaf.isReady self.systemIdx w = true)
    return { leaves, systemIdx := self.systemIdx, references := [] }

def ErasedSystem.call (self : ErasedSystem (Program Value)) :
    Action (World Value) (SystemCall Value) :=
  self.enter.andThen fun handles w => some ((self.descriptor.factory, handles), w)

/-- The next instruction. -/
def SystemCall.act : SystemCall Value → Action (World Value) (SystemCall Value)
  | (.step instruction next, handles) => (instruction.run handles).andThen fun answer w =>
      some ((next answer, handles.receive answer), w)
  | _ => fun _ => none

/-- `run_graph` runs a graph that has the systems as jobs. -/
structure StageRun (Value : Type) where
  systems : List (ErasedSystem (Program Value))
  pool : Pool
  world : World Value
  calls : Todos → Option (SystemCall Value)

inductive StageEvent where
  /-- A step of the pool, or the root, which does nothing. -/
  | pool (event : PoolEvent)
  /-- `SystemJob::execute` -/
  | call (thread : Nat)
  | instruct (thread : Nat)
  | returns (thread : Nat)

namespace StageRun

def start (systems : List (ErasedSystem (Program Value)))
    (graph : HomogeneousJobGraph (ErasedSystem (Program Value))) (workers caller : Nat)
    (world : World Value) : StageRun Value where
  systems
  pool := Pool.runGraph graph workers caller
  world
  calls := fun _ => none

/-- The job whose function the thread is in. -/
def current (self : StageRun Value) (thread : Nat) : Option Todos := do
  match ← self.pool.executing[thread]? with
  | ⟨job, none⟩ :: _ => return job.tasksLeft
  | _ => none

def setCall (self : StageRun Value) (job : Todos) (call : Option (SystemCall Value)) :
    StageRun Value :=
  { self with calls := Function.update self.calls job call }

/-- Systems answer by `returns`. The function of the root does nothing. -/
def isOther (self : StageRun Value) : PoolEvent → Bool
  | .answer _ job state => job = self.systems.length && state = .Done
  | _ => true

def poolStep (self : StageRun Value) (event : PoolEvent) : Option (StageRun Value) := do
  guard (self.isOther event = true)
  return { self with pool := ← self.pool.step event }

def call (self : StageRun Value) (thread : Nat) : Option (StageRun Value) := do
  let job ← self.current thread
  guard (self.calls job).isNone
  let (call, world) ← (← self.systems[job]?).call self.world
  return { self with world }.setCall job (some call)

def instruct (self : StageRun Value) (thread : Nat) : Option (StageRun Value) := do
  let job ← self.current thread
  let (call, world) ← (← self.calls job).act self.world
  return { self with world }.setCall job (some call)

/-- The system returns, and with it `SystemJob::execute`. -/
def returns (self : StageRun Value) (thread : Nat) : Option (StageRun Value) := do
  let job ← self.current thread
  match ← self.calls job with
  | (.finish, _) =>
      return { self with pool := ← self.pool.answer thread job .Done }.setCall job none
  | _ => none

def step (self : StageRun Value) : StageEvent → Option (StageRun Value)
  | .pool event => self.poolStep event
  | .call thread => self.call thread
  | .instruct thread => self.instruct thread
  | .returns thread => self.returns thread

end StageRun

end Cecs

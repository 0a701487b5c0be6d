import Cecs.JobSystem.RunGraph

/-! # Executors

The code of `run_once`, for all threads of a pool that run it at the same time, while the
caller of `run_graph` waits for the root. Each step does at most one thing that other
threads can see. -/

namespace Cecs

namespace JobSystem

/-- What `AsJob::execute` answers for a job that is to be enqueued again so many times. -/
def answerOf : Nat → ExecutionState
  | 0 => .Done
  | _ + 1 => .Reenqueue

/-- What `steal_batch` returns, with the number of jobs it moved. -/
inductive Steal where
  | Empty
  | Success (count : Nat)
  | Retry
  deriving DecidableEq, Repr

/-- Where a thread is: at the test of the loop in `wait`, or in `run_once`, where the loops have
so many rounds to go. -/
inductive Control where
  | waits
  | starts
  | executes
  | steals (left : Nat) (retry : Bool)
  | promotes (left : Nat)
  | returned
  deriving DecidableEq, Repr

inductive ExecutorEvent where
  /-- The caller is still in the loop of `run_graph`. -/
  | enqueue (event : PoolEvent)
  /-- `job.done()` in `wait`. -/
  | test
  | pop (thread : Nat)
  /-- `func` returns. -/
  | execute (thread : Nat)
  | release (thread : Nat)
  | finish (thread : Nat)
  /-- `steal_id` is the thread's own. -/
  | skip (thread : Nat)
  | steal (thread : Nat) (outcome : Steal)
  | stealEnds (thread : Nat)
  | promote (thread : Nat)
  | promoteEnds (thread : Nat)
  deriving DecidableEq, Repr

/-- `handle` is what the caller waits for, and `again` is how often each job still answers
`Reenqueue`. Each thread has its `steal_id`. -/
structure Executors where
  pool : Pool
  handle : Todos
  again : Todos → Nat
  controls : List Control
  stealIds : List Nat

/-- What the caller does before it waits. -/
def PoolEvent.enqueues : PoolEvent → Bool
  | .addChild => true
  | .takeRoot => true
  | .checkReady => true
  | .push => true
  | _ => false

namespace Executors

variable {T : Type}

/-- `run_graph` is called on a pool of this many workers. -/
def runGraph (graph : HomogeneousJobGraph T) (workers caller : Nat) (again : Todos → Nat) :
    Executors where
  pool := Pool.runGraph graph workers caller
  handle := graph.root
  again
  controls := (List.replicate (workers + 1) .starts).set caller .waits
  stealIds := List.range (workers + 1)

def setControl (self : Executors) (thread : Nat) (control : Control) : Executors :=
  { self with controls := self.controls.set thread control }

/-- `run_once` returns: the caller is at its test again, a worker calls it again. -/
def resume (self : Executors) (thread : Nat) : Executors :=
  self.setControl thread (if thread = self.pool.caller then .waits else .starts)

def enqueue (self : Executors) (event : PoolEvent) : Option Executors := do
  guard event.enqueues
  return { self with pool := ← self.pool.step event }

def test (self : Executors) : Option Executors := do
  guard (self.controls[self.pool.caller]? = some .waits)
  guard (self.pool.atHand.isNone && self.pool.rest.isNone)
  return self.setControl self.pool.caller
    (if handleDone self.pool.counters self.handle then .returned else .starts)

/-- `queues[executor_id].pop()` -/
def pop (self : Executors) (thread : Nat) : Option Executors := do
  guard (self.controls[thread]? = some .starts)
  match ← self.pool.runnableQueues[thread]? with
  | job :: _ =>
      let pool ← self.pool.pop thread job.tasksLeft
      return { self with pool }.setControl thread .executes
  | [] => return self.setControl thread (.steals self.pool.runnableQueues.length false)

def execute (self : Executors) (thread : Nat) : Option Executors := do
  guard (self.controls[thread]? = some .executes)
  match ← self.pool.executing[thread]? with
  | ⟨job, none⟩ :: _ =>
      let left := self.again job.tasksLeft
      let pool ← self.pool.answer thread job.tasksLeft (answerOf left)
      let after := { self with
        pool, again := Function.update self.again job.tasksLeft (left - 1) }
      match answerOf left with
      | .Done => return after
      | .Reenqueue => return after.resume thread
  | _ => none

def release (self : Executors) (thread : Nat) : Option Executors := do
  guard (self.controls[thread]? = some .executes)
  return { self with pool := ← self.pool.release thread }

def finish (self : Executors) (thread : Nat) : Option Executors := do
  guard (self.controls[thread]? = some .executes)
  return { self with pool := ← self.pool.finish thread }.resume thread

/-- `next_id`, and a round of the loop is over. -/
def nextId (self : Executors) (thread stealId left : Nat) (retry : Bool) : Executors :=
  let next := (stealId + 1) % self.pool.runnableQueues.length
  { self with stealIds := self.stealIds.set thread next }.setControl thread (.steals left retry)

def skip (self : Executors) (thread : Nat) : Option Executors := do
  match ← self.controls[thread]? with
  | .steals (left + 1) retry =>
      let stealId ← self.stealIds[thread]?
      guard (stealId = thread)
      return self.nextId thread stealId left retry
  | _ => none

def steal (self : Executors) (thread : Nat) (outcome : Steal) : Option Executors := do
  match ← self.controls[thread]? with
  | .steals (left + 1) retry =>
      let stealId ← self.stealIds[thread]?
      guard (stealId ≠ thread)
      let victim ← self.pool.runnableQueues[stealId]?
      match outcome with
      | .Success count =>
          guard (0 < count ∧ count ≤ victim.length)
          return { self with pool := ← self.pool.steal thread stealId count }.resume thread
      | .Empty =>
          guard victim.isEmpty
          return self.nextId thread stealId left retry
      | .Retry => return self.nextId thread stealId left true
  | _ => none

def stealEnds (self : Executors) (thread : Nat) : Option Executors := do
  match ← self.controls[thread]? with
  | .steals 0 true => return self.setControl thread (.steals self.pool.runnableQueues.length false)
  | .steals 0 false =>
      let waitList ← self.pool.waitLists[thread]?
      return self.setControl thread (.promotes waitList.length)
  | _ => none

/-- The wait list is gone through from its end. -/
def promote (self : Executors) (thread : Nat) : Option Executors := do
  match ← self.controls[thread]? with
  | .promotes (left + 1) =>
      return { self with pool := ← self.pool.promote thread left }.setControl thread
        (.promotes left)
  | _ => none

def promoteEnds (self : Executors) (thread : Nat) : Option Executors := do
  match ← self.controls[thread]? with
  | .promotes 0 => return self.resume thread
  | _ => none

def step (self : Executors) : ExecutorEvent → Option Executors
  | .enqueue event => self.enqueue event
  | .test => self.test
  | .pop thread => self.pop thread
  | .execute thread => self.execute thread
  | .release thread => self.release thread
  | .finish thread => self.finish thread
  | .skip thread => self.skip thread
  | .steal thread outcome => self.steal thread outcome
  | .stealEnds thread => self.stealEnds thread
  | .promote thread => self.promote thread
  | .promoteEnds thread => self.promoteEnds thread

/-- The job that an event executes, and what it answers. -/
def answered (self : Executors) : ExecutorEvent → Option (Todos × ExecutionState)
  | .execute thread =>
      match self.pool.executing[thread]? with
      | some (⟨job, none⟩ :: _) => some (job.tasksLeft, answerOf (self.again job.tasksLeft))
      | _ => none
  | _ => none

/-- All answers of a run, in order. -/
def answers (self : Executors) : List ExecutorEvent → List (Todos × ExecutionState)
  | [] => []
  | event :: events =>
      (self.answered event).toList ++ (self.step event).elim [] fun next => next.answers events

end Executors

end JobSystem

end Cecs

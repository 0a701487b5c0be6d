import Cecs.Foundation.SwapRemove
import Mathlib.Data.Option.Basic
import Mathlib.Logic.Function.Basic
import Mathlib.Logic.Relation

/-! # Job pools

One pool that runs one job graph. Queues hand every job to one consumer, and the
counters are changed by one thread at a time. -/

namespace Cecs

namespace JobSystem

open Foundation

/-- `Arc<AtomicIsize>`, by the number of the job it was made for. -/
abbrev Todos := Nat

/-- What the counters hold. -/
abbrev Counters := Todos → Int

def fetchAdd (counters : Counters) (todos : Todos) : Counters :=
  Function.update counters todos (counters todos + 1)

def fetchSub (counters : Counters) (todos : Todos) : Counters :=
  Function.update counters todos (counters todos - 1)

inductive ExecutionState where
  | Done
  | Reenqueue
  deriving DecidableEq, Repr

/-- `data` tells whether the pointer is not null. -/
structure Job where
  tasksLeft : Todos
  children : List Todos
  data : Bool
  deriving DecidableEq, Repr

namespace Job

/-- The counter starts at 1. -/
def new (tasksLeft : Todos) : Job where
  tasksLeft
  children := []
  data := true

def ready (self : Job) (counters : Counters) : Bool :=
  counters self.tasksLeft = 1 && self.data

/-- The other half of `add_child` is `fetchAdd` of the child. -/
def addChild (self : Job) (child : Todos) : Job :=
  { self with children := self.children ++ [child] }

end Job

/-- `JobHandle::done` -/
def handleDone (counters : Counters) (tasksLeft : Todos) : Bool := counters tasksLeft ≤ 0

structure HomogeneousJobGraph (T : Type) where
  jobs : List T
  edges : List (Nat × Nat)

namespace HomogeneousJobGraph

variable {T : Type}

def new (data : List T) : HomogeneousJobGraph T where
  jobs := data
  edges := []

def addDependency (self : HomogeneousJobGraph T) (parent child : Nat) : HomogeneousJobGraph T :=
  { self with edges := self.edges ++ [(parent, child)] }

/-- `parent.add_child(child)` for each edge. -/
def addChildren (edges : List (Nat × Nat)) (counters : Counters) (jobs : List Job) :
    Counters × List Job :=
  edges.foldl (fun (counters, jobs) (parent, child) =>
    (fetchAdd counters child, jobs.modify parent (Job.addChild · child))) (counters, jobs)

def getJobs (self : HomogeneousJobGraph T) : Counters × List Job :=
  let size := self.jobs.length
  addChildren self.edges (fun todos => if todos < size then 1 else 0)
    ((List.range size).map Job.new)

/-- The number of the job that `run_graph` adds. -/
def root (self : HomogeneousJobGraph T) : Todos := self.jobs.length

def IsEdge (self : HomogeneousJobGraph T) (parent child : Nat) : Prop :=
  (parent, child) ∈ self.edges

/-- Edges are between jobs of the graph, and no path of them leads back to its start. -/
structure Acyclic (graph : HomogeneousJobGraph T) : Prop where
  inRange : ∀ edge ∈ graph.edges, edge.1 < graph.jobs.length ∧ edge.2 < graph.jobs.length
  noCycle : ∀ job, ¬Relation.TransGen graph.IsEdge job job

end HomogeneousJobGraph

/-- A job that a thread executes. After the answer `Done` there are counters of children
left to decrement. -/
structure Execution where
  job : Job
  left : Option (List Todos)
  deriving DecidableEq, Repr

/-- The job before the answer. -/
def Job.idle (self : Job) : Execution := ⟨self, none⟩

/-- The caller of `run_graph` has a job at hand, for which `ready` may have been answered,
and goes on with `rest`: the other jobs and the root. A job may itself wait for jobs, so a
thread has a stack of executions. -/
structure Pool where
  counters : Counters
  caller : Nat
  atHand : Option (Job × Option Bool)
  rest : Option (List Job × Job)
  runnableQueues : List (List Job)
  waitLists : List (List Job)
  executing : List (List Execution)

/-- Threads are known by their index. -/
inductive PoolEvent where
  /-- `job.add_child(&root)`, for the next job of the loop in `run_graph`. -/
  | addChild
  /-- The loop ends, the root is next. -/
  | takeRoot
  /-- `job.ready()` in `enqueue_job`. -/
  | checkReady
  /-- The push in `enqueue_job`. -/
  | push
  /-- `run_once` takes a job and calls `execute`. -/
  | pop (thread : Nat) (job : Todos)
  /-- `steal_batch` takes some jobs of another queue. -/
  | steal (thread victim count : Nat)
  /-- `run_once` looks at one job of the wait list. -/
  | promote (thread position : Nat)
  /-- `func` returns. -/
  | answer (thread : Nat) (job : Todos) (state : ExecutionState)
  /-- `fetch_sub` of the next child. -/
  | release (thread : Nat)
  /-- `fetch_sub` of the job's own counter. -/
  | finish (thread : Nat)
  deriving DecidableEq, Repr

namespace Pool

variable {T : Type}

/-- A pool of this many workers, and 0 for foreign threads, when `run_graph` has made its jobs. -/
def runGraph (graph : HomogeneousJobGraph T) (workers caller : Nat) : Pool :=
  let (counters, jobs) := graph.getJobs
  { counters := Function.update counters graph.root 1
    caller
    atHand := none
    rest := some (jobs, Job.new graph.root)
    runnableQueues := List.replicate (workers + 1) []
    waitLists := List.replicate (workers + 1) []
    executing := List.replicate (workers + 1) [] }

def setQueue (self : Pool) (thread : Nat) (queue : List Job) : Pool :=
  { self with runnableQueues := self.runnableQueues.set thread queue }

def setWaitList (self : Pool) (thread : Nat) (waitList : List Job) : Pool :=
  { self with waitLists := self.waitLists.set thread waitList }

def setStack (self : Pool) (thread : Nat) (stack : List Execution) : Pool :=
  { self with executing := self.executing.set thread stack }

def addChild (self : Pool) : Option Pool :=
  match self.atHand, self.rest with
  | none, some (job :: jobs, root) =>
      some { self with
        counters := fetchAdd self.counters root.tasksLeft
        atHand := some (job.addChild root.tasksLeft, none)
        rest := some (jobs, root) }
  | _, _ => none

def takeRoot (self : Pool) : Option Pool :=
  match self.atHand, self.rest with
  | none, some ([], root) => some { self with atHand := some (root, none), rest := none }
  | _, _ => none

def checkReady (self : Pool) : Option Pool :=
  match self.atHand with
  | some (job, none) => some { self with atHand := some (job, some (job.ready self.counters)) }
  | _ => none

/-- Appends to the queue of the thread. -/
def pushRunnable (self : Pool) (thread : Nat) (job : Job) : Option Pool := do
  let queue ← self.runnableQueues[thread]?
  return self.setQueue thread (queue ++ [job])

def pushWaiting (self : Pool) (thread : Nat) (job : Job) : Option Pool := do
  let waitList ← self.waitLists[thread]?
  return self.setWaitList thread (waitList ++ [job])

def push (self : Pool) : Option Pool :=
  match self.atHand with
  | some (job, some true) => pushRunnable { self with atHand := none } self.caller job
  | some (job, some false) => pushWaiting { self with atHand := none } self.caller job
  | _ => none

/-- A thread starts a job, also from within a job that waits for others. -/
def pop (self : Pool) (thread : Nat) (job : Todos) : Option Pool := do
  let queue ← self.runnableQueues[thread]?
  let stack ← self.executing[thread]?
  guard (stack.head?.all fun execution => execution.left.isNone)
  match queue with
  | [] => none
  | taken :: queue =>
      guard (taken.tasksLeft = job)
      return (self.setQueue thread queue).setStack thread (taken.idle :: stack)

def steal (self : Pool) (thread victim count : Nat) : Option Pool := do
  guard (thread ≠ victim)
  let queue ← self.runnableQueues[thread]?
  let others ← self.runnableQueues[victim]?
  return (self.setQueue victim (others.drop count)).setQueue thread (queue ++ others.take count)

def promote (self : Pool) (thread position : Nat) : Option Pool := do
  let waitList ← self.waitLists[thread]?
  let job ← waitList[position]?
  if job.ready self.counters then
    (self.setWaitList thread (swapRemove waitList position)).pushRunnable thread job
  else
    return self

def answer (self : Pool) (thread : Nat) (job : Todos) (state : ExecutionState) : Option Pool := do
  match ← self.executing[thread]? with
  | ⟨running, none⟩ :: stack =>
      guard (running.tasksLeft = job)
      match state with
      | .Done =>
          return self.setStack thread
            (⟨{ running with data := false }, some running.children⟩ :: stack)
      | .Reenqueue =>
          (self.setStack thread stack).pushRunnable thread running
  | _ => none

def release (self : Pool) (thread : Nat) : Option Pool := do
  match ← self.executing[thread]? with
  | ⟨job, some (dep :: left)⟩ :: stack =>
      return { self.setStack thread (⟨job, some left⟩ :: stack) with
        counters := fetchSub self.counters dep }
  | _ => none

def finish (self : Pool) (thread : Nat) : Option Pool := do
  match ← self.executing[thread]? with
  | ⟨job, some []⟩ :: stack =>
      return { self.setStack thread stack with
        counters := fetchSub self.counters job.tasksLeft }
  | _ => none

def step (self : Pool) : PoolEvent → Option Pool
  | .addChild => self.addChild
  | .takeRoot => self.takeRoot
  | .checkReady => self.checkReady
  | .push => self.push
  | .pop thread job => self.pop thread job
  | .steal thread victim count => self.steal thread victim count
  | .promote thread position => self.promote thread position
  | .answer thread job state => self.answer thread job state
  | .release thread => self.release thread
  | .finish thread => self.finish thread

end Pool

end JobSystem

end Cecs

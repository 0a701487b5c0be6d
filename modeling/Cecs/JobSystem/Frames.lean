import Mathlib.Data.PNat.Basic
import Cecs.JobSystem.Pool

/-! # Calls that wait for their jobs

`join`, `map_reduce`, `run_graph` and `scope` leave jobs to the pool and wait for
them, and a thread that waits runs whatever jobs it finds. So a thread has a stack
of calls and of jobs that it executes, and a panic unwinds the stack up to a job
that catches it. Which closures panic is left open, and so are the queue and the
wait list that a job is in and the order in which jobs are taken from there. Futures
and `enqueue_graph`, whose jobs nobody waits for, are left out, and the closure of a
scope keeps its `Scope` here until it is over. -/

namespace Cecs

namespace JobSystem

/-- What a frame runs. -/
inductive Code where
  /-- Code that may call the pool, return and panic. -/
  | closure
  /-- `reduce_recursive` for a slice of this length. -/
  | reduce (len maxDepth : Nat)
  /-- The end of a function after its last call. -/
  | returns
  deriving DecidableEq, Repr

/-- The functions of jobs. -/
inductive Func where
  | InlineJob (code : Code)
  /-- `move || task(child_scope)`, which has its scope. -/
  | BoxedJob (childScope : Todos)
  | SystemJob
  deriving DecidableEq, Repr

namespace Func

def code : Func → Code
  | .InlineJob code => code
  | .BoxedJob _ => .closure
  | .SystemJob => .closure

/-- Whether `execute` has a `catch_unwind`. -/
def catches : Func → Bool
  | .InlineJob _ => true
  | .BoxedJob _ => true
  | .SystemJob => false

end Func

/-- A job with its function and the handles of the calls that it is part of, the
innermost first: of the call or scope that it was left to the pool by, and of those
around it. -/
structure Work where
  job : Job
  func : Func
  calls : List Todos
  deriving DecidableEq, Repr

inductive Call where
  | join
  | mapReduce (len : Nat)
  | runGraph
  /-- The part of `reduce_recursive` that splits a slice. -/
  | split (len maxDepth : Nat)
  | scope
  deriving DecidableEq, Repr

inductive Stage where
  /-- The jobs are enqueued one by one. -/
  | enqueue
  /-- Code runs before the wait: the right half of a slice, or the closure that has the scope. -/
  | body (code : Code)
  /-- A scope may also be dropped while a panic unwinds. -/
  | wait (unwinding : Bool)
  | after (code : Code)
  deriving DecidableEq, Repr

structure CallFrame where
  call : Call
  /-- What the call waits for. -/
  handle : Todos
  calls : List Todos
  /-- The jobs that are still to be enqueued. -/
  rest : List Work
  stage : Stage
  deriving DecidableEq, Repr

/-- `Job::execute`; `left` as in `Execution`. -/
structure JobFrame where
  work : Work
  left : Option (List Todos)
  code : Code
  deriving DecidableEq, Repr

inductive Frame where
  | call (frame : CallFrame)
  | job (frame : JobFrame)
  deriving DecidableEq, Repr

namespace Frame

/-- What the frame runs, unless it enqueues, waits or is done. -/
def code : Frame → Option Code
  | .call frame =>
      match frame.stage with
      | .body code => some code
      | .after code => some code
      | _ => none
  | .job frame => if frame.left.isNone then some frame.code else none

def setCode (code : Code) : Frame → Frame
  | .call frame =>
      match frame.stage with
      | .body _ => .call { frame with stage := .body code }
      | .after _ => .call { frame with stage := .after code }
      | _ => .call frame
  | .job frame => .job { frame with code }

def calls : Frame → List Todos
  | .call frame => frame.calls
  | .job frame => frame.work.calls

end Frame

/-- The calls that the code at the top of a stack is part of. -/
def callsOf : List Frame → List Todos
  | [] => []
  | frame :: _ => frame.calls

/-- The threads of a pool and others that call it, the handles of all scopes so far, and
those of the calls that have returned or were unwound. -/
structure Frames where
  parallelism : ℕ+
  isWorker : Nat → Bool
  counters : Counters
  nextTodos : Todos
  runnable : List Work
  waiting : List Work
  executing : List (List Frame)
  unwinding : Nat → Bool
  aborted : Bool
  scopes : List Todos
  ended : List Todos

inductive FrameEvent where
  | join (thread : Nat)
  | mapReduce (thread len : Nat)
  | runGraph (thread : Nat) (graph : HomogeneousJobGraph Func)
  | scope (thread : Nat)
  /-- On the scope at this position of the calls around the code. -/
  | spawn (thread position : Nat)
  /-- The next step of `reduce_recursive`. -/
  | reduce (thread : Nat)
  /-- `ready` is the answer of `Job::ready`, which may be no longer up to date. -/
  | enqueue (thread : Nat) (ready : Bool)
  /-- The loop that enqueues jobs is done. -/
  | enqueued (thread : Nat)
  | pop (thread position : Nat)
  | promote (position : Nat)
  /-- `wait` returns. -/
  | waited (thread : Nat)
  | returns (thread : Nat)
  | panic (thread : Nat)
  | unwind (thread : Nat)
  /-- `fetch_sub` of the next child. -/
  | release (thread : Nat)
  /-- `fetch_sub` of the job's own counter. -/
  | finish (thread : Nat)

namespace Frames

/-- A pool that nobody has called yet. -/
def start (parallelism : ℕ+) (isWorker : Nat → Bool) (threads : Nat) : Frames where
  parallelism
  isWorker
  counters := fun _ => 0
  nextTodos := 0
  runnable := []
  waiting := []
  executing := List.replicate threads []
  unwinding := fun _ => false
  aborted := false
  scopes := []
  ended := []

/-- New counters with these values. -/
def allocate (self : Frames) (values : List Int) : Frames := { self with
  counters := fun todos =>
    if todos < self.nextTodos then self.counters todos
    else (values[todos - self.nextTodos]?).getD 0
  nextTodos := self.nextTodos + values.length }

def setStack (self : Frames) (thread : Nat) (stack : List Frame) : Frames :=
  { self with executing := self.executing.set thread stack }

def setUnwinding (self : Frames) (thread : Nat) (unwinding : Bool) : Frames :=
  { self with unwinding := Function.update self.unwinding thread unwinding }

/-- The stack of a thread that goes on normally. -/
def stackOf (self : Frames) (thread : Nat) : Option (List Frame) := do
  guard (!self.aborted && !self.unwinding thread)
  self.executing[thread]?

/-- The stack of a thread that runs a closure, or is no worker and runs code of its own. -/
def callingStack (self : Frames) (thread : Nat) : Option (List Frame) := do
  let stack ← self.stackOf thread
  match stack with
  | [] => guard (!self.isWorker thread)
  | frame :: _ => guard (frame.code = some .closure)
  return stack

/-- The jobs that a call leaves to the pool. -/
def worksOf (calls : List Todos) (jobs : List (Job × Func)) : List Work :=
  jobs.map fun (job, func) => { job, func, calls }

/-- A new frame for a call; its handle is the first of the new counters. -/
def enterCall (self : Frames) (thread : Nat) (stack : List Frame) (call : Call)
    (stage : Stage) (values : List Int) (handle : Todos) (rest : List (Job × Func)) :
    Frames :=
  let calls := handle :: callsOf stack
  let frame := { call, handle, calls, rest := worksOf calls rest, stage }
  (self.allocate values).setStack thread (.call frame :: stack)

def join (self : Frames) (thread : Nat) : Option Frames := do
  let stack ← self.callingStack thread
  let c := self.nextTodos
  return self.enterCall thread stack .join .enqueue [0, 1, 1] c
    [(Job.new (c + 1), .InlineJob .closure), (Job.new (c + 2), .InlineJob .closure)]

def mapReduce (self : Frames) (thread len : Nat) : Option Frames := do
  let stack ← self.callingStack thread
  let root := self.nextTodos
  return self.enterCall thread stack (.mapReduce len) .enqueue (0 :: List.replicate len 1) root
    ((List.range len).map fun i => (Job.new (root + 1 + i), .InlineJob .closure))

/-- The counters of a graph are numbered from `base` on. -/
def shifted (base : Todos) (job : Job) : Job :=
  { job with tasksLeft := base + job.tasksLeft, children := job.children.map (base + ·) }

/-- The jobs are systems or closures. An edge that is not between jobs of the graph is
undefined behaviour. -/
def runGraph (self : Frames) (thread : Nat) (graph : HomogeneousJobGraph Func) :
    Option Frames := do
  let stack ← self.callingStack thread
  let size := graph.jobs.length
  guard (graph.jobs.all fun func => func = .SystemJob ∨ func = .InlineJob .closure)
  guard (graph.edges.all fun edge => edge.1 < size ∧ edge.2 < size)
  let (counters, jobs) := graph.getJobs
  let base := self.nextTodos
  return self.enterCall thread stack .runGraph .enqueue
    ((List.range size).map counters ++ [1]) (base + size)
    ((jobs.map (shifted base)).zip graph.jobs ++
      [(Job.new (base + size), .InlineJob .closure)])

def scope (self : Frames) (thread : Nat) : Option Frames := do
  let stack ← self.callingStack thread
  let root := self.nextTodos
  return { self.enterCall thread stack .scope (.body .closure) [0] root [] with
    scopes := root :: self.scopes }

/-- A task on the scope `root`. The counter of the scope is incremented before others can see
the job, which is ready. -/
def spawned (self : Frames) (root : Todos) (enclosing : List Todos) : Frames :=
  let new := self.nextTodos
  let childScope := new + 1
  let work := { job := (Job.new new).addChild root, func := .BoxedJob childScope
                calls := root :: enclosing }
  { self.allocate [1, 0] with
    counters := fetchAdd (self.allocate [1, 0]).counters root
    runnable := self.runnable ++ [work]
    scopes := childScope :: self.scopes }

/-- On a scope that a closure around the code has. -/
def spawn (self : Frames) (thread position : Nat) : Option Frames := do
  let stack ← self.callingStack thread
  match (callsOf stack).drop position with
  | [] => none
  | root :: enclosing =>
      guard (root ∈ self.scopes)
      return self.spawned root enclosing

/-- A slice of one element, or at the depth limit, is left to the closures. -/
def reduce (self : Frames) (thread : Nat) : Option Frames := do
  match ← self.stackOf thread with
  | frame :: below =>
      match frame.code with
      | some (.reduce len maxDepth) =>
          if 2 ≤ len ∧ 0 < maxDepth then
            let lhsJob := (Job.new self.nextTodos, .InlineJob (.reduce (len / 2) (maxDepth - 1)))
            return self.enterCall thread (frame.setCode .returns :: below)
              (.split len maxDepth) .enqueue [1] self.nextTodos [lhsJob]
          else
            return self.setStack thread (frame.setCode .closure :: below)
      | _ => none
  | [] => none

/-- `enqueue_job` after the answer of `ready`. -/
def enqueueJob (self : Frames) (work : Work) (ready : Bool) : Option Frames :=
  if ready then do
    guard (work.job.ready self.counters)
    return { self with runnable := self.runnable ++ [work] }
  else
    return { self with waiting := self.waiting ++ [work] }

/-- The job that the call waits for is no child of its own. -/
def enqueue (self : Frames) (thread : Nat) (ready : Bool) : Option Frames := do
  match ← self.stackOf thread with
  | .call frame :: below =>
      match frame.stage, frame.rest with
      | .enqueue, work :: rest =>
          let taken := self.setStack thread (.call { frame with rest } :: below)
          if work.job.tasksLeft = frame.handle then
            taken.enqueueJob work ready
          else
            enqueueJob { taken with counters := fetchAdd self.counters frame.handle }
              { work with job := work.job.addChild frame.handle } ready
      | _, _ => none
  | _ => none

def enqueued (self : Frames) (thread : Nat) : Option Frames := do
  match ← self.stackOf thread with
  | .call frame :: below =>
      match frame.stage, frame.rest with
      | .enqueue, [] =>
          let stage := match frame.call with
            | .split len maxDepth => .body (.reduce (len - len / 2) (maxDepth - 1))
            | _ => .wait false
          return self.setStack thread (.call { frame with stage } :: below)
      | _, _ => none
  | _ => none

/-- Whether the thread looks for jobs. -/
def isIdle (self : Frames) (thread : Nat) : List Frame → Bool
  | [] => self.isWorker thread
  | .call frame :: _ => match frame.stage with
      | .wait _ => true
      | _ => false
  | .job _ :: _ => false

/-- The frames of a job that is executed. A task runs with a scope of its own. -/
def framesOf (work : Work) : List Frame :=
  let frame := .job { work, left := none, code := work.func.code }
  match work.func with
  | .BoxedJob childScope =>
      [.call { call := .scope, handle := childScope, calls := childScope :: work.calls
               rest := [], stage := .body .closure }, frame]
  | _ => [frame]

def pop (self : Frames) (thread position : Nat) : Option Frames := do
  let stack ← self.stackOf thread
  guard (self.isIdle thread stack)
  let work ← self.runnable[position]?
  return { self with runnable := self.runnable.eraseIdx position }.setStack thread
    (framesOf work ++ stack)

def promote (self : Frames) (position : Nat) : Option Frames := do
  guard (!self.aborted)
  let work ← self.waiting[position]?
  guard (work.job.ready self.counters)
  return { self with
    waiting := self.waiting.eraseIdx position
    runnable := self.runnable ++ [work] }

/-- The call is over. -/
def endCall (self : Frames) (thread : Nat) (frame : CallFrame) (below : List Frame) : Frames :=
  { self.setStack thread below with ended := frame.handle :: self.ended }

/-- A scope is gone when it was dropped, and a panic goes on. -/
def waited (self : Frames) (thread : Nat) : Option Frames := do
  match ← self.stackOf thread with
  | .call frame :: below =>
      match frame.stage with
      | .wait unwinding =>
          guard (handleDone self.counters frame.handle)
          let goOn := fun code =>
            some (self.setStack thread (.call { frame with stage := .after code } :: below))
          match frame.call with
          | .join => goOn .closure
          | .mapReduce len => goOn (.reduce len (self.parallelism : Nat).log2)
          | .runGraph => goOn .returns
          | .split _ _ => goOn .closure
          | .scope => some ((self.endCall thread frame below).setUnwinding thread unwinding)
      | _ => none
  | _ => none

/-- The answer of `func`: the children are next. -/
def answer (self : Frames) (thread : Nat) (frame : JobFrame) (below : List Frame) : Frames :=
  self.setStack thread (.job { frame with left := some frame.work.job.children } :: below)

/-- The code at the top of the stack returns, and a scope is dropped with the closure that
has it. -/
def returns (self : Frames) (thread : Nat) : Option Frames := do
  match ← self.stackOf thread with
  | frame :: below =>
      guard (frame.code = some .closure ∨ frame.code = some .returns)
      match frame with
      | .call frame =>
          match frame.stage with
          | .body _ =>
              return self.setStack thread (.call { frame with stage := .wait false } :: below)
          | _ => return self.endCall thread frame below
      | .job frame => return self.answer thread frame below
  | [] => none

def panic (self : Frames) (thread : Nat) : Option Frames := do
  match ← self.stackOf thread with
  | frame :: _ =>
      guard (frame.code = some .closure)
      return self.setUnwinding thread true
  | [] => none

/-- A scope is dropped, a job may catch the panic, and other frames are gone. A worker that
is unwound, or a panic out of a drop that a panic caused, aborts the process. -/
def unwind (self : Frames) (thread : Nat) : Option Frames := do
  guard (!self.aborted && self.unwinding thread)
  match ← self.executing[thread]? with
  | .call frame :: below =>
      match frame.call, frame.stage with
      | .scope, .body _ =>
          return (self.setStack thread
            (.call { frame with stage := .wait true } :: below)).setUnwinding thread false
      | .scope, .wait true => return { self with aborted := true }
      | _, _ => return self.endCall thread frame below
  | .job frame :: below =>
      guard frame.left.isNone
      if frame.work.func.catches then
        return (self.answer thread frame below).setUnwinding thread false
      else
        return self.setStack thread below
  | [] =>
      if self.isWorker thread then return { self with aborted := true }
      else return self.setUnwinding thread false

def release (self : Frames) (thread : Nat) : Option Frames := do
  match ← self.stackOf thread with
  | .job frame :: below =>
      match frame.left with
      | some (dep :: left) =>
          return { self.setStack thread (.job { frame with left := some left } :: below) with
            counters := fetchSub self.counters dep }
      | _ => none
  | _ => none

def finish (self : Frames) (thread : Nat) : Option Frames := do
  match ← self.stackOf thread with
  | .job frame :: below =>
      match frame.left with
      | some [] =>
          return { self.setStack thread below with
            counters := fetchSub self.counters frame.work.job.tasksLeft }
      | _ => none
  | _ => none

def step (self : Frames) : FrameEvent → Option Frames
  | .join thread => self.join thread
  | .mapReduce thread len => self.mapReduce thread len
  | .runGraph thread graph => self.runGraph thread graph
  | .scope thread => self.scope thread
  | .spawn thread position => self.spawn thread position
  | .reduce thread => self.reduce thread
  | .enqueue thread ready => self.enqueue thread ready
  | .enqueued thread => self.enqueued thread
  | .pop thread position => self.pop thread position
  | .promote position => self.promote position
  | .waited thread => self.waited thread
  | .returns thread => self.returns thread
  | .panic thread => self.panic thread
  | .unwind thread => self.unwind thread
  | .release thread => self.release thread
  | .finish thread => self.finish thread

def run (self : Frames) (events : List FrameEvent) : Option Frames := events.foldlM step self

end Frames

end JobSystem

end Cecs

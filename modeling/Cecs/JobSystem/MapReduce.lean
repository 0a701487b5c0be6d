import Mathlib.Data.PNat.Basic
import Mathlib.Data.List.Perm.Basic
import Mathlib.Data.List.Range

/-! # Mapping and reducing in parallel

`map_reduce` runs a job for each input, waits for all of them, and then reduces
their results. `reduce_recursive` leaves the left half of a slice to another job
until a depth is reached, so the two halves run in any interleaving. -/

namespace Cecs

namespace JobSystem

inductive JobResult (R : Type) where
  | Done (result : R)
  | Panic
  | Pending
  | Reenqueue

namespace JobResult

variable {R : Type}

/-- The result, and what is left in its place. -/
def take (self : JobResult R) : JobResult R × JobResult R := (self, .Pending)

/-- `none` if it panics. -/
def unwrap : JobResult R → Option R
  | .Done result => some result
  | .Panic => none
  | .Pending => none
  | .Reenqueue => none

end JobResult

/-- The closure `move || map(t)`, known by `t`, until it is taken. -/
structure InlineJob (T R : Type) where
  inner : Option T
  result : JobResult R

namespace InlineJob

variable {T R : Type}

def new (inner : T) : InlineJob T R where
  inner := some inner
  result := .Pending

/-- `none` if the closure was taken before. -/
def execute (map : T → R) (self : InlineJob T R) : Option (InlineJob T R) := do
  let inner ← self.inner
  return { inner := none, result := .Done (map inner) }

end InlineJob

/-- The jobs, and the positions of the results that were taken, in order. -/
structure Results (T Res : Type) where
  jobs : List (InlineJob T Res)
  taken : List Nat

/-- A call of `reduce_recursive` for the slice that starts at `start`. -/
inductive Reduction (Res : Type) where
  | call (start len maxDepth : Nat)
  /-- The loop at the depth limit. -/
  | loop (result : Res) (position stop : Nat)
  /-- The left half is run by `lhs_job`, the right half by the caller. -/
  | split (lhs rhs : Reduction Res)
  | returned (result : Res)
  | panicked

/-- A half of a slice. -/
inductive Half where
  | lhs
  | rhs
  deriving DecidableEq, Repr

namespace Results

variable {T Res : Type}

/-- `(&mut *job.result.get()).take().unwrap()` -/
def take (self : Results T Res) (position : Nat) : Option (Res × Results T Res) := do
  let job ← self.jobs[position]?
  let (taken, left) := job.result.take
  let result ← taken.unwrap
  return (result, { jobs := self.jobs.set position { job with result := left }
                    taken := self.taken ++ [position] })

/-- Goes on with the result, or panics. -/
def taking (self : Results T Res) (position : Nat) (next : Res → Reduction Res) :
    Results T Res × Reduction Res :=
  match self.take position with
  | some (result, left) => (left, next result)
  | none => (self, .panicked)

end Results

namespace Reduction

variable {T Res : Type}

/-- What the job that runs the reduction has as its result. -/
def jobResult : Reduction Res → JobResult Res
  | .returned result => .Done result
  | .panicked => .Panic
  | _ => .Pending

def enter (init : Unit → Res) (results : Results T Res) (start len maxDepth : Nat) :
    Results T Res × Reduction Res :=
  match len with
  | 0 => (results, .returned (init ()))
  | 1 => results.taking start .returned
  | _ =>
      if 0 < maxDepth then
        (results, .split (.call start (len / 2) (maxDepth - 1))
          (.call (start + len / 2) (len - len / 2) (maxDepth - 1)))
      else
        results.taking start fun result => .loop result (start + 1) (start + len)

/-- After the right half, the caller waits for the left one. -/
def join (reduce : Res → Res → Res) (lhs rhs : Reduction Res) : Option (Reduction Res) :=
  match rhs, lhs.jobResult with
  | .panicked, _ => some .panicked
  | .returned _, .Pending => none
  | .returned rhs, result =>
      match result.take.1.unwrap with
      | some lhs => some (.returned (reduce lhs rhs))
      | none => some .panicked
  | _, _ => none

/-- One step of the call that the path leads to, `none` if it has to wait or is over. -/
def step (init : Unit → Res) (reduce : Res → Res → Res) (results : Results T Res) :
    List Half → Reduction Res → Option (Results T Res × Reduction Res)
  | [], .call start len maxDepth => some (enter init results start len maxDepth)
  | [], .loop result position stop =>
      if position < stop then
        some (results.taking position fun res =>
          .loop (reduce result res) (position + 1) stop)
      else
        some (results, .returned result)
  | [], .split lhs rhs => do return (results, ← join reduce lhs rhs)
  | .lhs :: path, .split lhs rhs => do
      let (results, lhs) ← step init reduce results path lhs
      return (results, .split lhs rhs)
  | .rhs :: path, .split lhs rhs => do
      let (results, rhs) ← step init reduce results path rhs
      return (results, .split lhs rhs)
  | _, _ => none

end Reduction

/-- A call of `map_reduce`, which first waits for the jobs. -/
structure MapReduce (T Res : Type) where
  results : Results T Res
  reduction : Option (Reduction Res)

inductive MapReduceEvent where
  /-- A thread executes a job. -/
  | map (position : Nat)
  /-- `self.wait(root)` returns: all jobs have run. -/
  | waited
  /-- A thread goes on with the part of the reduction that it runs. -/
  | reduce (path : List Half)
  deriving DecidableEq, Repr

namespace MapReduce

variable {T Res : Type}

def start (data : List T) : MapReduce T Res where
  results := { jobs := data.map InlineJob.new, taken := [] }
  reduction := none

section Run

variable (parallelism : ℕ+) (init : Unit → Res) (map : T → Res) (reduce : Res → Res → Res)

def step (self : MapReduce T Res) : MapReduceEvent → Option (MapReduce T Res)
  | .map position => do
      guard self.reduction.isNone
      let job ← self.results.jobs[position]?
      let executed ← job.execute map
      return { self with
        results := { self.results with jobs := self.results.jobs.set position executed } }
  | .waited => do
      guard self.reduction.isNone
      guard (self.results.jobs.all fun job => job.inner.isNone)
      let maxDepth := (parallelism : Nat).log2
      return { self with reduction := some (.call 0 self.results.jobs.length maxDepth) }
  | .reduce path => do
      let (results, reduction) ← (← self.reduction).step init reduce self.results path
      return { results, reduction := some reduction }

def run (self : MapReduce T Res) (events : List MapReduceEvent) : Option (MapReduce T Res) :=
  events.foldlM (step parallelism init map reduce) self

end Run

/-- What the call returns. -/
def returns (self : MapReduce T Res) (result : Res) : Prop :=
  self.reduction = some (.returned result)

end MapReduce

end JobSystem

end Cecs

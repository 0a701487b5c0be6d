import Cecs.JobSystem.Tasks

/-! # Scopes that are moved

The closure of a scope and a task get their `Scope` by value. They can move it out, and
then whoever has it spawns tasks on it and drops it, maybe when the closure is over. -/

namespace Cecs

namespace JobSystem

/-- The stack of a thread that runs code, also while a panic unwinds it. -/
def Frames.codeStack (self : Frames) (thread : Nat) : Option (List Frame) := do
  guard (!self.aborted)
  let stack ← self.executing[thread]?
  match stack with
  | [] => guard (!self.isWorker thread)
  | frame :: _ => guard frame.code.isSome
  return stack

/-- With the handles of the scopes that were moved out of their closures, the calls of those
that were not dropped since, and the handle of a moved scope for that of each call that is
its drop. -/
structure Scopes where
  frames : Frames
  moved : List Todos
  out : List (List Todos)
  drops : List (Todos × Todos)

inductive ScopeEvent where
  | frames (event : FrameEvent)
  /-- The closure at the top of the stack moves its `Scope` out. -/
  | moveOut (thread : Nat)
  /-- On the scope at this position of those that are out. -/
  | spawnOut (thread position : Nat)
  | drop (thread position : Nat)

/-- Without `map_reduce`, `run_graph` and scopes that are moved. -/
def ScopeEvent.ofTasks : ScopeEvent → Bool
  | .frames event => event.ofTasks
  | _ => false

/-- The counter of a call or scope, wherever it is, is zero only when the jobs left to the pool
by it are done. -/
def Frames.CountsJobs (self : Frames) : Prop :=
  ∀ handle, handleDone self.counters handle = true →
    ∀ work ∈ self.pending, work.calls.head? ≠ some handle

namespace Scopes

def start (parallelism : ℕ+) (isWorker : Nat → Bool) (threads : Nat) : Scopes where
  frames := Frames.start parallelism isWorker threads
  moved := []
  out := []
  drops := []

/-- The scope at the top of the stack, when its closure has no `Scope` any more. -/
def movedOut (self : Scopes) (thread : Nat) : Option (CallFrame × List Frame) :=
  match self.frames.executing[thread]? with
  | some (.call frame :: below) =>
      match frame.stage with
      | .body _ => if frame.handle ∈ self.moved then some (frame, below) else none
      | _ => none
  | _ => none

/-- The code at the top of the stack is over. The call of a scope that was moved out is over
with its closure, as there is nothing to drop. -/
def leave (self : Scopes) (thread : Nat) (dropped : Frames) : Frames :=
  match self.movedOut thread with
  | some (frame, below) => self.frames.endCall thread frame below
  | none => dropped

/-- The counter that a call waits for. -/
def waitsFor (self : Scopes) (handle : Todos) : Todos :=
  (self.drops.lookup handle).getD handle

def spawn (self : Scopes) (thread position : Nat) : Option Frames := do
  let stack ← self.frames.callingStack thread
  guard (((callsOf stack).drop position).head?.all fun root => root ∉ self.moved)
  self.frames.spawn thread position

def waited (self : Scopes) (thread : Nat) : Option Frames := do
  match ← self.frames.stackOf thread with
  | .call frame :: _ =>
      guard (handleDone self.frames.counters (self.waitsFor frame.handle))
      self.frames.waited thread
  | _ => none

def returns (self : Scopes) (thread : Nat) : Option Frames := do
  return self.leave thread (← self.frames.returns thread)

def unwind (self : Scopes) (thread : Nat) : Option Frames := do
  return self.leave thread (← self.frames.unwind thread)

def frameStep (self : Scopes) : FrameEvent → Option Frames
  | .spawn thread position => self.spawn thread position
  | .waited thread => self.waited thread
  | .returns thread => self.returns thread
  | .unwind thread => self.unwind thread
  | event => self.frames.step event

def moveOut (self : Scopes) (thread : Nat) : Option Scopes := do
  match ← self.frames.stackOf thread with
  | .call frame :: _ =>
      guard (frame.handle ∈ self.frames.scopes ∧ frame.stage = .body .closure)
      guard (frame.handle ∉ self.moved)
      return { self with moved := frame.handle :: self.moved, out := frame.calls :: self.out }
  | _ => none

def spawnOut (self : Scopes) (thread position : Nat) : Option Scopes := do
  let _ ← self.frames.callingStack thread
  match ← self.out[position]? with
  | [] => none
  | root :: enclosing =>
      guard (root ∈ self.frames.scopes)
      return { self with frames := self.frames.spawned root enclosing }

/-- A drop that waits is a call of its own. -/
def drop (self : Scopes) (thread position : Nat) : Option Scopes := do
  let stack ← self.frames.codeStack thread
  match ← self.out[position]? with
  | [] => none
  | root :: _ =>
      let dropped := { self with out := self.out.eraseIdx position }
      if handleDone self.frames.counters root then
        return dropped
      else
        let handle := self.frames.nextTodos
        let stage := .wait (self.frames.unwinding thread)
        return { dropped with
          frames := (self.frames.enterCall thread stack .scope stage [0] handle []).setUnwinding
            thread false
          drops := (handle, root) :: self.drops }

def step (self : Scopes) : ScopeEvent → Option Scopes
  | .frames event => do return { self with frames := ← self.frameStep event }
  | .moveOut thread => self.moveOut thread
  | .spawnOut thread position => self.spawnOut thread position
  | .drop thread position => self.drop thread position

def run (self : Scopes) (events : List ScopeEvent) : Option Scopes := events.foldlM step self

def movedDone (self : Scopes) (thread : Nat) : Bool :=
  (self.movedOut thread).all fun (frame, _) => handleDone self.frames.counters frame.handle

/-- The counter of a moved scope is zero when its closure is over. -/
def leavesDone (self : Scopes) : FrameEvent → Bool
  | .returns thread => self.movedDone thread
  | .unwind thread => self.movedDone thread
  | _ => true

/-- Neither a panic nor the end of a closure without its `Scope` leaves a call before its
handle is done, and a moved scope gets tasks only as long as its call is not over. -/
def contained (self : Scopes) : ScopeEvent → Bool
  | .frames event => self.frames.contained event && self.leavesDone event
  | .spawnOut _ position => self.out[position]?.all fun calls =>
      some calls ∈ self.frames.executing.flatten.map Frame.encloses
  | _ => true

def allContained (self : Scopes) : List ScopeEvent → Bool
  | [] => true
  | event :: events =>
      self.contained event && (self.step event).all fun next => next.allContained events

section Sound

variable {self next : Scopes} {frames : Frames} {thread : Nat}

theorem found_of_movedOut {frame : CallFrame} {below : List Frame}
    (movedOut : self.movedOut thread = some (frame, below)) :
    self.frames.executing[thread]? = some (.call frame :: below) := by
  rw [Scopes.movedOut] at movedOut
  split at movedOut
  · rename_i found
    split at movedOut
    · rw [Option.ite_none_right_eq_some] at movedOut
      cases movedOut.2
      exact found
    · cases movedOut
  · cases movedOut

theorem sound_leave (sound : self.frames.Sound) (done : self.movedDone thread = true)
    {dropped : Frames} (soundDropped : dropped.Sound) : (self.leave thread dropped).Sound := by
  rw [leave]
  split
  · rename_i frame below movedOut
    rw [movedDone, movedOut] at done
    exact sound.endCall (found_of_movedOut movedOut) (Or.inr done)
  · exact soundDropped

/-- A step of the frames, after which a moved scope may be left without a drop. -/
theorem frameStep_cases {event : FrameEvent} (stepped : self.frameStep event = some frames) :
    ∃ dropped, self.frames.step event = some dropped ∧ (frames = dropped ∨
      ∃ thread, (event = .returns thread ∨ event = .unwind thread) ∧
        frames = self.leave thread dropped) := by
  cases event with
  | spawn thread position =>
      simp only [frameStep, spawn, Option.bind_eq_bind, Option.bind_eq_some_iff,
        Option.guard_eq_some', exists_const] at stepped
      rcases stepped with ⟨stack, _, _, stepped⟩
      exact ⟨frames, stepped, Or.inl rfl⟩
  | waited thread =>
      simp only [frameStep, waited, Option.bind_eq_bind, Option.bind_eq_some_iff] at stepped
      rcases stepped with ⟨stack, _, stepped⟩
      split at stepped
      · simp only [Option.bind_eq_some_iff, Option.guard_eq_some', exists_const] at stepped
        exact ⟨frames, stepped.2, Or.inl rfl⟩
      · cases stepped
  | returns thread =>
      simp only [frameStep, returns, Option.bind_eq_bind, Option.bind_eq_some_iff,
        Option.pure_def, Option.some.injEq] at stepped
      rcases stepped with ⟨dropped, stepped, rfl⟩
      exact ⟨dropped, stepped, Or.inr ⟨thread, Or.inl rfl, rfl⟩⟩
  | unwind thread =>
      simp only [frameStep, unwind, Option.bind_eq_bind, Option.bind_eq_some_iff,
        Option.pure_def, Option.some.injEq] at stepped
      rcases stepped with ⟨dropped, stepped, rfl⟩
      exact ⟨dropped, stepped, Or.inr ⟨thread, Or.inr rfl, rfl⟩⟩
  | _ => exact ⟨frames, stepped, Or.inl rfl⟩

theorem sound_frameStep (sound : self.frames.Sound) {event : FrameEvent}
    (contained : self.contained (.frames event) = true)
    (stepped : self.frameStep event = some frames) : frames.Sound := by
  rw [Scopes.contained, Bool.and_eq_true] at contained
  rcases frameStep_cases stepped with ⟨dropped, dropping, rfl | ⟨thread, leaves, rfl⟩⟩
  · exact sound.step contained.1 dropping
  · have done : self.movedDone thread = true := by
      rcases leaves with rfl | rfl
      · exact contained.2
      · exact contained.2
    exact sound_leave sound done (sound.step contained.1 dropping)

theorem codeStack_eq {self : Frames} {stack : List Frame}
    (running : self.codeStack thread = some stack) :
    self.executing[thread]? = some stack ∧ ∀ head ∈ stack.head?, head.code.isSome = true := by
  simp only [Frames.codeStack, Option.bind_eq_bind, Option.bind_eq_some_iff,
    Option.guard_eq_some', exists_const] at running
  rcases running with ⟨_, other, found, rest⟩
  cases other with
  | nil =>
      simp only [Option.bind_eq_some_iff, Option.pure_def, Option.some.injEq] at rest
      rcases rest with ⟨_, _, rfl⟩
      exact ⟨found, by simp⟩
  | cons head below =>
      simp only [Option.bind_eq_some_iff, Option.guard_eq_some', Option.pure_def,
        Option.some.injEq] at rest
      rcases rest with ⟨_, code, rfl⟩
      exact ⟨found, fun other isHead => Option.some.inj isHead ▸ code⟩

theorem sound_spawnOut (sound : self.frames.Sound) {position : Nat}
    (contained : self.contained (.spawnOut thread position) = true)
    (stepped : self.spawnOut thread position = some next) : next.frames.Sound := by
  simp only [spawnOut, Option.bind_eq_bind, Option.bind_eq_some_iff] at stepped
  rcases stepped with ⟨stack, _, calls, isOut, stepped⟩
  rw [Scopes.contained, isOut, Option.all_some, decide_eq_true_eq] at contained
  cases calls with
  | nil => cases stepped
  | cons root enclosing =>
      simp only [Option.bind_eq_some_iff, Option.guard_eq_some', exists_const,
        Option.pure_def, Option.some.injEq] at stepped
      rcases stepped with ⟨inScopes, rfl⟩
      exact sound.spawned inScopes contained

theorem sound_drop (sound : self.frames.Sound) {position : Nat}
    (stepped : self.drop thread position = some next) : next.frames.Sound := by
  simp only [drop, Option.bind_eq_bind, Option.bind_eq_some_iff] at stepped
  rcases stepped with ⟨stack, running, calls, _, stepped⟩
  rcases codeStack_eq running with ⟨found, code⟩
  cases calls with
  | nil => cases stepped
  | cons root enclosing =>
      dsimp only at stepped
      split at stepped
      · cases stepped
        exact sound
      · cases stepped
        refine Frames.Sound.flags ?_ _ _
        apply sound.enters found 0 [] [] (fun others held => held)
          (sound.stacked_of_found found) code
        · simp
        · exact Nat.zero_lt_one
        · exact Or.inl rfl
        · simp
        · rfl
        · intro number
          cases number with
          | zero => simp
          | succ number => simp

theorem sound_step (sound : self.frames.Sound) {event : ScopeEvent}
    (contained : self.contained event = true) (stepped : self.step event = some next) :
    next.frames.Sound := by
  cases event with
  | frames event =>
      simp only [step, Option.bind_eq_bind, Option.bind_eq_some_iff, Option.pure_def,
        Option.some.injEq] at stepped
      rcases stepped with ⟨frames, stepped, rfl⟩
      exact sound_frameStep sound contained stepped
  | moveOut thread =>
      simp only [step, moveOut, Option.bind_eq_bind, Option.bind_eq_some_iff] at stepped
      rcases stepped with ⟨stack, _, stepped⟩
      split at stepped
      · simp only [Option.bind_eq_some_iff, Option.guard_eq_some', exists_const,
          Option.pure_def, Option.some.injEq] at stepped
        rcases stepped with ⟨_, _, rfl⟩
        exact sound
      · cases stepped
  | spawnOut thread position => exact sound_spawnOut sound contained stepped
  | drop thread position => exact sound_drop sound stepped

end Sound

section Tasks

variable {self next : Scopes}

theorem movedOut_eq_none (unmoved : self.moved = []) (thread : Nat) :
    self.movedOut thread = none := by
  rw [movedOut]
  split
  · split
    · rw [unmoved]
      exact if_neg List.not_mem_nil
    · rfl
  · rfl

/-- As long as no scope is moved, the steps are those of the frames. -/
theorem step_of_unmoved (unmoved : self.moved = []) {event : FrameEvent}
    (stepped : self.step (.frames event) = some next) :
    self.frames.step event = some next.frames ∧ next.moved = [] := by
  simp only [step, Option.bind_eq_bind, Option.bind_eq_some_iff, Option.pure_def,
    Option.some.injEq] at stepped
  rcases stepped with ⟨frames, stepped, rfl⟩
  rcases frameStep_cases stepped with ⟨dropped, dropping, rfl | ⟨thread, _, rfl⟩⟩
  · exact ⟨dropping, unmoved⟩
  · rw [leave, movedOut_eq_none unmoved]
    exact ⟨dropping, unmoved⟩

theorem leavesDone_of_unmoved (unmoved : self.moved = []) (event : FrameEvent) :
    self.leavesDone event = true := by
  cases event with
  | returns thread => rw [leavesDone, movedDone, movedOut_eq_none unmoved, Option.all_none]
  | unwind thread => rw [leavesDone, movedDone, movedOut_eq_none unmoved, Option.all_none]
  | _ => rfl

end Tasks

section Runs

variable {parallelism : ℕ+} {isWorker : Nat → Bool} {threads : Nat} {events : List ScopeEvent}
  {self state : Scopes}

theorem sound_run (sound : self.frames.Sound) (contained : self.allContained events = true)
    (ran : self.run events = some state) : state.frames.Sound := by
  induction events generalizing self with
  | nil =>
      cases ran
      exact sound
  | cons event events induction =>
      rw [run, List.foldlM_cons, Option.bind_eq_bind, Option.bind_eq_some_iff] at ran
      rcases ran with ⟨next, stepped, ran⟩
      rw [allContained, stepped, Bool.and_eq_true] at contained
      exact induction (sound_step sound contained.1 stepped) contained.2 ran

/-- When a scope is over, the tasks that it encloses are done, and its counter is zero at the
end of the drop only then. -/
theorem run_scopes_settled
    (contained : (start parallelism isWorker threads).allContained events = true)
    (ran : (start parallelism isWorker threads).run events = some state) :
    state.frames.Settled ∧ state.frames.DoneAtZero ∧ state.frames.CountsJobs := by
  have sound := sound_run (Frames.sound_start parallelism isWorker threads) contained ran
  exact ⟨sound.settled, sound.doneAtZero,
    fun handle done work waiting => sound.held.head_ne_of_done done waiting⟩

theorem contained_of_tasks (caught : self.frames.Caught) (sound : self.frames.Sound)
    (unmoved : self.moved = []) (ofTasks : ∀ event ∈ events, event.ofTasks = true)
    (ran : self.run events = some state) : self.allContained events = true := by
  induction events generalizing self with
  | nil => rfl
  | cons event events induction =>
      rw [run, List.foldlM_cons, Option.bind_eq_bind, Option.bind_eq_some_iff] at ran
      rcases ran with ⟨next, stepped, ran⟩
      have ofTask := ofTasks event List.mem_cons_self
      cases event with
      | frames event =>
          have stepOfFrames := step_of_unmoved unmoved stepped
          have contained : self.contained (.frames event) = true := by
            rw [Scopes.contained, caught.contained event stepOfFrames.1,
              leavesDone_of_unmoved unmoved]
            rfl
          rw [allContained, stepped, Bool.and_eq_true]
          exact ⟨contained, induction (caught.step sound ofTask stepOfFrames.1)
            (sound_step sound contained stepped) stepOfFrames.2
            (fun other member => ofTasks other (List.mem_cons_of_mem _ member)) ran⟩
      | _ => cases ofTask

/-- Scopes, tasks and `join` alone leave no call before its jobs are done. -/
theorem allContained_of_tasks (ofTasks : ∀ event ∈ events, event.ofTasks = true)
    (ran : (start parallelism isWorker threads).run events = some state) :
    (start parallelism isWorker threads).allContained events = true :=
  contained_of_tasks (Frames.caught_start parallelism isWorker threads)
    (Frames.sound_start parallelism isWorker threads) rfl ofTasks ran

end Runs

section Example

/-- Threads 0 and 2 call the pool, thread 1 is its worker. -/
def pool : Scopes := start (Nat.succPNat 1) (fun thread => thread = 1) 3

/-- The closure of a scope spawns a task, and the scope outlives it. -/
def scopeMoved : List ScopeEvent :=
  [.frames (.scope 0), .frames (.spawn 0 0), .moveOut 0, .frames (.returns 0)]

/-- The drop of a scope executes a system of another thread, which panics. -/
def systemPanics : List ScopeEvent :=
  [.scope 0, .spawn 0 0, .returns 0, .runGraph 2 (HomogeneousJobGraph.new [.SystemJob]),
    .enqueue 2 true, .pop 0 1, .panic 0, .unwind 0, .unwind 0].map .frames

theorem run_scopes_unsettled :
    (∃ state, pool.run scopeMoved = some state ∧ ¬state.frames.Settled) ∧
      ∃ state, pool.run systemPanics = some state ∧ ¬state.frames.Settled :=
  ⟨⟨(pool.run scopeMoved).get (by decide), (Option.some_get _).symm, by decide⟩,
    (pool.run systemPanics).get (by decide), (Option.some_get _).symm, by decide⟩

/-- A task spawns on its own scope, on the scope of the caller, and panics. Another thread
gets the latter scope and drops it before its closure is over. -/
def tasks : List ScopeEvent :=
  [.scope 0, .spawn 0 0, .pop 1 0, .spawn 1 0, .spawn 1 1, .panic 1, .unwind 1].map .frames ++
    [.moveOut 0, .drop 2 0] ++
    [.pop 2 1, .returns 2, .waited 2, .returns 2, .release 2, .finish 2, .pop 1 0, .returns 1,
      .waited 1, .returns 1, .release 1, .finish 1, .waited 1, .unwind 1, .release 1,
      .finish 1, .waited 2, .returns 0].map .frames

theorem run_scopes_settled_sample : ∃ state, pool.run tasks = some state ∧
    state.frames.ended = [0, 7, 2, 4, 6] ∧
    state.frames.Settled ∧ state.frames.DoneAtZero ∧ state.frames.CountsJobs :=
  ⟨(pool.run tasks).get (by decide), (Option.some_get _).symm, by decide,
    run_scopes_settled (by decide) (Option.some_get _).symm⟩

end Example

end Scopes

end JobSystem

end Cecs

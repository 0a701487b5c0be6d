import Cecs.JobSystem.Completion
import Cecs.Scheduler.Interleaved

/-! # Threads that run a stage

The threads of the pool go through `run_once` while the caller waits for the root. A system
is executed instruction by instruction, and other threads act in between. If the sorted run
returns, so can the stage, whatever the threads have done so far. -/

namespace Cecs

open Foundation JobSystem

section Model

variable {Value : Type}

/-- The stage with the threads that run it. -/
structure StageExecution (Value : Type) where
  systems : List (ErasedSystem (Program Value))
  executors : Executors
  world : World Value
  calls : Todos → Option (SystemCall Value)

inductive StageExecutionEvent where
  | executor (event : ExecutorEvent)
  | call (thread : Nat)
  | instruct (thread : Nat)
  | returns (thread : Nat)

namespace StageExecution

/-- No job of a stage is enqueued again. -/
def start (systems : List (ErasedSystem (Program Value)))
    (graph : HomogeneousJobGraph (ErasedSystem (Program Value))) (workers caller : Nat)
    (world : World Value) : StageExecution Value where
  systems
  executors := Executors.runGraph graph workers caller fun _ => 0
  world
  calls := fun _ => none

def toStageRun (self : StageExecution Value) : StageRun Value where
  systems := self.systems
  pool := self.executors.pool
  world := self.world
  calls := self.calls

/-- A step in the function of a system, of which the pool knows nothing. -/
def inFunction (self : StageExecution Value) (step : StageRun Value → Option (StageRun Value)) :
    Option (StageExecution Value) := do
  let next ← step self.toStageRun
  return { self with world := next.world, calls := next.calls }

/-- Systems are executed by the other events; the function of the root does nothing. -/
def isOther (self : StageExecution Value) : ExecutorEvent → Bool
  | .execute thread => self.toStageRun.current thread = some self.systems.length
  | _ => true

def executorStep (self : StageExecution Value) (event : ExecutorEvent) :
    Option (StageExecution Value) := do
  guard (self.isOther event = true)
  return { self with executors := ← self.executors.step event }

/-- The system returns, and with it `SystemJob::execute`. -/
def returns (self : StageExecution Value) (thread : Nat) : Option (StageExecution Value) := do
  let job ← self.toStageRun.current thread
  match ← self.calls job with
  | (.finish, _) => return { self with
      executors := ← self.executors.step (.execute thread)
      calls := Function.update self.calls job none }
  | _ => none

def step (self : StageExecution Value) : StageExecutionEvent → Option (StageExecution Value)
  | .executor event => self.executorStep event
  | .call thread => self.inFunction fun stage => stage.call thread
  | .instruct thread => self.inFunction fun stage => stage.instruct thread
  | .returns thread => self.returns thread

end StageExecution

end Model

section Projection

variable {Value : Type} {state next : StageExecution Value}

namespace StageExecution

/-- What is done in functions is unknown to the pool. -/
theorem inFunction_eq {step : StageRun Value → Option (StageRun Value)}
    (isLocal : ∀ stage after, step stage = some after →
      after.systems = stage.systems ∧ after.pool = stage.pool)
    (stepped : state.inFunction step = some next) :
    step state.toStageRun = some next.toStageRun ∧ next.executors = state.executors := by
  simp only [inFunction, Option.bind_eq_bind, Option.bind_eq_some_iff, Option.pure_def,
    Option.some.injEq] at stepped
  rcases stepped with ⟨⟨systems, pool, world, calls⟩, stepped, rfl⟩
  rcases isLocal _ _ stepped with ⟨sameSystems, samePool⟩
  cases sameSystems
  cases samePool
  exact ⟨stepped, rfl⟩

theorem poolStep_of_step {stage : StageRun Value} {event : PoolEvent} {pool : Pool}
    (allowed : stage.isOther event = true) (stepped : stage.pool.step event = some pool) :
    stage.step (.pool event) = some { stage with pool } := by
  simp [StageRun.step, StageRun.poolStep, allowed, stepped]

theorem call_local (thread : Nat) (stage after : StageRun Value)
    (stepped : stage.call thread = some after) :
    after.systems = stage.systems ∧ after.pool = stage.pool := by
  simp only [StageRun.call, Option.bind_eq_bind, Option.bind_eq_some_iff, Option.pure_def,
    Option.some.injEq] at stepped
  rcases stepped with ⟨_, _, _, _, _, _, _, _, rfl⟩
  exact ⟨rfl, rfl⟩

theorem instruct_local (thread : Nat) (stage after : StageRun Value)
    (stepped : stage.instruct thread = some after) :
    after.systems = stage.systems ∧ after.pool = stage.pool := by
  simp only [StageRun.instruct, Option.bind_eq_bind, Option.bind_eq_some_iff, Option.pure_def,
    Option.some.injEq] at stepped
  rcases stepped with ⟨_, _, _, _, _, _, rfl⟩
  exact ⟨rfl, rfl⟩

/-- A job that is not enqueued again is done. -/
theorem execute_eq {thread : Nat} {executors : Executors}
    (once : ∀ job, state.executors.again job = 0)
    (stepped : state.executors.step (.execute thread) = some executors) {job : Todos}
    (current : state.toStageRun.current thread = some job) :
    state.executors.pool.step (.answer thread job .Done) = some executors.pool := by
  rcases (Executors.acts_step stepped).pool with ⟨_, notExecuted, _⟩ |
    ⟨other, answered, same, _, poolStepped, _⟩
  · exact absurd rfl (notExecuted thread)
  · cases same
    rw [once answered, answerOf] at poolStepped
    have ended : state.executors.pool.answer thread answered .Done = some executors.pool :=
      poolStepped
    rcases Pool.answer_eq ended with ⟨running, stack, found, isJob, _⟩
    simp [StageRun.current, toStageRun, found, Job.idle, isJob] at current
    rw [← current]
    exact poolStepped

theorem once_step {executors next : Executors} {event : ExecutorEvent}
    (once : ∀ job, executors.again job = 0) (stepped : executors.step event = some next)
    (job : Todos) : next.again job = 0 := by
  rcases (Executors.acts_step stepped).pool with ⟨_, _, again, _⟩ |
    ⟨_, answered, _, _, _, again⟩
  · rw [again]
    exact once job
  · rw [again, once answered, Function.update_apply]
    split
    · rfl
    · exact once job

/-- A step of the threads is a step of the stage, or nothing to it. -/
theorem step_stage {event : StageExecutionEvent}
    (once : ∀ job, state.executors.again job = 0) (stepped : state.step event = some next) :
    (next.toStageRun = state.toStageRun ∨
        ∃ stageEvent, state.toStageRun.step stageEvent = some next.toStageRun) ∧
      (next.executors = state.executors ∨
        ∃ executorEvent, state.executors.step executorEvent = some next.executors) := by
  cases event with
  | executor event =>
      simp only [step, executorStep, Option.bind_eq_bind, Option.bind_eq_some_iff,
        Option.guard_eq_some', Option.pure_def, Option.some.injEq, exists_const] at stepped
      rcases stepped with ⟨other, executors, executorStepped, rfl⟩
      refine ⟨?_, Or.inr ⟨event, executorStepped⟩⟩
      rcases (Executors.acts_step executorStepped).pool with
        ⟨_, _, _, same | ⟨poolEvent, poolStepped, quiet⟩⟩ | ⟨thread, _, rfl, _⟩
      · left
        simp only [toStageRun, same]
      · right
        have allowed : state.toStageRun.isOther poolEvent = true := by
          cases poolEvent <;> first | rfl | cases quiet
        exact ⟨.pool poolEvent, poolStep_of_step allowed poolStepped⟩
      · right
        simp only [isOther, decide_eq_true_eq] at other
        have poolStepped := execute_eq once executorStepped other
        have allowed : state.toStageRun.isOther
            (.answer thread state.systems.length .Done) = true := by
          simp [StageRun.isOther, toStageRun]
        exact ⟨.pool _, poolStep_of_step allowed poolStepped⟩
  | call thread =>
      rcases inFunction_eq (call_local thread) stepped with ⟨called, same⟩
      exact ⟨Or.inr ⟨.call thread, called⟩, Or.inl same⟩
  | instruct thread =>
      rcases inFunction_eq (instruct_local thread) stepped with ⟨instructed, same⟩
      exact ⟨Or.inr ⟨.instruct thread, instructed⟩, Or.inl same⟩
  | returns thread =>
      simp only [step, returns, Option.bind_eq_bind, Option.bind_eq_some_iff] at stepped
      rcases stepped with ⟨job, current, ⟨program, handles⟩, here, stepped⟩
      cases program with
      | panic => cases stepped
      | step instruction onwards => cases stepped
      | finish =>
          simp only [Option.bind_eq_some_iff, Option.pure_def, Option.some.injEq] at stepped
          rcases stepped with ⟨executors, executorStepped, rfl⟩
          have poolStepped := execute_eq once executorStepped current
          have answered : state.toStageRun.pool.answer thread job .Done = some executors.pool :=
            poolStepped
          have ended : state.toStageRun.calls job = some (.finish, handles) := here
          refine ⟨Or.inr ⟨.returns thread, ?_⟩, Or.inr ⟨_, executorStepped⟩⟩
          simp only [StageRun.step, StageRun.returns, current, Option.bind_eq_bind,
            Option.bind_some, ended, answered]
          rfl

end StageExecution

end Projection

section Runs

variable {Value : Type} [CommandSentinelTypeId] {stage : SystemStage (Program Value)}
  {schedule : Schedule} {history : List QueryProperties}
  {graph : HomogeneousJobGraph (ErasedSystem (Program Value))} {w : World Value}
  {workers caller : Nat} {state next : StageExecution Value}

namespace StageExecution

/-- The threads and the stage are where runs of theirs have led them, and the caller returns
after all systems have. -/
structure Sound (stage : SystemStage (Program Value)) (schedule : Schedule)
    (graph : HomogeneousJobGraph (ErasedSystem (Program Value))) (w : World Value)
    (workers caller : Nat) (state : StageExecution Value) : Prop where
  executors : Executors.Sound graph workers caller (fun _ => 0) state.executors
  once : ∀ job, state.executors.again job = 0
  follows : ∃ events active middle,
    StageRun.Follows stage schedule graph w events active middle state.toStageRun ∧
      (Executors.Returned state.executors →
        ∀ i < stage.systems.length, i ∈ finished stage events)

theorem sound_start (scheduled : Scheduled stage schedule history graph)
    (inRange : caller ≤ workers) :
    Sound stage schedule graph w workers caller
      (start stage.systems graph workers caller w) where
  executors := Executors.sound_runGraph inRange
  once _ := rfl
  follows := by
    refine ⟨[], [], w, StageRun.follows_start scheduled workers caller, ?_⟩
    intro returned
    rcases Executors.control_runGraph returned with same | same <;> cases same

theorem Sound.step (sound : Sound stage schedule graph w workers caller state)
    (scheduled : Scheduled stage schedule history graph) (intact : stage.Intact w)
    {event : StageExecutionEvent} (stepped : state.step event = some next) :
    Sound stage schedule graph w workers caller next := by
  rcases step_stage sound.once stepped with ⟨stageStepped, executorStepped⟩
  rcases sound.follows with ⟨events, active, middle, follows, all⟩
  have handle : state.executors.handle = graph.root := by
    rcases sound.executors.follows with ⟨_, executorFollows⟩
    exact executorFollows.handle
  obtain ⟨more, activeNext, middleNext, followsNext⟩ : ∃ more active middle,
      StageRun.Follows stage schedule graph w (events ++ more) active middle
        next.toStageRun := by
    rcases stageStepped with same | ⟨stageEvent, stageStepped⟩
    · exact ⟨[], active, middle, same ▸ (List.append_nil events).symm ▸ follows⟩
    · exact follows.step scheduled intact stageStepped
  have stays : (∀ i < stage.systems.length, i ∈ finished stage events) →
      ∀ i < stage.systems.length, i ∈ finished stage (events ++ more) := by
    intro all i inside
    rw [finished, Pool.doneIds_append, List.filter_append]
    exact List.mem_append_left _ (all i inside)
  rcases executorStepped with same | ⟨executorEvent, executorStepped⟩
  · refine ⟨same ▸ sound.executors, same ▸ sound.once, _, _, _, followsNext, ?_⟩
    intro returned
    exact stays (all (same ▸ returned))
  · refine ⟨sound.executors.step scheduled.acyclic executorStepped,
      once_step sound.once executorStepped, _, _, _, followsNext, ?_⟩
    intro returned
    rcases Executors.returned_step executorStepped returned with already | done
    · exact stays (all already)
    · rw [handle] at done
      exact stays (follows.all_of_done scheduled done)

theorem Sound.run (sound : Sound stage schedule graph w workers caller state)
    (scheduled : Scheduled stage schedule history graph) (intact : stage.Intact w)
    {events : List StageExecutionEvent}
    (ran : events.foldlM StageExecution.step state = some next) :
    Sound stage schedule graph w workers caller next :=
  foldlM_preserves (Sound stage schedule graph w workers caller)
    (fun sound stepped => sound.step scheduled intact stepped) sound ran

/-- The stage has returned with the world that the sorted run leaves. -/
theorem Sound.runSorted (sound : Sound stage schedule graph w workers caller state)
    (scheduled : Scheduled stage schedule history graph) (intact : stage.Intact w)
    (returned : Executors.Returned state.executors) :
    stage.runSorted w = some ((), state.world) := by
  rcases sound.follows with ⟨events, active, middle, follows, all⟩
  exact follows.runSorted scheduled intact (all returned)

section Lifting

variable {after : World Value} {thread : Nat} {job : Todos}

omit [CommandSentinelTypeId] in
theorem inFunction_of_step (step : StageRun Value → Option (StageRun Value))
    {stepped : StageRun Value} (steps : step state.toStageRun = some stepped) :
    ∃ next, state.inFunction step = some next :=
  ⟨_, by rw [inFunction, steps]; rfl⟩

/-- A call can go on until it only has to return, and the pool does not notice. -/
theorem Sound.finishes (scheduled : Scheduled stage schedule history graph)
    (intact : stage.Intact w) (sorted : stage.runSorted w = some ((), after))
    (inside : job < stage.systems.length) (program : Program Value) (handles : Handles)
    (sound : Sound stage schedule graph w workers caller state)
    (current : state.toStageRun.current thread = some job)
    (here : state.calls job = some (program, handles)) :
    Reaches StageExecution.step state fun last =>
      Sound stage schedule graph w workers caller last ∧ last.executors = state.executors ∧
        ∃ handles, last.calls job = some (.finish, handles) := by
  induction program generalizing state handles with
  | finish => exact .here ⟨sound, rfl, handles, here⟩
  | panic =>
      rcases sound.follows with ⟨events, active, middle, follows, _⟩
      rcases ((follows.goesOn scheduled intact sorted current inside).2 _ here).2 (by simp) with
        ⟨next, stepped⟩
      have stuck : state.toStageRun.calls job = some (.panic, handles) := here
      simp [StageRun.instruct, current, stuck, SystemCall.act] at stepped
  | step instruction onwards induction =>
      rcases sound.follows with ⟨events, active, middle, follows, _⟩
      rcases ((follows.goesOn scheduled intact sorted current inside).2 _ here).2 (by simp) with
        ⟨stageNext, stageStepped⟩
      rcases inFunction_of_step (fun stage => stage.instruct thread) stageStepped with
        ⟨next, stepped⟩
      rcases inFunction_eq (instruct_local thread) stepped with ⟨instructed, same⟩
      have instructs : state.step (.instruct thread) = some next := stepped
      have goesOn : ∃ answer handles, next.calls job = some (onwards answer, handles) := by
        have called : state.toStageRun.calls job = some (.step instruction onwards, handles) := here
        simp only [StageRun.instruct, current, called, Option.bind_eq_bind, Option.bind_some,
          Option.bind_eq_some_iff, Option.pure_def, Option.some.injEq] at instructed
        rcases instructed with ⟨⟨call, world⟩, acted, isNext⟩
        rcases SystemCall.act_eq_some.mp acted with ⟨_, _, _, answer, isCall, _, isAfter⟩
        cases isCall
        have calls : next.calls = (({ state.toStageRun with world } : StageRun Value).setCall job
          (some call)).calls := congrArg StageRun.calls isNext.symm
        rw [calls, StageRun.calls_setCall, Function.update_self]
        exact ⟨answer, _, congrArg some isAfter⟩
      rcases goesOn with ⟨answer, handlesNext, hereNext⟩
      have currentNext : next.toStageRun.current thread = some job := by
        rw [← current]
        simp only [StageRun.current, toStageRun, same]
      have reached := induction answer handlesNext (sound.step scheduled intact instructs)
        currentNext hereNext
      rw [same] at reached
      exact .next instructs reached

/-- A system that is executed can run to its end. -/
theorem Sound.executes (scheduled : Scheduled stage schedule history graph)
    (intact : stage.Intact w) (sorted : stage.runSorted w = some ((), after))
    (inside : job < stage.systems.length)
    (sound : Sound stage schedule graph w workers caller state)
    (current : state.toStageRun.current thread = some job) {executors : Executors}
    (executed : state.executors.step (.execute thread) = some executors) :
    Reaches StageExecution.step state fun last =>
      Sound stage schedule graph w workers caller last ∧ last.executors = executors := by
  have fromCall : ∀ {state : StageExecution Value} {call : SystemCall Value},
      Sound stage schedule graph w workers caller state →
      state.toStageRun.current thread = some job →
      state.executors.step (.execute thread) = some executors →
      state.calls job = some call → Reaches StageExecution.step state fun last =>
        Sound stage schedule graph w workers caller last ∧ last.executors = executors := by
    intro state call sound current executed here
    apply (Sound.finishes scheduled intact sorted inside call.1 call.2 sound current here).trans
    rintro last ⟨soundLast, same, handles, ended⟩
    have currentLast : last.toStageRun.current thread = some job := by
      rw [← current]
      simp only [StageRun.current, toStageRun, same]
    have returned : last.step (.returns thread) = some { last with
        executors
        calls := Function.update last.calls job none } := by
      rw [← same] at executed
      simp [StageExecution.step, returns, currentLast, ended, executed]
    exact .next returned (.here ⟨soundLast.step scheduled intact returned, rfl⟩)
  cases here : state.calls job with
  | some call => exact fromCall sound current executed here
  | none =>
      rcases sound.follows with ⟨events, active, middle, follows, _⟩
      rcases (follows.goesOn scheduled intact sorted current inside).1 here with
        ⟨stageNext, stageStepped⟩
      rcases inFunction_of_step (fun stage => stage.call thread) stageStepped with
        ⟨next, stepped⟩
      rcases inFunction_eq (call_local thread) stepped with ⟨called, same⟩
      have calls : state.step (.call thread) = some next := stepped
      have hereNext : ∃ call, next.calls job = some call := by
        simp only [StageRun.call, current, Option.bind_eq_bind, Option.bind_some,
          Option.bind_eq_some_iff, Option.guard_eq_some', Option.pure_def, Option.some.injEq,
          exists_const] at called
        rcases called with ⟨_, sys, _, ⟨call, world⟩, _, isNext⟩
        refine ⟨call, ?_⟩
        have calls : next.calls = (({ state.toStageRun with world } : StageRun Value).setCall job
          (some call)).calls := congrArg StageRun.calls isNext.symm
        rw [calls, StageRun.calls_setCall, Function.update_self]
      rcases hereNext with ⟨call, hereNext⟩
      have currentNext : next.toStageRun.current thread = some job := by
        rw [← current]
        simp only [StageRun.current, toStageRun, same]
      exact .next calls (fromCall (sound.step scheduled intact calls) currentNext
        (same ▸ executed) hereNext)

/-- Whatever the threads can do, they can do with systems for jobs. -/
theorem Sound.lifts (scheduled : Scheduled stage schedule history graph)
    (intact : stage.Intact w) (sorted : stage.runSorted w = some ((), after))
    (sound : Sound stage schedule graph w workers caller state) {event : ExecutorEvent}
    {executors : Executors} (stepped : state.executors.step event = some executors) :
    Reaches StageExecution.step state fun last =>
      Sound stage schedule graph w workers caller last ∧ last.executors = executors := by
  have direct : state.isOther event = true → Reaches StageExecution.step state fun last =>
      Sound stage schedule graph w workers caller last ∧ last.executors = executors := by
    intro other
    have steps : state.step (.executor event) = some { state with executors } := by
      simp [StageExecution.step, executorStep, other, stepped]
    exact .next steps (.here ⟨sound.step scheduled intact steps, rfl⟩)
  cases event with
  | execute thread =>
      rcases (Executors.acts_step stepped).pool with ⟨_, notExecuted, _⟩ |
        ⟨_, job, same, _, poolStepped, _⟩
      · exact absurd rfl (notExecuted thread)
      · cases same
        have answers : state.executors.pool.answer thread job
            (answerOf (state.executors.again job)) = some executors.pool := poolStepped
        rcases Pool.answer_eq answers with ⟨running, stack, found, isJob, _⟩
        have current : state.toStageRun.current thread = some job := by
          simp [StageRun.current, toStageRun, found, Job.idle, isJob]
        by_cases inside : job < stage.systems.length
        · exact Sound.executes scheduled intact sorted inside sound current stepped
        · apply direct
          rcases sound.follows with ⟨events, active, middle, follows, _⟩
          have member : running.idle ∈ state.toStageRun.pool.all := by
            apply List.mem_append_right
            apply List.mem_append_right
            exact List.mem_flatten.mpr ⟨_, List.mem_of_getElem? found, List.mem_cons_self⟩
          have below := follows.tracks.le_root member
          rw [HomogeneousJobGraph.root, scheduled.root, isJob] at below
          have systems : state.systems = stage.systems := follows.systems
          simp only [isOther, current, systems, decide_eq_true_eq, Option.some.injEq]
          exact Nat.le_antisymm below (Nat.not_lt.mp inside)
  | _ => exact direct rfl

/-- If the sorted run returns, so can the stage, with the same world. -/
theorem Sound.returns (sound : Sound stage schedule graph w workers caller state)
    (scheduled : Scheduled stage schedule history graph) (intact : stage.Intact w)
    (sorted : stage.runSorted w = some ((), after)) :
    Reaches StageExecution.step state fun last =>
      Executors.Returned last.executors ∧ last.world = after := by
  have path : ∀ (events : List ExecutorEvent) {state : StageExecution Value}
      {executors : Executors}, Sound stage schedule graph w workers caller state →
      events.foldlM Executors.step state.executors = some executors →
      Reaches StageExecution.step state fun last =>
        Sound stage schedule graph w workers caller last ∧ last.executors = executors := by
    intro events
    induction events with
    | nil =>
        intro state executors sound ran
        cases ran
        exact .here ⟨sound, rfl⟩
    | cons event rest induction =>
        intro state executors sound ran
        rw [List.foldlM_cons] at ran
        rcases Option.bind_eq_some_iff.mp ran with ⟨between, stepped, others⟩
        apply (Sound.lifts scheduled intact sorted sound stepped).trans
        rintro next ⟨soundNext, rfl⟩
        exact induction soundNext others
  rcases sound.executors.reaches scheduled.acyclic with ⟨events, last, ran, returned⟩
  apply (path events sound ran).mono
  rintro final ⟨soundFinal, rfl⟩
  refine ⟨returned, ?_⟩
  have same := soundFinal.runSorted scheduled intact returned
  rw [sorted, Option.some.injEq, Prod.mk.injEq] at same
  exact same.2.symm

end Lifting

/-- Whatever the threads have done so far: if the stage has returned, the world is as the sorted
run leaves it; and if the sorted run returns, the stage can still return. -/
theorem agrees_with_runSorted {builder : SystemStageBuilder (Program Value)}
    (built : builder.build = some stage) (made : Schedule.fromStage stage = some schedule)
    (jobs : schedule.jobs stage.systems = some graph) (intact : stage.Intact w)
    (inRange : caller ≤ workers) {events : List StageExecutionEvent}
    (ran : events.foldlM StageExecution.step (start stage.systems graph workers caller w) =
      some state) :
    (Executors.Returned state.executors → stage.runSorted w = some ((), state.world)) ∧
    ∀ after, stage.runSorted w = some ((), after) → Reaches StageExecution.step state fun last =>
      Executors.Returned last.executors ∧ last.world = after := by
  rcases Schedule.fromStage_recorded made with ⟨history, recorded⟩
  have scheduled : Scheduled stage schedule history graph :=
    ⟨recorded, Schedule.fromStage_forward built made, jobs⟩
  have sound := (sound_start scheduled inRange).run scheduled intact ran
  exact ⟨sound.runSorted scheduled intact, fun after => sound.returns scheduled intact⟩

end StageExecution

end Runs

section Example

open Sample

/-- The worker steals the first system; its instructions interleave with those of the second. -/
def threadSteps : List StageExecutionEvent :=
  [.executor (.enqueue .addChild), .executor (.enqueue .checkReady), .executor (.enqueue .push),
    .executor (.pop 0), .executor (.skip 0), .executor (.steal 0 (.Success 1)),
    .executor (.pop 0), .call 0, .instruct 0, .executor (.enqueue .addChild),
    .executor (.enqueue .checkReady), .executor (.enqueue .push),
    .executor (.enqueue .addChild), .executor (.enqueue .checkReady),
    .executor (.enqueue .push), .executor (.enqueue .takeRoot),
    .executor (.enqueue .checkReady), .executor (.enqueue .push), .executor .test,
    .executor (.pop 1), .call 1, .instruct 0, .instruct 1, .returns 0, .executor (.release 0),
    .executor (.release 0), .returns 1, .executor (.finish 0), .executor (.release 1),
    .executor (.release 1), .executor (.finish 1), .executor .test, .executor (.pop 1),
    .executor (.skip 1), .executor (.steal 1 .Empty), .executor (.stealEnds 1),
    .executor (.promote 1), .executor (.promote 1), .executor (.promoteEnds 1),
    .executor .test, .executor (.pop 1), .call 1, .instruct 1, .returns 1,
    .executor (.release 1), .executor (.finish 1), .executor .test, .executor (.pop 1),
    .executor (.skip 1), .executor (.steal 1 .Empty), .executor (.stealEnds 1),
    .executor (.promote 1), .executor (.promoteEnds 1), .executor .test, .executor (.pop 1),
    .executor (.execute 1), .executor (.finish 1), .executor .test]

theorem StageExecution.agrees_with_runSorted_sample : ∃ (w : World Nat)
    (state : StageExecution Nat), threadSteps.foldlM StageExecution.step
        (StageExecution.start threeSystems.systems threeJobs 1 1 w) = some state ∧
      SystemStage.runSorted ⟨threeSystems.systems⟩ w = some ((), state.world) := by
  have built : threeSystems.build = some ⟨threeSystems.systems⟩ := rfl
  have made : Schedule.fromStage ⟨threeSystems.systems⟩ = some ⟨[[], [], [1, 0]]⟩ := rfl
  have jobs : Schedule.jobs ⟨[[], [], [1, 0]]⟩ threeSystems.systems = some threeJobs := rfl
  obtain ⟨start, resized, w, state, created, resize, insert, ran, returned⟩ :
      ∃ (start resized w : World Nat) (state : StageExecution Nat), World.new 4 = some start ∧
        Call.run start (.resizeCommands 3) = some resized ∧
        Call.run resized (.insertResource 7#128 1) = some w ∧
        threadSteps.foldlM StageExecution.step
          (StageExecution.start threeSystems.systems threeJobs 1 1 w) = some state ∧
        Executors.Returned state.executors :=
    ⟨_, _, _, _, rfl, rfl, rfl, rfl, rfl⟩
  exact ⟨w, state, ran, (StageExecution.agrees_with_runSorted built made jobs
    (intact_threeSystems created resize insert) (Nat.le_refl 1) ran).1 returned⟩

end Example

end Cecs

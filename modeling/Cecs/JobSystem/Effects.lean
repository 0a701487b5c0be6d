import Cecs.Foundation.Buckets
import Cecs.JobSystem.Pool

/-! # What a step of a pool does

Most steps only move a job. The others add the root to a job, begin and end the
hand-over of a job that is done to its children, or decrement one counter. -/

namespace Cecs

namespace JobSystem

open Foundation

namespace Execution

def todos (self : Execution) : Todos := self.job.tasksLeft

/-- It is not done. -/
def isPending (self : Execution) : Bool := self.left.isNone

/-- The decrements that are still to come. -/
def tokens (self : Execution) : List Todos := self.todos :: self.left.getD self.job.children

@[simp] theorem todos_idle (job : Job) : job.idle.todos = job.tasksLeft := rfl

@[simp] theorem isPending_idle (job : Job) : job.idle.isPending = true := rfl

theorem eq_idle {execution : Execution} (pending : execution.isPending = true) :
    execution = execution.job.idle := by
  rcases execution with ⟨job, left⟩
  rw [isPending, Option.isNone_iff_eq_none] at pending
  rw [Job.idle, Execution.mk.injEq]
  exact ⟨rfl, pending⟩

end Execution

namespace Pool

/-- The jobs that the loop of `run_graph` has not come to. -/
def unentered (self : Pool) : List Job := self.rest.elim [] fun (jobs, root) => jobs ++ [root]

/-- The others, with the caller, in queues, in wait lists or under execution. -/
def entered (self : Pool) : List Execution :=
  ((self.atHand.toList.map Prod.fst ++ self.runnableQueues.flatten ++
    self.waitLists.flatten).map Job.idle) ++ self.executing.flatten

def all (self : Pool) : List Execution := self.unentered.map Job.idle ++ self.entered

/-- The jobs that were found ready and are not done. -/
def cleared (self : Pool) : List Job :=
  (self.atHand.toList.filter fun entry => entry.2 = some true).map Prod.fst ++
    self.runnableQueues.flatten ++
    (self.executing.flatten.filter Execution.isPending).map Execution.job

/-- What the step does, up to the places of the jobs. -/
inductive Effect (pool : Pool) (event : PoolEvent) (next : Pool) : Prop where
  | moves (quiet : ∀ thread job, event ≠ .answer thread job .Done)
      (counters : next.counters = pool.counters) (rest : next.rest = pool.rest)
      (entered : next.entered.Perm pool.entered)
      (cleared : ∀ job ∈ next.cleared, job ∈ pool.cleared ∨ job.ready pool.counters = true)
  | addsChild {job root : Job} {jobs : List Job} (event_eq : event = .addChild)
      (rest : pool.rest = some (job :: jobs, root)) (restNext : next.rest = some (jobs, root))
      (counters : next.counters = fetchAdd pool.counters root.tasksLeft)
      (entered : next.entered.Perm ((job.addChild root.tasksLeft).idle :: pool.entered))
      (cleared : next.cleared = pool.cleared)
  | takesRoot {root : Job} (event_eq : event = .takeRoot) (rest : pool.rest = some ([], root))
      (restNext : next.rest = none) (counters : next.counters = pool.counters)
      (entered : next.entered.Perm (root.idle :: pool.entered))
      (cleared : next.cleared = pool.cleared)
  | done {thread : Nat} {job : Job} {others : List Execution}
      (event_eq : event = .answer thread job.tasksLeft .Done) (rest : next.rest = pool.rest)
      (counters : next.counters = pool.counters)
      (entered : pool.entered.Perm (job.idle :: others))
      (enteredNext : next.entered.Perm (⟨{ job with data := false }, some job.children⟩ :: others))
      (cleared : pool.cleared.Perm (job :: next.cleared))
  | releases {thread : Nat} {job : Job} {dep : Todos} {left : List Todos}
      {others : List Execution} (event_eq : event = .release thread)
      (rest : next.rest = pool.rest) (counters : next.counters = fetchSub pool.counters dep)
      (entered : pool.entered.Perm (⟨job, some (dep :: left)⟩ :: others))
      (enteredNext : next.entered.Perm (⟨job, some left⟩ :: others))
      (cleared : next.cleared.Perm pool.cleared)
  | finishes {thread : Nat} {job : Job} {others : List Execution}
      (event_eq : event = .finish thread) (rest : next.rest = pool.rest)
      (counters : next.counters = fetchSub pool.counters job.tasksLeft)
      (entered : pool.entered.Perm (⟨job, some []⟩ :: others))
      (enteredNext : next.entered.Perm others) (cleared : next.cleared.Perm pool.cleared)

section Places

variable {pool next : Pool} {thread : Nat} {job : Job} {queue waitList : List Job}
  {stack : List Execution}

theorem mem_cleared : job ∈ pool.cleared ↔ pool.atHand = some (job, some true) ∨
    job ∈ pool.runnableQueues.flatten ∨
      ∃ execution ∈ pool.executing.flatten, execution.isPending = true ∧ execution.job = job := by
  simp only [cleared, List.mem_append, List.mem_map, List.mem_filter, Option.mem_toList,
    decide_eq_true_eq, Prod.exists, or_assoc, and_assoc]
  constructor
  · rintro (⟨_, _, atHand, rfl, rfl⟩ | others)
    · exact Or.inl atHand
    · exact Or.inr others
  · rintro (atHand | others)
    · exact Or.inl ⟨_, _, atHand, rfl, rfl⟩
    · exact Or.inr others

/-- A queue is replaced. -/
theorem entered_setQueue (found : pool.runnableQueues[thread]? = some queue) (other : List Job) :
    ((pool.setQueue thread other).entered ++ queue.map Job.idle).Perm
      (pool.entered ++ other.map Job.idle) := by
  rw [List.perm_iff_count]
  intro execution
  have queues := count_map_flatten_set Job.idle found other execution
  simp only [entered, setQueue, List.map_append, List.count_append]
  omega

theorem cleared_setQueue (found : pool.runnableQueues[thread]? = some queue) (other : List Job) :
    ((pool.setQueue thread other).cleared ++ queue).Perm
      (pool.cleared ++ other) := by
  rw [List.perm_iff_count]
  intro job
  have queues := (flatten_set_perm found other).count_eq job
  simp only [cleared, setQueue, List.count_append] at queues ⊢
  omega

theorem entered_setWaitList (found : pool.waitLists[thread]? = some waitList)
    (other : List Job) :
    ((pool.setWaitList thread other).entered ++ waitList.map Job.idle).Perm
      (pool.entered ++ other.map Job.idle) := by
  rw [List.perm_iff_count]
  intro execution
  have waiting := count_map_flatten_set Job.idle found other execution
  simp only [entered, setWaitList, List.map_append, List.count_append]
  omega

theorem entered_setStack (found : pool.executing[thread]? = some stack)
    (other : List Execution) :
    ((pool.setStack thread other).entered ++ stack).Perm
      (pool.entered ++ other) := by
  rw [List.perm_iff_count]
  intro execution
  have moved := (flatten_set_perm found other).count_eq execution
  simp only [entered, setStack, List.count_append] at moved ⊢
  omega

theorem cleared_setStack (found : pool.executing[thread]? = some stack)
    (other : List Execution) :
    ((pool.setStack thread other).cleared ++
        (stack.filter Execution.isPending).map Execution.job).Perm
      (pool.cleared ++ (other.filter Execution.isPending).map Execution.job) := by
  rw [List.perm_iff_count]
  intro job
  have moved := (((flatten_set_perm found other).filter Execution.isPending).map
    Execution.job).count_eq job
  simp only [cleared, setStack, List.filter_append, List.map_append, List.count_append] at moved ⊢
  omega

/-- The innermost execution of a thread. -/
theorem entered_top {top : Execution} (found : pool.executing[thread]? = some (top :: stack)) :
    pool.entered.Perm (top :: (pool.setStack thread stack).entered) := by
  rw [List.perm_iff_count]
  intro execution
  have moved := (entered_setStack found stack).count_eq execution
  simp only [List.count_append, List.count_cons] at moved ⊢
  omega

theorem entered_replaceTop {top : Execution}
    (found : pool.executing[thread]? = some (top :: stack)) (other : Execution) :
    (pool.setStack thread (other :: stack)).entered.Perm
      (other :: (pool.setStack thread stack).entered) := by
  rw [List.perm_iff_count]
  intro execution
  have moved := (entered_setStack found stack).count_eq execution
  have replaced := (entered_setStack found (other :: stack)).count_eq execution
  simp only [List.count_append, List.count_cons] at moved replaced ⊢
  omega

theorem cleared_setStack_of_done {top : Execution} {other : List Execution}
    (found : pool.executing[thread]? = some (top :: stack)) (done : top.isPending = false)
    (same : other.filter Execution.isPending = stack.filter Execution.isPending) :
    (pool.setStack thread other).cleared.Perm pool.cleared := by
  rw [List.perm_iff_count]
  intro job
  have moved := (cleared_setStack found other).count_eq job
  rw [same, List.filter_cons_of_neg (Bool.not_eq_true _ ▸ done)] at moved
  simp only [List.count_append] at moved
  omega

/-- A job that has not answered is cleared. -/
theorem cleared_setStack_of_running {other : List Execution}
    (found : pool.executing[thread]? = some (job.idle :: stack))
    (same : other.filter Execution.isPending = stack.filter Execution.isPending) :
    pool.cleared.Perm (job :: (pool.setStack thread other).cleared) := by
  rw [List.perm_iff_count]
  intro cleared
  have moved := (cleared_setStack found other).count_eq cleared
  have running : job.idle.job = job := rfl
  rw [same, List.filter_cons_of_pos (Execution.isPending_idle job), List.map_cons,
    running] at moved
  simp only [List.count_append, List.count_cons] at moved ⊢
  omega

/-- A job at the end of a queue. -/
theorem pushRunnable_spec (pushed : pool.pushRunnable thread job = some next) :
    next.counters = pool.counters ∧ next.rest = pool.rest ∧
      next.entered.Perm (job.idle :: pool.entered) ∧ next.cleared.Perm (job :: pool.cleared) := by
  simp only [pushRunnable, Option.bind_eq_bind, Option.bind_eq_some_iff, Option.pure_def,
    Option.some.injEq] at pushed
  rcases pushed with ⟨queue, found, rfl⟩
  refine ⟨rfl, rfl, ?_, ?_⟩
  · rw [List.perm_iff_count]
    intro execution
    have queues := (entered_setQueue found (queue ++ [job])).count_eq execution
    simp only [List.map_append, List.map_cons, List.map_nil, List.count_append, List.count_cons,
      List.count_nil] at queues ⊢
    omega
  · rw [List.perm_iff_count]
    intro other
    have queues := (cleared_setQueue found (queue ++ [job])).count_eq other
    simp only [List.count_append, List.count_cons, List.count_nil] at queues ⊢
    omega

theorem pushWaiting_spec (pushed : pool.pushWaiting thread job = some next) :
    next.counters = pool.counters ∧ next.rest = pool.rest ∧
      next.entered.Perm (job.idle :: pool.entered) ∧ next.cleared = pool.cleared := by
  simp only [pushWaiting, Option.bind_eq_bind, Option.bind_eq_some_iff, Option.pure_def,
    Option.some.injEq] at pushed
  rcases pushed with ⟨waitList, found, rfl⟩
  refine ⟨rfl, rfl, ?_, rfl⟩
  rw [List.perm_iff_count]
  intro execution
  have waiting := (entered_setWaitList found (waitList ++ [job])).count_eq execution
  simp only [List.map_append, List.map_cons, List.map_nil, List.count_append, List.count_cons,
    List.count_nil] at waiting ⊢
  omega

end Places

section Steps

variable {pool next : Pool} {event : PoolEvent}

theorem addChild_effect (stepped : pool.addChild = some next) : Effect pool .addChild next := by
  rw [addChild] at stepped
  split at stepped
  · rename_i job jobs root nobody rest
    cases stepped
    refine .addsChild rfl rest rfl rfl ?_ ?_
    · simp [entered, nobody]
    · simp [cleared, nobody]
  · cases stepped

theorem takeRoot_effect (stepped : pool.takeRoot = some next) : Effect pool .takeRoot next := by
  rw [takeRoot] at stepped
  split at stepped
  · rename_i root nobody rest
    cases stepped
    refine .takesRoot rfl rest rfl rfl ?_ ?_
    · simp [entered, nobody]
    · simp [cleared, nobody]
  · cases stepped

theorem checkReady_effect (stepped : pool.checkReady = some next) :
    Effect pool .checkReady next := by
  rw [checkReady] at stepped
  split at stepped
  · rename_i job atHand
    cases stepped
    refine .moves (fun _ _ => nofun) rfl rfl ?_ ?_
    · simp [entered, atHand]
    · intro other member
      rw [mem_cleared] at member ⊢
      rcases member with answered | others
      · rw [Option.some.injEq, Prod.mk.injEq, Option.some.injEq] at answered
        rcases answered with ⟨rfl, ready⟩
        exact Or.inr ready
      · exact Or.inl (Or.inr others)
  · cases stepped

theorem push_effect (stepped : pool.push = some next) : Effect pool .push next := by
  rw [push] at stepped
  split at stepped
  · rename_i job atHand
    rcases pushRunnable_spec stepped with ⟨counters, rest, entered, cleared⟩
    refine .moves (fun _ _ => nofun) counters rest ?_ ?_
    · simpa [Pool.entered, atHand] using entered
    · intro other member
      left
      simpa [Pool.cleared, atHand] using cleared.mem_iff.mp member
  · rename_i job atHand
    rcases pushWaiting_spec stepped with ⟨counters, rest, entered, cleared⟩
    refine .moves (fun _ _ => nofun) counters rest ?_ ?_
    · simpa [Pool.entered, atHand] using entered
    · intro other member
      left
      rw [cleared] at member
      simpa [Pool.cleared, atHand] using member
  · cases stepped

theorem pop_effect {thread : Nat} {job : Todos} (stepped : pool.pop thread job = some next) :
    Effect pool (.pop thread job) next ∧ ∃ taken ∈ pool.cleared, taken.tasksLeft = job := by
  simp only [pop, Option.bind_eq_bind, Option.bind_eq_some_iff, Option.guard_eq_some',
    exists_const] at stepped
  rcases stepped with ⟨queue, found, stack, foundStack, _, stepped⟩
  cases queue with
  | nil => cases stepped
  | cons taken queue =>
      simp only [Option.bind_eq_some_iff, Option.guard_eq_some', Option.pure_def,
        Option.some.injEq, exists_const] at stepped
      rcases stepped with ⟨rfl, rfl⟩
      have foundNext : (pool.setQueue thread queue).executing[thread]? = some stack := foundStack
      have listed : taken ∈ pool.runnableQueues.flatten :=
        List.mem_flatten.mpr ⟨_, List.mem_of_getElem? found, List.mem_cons_self ..⟩
      refine ⟨.moves (fun _ _ => nofun) rfl rfl ?_ ?_, taken,
        mem_cleared.mpr (Or.inr (Or.inl listed)), rfl⟩
      · rw [List.perm_iff_count]
        intro execution
        have queues := (entered_setQueue found queue).count_eq execution
        have moved := (entered_setStack foundNext (taken.idle :: stack)).count_eq execution
        simp only [List.map_cons, List.count_append, List.count_cons] at queues moved
        omega
      · have same : ((pool.setQueue thread queue).setStack thread
            (taken.idle :: stack)).cleared.Perm pool.cleared := by
          rw [List.perm_iff_count]
          intro other
          have queues := (cleared_setQueue found queue).count_eq other
          have moved := (cleared_setStack foundNext (taken.idle :: stack)).count_eq other
          rw [List.filter_cons_of_pos (Execution.isPending_idle taken)] at moved
          simp only [List.map_cons, List.count_append, List.count_cons] at queues moved
          have running : taken.idle.job = taken := rfl
          rw [running] at moved
          omega
        exact fun other member => Or.inl (same.mem_iff.mp member)

theorem steal_effect {thread victim count : Nat}
    (stepped : pool.steal thread victim count = some next) :
    Effect pool (.steal thread victim count) next := by
  simp only [steal, Option.bind_eq_bind, Option.bind_eq_some_iff, Option.guard_eq_some',
    Option.pure_def, Option.some.injEq, exists_const] at stepped
  rcases stepped with ⟨different, queue, found, others, foundVictim, rfl⟩
  have moved := flatten_transfer_perm different foundVictim found count
  refine .moves (fun _ _ => nofun) rfl rfl ?_ ?_
  · exact (((moved.append_left _).append_right _).map Job.idle).append_right _
  · exact fun other member =>
      Or.inl (((moved.append_left _).append_right _).mem_iff.mp member)

theorem promote_effect {thread position : Nat}
    (stepped : pool.promote thread position = some next) :
    Effect pool (.promote thread position) next := by
  simp only [promote, Option.bind_eq_bind, Option.bind_eq_some_iff] at stepped
  rcases stepped with ⟨waitList, found, job, foundJob, stepped⟩
  split at stepped
  · rename_i ready
    rcases pushRunnable_spec stepped with ⟨counters, rest, entered, cleared⟩
    refine .moves (fun _ _ => nofun) counters rest ?_ ?_
    · refine entered.trans ?_
      rw [List.perm_iff_count]
      intro execution
      have waiting := (entered_setWaitList found (swapRemove waitList position)).count_eq execution
      have removed := ((perm_swapRemove foundJob).map Job.idle).count_eq execution
      simp only [List.map_cons, List.count_append, List.count_cons] at waiting removed ⊢
      omega
    · intro other member
      rcases List.mem_cons.mp (cleared.mem_iff.mp member) with rfl | member
      · exact Or.inr ready
      · exact Or.inl member
  · cases stepped
    exact .moves (fun _ _ => nofun) rfl rfl (.refl _) fun other member => Or.inl member

theorem answer_effect {thread : Nat} {job : Todos} {state : ExecutionState}
    (stepped : pool.answer thread job state = some next) :
    Effect pool (.answer thread job state) next := by
  simp only [answer, Option.bind_eq_bind, Option.bind_eq_some_iff] at stepped
  rcases stepped with ⟨stack, found, stepped⟩
  split at stepped
  · rename_i running stack
    simp only [Option.bind_eq_some_iff, Option.guard_eq_some', exists_const] at stepped
    rcases stepped with ⟨rfl, stepped⟩
    change pool.executing[thread]? = some (running.idle :: stack) at found
    cases state with
    | Done =>
        cases stepped
        exact .done rfl rfl rfl (entered_top found) (entered_replaceTop found _)
          (cleared_setStack_of_running found rfl)
    | Reenqueue =>
        rcases pushRunnable_spec stepped with ⟨counters, rest, entered, cleared⟩
        refine .moves (fun _ _ => nofun) counters rest (entered.trans (entered_top found).symm) ?_
        intro other member
        left
        exact ((cleared_setStack_of_running found rfl).mem_iff).mpr (cleared.mem_iff.mp member)
  · cases stepped

theorem release_effect {thread : Nat} (stepped : pool.release thread = some next) :
    Effect pool (.release thread) next := by
  simp only [release, Option.bind_eq_bind, Option.bind_eq_some_iff] at stepped
  rcases stepped with ⟨stack, found, stepped⟩
  split at stepped
  · cases stepped
    exact .releases rfl rfl rfl (entered_top found) (entered_replaceTop found _)
      (cleared_setStack_of_done found rfl rfl)
  · cases stepped

theorem finish_effect {thread : Nat} (stepped : pool.finish thread = some next) :
    Effect pool (.finish thread) next := by
  simp only [finish, Option.bind_eq_bind, Option.bind_eq_some_iff] at stepped
  rcases stepped with ⟨stack, found, stepped⟩
  split at stepped
  · cases stepped
    exact .finishes rfl rfl rfl (entered_top found) (.refl _)
      (cleared_setStack_of_done found rfl rfl)
  · cases stepped

/-- What the steps of a pool can do. -/
theorem step_effect (stepped : pool.step event = some next) : Effect pool event next := by
  cases event with
  | addChild => exact addChild_effect stepped
  | takeRoot => exact takeRoot_effect stepped
  | checkReady => exact checkReady_effect stepped
  | push => exact push_effect stepped
  | pop thread job => exact (pop_effect stepped).1
  | steal thread victim count => exact steal_effect stepped
  | promote thread position => exact promote_effect stepped
  | answer thread job state => exact answer_effect stepped
  | release thread => exact release_effect stepped
  | finish thread => exact finish_effect stepped

end Steps

end Pool

end JobSystem

end Cecs

import Cecs.JobSystem.Executor

/-! # What executors do to a pool

A thread touches its own stack and wait list only, and has a job on its stack exactly
while it executes. Each step is a step of the pool or changes nothing there, so the
accounts of the pool are right whatever the threads do. -/

namespace Cecs

namespace JobSystem

open Foundation

namespace Pool

/-- Only the thread's own stack and wait list differ; jobs may change queues. -/
structure Local (thread : Nat) (pool next : Pool) : Prop where
  caller : next.caller = pool.caller
  queues : next.runnableQueues.length = pool.runnableQueues.length
  waitLists : next.waitLists.length = pool.waitLists.length
  executing : next.executing.length = pool.executing.length
  waitList : ∀ other ≠ thread, next.waitLists[other]? = pool.waitLists[other]?
  stack : ∀ other ≠ thread, next.executing[other]? = pool.executing[other]?

section Local

variable {pool middle next : Pool} {thread : Nat} {job : Job}

theorem Local.refl (thread : Nat) (pool : Pool) : Local thread pool pool :=
  ⟨rfl, rfl, rfl, rfl, fun _ _ => rfl, fun _ _ => rfl⟩

theorem Local.trans (first : Local thread pool middle) (second : Local thread middle next) :
    Local thread pool next where
  caller := second.caller.trans first.caller
  queues := second.queues.trans first.queues
  waitLists := second.waitLists.trans first.waitLists
  executing := second.executing.trans first.executing
  waitList other different := (second.waitList other different).trans
    (first.waitList other different)
  stack other different := (second.stack other different).trans (first.stack other different)

theorem local_setQueue (thread : Nat) (pool : Pool) (position : Nat) (queue : List Job) :
    Local thread pool (pool.setQueue position queue) :=
  ⟨rfl, List.length_set, rfl, rfl, fun _ _ => rfl, fun _ _ => rfl⟩

theorem local_setWaitList (thread : Nat) (pool : Pool) (waitList : List Job) :
    Local thread pool (pool.setWaitList thread waitList) :=
  ⟨rfl, rfl, List.length_set, rfl, fun _ different => List.getElem?_set_ne different.symm,
    fun _ _ => rfl⟩

theorem local_setStack (thread : Nat) (pool : Pool) (stack : List Execution) :
    Local thread pool (pool.setStack thread stack) :=
  ⟨rfl, rfl, rfl, List.length_set, fun _ _ => rfl,
    fun _ different => List.getElem?_set_ne different.symm⟩

/-- The steps of the loop in `run_graph`. -/
theorem local_enqueues {event : PoolEvent} (enqueues : event.enqueues = true)
    (stepped : pool.step event = some next) :
    Local pool.caller pool next ∧ next.executing = pool.executing := by
  cases event with
  | addChild =>
      simp only [step, addChild] at stepped
      split at stepped <;> cases stepped
      exact ⟨⟨rfl, rfl, rfl, rfl, fun _ _ => rfl, fun _ _ => rfl⟩, rfl⟩
  | takeRoot =>
      simp only [step, takeRoot] at stepped
      split at stepped <;> cases stepped
      exact ⟨⟨rfl, rfl, rfl, rfl, fun _ _ => rfl, fun _ _ => rfl⟩, rfl⟩
  | checkReady =>
      simp only [step, checkReady] at stepped
      split at stepped <;> cases stepped
      exact ⟨⟨rfl, rfl, rfl, rfl, fun _ _ => rfl, fun _ _ => rfl⟩, rfl⟩
  | push =>
      simp only [step, push] at stepped
      split at stepped
      · simp only [pushRunnable, Option.bind_eq_bind, Option.bind_eq_some_iff, Option.pure_def,
          Option.some.injEq] at stepped
        rcases stepped with ⟨queue, _, rfl⟩
        exact ⟨⟨rfl, List.length_set, rfl, rfl, fun _ _ => rfl, fun _ _ => rfl⟩, rfl⟩
      · simp only [pushWaiting, Option.bind_eq_bind, Option.bind_eq_some_iff, Option.pure_def,
          Option.some.injEq] at stepped
        rcases stepped with ⟨waitList, _, rfl⟩
        exact ⟨⟨rfl, rfl, List.length_set, rfl,
          fun _ different => List.getElem?_set_ne different.symm, fun _ _ => rfl⟩, rfl⟩
      · cases stepped
  | _ => cases enqueues

/-- The caller of `run_graph` is not in `wait` yet. -/
theorem active_of_enqueues {event : PoolEvent} (enqueues : event.enqueues = true)
    (stepped : pool.step event = some next) : pool.atHand.isSome ∨ pool.rest.isSome := by
  cases event with
  | addChild =>
      simp only [step, addChild] at stepped
      split at stepped
      · simp_all
      · cases stepped
  | takeRoot =>
      simp only [step, takeRoot] at stepped
      split at stepped
      · simp_all
      · cases stepped
  | checkReady =>
      simp only [step, checkReady] at stepped
      split at stepped
      · simp_all
      · cases stepped
  | push =>
      simp only [step, push] at stepped
      split at stepped
      · simp_all
      · simp_all
      · cases stepped
  | _ => cases enqueues

end Local

/-- The jobs that are not done. -/
def pendingIds (self : Pool) : List Todos :=
  (self.all.filter Execution.isPending).map Execution.todos

section Results

variable {pool next : Pool} {thread : Nat}

theorem pop_eq {job : Todos} (stepped : pool.pop thread job = some next) :
    ∃ taken queue stack, pool.runnableQueues[thread]? = some (taken :: queue) ∧
      pool.executing[thread]? = some stack ∧
      next = (pool.setQueue thread queue).setStack thread (taken.idle :: stack) := by
  simp only [pop, Option.bind_eq_bind, Option.bind_eq_some_iff, Option.guard_eq_some',
    exists_const] at stepped
  rcases stepped with ⟨queue, found, stack, foundStack, _, stepped⟩
  cases queue with
  | nil => cases stepped
  | cons taken queue =>
      simp only [Option.bind_eq_some_iff, Option.guard_eq_some', Option.pure_def,
        Option.some.injEq, exists_const] at stepped
      exact ⟨taken, queue, stack, found, foundStack, stepped.2.symm⟩

theorem answer_eq {job : Todos} {state : ExecutionState}
    (stepped : pool.answer thread job state = some next) :
    ∃ running stack, pool.executing[thread]? = some (running.idle :: stack) ∧
      running.tasksLeft = job ∧
      (state = .Done ∧ next = pool.setStack thread
          (⟨{ running with data := false }, some running.children⟩ :: stack) ∨
        state = .Reenqueue ∧ ∃ queue, pool.runnableQueues[thread]? = some queue ∧
          next = (pool.setStack thread stack).setQueue thread (queue ++ [running])) := by
  simp only [answer, Option.bind_eq_bind, Option.bind_eq_some_iff] at stepped
  rcases stepped with ⟨stack, found, stepped⟩
  split at stepped
  · rename_i running stack
    simp only [Option.bind_eq_some_iff, Option.guard_eq_some', exists_const] at stepped
    rcases stepped with ⟨isJob, stepped⟩
    refine ⟨running, stack, found, isJob, ?_⟩
    cases state with
    | Done =>
        cases stepped
        exact Or.inl ⟨rfl, rfl⟩
    | Reenqueue =>
        simp only [pushRunnable, Option.bind_eq_bind, Option.bind_eq_some_iff, Option.pure_def,
          Option.some.injEq] at stepped
        rcases stepped with ⟨queue, foundQueue, rfl⟩
        exact Or.inr ⟨rfl, queue, foundQueue, rfl⟩
  · cases stepped

theorem release_eq (stepped : pool.release thread = some next) :
    ∃ job dep left stack, pool.executing[thread]? = some (⟨job, some (dep :: left)⟩ :: stack) ∧
      next = { pool.setStack thread (⟨job, some left⟩ :: stack) with
        counters := fetchSub pool.counters dep } := by
  simp only [release, Option.bind_eq_bind, Option.bind_eq_some_iff] at stepped
  rcases stepped with ⟨stack, found, stepped⟩
  split at stepped
  · cases stepped
    exact ⟨_, _, _, _, found, rfl⟩
  · cases stepped

theorem finish_eq (stepped : pool.finish thread = some next) :
    ∃ job stack, pool.executing[thread]? = some (⟨job, some []⟩ :: stack) ∧
      next = { pool.setStack thread stack with
        counters := fetchSub pool.counters job.tasksLeft } := by
  simp only [finish, Option.bind_eq_bind, Option.bind_eq_some_iff] at stepped
  rcases stepped with ⟨stack, found, stepped⟩
  split at stepped
  · cases stepped
    exact ⟨_, _, found, rfl⟩
  · cases stepped

theorem steal_eq {victim count : Nat} (stepped : pool.steal thread victim count = some next) :
    thread ≠ victim ∧ ∃ queue others, pool.runnableQueues[thread]? = some queue ∧
      pool.runnableQueues[victim]? = some others ∧
      next = (pool.setQueue victim (others.drop count)).setQueue thread
        (queue ++ others.take count) := by
  simp only [steal, Option.bind_eq_bind, Option.bind_eq_some_iff, Option.guard_eq_some',
    Option.pure_def, Option.some.injEq, exists_const] at stepped
  rcases stepped with ⟨different, queue, found, others, foundVictim, rfl⟩
  exact ⟨different, queue, others, found, foundVictim, rfl⟩

theorem promote_eq {position : Nat} (stepped : pool.promote thread position = some next) :
    ∃ waitList job, pool.waitLists[thread]? = some waitList ∧ waitList[position]? = some job ∧
      (job.ready pool.counters = true ∧ (∃ queue, pool.runnableQueues[thread]? = some queue ∧
          next = (pool.setWaitList thread (swapRemove waitList position)).setQueue thread
            (queue ++ [job])) ∨
        job.ready pool.counters = false ∧ next = pool) := by
  simp only [promote, Option.bind_eq_bind, Option.bind_eq_some_iff] at stepped
  rcases stepped with ⟨waitList, found, job, foundJob, stepped⟩
  refine ⟨waitList, job, found, foundJob, ?_⟩
  split at stepped
  · rename_i ready
    simp only [pushRunnable, Option.bind_eq_bind, Option.bind_eq_some_iff, Option.pure_def,
      Option.some.injEq] at stepped
    rcases stepped with ⟨queue, foundQueue, rfl⟩
    exact Or.inl ⟨ready, queue, foundQueue, rfl⟩
  · rename_i notReady
    cases stepped
    exact Or.inr ⟨Bool.not_eq_true _ ▸ notReady, rfl⟩

end Results

end Pool

namespace Executors

variable {self next : Executors} {thread : Nat}

/-- The thread runs a job exactly while its control says so. -/
def Runs (control : Option Control) (stack : List Execution) : Prop :=
  if control = some .executes then ∃ execution, stack = [execution] else stack = []

/-- Threads are known by their index, and each has a queue, a wait list, a stack, a control and
a `steal_id`. Jobs wait with the caller only. -/
structure Shaped (state : Executors) : Prop where
  caller : state.pool.caller < state.controls.length
  queues : state.pool.runnableQueues.length = state.controls.length
  waitLists : state.pool.waitLists.length = state.controls.length
  executing : state.pool.executing.length = state.controls.length
  stealIds : state.stealIds.length = state.controls.length
  inRange : ∀ stealId ∈ state.stealIds, stealId < state.controls.length
  runs : ∀ (thread : Nat) stack, state.pool.executing[thread]? = some stack →
    Runs state.controls[thread]? stack
  parked : ∀ (thread : Nat) waitList, state.pool.waitLists[thread]? = some waitList →
    thread ≠ state.pool.caller → waitList = []
  promotes : ∀ (thread : Nat) left waitList, state.controls[thread]? = some (.promotes left) →
    state.pool.waitLists[thread]? = some waitList → left ≤ waitList.length
  enqueues : (state.pool.atHand.isSome ∨ state.pool.rest.isSome) →
    state.controls[state.pool.caller]? = some .waits

/-- What a step of a thread may change. -/
structure Touches (thread : Nat) (control : Control) (state next : Executors) : Prop where
  local_ : state.pool.Local thread next.pool
  controls : next.controls = state.controls.set thread control
  stealIds : next.stealIds.length = state.stealIds.length
  inRange : ∀ stealId ∈ next.stealIds, stealId ∈ state.stealIds ∨
    stealId < state.pool.runnableQueues.length

theorem Shaped.touch (shaped : self.Shaped) {control : Control}
    (touches : Touches thread control self next)
    (runs : ∀ stack, next.pool.executing[thread]? = some stack → Runs (some control) stack)
    (parked : ∀ waitList, next.pool.waitLists[thread]? = some waitList →
      thread ≠ self.pool.caller → waitList = [])
    (promotes : ∀ left waitList, control = .promotes left →
      next.pool.waitLists[thread]? = some waitList → left ≤ waitList.length)
    (enqueues : (next.pool.atHand.isSome ∨ next.pool.rest.isSome) →
      next.controls[self.pool.caller]? = some .waits) : next.Shaped := by
  have length : next.controls.length = self.controls.length := by
    rw [touches.controls, List.length_set]
  have others : ∀ other ≠ thread, next.controls[other]? = self.controls[other]? := by
    intro other different
    rw [touches.controls, List.getElem?_set_ne different.symm]
  have own : ∀ value, next.controls[thread]? = some value → value = control := by
    intro value found
    rw [touches.controls, List.getElem?_set_self'] at found
    rcases Option.map_eq_some_iff.mp found with ⟨_, _, same⟩
    exact same.symm
  constructor
  · rw [touches.local_.caller, length]
    exact shaped.caller
  · rw [touches.local_.queues, length]
    exact shaped.queues
  · rw [touches.local_.waitLists, length]
    exact shaped.waitLists
  · rw [touches.local_.executing, length]
    exact shaped.executing
  · rw [touches.stealIds, length]
    exact shaped.stealIds
  · intro stealId member
    rw [length]
    rcases touches.inRange stealId member with before | small
    · exact shaped.inRange stealId before
    · exact shaped.queues ▸ small
  · intro other stack found
    by_cases same : other = thread
    · subst same
      have inControls : other < next.controls.length := by
        rw [length, ← shaped.executing, ← touches.local_.executing]
        exact (List.getElem?_eq_some_iff.mp found).1
      have value := own _ (List.getElem?_eq_getElem inControls)
      rw [List.getElem?_eq_getElem inControls, value]
      exact runs stack found
    · rw [others other same]
      rw [touches.local_.stack other same] at found
      exact shaped.runs other stack found
  · intro other waitList found different
    rw [touches.local_.caller] at different
    by_cases same : other = thread
    · subst same
      exact parked waitList found different
    · rw [touches.local_.waitList other same] at found
      exact shaped.parked other waitList found different
  · intro other left waitList promoting found
    by_cases same : other = thread
    · subst same
      exact promotes left waitList (own _ promoting).symm found
    · rw [others other same] at promoting
      rw [touches.local_.waitList other same] at found
      exact shaped.promotes other left waitList promoting found
  · intro enqueuing
    rw [touches.local_.caller]
    exact enqueues enqueuing

/-- A thread acts that is not the caller at its test. -/
theorem Shaped.act (shaped : self.Shaped) {before control : Control}
    (touches : Touches thread control self next) (atHand : next.pool.atHand = self.pool.atHand)
    (rest : next.pool.rest = self.pool.rest) (acting : self.controls[thread]? = some before)
    (notWaiting : before ≠ .waits)
    (runs : ∀ stack, next.pool.executing[thread]? = some stack → Runs (some control) stack)
    (parked : ∀ waitList, next.pool.waitLists[thread]? = some waitList →
      thread ≠ self.pool.caller → waitList = [])
    (promotes : ∀ left waitList, control = .promotes left →
      next.pool.waitLists[thread]? = some waitList → left ≤ waitList.length) : next.Shaped := by
  apply shaped.touch touches runs parked promotes
  intro enqueuing
  rw [atHand, rest] at enqueuing
  have waiting := shaped.enqueues enqueuing
  have different : self.pool.caller ≠ thread := by
    intro same
    rw [same, acting, Option.some.injEq] at waiting
    exact notWaiting waiting
  rw [touches.controls, List.getElem?_set_ne different.symm]
  exact waiting

section Preservation

theorem eq_of_set {α : Type} {values : List α} {position : Nat} {value found : α}
    (get : (values.set position value)[position]? = some found) : found = value := by
  rw [List.getElem?_set_self'] at get
  rcases Option.map_eq_some_iff.mp get with ⟨_, _, same⟩
  exact same.symm

theorem set_same {α : Type} {values : List α} {position : Nat} {value : α}
    (get : values[position]? = some value) : values.set position value = values := by
  rcases List.getElem?_eq_some_iff.mp get with ⟨inRange, rfl⟩
  exact List.set_getElem_self inRange

theorem runs_resumed (caller : Nat) : Runs (some (if thread = caller then .waits else .starts))
    [] := by
  rw [Runs]
  split <;> rfl

theorem resumed_ne_promotes {caller left : Nat}
    (same : (if thread = caller then Control.waits else .starts) = .promotes left) : False := by
  split at same <;> cases same

theorem Shaped.idle (shaped : self.Shaped) {control : Control} {stack : List Execution}
    (acting : self.controls[thread]? = some control) (notRunning : control ≠ .executes)
    (found : self.pool.executing[thread]? = some stack) : stack = [] := by
  have runs := shaped.runs thread stack found
  rw [acting, Runs, if_neg (fun same => notRunning (Option.some.inj same))] at runs
  exact runs

theorem Shaped.pop (shaped : self.Shaped) (stepped : self.pop thread = some next) :
    next.Shaped := by
  simp only [Executors.pop, Option.bind_eq_bind, Option.bind_eq_some_iff, Option.guard_eq_some',
    exists_const] at stepped
  rcases stepped with ⟨starts, queue, found, stepped⟩
  cases queue with
  | cons job queue =>
      simp only [Option.bind_eq_some_iff, Option.pure_def, Option.some.injEq] at stepped
      rcases stepped with ⟨pool, popped, rfl⟩
      rcases Pool.pop_eq popped with ⟨taken, queue, stack, _, foundStack, rfl⟩
      have empty := shaped.idle starts nofun foundStack
      subst empty
      refine shaped.act ⟨(Pool.local_setQueue thread _ thread queue).trans
        (Pool.local_setStack thread _ _), rfl, rfl, fun _ member => Or.inl member⟩ rfl rfl starts
        nofun ?_ (shaped.parked thread) (fun _ _ => nofun)
      intro stack foundNext
      rw [eq_of_set foundNext, Runs, if_pos rfl]
      exact ⟨_, rfl⟩
  | nil =>
      cases stepped
      refine shaped.act ⟨.refl thread _, rfl, rfl, fun _ member => Or.inl member⟩ rfl rfl starts
        nofun ?_ (shaped.parked thread) (fun _ _ => nofun)
      intro stack foundStack
      rw [shaped.idle starts nofun foundStack]
      rfl

theorem Shaped.execute (shaped : self.Shaped) (stepped : self.execute thread = some next) :
    next.Shaped := by
  simp only [Executors.execute, Option.bind_eq_bind, Option.bind_eq_some_iff,
    Option.guard_eq_some', exists_const] at stepped
  rcases stepped with ⟨executes, stack, found, stepped⟩
  split at stepped
  · rename_i job stack
    simp only [Option.bind_eq_some_iff] at stepped
    rcases stepped with ⟨pool, answered, stepped⟩
    have runs := shaped.runs thread _ found
    rw [executes, Runs, if_pos rfl] at runs
    rcases runs with ⟨execution, single⟩
    rcases List.cons_eq_cons.mp single with ⟨_, rfl⟩
    rcases Pool.answer_eq answered with ⟨running, stack, foundAgain, _, after⟩
    rw [found, Option.some.injEq, List.cons.injEq] at foundAgain
    rcases foundAgain with ⟨_, rfl⟩
    rcases after with ⟨done, rfl⟩ | ⟨again, queue, _, rfl⟩
    · rw [done] at stepped
      cases stepped
      have touches : Touches thread .executes self { self with
          pool := self.pool.setStack thread
            [⟨{ running with data := false }, some running.children⟩]
          again := Function.update self.again job.tasksLeft (self.again job.tasksLeft - 1) } :=
        ⟨Pool.local_setStack thread _ _, (set_same executes).symm, rfl, fun _ => Or.inl⟩
      refine shaped.act touches rfl rfl executes nofun ?_ (shaped.parked thread)
        (fun _ _ => nofun)
      intro stack foundNext
      rw [eq_of_set foundNext, Runs, if_pos rfl]
      exact ⟨_, rfl⟩
    · rw [again] at stepped
      cases stepped
      refine shaped.act ⟨(Pool.local_setStack thread _ _).trans
        (Pool.local_setQueue thread _ thread _), rfl, rfl, fun _ member => Or.inl member⟩ rfl rfl
        executes nofun ?_ (shaped.parked thread)
        (fun _ _ promotes => (resumed_ne_promotes promotes).elim)
      intro stack foundNext
      rw [eq_of_set foundNext]
      exact runs_resumed _
  · cases stepped

theorem Shaped.release (shaped : self.Shaped) (stepped : self.release thread = some next) :
    next.Shaped := by
  simp only [Executors.release, Option.bind_eq_bind, Option.bind_eq_some_iff,
    Option.guard_eq_some', exists_const, Option.pure_def, Option.some.injEq] at stepped
  rcases stepped with ⟨executes, pool, released, rfl⟩
  rcases Pool.release_eq released with ⟨job, dep, left, stack, found, rfl⟩
  have runs := shaped.runs thread _ found
  rw [executes, Runs, if_pos rfl] at runs
  rcases runs with ⟨execution, single⟩
  rcases List.cons_eq_cons.mp single with ⟨_, rfl⟩
  have local_ := Pool.local_setStack thread self.pool [⟨job, some left⟩]
  have touches : Touches thread .executes self { self with
      pool := { self.pool.setStack thread [⟨job, some left⟩] with
        counters := fetchSub self.pool.counters dep } } :=
    ⟨⟨rfl, rfl, rfl, local_.executing, fun _ _ => rfl, local_.stack⟩, (set_same executes).symm,
      rfl, fun _ => Or.inl⟩
  refine shaped.act touches rfl rfl executes nofun ?_ (shaped.parked thread) (fun _ _ => nofun)
  intro stack foundNext
  rw [eq_of_set foundNext, Runs, if_pos rfl]
  exact ⟨_, rfl⟩

theorem Shaped.finish (shaped : self.Shaped) (stepped : self.finish thread = some next) :
    next.Shaped := by
  simp only [Executors.finish, Option.bind_eq_bind, Option.bind_eq_some_iff,
    Option.guard_eq_some', exists_const, Option.pure_def, Option.some.injEq] at stepped
  rcases stepped with ⟨executes, pool, finished, rfl⟩
  rcases Pool.finish_eq finished with ⟨job, stack, found, rfl⟩
  have runs := shaped.runs thread _ found
  rw [executes, Runs, if_pos rfl] at runs
  rcases runs with ⟨execution, single⟩
  rcases List.cons_eq_cons.mp single with ⟨_, rfl⟩
  have local_ := Pool.local_setStack thread self.pool []
  refine shaped.act ⟨⟨rfl, rfl, rfl, local_.executing, fun _ _ => rfl, local_.stack⟩, rfl, rfl,
    fun _ => Or.inl⟩ rfl rfl executes nofun ?_ (shaped.parked thread)
    (fun _ _ promotes => (resumed_ne_promotes promotes).elim)
  intro stack foundNext
  rw [eq_of_set foundNext]
  exact runs_resumed _

theorem Shaped.nextId (shaped : self.Shaped) {left : Nat} {retry : Bool} {control : Control}
    (acting : self.controls[thread]? = some control) (notWaiting : control ≠ .waits)
    (notRunning : control ≠ .executes) (stealId : Nat) :
    (self.nextId thread stealId left retry).Shaped := by
  refine shaped.act ⟨.refl thread _, rfl, List.length_set, ?_⟩ rfl rfl acting notWaiting ?_
    (shaped.parked thread) (fun _ _ => nofun)
  · intro other member
    have some_ : 0 < self.pool.runnableQueues.length := by
      have inRange := shaped.caller
      have same := shaped.queues
      omega
    rcases List.mem_or_eq_of_mem_set member with before | rfl
    · exact Or.inl before
    · exact Or.inr (Nat.mod_lt _ some_)
  · intro stack found
    rw [shaped.idle acting notRunning found]
    rfl

theorem Shaped.skip (shaped : self.Shaped) (stepped : self.skip thread = some next) :
    next.Shaped := by
  simp only [Executors.skip, Option.bind_eq_bind, Option.bind_eq_some_iff] at stepped
  rcases stepped with ⟨control, acting, stepped⟩
  split at stepped
  · simp only [Option.bind_eq_some_iff, Option.guard_eq_some', exists_const, Option.pure_def,
      Option.some.injEq] at stepped
    rcases stepped with ⟨stealId, _, _, rfl⟩
    exact shaped.nextId acting nofun nofun stealId
  · cases stepped

theorem Shaped.steal (shaped : self.Shaped) {outcome : Steal}
    (stepped : self.steal thread outcome = some next) : next.Shaped := by
  simp only [Executors.steal, Option.bind_eq_bind, Option.bind_eq_some_iff] at stepped
  rcases stepped with ⟨control, acting, stepped⟩
  split at stepped
  · simp only [Option.bind_eq_some_iff, Option.guard_eq_some', exists_const] at stepped
    rcases stepped with ⟨stealId, _, _, victim, _, stepped⟩
    cases outcome with
    | Empty =>
        simp only [Option.bind_eq_some_iff, Option.guard_eq_some', exists_const, Option.pure_def,
          Option.some.injEq] at stepped
        rcases stepped with ⟨_, rfl⟩
        exact shaped.nextId acting nofun nofun stealId
    | Retry =>
        cases stepped
        exact shaped.nextId acting nofun nofun stealId
    | Success count =>
        simp only [Option.bind_eq_some_iff, Option.guard_eq_some', exists_const, Option.pure_def,
          Option.some.injEq] at stepped
        rcases stepped with ⟨_, pool, stolen, rfl⟩
        rcases Pool.steal_eq stolen with ⟨_, queue, others, _, _, rfl⟩
        refine shaped.act ⟨(Pool.local_setQueue thread _ stealId _).trans
          (Pool.local_setQueue thread _ thread _), rfl, rfl, fun _ => Or.inl⟩ rfl rfl acting nofun
          ?_ (shaped.parked thread)
          (fun _ _ promotes => (resumed_ne_promotes promotes).elim)
        intro stack found
        rw [shaped.idle acting nofun found]
        exact runs_resumed _
  · cases stepped

theorem Shaped.stealEnds (shaped : self.Shaped) (stepped : self.stealEnds thread = some next) :
    next.Shaped := by
  simp only [Executors.stealEnds, Option.bind_eq_bind, Option.bind_eq_some_iff] at stepped
  rcases stepped with ⟨control, acting, stepped⟩
  split at stepped
  · cases stepped
    refine shaped.act ⟨.refl thread _, rfl, rfl, fun _ => Or.inl⟩ rfl rfl acting nofun ?_
      (shaped.parked thread) (fun _ _ => nofun)
    intro stack found
    rw [shaped.idle acting nofun found]
    rfl
  · simp only [Option.bind_eq_some_iff, Option.pure_def, Option.some.injEq] at stepped
    rcases stepped with ⟨waitList, foundList, rfl⟩
    refine shaped.act ⟨.refl thread _, rfl, rfl, fun _ => Or.inl⟩ rfl rfl acting nofun ?_
      (shaped.parked thread) ?_
    · intro stack found
      rw [shaped.idle acting nofun found]
      rfl
    · intro left other promotes found
      cases promotes
      cases foundList.symm.trans found
      exact le_rfl
  · cases stepped

theorem Shaped.promote (shaped : self.Shaped) (stepped : self.promote thread = some next) :
    next.Shaped := by
  simp only [Executors.promote, Option.bind_eq_bind, Option.bind_eq_some_iff] at stepped
  rcases stepped with ⟨control, acting, stepped⟩
  split at stepped
  · rename_i left
    simp only [Option.bind_eq_some_iff, Option.pure_def, Option.some.injEq] at stepped
    rcases stepped with ⟨pool, promoted, rfl⟩
    rcases Pool.promote_eq promoted with ⟨waitList, job, found, inList, ready | ⟨_, rfl⟩⟩
    · rcases ready with ⟨_, queue, _, rfl⟩
      have length := (perm_swapRemove inList).length_eq
      rw [List.length_cons] at length
      have bound := shaped.promotes thread _ waitList acting found
      refine shaped.act ⟨(Pool.local_setWaitList thread _ _).trans
        (Pool.local_setQueue thread _ thread _), rfl, rfl, fun _ => Or.inl⟩ rfl rfl acting nofun
        ?_ ?_ ?_
      · intro stack foundStack
        rw [shaped.idle acting nofun foundStack]
        rfl
      · intro other foundNext different
        have empty := shaped.parked thread waitList found different
        subst empty
        simp at inList
      · intro position other promotes foundNext
        cases promotes
        rw [eq_of_set foundNext]
        omega
    · refine shaped.act ⟨.refl thread _, rfl, rfl, fun _ => Or.inl⟩ rfl rfl acting nofun ?_
        (shaped.parked thread) ?_
      · intro stack foundStack
        rw [shaped.idle acting nofun foundStack]
        rfl
      · intro position other promotes foundNext
        cases promotes
        have bound := shaped.promotes thread _ other acting foundNext
        omega
  · cases stepped

theorem Shaped.promoteEnds (shaped : self.Shaped)
    (stepped : self.promoteEnds thread = some next) : next.Shaped := by
  simp only [Executors.promoteEnds, Option.bind_eq_bind, Option.bind_eq_some_iff] at stepped
  rcases stepped with ⟨control, acting, stepped⟩
  split at stepped
  · cases stepped
    refine shaped.act ⟨.refl thread _, rfl, rfl, fun _ => Or.inl⟩ rfl rfl acting nofun ?_
      (shaped.parked thread) (fun _ _ promotes => (resumed_ne_promotes promotes).elim)
    intro stack found
    rw [shaped.idle acting nofun found]
    exact runs_resumed _
  · cases stepped

theorem Shaped.test (shaped : self.Shaped) (stepped : self.test = some next) : next.Shaped := by
  simp only [Executors.test, Option.bind_eq_bind, Option.bind_eq_some_iff, Option.guard_eq_some',
    exists_const, Option.pure_def, Option.some.injEq, Bool.and_eq_true] at stepped
  rcases stepped with ⟨waits, ⟨nobody, entered⟩, rfl⟩
  refine shaped.touch ⟨.refl _ _, rfl, rfl, fun _ => Or.inl⟩ ?_ (shaped.parked _) ?_ ?_
  · intro stack found
    rw [shaped.idle waits nofun found, Runs]
    split <;> rfl
  · intro left waitList promotes
    split at promotes <;> cases promotes
  · intro enqueuing
    simp only [Option.isNone_iff_eq_none] at nobody entered
    simp [setControl, nobody, entered] at enqueuing

theorem Shaped.enqueue (shaped : self.Shaped) {event : PoolEvent}
    (stepped : self.enqueue event = some next) : next.Shaped := by
  simp only [Executors.enqueue, Option.bind_eq_bind, Option.bind_eq_some_iff,
    Option.guard_eq_some', exists_const, Option.pure_def, Option.some.injEq] at stepped
  rcases stepped with ⟨enqueues, pool, stepped, rfl⟩
  rcases Pool.local_enqueues enqueues stepped with ⟨local_, executing⟩
  have waits := shaped.enqueues (Pool.active_of_enqueues enqueues stepped)
  have touches : Touches self.pool.caller .waits self { self with pool } :=
    ⟨local_, (set_same waits).symm, rfl, fun _ => Or.inl⟩
  refine shaped.touch touches ?_ (fun _ _ different => absurd rfl different) (fun _ _ => nofun)
    (fun _ => waits)
  intro stack found
  rw [executing] at found
  rw [shaped.idle waits nofun found]
  rfl

theorem Shaped.step (shaped : self.Shaped) {event : ExecutorEvent}
    (stepped : self.step event = some next) : next.Shaped := by
  cases event with
  | enqueue event => exact shaped.enqueue stepped
  | test => exact shaped.test stepped
  | pop thread => exact shaped.pop stepped
  | execute thread => exact shaped.execute stepped
  | release thread => exact shaped.release stepped
  | finish thread => exact shaped.finish stepped
  | skip thread => exact shaped.skip stepped
  | steal thread outcome => exact shaped.steal stepped
  | stealEnds thread => exact shaped.stealEnds stepped
  | promote thread => exact shaped.promote stepped
  | promoteEnds thread => exact shaped.promoteEnds stepped

end Preservation

end Executors

/-- What a job answers. -/
def PoolEvent.answered : PoolEvent → Option (Todos × ExecutionState)
  | .answer _ job state => some (job, state)
  | _ => none

namespace Executors

variable {T : Type} {graph : HomogeneousJobGraph T} {workers caller : Nat}
  {start : Todos → Nat} {self next : Executors} {event : ExecutorEvent} {thread : Nat}

section Acts

theorem resumed_ne_returned {caller thread : Nat} :
    (if thread = caller then Control.waits else .starts) ≠ .returned := by
  split <;> exact nofun

/-- The pool stays as it is, or takes a step without an answer. -/
def Quiet (event : ExecutorEvent) (state next : Executors) : Prop :=
  state.answered event = none ∧ (∀ thread, event ≠ .execute thread) ∧
    next.again = state.again ∧
    (next.pool = state.pool ∨
      ∃ poolEvent, state.pool.step poolEvent = some next.pool ∧ poolEvent.answered = none)

/-- A job answers, and is enqueued again one time less. -/
def Executes (event : ExecutorEvent) (state next : Executors) : Prop :=
  ∃ thread job, event = .execute thread ∧
    state.answered event = some (job, answerOf (state.again job)) ∧
    state.pool.step (.answer thread job (answerOf (state.again job))) = some next.pool ∧
    next.again = Function.update state.again job (state.again job - 1)

/-- A step of an executor for the pool. Only the test of the caller returns. -/
structure Acts (event : ExecutorEvent) (state next : Executors) : Prop where
  handle : next.handle = state.handle
  controls : next.controls = state.controls ∨ ∃ thread control,
    next.controls = state.controls.set thread control ∧
      (control = .returned → handleDone state.pool.counters state.handle = true)
  pool : Quiet event state next ∨ Executes event state next

theorem acts_enqueue {event : PoolEvent} (stepped : self.enqueue event = some next) :
    Acts (.enqueue event) self next := by
  simp only [enqueue, Option.bind_eq_bind, Option.bind_eq_some_iff, Option.guard_eq_some',
    exists_const, Option.pure_def, Option.some.injEq] at stepped
  rcases stepped with ⟨enqueues, pool, stepped, rfl⟩
  have quiet : event.answered = none := by
    cases event <;> first | rfl | cases enqueues
  exact ⟨rfl, Or.inl rfl, Or.inl ⟨rfl, nofun, rfl, Or.inr ⟨event, stepped, quiet⟩⟩⟩

theorem acts_test (stepped : self.test = some next) : Acts .test self next := by
  simp only [test, Option.bind_eq_bind, Option.bind_eq_some_iff, Option.guard_eq_some',
    exists_const, Option.pure_def, Option.some.injEq] at stepped
  rcases stepped with ⟨_, _, rfl⟩
  refine ⟨rfl, Or.inr ⟨_, _, rfl, ?_⟩, Or.inl ⟨rfl, nofun, rfl, Or.inl rfl⟩⟩
  intro returned
  split at returned
  · assumption
  · cases returned

theorem acts_pop (stepped : self.pop thread = some next) : Acts (.pop thread) self next := by
  simp only [pop, Option.bind_eq_bind, Option.bind_eq_some_iff, Option.guard_eq_some',
    exists_const] at stepped
  rcases stepped with ⟨_, queue, _, stepped⟩
  cases queue with
  | cons job queue =>
      simp only [Option.bind_eq_some_iff, Option.pure_def, Option.some.injEq] at stepped
      rcases stepped with ⟨pool, popped, rfl⟩
      exact ⟨rfl, Or.inr ⟨_, _, rfl, nofun⟩,
        Or.inl ⟨rfl, nofun, rfl, Or.inr ⟨.pop thread job.tasksLeft, popped, rfl⟩⟩⟩
  | nil =>
      cases stepped
      exact ⟨rfl, Or.inr ⟨_, _, rfl, nofun⟩, Or.inl ⟨rfl, nofun, rfl, Or.inl rfl⟩⟩

theorem acts_execute (stepped : self.execute thread = some next) :
    Acts (.execute thread) self next := by
  simp only [execute, Option.bind_eq_bind, Option.bind_eq_some_iff, Option.guard_eq_some',
    exists_const] at stepped
  rcases stepped with ⟨_, stack, found, stepped⟩
  split at stepped
  · rename_i job stack
    simp only [Option.bind_eq_some_iff] at stepped
    rcases stepped with ⟨pool, poolStepped, stepped⟩
    have answer : self.answered (.execute thread) =
        some (job.tasksLeft, answerOf (self.again job.tasksLeft)) := by
      simp only [answered, found]
    split at stepped
    · cases stepped
      exact ⟨rfl, Or.inl rfl,
        Or.inr ⟨thread, job.tasksLeft, rfl, answer, poolStepped, rfl⟩⟩
    · cases stepped
      exact ⟨rfl, Or.inr ⟨_, _, rfl, fun same => absurd same resumed_ne_returned⟩,
        Or.inr ⟨thread, job.tasksLeft, rfl, answer, poolStepped, rfl⟩⟩
  · cases stepped

theorem acts_release (stepped : self.release thread = some next) :
    Acts (.release thread) self next := by
  simp only [release, Option.bind_eq_bind, Option.bind_eq_some_iff, Option.guard_eq_some',
    exists_const, Option.pure_def, Option.some.injEq] at stepped
  rcases stepped with ⟨_, pool, released, rfl⟩
  exact ⟨rfl, Or.inl rfl, Or.inl ⟨rfl, nofun, rfl, Or.inr ⟨.release thread, released, rfl⟩⟩⟩

theorem acts_finish (stepped : self.finish thread = some next) :
    Acts (.finish thread) self next := by
  simp only [finish, Option.bind_eq_bind, Option.bind_eq_some_iff, Option.guard_eq_some',
    exists_const, Option.pure_def, Option.some.injEq] at stepped
  rcases stepped with ⟨_, pool, finished, rfl⟩
  exact ⟨rfl, Or.inr ⟨_, _, rfl, fun same => absurd same resumed_ne_returned⟩,
    Or.inl ⟨rfl, nofun, rfl, Or.inr ⟨.finish thread, finished, rfl⟩⟩⟩

theorem acts_skip (stepped : self.skip thread = some next) : Acts (.skip thread) self next := by
  simp only [skip, Option.bind_eq_bind, Option.bind_eq_some_iff] at stepped
  rcases stepped with ⟨control, _, stepped⟩
  split at stepped
  · simp only [Option.bind_eq_some_iff, Option.guard_eq_some', exists_const, Option.pure_def,
      Option.some.injEq] at stepped
    rcases stepped with ⟨_, _, _, rfl⟩
    exact ⟨rfl, Or.inr ⟨_, _, rfl, nofun⟩, Or.inl ⟨rfl, nofun, rfl, Or.inl rfl⟩⟩
  · cases stepped

theorem acts_steal {outcome : Steal} (stepped : self.steal thread outcome = some next) :
    Acts (.steal thread outcome) self next := by
  simp only [steal, Option.bind_eq_bind, Option.bind_eq_some_iff] at stepped
  rcases stepped with ⟨control, _, stepped⟩
  split at stepped
  · simp only [Option.bind_eq_some_iff, Option.guard_eq_some', exists_const] at stepped
    rcases stepped with ⟨stealId, _, _, victim, _, stepped⟩
    cases outcome with
    | Empty =>
        simp only [Option.bind_eq_some_iff, Option.guard_eq_some', exists_const,
          Option.pure_def, Option.some.injEq] at stepped
        rcases stepped with ⟨_, rfl⟩
        exact ⟨rfl, Or.inr ⟨_, _, rfl, nofun⟩, Or.inl ⟨rfl, nofun, rfl, Or.inl rfl⟩⟩
    | Retry =>
        cases stepped
        exact ⟨rfl, Or.inr ⟨_, _, rfl, nofun⟩, Or.inl ⟨rfl, nofun, rfl, Or.inl rfl⟩⟩
    | Success count =>
        simp only [Option.bind_eq_some_iff, Option.guard_eq_some', exists_const,
          Option.pure_def, Option.some.injEq] at stepped
        rcases stepped with ⟨_, pool, stolen, rfl⟩
        exact ⟨rfl, Or.inr ⟨_, _, rfl, fun same => absurd same resumed_ne_returned⟩,
          Or.inl ⟨rfl, nofun, rfl, Or.inr ⟨.steal thread stealId count, stolen, rfl⟩⟩⟩
  · cases stepped

theorem acts_stealEnds (stepped : self.stealEnds thread = some next) :
    Acts (.stealEnds thread) self next := by
  simp only [stealEnds, Option.bind_eq_bind, Option.bind_eq_some_iff] at stepped
  rcases stepped with ⟨control, _, stepped⟩
  split at stepped
  · cases stepped
    exact ⟨rfl, Or.inr ⟨_, _, rfl, nofun⟩, Or.inl ⟨rfl, nofun, rfl, Or.inl rfl⟩⟩
  · simp only [Option.bind_eq_some_iff, Option.pure_def, Option.some.injEq] at stepped
    rcases stepped with ⟨_, _, rfl⟩
    exact ⟨rfl, Or.inr ⟨_, _, rfl, nofun⟩, Or.inl ⟨rfl, nofun, rfl, Or.inl rfl⟩⟩
  · cases stepped

theorem acts_promote (stepped : self.promote thread = some next) :
    Acts (.promote thread) self next := by
  simp only [promote, Option.bind_eq_bind, Option.bind_eq_some_iff] at stepped
  rcases stepped with ⟨control, acting, stepped⟩
  split at stepped
  · rename_i left
    simp only [Option.bind_eq_some_iff, Option.pure_def, Option.some.injEq] at stepped
    rcases stepped with ⟨pool, promoted, rfl⟩
    exact ⟨rfl, Or.inr ⟨_, _, rfl, nofun⟩,
      Or.inl ⟨rfl, nofun, rfl, Or.inr ⟨.promote thread left, promoted, rfl⟩⟩⟩
  · cases stepped

theorem acts_promoteEnds (stepped : self.promoteEnds thread = some next) :
    Acts (.promoteEnds thread) self next := by
  simp only [promoteEnds, Option.bind_eq_bind, Option.bind_eq_some_iff] at stepped
  rcases stepped with ⟨control, _, stepped⟩
  split at stepped
  · cases stepped
    exact ⟨rfl, Or.inr ⟨_, _, rfl, fun same => absurd same resumed_ne_returned⟩,
      Or.inl ⟨rfl, nofun, rfl, Or.inl rfl⟩⟩
  · cases stepped

theorem acts_step (stepped : self.step event = some next) : Acts event self next := by
  cases event with
  | enqueue event => exact acts_enqueue stepped
  | test => exact acts_test stepped
  | pop thread => exact acts_pop stepped
  | execute thread => exact acts_execute stepped
  | release thread => exact acts_release stepped
  | finish thread => exact acts_finish stepped
  | skip thread => exact acts_skip stepped
  | steal thread outcome => exact acts_steal stepped
  | stealEnds thread => exact acts_stealEnds stepped
  | promote thread => exact acts_promote stepped
  | promoteEnds thread => exact acts_promoteEnds stepped

end Acts

/-- The answers of one job. -/
def answersOf (job : Todos) (answers : List (Todos × ExecutionState)) :
    List (Todos × ExecutionState) := answers.filter fun answer => answer.1 = job

/-- What a job answers when it has come to its end. -/
def allAnswers (job : Todos) (again : Nat) : List (Todos × ExecutionState) :=
  List.replicate again (job, .Reenqueue) ++ [(job, .Done)]

/-- The pool has run the events. A job that is not done has given the answers that it does not
have to give any more. -/
structure Follows (graph : HomogeneousJobGraph T) (workers caller : Nat) (start : Todos → Nat)
    (poolEvents : List PoolEvent) (state : Executors) : Prop where
  ran : poolEvents.foldlM Pool.step (Pool.runGraph graph workers caller) = some state.pool
  handle : state.handle = graph.root
  done : ∀ job ∈ doneIds poolEvents,
    answersOf job (poolEvents.filterMap PoolEvent.answered) = allAnswers job (start job)
  waiting : ∀ job ∉ doneIds poolEvents, state.again job ≤ start job ∧
    answersOf job (poolEvents.filterMap PoolEvent.answered) =
      List.replicate (start job - state.again job) (job, .Reenqueue)

theorem doneIds_of_answered {poolEvent : PoolEvent} {events : List PoolEvent}
    (none_ : poolEvent.answered = none) : doneIds (events ++ [poolEvent]) = doneIds events := by
  apply Pool.doneIds_quiet
  rintro thread job rfl
  cases none_

/-- A job that answers has been pending. -/
theorem Follows.answers {poolEvents : List PoolEvent}
    (follows : Follows graph workers caller start poolEvents self) (acyclic : graph.Acyclic)
    {thread : Nat} {job : Todos} {state : ExecutionState} {pool : Pool}
    (stepped : self.pool.step (.answer thread job state) = some pool) :
    job ∈ self.pool.pendingIds ∧ job ∉ doneIds poolEvents := by
  have tracks := Pool.tracks_run acyclic follows.ran
  rcases Pool.answer_eq stepped with ⟨running, stack, found, rfl, _⟩
  have listed : running.idle ∈ self.pool.all := by
    apply List.mem_append_right
    apply List.mem_append_right
    exact List.mem_flatten.mpr ⟨_, List.mem_of_getElem? found, List.mem_cons_self⟩
  have pending : running.tasksLeft ∈ self.pool.pendingIds :=
    List.mem_map.mpr ⟨running.idle, List.mem_filter.mpr ⟨listed, rfl⟩, rfl⟩
  refine ⟨pending, ?_⟩
  intro done
  have shared := tracks.accounted.nodup_iff.mpr List.nodup_range
  exact (List.nodup_append.mp shared).2.2 _ pending _ done rfl

theorem answersOf_append_same {job : Todos} {answers : List (Todos × ExecutionState)}
    {state : ExecutionState} :
    answersOf job (answers ++ [(job, state)]) = answersOf job answers ++ [(job, state)] := by
  simp [answersOf]

theorem answersOf_append_other {job other : Todos} {answers : List (Todos × ExecutionState)}
    {state : ExecutionState} (different : other ≠ job) :
    answersOf other (answers ++ [(job, state)]) = answersOf other answers := by
  simp [answersOf, different.symm]

/-- The last answer of a job. -/
theorem Follows.answersDone {poolEvents : List PoolEvent} {job : Todos}
    (follows : Follows graph workers caller start poolEvents self)
    (notDone : job ∉ doneIds poolEvents) (last : self.again job = 0)
    (stepped : self.pool.step (.answer thread job .Done) = some next.pool)
    (handle : next.handle = self.handle)
    (again : next.again = Function.update self.again job (self.again job - 1)) :
    Follows graph workers caller start (poolEvents ++ [.answer thread job .Done]) next := by
  have doneNext : doneIds (poolEvents ++ [.answer thread job .Done]) =
      doneIds poolEvents ++ [job] := Pool.doneIds_append _ _
  have answered : (poolEvents ++ [PoolEvent.answer thread job .Done]).filterMap
      PoolEvent.answered = poolEvents.filterMap PoolEvent.answered ++ [(job, .Done)] :=
    List.filterMap_append
  have before := (follows.waiting job notDone).2
  rw [last, Nat.sub_zero] at before
  refine ⟨?_, handle.trans follows.handle, ?_, ?_⟩
  · rw [List.foldlM_append, follows.ran]
    simp [stepped]
  · intro other done
    rw [answered]
    by_cases same : other = job
    · subst same
      rw [answersOf_append_same, before, allAnswers]
    · rw [answersOf_append_other same]
      rw [doneNext, List.mem_append, List.mem_singleton, or_iff_left same] at done
      exact follows.done other done
  · intro other waiting
    rw [doneNext, List.mem_append, List.mem_singleton, not_or] at waiting
    rw [answered, answersOf_append_other waiting.2, again, Function.update_of_ne waiting.2]
    exact follows.waiting other waiting.1

/-- An answer of a job that goes on. -/
theorem Follows.answersReenqueue {poolEvents : List PoolEvent} {job : Todos} {left : Nat}
    (follows : Follows graph workers caller start poolEvents self)
    (notDone : job ∉ doneIds poolEvents) (more : self.again job = left + 1)
    (stepped : self.pool.step (.answer thread job .Reenqueue) = some next.pool)
    (handle : next.handle = self.handle)
    (again : next.again = Function.update self.again job (self.again job - 1)) :
    Follows graph workers caller start (poolEvents ++ [.answer thread job .Reenqueue]) next := by
  have doneNext : doneIds (poolEvents ++ [.answer thread job .Reenqueue]) = doneIds poolEvents :=
    (Pool.doneIds_append _ _).trans (List.append_nil _)
  have answered : (poolEvents ++ [PoolEvent.answer thread job .Reenqueue]).filterMap
      PoolEvent.answered = poolEvents.filterMap PoolEvent.answered ++ [(job, .Reenqueue)] :=
    List.filterMap_append
  rcases follows.waiting job notDone with ⟨atMost, before⟩
  rw [more] at atMost before
  refine ⟨?_, handle.trans follows.handle, ?_, ?_⟩
  · rw [List.foldlM_append, follows.ran]
    simp [stepped]
  · intro other done
    rw [doneNext] at done
    have different : other ≠ job := fun same => notDone (same ▸ done)
    rw [answered, answersOf_append_other different]
    exact follows.done other done
  · intro other waiting
    rw [doneNext] at waiting
    rw [answered, again]
    by_cases same : other = job
    · subst same
      have once : start other - left = start other - (left + 1) + 1 := by omega
      rw [answersOf_append_same, before, Function.update_self, more, Nat.add_sub_cancel, once,
        List.replicate_succ']
      exact ⟨Nat.le_of_succ_le atMost, rfl⟩
    · rw [answersOf_append_other same, Function.update_of_ne same]
      exact follows.waiting other waiting

/-- The pool follows an executor, with the same answers. -/
theorem Follows.step {poolEvents : List PoolEvent}
    (follows : Follows graph workers caller start poolEvents self) (acyclic : graph.Acyclic)
    (stepped : self.step event = some next) :
    ∃ more, Follows graph workers caller start (poolEvents ++ more) next ∧
      more.filterMap PoolEvent.answered = (self.answered event).toList := by
  have acts := acts_step stepped
  rcases acts.pool with ⟨noAnswer, _, again, same | ⟨poolEvent, poolStepped, quiet⟩⟩ |
    ⟨thread, job, rfl, answer, poolStepped, again⟩
  · refine ⟨[], ?_, by rw [noAnswer]; rfl⟩
    rw [List.append_nil]
    refine ⟨same ▸ follows.ran, acts.handle.trans follows.handle, follows.done, ?_⟩
    rw [again]
    exact follows.waiting
  · have silent : (poolEvents ++ [poolEvent]).filterMap PoolEvent.answered =
        poolEvents.filterMap PoolEvent.answered := by
      rw [List.filterMap_append, List.filterMap_cons_none quiet, List.filterMap_nil,
        List.append_nil]
    refine ⟨[poolEvent], ⟨?_, acts.handle.trans follows.handle, ?_, ?_⟩, ?_⟩
    · rw [List.foldlM_append, follows.ran]
      simp [poolStepped]
    · rw [doneIds_of_answered quiet, silent]
      exact follows.done
    · rw [doneIds_of_answered quiet, silent, again]
      exact follows.waiting
    · rw [noAnswer, List.filterMap_cons_none quiet]
      rfl
  · have notDone := (follows.answers acyclic poolStepped).2
    rw [answer]
    cases turns : self.again job with
    | zero =>
        rw [turns] at poolStepped
        exact ⟨_, follows.answersDone notDone turns poolStepped acts.handle again, rfl⟩
    | succ left =>
        rw [turns] at poolStepped
        exact ⟨_, follows.answersReenqueue notDone turns poolStepped acts.handle again, rfl⟩

/-- So it does in a whole run. -/
theorem Follows.run {poolEvents : List PoolEvent} {events : List ExecutorEvent}
    (follows : Follows graph workers caller start poolEvents self) (acyclic : graph.Acyclic)
    (ran : events.foldlM Executors.step self = some next) :
    ∃ more, Follows graph workers caller start (poolEvents ++ more) next ∧
      more.filterMap PoolEvent.answered = Executors.answers self events := by
  induction events generalizing self poolEvents with
  | nil =>
      cases ran
      exact ⟨[], by rwa [List.append_nil], rfl⟩
  | cons event events induction =>
      rw [List.foldlM_cons, Option.bind_eq_bind, Option.bind_eq_some_iff] at ran
      rcases ran with ⟨middle, stepped, ran⟩
      rcases follows.step acyclic stepped with ⟨first, followsMiddle, answered⟩
      rcases induction followsMiddle ran with ⟨rest, followsNext, others⟩
      rw [List.append_assoc] at followsNext
      refine ⟨first ++ rest, followsNext, ?_⟩
      rw [List.filterMap_append, answered, others, Executors.answers, stepped]
      rfl

end Executors

end JobSystem

end Cecs

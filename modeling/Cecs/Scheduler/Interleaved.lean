import Cecs.Foundation.Interleaving
import Cecs.Foundation.Reaching
import Cecs.JobSystem.ExecutorSound
import Cecs.Scheduler.Execution
import Cecs.Scheduler.Prefixes

/-! # Interleaved systems

Systems that are under way at the same time are not parents of each other, so they keep to
parts of the world that are apart. However their instructions interleave, the world is left
as the sorted run leaves it. -/

namespace Cecs

open Foundation JobSystem

namespace JobSystem.Pool

theorem mem_flatten_set {α : Type} {lists : List (List α)} {position : Nat} {list other : List α}
    {item : α} (found : lists[position]? = some list) (kept : item ∈ list → item ∈ other)
    (member : item ∈ lists.flatten) : item ∈ (lists.set position other).flatten := by
  rcases List.mem_flatten.mp member with ⟨among, listed, inList⟩
  rcases List.mem_iff_getElem?.mp listed with ⟨index, foundThere⟩
  rw [List.mem_flatten]
  have inside := (List.getElem?_eq_some_iff.mp found).1
  by_cases same : position = index
  · subst same
    rw [found] at foundThere
    cases foundThere
    exact ⟨other, List.mem_set inside other, kept inList⟩
  · refine ⟨among, List.mem_of_getElem? (i := index) ?_, inList⟩
    rw [List.getElem?_set_ne same]
    exact foundThere

variable {pool next : Pool} {event : PoolEvent} {execution : Execution}

/-- A job stays under execution until it answers. -/
theorem executing_step (stepped : pool.step event = some next)
    (member : execution ∈ pool.executing.flatten) (pending : execution.isPending = true)
    (silent : ∀ thread state, event ≠ .answer thread execution.todos state) :
    execution ∈ next.executing.flatten := by
  cases event with
  | pop thread job =>
      rcases pop_eq stepped with ⟨taken, queue, stack, _, found, rfl⟩
      exact mem_flatten_set found (List.mem_cons_of_mem _) member
  | steal thread victim count =>
      rcases steal_eq stepped with ⟨_, _, _, _, _, rfl⟩
      exact member
  | promote thread position =>
      rcases promote_eq stepped with ⟨_, _, _, _, ⟨_, _, _, rfl⟩ | ⟨_, rfl⟩⟩ <;> exact member
  | answer thread job state =>
      rcases answer_eq stepped with ⟨running, stack, found, rfl, after⟩
      have kept : execution ∈ running.idle :: stack → execution ∈ stack := by
        intro inStack
        rcases List.mem_cons.mp inStack with rfl | below
        · exact absurd rfl (silent thread state)
        · exact below
      rcases after with ⟨rfl, rfl⟩ | ⟨rfl, _, _, rfl⟩
      · exact mem_flatten_set found (fun inStack => List.mem_cons_of_mem _ (kept inStack)) member
      · exact mem_flatten_set found kept member
  | release thread =>
      rcases release_eq stepped with ⟨job, dep, left, stack, found, rfl⟩
      refine mem_flatten_set found (fun inStack => ?_) member
      rcases List.mem_cons.mp inStack with rfl | below
      · cases pending
      · exact List.mem_cons_of_mem _ below
  | finish thread =>
      rcases finish_eq stepped with ⟨job, stack, found, rfl⟩
      refine mem_flatten_set found (fun inStack => ?_) member
      rcases List.mem_cons.mp inStack with rfl | below
      · cases pending
      · exact below
  | addChild => exact (local_enqueues rfl stepped).2 ▸ member
  | takeRoot => exact (local_enqueues rfl stepped).2 ▸ member
  | checkReady => exact (local_enqueues rfl stepped).2 ▸ member
  | push => exact (local_enqueues rfl stepped).2 ▸ member

variable {T : Type} {graph : HomogeneousJobGraph T} {events : List PoolEvent}

/-- A job that is under execution and has not answered is not done, and its parents are. -/
theorem Tracks.of_executing (tracks : Tracks graph events pool) (acyclic : graph.Acyclic)
    (member : execution ∈ pool.executing.flatten) (pending : execution.isPending = true) :
    execution.todos ∉ doneIds events ∧
      ∀ parent, graph.IsEdge parent execution.todos → parent ∈ doneIds events := by
  have cleared : execution.job ∈ pool.cleared :=
    mem_cleared.mpr (Or.inr (Or.inr ⟨execution, member, pending, rfl⟩))
  have listed : execution ∈ pool.all := by
    rw [Execution.eq_idle pending]
    exact List.mem_append_right _ (idle_mem_entered cleared)
  constructor
  · intro done
    have waiting : execution.todos ∈ (pool.all.filter Execution.isPending).map Execution.todos :=
      List.mem_map_of_mem (List.mem_filter.mpr ⟨listed, pending⟩)
    have unique := tracks.accounted.nodup_iff.mpr List.nodup_range
    exact (List.nodup_append.mp unique).2.2 _ waiting _ done rfl
  · exact fun parent edge => tracks.parents_done acyclic cleared (Or.inl edge)

end JobSystem.Pool

section Tasks

variable {Value : Type} {handles : Handles} {footprint : Footprint Part}

theorem SystemCall.act_eq_some {call next : SystemCall Value} {w after : World Value} :
    call.act w = some (next, after) ↔ ∃ instruction onwards handles answer,
      call = (.step instruction onwards, handles) ∧
        instruction.run handles w = some (answer, after) ∧
        next = (onwards answer, handles.receive answer) := by
  rcases call with ⟨program, handles⟩
  cases program with
  | step instruction onwards =>
      rw [SystemCall.act, Action.andThen_eq_some]
      constructor
      · rintro ⟨answer, middle, ran, same⟩
        cases same
        exact ⟨instruction, onwards, handles, answer, rfl, ran, rfl⟩
      · rintro ⟨_, _, _, answer, same, ran, rfl⟩
        cases same
        exact ⟨answer, after, ran, rfl⟩
  | finish => simp [SystemCall.act]
  | panic => simp [SystemCall.act]

/-- Calls of the systems as tasks. -/
def systemTasks (systems : List (ErasedSystem (Program Value))) :
    Tasks (World Value) Nat (SystemCall Value) where
  start position := fun w => (systems[position]?).bind fun sys => sys.call w
  act := SystemCall.act
  rest call := call.1.run call.2
  Over call := call.1 = .finish
  rest_of_over := by
    intro call ended w
    rw [ended]
    rfl
  rest_of_act := by
    intro call next w after acted
    rcases SystemCall.act_eq_some.mp acted with ⟨_, _, _, answer, rfl, ran, rfl⟩
    simp only [Program.run, Action.andThen, ran, Option.bind_some]
  rest_of_stuck := by
    rintro ⟨program, handles⟩ w goesOn stuck
    cases program with
    | finish => exact absurd rfl goesOn
    | panic => rfl
    | step instruction onwards =>
        cases ran : instruction.run handles w with
        | none => simp only [Program.run, Action.andThen, ran, Option.bind_none]
        | some result =>
            have acted := SystemCall.act_eq_some.mpr ⟨instruction, onwards, handles, result.1,
              rfl, ran, rfl⟩
            rw [stuck] at acted
            cases acted

theorem ErasedSystem.execute_eq (sys : ErasedSystem (Program Value)) (w : World Value) :
    sys.execute w = (sys.call w).bind fun result => result.1.1.run result.1.2 result.2 := by
  simp only [execute, call, enter, Action.andThen, Action.reading, Option.bind_eq_bind,
    Option.bind_map, Function.comp_def, Option.bind_assoc, Option.pure_def, Option.map_bind,
    Option.map_some, Option.bind_some]

theorem systemTasks_execute (systems : List (ErasedSystem (Program Value))) (position : Nat) :
    (systemTasks systems).execute position =
      fun w => (systems[position]?).bind fun sys => sys.execute w := by
  funext w
  simp only [Foundation.Tasks.execute, systemTasks, Action.andThen]
  cases systems[position]? with
  | none => rfl
  | some sys => exact (sys.execute_eq w).symm

theorem SystemCall.act_confined (call : SystemCall Value) (within : call.2.Within footprint) :
    Confined (World.parts Value) World.Indexed footprint call.act := by
  rcases call with ⟨program, handles⟩
  cases program with
  | finish => exact confined_none
  | panic => exact confined_none
  | step instruction onwards =>
      rw [act]
      apply (instruction.run_confined within).andThen
      intro _ _ answer _ _
      have quiet : Confined (World.parts Value) World.Indexed footprint
          (Action.reading fun _ => some (onwards answer, handles.receive answer)) :=
        confined_reading fun _ _ _ _ _ => rfl
      exact quiet

variable [CommandSentinelTypeId] {props : QueryProperties}
  {systems : List (ErasedSystem (Program Value))}

theorem ErasedSystem.call_confined (sys : ErasedSystem (Program Value))
    (collected : QueryProperties.fromSystem sys.descriptor = some props)
    (shared : props.exclusive = false) :
    Confined (World.parts Value) World.Indexed props.footprint sys.call := by
  have enters : Confined (World.parts Value) World.Indexed props.footprint
      (sys.enter : Action (World Value) Handles) := by
    apply confined_reading
    intro w other _ _ agree
    have all := sys.isReady_congr collected shared agree
    apply bind_congr
    intro _
    by_cases isReady : ∀ leaf ∈ sys.descriptor.params.flatMap Param.leaves,
        leaf.isReady sys.systemIdx other = true
    · simp only [guard]
      rw [if_pos isReady, if_pos (all.mpr isReady)]
    · simp only [guard]
      rw [if_neg isReady, if_neg fun here => isReady (all.mp here)]
  apply enters.andThen
  intro _ _ handles _ _
  have quiet : Confined (World.parts Value) World.Indexed props.footprint
      (Action.reading fun _ => some (sys.descriptor.factory, handles)) :=
    confined_reading fun _ _ _ _ _ => rfl
  exact quiet

/-- What the properties of a system say that it accesses. -/
def footprints (history : List QueryProperties) (position : Nat) : Footprint Part :=
  (history[position]?.getD ⟨false, ∅, ∅, ∅, ∅⟩).footprint

/-- What a system holds can only be used within its footprint. -/
theorem within_of_upTo {position : Nat} {sys : ErasedSystem (Program Value)}
    (found : systems[position]? = some sys)
    (collected : QueryProperties.fromSystem sys.descriptor = some props)
    (shared : props.exclusive = false) {count : Nat} {call : SystemCall Value}
    {w after : World Value}
    (came : (systemTasks systems).upTo position count w = some (call, after)) :
    call.2.Within props.footprint := by
  induction count generalizing call after with
  | zero =>
      rw [Foundation.Tasks.upTo_zero] at came
      simp only [systemTasks, found, Option.bind_some] at came
      rcases Action.andThen_eq_some.mp came with ⟨handles, middle, entered, same⟩
      simp only [ErasedSystem.enter, Action.reading_eq_some, Option.bind_eq_bind,
        Option.bind_eq_some_iff, Option.pure_def, Option.some.injEq] at entered
      rcases entered with ⟨⟨_, _, _, _, rfl⟩, _⟩
      cases same
      have within := (declares_of_fromSystem collected).within shared sys.systemIdx
      rw [Param.leaves_tuple] at within
      exact within
  | succ count induction =>
      rw [Foundation.Tasks.upTo_succ, Action.andThen_eq_some] at came
      rcases came with ⟨before, middle, came, acted⟩
      have within := induction came
      rcases SystemCall.act_eq_some.mp acted with ⟨_, _, _, answer, rfl, ran, rfl⟩
      exact within.receive (Instruction.references_within within ran)

/-- The system at the position has no `WorldAccess`. -/
def Shares (systems : List (ErasedSystem (Program Value))) (history : List QueryProperties)
    (position : Nat) : Prop :=
  ∃ sys props, systems[position]? = some sys ∧ history[position]? = some props ∧
    QueryProperties.fromSystem sys.descriptor = some props ∧ props.exclusive = false

variable {history : List QueryProperties}

theorem Shares.within {position : Nat} (shares : Shares systems history position) {count : Nat}
    {call : SystemCall Value} {w after : World Value}
    (came : (systemTasks systems).upTo position count w = some (call, after)) :
    call.2.Within (footprints history position) := by
  rcases shares with ⟨sys, props, found, atHistory, collected, shared⟩
  rw [footprints, atHistory, Option.getD_some]
  exact within_of_upTo found collected shared came

/-- It keeps to its footprint. -/
theorem Shares.keeps {position : Nat} (shares : Shares systems history position) :
    (systemTasks systems).Keeps (World.parts Value) World.Indexed (footprints history)
      position where
  start := by
    rcases shares with ⟨sys, props, found, atHistory, collected, shared⟩
    rw [footprints, atHistory, Option.getD_some]
    simp only [systemTasks, found, Option.bind_some]
    exact sys.call_confined collected shared
  act := by
    intro count call w after _ came
    exact call.act_confined (shares.within came)

variable {stage : SystemStage (Program Value)} {schedule : Schedule} {i j : Nat}

/-- Two systems that share the world, with nothing that one of them changes. -/
structure Beside (stage : SystemStage (Program Value)) (history : List QueryProperties)
    (i j : Nat) : Prop where
  first : Shares stage.systems history i
  second : Shares stage.systems history j
  apart : (footprints history i).Apart (footprints history j)

theorem Beside.symm (beside : Beside stage history i j) : Beside stage history j i :=
  ⟨beside.second, beside.first, beside.apart.symm⟩

/-- Systems that are not parents of each other can run beside each other. -/
theorem beside_of_notParent
    (recorded : Schedule.Recorded (Schedule.indices stage.systems) stage.systems history schedule)
    (before : i < j) (inside : j < stage.systems.length)
    (notParent : ∀ parents, schedule.parents[j]? = some parents → i ∉ parents) :
    Beside stage history i j := by
  have found : stage.systems[j]? = some stage.systems[j] := List.getElem?_eq_getElem inside
  have foundEarlier : stage.systems[i]? = some stage.systems[i] :=
    List.getElem?_eq_getElem (before.trans inside)
  rcases recorded.props_of_getElem? found with ⟨props, atHistory, collected⟩
  rcases recorded.props_of_getElem? foundEarlier with ⟨earlier, atEarlier, collectedEarlier⟩
  have disjoint : props.isDisjoint earlier = true := by
    by_contra conflict
    rw [Bool.not_eq_true] at conflict
    apply notParent _ (recorded.parents j _ props found atHistory)
    exact Schedule.mem_parentsOf_of_conflict before atEarlier conflict
  have shared : props.exclusive = false ∧ earlier.exclusive = false := by
    simp only [QueryProperties.isDisjoint, Bool.and_eq_true, Bool.not_eq_true'] at disjoint
    exact disjoint.1.1.1.1.1.1
  refine ⟨⟨_, earlier, foundEarlier, atEarlier, collectedEarlier, shared.2⟩,
    ⟨_, props, found, atHistory, collected, shared.1⟩, ?_⟩
  rw [footprints, footprints, atHistory, atEarlier]
  exact (QueryProperties.apart_of_isDisjoint disjoint).symm

end Tasks

section Jobs

variable {Body : Type} {systems : List (ErasedSystem Body)} {schedule : Schedule}
  {graph : HomogeneousJobGraph (ErasedSystem Body)}

/-- Each parent has an edge. -/
theorem Schedule.isEdge_of_parent (made : schedule.jobs systems = some graph) {child : Nat}
    {parents : List Nat} (found : schedule.parents[child]? = some parents) {parent : Nat}
    (isParent : parent ∈ parents) : graph.IsEdge parent child := by
  -- First the parents of one system, then all systems.
  have one : ∀ (parents : List Nat) (i : Nat) (graph : HomogeneousJobGraph (ErasedSystem Body)),
      (parents.foldl (fun graph j => graph.addDependency j i) graph).edges =
        graph.edges ++ parents.map fun j => (j, i) := by
    intro parents i
    induction parents with
    | nil => simp
    | cons parent parents induction =>
        intro graph
        rw [List.foldl_cons, induction]
        simp [HomogeneousJobGraph.addDependency]
  have all : ∀ (entries : List (List Nat × Nat)) (graph : HomogeneousJobGraph (ErasedSystem Body)),
      (entries.foldl (fun graph entry =>
        entry.1.foldl (fun graph j => graph.addDependency j entry.2) graph) graph).edges =
        graph.edges ++ entries.flatMap fun entry => entry.1.map fun j => (j, entry.2) := by
    intro entries
    induction entries with
    | nil => simp
    | cons entry entries induction =>
        intro graph
        rw [List.foldl_cons, induction, one]
        simp
  simp only [Schedule.jobs, Option.bind_eq_bind, Option.bind_eq_some_iff, Option.guard_eq_some',
    Option.pure_def, Option.some.injEq, exists_and_left, exists_const] at made
  rcases made with ⟨_, rfl⟩
  rw [HomogeneousJobGraph.IsEdge, all]
  apply List.mem_append_right
  rw [List.mem_flatMap]
  exact ⟨(parents, child), List.mem_zipIdx_iff_getElem?.mpr found, List.mem_map_of_mem isParent⟩

end Jobs

/-- A thread is in the function of the job. -/
def JobSystem.Pool.IsRunning (pool : Pool) (job : Todos) : Prop :=
  ∃ execution ∈ pool.executing.flatten, execution.isPending = true ∧ execution.todos = job

namespace StageRun

variable {Value : Type} {state : StageRun Value}

theorem calls_setCall (state : StageRun Value) (job : Todos) (call : Option (SystemCall Value)) :
    (state.setCall job call).calls = Function.update state.calls job call := rfl

theorem isRunning_of_current {thread : Nat} {job : Todos}
    (current : state.current thread = some job) :
    ∃ (running : Job) (stack : List Execution),
      state.pool.executing[thread]? = some (running.idle :: stack) ∧ running.tasksLeft = job ∧
      state.pool.IsRunning job := by
  simp only [StageRun.current, Option.bind_eq_bind, Option.bind_eq_some_iff] at current
  rcases current with ⟨stack, found, answer⟩
  split at answer
  · rename_i running below
    cases answer
    refine ⟨running, below, found, rfl, running.idle, ?_, rfl, rfl⟩
    exact List.mem_flatten.mpr ⟨_, List.mem_of_getElem? found, List.mem_cons_self⟩
  · cases answer

end StageRun

section Runs

variable {Value : Type} [CommandSentinelTypeId] {stage : SystemStage (Program Value)}
  {schedule : Schedule} {history : List QueryProperties}
  {graph : HomogeneousJobGraph (ErasedSystem (Program Value))} {w middle : World Value}

/-- The graph is made of the stage by its schedule. -/
structure Scheduled (stage : SystemStage (Program Value)) (schedule : Schedule)
    (history : List QueryProperties)
    (graph : HomogeneousJobGraph (ErasedSystem (Program Value))) : Prop where
  recorded : Schedule.Recorded (Schedule.indices stage.systems) stage.systems history schedule
  forward : schedule.Forward stage.systems
  jobs : schedule.jobs stage.systems = some graph

namespace Scheduled

theorem acyclic (scheduled : Scheduled stage schedule history graph) : graph.Acyclic :=
  scheduled.forward.acyclic scheduled.jobs

theorem root (scheduled : Scheduled stage schedule history graph) :
    graph.jobs.length = stage.systems.length :=
  congrArg List.length (Schedule.jobs_spec scheduled.jobs).1

end Scheduled

/-- Systems that are under way at the same time. -/
theorem Scheduled.beside (scheduled : Scheduled stage schedule history graph)
    {events : List PoolEvent} {pool : Pool} (tracks : Pool.Tracks graph events pool) {i j : Nat}
    (running : pool.IsRunning i) (runningOther : pool.IsRunning j) (different : i ≠ j)
    (inside : i < stage.systems.length) (insideOther : j < stage.systems.length) :
    Beside stage history i j := by
  have ordered : ∀ {i j : Nat}, pool.IsRunning i → pool.IsRunning j → i < j →
      j < stage.systems.length → Beside stage history i j := by
    rintro i j ⟨first, member, pending, rfl⟩ ⟨second, memberOther, pendingOther, rfl⟩ before inside
    apply beside_of_notParent scheduled.recorded before inside
    intro parents found isParent
    have edge := Schedule.isEdge_of_parent scheduled.jobs found isParent
    have done := (tracks.of_executing scheduled.acyclic memberOther pendingOther).2 _ edge
    exact (tracks.of_executing scheduled.acyclic member pending).1 done
  rcases Nat.lt_or_gt_of_ne different with before | after
  · exact ordered running runningOther before insideOther
  · exact (ordered runningOther running after inside).symm

theorem Beside.tasks {i j : Nat} (beside : Beside stage history i j) :
    (systemTasks stage.systems).Apart (World.parts Value) World.Indexed (footprints history)
      i j :=
  ⟨beside.first.keeps, beside.second.keeps, beside.apart⟩

/-- The systems that have returned, in order. -/
def finished (stage : SystemStage (Program Value)) (events : List PoolEvent) : List Nat :=
  (doneIds events).filter fun job => job < stage.systems.length

/-- The systems that have returned could have run one by one to `middle`, and those under way
could have come from there to where they are, one after the other. -/
structure StageRun.Follows (stage : SystemStage (Program Value)) (schedule : Schedule)
    (graph : HomogeneousJobGraph (ErasedSystem (Program Value))) (w : World Value)
    (events : List PoolEvent) (active : List Nat) (middle : World Value)
    (state : StageRun Value) : Prop where
  systems : state.systems = stage.systems
  tracks : Pool.Tracks graph events state.pool
  begins : schedule.Begins (finished stage events)
  ran : stage.runInOrder (finished stage events) w = some ((), middle)
  unique : active.Nodup
  running : ∀ job ∈ active, state.pool.IsRunning job
  inRange : ∀ job ∈ active, job < stage.systems.length
  listed : ∀ job, state.calls job ≠ none → job ∈ active
  under : (systemTasks stage.systems).Under state.calls active middle state.world

namespace StageRun

variable {events : List PoolEvent} {active : List Nat} {state next : StageRun Value}

theorem Follows.beside (follows : Follows stage schedule graph w events active middle state)
    (scheduled : Scheduled stage schedule history graph) {i j : Nat} (member : i ∈ active)
    (memberOther : j ∈ active) (different : i ≠ j) : Beside stage history i j :=
  scheduled.beside follows.tracks (follows.running i member) (follows.running j memberOther)
    different (follows.inRange i member) (follows.inRange j memberOther)

theorem Follows.apart (follows : Follows stage schedule graph w events active middle state)
    (scheduled : Scheduled stage schedule history graph) :
    active.Pairwise ((systemTasks stage.systems).Apart (World.parts Value) World.Indexed
      (footprints history)) := by
  refine follows.unique.imp_of_mem ?_
  intro i j member memberOther different
  exact (follows.beside scheduled member memberOther different).tasks

theorem Follows.indexed (follows : Follows stage schedule graph w events active middle state)
    (scheduled : Scheduled stage schedule history graph) (intact : stage.Intact w) :
    middle.Indexed :=
  follows.begins.indexed scheduled.recorded scheduled.forward intact follows.ran

/-- A system that runs now comes after its parents. -/
theorem Follows.concat (follows : Follows stage schedule graph w events active middle state)
    (scheduled : Scheduled stage schedule history graph) {job : Todos}
    (running : state.pool.IsRunning job) (inside : job < stage.systems.length) :
    schedule.Begins (finished stage events ++ [job]) := by
  rcases running with ⟨execution, listed, pending, rfl⟩
  rcases follows.tracks.of_executing scheduled.acyclic listed pending with ⟨notDone, parents⟩
  apply follows.begins.concat
  · exact fun member => notDone (List.mem_filter.mp member).1
  · rw [scheduled.recorded.length]
    exact inside
  · intro others found parent isParent
    have edge := Schedule.isEdge_of_parent scheduled.jobs found isParent
    rw [finished, List.mem_filter, decide_eq_true_eq]
    refine ⟨parents parent edge, ?_⟩
    rw [← scheduled.root]
    exact (scheduled.acyclic.inRange _ edge).1

/-- A step of the pool or the root. -/
theorem Follows.pool (follows : Follows stage schedule graph w events active middle state)
    (scheduled : Scheduled stage schedule history graph) {event : PoolEvent}
    (stepped : state.poolStep event = some next) :
    Follows stage schedule graph w (events ++ [event]) active middle next := by
  simp only [poolStep, Option.bind_eq_bind, Option.bind_eq_some_iff, Option.guard_eq_some',
    Option.pure_def, Option.some.injEq, exists_const] at stepped
  rcases stepped with ⟨other, pool, poolStepped, rfl⟩
  have silent : ∀ thread job answer, event = .answer thread job answer →
      job = stage.systems.length := by
    rintro thread job answer rfl
    simp only [isOther, follows.systems, Bool.and_eq_true, decide_eq_true_eq] at other
    exact other.1
  have same : finished stage (events ++ [event]) = finished stage events := by
    rw [finished, finished, Pool.doneIds_append, List.filter_append, List.append_right_eq_self,
      List.filter_eq_nil_iff]
    intro job member
    cases event with
    | answer thread answered answer =>
        cases answer with
        | Done =>
            rw [List.mem_singleton.mp member, silent thread answered .Done rfl]
            simp
        | Reenqueue => cases member
    | _ => cases member
  refine { follows with
    tracks := follows.tracks.step scheduled.acyclic poolStepped
    begins := same ▸ follows.begins
    ran := same ▸ follows.ran
    running := ?_ }
  rintro job member
  rcases follows.running job member with ⟨execution, listed, pending, rfl⟩
  refine ⟨execution, ?_, pending, rfl⟩
  apply Pool.executing_step poolStepped listed pending
  intro thread answer isAnswer
  exact Nat.ne_of_lt (follows.inRange _ member) (silent thread _ answer isAnswer)

omit [CommandSentinelTypeId] in
/-- A system is called. -/
theorem Follows.called (follows : Follows stage schedule graph w events active middle state)
    {thread : Nat} (stepped : state.call thread = some next) :
    ∃ job, Follows stage schedule graph w events (active ++ [job]) middle next := by
  simp only [call, Option.bind_eq_bind, Option.bind_eq_some_iff, Option.guard_eq_some',
    Option.pure_def, Option.some.injEq, exists_const, Option.isNone_iff_eq_none] at stepped
  rcases stepped with ⟨job, current, idle, sys, found, ⟨made, world⟩, called, rfl⟩
  rcases isRunning_of_current current with ⟨_, _, _, _, running⟩
  rw [follows.systems] at found
  have absent : job ∉ active := fun member => follows.under.ne_none member idle
  have began : (systemTasks stage.systems).start job state.world = some (made, world) := by
    simp only [systemTasks, found, Option.bind_some]
    exact called
  refine ⟨job, { follows with
    unique := ?_
    running := ?_
    inRange := ?_
    listed := ?_
    under := follows.under.begin absent began }⟩
  · rw [← List.concat_eq_append, List.nodup_concat]
    exact ⟨absent, follows.unique⟩
  · intro other member
    rcases List.mem_append.mp member with before | last
    · exact follows.running other before
    · rw [List.mem_singleton.mp last]
      exact running
  · intro other member
    rcases List.mem_append.mp member with before | last
    · exact follows.inRange other before
    · rw [List.mem_singleton.mp last]
      exact (List.getElem?_eq_some_iff.mp found).1
  · intro other under
    by_cases same : other = job
    · exact List.mem_append_right _ (List.mem_singleton.mpr same)
    · apply List.mem_append_left
      apply follows.listed
      rwa [calls_setCall, Function.update_of_ne same] at under

/-- A system makes its next instruction. -/
theorem Follows.instructed (follows : Follows stage schedule graph w events active middle state)
    (scheduled : Scheduled stage schedule history graph) (intact : stage.Intact w) {thread : Nat}
    (stepped : state.instruct thread = some next) :
    Follows stage schedule graph w events active middle next := by
  simp only [instruct, Option.bind_eq_bind, Option.bind_eq_some_iff, Option.pure_def,
    Option.some.injEq] at stepped
  rcases stepped with ⟨job, current, before, here, ⟨after, world⟩, acted, rfl⟩
  have member : job ∈ active := follows.listed job (by rw [here]; exact Option.some_ne_none _)
  refine { follows with
    listed := ?_
    under := follows.under.act follows.unique (follows.apart scheduled)
      (follows.indexed scheduled intact) member here acted }
  intro other under
  by_cases same : other = job
  · exact same ▸ member
  · apply follows.listed
    rwa [calls_setCall, Function.update_of_ne same] at under

/-- A system returns. -/
theorem Follows.returned (follows : Follows stage schedule graph w events active middle state)
    (scheduled : Scheduled stage schedule history graph) (intact : stage.Intact w) {thread : Nat}
    (stepped : state.returns thread = some next) : ∃ job active middle,
    Follows stage schedule graph w (events ++ [.answer thread job .Done]) active middle next := by
  simp only [returns, Option.bind_eq_bind, Option.bind_eq_some_iff] at stepped
  rcases stepped with ⟨job, current, ⟨program, handles⟩, here, stepped⟩
  cases program with
  | panic => cases stepped
  | step instruction onwards => cases stepped
  | finish =>
      simp only [Option.bind_eq_some_iff, Option.pure_def, Option.some.injEq] at stepped
      rcases stepped with ⟨pool, answered, rfl⟩
      have member : job ∈ active := follows.listed job (by rw [here]; exact Option.some_ne_none _)
      rcases follows.under.finish follows.unique (follows.apart scheduled)
        (follows.indexed scheduled intact) member here rfl with ⟨after, executed, rest⟩
      have inside := follows.inRange job member
      have poolStepped : state.pool.step (.answer thread job .Done) = some pool := answered
      have longer : finished stage (events ++ [.answer thread job .Done]) =
          finished stage events ++ [job] := by
        rw [finished, finished, Pool.doneIds_append, List.filter_append]
        congr 1
        simp [doneIds, inside]
      rcases isRunning_of_current current with ⟨_, _, _, _, running⟩
      refine ⟨job, active.erase job, after,
        { systems := follows.systems
          tracks := follows.tracks.step scheduled.acyclic poolStepped
          begins := ?_
          ran := ?_
          unique := follows.unique.erase _
          running := ?_
          inRange := fun other member => follows.inRange other (List.mem_of_mem_erase member)
          listed := ?_
          under := rest }⟩
      · rw [longer]
        exact follows.concat scheduled running inside
      · rw [longer, SystemStage.runInOrder_concat, Action.andThen_eq_some]
        rw [systemTasks_execute] at executed
        exact ⟨(), middle, follows.ran, executed⟩
      · intro other inRest
        rcases (List.Nodup.mem_erase_iff follows.unique).mp inRest with ⟨different, member⟩
        rcases follows.running other member with ⟨running, among, stillPending, rfl⟩
        refine ⟨running, ?_, stillPending, rfl⟩
        apply Pool.executing_step poolStepped among stillPending
        intro _ _ same
        exact different (PoolEvent.answer.inj same).2.1.symm
      · intro other under
        by_cases same : other = job
        · rw [calls_setCall, same, Function.update_self] at under
          exact absurd rfl under
        · rw [calls_setCall, Function.update_of_ne same] at under
          exact (List.mem_erase_of_ne same).mpr (follows.listed other under)

/-- What has been done stays done. -/
theorem Follows.step (follows : Follows stage schedule graph w events active middle state)
    (scheduled : Scheduled stage schedule history graph) (intact : stage.Intact w)
    {event : StageEvent} (stepped : state.step event = some next) :
    ∃ more active middle, Follows stage schedule graph w (events ++ more) active middle next := by
  cases event with
  | pool event => exact ⟨[event], _, _, follows.pool scheduled stepped⟩
  | call thread =>
      rcases follows.called stepped with ⟨job, followsNext⟩
      exact ⟨[], _, _, (List.append_nil events).symm ▸ followsNext⟩
  | instruct thread =>
      have followsNext := follows.instructed scheduled intact stepped
      exact ⟨[], _, _, (List.append_nil events).symm ▸ followsNext⟩
  | returns thread =>
      rcases follows.returned scheduled intact stepped with ⟨job, _, _, followsNext⟩
      exact ⟨_, _, _, followsNext⟩

theorem follows_start (scheduled : Scheduled stage schedule history graph) (workers caller : Nat) :
    Follows stage schedule graph w [] [] w (start stage.systems graph workers caller w) where
  systems := rfl
  tracks := Pool.tracks_runGraph workers caller scheduled.acyclic
  begins := Schedule.begins_nil schedule
  ran := rfl
  unique := List.nodup_nil
  running := List.forall_mem_nil _
  inRange := List.forall_mem_nil _
  listed _ absent := absurd rfl absent
  under := .nil

theorem Follows.run (follows : Follows stage schedule graph w events active middle state)
    (scheduled : Scheduled stage schedule history graph) (intact : stage.Intact w)
    {steps : List StageEvent} (ran : steps.foldlM StageRun.step state = some next) :
    ∃ events active middle, Follows stage schedule graph w events active middle next := by
  refine foldlM_preserves (fun state => ∃ events active middle,
    Follows stage schedule graph w events active middle state) ?_
    ⟨events, active, middle, follows⟩ ran
  rintro state next event ⟨events, active, middle, follows⟩ stepped
  rcases follows.step scheduled intact stepped with ⟨more, _, _, followsNext⟩
  exact ⟨events ++ more, _, _, followsNext⟩

/-- When every system has returned, none is under way. -/
theorem Follows.runSorted (follows : Follows stage schedule graph w events active middle state)
    (scheduled : Scheduled stage schedule history graph) (intact : stage.Intact w)
    (all : ∀ i < stage.systems.length, i ∈ finished stage events) :
    stage.runSorted w = some ((), state.world) := by
  have nobody : active = [] := by
    rw [List.eq_nil_iff_forall_not_mem]
    intro job member
    rcases follows.running job member with ⟨execution, listed, pending, rfl⟩
    have among := all execution.todos (follows.inRange _ member)
    exact (follows.tracks.of_executing scheduled.acyclic listed pending).1
      (List.mem_filter.mp among).1
  rw [← scheduled.recorded.length] at all
  have ran := follows.ran
  rw [SystemStage.runInOrder_eq_runSorted scheduled.recorded (follows.begins.respects all) intact]
    at ran
  have under := follows.under
  rw [nobody] at under
  cases under
  exact ran

theorem Follows.all_of_done (follows : Follows stage schedule graph w events active middle state)
    (scheduled : Scheduled stage schedule history graph)
    (done : handleDone state.pool.counters graph.root = true) :
    ∀ i < stage.systems.length, i ∈ finished stage events := by
  intro i inside
  rw [finished, List.mem_filter, decide_eq_true_eq]
  exact ⟨follows.tracks.rootLast done i (scheduled.root ▸ inside), inside⟩

/-- A system whose turn it is does not panic, unless it or one before it does in the sorted
run. -/
theorem Follows.goesOn (follows : Follows stage schedule graph w events active middle state)
    (scheduled : Scheduled stage schedule history graph) (intact : stage.Intact w)
    {after : World Value} (sorted : stage.runSorted w = some ((), after)) {thread : Nat}
    {job : Todos} (current : state.current thread = some job)
    (inside : job < stage.systems.length) :
    (state.calls job = none → ∃ next, state.call thread = some next) ∧
      ∀ call, state.calls job = some call →
        (call.1 = .finish → ∃ next, state.returns thread = some next) ∧
        (call.1 ≠ .finish → ∃ next, state.instruct thread = some next) := by
  rcases isRunning_of_current current with ⟨taken, stack, found, isTaken, running⟩
  have indexed := follows.indexed scheduled intact
  have runs : ((systemTasks stage.systems).execute job middle).isSome = true := by
    have longer := follows.concat scheduled running inside
    rcases longer.runs scheduled.recorded scheduled.forward intact sorted with ⟨last, ran⟩
    rw [SystemStage.runInOrder_concat] at ran
    rcases Action.andThen_eq_some.mp ran with ⟨_, between, before, executed⟩
    rw [follows.ran] at before
    cases before
    rw [systemTasks_execute]
    exact Option.isSome_iff_exists.mpr ⟨_, executed⟩
  constructor
  · intro here
    have absent : job ∉ active := fun member => follows.under.ne_none member here
    have apart : ∀ other ∈ active, (systemTasks stage.systems).Apart (World.parts Value)
        World.Indexed (footprints history) job other := by
      intro other member
      exact (scheduled.beside follows.tracks running (follows.running other member)
        (ne_of_mem_of_not_mem member absent).symm inside (follows.inRange other member)).tasks
    rcases Option.isSome_iff_exists.mp (follows.under.canBegin apart indexed runs) with
      ⟨⟨call, world⟩, began⟩
    rcases Option.bind_eq_some_iff.mp began with ⟨sys, atJob, called⟩
    exact ⟨_, by simp [StageRun.call, current, here, follows.systems, atJob, called]; rfl⟩
  · intro call here
    have member : job ∈ active := follows.listed job (by rw [here]; exact Option.some_ne_none _)
    constructor
    · intro ended
      rcases call with ⟨program, handles⟩
      cases ended
      change state.pool.executing[thread]? = some (⟨taken, none⟩ :: stack) at found
      exact ⟨_, by simp [returns, current, here, Pool.answer, found, isTaken]; rfl⟩
    · intro goesOn
      rcases Option.isSome_iff_exists.mp (follows.under.canAct (follows.apart scheduled) indexed
        member here goesOn runs) with ⟨⟨next, world⟩, acted⟩
      have acts : call.act state.world = some (next, world) := acted
      exact ⟨_, by simp [instruct, current, here, acts]; rfl⟩

/-- However the instructions of the systems interleave, and whichever threads run them: when
`run_graph` returns, the world is as the sorted run leaves it; and when the sorted run
returns, no system panics on the way. -/
theorem serializable {builder : SystemStageBuilder (Program Value)}
    (built : builder.build = some stage) (made : Schedule.fromStage stage = some schedule)
    (jobs : schedule.jobs stage.systems = some graph) (intact : stage.Intact w)
    {workers caller : Nat} {steps : List StageEvent}
    (ran : steps.foldlM StageRun.step (start stage.systems graph workers caller w) = some state) :
    (handleDone state.pool.counters graph.root = true →
      stage.runSorted w = some ((), state.world)) ∧
    ∀ after, stage.runSorted w = some ((), after) → ∀ thread job,
      state.current thread = some job → job < stage.systems.length →
      ∃ event ∈ [StageEvent.call thread, .instruct thread, .returns thread],
        (state.step event).isSome = true := by
  rcases Schedule.fromStage_recorded made with ⟨history, recorded⟩
  have scheduled : Scheduled stage schedule history graph :=
    ⟨recorded, Schedule.fromStage_forward built made, jobs⟩
  rcases (follows_start scheduled workers caller).run scheduled intact ran with
    ⟨events, active, middle, follows⟩
  constructor
  · exact fun done => follows.runSorted scheduled intact (follows.all_of_done scheduled done)
  · intro after sorted thread job current inside
    rcases follows.goesOn scheduled intact sorted current inside with ⟨called, goesOn⟩
    cases here : state.calls job with
    | none =>
        rcases called here with ⟨next, stepped⟩
        exact ⟨.call thread, by simp, Option.isSome_iff_exists.mpr ⟨next, stepped⟩⟩
    | some call =>
        by_cases ended : call.1 = .finish
        · rcases (goesOn call here).1 ended with ⟨next, stepped⟩
          exact ⟨.returns thread, by simp, Option.isSome_iff_exists.mpr ⟨next, stepped⟩⟩
        · rcases (goesOn call here).2 ended with ⟨next, stepped⟩
          exact ⟨.instruct thread, by simp, Option.isSome_iff_exists.mpr ⟨next, stepped⟩⟩

end StageRun

end Runs

section Example

open Sample

def threeJobs : HomogeneousJobGraph (ErasedSystem (Program Nat)) :=
  ⟨threeSystems.systems, [(1, 2), (0, 2)]⟩

/-- The first system runs on a worker while the second one runs on the caller. -/
def threeSteps : List StageEvent :=
  [.pool .addChild, .pool .checkReady, .pool .push, .pool .addChild, .pool .checkReady,
    .pool .push, .pool (.steal 0 1 1), .pool (.pop 0 0), .pool .addChild, .call 0,
    .pool .checkReady, .pool .push, .pool .takeRoot, .pool .checkReady, .pool .push,
    .pool (.pop 1 1), .call 1, .instruct 0, .instruct 1, .returns 1, .instruct 0,
    .pool (.release 1), .returns 0, .pool (.release 0), .pool (.release 1), .pool (.finish 1),
    .pool (.promote 1 0), .pool (.pop 1 2), .pool (.release 0), .pool (.finish 0), .call 1,
    .instruct 1, .returns 1, .pool (.release 1), .pool (.finish 1), .pool (.promote 1 0),
    .pool (.pop 1 3), .pool (.answer 1 3 .Done), .pool (.finish 1)]

theorem intact_threeSystems {start resized w : World Nat} (created : World.new 4 = some start)
    (resize : Call.run start (.resizeCommands 3) = some resized)
    (insert : Call.run resized (.insertResource 7#128 1) = some w) :
    SystemStage.Intact ⟨threeSystems.systems⟩ w := by
  have reachable : Reachable (fun w call => call.Accounts w) w :=
    .call (.call (.new created) (by trivial) (by trivial) resize) (by trivial) (by trivial) insert
  refine ⟨reachable.indexed, ?_⟩
  intro front sys back last split alone
  have shared : ∀ sys ∈ threeSystems.systems, sys.descriptor.exclusive = false := by decide
  have member : sys ∈ threeSystems.systems :=
    (show threeSystems.systems = _ from split) ▸ List.mem_append_right front List.mem_cons_self
  rw [shared sys member] at alone
  cases alone

theorem StageRun.serializable_sample : ∃ (w : World Nat) (state : StageRun Nat),
    threeSteps.foldlM StageRun.step (StageRun.start threeSystems.systems threeJobs 1 1 w) =
      some state ∧ SystemStage.runSorted ⟨threeSystems.systems⟩ w = some ((), state.world) := by
  have built : threeSystems.build = some ⟨threeSystems.systems⟩ := rfl
  have made : Schedule.fromStage ⟨threeSystems.systems⟩ = some ⟨[[], [], [1, 0]]⟩ := rfl
  have jobs : Schedule.jobs ⟨[[], [], [1, 0]]⟩ threeSystems.systems = some threeJobs := rfl
  obtain ⟨start, resized, w, state, created, resize, insert, ran, done⟩ :
      ∃ (start resized w : World Nat) (state : StageRun Nat), World.new 4 = some start ∧
        Call.run start (.resizeCommands 3) = some resized ∧
        Call.run resized (.insertResource 7#128 1) = some w ∧
        threeSteps.foldlM StageRun.step
          (StageRun.start threeSystems.systems threeJobs 1 1 w) = some state ∧
        handleDone state.pool.counters threeJobs.root = true :=
    ⟨_, _, _, _, rfl, rfl, rfl, rfl, rfl⟩
  exact ⟨w, state, ran, (StageRun.serializable built made jobs
    (intact_threeSystems created resize insert) ran).1 done⟩

end Example

end Cecs

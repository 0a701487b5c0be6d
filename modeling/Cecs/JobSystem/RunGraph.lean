import Cecs.Foundation.Acyclic
import Cecs.JobSystem.Effects

/-! # Runs of a job graph

A counter is the number of decrements to come: one for the job itself and one for
each of its parents. A job is ready when only its own is left. -/

namespace Cecs

namespace JobSystem

open Foundation

namespace HomogeneousJobGraph

variable {T : Type} {graph : HomogeneousJobGraph T} {edges : List (Nat × Nat)} {size : Nat}
  {counters : Counters} {jobs : List Job}

/-- The jobs and counters that `get_jobs` makes of the edges. -/
structure Made (edges : List (Nat × Nat)) (size : Nat) (counters : Counters)
    (jobs : List Job) : Prop where
  ids : jobs.map Job.tasksLeft = List.range size
  data : ∀ job ∈ jobs, job.data = true
  children : ∀ job ∈ jobs, ∀ child, child ∈ job.children ↔ (job.tasksLeft, child) ∈ edges
  counts : ∀ todos, counters todos =
    ((jobs.map Job.idle).flatMap Execution.tokens).count todos

theorem Made.addChild (made : Made edges size counters jobs) {parent child : Nat}
    (inRange : parent < size) :
    Made (edges ++ [(parent, child)]) size (fetchAdd counters child)
      (jobs.modify parent (Job.addChild · child)) := by
  have length : jobs.length = size := by
    rw [← List.length_map Job.tasksLeft, made.ids, List.length_range]
  have inJobs : parent < jobs.length := by rwa [length]
  have id : jobs[parent].tasksLeft = parent := by
    have position := congrArg (fun ids => ids[parent]?) made.ids
    simpa [inJobs, inRange] using position
  have replaced : jobs.modify parent (Job.addChild · child) =
      jobs.set parent (jobs[parent].addChild child) := List.modify_eq_set_get _ inJobs
  have before := List.getElem_cons_eraseIdx_perm inJobs
  have after := List.set_perm_cons_eraseIdx inJobs (jobs[parent].addChild child)
  rw [← replaced] at after
  -- The other jobs have other numbers.
  have others : parent ∉ (jobs.eraseIdx parent).map Job.tasksLeft := by
    have distinct := (before.map Job.tasksLeft).nodup_iff.mpr (made.ids ▸ List.nodup_range)
    rw [List.map_cons, id] at distinct
    exact (List.nodup_cons.mp distinct).1
  constructor
  · rw [← made.ids]
    apply List.ext_getElem?
    intro position
    simp only [List.getElem?_map, List.getElem?_modify]
    cases jobs[position]? with
    | none => rfl
    | some job =>
        simp only [Option.map_eq_map, Option.map_some]
        split
        · rfl
        · rfl
  · intro job member
    rcases List.mem_cons.mp (after.mem_iff.mp member) with rfl | member
    · exact made.data jobs[parent] (List.getElem_mem inJobs)
    · exact made.data job (List.mem_of_mem_eraseIdx member)
  · intro job member other
    rcases List.mem_cons.mp (after.mem_iff.mp member) with rfl | member
    · have old := made.children _ (List.getElem_mem inJobs) other
      simp [Job.addChild, old, id]
    · have notParent : job.tasksLeft ≠ parent :=
        fun same => others (List.mem_map.mpr ⟨job, member, same⟩)
      simp [made.children job (List.mem_of_mem_eraseIdx member) other, notParent]
  · intro todos
    have old := ((before.map Job.idle).flatMap_right Execution.tokens).count_eq todos
    have new := ((after.map Job.idle).flatMap_right Execution.tokens).count_eq todos
    have added : (jobs[parent].addChild child).idle.tokens =
        jobs[parent].idle.tokens ++ [child] := rfl
    rw [new, List.map_cons, List.flatMap_cons, added]
    rw [List.map_cons, List.flatMap_cons] at old
    simp only [List.count_append, List.count_cons, List.count_nil] at old ⊢
    rw [fetchAdd, Function.update_apply, made.counts, made.counts]
    by_cases same : todos = child
    · subst same
      simp only [if_pos, beq_self_eq_true]
      omega
    · have other : (child == todos) = false := by simpa using Ne.symm same
      rw [if_neg same, other]
      simp only [Bool.false_eq_true, if_false]
      omega

/-- The jobs hold counters of each other only. -/
theorem Made.token_lt (made : Made edges size counters jobs)
    (inRange : ∀ edge ∈ edges, edge.1 < size ∧ edge.2 < size) {todos : Todos}
    (member : todos ∈ (jobs.map Job.idle).flatMap Execution.tokens) : todos < size := by
  rcases List.mem_flatMap.mp member with ⟨execution, listed, held⟩
  rcases List.mem_map.mp listed with ⟨job, inGraph, rfl⟩
  rcases List.mem_cons.mp held with rfl | child
  · have numbered : job.tasksLeft ∈ List.range size := made.ids ▸ List.mem_map_of_mem inGraph
    exact List.mem_range.mp numbered
  · exact (inRange _ ((made.children job inGraph todos).mp child)).2

theorem tokens_map_new (numbers : List Nat) :
    ((numbers.map Job.new).map Job.idle).flatMap Execution.tokens = numbers := by
  induction numbers with
  | nil => rfl
  | cons head tail induction =>
      rw [List.map_cons, List.map_cons, List.flatMap_cons, induction]
      rfl

theorem made_new (size : Nat) :
    Made [] size (fun todos => if todos < size then 1 else 0)
      ((List.range size).map Job.new) where
  ids := by simp [Job.new, Function.comp_def]
  data := by simp [Job.new]
  children := by simp [Job.new]
  counts todos := by
    rw [tokens_map_new, List.count_range]
    split
    · rfl
    · rfl

/-- What `get_jobs` returns. -/
theorem made_getJobs
    (inRange : ∀ edge ∈ graph.edges, edge.1 < graph.jobs.length ∧ edge.2 < graph.jobs.length) :
    Made graph.edges graph.jobs.length graph.getJobs.1 graph.getJobs.2 := by
  have made : ∀ edges : List (Nat × Nat), (∀ edge ∈ edges, edge.1 < graph.jobs.length) →
      Made edges graph.jobs.length
        (addChildren edges (fun todos => if todos < graph.jobs.length then 1 else 0)
          ((List.range graph.jobs.length).map Job.new)).1
        (addChildren edges (fun todos => if todos < graph.jobs.length then 1 else 0)
          ((List.range graph.jobs.length).map Job.new)).2 := by
    intro edges inRange
    induction edges using List.reverseRecOn with
    | nil => exact made_new graph.jobs.length
    | append_singleton edges edge induction =>
        rcases edge with ⟨parent, child⟩
        rw [addChildren, List.foldl_append]
        have earlier := induction fun edge member => inRange edge (List.mem_append_left _ member)
        exact earlier.addChild (inRange (parent, child) (by simp))
  exact made graph.edges fun edge member => (inRange edge member).1

end HomogeneousJobGraph

/-- The jobs that answered `Done`, in order. -/
def doneIds (events : List PoolEvent) : List Todos :=
  events.filterMap fun
    | .answer _ job .Done => some job
    | _ => none

/-- Edges, and from every job to the root. -/
def HomogeneousJobGraph.IsParent {T : Type} (graph : HomogeneousJobGraph T)
    (parent child : Nat) : Prop :=
  graph.IsEdge parent child ∨ parent < graph.jobs.length ∧ child = graph.root

theorem HomogeneousJobGraph.Acyclic.ne_of_isParent {T : Type}
    {graph : HomogeneousJobGraph T} (acyclic : graph.Acyclic) {parent child : Nat}
    (isParent : graph.IsParent parent child) :
    parent < graph.jobs.length ∧ parent ≠ child := by
  rcases isParent with edge | ⟨inRange, rfl⟩
  · exact ⟨(acyclic.inRange _ edge).1, fun same => acyclic.noCycle child (.single (same ▸ edge))⟩
  · exact ⟨inRange, Nat.ne_of_lt inRange⟩

theorem HomogeneousJobGraph.Acyclic.noCycle_isParent {T : Type} {graph : HomogeneousJobGraph T}
    (acyclic : graph.Acyclic) (job : Nat) : ¬Relation.TransGen graph.IsParent job job := by
  have path : ∀ start goal, Relation.TransGen graph.IsParent start goal →
      start < graph.jobs.length ∧
        (goal = graph.root ∨ Relation.TransGen graph.IsEdge start goal) := by
    intro start goal path
    induction path with
    | single step =>
        refine ⟨(acyclic.ne_of_isParent step).1, ?_⟩
        rcases step with edge | ⟨_, isRoot⟩
        · exact Or.inr (.single edge)
        · exact Or.inl isRoot
    | tail before step induction =>
        refine ⟨induction.1, ?_⟩
        rcases step with edge | ⟨_, isRoot⟩
        · rcases induction.2 with rfl | edges
          · exact absurd (acyclic.inRange _ edge).1 (Nat.lt_irrefl graph.jobs.length)
          · exact Or.inr (edges.tail edge)
        · exact Or.inl isRoot
  intro cycle
  rcases path job job cycle with ⟨inRange, rfl | edges⟩
  · exact Nat.lt_irrefl graph.jobs.length inRange
  · exact acyclic.noCycle job edges

namespace Pool

variable {T : Type} {graph : HomogeneousJobGraph T} {events : List PoolEvent}
  {pool next : Pool} {event : PoolEvent}

/-- The counters of its children wait for the job, and for nobody else. -/
structure Fits (graph : HomogeneousJobGraph T) (job : Job) : Prop where
  data : job.data = true
  parent : ∀ child ∈ job.children, graph.IsParent job.tasksLeft child
  child : ∀ child, graph.IsEdge job.tasksLeft child → child ∈ job.children

/-- What holds after the events of a run. -/
structure Tracks (graph : HomogeneousJobGraph T) (events : List PoolEvent) (pool : Pool) :
    Prop where
  counts : ∀ todos, pool.counters todos = ((pool.all.flatMap Execution.tokens).count todos : Nat)
  distinct : (pool.all.map Execution.todos).Nodup
  accounted : ((pool.all.filter Execution.isPending).map Execution.todos ++ doneIds events).Perm
    (List.range (graph.root + 1))
  fits : ∀ job : Job, job.idle ∈ pool.all → Fits graph job
  rootAdded : ∀ job : Job, job.idle ∈ pool.entered → job.tasksLeft ≠ graph.root →
    graph.root ∈ job.children
  root : ∀ jobs root, pool.rest = some (jobs, root) → root.tasksLeft = graph.root
  ready : ∀ job ∈ pool.cleared, pool.counters job.tasksLeft = 1
  ordered : ∀ parent child, graph.IsParent parent child → child ∈ doneIds events →
    parent ∈ doneIds events

theorem idle_mem_entered {job : Job} (cleared : job ∈ pool.cleared) : job.idle ∈ pool.entered := by
  simp only [entered, List.mem_append, List.mem_map]
  rcases mem_cleared.mp cleared with atHand | queued | ⟨execution, member, pending, rfl⟩
  · left
    exact ⟨job, Or.inl (Or.inl ⟨(job, some true), by simp [atHand], rfl⟩), rfl⟩
  · exact Or.inl ⟨job, Or.inl (Or.inr queued), rfl⟩
  · exact Or.inr (Execution.eq_idle pending ▸ member)

theorem map_todos_idle (jobs : List Job) :
    (jobs.map Job.idle).map Execution.todos = jobs.map Job.tasksLeft := by
  rw [List.map_map]
  rfl

theorem doneIds_append (first second : List PoolEvent) :
    doneIds (first ++ second) = doneIds first ++ doneIds second := List.filterMap_append

theorem doneIds_quiet (quiet : ∀ thread job, event ≠ .answer thread job .Done) :
    doneIds (events ++ [event]) = doneIds events := by
  rw [doneIds_append]
  cases event with
  | answer thread job state =>
      cases state with
      | Done => exact absurd rfl (quiet thread job)
      | Reenqueue => exact List.append_nil _
  | _ => exact List.append_nil _

section All

variable {execution : Execution} {others : List Execution}

theorem all_perm (entered : pool.entered.Perm (execution :: others)) :
    pool.all.Perm (execution :: (pool.unentered.map Job.idle ++ others)) :=
  (entered.append_left _).trans List.perm_middle

theorem all_perm_of_rest (rest : next.rest = pool.rest) (entered : next.entered.Perm others) :
    next.all.Perm (pool.unentered.map Job.idle ++ others) := by
  have same : next.unentered = pool.unentered := by
    rw [unentered, unentered, rest]
  rw [all, same]
  exact entered.append_left _

theorem count_tokens {executions : List Execution} (perm : executions.Perm (execution :: others))
    (todos : Todos) : (executions.flatMap Execution.tokens).count todos =
      execution.tokens.count todos + (others.flatMap Execution.tokens).count todos := by
  rw [(perm.flatMap_right Execution.tokens).count_eq, List.flatMap_cons, List.count_append]

end All

/-- The tokens of two executions are apart. -/
theorem count_two_tokens {executions : List Execution} {first second : Execution}
    (memberFirst : first ∈ executions) (memberSecond : second ∈ executions)
    (different : second ≠ first) (todos : Todos) :
    first.tokens.count todos + second.tokens.count todos ≤
      (executions.flatMap Execution.tokens).count todos := by
  have rest : second ∈ executions.erase first := (List.mem_erase_of_ne different).mpr memberSecond
  rw [count_tokens (List.perm_cons_erase memberFirst), count_tokens (List.perm_cons_erase rest)]
  omega

theorem Execution.count_self (execution : Execution) :
    1 ≤ execution.tokens.count execution.todos := by
  rw [Execution.tokens, List.count_cons_self]
  omega

theorem root_unentered {jobs : List Job} {root : Job} (rest : pool.rest = some (jobs, root)) :
    root.idle ∈ pool.unentered.map Job.idle := by
  simp [unentered, rest]

theorem Tracks.ne_of_unentered (tracks : Tracks graph events pool) {job : Job}
    {execution : Execution} (before : job.idle ∈ pool.unentered.map Job.idle)
    (after : execution ∈ pool.entered) : job.tasksLeft ≠ execution.todos := by
  have distinct := tracks.distinct
  rw [all, List.map_append, List.nodup_append] at distinct
  exact distinct.2.2 _ (List.mem_map_of_mem before) _ (List.mem_map_of_mem after)

theorem Tracks.le_root (tracks : Tracks graph events pool) {job : Job}
    (member : job.idle ∈ pool.all) : job.tasksLeft ≤ graph.root := by
  have pending : job.idle ∈ pool.all.filter Execution.isPending :=
    List.mem_filter.mpr ⟨member, rfl⟩
  have listed := tracks.accounted.mem_iff.mp
    (List.mem_append_left (doneIds events) (List.mem_map_of_mem pending))
  exact Nat.le_of_lt_succ (List.mem_range.mp listed)

/-- A pending parent still holds the counter of its child. -/
theorem Tracks.child_of_pending (tracks : Tracks graph events pool) {parent job : Job}
    (pending : parent.idle ∈ pool.all) (entered : job.idle ∈ pool.entered)
    (isParent : graph.IsParent parent.tasksLeft job.tasksLeft) :
    job.tasksLeft ∈ parent.children := by
  rcases isParent with edge | ⟨inRange, isRoot⟩
  · exact (tracks.fits parent pending).child _ edge
  · rw [isRoot]
    rcases List.mem_append.mp pending with before | after
    · -- Then the root is not entered either, but it is the job.
      cases rest : pool.rest with
      | none => simp [unentered, rest] at before
      | some others =>
          rcases others with ⟨jobs, root⟩
          have same := tracks.root jobs root rest
          exact absurd (same.trans isRoot.symm)
            (tracks.ne_of_unentered (root_unentered rest) entered)
    · exact tracks.rootAdded parent after (Nat.ne_of_lt inRange)

/-- A job that was found ready has no parent that is not done. -/
theorem Tracks.parents_done (tracks : Tracks graph events pool) (acyclic : graph.Acyclic)
    {job : Job} (cleared : job ∈ pool.cleared) {parent : Nat}
    (isParent : graph.IsParent parent job.tasksLeft) : parent ∈ doneIds events := by
  have entered := idle_mem_entered cleared
  have member : job.idle ∈ pool.all := List.mem_append_right _ entered
  rcases acyclic.ne_of_isParent isParent with ⟨inRange, different⟩
  have listed : parent ∈ List.range (graph.root + 1) :=
    List.mem_range.mpr (Nat.lt_succ_of_lt inRange)
  rcases List.mem_append.mp (tracks.accounted.mem_iff.mpr listed) with waiting | done
  · rcases List.mem_map.mp waiting with ⟨execution, pending, rfl⟩
    rcases List.mem_filter.mp pending with ⟨memberParent, notDone⟩
    rw [Execution.eq_idle notDone] at memberParent isParent different
    have child := tracks.child_of_pending memberParent entered isParent
    have apart : execution.job.idle ≠ job.idle := fun same =>
      different (congrArg Execution.todos same)
    have tokens := count_two_tokens member memberParent apart job.tasksLeft
    have own := Execution.count_self job.idle
    have held : 1 ≤ execution.job.idle.tokens.count job.tasksLeft :=
      List.one_le_count_iff.mpr (List.mem_cons_of_mem _ child)
    have counted := tracks.counts job.tasksLeft
    rw [tracks.ready job cleared] at counted
    rw [Execution.todos_idle] at own
    omega
  · exact done

theorem fetchAdd_apply (counters : Counters) (todos other : Todos) :
    fetchAdd counters todos other = counters other + ([todos].count other : Nat) := by
  rw [fetchAdd, Function.update_apply, List.count_singleton]
  by_cases same : other = todos
  · simp [same]
  · simp [same, Ne.symm same]

theorem fetchSub_apply (counters : Counters) (todos other : Todos) :
    fetchSub counters todos other = counters other - ([todos].count other : Nat) := by
  rw [fetchSub, Function.update_apply, List.count_singleton]
  by_cases same : other = todos
  · simp [same]
  · simp [same, Ne.symm same]

theorem Tracks.moves (tracks : Tracks graph events pool)
    (quiet : ∀ thread job, event ≠ .answer thread job .Done)
    (counters : next.counters = pool.counters) (rest : next.rest = pool.rest)
    (entered : next.entered.Perm pool.entered)
    (cleared : ∀ job ∈ next.cleared, job ∈ pool.cleared ∨ job.ready pool.counters = true) :
    Tracks graph (events ++ [event]) next := by
  have all : next.all.Perm pool.all := all_perm_of_rest rest entered
  constructor
  · intro todos
    rw [counters, tracks.counts, (all.flatMap_right Execution.tokens).count_eq]
  · exact (all.map Execution.todos).nodup_iff.mpr tracks.distinct
  · rw [doneIds_quiet quiet]
    exact (((all.filter _).map _).append_right _).trans tracks.accounted
  · exact fun job member => tracks.fits job (all.mem_iff.mp member)
  · exact fun job member => tracks.rootAdded job (entered.mem_iff.mp member)
  · exact rest ▸ tracks.root
  · intro job member
    rw [counters]
    rcases cleared job member with old | ready
    · exact tracks.ready job old
    · rw [Job.ready, Bool.and_eq_true, decide_eq_true_eq] at ready
      exact ready.1
  · rw [doneIds_quiet quiet]
    exact tracks.ordered

theorem Tracks.addsChild (tracks : Tracks graph events pool) {job root : Job} {jobs : List Job}
    (rest : pool.rest = some (job :: jobs, root)) (restNext : next.rest = some (jobs, root))
    (counters : next.counters = fetchAdd pool.counters root.tasksLeft)
    (entered : next.entered.Perm ((job.addChild root.tasksLeft).idle :: pool.entered))
    (cleared : next.cleared = pool.cleared) :
    Tracks graph (events ++ [.addChild]) next := by
  have before : pool.all = job.idle :: ((jobs ++ [root]).map Job.idle ++ pool.entered) := by
    simp [all, unentered, rest]
  have after : next.all.Perm ((job.addChild root.tasksLeft).idle ::
      ((jobs ++ [root]).map Job.idle ++ pool.entered)) := by
    have same : next.unentered = jobs ++ [root] := by
      simp [unentered, restNext]
    rw [all, same]
    exact (entered.append_left _).trans List.perm_middle
  have quiet : doneIds (events ++ [.addChild]) = doneIds events := doneIds_quiet fun _ _ => nofun
  have isRoot := tracks.root (job :: jobs) root rest
  have member : job.idle ∈ pool.all := before ▸ List.mem_cons_self ..
  have inRange : job.tasksLeft < graph.jobs.length := by
    have different := tracks.distinct
    rw [before, List.map_cons, List.nodup_cons] at different
    have notRoot : job.tasksLeft ≠ graph.root := by
      intro same
      apply different.1
      simp [same, ← isRoot]
    exact Nat.lt_of_le_of_ne (tracks.le_root member) notRoot
  constructor
  · intro todos
    have old := count_tokens (.of_eq before) todos
    have added : (job.addChild root.tasksLeft).idle.tokens =
        job.idle.tokens ++ [root.tasksLeft] := rfl
    rw [counters, fetchAdd_apply, tracks.counts, count_tokens after, added, List.count_append, old]
    omega
  · have distinct := tracks.distinct
    rw [before] at distinct
    exact (after.map Execution.todos).nodup_iff.mpr distinct
  · have accounted := tracks.accounted
    rw [before] at accounted
    rw [quiet]
    exact (((after.filter _).map _).append_right _).trans accounted
  · intro other memberNext
    rcases List.mem_cons.mp (after.mem_iff.mp memberNext) with same | old
    · cases same
      have fits := tracks.fits job member
      refine ⟨fits.data, ?_, fun child edge => List.mem_append_left _ (fits.child child edge)⟩
      intro child memberChild
      rcases List.mem_append.mp memberChild with listed | isNew
      · exact fits.parent child listed
      · cases List.mem_singleton.mp isNew
        exact Or.inr ⟨inRange, isRoot⟩
    · exact tracks.fits other (before ▸ List.mem_cons_of_mem _ old)
  · intro other memberNext notRoot
    rcases List.mem_cons.mp (entered.mem_iff.mp memberNext) with same | old
    · cases same
      exact isRoot ▸ List.mem_append_right _ (List.mem_singleton_self _)
    · exact tracks.rootAdded other old notRoot
  · intro others other restAfter
    rw [restNext, Option.some.injEq, Prod.mk.injEq] at restAfter
    exact restAfter.2 ▸ isRoot
  · intro other memberNext
    rw [cleared] at memberNext
    have notRoot : root.tasksLeft ≠ other.tasksLeft :=
      tracks.ne_of_unentered (root_unentered rest) (idle_mem_entered memberNext)
    rw [counters, fetchAdd, Function.update_of_ne (Ne.symm notRoot)]
    exact tracks.ready other memberNext
  · rw [quiet]
    exact tracks.ordered

theorem Tracks.takesRoot (tracks : Tracks graph events pool) {root : Job}
    (rest : pool.rest = some ([], root)) (restNext : next.rest = none)
    (counters : next.counters = pool.counters)
    (entered : next.entered.Perm (root.idle :: pool.entered))
    (cleared : next.cleared = pool.cleared) : Tracks graph (events ++ [.takeRoot]) next := by
  have all : next.all.Perm pool.all := by
    have before : pool.all = root.idle :: pool.entered := by
      simp [Pool.all, unentered, rest]
    have after : next.all = next.entered := by
      simp [Pool.all, unentered, restNext]
    rw [before, after]
    exact entered
  have quiet : doneIds (events ++ [.takeRoot]) = doneIds events := doneIds_quiet fun _ _ => nofun
  constructor
  · intro todos
    rw [counters, tracks.counts, (all.flatMap_right Execution.tokens).count_eq]
  · exact (all.map Execution.todos).nodup_iff.mpr tracks.distinct
  · rw [quiet]
    exact (((all.filter _).map _).append_right _).trans tracks.accounted
  · exact fun job member => tracks.fits job (all.mem_iff.mp member)
  · intro job member notRoot
    rcases List.mem_cons.mp (entered.mem_iff.mp member) with same | old
    · cases same
      exact absurd (tracks.root [] root rest) notRoot
    · exact tracks.rootAdded job old notRoot
  · intro jobs other some
    rw [restNext] at some
    cases some
  · intro job member
    rw [counters]
    exact tracks.ready job (cleared ▸ member)
  · rw [quiet]
    exact tracks.ordered

theorem Tracks.done (tracks : Tracks graph events pool) (acyclic : graph.Acyclic) {thread : Nat}
    {job : Job} {others : List Execution} (rest : next.rest = pool.rest)
    (counters : next.counters = pool.counters) (entered : pool.entered.Perm (job.idle :: others))
    (enteredNext : next.entered.Perm (⟨{ job with data := false }, some job.children⟩ :: others))
    (cleared : pool.cleared.Perm (job :: next.cleared)) :
    Tracks graph (events ++ [.answer thread job.tasksLeft .Done]) next := by
  have before := all_perm entered
  have after := (all_perm_of_rest rest enteredNext).trans List.perm_middle
  have done : doneIds (events ++ [.answer thread job.tasksLeft .Done]) =
      doneIds events ++ [job.tasksLeft] := doneIds_append ..
  constructor
  · intro todos
    rw [counters, tracks.counts, count_tokens before, count_tokens after]
    rfl
  · have distinct := (before.map Execution.todos).nodup_iff.mp tracks.distinct
    exact (after.map Execution.todos).nodup_iff.mpr distinct
  · rw [List.perm_iff_count]
    intro number
    have accounted := tracks.accounted.count_eq number
    have pending := ((before.filter Execution.isPending).map Execution.todos).count_eq number
    have pendingNext := ((after.filter Execution.isPending).map Execution.todos).count_eq number
    rw [List.filter_cons_of_pos (Execution.isPending_idle job), List.map_cons,
      Execution.todos_idle, List.count_cons] at pending
    rw [List.filter_cons_of_neg Bool.false_ne_true] at pendingNext
    rw [List.count_append] at accounted
    rw [done, List.count_append, List.count_append, List.count_singleton, pendingNext, ← accounted,
      pending]
    omega
  · intro other member
    rcases List.mem_cons.mp (after.mem_iff.mp member) with same | old
    · cases same
    · exact tracks.fits other (before.mem_iff.mpr (List.mem_cons_of_mem _ old))
  · intro other member notRoot
    rcases List.mem_cons.mp (enteredNext.mem_iff.mp member) with same | old
    · cases same
    · exact tracks.rootAdded other (entered.mem_iff.mpr (List.mem_cons_of_mem _ old)) notRoot
  · exact rest ▸ tracks.root
  · intro other member
    rw [counters]
    exact tracks.ready other (cleared.mem_iff.mpr (List.mem_cons_of_mem _ member))
  · intro parent child isParent member
    rw [done, List.mem_append, List.mem_singleton] at member ⊢
    left
    rcases member with old | rfl
    · exact tracks.ordered parent child isParent old
    · exact tracks.parents_done acyclic (cleared.mem_iff.mpr (List.mem_cons_self ..)) isParent

/-- Executions that are done leave the accounts as they are. -/
theorem Tracks.accounted_of_done (tracks : Tracks graph events pool)
    {execution : Execution} {others executions : List Execution}
    (before : pool.all.Perm (execution :: others)) (after : next.all.Perm executions)
    (done : execution.isPending = false)
    (same : executions.filter Execution.isPending = others.filter Execution.isPending)
    (quiet : doneIds (events ++ [event]) = doneIds events) :
    ((next.all.filter Execution.isPending).map Execution.todos ++
      doneIds (events ++ [event])).Perm (List.range (graph.root + 1)) := by
  have pending := (before.filter Execution.isPending).map Execution.todos
  have pendingNext := (after.filter Execution.isPending).map Execution.todos
  rw [List.filter_cons_of_neg (Bool.not_eq_true _ ▸ done)] at pending
  rw [same] at pendingNext
  rw [quiet]
  exact ((pendingNext.trans pending.symm).append_right _).trans tracks.accounted

theorem Tracks.releases (tracks : Tracks graph events pool) {thread : Nat} {job : Job}
    {dep : Todos} {left : List Todos} {others : List Execution} (rest : next.rest = pool.rest)
    (counters : next.counters = fetchSub pool.counters dep)
    (entered : pool.entered.Perm (⟨job, some (dep :: left)⟩ :: others))
    (enteredNext : next.entered.Perm (⟨job, some left⟩ :: others))
    (cleared : next.cleared.Perm pool.cleared) :
    Tracks graph (events ++ [.release thread]) next := by
  have before := all_perm entered
  have after := (all_perm_of_rest rest enteredNext).trans List.perm_middle
  have quiet : doneIds (events ++ [.release thread]) = doneIds events :=
    doneIds_quiet fun _ _ => nofun
  constructor
  · intro todos
    have tokens : (⟨job, some (dep :: left)⟩ : Execution).tokens.count todos =
        (⟨job, some left⟩ : Execution).tokens.count todos + [dep].count todos := by
      simp only [Execution.tokens, Execution.todos, Option.getD_some, List.count_cons,
        List.count_nil]
      omega
    rw [counters, fetchSub_apply, tracks.counts, count_tokens before, count_tokens after, tokens]
    omega
  · have distinct := (before.map Execution.todos).nodup_iff.mp tracks.distinct
    exact (after.map Execution.todos).nodup_iff.mpr distinct
  · exact tracks.accounted_of_done before after rfl rfl quiet
  · intro other member
    rcases List.mem_cons.mp (after.mem_iff.mp member) with same | old
    · cases same
    · exact tracks.fits other (before.mem_iff.mpr (List.mem_cons_of_mem _ old))
  · intro other member notRoot
    rcases List.mem_cons.mp (enteredNext.mem_iff.mp member) with same | old
    · cases same
    · exact tracks.rootAdded other (entered.mem_iff.mpr (List.mem_cons_of_mem _ old)) notRoot
  · exact rest ▸ tracks.root
  · intro other member
    have clearedBefore := cleared.mem_iff.mp member
    have ready := tracks.ready other clearedBefore
    -- A job that is ready waits for no parent, so the counter is another one.
    have notDep : other.tasksLeft ≠ dep := by
      rintro rfl
      have memberOther : other.idle ∈ pool.all :=
        List.mem_append_right _ (idle_mem_entered clearedBefore)
      have tokens := count_two_tokens memberOther (before.mem_iff.mpr (List.mem_cons_self ..))
        nofun other.tasksLeft
      have own := Execution.count_self other.idle
      have held : 1 ≤ (⟨job, some (other.tasksLeft :: left)⟩ : Execution).tokens.count
          other.tasksLeft :=
        List.one_le_count_iff.mpr (List.mem_cons_of_mem _ (List.mem_cons_self ..))
      rw [tracks.counts] at ready
      rw [Execution.todos_idle] at own
      omega
    rw [counters, fetchSub, Function.update_of_ne notDep]
    exact ready
  · rw [quiet]
    exact tracks.ordered

theorem Tracks.finishes (tracks : Tracks graph events pool) {thread : Nat} {job : Job}
    {others : List Execution} (rest : next.rest = pool.rest)
    (counters : next.counters = fetchSub pool.counters job.tasksLeft)
    (entered : pool.entered.Perm (⟨job, some []⟩ :: others))
    (enteredNext : next.entered.Perm others) (cleared : next.cleared.Perm pool.cleared) :
    Tracks graph (events ++ [.finish thread]) next := by
  have before := all_perm entered
  have after := all_perm_of_rest rest enteredNext
  have quiet : doneIds (events ++ [.finish thread]) = doneIds events :=
    doneIds_quiet fun _ _ => nofun
  have distinct := (before.map Execution.todos).nodup_iff.mp tracks.distinct
  rw [List.map_cons, List.nodup_cons] at distinct
  constructor
  · intro todos
    have tokens : (⟨job, some []⟩ : Execution).tokens = [job.tasksLeft] := rfl
    rw [counters, fetchSub_apply, tracks.counts, count_tokens before,
      (after.flatMap_right Execution.tokens).count_eq, tokens]
    omega
  · exact (after.map Execution.todos).nodup_iff.mpr distinct.2
  · exact tracks.accounted_of_done before after rfl rfl quiet
  · exact fun other member =>
      tracks.fits other (before.mem_iff.mpr (List.mem_cons_of_mem _ (after.mem_iff.mp member)))
  · exact fun other member => tracks.rootAdded other
      (entered.mem_iff.mpr (List.mem_cons_of_mem _ (enteredNext.mem_iff.mp member)))
  · exact rest ▸ tracks.root
  · intro other member
    have clearedBefore := cleared.mem_iff.mp member
    have notJob : other.tasksLeft ≠ job.tasksLeft := by
      intro same
      have memberOther := List.mem_append_right (pool.unentered.map Job.idle)
        (idle_mem_entered clearedBefore)
      rcases List.mem_cons.mp (before.mem_iff.mp memberOther) with first | old
      · cases first
      · exact distinct.1 (List.mem_map.mpr ⟨other.idle, old, same⟩)
    rw [counters, fetchSub, Function.update_of_ne notJob]
    exact tracks.ready other clearedBefore
  · rw [quiet]
    exact tracks.ordered

/-- Every step keeps the accounts. -/
theorem Tracks.step (tracks : Tracks graph events pool) (acyclic : graph.Acyclic)
    (stepped : pool.step event = some next) : Tracks graph (events ++ [event]) next := by
  cases step_effect stepped with
  | moves quiet counters rest entered cleared =>
      exact tracks.moves quiet counters rest entered cleared
  | addsChild same rest restNext counters entered cleared =>
      exact same ▸ tracks.addsChild rest restNext counters entered cleared
  | takesRoot same rest restNext counters entered cleared =>
      exact same ▸ tracks.takesRoot rest restNext counters entered cleared
  | done same rest counters entered enteredNext cleared =>
      exact same ▸ tracks.done acyclic rest counters entered enteredNext cleared
  | releases same rest counters entered enteredNext cleared =>
      exact same ▸ tracks.releases rest counters entered enteredNext cleared
  | finishes same rest counters entered enteredNext cleared =>
      exact same ▸ tracks.finishes rest counters entered enteredNext cleared

section Start

variable (graph : HomogeneousJobGraph T) (workers caller : Nat)

theorem entered_runGraph : (runGraph graph workers caller).entered = [] := by
  simp [entered, runGraph]

theorem cleared_runGraph : (runGraph graph workers caller).cleared = [] := by
  simp [cleared, runGraph]

theorem all_runGraph : (runGraph graph workers caller).all =
    (graph.getJobs.2 ++ [Job.new graph.root]).map Job.idle := by
  rw [all, entered_runGraph, List.append_nil]
  rfl

variable {graph}

theorem tracks_runGraph (acyclic : graph.Acyclic) :
    Tracks graph [] (runGraph graph workers caller) := by
  have made := HomogeneousJobGraph.made_getJobs acyclic.inRange
  have ids : (runGraph graph workers caller).all.map Execution.todos =
      List.range (graph.root + 1) := by
    rw [all_runGraph, map_todos_idle, List.map_append, made.ids, List.range_succ]
    rfl
  have pending : (runGraph graph workers caller).all.filter Execution.isPending =
      (runGraph graph workers caller).all := by
    rw [all_runGraph, List.filter_eq_self]
    intro execution member
    rcases List.mem_map.mp member with ⟨job, _, rfl⟩
    rfl
  constructor
  · intro todos
    have root : ([Job.new graph.root].map Job.idle).flatMap Execution.tokens = [graph.root] := rfl
    rw [all_runGraph, List.map_append, List.flatMap_append, List.count_append, root]
    change Function.update graph.getJobs.1 graph.root 1 todos = _
    rw [Function.update_apply, made.counts]
    split
    · rename_i isRoot
      subst isRoot
      have unused : graph.root ∉ (graph.getJobs.2.map Job.idle).flatMap Execution.tokens :=
        fun member => Nat.lt_irrefl _ (made.token_lt acyclic.inRange member)
      rw [List.count_eq_zero.mpr unused, List.count_singleton_self]
      rfl
    · rename_i notRoot
      rw [List.count_singleton, beq_false_of_ne (Ne.symm notRoot)]
      rfl
  · rw [ids]
    exact List.nodup_range
  · rw [pending, ids]
    exact List.Perm.of_eq (List.append_nil _)
  · intro job member
    rw [all_runGraph] at member
    rcases List.mem_map.mp member with ⟨other, listed, same⟩
    cases same
    rcases List.mem_append.mp listed with inGraph | isRoot
    · have children := made.children job inGraph
      exact ⟨made.data job inGraph, fun child member => Or.inl ((children child).mp member),
        fun child edge => (children child).mpr edge⟩
    · cases List.mem_singleton.mp isRoot
      exact ⟨rfl, nofun, fun child edge =>
        absurd (acyclic.inRange _ edge).1 (Nat.lt_irrefl graph.jobs.length)⟩
  · intro job member
    rw [entered_runGraph] at member
    cases member
  · intro jobs root rest
    cases rest
    rfl
  · intro job member
    rw [cleared_runGraph] at member
    cases member
  · intro parent child _ member
    cases member

end Start

/-- The accounts are right after every run. -/
theorem tracks_run (acyclic : graph.Acyclic) {workers caller : Nat}
    (ran : events.foldlM Pool.step (runGraph graph workers caller) = some pool) :
    Tracks graph events pool := by
  induction events using List.reverseRecOn generalizing pool with
  | nil =>
      cases ran
      exact tracks_runGraph workers caller acyclic
  | append_singleton events event induction =>
      rw [List.foldlM_append] at ran
      rcases Option.bind_eq_some_iff.mp ran with ⟨middle, earlier, last⟩
      rw [List.foldlM_cons] at last
      rcases Option.bind_eq_some_iff.mp last with ⟨_, stepped, done⟩
      cases done
      exact (induction earlier).step acyclic stepped

/-- When nobody has a job at hand, some job of a wait list waits for no parent. -/
theorem Tracks.exists_ready (tracks : Tracks graph events pool) (acyclic : graph.Acyclic)
    (parked : pool.all = pool.waitLists.flatten.map Job.idle) (nonempty : pool.all ≠ []) :
    ∃ job ∈ pool.waitLists.flatten, job.ready pool.counters = true := by
  have numbered : pool.all.map Execution.todos ≠ [] :=
    fun empty => nonempty (List.map_eq_nil_iff.mp empty)
  rcases exists_first acyclic.noCycle_isParent numbered with ⟨first, listed, noParent⟩
  rcases List.mem_map.mp listed with ⟨execution, member, rfl⟩
  have waiting := member
  rw [parked] at waiting
  rcases List.mem_map.mp waiting with ⟨job, inWaitList, rfl⟩
  have childless : ∀ other ∈ pool.all, job.tasksLeft ∉ other.job.children := by
    intro other memberOther child
    have parkedOther := memberOther
    rw [parked] at parkedOther
    rcases List.mem_map.mp parkedOther with ⟨parent, _, rfl⟩
    exact noParent _ (List.mem_map_of_mem memberOther)
      ((tracks.fits parent memberOther).parent _ child)
  have perm := List.perm_cons_erase member
  have own : job.idle.tokens.count job.tasksLeft = 1 := by
    have noChild : job.tasksLeft ∉ job.idle.left.getD job.idle.job.children :=
      childless job.idle member
    rw [Execution.tokens, Execution.todos_idle, List.count_cons_self,
      List.count_eq_zero.mpr noChild]
  have others : job.tasksLeft ∉ (pool.all.erase job.idle).flatMap Execution.tokens := by
    intro held
    rcases List.mem_flatMap.mp held with ⟨other, memberOther, token⟩
    have memberAll := List.mem_of_mem_erase memberOther
    have parkedOther := memberAll
    rw [parked] at parkedOther
    rcases List.mem_map.mp parkedOther with ⟨parent, _, rfl⟩
    rcases List.mem_cons.mp token with same | child
    · have distinct := (perm.map Execution.todos).nodup_iff.mp tracks.distinct
      rw [List.map_cons, List.nodup_cons] at distinct
      exact distinct.1 (List.mem_map.mpr ⟨_, memberOther, same.symm⟩)
    · exact childless _ memberAll child
  refine ⟨job, inWaitList, ?_⟩
  rw [Job.ready, tracks.counts, count_tokens perm, own, List.count_eq_zero.mpr others,
    (tracks.fits job member).data]
  rfl

theorem Tracks.onePlace (tracks : Tracks graph events pool) :
    ((pool.runnableQueues.flatten ++ pool.waitLists.flatten).map Job.tasksLeft ++
      pool.executing.flatten.map Execution.todos).Nodup := by
  have places : pool.all.map Execution.todos = pool.unentered.map Job.tasksLeft ++
      ((pool.atHand.toList.map Prod.fst).map Job.tasksLeft ++
        ((pool.runnableQueues.flatten ++ pool.waitLists.flatten).map Job.tasksLeft ++
          pool.executing.flatten.map Execution.todos)) := by
    simp only [all, entered, List.map_append, map_todos_idle, List.append_assoc]
  have distinct := tracks.distinct
  rw [places] at distinct
  exact (List.nodup_append.mp (List.nodup_append.mp distinct).2.1).2.1

theorem Tracks.rootLast (tracks : Tracks graph events pool)
    (done : handleDone pool.counters graph.root = true) (job : Nat)
    (inRange : job < graph.jobs.length) : job ∈ doneIds events := by
  rw [handleDone, decide_eq_true_eq, tracks.counts] at done
  have unused : graph.root ∉ pool.all.flatMap Execution.tokens := by
    rw [← List.count_eq_zero]
    omega
  have listed := tracks.accounted.mem_iff.mpr List.self_mem_range_succ
  apply tracks.ordered job graph.root (Or.inr ⟨inRange, rfl⟩)
  rcases List.mem_append.mp listed with waiting | done
  · rcases List.mem_map.mp waiting with ⟨execution, pending, same⟩
    have member := (List.mem_filter.mp pending).1
    exact absurd (List.mem_flatMap.mpr ⟨execution, member, same ▸ List.mem_cons_self ..⟩) unused
  · exact done

theorem Tracks.progress (tracks : Tracks graph events pool) (acyclic : graph.Acyclic)
    (notDone : handleDone pool.counters graph.root = false) :
    (pool.atHand.isSome ∨ pool.rest.isSome) ∨ pool.executing.flatten ≠ [] ∨
      pool.runnableQueues.flatten ≠ [] ∨
      ∃ job ∈ pool.waitLists.flatten, job.ready pool.counters = true := by
  cases atHand : pool.atHand with
  | some job => exact Or.inl (Or.inl rfl)
  | none =>
      cases rest : pool.rest with
      | some others => exact Or.inl (Or.inr rfl)
      | none =>
          right
          by_cases executing : pool.executing.flatten = []
          · right
            by_cases runnable : pool.runnableQueues.flatten = []
            · right
              have parked : pool.all = pool.waitLists.flatten.map Job.idle := by
                simp [all, unentered, entered, rest, atHand, executing, runnable]
              apply tracks.exists_ready acyclic parked
              intro empty
              rw [handleDone, decide_eq_false_iff_not, tracks.counts, empty] at notDone
              exact notDone le_rfl
            · exact Or.inl runnable
          · exact Or.inl executing

end Pool

/-- What `run_graph` promises, in the state after the events. -/
structure RunsGraph {T : Type} (graph : HomogeneousJobGraph T) (events : List PoolEvent)
    (pool : Pool) : Prop where
  /-- No job answers `Done` twice. -/
  doneOnce : (doneIds events).Nodup
  /-- A job is in one queue, wait list or worker at most. -/
  onePlace : ((pool.runnableQueues.flatten ++ pool.waitLists.flatten).map Job.tasksLeft ++
    pool.executing.flatten.map Execution.todos).Nodup
  /-- When a job starts, its parents are done. -/
  afterParents : ∀ before thread job later, events = before ++ .pop thread job :: later →
    ∀ parent, graph.IsEdge parent job → parent ∈ doneIds before
  /-- When the root reports done, every job is. -/
  rootLast : handleDone pool.counters graph.root = true →
    ∀ job < graph.jobs.length, job ∈ doneIds events
  /-- Before, some job is with the caller, under execution, runnable or ready. -/
  progress : handleDone pool.counters graph.root = false →
    (pool.atHand.isSome ∨ pool.rest.isSome) ∨ pool.executing.flatten ≠ [] ∨
      pool.runnableQueues.flatten ≠ [] ∨
      ∃ job ∈ pool.waitLists.flatten, job.ready pool.counters = true

section Runs

variable {T : Type} {graph : HomogeneousJobGraph T} {events : List PoolEvent} {pool : Pool}

/-- Jobs of an acyclic graph are done once, in one place at a time and after their
parents; the root is done last, and until then there is something to do. -/
theorem runGraph_runsGraph (acyclic : graph.Acyclic) {workers caller : Nat}
    (ran : events.foldlM Pool.step (Pool.runGraph graph workers caller) = some pool) :
    RunsGraph graph events pool := by
  have tracks := Pool.tracks_run acyclic ran
  have shared := tracks.accounted.nodup_iff.mpr List.nodup_range
  refine ⟨(List.nodup_append.mp shared).2.1, tracks.onePlace, ?_, tracks.rootLast, ?_⟩
  · intro before thread job later split parent edge
    rw [split, List.foldlM_append] at ran
    rcases Option.bind_eq_some_iff.mp ran with ⟨middle, earlier, rest⟩
    rw [List.foldlM_cons] at rest
    rcases Option.bind_eq_some_iff.mp rest with ⟨_, popped, _⟩
    rcases (Pool.pop_effect popped).2 with ⟨taken, cleared, rfl⟩
    exact (Pool.tracks_run acyclic earlier).parents_done acyclic cleared (Or.inl edge)
  · intro notDone
    exact tracks.progress acyclic notDone

/-- Two jobs, the second one after the first. -/
def chain : HomogeneousJobGraph Unit := (HomogeneousJobGraph.new [(), ()]).addDependency 0 1

theorem acyclic_chain : chain.Acyclic where
  inRange := by decide
  noCycle := by
    have path : ∀ start goal, Relation.TransGen chain.IsEdge start goal → start < goal := by
      intro start goal path
      induction path with
      | single edge =>
          cases List.mem_singleton.mp edge
          exact Nat.zero_lt_one
      | tail _ edge induction =>
          cases List.mem_singleton.mp edge
          exact Nat.lt_trans induction Nat.zero_lt_one
    exact fun job cycle => Nat.lt_irrefl job (path job job cycle)

/-- The first job is stolen and runs twice while the others are still enqueued. -/
def chainEvents : List PoolEvent :=
  [.addChild, .checkReady, .push, .steal 1 2 1, .pop 1 0, .addChild, .answer 1 0 .Reenqueue,
    .checkReady, .pop 1 0, .push, .answer 1 0 .Done, .takeRoot, .release 1, .checkReady, .push,
    .release 1, .promote 2 0, .pop 2 1, .finish 1, .answer 2 1 .Done, .release 2, .finish 2,
    .promote 2 0, .pop 2 2, .answer 2 2 .Done, .finish 2]

theorem runGraph_runsGraph_sample : ∃ pool : Pool,
    chainEvents.foldlM Pool.step (Pool.runGraph chain 2 2) = some pool ∧
      handleDone pool.counters chain.root = true ∧ RunsGraph chain chainEvents pool := by
  obtain ⟨pool, ran, done⟩ : ∃ pool : Pool,
      chainEvents.foldlM Pool.step (Pool.runGraph chain 2 2) = some pool ∧
        handleDone pool.counters chain.root = true :=
    ⟨_, rfl, rfl⟩
  exact ⟨pool, ran, done, runGraph_runsGraph acyclic_chain ran⟩

end Runs

end JobSystem

end Cecs

import Cecs.JobSystem.Frames
import Cecs.JobSystem.RunGraph

/-! # Counters that hold calls

A counter is never less than the number of decrements to come, and a job that was
left to the pool by a call still has to decrement the counter of the call. -/

namespace Cecs

namespace JobSystem

namespace Work

/-- The decrements that are still to come. -/
def tokens (self : Work) : List Todos := self.job.idle.tokens

/-- The scope that the job owns. -/
def ownScope (self : Work) : List Todos :=
  match self.func with
  | .BoxedJob childScope => [childScope]
  | _ => []

end Work

namespace Frame

def tokens : Frame → List Todos
  | .call frame => frame.rest.flatMap Work.tokens
  | .job frame => Execution.tokens ⟨frame.work.job, frame.left⟩

def handles : Frame → List Todos
  | .call frame => frame.handle :: frame.rest.flatMap Work.ownScope
  | .job _ => []

/-- The job, until its function has returned. -/
def running : Frame → Option Work
  | .call _ => none
  | .job frame => if frame.left.isNone then some frame.work else none

/-- The calls around the jobs of a call. -/
def encloses : Frame → Option (List Todos)
  | .call frame => some frame.calls
  | .job _ => none

end Frame

section Places

variable (works : List Work) (frames : List Frame)

def tokens : List Todos := works.flatMap Work.tokens ++ frames.flatMap Frame.tokens

/-- Of calls that are not over, and of scopes that jobs in queues own. -/
def handles : List Todos := works.flatMap Work.ownScope ++ frames.flatMap Frame.handles

/-- The jobs that are queued, waiting or running. -/
def pending : List Work := works ++ frames.filterMap Frame.running

end Places

/-- What holds of the jobs in queues and wait lists and of the frames of all threads. -/
structure Held (works : List Work) (frames : List Frame) (counters : Counters)
    (nextTodos : Todos) (scopes ended : List Todos) : Prop where
  counted : ∀ todos, ((tokens works frames).count todos : Int) ≤ counters todos
  tokensBelow : ∀ todos ∈ tokens works frames, todos < nextTodos
  handlesBelow : ∀ handle ∈ handles works frames ++ ended, handle < nextTodos
  scopesBelow : ∀ handle ∈ scopes, handle < nextTodos
  distinct : (handles works frames ++ ended).Nodup
  owned : ∀ work ∈ pending works frames, ∀ handle enclosing, work.calls = handle :: enclosing →
    handle ∈ work.tokens ∧ some work.calls ∈ frames.map Frame.encloses
  scope : ∀ frame, .call frame ∈ frames → frame.handle ∈ scopes → frame.call = .scope
  afterward : ∀ frame, .call frame ∈ frames → ∀ code, frame.stage = .after code →
    frame.call ≠ .scope ∧ ∀ work ∈ pending works frames, work.calls.head? ≠ some frame.handle

section FramesOf

variable (work : Work)

theorem framesOf_tokens : (Frames.framesOf work).flatMap Frame.tokens = work.tokens := by
  cases func : work.func <;>
    simp [Frames.framesOf, func, Frame.tokens, Work.tokens, Job.idle]

theorem framesOf_handles : (Frames.framesOf work).flatMap Frame.handles = work.ownScope := by
  cases func : work.func <;> simp [Frames.framesOf, func, Frame.handles, Work.ownScope]

theorem framesOf_running : (Frames.framesOf work).filterMap Frame.running = [work] := by
  cases func : work.func <;> simp [Frames.framesOf, func, Frame.running, List.filterMap_cons]

theorem scope_of_mem_framesOf {work : Work} {frame : CallFrame}
    (member : .call frame ∈ Frames.framesOf work) :
    frame.call = .scope ∧ ∀ code, frame.stage ≠ .after code := by
  cases func : work.func with
  | BoxedJob childScope =>
      simp only [Frames.framesOf, func, List.mem_cons, Frame.call.injEq, reduceCtorEq,
        List.not_mem_nil, or_false] at member
      rw [member]
      exact ⟨rfl, by simp⟩
  | _ => simp [Frames.framesOf, func] at member

end FramesOf

namespace Held

variable {works others : List Work} {frames : List Frame} {counters : Counters}
  {nextTodos : Todos} {scopes ended : List Todos} {work : Work} {frame : Frame}
  {callFrame : CallFrame} {jobFrame : JobFrame}

/-- Decrements are made or lost, calls end, jobs are moved or done. -/
theorem shrink {others : List Work} {less : List Frame} {fewer : Counters} {gone : List Todos}
    (held : Held works frames counters nextTodos scopes ended)
    (counted : ∀ todos, ((tokens others less).count todos : Int) ≤ fewer todos)
    (tokensLe : ∀ todos, (tokens others less).count todos ≤ (tokens works frames).count todos)
    (handlesLe : ∀ handle, (handles others less ++ gone).count handle ≤
      (handles works frames ++ ended).count handle)
    (pendingLe : ∀ work ∈ pending others less, work ∈ pending works frames)
    (encloses : ∀ work ∈ pending others less, some work.calls ∈ frames.map Frame.encloses →
      some work.calls ∈ less.map Frame.encloses)
    (calls : ∀ frame, .call frame ∈ less → .call frame ∈ frames ∨
      frame.call = .scope ∧ ∀ code, frame.stage ≠ .after code) :
    Held others less fewer nextTodos scopes gone := by
  constructor
  · exact counted
  · intro todos member
    have positive := List.one_le_count_iff.mpr member
    exact held.tokensBelow todos (List.one_le_count_iff.mp (Nat.le_trans positive (tokensLe todos)))
  · intro handle member
    have positive := List.one_le_count_iff.mpr member
    exact held.handlesBelow handle
      (List.one_le_count_iff.mp (Nat.le_trans positive (handlesLe handle)))
  · exact held.scopesBelow
  · rw [List.nodup_iff_count_le_one]
    intro handle
    exact Nat.le_trans (handlesLe handle) (List.nodup_iff_count_le_one.mp held.distinct handle)
  · intro work waiting handle enclosing workCalls
    rcases held.owned work (pendingLe work waiting) handle enclosing workCalls with
      ⟨token, enclosed⟩
    exact ⟨token, encloses work waiting enclosed⟩
  · intro frame member inScopes
    rcases calls frame member with earlier | ⟨isScope, notAfter⟩
    · exact held.scope frame earlier inScopes
    · exact isScope
  · intro frame member code after
    rcases calls frame member with earlier | ⟨isScope, notAfter⟩
    · rcases held.afterward frame earlier code after with ⟨noScope, noWork⟩
      exact ⟨noScope, fun work waiting => noWork work (pendingLe work waiting)⟩
    · exact absurd after (notAfter code)

theorem counted_of_le {others : List Work} {less : List Frame}
    (held : Held works frames counters nextTodos scopes ended)
    (fewer : ∀ todos, (tokens others less).count todos ≤ (tokens works frames).count todos)
    (todos : Todos) : ((tokens others less).count todos : Int) ≤ counters todos := by
  have before := held.counted todos
  have change := fewer todos
  omega

theorem perm {moved : List Frame} (held : Held works frames counters nextTodos scopes ended)
    (queued : others.Perm works) (executing : moved.Perm frames) :
    Held others moved counters nextTodos scopes ended := by
  have samePending : (pending others moved).Perm (pending works frames) :=
    queued.append (executing.filterMap Frame.running)
  have sameTokens : (tokens others moved).Perm (tokens works frames) :=
    (queued.flatMap_right Work.tokens).append (executing.flatMap_right Frame.tokens)
  have sameHandles : (handles others moved ++ ended).Perm (handles works frames ++ ended) :=
    ((queued.flatMap_right Work.ownScope).append
      (executing.flatMap_right Frame.handles)).append_right ended
  have tokensLe := fun todos => (sameTokens.count_eq todos).le
  apply held.shrink (held.counted_of_le tokensLe) tokensLe
  · exact fun handle => (sameHandles.count_eq handle).le
  · exact fun work => samePending.mem_iff.mp
  · exact fun work _ => (executing.map Frame.encloses).mem_iff.mpr
  · exact fun frame member => Or.inl (executing.mem_iff.mp member)

/-- A counter that is zero holds no job. -/
theorem head_ne_of_done (held : Held works frames counters nextTodos scopes ended)
    {handle : Todos} (done : handleDone counters handle = true)
    (waiting : work ∈ pending works frames) : work.calls.head? ≠ some handle := by
  intro head
  rcases List.head?_eq_some_iff.mp head with ⟨enclosing, calls⟩
  have token := (held.owned work waiting handle enclosing calls).1
  have listed : handle ∈ tokens works frames := by
    rcases List.mem_append.mp waiting with queued | executed
    · exact List.mem_append_left _ (List.mem_flatMap.mpr ⟨work, queued, token⟩)
    · rcases List.mem_filterMap.mp executed with ⟨frame, member, running⟩
      apply List.mem_append_right
      apply List.mem_flatMap.mpr
      cases frame with
      | call frame => cases running
      | job frame =>
          simp only [Frame.running, Option.ite_none_right_eq_some, Option.some.injEq,
            Option.isNone_iff_eq_none] at running
          rcases running with ⟨notDone, rfl⟩
          refine ⟨_, member, ?_⟩
          rw [Frame.tokens, notDone]
          exact token
  have positive : 1 ≤ (tokens works frames).count handle :=
    List.one_le_count_iff.mpr listed
  have counted := held.counted handle
  rw [handleDone, decide_eq_true_eq] at done
  omega

section Changes

/-- A call goes on to another stage. -/
theorem restage {stage : Stage}
    (held : Held works (.call callFrame :: frames) counters nextTodos scopes ended)
    (afterward : ∀ code, stage = .after code → callFrame.call ≠ .scope ∧
      ∀ work ∈ pending works frames, work.calls.head? ≠ some callFrame.handle) :
    Held works (.call { callFrame with stage } :: frames) counters nextTodos scopes ended where
  counted := held.counted
  tokensBelow := held.tokensBelow
  handlesBelow := held.handlesBelow
  scopesBelow := held.scopesBelow
  distinct := held.distinct
  owned := held.owned
  scope frame member := by
    rcases List.mem_cons.mp member with same | member
    · cases same
      exact held.scope callFrame List.mem_cons_self
    · exact held.scope frame (List.mem_cons_of_mem _ member)
  afterward frame member := by
    rcases List.mem_cons.mp member with same | member
    · cases same
      exact afterward
    · exact held.afterward frame (List.mem_cons_of_mem _ member)

theorem setCode (code : Code)
    (held : Held works (frame :: frames) counters nextTodos scopes ended) :
    Held works (frame.setCode code :: frames) counters nextTodos scopes ended := by
  cases frame with
  | call frame =>
      cases stage : frame.stage with
      | body earlier =>
          simp only [Frame.setCode, stage]
          exact held.restage fun code after => by cases after
      | after earlier =>
          simp only [Frame.setCode, stage]
          exact held.restage fun code after => held.afterward frame List.mem_cons_self earlier stage
      | enqueue =>
          simp only [Frame.setCode, stage]
          exact held
      | wait unwinding =>
          simp only [Frame.setCode, stage]
          exact held
  | job frame =>
      exact {
        counted := held.counted
        tokensBelow := held.tokensBelow
        handlesBelow := held.handlesBelow
        scopesBelow := held.scopesBelow
        distinct := held.distinct
        owned := held.owned
        scope := fun other member =>
          held.scope other (by simpa [Frame.setCode] using member)
        afterward := fun other member =>
          held.afterward other (by simpa [Frame.setCode] using member) }

/-- A call without jobs is over. -/
theorem endCall (held : Held works (.call callFrame :: frames) counters nextTodos scopes ended)
    {enclosing : List Todos} (calls : callFrame.calls = callFrame.handle :: enclosing)
    (free : ∀ work ∈ pending works frames, work.calls.head? ≠ some callFrame.handle) :
    Held works frames counters nextTodos scopes (callFrame.handle :: ended) := by
  have tokensLe : ∀ todos, (tokens works frames).count todos ≤
      (tokens works (.call callFrame :: frames)).count todos := by
    intro todos
    simp only [tokens, List.flatMap_cons, List.count_append]
    omega
  apply held.shrink (held.counted_of_le tokensLe) tokensLe
  · intro handle
    simp only [handles, Frame.handles, List.flatMap_cons, List.count_append, List.count_cons]
    omega
  · exact fun work waiting => waiting
  · intro work waiting encloses
    rcases List.mem_cons.mp encloses with same | encloses
    · have head := free work waiting
      rw [Option.some.inj same, calls] at head
      exact absurd rfl head
    · exact encloses
  · exact fun frame member => Or.inl (List.mem_cons_of_mem _ member)

/-- The function of a job returns, or a panic in it is caught. -/
theorem answer (held : Held works (.job jobFrame :: frames) counters nextTodos scopes ended)
    (notDone : jobFrame.left = none) :
    Held works (.job { jobFrame with left := some jobFrame.work.job.children } :: frames)
      counters nextTodos scopes ended := by
  have same : tokens works
      (.job { jobFrame with left := some jobFrame.work.job.children } :: frames) =
        tokens works (.job jobFrame :: frames) := by
    simp [tokens, Frame.tokens, Execution.tokens, Execution.todos, notDone]
  have tokensLe := fun todos => (congrArg (List.count todos) same).le
  apply held.shrink (held.counted_of_le tokensLe) tokensLe
  · exact fun handle => le_rfl
  · intro work waiting
    have less : (List.filterMap Frame.running frames).Sublist
        (List.filterMap Frame.running (.job jobFrame :: frames)) :=
      (List.sublist_cons_self _ _).filterMap Frame.running
    exact ((less.append_left works).subset waiting)
  · exact fun work waiting encloses => encloses
  · intro frame member
    left
    simpa using member

/-- A job whose function unwinds. -/
theorem drop (held : Held works (.job jobFrame :: frames) counters nextTodos scopes ended) :
    Held works frames counters nextTodos scopes ended := by
  have tokensLe : ∀ todos, (tokens works frames).count todos ≤
      (tokens works (.job jobFrame :: frames)).count todos := by
    intro todos
    simp only [tokens, List.flatMap_cons, List.count_append]
    omega
  apply held.shrink (held.counted_of_le tokensLe) tokensLe
  · exact fun handle => le_rfl
  · intro work waiting
    have less : (List.filterMap Frame.running frames).Sublist
        (List.filterMap Frame.running (.job jobFrame :: frames)) :=
      (List.sublist_cons_self _ _).filterMap Frame.running
    exact ((less.append_left works).subset waiting)
  · intro work waiting encloses
    simpa [Frame.encloses] using encloses
  · exact fun frame member => Or.inl (List.mem_cons_of_mem _ member)

theorem release {dep : Todos} {left : List Todos}
    (held : Held works (.job jobFrame :: frames) counters nextTodos scopes ended)
    (remaining : jobFrame.left = some (dep :: left)) :
    Held works (.job { jobFrame with left := some left } :: frames) (fetchSub counters dep)
      nextTodos scopes ended := by
  have change : ∀ todos, (tokens works (.job jobFrame :: frames)).count todos =
      (tokens works (.job { jobFrame with left := some left } :: frames)).count todos +
        [dep].count todos := by
    intro todos
    simp only [tokens, Frame.tokens, Execution.tokens, Execution.todos, remaining,
      List.flatMap_cons, List.count_append, List.count_cons, List.count_nil, Option.getD_some]
    omega
  apply held.shrink
  · intro todos
    have before := held.counted todos
    rw [change todos] at before
    rw [Pool.fetchSub_apply]
    omega
  · intro todos
    rw [change todos]
    omega
  · exact fun handle => le_rfl
  · intro work waiting
    simpa [pending, Frame.running, remaining] using waiting
  · exact fun work waiting encloses => encloses
  · intro frame member
    left
    simpa using member

theorem finish (held : Held works (.job jobFrame :: frames) counters nextTodos scopes ended)
    (released : jobFrame.left = some []) :
    Held works frames (fetchSub counters jobFrame.work.job.tasksLeft) nextTodos scopes ended := by
  have change : ∀ todos, (tokens works (.job jobFrame :: frames)).count todos =
      (tokens works frames).count todos + [jobFrame.work.job.tasksLeft].count todos := by
    intro todos
    simp only [tokens, Frame.tokens, Execution.tokens, Execution.todos, released,
      List.flatMap_cons, List.count_append, List.count_cons, List.count_nil, Option.getD_some]
    omega
  have dropped := held.drop
  apply dropped.shrink
  · intro todos
    have before := held.counted todos
    rw [change todos] at before
    rw [Pool.fetchSub_apply]
    omega
  · exact fun todos => le_rfl
  · exact fun handle => le_rfl
  · exact fun work waiting => waiting
  · exact fun work waiting encloses => encloses
  · exact fun frame member => Or.inl member

/-- A job is taken from its queue. -/
theorem pop (held : Held (work :: works) frames counters nextTodos scopes ended) :
    Held works (Frames.framesOf work ++ frames) counters nextTodos scopes ended := by
  have tokensLe : ∀ todos, (tokens works (Frames.framesOf work ++ frames)).count todos ≤
      (tokens (work :: works) frames).count todos := by
    intro todos
    simp only [tokens, List.flatMap_append, framesOf_tokens, List.flatMap_cons, List.count_append]
    omega
  apply held.shrink (held.counted_of_le tokensLe) tokensLe
  · intro handle
    simp only [handles, List.flatMap_append, framesOf_handles, List.flatMap_cons,
      List.count_append]
    omega
  · intro other waiting
    rw [pending, List.filterMap_append, framesOf_running] at waiting
    exact List.perm_middle.mem_iff.mp waiting
  · intro other waiting encloses
    rw [List.map_append]
    exact List.mem_append_right _ encloses
  · intro frame member
    rcases List.mem_append.mp member with new | member
    · exact Or.inr (scope_of_mem_framesOf new)
    · exact Or.inl member

/-- No two calls wait for the same handle. -/
theorem handle_ne (held : Held works (.call callFrame :: frames) counters nextTodos scopes ended)
    {other : CallFrame} (member : .call other ∈ frames) : other.handle ≠ callFrame.handle := by
  intro same
  have distinct := (List.nodup_append.mp held.distinct).1
  rw [handles, List.flatMap_cons, Frame.handles] at distinct
  have inner := (List.nodup_append.mp distinct).2.1
  rw [List.cons_append, List.nodup_cons] at inner
  apply inner.1
  apply List.mem_append_right
  exact List.mem_flatMap.mpr ⟨.call other, member, same ▸ List.mem_cons_self⟩

theorem handle_lt (held : Held works frames counters nextTodos scopes ended)
    (member : .call callFrame ∈ frames) : callFrame.handle < nextTodos := by
  apply held.handlesBelow
  apply List.mem_append_left
  apply List.mem_append_right
  exact List.mem_flatMap.mpr ⟨.call callFrame, member, List.mem_cons_self⟩

theorem count_tokens_eq_zero (held : Held works frames counters nextTodos scopes ended)
    {todos : Todos} (unused : nextTodos ≤ todos) : (tokens works frames).count todos = 0 := by
  rw [List.count_eq_zero]
  intro member
  exact absurd (held.tokensBelow todos member) (Nat.not_lt.mpr unused)

/-- A call leaves the next of its jobs to the pool. -/
theorem enqueue {rest : List Work} {joined : Work} {more : Counters}
    (held : Held works (.call { callFrame with rest := work :: rest } :: frames) counters
      nextTodos scopes ended) (added : List Todos)
    (notAfter : ∀ code, callFrame.stage ≠ .after code)
    (calls : joined.calls = callFrame.calls) {enclosing : List Todos}
    (around : callFrame.calls = callFrame.handle :: enclosing)
    (tokens_joined : joined.tokens = work.tokens ++ added)
    (scope_joined : joined.ownScope = work.ownScope)
    (counts : ∀ todos, more todos = counters todos + (added.count todos : Nat))
    (addedBelow : ∀ todos ∈ added, todos < nextTodos)
    (own : callFrame.handle ∈ joined.tokens) :
    Held (joined :: works) (.call { callFrame with rest } :: frames) more nextTodos scopes
      ended := by
  have change : ∀ todos, (tokens (joined :: works) (.call { callFrame with rest } :: frames)).count
      todos = (tokens works (.call { callFrame with rest := work :: rest } :: frames)).count todos +
        added.count todos := by
    intro todos
    simp only [tokens, Frame.tokens, List.flatMap_cons, List.count_append, tokens_joined]
    omega
  have same : ∀ handle,
      (handles (joined :: works) (.call { callFrame with rest } :: frames) ++ ended).count handle =
        (handles works (.call { callFrame with rest := work :: rest } :: frames) ++ ended).count
          handle := by
    intro handle
    simp only [handles, Frame.handles, List.flatMap_cons, List.count_append, List.count_cons,
      scope_joined]
    omega
  have sameHandles := List.perm_iff_count.mpr same
  constructor
  · intro todos
    have before := held.counted todos
    rw [change, counts]
    omega
  · intro todos member
    have positive := List.one_le_count_iff.mpr member
    rw [change] at positive
    by_cases new : todos ∈ added
    · exact addedBelow todos new
    · rw [List.count_eq_zero.mpr new] at positive
      exact held.tokensBelow todos (List.one_le_count_iff.mp positive)
  · exact fun handle member => held.handlesBelow handle (sameHandles.mem_iff.mp member)
  · exact held.scopesBelow
  · exact sameHandles.nodup_iff.mpr held.distinct
  · intro other waiting handle otherEnclosing otherCalls
    rcases List.mem_cons.mp waiting with rfl | waiting
    · rw [calls, around, List.cons.injEq] at otherCalls
      rw [← otherCalls.1]
      refine ⟨own, ?_⟩
      rw [calls]
      exact List.mem_cons_self
    · exact held.owned other waiting handle otherEnclosing otherCalls
  · intro frame member
    rcases List.mem_cons.mp member with same | member
    · cases same
      exact held.scope { callFrame with rest := work :: rest } List.mem_cons_self
    · exact held.scope frame (List.mem_cons_of_mem _ member)
  · intro frame member code after
    rcases List.mem_cons.mp member with same | member
    · cases same
      exact absurd after (notAfter code)
    · rcases held.afterward frame (List.mem_cons_of_mem _ member) code after with ⟨noScope, noWork⟩
      refine ⟨noScope, ?_⟩
      intro other waiting
      rcases List.mem_cons.mp waiting with rfl | waiting
      · rw [calls, around, List.head?_cons]
        intro equal
        exact held.handle_ne member (Option.some.inj equal).symm
      · exact noWork other waiting

/-- A task that is spawned on a scope. -/
theorem spawn {root : Todos} {more : Counters}
    (held : Held works frames counters nextTodos scopes ended) (inScopes : root ∈ scopes)
    {enclosing : List Todos} (calls : work.calls = root :: enclosing)
    (encloses : some work.calls ∈ frames.map Frame.encloses)
    (tokens_work : work.tokens = [nextTodos, root])
    (scope_work : work.ownScope = [nextTodos + 1])
    (old : ∀ todos < nextTodos, more todos = counters todos + ([root].count todos : Nat))
    (new : ∀ todos, nextTodos ≤ todos → (([nextTodos].count todos : Nat) : Int) ≤ more todos) :
    Held (work :: works) frames more (nextTodos + 2) ((nextTodos + 1) :: scopes) ended := by
  have rootBelow := held.scopesBelow root inScopes
  have fresh : handles (work :: works) frames ++ ended =
      (nextTodos + 1) :: (handles works frames ++ ended) := by
    rw [handles, List.flatMap_cons, scope_work]
    rfl
  constructor
  · intro todos
    rw [tokens, List.flatMap_cons, List.append_assoc, List.count_append, tokens_work, ← tokens,
      ← List.singleton_append, List.count_append]
    have before := held.counted todos
    by_cases earlier : todos < nextTodos
    · have other : [nextTodos].count todos = 0 :=
        List.count_eq_zero.mpr (by simpa using Nat.ne_of_lt earlier)
      rw [old todos earlier]
      omega
    · have unused := Nat.le_of_not_lt earlier
      have zero := held.count_tokens_eq_zero unused
      have other : [root].count todos = 0 :=
        List.count_eq_zero.mpr (by simpa using Nat.ne_of_gt (Nat.lt_of_lt_of_le rootBelow unused))
      have enough := new todos unused
      omega
  · intro todos member
    rw [tokens, List.flatMap_cons, tokens_work, List.append_assoc, ← tokens] at member
    simp only [List.cons_append, List.nil_append, List.mem_cons] at member
    rcases member with rfl | rfl | member
    · exact Nat.lt_add_of_pos_right (by decide)
    · exact Nat.lt_add_right 2 rootBelow
    · exact Nat.lt_add_right 2 (held.tokensBelow todos member)
  · intro handle member
    rw [fresh] at member
    rcases List.mem_cons.mp member with rfl | member
    · exact Nat.lt_succ_self (nextTodos + 1)
    · exact Nat.lt_add_right 2 (held.handlesBelow handle member)
  · intro handle member
    rcases List.mem_cons.mp member with rfl | member
    · exact Nat.lt_succ_self (nextTodos + 1)
    · exact Nat.lt_add_right 2 (held.scopesBelow handle member)
  · rw [fresh, List.nodup_cons]
    refine ⟨?_, held.distinct⟩
    intro member
    exact Nat.not_lt.mpr (Nat.le_succ nextTodos) (held.handlesBelow _ member)
  · intro other waiting handle otherEnclosing otherCalls
    rcases List.mem_cons.mp waiting with rfl | waiting
    · rw [calls, List.cons.injEq] at otherCalls
      refine ⟨?_, encloses⟩
      rw [tokens_work, ← otherCalls.1]
      simp
    · exact held.owned other waiting handle otherEnclosing otherCalls
  · intro frame member inScopes
    rcases List.mem_cons.mp inScopes with same | inScopes
    · have below := held.handle_lt member
      rw [same] at below
      exact absurd below (Nat.not_lt.mpr (Nat.le_succ nextTodos))
    · exact held.scope frame member inScopes
  · intro frame member code after
    rcases held.afterward frame member code after with ⟨noScope, noWork⟩
    refine ⟨noScope, ?_⟩
    intro other waiting
    rcases List.mem_cons.mp waiting with rfl | waiting
    · rw [calls, List.head?_cons]
      intro same
      rw [Option.some.inj same] at inScopes
      exact noScope (held.scope frame member inScopes)
    · exact noWork other waiting

/-- A new call. -/
theorem enter {more : Counters} {next : Todos} {created : List Todos}
    (held : Held works frames counters nextTodos scopes ended)
    (handle : nextTodos ≤ callFrame.handle ∧ callFrame.handle < next)
    (notAfter : ∀ code, callFrame.stage ≠ .after code)
    (scope : callFrame.handle ∈ created → callFrame.call = .scope)
    (createdNew : ∀ handle ∈ created, nextTodos ≤ handle ∧ handle < next)
    (noScopes : callFrame.rest.flatMap Work.ownScope = [])
    (range : ∀ todos ∈ callFrame.rest.flatMap Work.tokens, nextTodos ≤ todos ∧ todos < next)
    (old : ∀ todos < nextTodos, more todos = counters todos)
    (new : ∀ todos, nextTodos ≤ todos →
      ((callFrame.rest.flatMap Work.tokens).count todos : Int) ≤ more todos) :
    Held works (.call callFrame :: frames) more next (created ++ scopes) ended := by
  have later : nextTodos ≤ next := Nat.le_of_lt (Nat.lt_of_le_of_lt handle.1 handle.2)
  have fresh : (handles works (.call callFrame :: frames) ++ ended).Perm
      (callFrame.handle :: (handles works frames ++ ended)) := by
    rw [handles, List.flatMap_cons, Frame.handles, noScopes]
    exact List.perm_middle.append_right ended
  have sum : ∀ todos, (tokens works (.call callFrame :: frames)).count todos =
      (callFrame.rest.flatMap Work.tokens).count todos + (tokens works frames).count todos := by
    intro todos
    simp only [tokens, Frame.tokens, List.flatMap_cons, List.count_append]
    omega
  constructor
  · intro todos
    have before := held.counted todos
    rw [sum]
    by_cases earlier : todos < nextTodos
    · have none : (callFrame.rest.flatMap Work.tokens).count todos = 0 :=
        List.count_eq_zero.mpr fun member => absurd (range todos member).1 (Nat.not_le.mpr earlier)
      rw [old todos earlier]
      omega
    · have unused := Nat.le_of_not_lt earlier
      have zero := held.count_tokens_eq_zero unused
      have enough := new todos unused
      omega
  · intro todos member
    have positive := List.one_le_count_iff.mpr member
    rw [sum] at positive
    by_cases inRest : todos ∈ callFrame.rest.flatMap Work.tokens
    · exact (range todos inRest).2
    · rw [List.count_eq_zero.mpr inRest, Nat.zero_add] at positive
      exact Nat.lt_of_lt_of_le (held.tokensBelow todos (List.one_le_count_iff.mp positive)) later
  · intro other member
    rcases List.mem_cons.mp (fresh.mem_iff.mp member) with rfl | member
    · exact handle.2
    · exact Nat.lt_of_lt_of_le (held.handlesBelow other member) later
  · intro other member
    rcases List.mem_append.mp member with member | member
    · exact (createdNew other member).2
    · exact Nat.lt_of_lt_of_le (held.scopesBelow other member) later
  · rw [fresh.nodup_iff, List.nodup_cons]
    refine ⟨?_, held.distinct⟩
    intro member
    exact absurd (held.handlesBelow _ member) (Nat.not_lt.mpr handle.1)
  · intro work waiting other enclosing calls
    rcases held.owned work waiting other enclosing calls with ⟨token, encloses⟩
    exact ⟨token, List.mem_cons_of_mem _ encloses⟩
  · intro frame member inScopes
    rcases List.mem_cons.mp member with same | member
    · cases same
      rcases List.mem_append.mp inScopes with inCreated | inScopes
      · exact scope inCreated
      · exact absurd (held.scopesBelow _ inScopes) (Nat.not_lt.mpr handle.1)
    · rcases List.mem_append.mp inScopes with inCreated | inScopes
      · exact absurd (held.handle_lt member) (Nat.not_lt.mpr (createdNew _ inCreated).1)
      · exact held.scope frame member inScopes
  · intro frame member code after
    rcases List.mem_cons.mp member with same | member
    · cases same
      exact absurd after (notAfter code)
    · exact held.afterward frame member code after

end Changes

end Held

end JobSystem

end Cecs

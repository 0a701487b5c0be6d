import Cecs.JobSystem.Held

/-! # Jobs do not outlive their calls

As long as a panic leaves no call before its jobs are done, a job that is queued,
waiting or running is part of calls that are still on the stacks. -/

namespace Cecs

namespace JobSystem

open Foundation

/-- How a call lies on its stack. -/
structure Seated (frame : CallFrame) (below : List Frame) : Prop where
  calls : frame.calls = frame.handle :: callsOf below
  rest : ∀ work ∈ frame.rest, work.calls = frame.calls
  code : ∀ head ∈ below.head?, head.code.isSome = true

/-- A job may be part of other calls than those below it. -/
def Stacked : List Frame → Prop
  | [] => True
  | .call frame :: below => Seated frame below ∧ Stacked below
  | .job _ :: below => Stacked below

section Stacks

variable {frame : Frame} {callFrame : CallFrame} {below stack : List Frame}

theorem Stacked.tail (stacked : Stacked (frame :: below)) : Stacked below := by
  cases frame with
  | call frame => exact stacked.2
  | job frame => exact stacked

theorem Stacked.seated_of_mem (stacked : Stacked stack) (member : .call callFrame ∈ stack) :
    ∃ below, Seated callFrame below ∧ ∀ head ∈ below.head?, head ∈ stack := by
  induction stack with
  | nil => cases member
  | cons top below induction =>
      rcases List.mem_cons.mp member with rfl | member
      · refine ⟨below, stacked.1, ?_⟩
        exact fun head isHead => List.mem_cons_of_mem _ (List.mem_of_mem_head? isHead)
      · rcases induction stacked.tail member with ⟨lower, seated, listed⟩
        exact ⟨lower, seated, fun head isHead => List.mem_cons_of_mem _ (listed head isHead)⟩

theorem Frame.stage_of_code {code : Code} (running : (Frame.call callFrame).code = some code) :
    callFrame.stage = .body code ∨ callFrame.stage = .after code := by
  rw [Frame.code] at running
  split at running
  · rename_i stage
    left
    rw [stage, Option.some.inj running]
  · rename_i stage
    right
    rw [stage, Option.some.inj running]
  · cases running

theorem Frame.left_of_code {jobFrame : JobFrame} {code : Code}
    (running : (Frame.job jobFrame).code = some code) : jobFrame.left = none := by
  simp only [Frame.code, Option.ite_none_right_eq_some, Option.isNone_iff_eq_none] at running
  exact running.1

theorem Frame.code_setCode {code earlier : Code} (running : frame.code = some earlier) :
    (frame.setCode code).code = some code := by
  cases frame with
  | call frame =>
      rw [Frame.code] at running
      rw [Frame.setCode]
      split at running
      all_goals simp_all [Frame.code]
  | job frame =>
      rw [Frame.code] at running
      rw [Frame.setCode, Frame.code]
      simp_all

theorem Stacked.setCode (stacked : Stacked (frame :: below)) (code : Code) :
    Stacked (frame.setCode code :: below) := by
  cases frame with
  | call frame =>
      rw [Frame.setCode]
      split
      · exact ⟨⟨stacked.1.calls, stacked.1.rest, stacked.1.code⟩, stacked.2⟩
      · exact ⟨⟨stacked.1.calls, stacked.1.rest, stacked.1.code⟩, stacked.2⟩
      · exact stacked
  | job frame => exact stacked

end Stacks

namespace Frames

def works (self : Frames) : List Work := self.runnable ++ self.waiting

/-- The jobs that are queued, waiting or running. -/
def pending (self : Frames) : List Work := JobSystem.pending self.works self.executing.flatten

/-- A panic does not leave a call before its handle is done. A scope is dropped then, and a
panic in its drop aborts. -/
def contained (self : Frames) : FrameEvent → Bool
  | .unwind thread =>
      match self.executing[thread]? with
      | some (.call frame :: _) =>
          match frame.call, frame.stage with
          | .scope, .body _ => true
          | .scope, .wait true => true
          | _, .after _ => true
          | _, _ => handleDone self.counters frame.handle
      | _ => true
  | _ => true

def allContained (self : Frames) : List FrameEvent → Bool
  | [] => true
  | event :: events =>
      self.contained event && (self.step event).all fun next => next.allContained events

/-- No job is left of a call that is over. -/
def Settled (self : Frames) : Prop :=
  ∀ work ∈ self.pending, ∀ handle ∈ work.calls, handle ∉ self.ended

instance (self : Frames) : Decidable self.Settled :=
  inferInstanceAs (Decidable (∀ work ∈ self.pending, ∀ handle ∈ work.calls, handle ∉ self.ended))

/-- The counter of the call at the top of a stack is zero only when the call has no jobs left
and no calls within its jobs have any. -/
def DoneAtZero (self : Frames) : Prop :=
  ∀ (thread : Nat) (frame : CallFrame) (below : List Frame),
    self.executing[thread]? = some (.call frame :: below) →
      handleDone self.counters frame.handle = true →
        ∀ work ∈ self.pending, frame.handle ∉ work.calls

/-- What holds of every state that is reached. -/
structure Sound (state : Frames) : Prop where
  held : Held state.works state.executing.flatten state.counters state.nextTodos state.scopes
    state.ended
  stacked : ∀ stack ∈ state.executing, Stacked stack

section Sound

variable {self next : Frames} {thread : Nat} {stack : List Frame}

theorem sound_start (parallelism : ℕ+) (isWorker : Nat → Bool) (threads : Nat) :
    Sound (start parallelism isWorker threads) := by
  have empty : (List.replicate threads ([] : List Frame)).flatten = [] := by simp
  constructor
  · rw [works, start, empty]
    constructor
    all_goals simp [tokens, handles, JobSystem.pending]
  · intro stack member
    rw [start, List.mem_replicate] at member
    rw [member.2]
    trivial

/-- The code at the top of a stack is part of calls that are not over. -/
theorem Sound.callsOf_enclosed (sound : Sound self)
    (listed : ∀ head ∈ stack.head?, head ∈ self.executing.flatten)
    (code : ∀ head ∈ stack.head?, head.code.isSome = true) {handle : Todos}
    {enclosing : List Todos} (calls : callsOf stack = handle :: enclosing) :
    some (callsOf stack) ∈ self.executing.flatten.map Frame.encloses := by
  cases stack with
  | nil => cases calls
  | cons head below =>
      have member := listed head rfl
      cases head with
      | call frame => exact List.mem_map.mpr ⟨.call frame, member, rfl⟩
      | job frame =>
          have running : frame.left.isNone = true := by
            have found := code (.job frame) rfl
            rw [Frame.code, Option.isSome_ite] at found
            exact found
          have waiting : frame.work ∈ self.pending :=
            List.mem_append_right _
              (List.mem_filterMap.mpr ⟨_, member, by simp [Frame.running, running]⟩)
          exact (sound.held.owned frame.work waiting handle enclosing calls).2

/-- So are the calls around a call that is not over. -/
theorem Sound.enclosed (sound : Sound self) {calls above enclosing : List Todos} {handle : Todos}
    (encloses : some calls ∈ self.executing.flatten.map Frame.encloses)
    (around : calls = above ++ handle :: enclosing) :
    some (handle :: enclosing) ∈ self.executing.flatten.map Frame.encloses := by
  induction calls generalizing above with
  | nil => cases above <;> cases around
  | cons first calls induction =>
      cases above with
      | nil =>
          rw [← List.nil_append (handle :: enclosing), ← around]
          exact encloses
      | cons outer above =>
          rw [List.cons_append, List.cons.injEq] at around
          rcases List.mem_map.mp encloses with ⟨frame, member, same⟩
          cases frame with
          | job frame => cases same
          | call frame =>
              rcases List.mem_flatten.mp member with ⟨stack, isStack, inStack⟩
              rcases (sound.stacked stack isStack).seated_of_mem inStack with
                ⟨below, seated, listed⟩
              have below_eq : callsOf below = calls := by
                have frame_eq := seated.calls
                rw [Option.some.inj same, List.cons.injEq] at frame_eq
                exact frame_eq.2.symm
              have nonempty : calls ≠ [] := by simp [around.2]
              rcases List.exists_cons_of_ne_nil nonempty with ⟨handleBelow, enclosingBelow, cons⟩
              have encloses := sound.callsOf_enclosed
                (fun head isHead => List.mem_flatten.mpr ⟨stack, isStack, listed head isHead⟩)
                seated.code (below_eq.trans cons)
              rw [below_eq] at encloses
              exact induction encloses around.2

theorem Sound.settled (sound : Sound self) : self.Settled := by
  intro work waiting handle member
  rcases List.append_of_mem member with ⟨above, enclosing, around⟩
  have nonempty : work.calls ≠ [] := List.ne_nil_of_mem member
  rcases List.exists_cons_of_ne_nil nonempty with ⟨first, others, calls⟩
  have encloses := sound.enclosed (sound.held.owned work waiting first others calls).2 around
  rcases List.mem_map.mp encloses with ⟨frame, listed, same⟩
  cases frame with
  | job frame => cases same
  | call frame =>
      rcases List.mem_flatten.mp listed with ⟨stack, isStack, inStack⟩
      rcases (sound.stacked stack isStack).seated_of_mem inStack with ⟨below, seated, _⟩
      have frame_eq := seated.calls
      rw [Option.some.inj same, List.cons.injEq] at frame_eq
      have live : handle ∈ handles self.works self.executing.flatten := by
        apply List.mem_append_right
        exact List.mem_flatMap.mpr ⟨.call frame, listed, frame_eq.1 ▸ List.mem_cons_self⟩
      intro ended
      exact (List.nodup_append.mp sound.held.distinct).2.2 handle live handle ended rfl

/-- One stack is replaced. -/
theorem Sound.replace (sound : Sound self) (found : self.executing[thread]? = some stack)
    {new : List Frame} (executing : next.executing = self.executing.set thread new)
    (stacked : Stacked new)
    (change : ∀ others,
      Held self.works (stack ++ others) self.counters self.nextTodos self.scopes self.ended →
      Held next.works (new ++ others) next.counters next.nextTodos next.scopes next.ended) :
    Sound next := by
  rcases exists_others found with ⟨others, before, after⟩
  constructor
  · have held := change others (sound.held.perm (List.Perm.refl _) before)
    rw [executing]
    exact held.perm (List.Perm.refl _) (after new)
  · intro other member
    rw [executing] at member
    rcases List.mem_or_eq_of_mem_set member with member | rfl
    · exact sound.stacked other member
    · exact stacked

/-- The same stacks with other flags. -/
theorem Sound.flags (sound : Sound self) (unwinding : Nat → Bool) (aborted : Bool) :
    Sound { self with unwinding, aborted } := ⟨sound.held, sound.stacked⟩

theorem Sound.stacked_of_found (sound : Sound self) (found : self.executing[thread]? = some stack) :
    Stacked stack := sound.stacked stack (List.mem_of_getElem? found)

theorem found_of_stackOf (found : self.stackOf thread = some stack) :
    self.executing[thread]? = some stack ∧ self.unwinding thread = false := by
  simp only [stackOf, Option.bind_eq_bind, Option.bind_eq_some_iff, Option.guard_eq_some',
    Bool.and_eq_true, Bool.not_eq_true', exists_const] at found
  exact ⟨found.2, found.1.2⟩

theorem found_of_callingStack (found : self.callingStack thread = some stack) :
    self.stackOf thread = some stack ∧ ∀ head ∈ stack.head?, head.code = some .closure := by
  simp only [callingStack, Option.bind_eq_bind, Option.bind_eq_some_iff] at found
  rcases found with ⟨other, isStack, rest⟩
  cases other with
  | nil =>
      simp only [Option.bind_eq_some_iff, Option.pure_def, Option.some.injEq] at rest
      rcases rest with ⟨_, _, rfl⟩
      exact ⟨isStack, by simp⟩
  | cons head below =>
      simp only [Option.bind_eq_some_iff, Option.guard_eq_some', Option.pure_def,
        Option.some.injEq] at rest
      rcases rest with ⟨_, code, rfl⟩
      refine ⟨isStack, ?_⟩
      intro other isHead
      rw [List.head?_cons, Option.mem_some_iff] at isHead
      exact isHead ▸ code

theorem allocate_old {values : List Int} {todos : Todos} (earlier : todos < self.nextTodos) :
    (self.allocate values).counters todos = self.counters todos := if_pos earlier

theorem allocate_new (values : List Int) (number : Nat) :
    (self.allocate values).counters (self.nextTodos + number) = (values[number]?).getD 0 := by
  simp [allocate]

/-- A call with jobs whose counters are new. -/
theorem Sound.enters (sound : Sound self) (found : self.executing[thread]? = some stack)
    {base : List Frame} {call : Call} {stage : Stage} {values : List Int}
    {rest : List (Job × Func)} (position : Nat) (numbers : List Nat) (created : List Todos)
    (same : ∀ others,
      Held self.works (stack ++ others) self.counters self.nextTodos self.scopes self.ended →
      Held self.works (base ++ others) self.counters self.nextTodos self.scopes self.ended)
    (stacked : Stacked base) (code : ∀ head ∈ base.head?, head.code.isSome = true)
    (notAfter : ∀ code, stage ≠ .after code) (inRange : position < values.length)
    (scope : created = [] ∨ created = [self.nextTodos + position] ∧ call = .scope)
    (noScopes : ∀ entry ∈ rest, ∀ childScope, entry.2 ≠ .BoxedJob childScope)
    (numbered : rest.flatMap (fun entry => entry.1.idle.tokens) =
      numbers.map (self.nextTodos + ·))
    (enough : ∀ number, (numbers.count number : Int) ≤ (values[number]?).getD 0) :
    Sound { self.enterCall thread base call stage values (self.nextTodos + position) rest with
      scopes := created ++ self.scopes } := by
  apply sound.replace found rfl
  · refine ⟨⟨rfl, ?_, code⟩, stacked⟩
    intro work member
    rcases List.mem_map.mp member with ⟨entry, _, rfl⟩
    rfl
  · intro others held
    have tokens_rest : (worksOf ((self.nextTodos + position) :: callsOf base) rest).flatMap
        Work.tokens = numbers.map (self.nextTodos + ·) := by
      rw [← numbered, worksOf, List.flatMap_map]
      rfl
    have below : ∀ number ∈ numbers, number < values.length := by
      intro number member
      have positive := List.one_le_count_iff.mpr member
      have room := enough number
      by_contra outside
      rw [List.getElem?_eq_none (Nat.le_of_not_lt outside), Option.getD_none] at room
      omega
    apply (same others held).enter
    · exact ⟨Nat.le_add_right _ _, Nat.add_lt_add_left inRange _⟩
    · exact notAfter
    · intro member
      rcases scope with rfl | ⟨_, isScope⟩
      · cases member
      · exact isScope
    · intro handle member
      rcases scope with rfl | ⟨rfl, _⟩
      · cases member
      · rw [List.mem_singleton.mp member]
        exact ⟨Nat.le_add_right _ _, Nat.add_lt_add_left inRange _⟩
    · rw [List.flatMap_eq_nil_iff]
      intro work member
      rcases List.mem_map.mp member with ⟨⟨job, func⟩, listed, rfl⟩
      cases func with
      | BoxedJob childScope => exact absurd rfl (noScopes _ listed childScope)
      | _ => rfl
    · intro todos member
      rw [tokens_rest] at member
      rcases List.mem_map.mp member with ⟨number, listed, rfl⟩
      exact ⟨Nat.le_add_right _ _, Nat.add_lt_add_left (below number listed) _⟩
    · exact fun todos earlier => allocate_old earlier
    · intro todos unused
      rcases Nat.exists_eq_add_of_le unused with ⟨number, rfl⟩
      rw [tokens_rest, List.count_map_of_injective _ _ (add_right_injective self.nextTodos)]
      exact (enough number).trans (allocate_new values number).ge

/-- The same from code that may call. -/
theorem Sound.calls (sound : Sound self) (calling : self.callingStack thread = some stack)
    {call : Call} {stage : Stage} {values : List Int} {rest : List (Job × Func)}
    (position : Nat) (numbers : List Nat) (created : List Todos)
    (notAfter : ∀ code, stage ≠ .after code) (inRange : position < values.length)
    (scope : created = [] ∨ created = [self.nextTodos + position] ∧ call = .scope)
    (noScopes : ∀ entry ∈ rest, ∀ childScope, entry.2 ≠ .BoxedJob childScope)
    (numbered : rest.flatMap (fun entry => entry.1.idle.tokens) =
      numbers.map (self.nextTodos + ·))
    (enough : ∀ number, (numbers.count number : Int) ≤ (values[number]?).getD 0) :
    Sound { self.enterCall thread stack call stage values (self.nextTodos + position) rest with
      scopes := created ++ self.scopes } := by
  rcases found_of_callingStack calling with ⟨isStack, code⟩
  have found := (found_of_stackOf isStack).1
  refine sound.enters found position numbers created (fun others held => held)
    (sound.stacked_of_found found) ?_ notAfter inRange scope noScopes numbered enough
  intro head isHead
  rw [code head isHead]
  rfl

theorem Sound.join (sound : Sound self) (stepped : self.join thread = some next) :
    Sound next := by
  simp only [Frames.join, Option.bind_eq_bind, Option.bind_eq_some_iff, Option.pure_def,
    Option.some.injEq] at stepped
  rcases stepped with ⟨stack, calling, rfl⟩
  apply sound.calls calling 0 [1, 2] []
  · simp
  · exact Nat.zero_lt_succ 2
  · exact Or.inl rfl
  · simp
  · rfl
  · intro number
    rcases number with _ | _ | _ | number
    all_goals simp

theorem Sound.mapReduce (sound : Sound self) {len : Nat}
    (stepped : self.mapReduce thread len = some next) : Sound next := by
  simp only [Frames.mapReduce, Option.bind_eq_bind, Option.bind_eq_some_iff, Option.pure_def,
    Option.some.injEq] at stepped
  rcases stepped with ⟨stack, calling, rfl⟩
  apply sound.calls calling 0 ((List.range len).map (1 + ·)) []
  · simp
  · exact Nat.zero_lt_succ _
  · exact Or.inl rfl
  · simp
  · rw [List.flatMap_map, List.map_map, List.map_eq_flatMap]
    apply List.flatMap_congr
    intro number member
    change [self.nextTodos + 1 + number] = [self.nextTodos + (1 + number)]
    rw [Nat.add_assoc]
  · intro number
    cases number with
    | zero =>
        have notListed : 0 ∉ (List.range len).map (1 + ·) := by simp
        rw [List.count_eq_zero.mpr notListed]
        exact Int.zero_le_ofNat 0
    | succ number =>
        rw [Nat.add_comm number 1,
          List.count_map_of_injective _ _ (add_right_injective 1), List.count_range,
          Nat.add_comm 1 number, List.getElem?_cons_succ, List.getElem?_replicate]
        split
        · exact le_rfl
        · exact le_rfl

theorem Sound.runGraph (sound : Sound self) {graph : HomogeneousJobGraph Func}
    (stepped : self.runGraph thread graph = some next) : Sound next := by
  simp only [Frames.runGraph, Option.bind_eq_bind, Option.bind_eq_some_iff, Option.pure_def,
    Option.some.injEq, Option.guard_eq_some', exists_const, List.all_eq_true,
    decide_eq_true_eq] at stepped
  rcases stepped with ⟨stack, calling, funcs, edges, rfl⟩
  have made := HomogeneousJobGraph.made_getJobs edges
  have length : graph.getJobs.2.length = graph.jobs.length := by
    rw [← List.length_map Job.tasksLeft, made.ids, List.length_range]
  apply sound.calls calling graph.jobs.length
    ((graph.getJobs.2.map Job.idle).flatMap Execution.tokens ++ [graph.jobs.length]) []
  · simp
  · simp
  · exact Or.inl rfl
  · intro entry member childScope
    rcases List.mem_append.mp member with inGraph | isRoot
    · rcases funcs entry.2 (List.of_mem_zip inGraph).2 with same | same
      · rw [same]
        simp
      · rw [same]
        simp
    · rw [List.mem_singleton.mp isRoot]
      simp
  · have jobs : ((graph.getJobs.2.map (shifted self.nextTodos)).zip graph.jobs).map Prod.fst =
        graph.getJobs.2.map (shifted self.nextTodos) := by
      rw [List.map_fst_zip]
      rw [List.length_map, length]
    rw [List.flatMap_append, List.map_append]
    congr 1
    have first := List.flatMap_map Prod.fst (fun job : Job => job.idle.tokens)
      ((graph.getJobs.2.map (shifted self.nextTodos)).zip graph.jobs)
    rw [← first, jobs, List.flatMap_map, List.map_flatMap, List.flatMap_map]
    rfl
  · intro number
    rw [List.count_append, Int.natCast_add, ← made.counts number]
    rcases Nat.lt_trichotomy number graph.jobs.length with inGraph | rfl | outside
    · have other : [graph.jobs.length].count number = 0 :=
        List.count_eq_zero.mpr (by simpa using Nat.ne_of_lt inGraph)
      rw [other, List.getElem?_append_left (by simpa using inGraph), List.getElem?_map,
        List.getElem?_range inGraph]
      simp
    · rw [made.counts, List.count_eq_zero.mpr fun member =>
        Nat.lt_irrefl _ (made.token_lt edges member)]
      simp
    · have other : [graph.jobs.length].count number = 0 :=
        List.count_eq_zero.mpr (by simpa using Nat.ne_of_gt outside)
      have beyond : graph.jobs.length + 1 ≤ number := outside
      rw [made.counts, other, List.count_eq_zero.mpr fun member =>
        Nat.lt_asymm outside (made.token_lt edges member),
        List.getElem?_eq_none (by simpa using beyond)]
      rfl

theorem Sound.scope (sound : Sound self) (stepped : self.scope thread = some next) :
    Sound next := by
  simp only [Frames.scope, Option.bind_eq_bind, Option.bind_eq_some_iff, Option.pure_def,
    Option.some.injEq] at stepped
  rcases stepped with ⟨stack, calling, rfl⟩
  apply sound.calls calling 0 [] [self.nextTodos]
  · simp
  · exact Nat.zero_lt_one
  · exact Or.inr ⟨rfl, rfl⟩
  · simp
  · rfl
  · intro number
    cases number with
    | zero => simp
    | succ number => simp

theorem Sound.reduce (sound : Sound self) (stepped : self.reduce thread = some next) :
    Sound next := by
  simp only [Frames.reduce, Option.bind_eq_bind, Option.bind_eq_some_iff] at stepped
  rcases stepped with ⟨stack, isStack, stepped⟩
  have found := (found_of_stackOf isStack).1
  have stacked := sound.stacked_of_found found
  cases stack with
  | nil => cases stepped
  | cons frame below =>
      dsimp only at stepped
      split at stepped
      · rename_i len maxDepth running
        split at stepped
        · cases stepped
          apply sound.enters found 0 [0] []
          · exact fun others held => held.setCode .returns
          · exact stacked.setCode .returns
          · intro head isHead
            cases isHead
            rw [Frame.code_setCode running]
            rfl
          · simp
          · exact Nat.zero_lt_one
          · exact Or.inl rfl
          · simp
          · rfl
          · intro number
            cases number with
            | zero => simp
            | succ number => simp
        · cases stepped
          exact sound.replace found rfl (stacked.setCode .closure)
            fun others held => held.setCode .closure
      · cases stepped

/-- A task on a scope whose call is not over. -/
theorem Sound.spawned (sound : Sound self) {root : Todos} {enclosing : List Todos}
    (inScopes : root ∈ self.scopes)
    (encloses : some (root :: enclosing) ∈ self.executing.flatten.map Frame.encloses) :
    Sound (self.spawned root enclosing) := by
  refine ⟨?_, sound.stacked⟩
  have spawned : Held (⟨(Job.new self.nextTodos).addChild root, .BoxedJob (self.nextTodos + 1),
      root :: enclosing⟩ :: self.works) self.executing.flatten
      (fetchAdd (self.allocate [1, 0]).counters root) (self.nextTodos + 2)
      ((self.nextTodos + 1) :: self.scopes) self.ended := by
    apply sound.held.spawn inScopes rfl encloses rfl rfl
    · intro todos earlier
      rw [Pool.fetchAdd_apply, allocate_old earlier]
    · intro todos unused
      rcases Nat.exists_eq_add_of_le unused with ⟨number, rfl⟩
      rw [Pool.fetchAdd_apply, allocate_new]
      cases number with
      | zero => simp
      | succ number =>
          have other : self.nextTodos + (number + 1) ∉ [self.nextTodos] := by simp
          rw [List.count_eq_zero.mpr other]
          cases number with
          | zero => simp
          | succ number => simp
  refine spawned.perm ?_ (List.Perm.refl _)
  rw [works, Frames.spawned, List.append_assoc]
  exact List.perm_middle

theorem Sound.spawn (sound : Sound self) {position : Nat}
    (stepped : self.spawn thread position = some next) : Sound next := by
  simp only [Frames.spawn, Option.bind_eq_bind, Option.bind_eq_some_iff] at stepped
  rcases stepped with ⟨stack, calling, stepped⟩
  rcases found_of_callingStack calling with ⟨isStack, code⟩
  have found := (found_of_stackOf isStack).1
  split at stepped
  · cases stepped
  · rename_i root enclosing dropped
    simp only [Option.guard_eq_some', Option.bind_eq_some_iff, exists_const, Option.pure_def,
      Option.some.injEq] at stepped
    rcases stepped with ⟨inScopes, rfl⟩
    have around : callsOf stack = (callsOf stack).take position ++ root :: enclosing := by
      rw [← dropped, List.take_append_drop]
    have nonempty : callsOf stack ≠ [] := by
      rw [around]
      simp
    rcases List.exists_cons_of_ne_nil nonempty with ⟨first, others, calls⟩
    refine sound.spawned inScopes (sound.enclosed (sound.callsOf_enclosed ?_ ?_ calls) around)
    · exact fun head isHead => List.mem_flatten.mpr
        ⟨stack, List.mem_of_getElem? found, List.mem_of_mem_head? isHead⟩
    · intro head isHead
      rw [code head isHead]
      rfl

theorem enqueueJob_cases {work : Work} {ready : Bool}
    (enqueued : self.enqueueJob work ready = some next) :
    ∃ runnable waiting, (runnable ++ waiting).Perm (work :: self.works) ∧
      next = { self with runnable, waiting } := by
  cases ready with
  | true =>
      simp only [enqueueJob, if_true, Option.bind_eq_bind, Option.bind_eq_some_iff,
        Option.guard_eq_some', exists_const, Option.pure_def, Option.some.injEq] at enqueued
      rcases enqueued with ⟨_, rfl⟩
      refine ⟨self.runnable ++ [work], self.waiting, ?_, rfl⟩
      rw [List.append_assoc]
      exact List.perm_middle
  | false =>
      cases enqueued
      refine ⟨self.runnable, self.waiting ++ [work], ?_, rfl⟩
      rw [← List.append_assoc]
      exact List.perm_append_singleton work self.works

theorem Sound.enqueue (sound : Sound self) {ready : Bool}
    (stepped : self.enqueue thread ready = some next) : Sound next := by
  simp only [Frames.enqueue, Option.bind_eq_bind, Option.bind_eq_some_iff] at stepped
  rcases stepped with ⟨stack, isStack, stepped⟩
  have found := (found_of_stackOf isStack).1
  have stacked := sound.stacked_of_found found
  split at stepped
  · rename_i frame below
    split at stepped
    · rename_i work rest stage list
      rcases frame with ⟨call, handle, calls, _, _⟩
      cases stage
      cases list
      have seated : Seated ⟨call, handle, calls, rest, .enqueue⟩ below :=
        ⟨stacked.1.calls, fun other member => stacked.1.rest other (List.mem_cons_of_mem _ member),
          stacked.1.code⟩
      have workCalls := stacked.1.rest work List.mem_cons_self
      split at stepped
      · rename_i own
        rcases enqueueJob_cases stepped with ⟨runnable, waiting, queued, rfl⟩
        refine sound.replace found rfl ⟨seated, stacked.2⟩ ?_
        intro others held
        refine Held.perm ?_ queued (List.Perm.refl _)
        apply held.enqueue []
        · simp
        · exact workCalls
        · exact seated.calls
        · exact (List.append_nil work.tokens).symm
        · rfl
        · exact fun todos => (add_zero _).symm
        · simp
        · exact own ▸ List.mem_cons_self
      · rcases enqueueJob_cases stepped with ⟨runnable, waiting, queued, rfl⟩
        refine sound.replace found rfl ⟨seated, stacked.2⟩ ?_
        intro others held
        refine Held.perm ?_ queued (List.Perm.refl _)
        apply held.enqueue [handle]
        · simp
        · exact workCalls
        · exact seated.calls
        · rfl
        · rfl
        · exact fun todos => Pool.fetchAdd_apply self.counters handle todos
        · intro todos member
          rw [List.mem_singleton.mp member]
          exact held.handle_lt List.mem_cons_self
        · exact List.mem_cons_of_mem _ (List.mem_append_right _ List.mem_cons_self)
    · cases stepped
  · cases stepped

theorem Seated.restage {frame : CallFrame} {below : List Frame} (seated : Seated frame below)
    (stage : Stage) : Seated { frame with stage } below :=
  ⟨seated.calls, seated.rest, seated.code⟩

theorem Sound.enqueued (sound : Sound self) (stepped : self.enqueued thread = some next) :
    Sound next := by
  simp only [Frames.enqueued, Option.bind_eq_bind, Option.bind_eq_some_iff] at stepped
  rcases stepped with ⟨stack, isStack, stepped⟩
  have found := (found_of_stackOf isStack).1
  have stacked := sound.stacked_of_found found
  split at stepped
  · rename_i frame below
    split at stepped
    · cases stepped
      refine sound.replace found rfl ⟨Seated.restage stacked.1 _, stacked.2⟩ ?_
      intro others held
      apply held.restage
      intro code after
      split at after
      · cases after
      · cases after
    · cases stepped
  · cases stepped

theorem stacked_framesOf {work : Work} (stacked : Stacked stack) :
    Stacked (framesOf work ++ stack) := by
  cases func : work.func with
  | BoxedJob childScope =>
      rw [framesOf, func]
      refine ⟨⟨rfl, by simp, ?_⟩, stacked⟩
      intro head isHead
      cases isHead
      rfl
  | _ =>
      rw [framesOf, func]
      exact stacked

theorem cons_eraseIdx_perm {works : List Work} {position : Nat} {work : Work}
    (found : works[position]? = some work) : (work :: works.eraseIdx position).Perm works := by
  rcases List.getElem?_eq_some_iff.mp found with ⟨inRange, rfl⟩
  exact List.getElem_cons_eraseIdx_perm inRange

theorem Sound.pop (sound : Sound self) {position : Nat}
    (stepped : self.pop thread position = some next) : Sound next := by
  simp only [Frames.pop, Option.bind_eq_bind, Option.bind_eq_some_iff, Option.guard_eq_some',
    exists_const, Option.pure_def, Option.some.injEq] at stepped
  rcases stepped with ⟨stack, isStack, idle, work, queued, rfl⟩
  have found := (found_of_stackOf isStack).1
  refine sound.replace found rfl (stacked_framesOf (sound.stacked_of_found found)) ?_
  intro others held
  have taken := (cons_eraseIdx_perm queued).append_right self.waiting
  rw [List.append_assoc]
  exact (held.perm taken (List.Perm.refl _)).pop

theorem Sound.promote (sound : Sound self) {position : Nat}
    (stepped : self.promote position = some next) : Sound next := by
  simp only [Frames.promote, Option.bind_eq_bind, Option.bind_eq_some_iff, Option.guard_eq_some',
    exists_const, Option.pure_def, Option.some.injEq] at stepped
  rcases stepped with ⟨_, work, waiting, _, rfl⟩
  refine ⟨sound.held.perm ?_ (List.Perm.refl _), sound.stacked⟩
  rw [works, List.append_assoc]
  exact (cons_eraseIdx_perm waiting).append_left self.runnable

theorem Sound.release (sound : Sound self) (stepped : self.release thread = some next) :
    Sound next := by
  simp only [Frames.release, Option.bind_eq_bind, Option.bind_eq_some_iff] at stepped
  rcases stepped with ⟨stack, isStack, stepped⟩
  have found := (found_of_stackOf isStack).1
  have stacked := sound.stacked_of_found found
  split at stepped
  · rename_i frame below
    split at stepped
    · rename_i remaining
      cases stepped
      exact sound.replace found rfl stacked fun others held => held.release remaining
    · cases stepped
  · cases stepped

theorem Sound.finish (sound : Sound self) (stepped : self.finish thread = some next) :
    Sound next := by
  simp only [Frames.finish, Option.bind_eq_bind, Option.bind_eq_some_iff] at stepped
  rcases stepped with ⟨stack, isStack, stepped⟩
  have found := (found_of_stackOf isStack).1
  have stacked := sound.stacked_of_found found
  split at stepped
  · rename_i frame below
    split at stepped
    · rename_i released
      cases stepped
      exact sound.replace found rfl stacked.tail fun others held => held.finish released
    · cases stepped
  · cases stepped

theorem Sound.endCall (sound : Sound self) {frame : CallFrame} {below : List Frame}
    (found : self.executing[thread]? = some (.call frame :: below))
    (jobless : (∃ code, frame.stage = .after code) ∨ handleDone self.counters frame.handle = true) :
    Sound (self.endCall thread frame below) := by
  have stacked := sound.stacked_of_found found
  refine sound.replace found rfl stacked.2 ?_
  intro others held
  apply held.endCall stacked.1.calls
  intro work waiting
  rcases jobless with ⟨code, after⟩ | done
  · exact (held.afterward frame List.mem_cons_self code after).2 work waiting
  · exact held.head_ne_of_done done waiting

theorem Sound.doneAtZero (sound : Sound self) : self.DoneAtZero := by
  intro thread frame below found done work waiting member
  -- The call could end now.
  have ended := (sound.endCall found (Or.inr done)).settled
  apply ended work ?_ frame.handle member List.mem_cons_self
  rcases exists_others found with ⟨others, before, after⟩
  have same : (self.endCall thread frame below).pending.Perm self.pending :=
    ((after below).filterMap Frame.running).trans (before.filterMap Frame.running)
      |>.append_left self.works
  exact same.mem_iff.mpr waiting

theorem Sound.waited (sound : Sound self) (stepped : self.waited thread = some next) :
    Sound next := by
  simp only [Frames.waited, Option.bind_eq_bind, Option.bind_eq_some_iff] at stepped
  rcases stepped with ⟨stack, isStack, stepped⟩
  have found := (found_of_stackOf isStack).1
  have stacked := sound.stacked_of_found found
  split at stepped
  · rename_i frame below
    split at stepped
    · simp only [Option.guard_eq_some', Option.bind_eq_some_iff, exists_const] at stepped
      rcases stepped with ⟨done, stepped⟩
      have goesOn : frame.call ≠ .scope → ∀ code,
          Sound (self.setStack thread (.call { frame with stage := .after code } :: below)) := by
        intro noScope code
        refine sound.replace found rfl ⟨Seated.restage stacked.1 _, stacked.2⟩ ?_
        intro others held
        apply held.restage
        exact fun _ _ => ⟨noScope, fun work waiting => held.head_ne_of_done done waiting⟩
      split at stepped
      · rename_i call
        cases stepped
        exact goesOn (by simp [call]) .closure
      · rename_i len call
        cases stepped
        exact goesOn (by simp [call]) (.reduce len (self.parallelism : Nat).log2)
      · rename_i call
        cases stepped
        exact goesOn (by simp [call]) .returns
      · rename_i call
        cases stepped
        exact goesOn (by simp [call]) .closure
      · cases stepped
        exact (sound.endCall found (Or.inr done)).flags _ _
    · cases stepped
  · cases stepped

theorem Sound.answer (sound : Sound self) {frame : JobFrame} {below : List Frame}
    (found : self.executing[thread]? = some (.job frame :: below)) (notDone : frame.left = none) :
    Sound (self.answer thread frame below) :=
  sound.replace found rfl (sound.stacked_of_found found).tail fun _ held => held.answer notDone

theorem Sound.returns (sound : Sound self) (stepped : self.returns thread = some next) :
    Sound next := by
  simp only [Frames.returns, Option.bind_eq_bind, Option.bind_eq_some_iff] at stepped
  rcases stepped with ⟨stack, isStack, stepped⟩
  have found := (found_of_stackOf isStack).1
  have stacked := sound.stacked_of_found found
  cases stack with
  | nil => cases stepped
  | cons frame below =>
      simp only [Option.guard_eq_some', Option.bind_eq_some_iff, exists_const] at stepped
      rcases stepped with ⟨running, stepped⟩
      cases frame with
      | call frame =>
          dsimp only at stepped
          split at stepped
          · cases stepped
            refine sound.replace found rfl ⟨Seated.restage stacked.1 _, stacked.2⟩ ?_
            exact fun others held => held.restage (by simp)
          · rename_i noBody
            cases stepped
            apply sound.endCall found
            left
            rcases running with running | running
            · exact ⟨_, (Frame.stage_of_code running).resolve_left (noBody _)⟩
            · exact ⟨_, (Frame.stage_of_code running).resolve_left (noBody _)⟩
      | job frame =>
          cases stepped
          apply sound.answer found
          rcases running with running | running
          · exact Frame.left_of_code running
          · exact Frame.left_of_code running

theorem Sound.panic (sound : Sound self) (stepped : self.panic thread = some next) :
    Sound next := by
  simp only [Frames.panic, Option.bind_eq_bind, Option.bind_eq_some_iff] at stepped
  rcases stepped with ⟨stack, isStack, stepped⟩
  cases stack with
  | nil => cases stepped
  | cons frame below =>
      simp only [Option.guard_eq_some', Option.bind_eq_some_iff, exists_const, Option.pure_def,
        Option.some.injEq] at stepped
      rcases stepped with ⟨_, rfl⟩
      exact sound.flags _ _

theorem Sound.unwind (sound : Sound self) (contained : self.contained (.unwind thread) = true)
    (stepped : self.unwind thread = some next) : Sound next := by
  simp only [Frames.unwind, Option.bind_eq_bind, Option.bind_eq_some_iff, Option.guard_eq_some',
    exists_const] at stepped
  rcases stepped with ⟨_, stack, found, stepped⟩
  have stacked := sound.stacked_of_found found
  split at stepped
  · rename_i frame below
    split at stepped
    · cases stepped
      have dropped : Sound (self.setStack thread
          (.call { frame with stage := .wait true } :: below)) := by
        refine sound.replace found rfl ⟨Seated.restage stacked.1 _, stacked.2⟩ ?_
        exact fun others held => held.restage (by simp)
      exact dropped.flags _ _
    · cases stepped
      exact sound.flags _ _
    · rename_i notDropped notAborted
      cases stepped
      apply sound.endCall found
      rw [Frames.contained, found] at contained
      dsimp only at contained
      split at contained
      · rename_i isScope body
        exact absurd body (notDropped _ isScope)
      · rename_i isScope dropping
        exact absurd dropping (notAborted isScope)
      · rename_i after
        exact Or.inl ⟨_, after⟩
      · exact Or.inr contained
  · rename_i frame below
    simp only [Option.guard_eq_some', Option.bind_eq_some_iff, exists_const,
      Option.isNone_iff_eq_none] at stepped
    rcases stepped with ⟨notDone, stepped⟩
    split at stepped
    · cases stepped
      exact (sound.answer found notDone).flags _ _
    · cases stepped
      exact sound.replace found rfl stacked.tail fun others held => held.drop
  · split at stepped
    · cases stepped
      exact sound.flags _ _
    · cases stepped
      exact sound.flags _ _

theorem Sound.step (sound : Sound self) {event : FrameEvent}
    (contained : self.contained event = true) (stepped : self.step event = some next) :
    Sound next := by
  cases event with
  | join thread => exact sound.join stepped
  | mapReduce thread len => exact sound.mapReduce stepped
  | runGraph thread graph => exact sound.runGraph stepped
  | scope thread => exact sound.scope stepped
  | spawn thread position => exact sound.spawn stepped
  | reduce thread => exact sound.reduce stepped
  | enqueue thread ready => exact sound.enqueue stepped
  | enqueued thread => exact sound.enqueued stepped
  | pop thread position => exact sound.pop stepped
  | promote position => exact sound.promote stepped
  | waited thread => exact sound.waited stepped
  | returns thread => exact sound.returns stepped
  | panic thread => exact sound.panic stepped
  | unwind thread => exact sound.unwind contained stepped
  | release thread => exact sound.release stepped
  | finish thread => exact sound.finish stepped

end Sound

section Runs

variable {parallelism : ℕ+} {isWorker : Nat → Bool} {threads : Nat} {events : List FrameEvent}
  {self state : Frames}

theorem Sound.run (sound : Sound self) (contained : self.allContained events = true)
    (ran : self.run events = some state) : Sound state := by
  induction events generalizing self with
  | nil =>
      cases ran
      exact sound
  | cons event events induction =>
      rw [Frames.run, List.foldlM_cons, Option.bind_eq_bind, Option.bind_eq_some_iff] at ran
      rcases ran with ⟨next, stepped, ran⟩
      rw [allContained, stepped, Bool.and_eq_true] at contained
      exact induction (sound.step contained.1 stepped) contained.2 ran

/-- A job is not queued, waiting or running when a call around it is over. -/
theorem run_settled (contained : (start parallelism isWorker threads).allContained events = true)
    (ran : (start parallelism isWorker threads).run events = some state) : state.Settled :=
  ((sound_start parallelism isWorker threads).run contained ran).settled

end Runs

section Examples

/-- Thread 0 calls the pool, thread 1 is its worker. -/
def pool : Frames := start 2 (fun thread => thread = 1) 2

/-- `map` panics for the second element, so that `reduce_recursive` panics for the right half
before it waits for the left one. -/
def mapPanics : List FrameEvent :=
  [.mapReduce 0 2, .enqueue 0 true, .enqueue 0 true, .enqueued 0,
    .pop 0 0, .returns 0, .release 0, .finish 0, .pop 0 0, .panic 0, .unwind 0, .release 0,
    .finish 0, .waited 0, .reduce 0, .enqueue 0 true, .enqueued 0, .reduce 0, .panic 0,
    .unwind 0, .unwind 0]

/-- The caller of `run_graph` executes the first of two systems, which panics. -/
def systemPanics : List FrameEvent :=
  [.runGraph 0 (HomogeneousJobGraph.new [.SystemJob, .SystemJob]), .enqueue 0 true,
    .enqueue 0 true, .enqueue 0 false, .enqueued 0, .pop 0 0, .panic 0, .unwind 0, .unwind 0]

/-- The second closure panics, and so does `join` after its wait. -/
def joinPanics : List FrameEvent :=
  [.join 0, .enqueue 0 true, .enqueue 0 true, .enqueued 0, .pop 1 0, .pop 0 0, .panic 0,
    .unwind 0, .returns 1, .release 0, .finish 0, .release 1, .waited 0, .panic 0, .unwind 0]

theorem run_unsettled :
    (∃ state, pool.run mapPanics = some state ∧ ¬state.Settled) ∧
      ∃ state, pool.run systemPanics = some state ∧ ¬state.Settled :=
  ⟨⟨(pool.run mapPanics).get (by decide), (Option.some_get _).symm, by decide⟩,
    (pool.run systemPanics).get (by decide), (Option.some_get _).symm, by decide⟩

theorem run_settled_sample : ∃ state, pool.run joinPanics = some state ∧ state.ended = [0] ∧
    state.Settled :=
  ⟨(pool.run joinPanics).get (by decide), (Option.some_get _).symm, by decide,
    run_settled (by decide) (Option.some_get _).symm⟩

end Examples

end Frames

end JobSystem

end Cecs

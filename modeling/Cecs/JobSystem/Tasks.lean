import Cecs.JobSystem.Waits

/-! # Trees of tasks

Tasks catch their panics, and a panic in the closure of a scope drops the scope. So
without `map_reduce` and `run_graph`, and as long as every closure keeps its `Scope`, no
panic leaves a call before its jobs are done. -/

namespace Cecs

namespace JobSystem

/-- All but `map_reduce` and `run_graph`. -/
def FrameEvent.ofTasks : FrameEvent → Bool
  | .mapReduce _ _ => false
  | .runGraph _ _ => false
  | _ => true

/-- Closures whose panics are caught. -/
def Func.plain : Func → Bool
  | .InlineJob code => code = .closure
  | .BoxedJob _ => true
  | .SystemJob => false

theorem Func.catches_of_plain {func : Func} (plain : func.plain = true) : func.catches = true := by
  cases func with
  | InlineJob code => rfl
  | BoxedJob childScope => rfl
  | SystemJob => cases plain

theorem Func.code_of_plain {func : Func} (plain : func.plain = true) : func.code = .closure := by
  cases func with
  | InlineJob code => exact of_decide_eq_true plain
  | BoxedJob childScope => rfl
  | SystemJob => rfl

structure PlainCall (frame : CallFrame) : Prop where
  call : frame.call = .join ∨ frame.call = .scope
  rest : ∀ work ∈ frame.rest, work.func.plain = true
  body : ∀ code, frame.stage = .body code → frame.call = .scope ∧ code = .closure
  after : ∀ code, frame.stage = .after code → code = .closure

structure PlainJob (frame : JobFrame) : Prop where
  func : frame.work.func.plain = true
  code : frame.code = .closure

def Plain : Frame → Prop
  | .call frame => PlainCall frame
  | .job frame => PlainJob frame

theorem Plain.code {frame : Frame} (plain : Plain frame) {code : Code}
    (running : frame.code = some code) : code = .closure := by
  cases frame with
  | call frame =>
      rcases Frame.stage_of_code running with body | after
      · exact (PlainCall.body plain code body).2
      · exact PlainCall.after plain code after
  | job frame =>
      simp only [Frame.code, Option.ite_none_right_eq_some, Option.some.injEq] at running
      rw [← running.2]
      exact PlainJob.code plain

namespace Frames

/-- A stack that a panic unwinds has code at its top. -/
structure Caught (state : Frames) : Prop where
  queued : ∀ work ∈ state.works, work.func.plain = true
  framed : ∀ frame ∈ state.executing.flatten, Plain frame
  unwinding : ∀ thread stack, state.executing[thread]? = some stack →
    state.unwinding thread = true → ∀ head ∈ stack.head?, head.code.isSome = true

section Caught

variable {self next : Frames} {thread : Nat} {stack : List Frame}

theorem setUnwinding_other {other : Nat} (different : other ≠ thread) (unwinding : Bool) :
    (self.setUnwinding thread unwinding).unwinding other = self.unwinding other := by
  simp [setUnwinding, different]

theorem setUnwinding_same (unwinding : Bool) :
    (self.setUnwinding thread unwinding).unwinding thread = unwinding := by
  simp [setUnwinding]

theorem caught_start (parallelism : ℕ+) (isWorker : Nat → Bool) (threads : Nat) :
    Caught (start parallelism isWorker threads) where
  queued := List.forall_mem_nil _
  framed frame member := by simp [start] at member
  unwinding thread stack found running := by cases running

theorem Caught.plain (caught : Caught self) (found : self.executing[thread]? = some stack) :
    ∀ frame ∈ stack, Plain frame := fun frame member =>
  caught.framed frame (List.mem_flatten.mpr ⟨stack, List.mem_of_getElem? found, member⟩)

/-- One stack is replaced. -/
theorem Caught.replace (caught : Caught self) (found : self.executing[thread]? = some stack)
    {new : List Frame} (executing : next.executing = self.executing.set thread new)
    (works : ∀ work ∈ next.works, work ∈ self.works ∨ work.func.plain = true)
    (plain : ∀ frame ∈ new, Plain frame)
    (others : ∀ other, other ≠ thread → next.unwinding other = true →
      self.unwinding other = true)
    (top : next.unwinding thread = true → ∀ head ∈ new.head?, head.code.isSome = true) :
    Caught next := by
  constructor
  · intro work member
    rcases works work member with earlier | new
    · exact caught.queued work earlier
    · exact new
  · intro frame member
    rw [executing] at member
    rcases List.mem_flatten.mp member with ⟨other, isStack, inStack⟩
    rcases List.mem_or_eq_of_mem_set isStack with isStack | rfl
    · exact caught.framed frame (List.mem_flatten.mpr ⟨other, isStack, inStack⟩)
    · exact plain frame inStack
  · intro other lower foundOther unwinding
    rw [executing] at foundOther
    by_cases same : other = thread
    · subst same
      have inRange := (List.getElem?_eq_some_iff.mp found).1
      rw [List.getElem?_set_self inRange, Option.some.injEq] at foundOther
      subst foundOther
      exact top unwinding
    · rw [List.getElem?_set_ne (Ne.symm same)] at foundOther
      exact caught.unwinding other lower foundOther (others other same unwinding)

/-- The same when the thread goes on normally and takes no job. -/
theorem Caught.goesOn (caught : Caught self) (isStack : self.stackOf thread = some stack)
    {new : List Frame} (executing : next.executing = self.executing.set thread new)
    (works : ∀ work ∈ next.works, work ∈ self.works ∨ work.func.plain = true)
    (plain : ∀ frame ∈ new, Plain frame) (unwinding : next.unwinding = self.unwinding) :
    Caught next := by
  rcases found_of_stackOf isStack with ⟨found, normal⟩
  refine caught.replace found executing works plain ?_ ?_
  · intro other _ running
    rwa [unwinding] at running
  · intro running
    rw [unwinding, normal] at running
    cases running

theorem Caught.join (caught : Caught self) (stepped : self.join thread = some next) :
    Caught next := by
  simp only [Frames.join, Option.bind_eq_bind, Option.bind_eq_some_iff, Option.pure_def,
    Option.some.injEq] at stepped
  rcases stepped with ⟨stack, calling, rfl⟩
  have isStack := (found_of_callingStack calling).1
  refine caught.goesOn isStack rfl (fun work member => Or.inl member) ?_ rfl
  intro frame member
  rcases List.mem_cons.mp member with rfl | member
  · exact ⟨Or.inl rfl, by simp [worksOf, Func.plain], by simp, by simp⟩
  · exact caught.plain (found_of_stackOf isStack).1 frame member

theorem Caught.scope (caught : Caught self) (stepped : self.scope thread = some next) :
    Caught next := by
  simp only [Frames.scope, Option.bind_eq_bind, Option.bind_eq_some_iff, Option.pure_def,
    Option.some.injEq] at stepped
  rcases stepped with ⟨stack, calling, rfl⟩
  have isStack := (found_of_callingStack calling).1
  refine caught.goesOn isStack rfl (fun work member => Or.inl member) ?_ rfl
  intro frame member
  rcases List.mem_cons.mp member with rfl | member
  · refine ⟨Or.inr rfl, List.forall_mem_nil _, ?_, by simp⟩
    intro code body
    cases body
    exact ⟨rfl, rfl⟩
  · exact caught.plain (found_of_stackOf isStack).1 frame member

theorem Caught.spawn (caught : Caught self) {position : Nat}
    (stepped : self.spawn thread position = some next) : Caught next := by
  simp only [Frames.spawn, Option.bind_eq_bind, Option.bind_eq_some_iff] at stepped
  rcases stepped with ⟨stack, _, stepped⟩
  split at stepped
  · cases stepped
  · simp only [Option.guard_eq_some', Option.bind_eq_some_iff, exists_const, Option.pure_def,
      Option.some.injEq] at stepped
    rcases stepped with ⟨_, rfl⟩
    refine ⟨?_, caught.framed, caught.unwinding⟩
    intro work member
    rw [works, spawned, List.append_assoc] at member
    rcases List.mem_cons.mp (List.perm_middle.mem_iff.mp member) with rfl | member
    · rfl
    · exact caught.queued work member

theorem Caught.reduce (caught : Caught self) (stepped : self.reduce thread = some next) :
    Caught next := by
  simp only [Frames.reduce, Option.bind_eq_bind, Option.bind_eq_some_iff] at stepped
  rcases stepped with ⟨stack, isStack, stepped⟩
  cases stack with
  | nil => cases stepped
  | cons frame below =>
      dsimp only at stepped
      split at stepped
      · rename_i len maxDepth running
        have plain := caught.plain (found_of_stackOf isStack).1 frame List.mem_cons_self
        cases plain.code running
      · cases stepped

theorem Caught.enqueueJob (caught : Caught self) {work : Work} (plain : work.func.plain = true)
    {ready : Bool} (enqueued : self.enqueueJob work ready = some next) : Caught next := by
  rcases enqueueJob_cases enqueued with ⟨runnable, waiting, queued, rfl⟩
  refine ⟨?_, caught.framed, caught.unwinding⟩
  intro other member
  rcases List.mem_cons.mp (queued.mem_iff.mp member) with rfl | member
  · exact plain
  · exact caught.queued other member

theorem Caught.enqueue (caught : Caught self) {ready : Bool}
    (stepped : self.enqueue thread ready = some next) : Caught next := by
  simp only [Frames.enqueue, Option.bind_eq_bind, Option.bind_eq_some_iff] at stepped
  rcases stepped with ⟨stack, isStack, stepped⟩
  have plain := caught.plain (found_of_stackOf isStack).1
  split at stepped
  · rename_i frame below
    have plainCall : PlainCall frame := plain (.call frame) List.mem_cons_self
    split at stepped
    · rename_i work rest stage list
      have plainWork := plainCall.rest work (list ▸ List.mem_cons_self)
      have plainNew : ∀ other ∈ .call { frame with rest } :: below, Plain other := by
        intro other member
        rcases List.mem_cons.mp member with rfl | member
        · refine ⟨plainCall.call, ?_, plainCall.body, plainCall.after⟩
          intro later member
          exact plainCall.rest later (list ▸ List.mem_cons_of_mem _ member)
        · exact plain other (List.mem_cons_of_mem _ member)
      split at stepped
      · refine Caught.enqueueJob ?_ ?_ stepped
        · exact caught.goesOn isStack rfl (fun other member => Or.inl member) plainNew rfl
        · exact plainWork
      · refine Caught.enqueueJob ?_ ?_ stepped
        · exact caught.goesOn isStack rfl (fun other member => Or.inl member) plainNew rfl
        · exact plainWork
    · cases stepped
  · cases stepped

/-- A call that goes on to a stage without code. -/
theorem plain_restage {frame : CallFrame} {below : List Frame} {stage : Stage}
    (plain : ∀ other ∈ .call frame :: below, Plain other)
    (body : ∀ code, stage ≠ .body code) (after : ∀ code, stage = .after code → code = .closure) :
    ∀ other ∈ .call { frame with stage } :: below, Plain other := by
  intro other member
  have plainCall : PlainCall frame := plain (.call frame) List.mem_cons_self
  rcases List.mem_cons.mp member with rfl | member
  · exact ⟨plainCall.call, plainCall.rest, fun code isBody => absurd isBody (body code), after⟩
  · exact plain other (List.mem_cons_of_mem _ member)

theorem Caught.enqueued (caught : Caught self) (stepped : self.enqueued thread = some next) :
    Caught next := by
  simp only [Frames.enqueued, Option.bind_eq_bind, Option.bind_eq_some_iff] at stepped
  rcases stepped with ⟨stack, isStack, stepped⟩
  have plain := caught.plain (found_of_stackOf isStack).1
  split at stepped
  · rename_i frame below
    have plainCall : PlainCall frame := plain (.call frame) List.mem_cons_self
    split at stepped
    · cases stepped
      refine caught.goesOn isStack rfl (fun work member => Or.inl member)
        (plain_restage plain ?_ ?_) rfl
      · rcases plainCall.call with call | call
        · rw [call]
          simp
        · rw [call]
          simp
      · rcases plainCall.call with call | call
        · rw [call]
          simp
        · rw [call]
          simp
    · cases stepped
  · cases stepped

theorem plain_framesOf {work : Work} (plain : work.func.plain = true) :
    ∀ frame ∈ framesOf work, Plain frame := by
  have plainJob : PlainJob { work, left := none, code := work.func.code } :=
    ⟨plain, Func.code_of_plain plain⟩
  intro frame member
  cases func : work.func with
  | BoxedJob childScope =>
      rw [framesOf, func] at member
      rcases List.mem_cons.mp member with rfl | member
      · refine ⟨Or.inr rfl, by simp, ?_, by simp⟩
        intro code body
        cases body
        exact ⟨rfl, rfl⟩
      · rw [← func] at member
        rw [List.mem_singleton.mp member]
        exact plainJob
  | _ =>
      rw [framesOf, func] at member
      rw [List.mem_singleton.mp member, ← func]
      exact plainJob

theorem Caught.pop (caught : Caught self) {position : Nat}
    (stepped : self.pop thread position = some next) : Caught next := by
  simp only [Frames.pop, Option.bind_eq_bind, Option.bind_eq_some_iff, Option.guard_eq_some',
    exists_const, Option.pure_def, Option.some.injEq] at stepped
  rcases stepped with ⟨stack, isStack, _, work, queued, rfl⟩
  have taken := (cons_eraseIdx_perm queued).append_right self.waiting
  refine caught.goesOn isStack rfl ?_ ?_ rfl
  · exact fun other member => Or.inl (taken.mem_iff.mp (List.mem_cons_of_mem _ member))
  · intro frame member
    rcases List.mem_append.mp member with new | member
    · exact plain_framesOf (caught.queued work (taken.mem_iff.mp List.mem_cons_self)) frame new
    · exact caught.plain (found_of_stackOf isStack).1 frame member

theorem Caught.promote (caught : Caught self) {position : Nat}
    (stepped : self.promote position = some next) : Caught next := by
  simp only [Frames.promote, Option.bind_eq_bind, Option.bind_eq_some_iff, Option.guard_eq_some',
    exists_const, Option.pure_def, Option.some.injEq] at stepped
  rcases stepped with ⟨_, work, waiting, _, rfl⟩
  refine ⟨?_, caught.framed, caught.unwinding⟩
  intro other member
  apply caught.queued
  rw [works, List.append_assoc] at member
  exact ((cons_eraseIdx_perm waiting).append_left self.runnable).mem_iff.mp member

theorem Caught.waited (caught : Caught self) (sound : Sound self)
    (stepped : self.waited thread = some next) : Caught next := by
  simp only [Frames.waited, Option.bind_eq_bind, Option.bind_eq_some_iff] at stepped
  rcases stepped with ⟨stack, isStack, stepped⟩
  have found := (found_of_stackOf isStack).1
  have plain := caught.plain found
  split at stepped
  · rename_i frame below
    have plainCall : PlainCall frame := plain (.call frame) List.mem_cons_self
    split at stepped
    · simp only [Option.guard_eq_some', Option.bind_eq_some_iff, exists_const] at stepped
      rcases stepped with ⟨_, stepped⟩
      have joinOrScope : ∀ call, frame.call = call → call = .join ∨ call = .scope :=
        fun call same => same ▸ plainCall.call
      split at stepped
      · cases stepped
        refine caught.goesOn isStack rfl (fun work member => Or.inl member)
          (plain_restage plain (by simp) ?_) rfl
        intro code after
        cases after
        rfl
      · rename_i call
        rcases joinOrScope _ call with same | same <;> cases same
      · rename_i call
        rcases joinOrScope _ call with same | same <;> cases same
      · rename_i call
        rcases joinOrScope _ call with same | same <;> cases same
      · cases stepped
        refine caught.replace found rfl (fun work member => Or.inl member)
          (fun other member => plain other (List.mem_cons_of_mem _ member)) ?_ ?_
        · exact fun other different running => (setUnwinding_other different _).symm.trans running
        · exact fun _ => (sound.stacked_of_found found).1.code
    · cases stepped
  · cases stepped

theorem Caught.answer (caught : Caught self) {frame : JobFrame} {below : List Frame}
    (found : self.executing[thread]? = some (.job frame :: below)) {unwinding : Nat → Bool}
    (others : ∀ other, other ≠ thread → unwinding other = true → self.unwinding other = true)
    (normal : unwinding thread = false) :
    Caught { self.answer thread frame below with unwinding } := by
  have plain := caught.plain found
  have plainJob : PlainJob frame := plain (.job frame) List.mem_cons_self
  refine caught.replace found rfl (fun work member => Or.inl member) ?_ others ?_
  · intro other member
    rcases List.mem_cons.mp member with rfl | member
    · exact ⟨plainJob.func, plainJob.code⟩
    · exact plain other (List.mem_cons_of_mem _ member)
  · exact fun running => absurd (normal.symm.trans running) Bool.false_ne_true

theorem Caught.returns (caught : Caught self) (stepped : self.returns thread = some next) :
    Caught next := by
  simp only [Frames.returns, Option.bind_eq_bind, Option.bind_eq_some_iff] at stepped
  rcases stepped with ⟨stack, isStack, stepped⟩
  rcases found_of_stackOf isStack with ⟨found, normal⟩
  have plain := caught.plain found
  cases stack with
  | nil => cases stepped
  | cons frame below =>
      simp only [Option.guard_eq_some', Option.bind_eq_some_iff, exists_const] at stepped
      rcases stepped with ⟨_, stepped⟩
      cases frame with
      | call frame =>
          dsimp only at stepped
          split at stepped
          · cases stepped
            exact caught.goesOn isStack rfl (fun work member => Or.inl member)
              (plain_restage plain (by simp) (by simp)) rfl
          · cases stepped
            exact caught.goesOn isStack rfl (fun work member => Or.inl member)
              (fun other member => plain other (List.mem_cons_of_mem _ member)) rfl
      | job frame =>
          cases stepped
          exact caught.answer found (fun other _ running => running) normal

theorem Caught.panic (caught : Caught self) (stepped : self.panic thread = some next) :
    Caught next := by
  simp only [Frames.panic, Option.bind_eq_bind, Option.bind_eq_some_iff] at stepped
  rcases stepped with ⟨stack, isStack, stepped⟩
  have found := (found_of_stackOf isStack).1
  cases stack with
  | nil => cases stepped
  | cons frame below =>
      simp only [Option.guard_eq_some', Option.bind_eq_some_iff, exists_const, Option.pure_def,
        Option.some.injEq] at stepped
      rcases stepped with ⟨running, rfl⟩
      refine ⟨caught.queued, caught.framed, ?_⟩
      intro other stack foundOther unwinding head isHead
      by_cases same : other = thread
      · subst same
        have equal : stack = frame :: below := Option.some.inj (foundOther.symm.trans found)
        subst equal
        cases isHead
        rw [running]
        rfl
      · rw [setUnwinding_other same] at unwinding
        exact caught.unwinding other stack foundOther unwinding head isHead

/-- A panic does not reach a call whose jobs are not done. -/
theorem Caught.contained (caught : Caught self) (event : FrameEvent)
    (stepped : self.step event = some next) : self.contained event = true := by
  cases event with
  | unwind thread =>
      simp only [Frames.step, Frames.unwind, Option.bind_eq_bind, Option.bind_eq_some_iff,
        Option.guard_eq_some', exists_const, Bool.and_eq_true] at stepped
      rcases stepped with ⟨⟨_, unwinding⟩, stack, found, _⟩
      rw [Frames.contained, found]
      cases stack with
      | nil => rfl
      | cons frame below =>
          cases frame with
          | job frame => rfl
          | call frame =>
              have code := caught.unwinding thread _ found unwinding (.call frame) rfl
              have plainCall : PlainCall frame :=
                caught.plain found (.call frame) List.mem_cons_self
              rcases Option.isSome_iff_exists.mp code with ⟨code, running⟩
              dsimp only
              rcases Frame.stage_of_code running with body | after
              · rw [body, (plainCall.body code body).1]
              · rcases plainCall.call with call | call
                · rw [after, call]
                · rw [after, call]
  | _ => rfl

theorem Caught.unwind (caught : Caught self) (sound : Sound self)
    (stepped : self.unwind thread = some next) : Caught next := by
  simp only [Frames.unwind, Option.bind_eq_bind, Option.bind_eq_some_iff, Option.guard_eq_some',
    exists_const] at stepped
  rcases stepped with ⟨_, stack, found, stepped⟩
  have plain := caught.plain found
  split at stepped
  · rename_i frame below
    split at stepped
    · cases stepped
      refine caught.replace found rfl (fun work member => Or.inl member)
        (plain_restage plain (by simp) (by simp)) ?_ ?_
      · exact fun other different running => (setUnwinding_other different _).symm.trans running
      · exact fun running => absurd ((setUnwinding_same _).symm.trans running) Bool.false_ne_true
    · cases stepped
      exact ⟨caught.queued, caught.framed, caught.unwinding⟩
    · cases stepped
      refine caught.replace found rfl (fun work member => Or.inl member)
        (fun other member => plain other (List.mem_cons_of_mem _ member)) ?_ ?_
      · exact fun other _ running => running
      · exact fun _ => (sound.stacked_of_found found).1.code
  · rename_i frame below
    have plainJob : PlainJob frame := plain (.job frame) List.mem_cons_self
    simp only [Option.guard_eq_some', Option.bind_eq_some_iff, exists_const] at stepped
    rcases stepped with ⟨_, stepped⟩
    rw [if_pos (Func.catches_of_plain plainJob.func)] at stepped
    cases stepped
    refine caught.answer found ?_ (setUnwinding_same false)
    exact fun other different running => (setUnwinding_other different _).symm.trans running
  · split at stepped
    · cases stepped
      exact ⟨caught.queued, caught.framed, caught.unwinding⟩
    · cases stepped
      refine ⟨caught.queued, caught.framed, ?_⟩
      intro other stack foundOther unwinding
      by_cases same : other = thread
      · subst same
        rw [setUnwinding_same] at unwinding
        cases unwinding
      · rw [setUnwinding_other same] at unwinding
        exact caught.unwinding other stack foundOther unwinding

theorem Caught.release (caught : Caught self) (stepped : self.release thread = some next) :
    Caught next := by
  simp only [Frames.release, Option.bind_eq_bind, Option.bind_eq_some_iff] at stepped
  rcases stepped with ⟨stack, isStack, stepped⟩
  have plain := caught.plain (found_of_stackOf isStack).1
  split at stepped
  · rename_i frame below
    have plainJob : PlainJob frame := plain (.job frame) List.mem_cons_self
    split at stepped
    · cases stepped
      refine caught.goesOn isStack rfl (fun work member => Or.inl member) ?_ rfl
      intro other member
      rcases List.mem_cons.mp member with rfl | member
      · exact ⟨plainJob.func, plainJob.code⟩
      · exact plain other (List.mem_cons_of_mem _ member)
    · cases stepped
  · cases stepped

theorem Caught.finish (caught : Caught self) (stepped : self.finish thread = some next) :
    Caught next := by
  simp only [Frames.finish, Option.bind_eq_bind, Option.bind_eq_some_iff] at stepped
  rcases stepped with ⟨stack, isStack, stepped⟩
  have plain := caught.plain (found_of_stackOf isStack).1
  split at stepped
  · split at stepped
    · cases stepped
      exact caught.goesOn isStack rfl (fun work member => Or.inl member)
        (fun other member => plain other (List.mem_cons_of_mem _ member)) rfl
    · cases stepped
  · cases stepped

theorem Caught.step (caught : Caught self) (sound : Sound self) {event : FrameEvent}
    (ofTasks : event.ofTasks = true) (stepped : self.step event = some next) : Caught next := by
  cases event with
  | join thread => exact caught.join stepped
  | mapReduce thread len => cases ofTasks
  | runGraph thread graph => cases ofTasks
  | scope thread => exact caught.scope stepped
  | spawn thread position => exact caught.spawn stepped
  | reduce thread => exact caught.reduce stepped
  | enqueue thread ready => exact caught.enqueue stepped
  | enqueued thread => exact caught.enqueued stepped
  | pop thread position => exact caught.pop stepped
  | promote position => exact caught.promote stepped
  | waited thread => exact caught.waited sound stepped
  | returns thread => exact caught.returns stepped
  | panic thread => exact caught.panic stepped
  | unwind thread => exact caught.unwind sound stepped
  | release thread => exact caught.release stepped
  | finish thread => exact caught.finish stepped

end Caught

end Frames

end JobSystem

end Cecs

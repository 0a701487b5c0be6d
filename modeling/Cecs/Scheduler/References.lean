import Cecs.Scheduler.Interleaved

/-! # What systems hold at the same time

While the systems of a stage run on several threads, the references that they hold lead to
cells, and none of them is to a cell that another system holds a mutable reference to. The entity
index is not held by a system but shared by all of them; it is not covered here. -/

namespace Cecs

open Foundation JobSystem

section Tables

variable {Value : Type} {w after : World Value}

theorem World.tables_extendCommand {systemIdx : Nat} {command : ComponentCommand Value}
    (extended : w.extendCommand systemIdx command = some after) : after.tables = w.tables := by
  rcases Option.bind_eq_some_iff.mp extended with ⟨commands, _, set⟩
  exact (World.setLastCommand_same set).tables

theorem World.tables_commandId {systemIdx : Nat} {result : Except HandleTableError EntityId}
    (handed : w.commandId systemIdx = some (result, after)) : after.tables = w.tables := by
  simp only [commandId, Option.bind_eq_bind, Option.bind_eq_some_iff] at handed
  rcases handed with ⟨commands, _, handed⟩
  cases action : commands.action with
  | Insert =>
      simp only [action, Option.bind_eq_some_iff] at handed
      rcases handed with ⟨⟨outcome, entityIds⟩, _, handed⟩
      cases outcome with
      | error error =>
          cases handed
          rfl
      | ok id =>
          simp only [Option.bind_eq_some_iff, Option.pure_def, Option.some.injEq,
            Prod.mk.injEq] at handed
          rcases handed with ⟨_, set, _, rfl⟩
          exact (World.setLastCommand_same set).tables
  | _ =>
      simp only [action, Option.pure_def, Option.some.injEq, Prod.mk.injEq] at handed
      rw [handed.2]

theorem World.deref_congr (tables : after.tables = w.tables) (reference : Reference) :
    after.deref reference = w.deref reference := by
  rw [deref, deref, tables]

/-- A write to a cell keeps the others, and their columns as long as they are. -/
theorem World.isSome_deref_writeCell {reference : Reference} {ptr : Ptr} {ty : TypeId} {row : Nat}
    {value : Value} (live : (w.deref reference).isSome = true) :
    ((w.writeCell ptr ty row value).deref reference).isSome = true := by
  rw [World.deref_eq, Option.isSome_bind] at live ⊢
  rw [World.column_writeCell]
  split
  · rename_i same
    rw [same.1, same.2] at live
    cases found : w.column ptr ty with
    | none => simp [found] at live
    | some column =>
        rw [found] at live
        simpa using live
  · exact live

/-- Without `WorldAccess` a system cannot take a cell away. -/
theorem Instruction.keeps_deref {instruction : Instruction Value} {handles : Handles}
    {answer : Response Value} (done : instruction.run handles w = some (answer, after))
    (noAccess : .worldAccess ∉ handles.leaves) {reference : Reference}
    (live : (w.deref reference).isSome = true) : (after.deref reference).isSome = true := by
  have unchanged : after.tables = w.tables → (after.deref reference).isSome = true := by
    intro tables
    rw [World.deref_congr tables]
    exact live
  cases instruction with
  | query source derivations method =>
      rw [run, Action.reading_eq_some] at done
      rw [← done.2]
      exact live
  | read other =>
      rw [run, Action.reading_eq_some] at done
      rw [← done.2]
      exact live
  | resource ty =>
      rw [run, Action.reading_eq_some] at done
      rw [← done.2]
      exact live
  | write other value =>
      simp only [run, Option.bind_eq_bind, Option.bind_eq_some_iff, Option.pure_def,
        Option.some.injEq, Prod.mk.injEq] at done
      rcases done with ⟨_, _, _, _, _, rfl⟩
      exact World.isSome_deref_writeCell live
  | setResource ty value =>
      simp only [run, Option.bind_eq_bind, Option.bind_eq_some_iff, Option.pure_def,
        Option.some.injEq, Prod.mk.injEq] at done
      rcases done with ⟨_, _, _, _, _, rfl⟩
      exact unchanged rfl
  | pushCommand command =>
      simp only [run, World.pushCommand, Option.bind_eq_bind, Option.bind_eq_some_iff,
        Option.pure_def, Option.some.injEq, Prod.mk.injEq] at done
      rcases done with ⟨_, _, _, _, _, ⟨_, _, rfl⟩, _, rfl⟩
      exact unchanged rfl
  | extendCommand command =>
      simp only [run, Option.bind_eq_bind, Option.bind_eq_some_iff, Option.pure_def,
        Option.some.injEq, Prod.mk.injEq] at done
      rcases done with ⟨_, _, _, extended, _, rfl⟩
      exact unchanged (World.tables_extendCommand extended)
  | commandId =>
      simp only [run, Option.bind_eq_bind, Option.bind_eq_some_iff, Option.pure_def,
        Option.some.injEq, Prod.mk.injEq, Prod.exists] at done
      rcases done with ⟨_, _, _, _, _, _, handed, _, rfl⟩
      exact unchanged (World.tables_commandId handed)
  | worldMut change =>
      simp only [run, Option.bind_eq_bind, Option.bind_eq_some_iff, Option.guard_eq_some',
        exists_const] at done
      exact absurd done.1 noAccess

/-- What an instruction hands out leads to cells. -/
theorem Instruction.deref_references {instruction : Instruction Value} {handles : Handles}
    {answer : Response Value} (done : instruction.run handles w = some (answer, after)) :
    ∀ reference ∈ answer.references, (after.deref reference).isSome = true := by
  cases instruction with
  | query source derivations method =>
      simp only [run, Action.reading_eq_some, Option.bind_eq_bind, Option.bind_eq_some_iff,
        Option.pure_def, Option.some.injEq] at done
      rcases done with ⟨⟨_, _, query, _, rfl⟩, rfl⟩
      have cells : ∀ mutable ptr (table : EntityTable Value), w.tables ptr = some table →
          query.fragment.Cells (QueryFragment.refColumns .shared mutable ptr table)
            fun reference => (w.deref reference).isSome = true := by
        intro mutable ptr table found ty access _ cells listed cell inCells
        rcases Option.map_eq_some_iff.mp listed with ⟨column, atType, rfl⟩
        rcases List.mem_map.mp inCells with ⟨row, inRange, rfl⟩
        simpa [World.deref, found, EntityTable.getComponent, atType] using inRange
      exact method.references_tables cells
  | read reference =>
      simp only [run, Action.reading_eq_some, Option.bind_eq_bind, Option.bind_eq_some_iff,
        Option.pure_def, Option.some.injEq] at done
      rcases done with ⟨⟨_, _, _, _, rfl⟩, _⟩
      exact List.forall_mem_nil _
  | resource ty =>
      simp only [run, Action.reading_eq_some, Option.bind_eq_bind, Option.bind_eq_some_iff,
        Option.pure_def, Option.some.injEq] at done
      rcases done with ⟨⟨_, _, rfl⟩, _⟩
      exact List.forall_mem_nil _
  | _ =>
      simp only [run, Option.bind_eq_bind, Option.bind_eq_some_iff, Option.pure_def,
        Option.some.injEq, Prod.mk.injEq] at done
      have nothing : answer.references = [] := by
        grind [Response.references]
      rw [nothing]
      exact List.forall_mem_nil _

end Tables

/-- Two systems hold nothing that the first one can change and the other one can see. -/
structure Handles.ApartFrom (handles other : Handles) : Prop where
  references : ∀ reference ∈ handles.references, ∀ held ∈ other.references,
    ¬reference.Aliases held
  resources : ∀ leaf ∈ handles.leaves, ∀ held ∈ other.leaves, ∀ ty access,
    leaf.resource = some (ty, .exclusive) → held.resource ≠ some (ty, access)
  commands : .commands ∈ handles.leaves → .commands ∉ other.leaves
  worldAccess : .worldAccess ∉ handles.leaves

theorem Handles.Within.apartFrom {handles other : Handles} {left right : Footprint Part}
    (within : handles.Within left) (withinOther : other.Within right)
    (apart : left.Apart right) : handles.ApartFrom other where
  references := by
    rintro reference member held memberOther ⟨archetype, ty, _, exclusive⟩
    rcases within.references reference member with ⟨reads, writes⟩
    rcases withinOther.references held memberOther with ⟨readsOther, writesOther⟩
    rw [← archetype, ← ty] at readsOther writesOther
    rcases exclusive with isFirst | isSecond
    · exact apart.leftWrites _ (writes isFirst) readsOther
    · exact apart.rightWrites _ (writesOther isSecond) reads
  resources := by
    intro leaf member held memberOther ty access exclusive shares
    exact apart.leftWrites _ (within.resourceMut leaf member ty exclusive)
      (withinOther.resource held memberOther ty access shares)
  commands := by
    intro queues queuesOther
    exact apart.leftWrites _ (within.commands queues)
      (right.covered (withinOther.commands queuesOther))
  worldAccess := within.worldAccess

namespace StageRun

section Holders

variable {Value : Type}

/-- No reference that a system without `WorldAccess` holds has lost its cell. -/
def Live (state : StageRun Value) : Prop :=
  ∀ job call, state.calls job = some call → .worldAccess ∉ call.2.leaves →
    ∀ reference ∈ call.2.references, (state.world.deref reference).isSome = true

/-- The systems that are called and have not returned hold nothing that conflicts. -/
structure HoldsApart (state : StageRun Value) : Prop where
  apart : ∀ job other call callOther, state.calls job = some call →
    state.calls other = some callOther → job ≠ other → call.2.ApartFrom callOther.2
  live : state.Live

variable [CommandSentinelTypeId] {stage : SystemStage (Program Value)} {schedule : Schedule}
  {history : List QueryProperties} {graph : HomogeneousJobGraph (ErasedSystem (Program Value))}
  {w middle : World Value} {events : List PoolEvent} {active : List Nat}
  {state next : StageRun Value}

theorem Follows.apartFrom (follows : Follows stage schedule graph w events active middle state)
    (scheduled : Scheduled stage schedule history graph) {job other : Todos}
    {call callOther : SystemCall Value} (here : state.calls job = some call)
    (there : state.calls other = some callOther) (different : job ≠ other) :
    call.2.ApartFrom callOther.2 := by
  have member : job ∈ active := follows.listed job (by rw [here]; exact Option.some_ne_none _)
  have memberOther : other ∈ active :=
    follows.listed other (by rw [there]; exact Option.some_ne_none _)
  have beside := follows.beside scheduled member memberOther different
  rcases follows.under.came member here with ⟨_, _, _, came⟩
  rcases follows.under.came memberOther there with ⟨_, _, _, cameOther⟩
  exact (beside.first.within came).apartFrom (beside.second.within cameOther) beside.apart

omit [CommandSentinelTypeId] in
theorem Live.setCall (live : state.Live) {job : Todos} {call : Option (SystemCall Value)}
    (holds : ∀ made, call = some made → .worldAccess ∉ made.2.leaves →
      ∀ reference ∈ made.2.references, (state.world.deref reference).isSome = true) :
    (state.setCall job call).Live := by
  intro other held found noAccess reference member
  rw [calls_setCall] at found
  by_cases same : other = job
  · rw [same, Function.update_self] at found
    exact holds held found noAccess reference member
  · rw [Function.update_of_ne same] at found
    exact live other held found noAccess reference member

omit [CommandSentinelTypeId] in
theorem Live.called (live : state.Live) {thread : Nat} (stepped : state.call thread = some next) :
    next.Live := by
  simp only [call, Option.bind_eq_bind, Option.bind_eq_some_iff, Option.pure_def,
    Option.some.injEq] at stepped
  rcases stepped with ⟨job, _, _, _, sys, _, ⟨made, world⟩, called, rfl⟩
  rcases Action.andThen_eq_some.mp called with ⟨handles, middle, entered, same⟩
  simp only [ErasedSystem.enter, Action.reading_eq_some, Option.bind_eq_bind,
    Option.bind_eq_some_iff, Option.pure_def, Option.some.injEq] at entered
  rcases entered with ⟨⟨_, _, _, _, rfl⟩, rfl⟩
  cases same
  apply live.setCall
  rintro held found _ reference member
  cases found
  cases member

/-- A system with `WorldAccess` is alone, and no other instruction takes a cell away. -/
theorem Follows.live_instruct (follows : Follows stage schedule graph w events active middle state)
    (scheduled : Scheduled stage schedule history graph) (live : state.Live) {thread : Nat}
    (stepped : state.instruct thread = some next) : next.Live := by
  simp only [instruct, Option.bind_eq_bind, Option.bind_eq_some_iff, Option.pure_def,
    Option.some.injEq] at stepped
  rcases stepped with ⟨job, _, before, here, ⟨after, world⟩, acted, rfl⟩
  rcases SystemCall.act_eq_some.mp acted with ⟨instruction, _, handles, answer, rfl, ran, rfl⟩
  intro other held found noAccess reference member
  rw [calls_setCall] at found
  by_cases same : other = job
  · rw [same, Function.update_self, Option.some.injEq] at found
    subst found
    rcases List.mem_append.mp member with before | received
    · exact Instruction.keeps_deref ran noAccess (live job _ here noAccess reference before)
    · exact Instruction.deref_references ran reference received
  · rw [Function.update_of_ne same] at found
    have alone := follows.apartFrom scheduled here found (Ne.symm same)
    exact Instruction.keeps_deref ran alone.worldAccess (live other held found noAccess reference
      member)

theorem Follows.live_step (follows : Follows stage schedule graph w events active middle state)
    (scheduled : Scheduled stage schedule history graph) (live : state.Live) {event : StageEvent}
    (stepped : state.step event = some next) : next.Live := by
  cases event with
  | pool event =>
      simp only [StageRun.step, poolStep, Option.bind_eq_bind, Option.bind_eq_some_iff,
        Option.pure_def, Option.some.injEq] at stepped
      rcases stepped with ⟨_, _, _, _, rfl⟩
      exact live
  | call thread => exact live.called stepped
  | instruct thread => exact follows.live_instruct scheduled live stepped
  | returns thread =>
      simp only [StageRun.step, returns, Option.bind_eq_bind, Option.bind_eq_some_iff] at stepped
      rcases stepped with ⟨job, _, ⟨program, handles⟩, _, stepped⟩
      cases program with
      | panic => cases stepped
      | step instruction onwards => cases stepped
      | finish =>
          simp only [Option.bind_eq_some_iff, Option.pure_def, Option.some.injEq] at stepped
          rcases stepped with ⟨pool, _, rfl⟩
          have same : ({ state with pool } : StageRun Value).Live := live
          apply same.setCall
          rintro held found
          cases found

/-- However the instructions of the systems interleave: what they hold at the same time is
apart, and leads to cells. -/
theorem references_held_apart {builder : SystemStageBuilder (Program Value)}
    (built : builder.build = some stage) (made : Schedule.fromStage stage = some schedule)
    (jobs : schedule.jobs stage.systems = some graph) (intact : stage.Intact w)
    {workers caller : Nat} {steps : List StageEvent}
    (ran : steps.foldlM StageRun.step (start stage.systems graph workers caller w) = some state) :
    state.HoldsApart := by
  rcases Schedule.fromStage_recorded made with ⟨history, recorded⟩
  have scheduled : Scheduled stage schedule history graph :=
    ⟨recorded, Schedule.fromStage_forward built made, jobs⟩
  have sound : (∃ events active middle,
      Follows stage schedule graph w events active middle state) ∧ state.Live := by
    refine foldlM_preserves (fun state => (∃ events active middle,
      Follows stage schedule graph w events active middle state) ∧ state.Live) ?_
      ⟨⟨_, _, _, follows_start scheduled workers caller⟩, ?_⟩ ran
    · rintro state next event ⟨⟨events, active, middle, follows⟩, live⟩ stepped
      rcases follows.step scheduled intact stepped with ⟨more, _, _, followsNext⟩
      exact ⟨⟨_, _, _, followsNext⟩, follows.live_step scheduled live stepped⟩
    · intro job call absent
      cases absent
  rcases sound with ⟨⟨events, active, middle, follows⟩, live⟩
  exact ⟨fun _ _ _ _ here there different => follows.apartFrom scheduled here there different, live⟩

end Holders

end StageRun

section Example

open Sample

/-- After this the first two systems are under way. -/
theorem StageRun.references_held_apart_sample : ∃ (w : World Nat) (state : StageRun Nat),
    (threeSteps.take 18).foldlM StageRun.step
      (StageRun.start threeSystems.systems threeJobs 1 1 w) = some state ∧
    (state.calls 0).isSome = true ∧ (state.calls 1).isSome = true ∧ state.HoldsApart := by
  have built : threeSystems.build = some ⟨threeSystems.systems⟩ := rfl
  have made : Schedule.fromStage ⟨threeSystems.systems⟩ = some ⟨[[], [], [1, 0]]⟩ := rfl
  have jobs : Schedule.jobs ⟨[[], [], [1, 0]]⟩ threeSystems.systems = some threeJobs := rfl
  obtain ⟨start, resized, w, state, created, resize, insert, ran, first, second⟩ :
      ∃ (start resized w : World Nat) (state : StageRun Nat), World.new 4 = some start ∧
        Call.run start (.resizeCommands 3) = some resized ∧
        Call.run resized (.insertResource 7#128 1) = some w ∧
        (threeSteps.take 18).foldlM StageRun.step
          (StageRun.start threeSystems.systems threeJobs 1 1 w) = some state ∧
        (state.calls 0).isSome = true ∧ (state.calls 1).isSome = true :=
    ⟨_, _, _, _, rfl, rfl, rfl, rfl, rfl, rfl⟩
  exact ⟨w, state, ran, first, second,
    StageRun.references_held_apart built made jobs (intact_threeSystems created resize insert) ran⟩

end Example

end Cecs

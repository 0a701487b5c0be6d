import Cecs.Scheduler.Threads

/-! # Ticks

A tick executes the stages one after the other and applies the commands after each. With
threads it can leave exactly the worlds that it leaves when the systems run as sorted. -/

namespace Cecs

open Foundation JobSystem

section Model

variable {Value : Type}

/-- What a `should_run` condition does. -/
inductive Decision (Value : Type) where
  | finish (flag : Bool)
  | panic
  | step (instruction : Instruction Value) (next : Response Value → Decision Value)

def Decision.run : Decision Value → Handles → Action (World Value) Bool
  | .finish flag, _ => fun w => some (flag, w)
  | .panic, _ => fun _ => none
  | .step instruction next, handles =>
      (instruction.run handles).andThen fun answer => (next answer).run (handles.receive answer)

/-- `run_system` of a condition. -/
def ErasedSystem.decide (self : ErasedSystem (Decision Value)) : Action (World Value) Bool :=
  self.enter.andThen self.descriptor.factory.run

/-- A stage of the world, with its conditions. -/
structure TickStage (Value : Type) extends SystemStage (Program Value) where
  shouldRun : List (ErasedSystem (Decision Value))

namespace TickStage

/-- The conditions, up to the first that is false. -/
def checks : List (ErasedSystem (Decision Value)) → Action (World Value) Bool
  | [] => fun w => some (true, w)
  | condition :: rest => condition.decide.andThen fun flag =>
      if flag then checks rest else fun w => some (false, w)

/-- `execute_stage` up to the systems. -/
def shouldExecute (self : TickStage Value) : Action (World Value) Bool := fun w =>
  checks self.shouldRun (w.resizeCommands self.systems.length)

/-- `execute_stage`, with the systems one by one. -/
def execute (self : TickStage Value) : Action (World Value) Unit :=
  self.shouldExecute.andThen fun flag =>
    if flag then self.runSorted else fun w => some ((), w)

variable [CommandSentinelTypeId]

/-- `execute_stage` under the `parallel` feature. -/
inductive Executes (self : TickStage Value) (workers caller : Nat) (w : World Value) :
    World Value → Prop where
  | skipped {after : World Value} (checked : self.shouldExecute w = some (false, after)) :
      Executes self workers caller w after
  | ran {middle : World Value} {schedule : Schedule}
      {graph : HomogeneousJobGraph (ErasedSystem (Program Value))}
      {events : List StageExecutionEvent} {state : StageExecution Value}
      (checked : self.shouldExecute w = some (true, middle))
      (made : Schedule.fromStage self.toSystemStage = some schedule)
      (jobs : schedule.jobs self.systems = some graph)
      (ran : events.foldlM StageExecution.step
        (StageExecution.start self.systems graph workers caller middle) = some state)
      (returned : Executors.Returned state.executors) :
      Executes self workers caller w state.world

end TickStage

/-- The stages one after the other, with their commands; each `unwrap` finds `Ok`. -/
inductive Ticks [UnitTypeId] [BuiltinValues Value]
    (executes : TickStage Value → World Value → World Value → Prop) :
    List (TickStage Value) → World Value → World Value → Prop where
  | nil {w : World Value} : Ticks executes [] w w
  | cons {stage : TickStage Value} {stages : List (TickStage Value)}
      {w middle next last : World Value} (executed : executes stage w middle)
      (applied : middle.ApplyCommands (.ok ()) next) (rest : Ticks executes stages next last) :
      Ticks executes (stage :: stages) w last

end Model

section Ticks

variable {Value : Type} [UnitTypeId] [BuiltinValues Value] [CommandSentinelTypeId]
  {stage : TickStage Value} {stages : List (TickStage Value)} {workers caller : Nat}
  {w after last : World Value}

/-- The stage was built, and has a schedule. -/
def TickStage.IsScheduled (stage : TickStage Value) : Prop :=
  ∃ builder schedule, SystemStageBuilder.build builder = some stage.toSystemStage ∧
    Schedule.fromStage stage.toSystemStage = some schedule

/-- Every stage that runs in the tick finds a sound index. -/
def IntactAlong : List (TickStage Value) → World Value → Prop
  | [], _ => True
  | stage :: stages, w =>
      (∀ middle, stage.shouldExecute w = some (true, middle) → stage.Intact middle) ∧
        ∀ middle next, stage.execute w = some ((), middle) →
          middle.ApplyCommands (.ok ()) next → IntactAlong stages next

omit [UnitTypeId] [BuiltinValues Value] in
/-- The threads can leave the world that the sorted run leaves, and no other. -/
theorem TickStage.executes_iff (scheduled : stage.IsScheduled) (inRange : caller ≤ workers)
    (intact : ∀ middle, stage.shouldExecute w = some (true, middle) → stage.Intact middle) :
    stage.Executes workers caller w after ↔ stage.execute w = some ((), after) := by
  rcases scheduled with ⟨builder, schedule, built, made⟩
  rcases Schedule.fromStage_recorded made with ⟨history, recorded⟩
  have forward := Schedule.fromStage_forward built made
  have sameLength := recorded.length
  constructor
  · intro executes
    cases executes with
    | skipped checked =>
        exact Action.andThen_eq_some.mpr ⟨false, after, checked, rfl⟩
    | @ran middle other graph events state checked madeOther jobs ran returned =>
        rw [made] at madeOther
        cases madeOther
        have sound := (StageExecution.sound_start ⟨recorded, forward, jobs⟩ inRange).run
          ⟨recorded, forward, jobs⟩ (intact middle checked) ran
        have sorted := sound.runSorted ⟨recorded, forward, jobs⟩ (intact middle checked) returned
        exact Action.andThen_eq_some.mpr ⟨true, middle, checked, sorted⟩
  · intro executed
    rcases Action.andThen_eq_some.mp executed with ⟨flag, middle, checked, sorted⟩
    cases flag with
    | false =>
        cases sorted
        exact .skipped checked
    | true =>
        obtain ⟨graph, jobs⟩ : ∃ graph, schedule.jobs stage.systems = some graph :=
          Option.isSome_iff_exists.mp (by simp [Schedule.jobs, guard, sameLength])
        have sound := StageExecution.sound_start (w := middle) ⟨recorded, forward, jobs⟩ inRange
        rcases sound.returns ⟨recorded, forward, jobs⟩ (intact middle checked) sorted with
          ⟨events, state, ran, returned, rfl⟩
        exact .ran checked made jobs ran returned

/-- A tick with threads leaves a world exactly when the tick without threads does. -/
theorem ticks_iff (scheduled : ∀ stage ∈ stages, stage.IsScheduled) (inRange : caller ≤ workers)
    (intact : IntactAlong stages w) :
    Ticks (fun stage => stage.Executes workers caller) stages w last ↔
      Ticks (fun stage w after => stage.execute w = some ((), after)) stages w last := by
  induction stages generalizing w with
  | nil =>
      constructor <;>
      · intro ticks
        cases ticks
        exact .nil
  | cons stage stages induction =>
      rw [List.forall_mem_cons] at scheduled
      rcases intact with ⟨intactFirst, intactRest⟩
      have first : ∀ after, stage.Executes workers caller w after ↔
          stage.execute w = some ((), after) :=
        fun after => TickStage.executes_iff scheduled.1 inRange intactFirst
      constructor
      · intro ticks
        cases ticks with
        | @cons _ _ _ middle next _ executed applied rest =>
            have sorted := (first middle).mp executed
            exact .cons sorted applied
              ((induction scheduled.2 (intactRest middle next sorted applied)).mp rest)
      · intro ticks
        cases ticks with
        | @cons _ _ _ middle next _ sorted applied rest =>
            exact .cons ((first middle).mpr sorted) applied
              ((induction scheduled.2 (intactRest middle next sorted applied)).mpr rest)

end Ticks

section Example

open Sample

/-- The three systems, if the resource is there with its first value. -/
def guardedThree : TickStage Nat where
  systems := threeSystems.systems
  shouldRun := [⟨0, { id := 4#128, params := [.res 7#128], after := []
                      factory := .step (.resource 7#128) fun answer =>
                        match answer with
                        | .value (some value) => .finish (value = 1)
                        | _ => .finish false }⟩]

theorem ticks_iff_sample : ∃ w last : World Nat, w.numEntities = 0 ∧ last.numEntities = 1 ∧
    Ticks (fun stage => stage.Executes 1 1) [guardedThree] w last := by
  obtain ⟨start, resized, w, middle, last, created, resize, insert, checked, sorted, applied,
      before, after⟩ :
      ∃ start resized w middle last : World Nat, World.new 4 = some start ∧
        Call.run start (.resizeCommands 3) = some resized ∧
        Call.run resized (.insertResource 7#128 1) = some w ∧
        guardedThree.shouldExecute w = some (true, w) ∧
        guardedThree.execute w = some ((), middle) ∧
        middle.applySorted (sortCommands id middle.queuedCommands) = some (.ok (), last) ∧
        w.numEntities = 0 ∧ last.numEntities = 1 :=
    ⟨_, _, _, _, _, rfl, rfl, rfl, rfl, rfl, rfl, rfl, rfl⟩
  have built : threeSystems.build = some guardedThree.toSystemStage := rfl
  have made : Schedule.fromStage guardedThree.toSystemStage = some ⟨[[], [], [1, 0]]⟩ := rfl
  have scheduled : ∀ stage ∈ [guardedThree], stage.IsScheduled := by
    intro stage member
    rw [List.mem_singleton.mp member]
    exact ⟨threeSystems, _, built, made⟩
  have intact : IntactAlong [guardedThree] w := by
    refine ⟨?_, fun _ _ _ _ => trivial⟩
    intro other checkedOther
    rw [checked, Option.some.injEq, Prod.mk.injEq] at checkedOther
    rw [← checkedOther.2]
    exact intact_threeSystems created resize insert
  have batch : SortCommands id middle.queuedCommands (sortCommands id middle.queuedCommands) :=
    sortCommands_sorts id _
  exact ⟨w, last, before, after,
    (ticks_iff scheduled (Nat.le_refl 1) intact).mpr (.cons sorted ⟨_, batch, applied⟩ .nil)⟩

end Example

end Cecs

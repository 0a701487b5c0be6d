import Cecs.Systems.Sessions

/-! # Buffers and the lock in nested runs

A system finds the buffer of its index, whatever runs are under way around it, and a
condition does where there is any buffer. The lock is found free unless an id is taken
while a `WorldAccess` is alive. -/

namespace Cecs

open Foundation

namespace Session

section Buffers

variable {Value Body : Type} [UnitTypeId] [BuiltinValues Value] [CommandSentinelTypeId]
  {parallel : Bool} {start s : Session Value Body}

/-- The action asks a condition of a stage that has no system, in a world without
buffers. -/
def AsksUnprovided (s : Session Value Body) (thread : Nat) (act : Act Value Body) : Prop :=
  act = .condition ∧ s.world.commands = [] ∧
    ∃ execution below, s.threads[thread]? = some (.stage execution :: below) ∧
      execution.stage.systems = []

omit [UnitTypeId] [BuiltinValues Value] [CommandSentinelTypeId] in
theorem Valid.construct_iff (valid : s.Valid parallel) {thread : Nat} {act : Act Value Body}
    {made : Construction Value Body} (constructs : s.construction thread act = some made) :
    made.systemIdx < made.world.commands.length ↔ ¬s.AsksUnprovided thread act := by
  cases act with
  | ensureCommands =>
      rcases construction_ensureCommands constructs with ⟨stack, found, rfl⟩
      simp [AsksUnprovided, World.length_commands_resizeCommands]
  | runSystem params =>
      rcases construction_runSystem constructs with ⟨stack, found, rfl⟩
      simp [AsksUnprovided, World.length_commands_resizeCommands]
  | condition =>
      rcases construction_condition constructs with
        ⟨execution, below, condition, rest, found, listed, rfl⟩
      have provided := Frame.provided_stage.mp (valid.stack found _ List.mem_cons_self)
      have asked := provided.conditions condition (listed ▸ List.mem_cons_self)
      have first := provided.assembled.numbered.shouldRun condition asked
      have buffers := provided.buffers
      simp only [first, List.length_pos_iff]
      constructor
      · intro buffered unprovided
        exact buffered unprovided.2.1
      · intro notUnprovided empty
        rw [empty, List.length_nil, Nat.le_zero, List.length_eq_zero_iff] at buffers
        exact notUnprovided ⟨rfl, empty, execution, below, found, buffers⟩
  | system position =>
      rcases construction_system constructs with ⟨execution, below, system, found, listed, rfl⟩
      have provided := Frame.provided_stage.mp (valid.stack found _ List.mem_cons_self)
      have inside := provided.assembled.numbered.below system (List.mem_of_getElem? listed)
      have buffered := Nat.lt_of_lt_of_le inside provided.buffers
      simp [AsksUnprovided, buffered]
  | _ => cases constructs

/-- In every run whose stages stay in place while their conditions are asked: the index that a
`Commands` is made with is the index of a buffer, but where a condition of a stage without
systems is asked in a world without buffers; and the systems of a parallel stage have
buffers of their own. -/
theorem buffer_iff (fresh : start.Fresh parallel) (inPlace : ReachedInPlace parallel start s) :
    (∀ thread act made, s.construction thread act = some made → .commands ∈ made.leaves →
      (made.systemIdx < made.world.commands.length ↔ ¬s.AsksUnprovided thread act)) ∧
    ∀ stack ∈ s.threads, ∀ execution, .stage execution ∈ stack → parallel = true →
      (execution.stage.systems.map ErasedSystem.systemIdx).Nodup := by
  have valid := fresh.valid.reached inPlace.reached
  constructor
  · intro thread act made constructs _
    exact valid.construct_iff constructs
  · intro stack member execution under
    have provided := Frame.provided_stage.mp (valid.provided stack member _ under)
    exact provided.assembled.numbered.apart

end Buffers

end Session

namespace Sample

/-- Code outside of systems, with a world of its own. -/
def outside (w : World Nat) : Session Nat Unit where
  world := w
  locked := false
  systemStages := []
  threads := [[.outside]]

theorem fresh_outside (parallel : Bool) (w : World Nat) : (outside w).Fresh parallel where
  unlocked := rfl
  stages := List.forall_mem_nil _
  threads := rfl

/-- A stage with a condition that takes `Commands`, and no system. -/
def conditionOnly : List (Registration Unit) :=
  [.shouldRun { id := 1#128, params := [.commands], factory := (), after := [] }]

/-- The same with a system. -/
def conditionAndSystem : List (Registration Unit) :=
  conditionOnly ++ [.system { id := 2#128, params := [.commands], factory := (), after := [] }]

end Sample

namespace Session

open Sample

/-- The condition of a stage with a system is asked in a world that had no buffer. -/
theorem buffer_iff_sample :
    ∃ (w : World Nat) (stage : GuardedStage Unit) (s : Session Nat Unit)
      (made : Construction Nat Unit), World.new 1 = some w ∧
      (GuardedStageBuilder.assemble true conditionAndSystem).build = some stage ∧
      (outside w).step true 0 (.runStage stage) = some s ∧
      s.construction 0 .condition = some made ∧
      made.systemIdx < made.world.commands.length := by
  obtain ⟨w, stage, s, made, created, built, stepped, constructs, takes, buffered⟩ :
      ∃ (w : World Nat) (stage : GuardedStage Unit) (s : Session Nat Unit)
        (made : Construction Nat Unit), World.new 1 = some w ∧
        (GuardedStageBuilder.assemble true conditionAndSystem).build = some stage ∧
        (outside w).step true 0 (.runStage stage) = some s ∧
        s.construction 0 .condition = some made ∧ .commands ∈ made.leaves ∧
        s.world.commands.length = 1 :=
    ⟨_, _, _, _, rfl, rfl, rfl, rfl, List.mem_cons_self, rfl⟩
  refine ⟨w, stage, s, made, created, built, stepped, constructs, ?_⟩
  have inPlace : ¬(outside w).MovesStages (.runStage stage) := by simp [MovesStages, outside]
  have reached : ReachedInPlace true (outside w) s :=
    .step .start inPlace ⟨_, built⟩ stepped
  apply ((buffer_iff (fresh_outside true w) reached).1 0 _ made constructs takes).mpr
  intro asks
  rw [asks.2.1] at buffered
  cases buffered

/-- The stage is run in a world without buffers. -/
theorem buffer_missing :
    ¬∀ (parallel : Bool) (start s : Session Nat Unit), start.Fresh parallel →
      Reached parallel start s → ∀ thread act made, s.construction thread act = some made →
      .commands ∈ made.leaves → made.systemIdx < made.world.commands.length := by
  intro claim
  obtain ⟨w, stage, s, made, created, built, stepped, constructs, takes, missing⟩ :
      ∃ (w : World Nat) (stage : GuardedStage Unit) (s : Session Nat Unit)
        (made : Construction Nat Unit), World.new 1 = some w ∧
        (GuardedStageBuilder.assemble false conditionOnly).build = some stage ∧
        (outside w).step false 0 (.runStage stage) = some s ∧
        s.construction 0 .condition = some made ∧ .commands ∈ made.leaves ∧
        made.world.commands = [] :=
    ⟨_, _, _, _, rfl, rfl, rfl, rfl, List.mem_cons_self, rfl⟩
  have admissible : (outside w).Admissible false (.runStage stage) := ⟨_, built⟩
  have reached : Reached false (outside w) s := .step .start admissible stepped
  have inside := claim false _ s (fresh_outside false w) reached 0 .condition made constructs takes
  rw [missing] at inside
  cases inside

section Lock

variable {Value Body : Type} {parallel : Bool} {start s : Session Value Body}

theorem accesses_eq_zero_iff {threads : List (List (Frame Body))} :
    accesses threads.flatten = 0 ↔
      ∀ stack ∈ threads, ∀ frame ∈ stack, .worldAccess ∉ frame.leaves := by
  rw [accesses, List.sum_eq_zero_iff_forall_eq_nat]
  constructor
  · intro nobody stack member frame inStack
    have listed : frame ∈ threads.flatten := List.mem_flatten.mpr ⟨stack, member, inStack⟩
    exact List.count_eq_zero.mp (nobody _ (List.mem_map_of_mem listed))
  · intro nobody count listed
    rcases List.mem_map.mp listed with ⟨frame, inThreads, rfl⟩
    rcases List.mem_flatten.mp inThreads with ⟨stack, member, inStack⟩
    exact List.count_eq_zero.mpr (nobody stack member frame inStack)

/-- A `WorldAccess` is made while one is alive. -/
def Stacks (s : Session Value Body) (thread : Nat) (act : Act Value Body) : Prop :=
  ∃ made, s.construction thread act = some made ∧
    (2 ≤ made.leaves.count .worldAccess ∨ .worldAccess ∈ made.leaves ∧
      ∃ stack ∈ s.threads, ∃ frame ∈ stack, .worldAccess ∈ frame.leaves)

/-- The id of a spawned entity is asked for while a `WorldAccess` is alive. -/
def AllocatesInside (s : Session Value Body) (thread : Nat) (act : Act Value Body) : Prop :=
  act = .commandId ∧ s.allocatesId thread = true ∧
    ∃ stack ∈ s.threads, ∃ frame ∈ stack, .worldAccess ∈ frame.leaves

/-- In every run without stacked `WorldAccess`: the lock is found free but where an id is
allocated inside of one. -/
theorem lock_free_iff [UnitTypeId] [BuiltinValues Value] [CommandSentinelTypeId]
    (fresh : start.Fresh parallel) (reached : Reached parallel start s) (thread : Nat)
    (act : Act Value Body) (alone : ¬s.Stacks thread act) :
    acquire s.locked (s.lockings thread act) ≠ none ↔ ¬s.AllocatesInside thread act := by
  have lock := (fresh.valid.reached reached).lock
  have alive : s.locked.toNat = 0 ↔
      ¬∃ stack ∈ s.threads, ∃ frame ∈ stack, .worldAccess ∈ frame.leaves := by
    rw [← lock, accesses_eq_zero_iff]
    simp only [not_exists, not_and]
  have bound := Bool.toNat_le s.locked
  rw [acquire_ne_none]
  -- Either the id of a spawned entity is taken, or parameters are made.
  by_cases takesId : act = .commandId
  · subst takesId
    simp only [AllocatesInside, lockings, true_and]
    cases s.allocatesId thread with
    | false => simp
    | true =>
        simp only [Bool.toNat_true, true_and, ← alive]
        omega
  · have notInside : ¬s.AllocatesInside thread act := fun inside => takesId inside.1
    refine iff_of_true ?_ notInside
    have count : s.lockings thread act = ((s.construction thread act).map
        fun made => made.leaves.count .worldAccess).getD 0 := by
      cases act with
      | commandId => exact absurd rfl takesId
      | _ => rfl
    rw [count]
    cases constructs : s.construction thread act with
    | none => exact Or.inr rfl
    | some made =>
        simp only [Stacks, constructs, Option.some.injEq, exists_eq_left', not_or, not_and,
          ← List.count_pos_iff] at alone
        simp only [Option.map_some, Option.getD_some]
        rcases Nat.eq_zero_or_pos (made.leaves.count .worldAccess) with none | some
        · exact Or.inr none
        · have free := alive.mpr (by simpa only [List.count_pos_iff] using alone.2 some)
          omega

end Lock

/-- A system spawns an entity and asks for its id, with the lock. -/
theorem lock_free_iff_sample :
    ∃ (w : World Nat) (first second : Session Nat Unit), World.new 1 = some w ∧
      (outside w).step false 0 (.runSystem [.commands]) = some first ∧
      first.step false 0 (.pushCommand (.Entity { action := .Insert, payload := [] })) =
        some second ∧
      second.lockings 0 .commandId = 1 ∧
      acquire second.locked (second.lockings 0 .commandId) ≠ none := by
  obtain ⟨w, first, second, created, stepped, spawned, locks, constructs, alive⟩ :
      ∃ (w : World Nat) (first second : Session Nat Unit), World.new 1 = some w ∧
        (outside w).step false 0 (.runSystem [.commands]) = some first ∧
        first.step false 0 (.pushCommand (.Entity { action := .Insert, payload := [] })) =
          some second ∧
        second.lockings 0 .commandId = 1 ∧ second.construction 0 .commandId = none ∧
        accesses second.threads.flatten = 0 :=
    ⟨_, _, _, rfl, rfl, rfl, rfl, rfl, rfl⟩
  refine ⟨w, first, second, created, stepped, spawned, locks, ?_⟩
  have admissible : (outside w).Admissible false (.runSystem [.commands]) := trivial
  have admissibleSpawn : first.Admissible false
      (.pushCommand (.Entity { action := .Insert, payload := [] })) := trivial
  have reached : Reached false (outside w) second :=
    .step (.step .start admissible stepped) admissibleSpawn spawned
  have alone : ¬second.Stacks 0 .commandId := by
    intro piled
    rcases piled with ⟨made, makes, _⟩
    rw [constructs] at makes
    cases makes
  apply (lock_free_iff (fresh_outside false w) reached 0 _ alone).mpr
  intro inside
  rcases inside.2.2 with ⟨stack, member, frame, inStack, access⟩
  exact accesses_eq_zero_iff.mp alive stack member frame inStack access

/-- A nested system spawns an entity and asks for its id. -/
theorem lock_taken :
    ¬∀ (parallel : Bool) (start s : Session Nat Unit), start.Fresh parallel →
      Reached parallel start s → ∀ thread act, ¬s.Stacks thread act →
      acquire s.locked (s.lockings thread act) ≠ none := by
  intro claim
  obtain ⟨w, first, second, third, created, outer, inner, spawned, constructs, taken⟩ :
      ∃ (w : World Nat) (first second third : Session Nat Unit), World.new 1 = some w ∧
        (outside w).step false 0 (.runSystem [.worldAccess]) = some first ∧
        first.step false 0 (.runSystem [.commands]) = some second ∧
        second.step false 0 (.pushCommand (.Entity { action := .Insert, payload := [] })) =
          some third ∧
        third.construction 0 .commandId = none ∧
        acquire third.locked (third.lockings 0 .commandId) = none :=
    ⟨_, _, _, _, rfl, rfl, rfl, rfl, rfl, rfl⟩
  have admissible : (outside w).Admissible false (.runSystem [.worldAccess]) := trivial
  have admissibleInner : first.Admissible false (.runSystem [.commands]) := trivial
  have admissibleSpawn : second.Admissible false
      (.pushCommand (.Entity { action := .Insert, payload := [] })) := trivial
  have reached : Reached false (outside w) third :=
    .step (.step (.step .start admissible outer) admissibleInner inner) admissibleSpawn spawned
  refine claim false _ third (fresh_outside false w) reached 0 .commandId ?_ taken
  intro piled
  rcases piled with ⟨made, makes, _⟩
  rw [constructs] at makes
  cases makes

end Session

end Cecs

import Cecs.Foundation.Buckets
import Cecs.Systems.Nesting
import Cecs.Systems.PostOrder

/-! # What holds in every session

Every stage under way has a buffer for each of its systems, and the lock of the world is
taken exactly while a `WorldAccess` is alive. -/

namespace Cecs

open Foundation

section Stages

variable {Body : Type} {parallel : Bool}

/-- The indices that a builder gives out. -/
structure GuardedStageBuilder.Numbered (parallel : Bool) (builder : GuardedStageBuilder Body) :
    Prop where
  systems : builder.systems.map ErasedSystem.systemIdx =
    (List.range builder.systems.length).map fun position => if parallel then position else 0
  shouldRun : ∀ condition ∈ builder.shouldRun, condition.systemIdx = 0

theorem GuardedStageBuilder.numbered_assemble (parallel : Bool)
    (registrations : List (Registration Body)) :
    (assemble parallel registrations).Numbered parallel := by
  induction registrations using List.reverseRecOn with
  | nil => exact ⟨rfl, List.forall_mem_nil _⟩
  | append_singleton rest last induction =>
      rw [assemble, List.foldl_append, List.foldl_cons, List.foldl_nil]
      rcases induction with ⟨systems, shouldRun⟩
      cases last with
      | system descriptor =>
          refine ⟨?_, shouldRun⟩
          simp only [register, SystemStageBuilder.addSystem, List.map_append, List.length_append,
            List.length_singleton, List.range_succ]
          congr 1
      | shouldRun descriptor =>
          refine ⟨systems, ?_⟩
          intro condition member
          rcases List.mem_append.mp member with before | isLast
          · exact shouldRun condition before
          · rw [List.mem_singleton.mp isLast]
            rfl

/-- The indices of a stage are below the number of its systems, and those of its
conditions are zero. -/
structure GuardedStage.Numbered (parallel : Bool) (stage : GuardedStage Body) : Prop where
  below : ∀ system ∈ stage.systems, system.systemIdx < stage.systems.length
  apart : parallel = true → (stage.systems.map ErasedSystem.systemIdx).Nodup
  shouldRun : ∀ condition ∈ stage.shouldRun, condition.systemIdx = 0

theorem GuardedStage.Assembled.numbered {stage : GuardedStage Body}
    (assembled : stage.Assembled parallel) : stage.Numbered parallel := by
  rcases assembled with ⟨registrations, built⟩
  simp only [GuardedStageBuilder.build, Option.bind_eq_bind, Option.bind_eq_some_iff,
    Option.pure_def, Option.some.injEq] at built
  rcases built with ⟨systems, sorted, shouldRun, sortedConditions, rfl⟩
  have numbered := GuardedStageBuilder.numbered_assemble parallel registrations
  have perm := (sortedSystems_spec sorted).2.1
  have permConditions := (sortedSystems_spec sortedConditions).2.1
  have indices := (perm.map ErasedSystem.systemIdx).trans (List.Perm.of_eq numbered.systems)
  refine ⟨?_, ?_, ?_⟩
  · intro system member
    have listed := indices.subset (List.mem_map_of_mem member)
    rcases List.mem_map.mp listed with ⟨position, inRange, same⟩
    rw [List.mem_range, ← perm.length_eq] at inRange
    rw [← same]
    split
    · exact inRange
    · exact Nat.zero_lt_of_lt inRange
  · rintro rfl
    rw [indices.nodup_iff]
    simp only [if_true, List.map_id']
    exact List.nodup_range
  · intro condition member
    exact numbered.shouldRun condition (permConditions.subset member)

end Stages

/-- What a number of calls of `lock` leaves. -/
theorem acquire_eq_some {locked after : Bool} {count : Nat}
    (acquired : acquire locked count = some after) : after.toNat = locked.toNat + count := by
  induction count generalizing locked with
  | zero =>
      cases acquired
      rfl
  | succ count induction =>
      cases locked with
      | true => cases acquired
      | false =>
          have rest := induction acquired
          simp only [Bool.toNat_true, Bool.toNat_false] at rest ⊢
          omega

/-- The lock is found free by every call. -/
theorem acquire_ne_none {locked : Bool} {count : Nat} :
    acquire locked count ≠ none ↔ locked.toNat + count ≤ 1 ∨ count = 0 := by
  induction count generalizing locked with
  | zero => simp [acquire]
  | succ count induction =>
      cases locked with
      | true => simp [acquire]
      | false =>
          simp only [acquire, Bool.false_eq_true, if_false, ne_eq, Bool.toNat_false]
          rw [← ne_eq, induction, Bool.toNat_true]
          omega

section Frames

variable {Body : Type} {parallel : Bool} {len : Nat}

/-- The systems have buffers, and the conditions still to be asked belong to the stage. -/
structure Execution.Provided (parallel : Bool) (len : Nat) (execution : Execution Body) :
    Prop where
  assembled : execution.stage.Assembled parallel
  buffers : execution.stage.systems.length ≤ len
  conditions : ∀ condition ∈ execution.conditions, condition ∈ execution.stage.shouldRun

def Frame.Provided (parallel : Bool) (len : Nat) (frame : Frame Body) : Prop :=
  ∀ execution, frame = .stage execution → execution.Provided parallel len

theorem Frame.Provided.mono {frame : Frame Body} (provided : frame.Provided parallel len)
    {more : Nat} (grows : len ≤ more) : frame.Provided parallel more := by
  intro execution same
  have before := provided execution same
  exact ⟨before.assembled, before.buffers.trans grows, before.conditions⟩

theorem Frame.provided_stage {execution : Execution Body} :
    (Frame.stage execution).Provided parallel len ↔ execution.Provided parallel len := by
  constructor
  · intro provided
    exact provided execution rfl
  · intro provided other same
    cases same
    exact provided

theorem Frame.provided_cons {execution : Execution Body} {below : List (Frame Body)}
    (provided : execution.Provided parallel len)
    (others : ∀ frame ∈ below, frame.Provided parallel len) :
    ∀ frame ∈ Frame.stage execution :: below, frame.Provided parallel len :=
  List.forall_mem_cons.mpr ⟨Frame.provided_stage.mpr provided, others⟩

/-- Only stages under way ask for buffers. -/
theorem Frame.provided_system {leaves : List Param} {systemIdx : Nat} {origin : Origin} :
    (Frame.system leaves systemIdx origin : Frame Body).Provided parallel len := by
  intro execution same
  cases same

theorem Frame.provided_tick {next stop : Nat} :
    (Frame.tick next stop : Frame Body).Provided parallel len := by
  intro execution same
  cases same

/-- How many `WorldAccess` a stack keeps alive. -/
def accesses (stack : List (Frame Body)) : Nat :=
  (stack.map fun frame => frame.leaves.count .worldAccess).sum

theorem accesses_cons (frame : Frame Body) (stack : List (Frame Body)) :
    accesses (frame :: stack) = frame.leaves.count .worldAccess + accesses stack := rfl

theorem accesses_set {threads : List (List (Frame Body))} {thread : Nat}
    {stack : List (Frame Body)} (found : threads[thread]? = some stack)
    (other : List (Frame Body)) :
    accesses (threads.set thread other).flatten + accesses stack =
      accesses threads.flatten + accesses other := by
  have moved := (flatten_set_perm found other).map fun frame => frame.leaves.count .worldAccess
  have sums := moved.sum_eq
  simp only [List.map_append, List.sum_append] at sums
  exact sums

end Frames

namespace Session

section Constructions

variable {Value Body : Type} {s : Session Value Body} {made : Construction Value Body}
  {thread : Nat}

theorem construction_ensureCommands
    (constructs : s.construction thread .ensureCommands = some made) :
    ∃ stack, s.threads[thread]? = some stack ∧
      made = { world := s.world.resizeCommands 1, leaves := [.commands], systemIdx := 0
               threads := s.threads.set thread
                (.system [.commands] 0 .ensureCommands :: stack) } := by
  simp only [construction, Option.bind_eq_bind, Option.bind_eq_some_iff] at constructs
  rcases constructs with ⟨stack, found, constructs⟩
  split at constructs
  · simp only [Option.bind_eq_some_iff, Option.pure_def, Option.some.injEq] at constructs
    rcases constructs with ⟨_, _, rfl⟩
    exact ⟨_, found, rfl⟩
  · cases constructs

theorem construction_runSystem {params : List Param}
    (constructs : s.construction thread (.runSystem params) = some made) :
    ∃ stack, s.threads[thread]? = some stack ∧
      made = { world := s.world.resizeCommands 1, leaves := params.flatMap Param.leaves
               systemIdx := 0
               threads := s.threads.set thread
                (.system (params.flatMap Param.leaves) 0 .runSystem :: stack) } := by
  simp only [construction, Option.bind_eq_bind, Option.bind_eq_some_iff] at constructs
  rcases constructs with ⟨stack, found, constructs⟩
  split at constructs
  · simp only [Option.bind_eq_some_iff, Option.pure_def, Option.some.injEq] at constructs
    rcases constructs with ⟨_, _, rfl⟩
    exact ⟨_, found, rfl⟩
  · cases constructs

theorem construction_condition (constructs : s.construction thread .condition = some made) :
    ∃ execution below condition rest,
      s.threads[thread]? = some (.stage execution :: below) ∧
      execution.conditions = condition :: rest ∧
      made = { world := s.world
               leaves := condition.descriptor.params.flatMap Param.leaves
               systemIdx := condition.systemIdx
               threads := s.threads.set thread
                (.system (condition.descriptor.params.flatMap Param.leaves) condition.systemIdx
                    .condition ::
                  .stage { execution with conditions := rest } :: below) } := by
  simp only [construction, Option.bind_eq_bind, Option.bind_eq_some_iff] at constructs
  rcases constructs with ⟨stack, found, constructs⟩
  split at constructs
  · split at constructs
    · rename_i condition rest listed
      simp only [Option.bind_eq_some_iff, Option.pure_def, Option.some.injEq] at constructs
      rcases constructs with ⟨_, _, rfl⟩
      exact ⟨_, _, condition, rest, found, listed, rfl⟩
    · cases constructs
  · cases constructs

theorem construction_system {position : Nat}
    (constructs : s.construction thread (.system position) = some made) :
    ∃ execution below system,
      s.threads[thread]? = some (.stage execution :: below) ∧
      execution.stage.systems[position]? = some system ∧
      made = { world := s.world
               leaves := system.descriptor.params.flatMap Param.leaves
               systemIdx := system.systemIdx
               threads := s.threads.set thread
                (.stage { execution with started := position :: execution.started } :: below) ++
                [[.system (system.descriptor.params.flatMap Param.leaves) system.systemIdx
                  (.stage thread position)]] } := by
  simp only [construction, Option.bind_eq_bind, Option.bind_eq_some_iff] at constructs
  rcases constructs with ⟨stack, found, constructs⟩
  split at constructs
  · simp only [Option.bind_eq_some_iff, Option.pure_def, Option.some.injEq] at constructs
    rcases constructs with ⟨system, listed, _, _, rfl⟩
    exact ⟨_, _, system, found, listed, rfl⟩
  · cases constructs

end Constructions

variable {Value Body : Type} {parallel : Bool} {s after : Session Value Body}
  {made : Construction Value Body} {thread : Nat}

structure Valid (parallel : Bool) (s : Session Value Body) : Prop where
  stages : ∀ stage ∈ s.systemStages, stage.Assembled parallel
  provided : ∀ stack ∈ s.threads, ∀ frame ∈ stack,
    frame.Provided parallel s.world.commands.length
  lock : accesses s.threads.flatten = s.locked.toNat

theorem Fresh.valid (fresh : s.Fresh parallel) : s.Valid parallel where
  stages := fresh.stages
  provided := by
    rw [fresh.threads]
    intro stack member frame inStack execution same
    rw [List.mem_singleton.mp member] at inStack
    rw [List.mem_singleton.mp inStack] at same
    cases same
  lock := by
    rw [fresh.threads, fresh.unlocked]
    rfl

namespace Valid

/-- The buffers are still there, and the lock is as it was. -/
theorem keep (valid : s.Valid parallel)
    (buffers : s.world.commands.length ≤ after.world.commands.length)
    (stages : ∀ stage ∈ after.systemStages, stage.Assembled parallel)
    (threads : after.threads = s.threads) (locked : after.locked = s.locked) :
    after.Valid parallel where
  stages := stages
  provided := by
    rw [threads]
    exact fun stack member frame inStack => (valid.provided stack member frame inStack).mono buffers
  lock := by rw [threads, locked, valid.lock]

/-- One stack changes. -/
theorem replace (valid : s.Valid parallel) {thread : Nat} {stack other : List (Frame Body)}
    (found : s.threads[thread]? = some stack)
    (buffers : s.world.commands.length ≤ after.world.commands.length)
    (stages : ∀ stage ∈ after.systemStages, stage.Assembled parallel)
    (threads : after.threads = s.threads.set thread other)
    (provided : ∀ frame ∈ other, frame.Provided parallel after.world.commands.length)
    (lock : accesses other + s.locked.toNat = accesses stack + after.locked.toNat) :
    after.Valid parallel where
  stages := stages
  provided := by
    rw [threads]
    intro list member frame inList
    rcases List.mem_or_eq_of_mem_set member with before | rfl
    · exact (valid.provided list before frame inList).mono buffers
    · exact provided frame inList
  lock := by
    have moved := accesses_set found other
    have held := valid.lock
    rw [threads]
    omega

/-- A thread starts. -/
theorem spawn (valid : s.Valid parallel) {stack : List (Frame Body)}
    (world : after.world = s.world) (stages : after.systemStages = s.systemStages)
    (threads : after.threads = s.threads ++ [stack])
    (provided : ∀ frame ∈ stack, frame.Provided parallel s.world.commands.length)
    (lock : after.locked.toNat = s.locked.toNat + accesses stack) : after.Valid parallel where
  stages := by
    rw [stages]
    exact valid.stages
  provided := by
    rw [threads, world]
    intro list member frame inList
    rcases List.mem_append.mp member with before | isLast
    · exact valid.provided list before frame inList
    · rw [List.mem_singleton.mp isLast] at inList
      exact provided frame inList
  lock := by
    have held := valid.lock
    rw [threads, List.flatten_append, accesses, List.map_append, List.sum_append,
      List.flatten_singleton]
    rw [accesses] at held
    rw [lock, accesses, held]

/-- The frames of one stack. -/
theorem stack (valid : s.Valid parallel) {thread : Nat} {stack : List (Frame Body)}
    (found : s.threads[thread]? = some stack) :
    ∀ frame ∈ stack, frame.Provided parallel s.world.commands.length :=
  valid.provided stack (List.mem_of_getElem? found)

theorem below (valid : s.Valid parallel) {frame : Frame Body} {below : List (Frame Body)}
    (found : s.threads[thread]? = some (frame :: below)) :
    ∀ frame ∈ below, frame.Provided parallel s.world.commands.length :=
  (List.forall_mem_cons.mp (valid.stack found)).2

/-- The stage on top of a stack. -/
theorem top (valid : s.Valid parallel) {execution : Execution Body} {below : List (Frame Body)}
    (found : s.threads[thread]? = some (.stage execution :: below)) :
    execution.Provided parallel s.world.commands.length :=
  Frame.provided_stage.mp (valid.stack found _ List.mem_cons_self)

theorem enter (entered : s.enter made = some after) :
    after.systemStages = s.systemStages ∧ after.world = made.world ∧
      after.threads = made.threads ∧
      after.locked.toNat = s.locked.toNat + made.leaves.count .worldAccess := by
  simp only [Session.enter, Option.bind_eq_bind, Option.bind_eq_some_iff, Option.guard_eq_some',
    Option.pure_def, Option.some.injEq, exists_const] at entered
  rcases entered with ⟨_, locked, acquired, rfl⟩
  exact ⟨rfl, rfl, rfl, acquire_eq_some acquired⟩

/-- A system is pushed on a stack. -/
theorem pushed (valid : s.Valid parallel) {stack : List (Frame Body)} {len : Nat}
    (found : s.threads[thread]? = some stack) (buffers : s.world.commands.length ≤ len)
    {leaves : List Param} {systemIdx : Nat} {origin : Origin} :
    ∀ frame ∈ Frame.system leaves systemIdx origin :: stack, frame.Provided parallel len := by
  refine List.forall_mem_cons.mpr ⟨Frame.provided_system, ?_⟩
  exact fun frame member => (valid.stack found frame member).mono buffers

/-- A system outside of stages starts, which has the first buffer. -/
theorem runAlone (valid : s.Valid parallel) {stack : List (Frame Body)}
    (found : s.threads[thread]? = some stack) {leaves : List Param} {origin : Origin}
    (world : after.world = s.world.resizeCommands 1)
    (stages : ∀ stage ∈ after.systemStages, stage.Assembled parallel)
    (threads : after.threads = s.threads.set thread (.system leaves 0 origin :: stack))
    (locked : after.locked.toNat = s.locked.toNat + leaves.count .worldAccess) :
    after.Valid parallel := by
  have buffers : s.world.commands.length ≤ after.world.commands.length := by
    rw [world, World.length_commands_resizeCommands]
    exact Nat.le_max_left _ _
  refine valid.replace found buffers stages threads (valid.pushed found buffers) ?_
  rw [accesses_cons, locked]
  simp only [Frame.leaves]
  omega

/-- The parameters of a system are alive. -/
theorem construct (valid : s.Valid parallel) {act : Act Value Body}
    (constructs : s.construction thread act = some made) (entered : s.enter made = some after) :
    after.Valid parallel := by
  rcases enter entered with ⟨stages, world, threads, locked⟩
  have assembled : ∀ stage ∈ after.systemStages, stage.Assembled parallel := by
    rw [stages]
    exact valid.stages
  cases act with
  | ensureCommands =>
      rcases construction_ensureCommands constructs with ⟨stack, found, rfl⟩
      exact valid.runAlone found world assembled threads locked
  | runSystem params =>
      rcases construction_runSystem constructs with ⟨stack, found, rfl⟩
      exact valid.runAlone found world assembled threads locked
  | condition =>
      rcases construction_condition constructs with
        ⟨execution, below, condition, rest, found, listed, rfl⟩
      refine valid.replace found (by rw [world]) assembled threads ?_ ?_
      · rw [world]
        have provided := valid.top found
        refine List.forall_mem_cons.mpr ⟨Frame.provided_system, ?_⟩
        refine Frame.provided_cons ⟨provided.assembled, provided.buffers, ?_⟩ (valid.below found)
        intro other member
        exact provided.conditions other (listed ▸ List.mem_cons_of_mem _ member)
      · simp only [accesses_cons, Frame.leaves, locked, List.count_nil]
        omega
  | system position =>
      rcases construction_system constructs with ⟨execution, below, system, found, listed, rfl⟩
      have provided := valid.top found
      let marked : Session Value Body := { s with
        threads := s.threads.set thread
          (.stage { execution with started := position :: execution.started } :: below) }
      have validMarked : marked.Valid parallel := by
        refine valid.replace found (Nat.le_refl _) valid.stages rfl ?_ rfl
        exact Frame.provided_cons ⟨provided.assembled, provided.buffers, provided.conditions⟩
          (valid.below found)
      refine validMarked.spawn world stages threads ?_ ?_
      · intro frame member
        rw [List.mem_singleton.mp member]
        exact Frame.provided_system
      · rw [locked]
        rfl
  | _ => cases constructs

/-- The `WorldAccess` of a system that is under way has the lock. -/
theorem held (valid : s.Valid parallel) {frame : Frame Body} {below : List (Frame Body)}
    (found : s.threads[thread]? = some (frame :: below)) :
    frame.leaves.count .worldAccess ≤ s.locked.toNat := by
  have without := accesses_set found []
  have lock := valid.lock
  rw [accesses_cons] at without
  simp only [accesses, List.map_nil, List.sum_nil] at without lock
  omega

/-- What is left of the lock when the parameters of a system are dropped. -/
theorem released {leaves : List Param} {locked : Bool}
    (held : leaves.count .worldAccess ≤ locked.toNat) :
    locked.toNat = leaves.count .worldAccess + (locked && !leaves.contains .worldAccess).toNat := by
  by_cases member : Param.worldAccess ∈ leaves
  · have positive := List.count_pos_iff.mpr member
    have contains : leaves.contains .worldAccess = true := List.contains_iff_mem.mpr member
    have bound := Bool.toNat_le locked
    rw [contains, Bool.not_true, Bool.and_false, Bool.toNat_false]
    omega
  · have contains : leaves.contains .worldAccess = false := by
      rw [← Bool.not_eq_true, List.contains_iff_mem]
      exact member
    rw [contains, List.count_eq_zero_of_not_mem member]
    simp

/-- A stage begins. -/
theorem begins (valid : s.Valid parallel) {stack below : List (Frame Body)}
    (found : s.threads[thread]? = some stack) {stage : GuardedStage Body}
    (assembled : stage.Assembled parallel) {index : Nat} {ticking : Bool}
    {parents : List (List Nat)} (sameAccesses : accesses below = accesses stack)
    (others : ∀ frame ∈ below, frame.Provided parallel s.world.commands.length) :
    (s.executeStage thread (Execution.new stage index ticking parents) below).Valid parallel := by
  have length := World.length_commands_resizeCommands s.world stage.systems.length
  have buffers : s.world.commands.length ≤
      (s.world.resizeCommands stage.systems.length).commands.length := by
    rw [length]
    exact Nat.le_max_left _ _
  refine valid.replace found buffers valid.stages rfl ?_ ?_
  · refine Frame.provided_cons ⟨assembled, ?_, ?_⟩ ?_
    · exact (Nat.le_max_right _ _).trans_eq length.symm
    · exact fun condition member => member
    · exact fun frame member => (others frame member).mono buffers
  · simp only [accesses_cons, Frame.leaves, List.count_nil, sameAccesses,
      Session.executeStage]
    omega

variable [UnitTypeId] [BuiltinValues Value]

theorem finish (valid : s.Valid parallel) {flag : Bool} {batch : List (CommandPayload Value)}
    (finished : s.finish thread flag batch = some after) : after.Valid parallel := by
  simp only [Session.finish, Option.bind_eq_bind, Option.bind_eq_some_iff] at finished
  rcases finished with ⟨stack, found, finished⟩
  split at finished
  · rename_i leaves systemIdx origin below
    have released := released (valid.held found)
    have others := valid.below found
    simp only [Frame.leaves] at released
    split at finished
    · cases finished
      refine valid.replace found (Nat.le_refl _) valid.stages rfl others ?_
      rw [accesses_cons, Frame.leaves]
      dsimp only
      omega
    · simp only [Option.bind_eq_some_iff, Option.pure_def, Option.some.injEq] at finished
      rcases finished with ⟨⟨result, world⟩, applied, rfl⟩
      have length : world.commands.length = s.world.commands.length := by
        rw [World.commands_applySorted applied, List.length_map]
      refine valid.replace found length.ge valid.stages rfl ?_ ?_
      · exact fun frame member => (others frame member).mono length.ge
      · rw [accesses_cons, Frame.leaves]
        dsimp only
        omega
    · cases finished
      rcases List.forall_mem_cons.mp others with ⟨top, rest⟩
      have provided := Frame.provided_stage.mp top
      refine valid.replace found (Nat.le_refl _) valid.stages rfl ?_ ?_
      · exact Frame.provided_cons ⟨provided.assembled, provided.buffers, provided.conditions⟩ rest
      · simp only [accesses_cons, Frame.leaves, List.count_nil]
        omega
    · rename_i owner position
      simp only [Option.bind_eq_some_iff] at finished
      rcases finished with ⟨ownerStack, foundOwner, finished⟩
      split at finished
      · rename_i execution rest
        cases finished
        have different : thread ≠ owner := by
          rintro rfl
          cases found.symm.trans foundOwner
        have foundNext : (s.threads.set thread [])[owner]? = some (.stage execution :: rest) := by
          rw [List.getElem?_set_ne different, foundOwner]
        let ended : Session Value Body := { s with
          locked := s.locked && !leaves.contains .worldAccess
          threads := s.threads.set thread [] }
        have validEnded : ended.Valid parallel := by
          refine valid.replace found (Nat.le_refl _) valid.stages rfl (List.forall_mem_nil _) ?_
          simp only [accesses_cons, Frame.leaves, ended]
          omega
        have provided := valid.top foundOwner
        refine validEnded.replace foundNext (Nat.le_refl _) valid.stages rfl ?_ rfl
        exact Frame.provided_cons ⟨provided.assembled, provided.buffers, provided.conditions⟩
          (valid.below foundOwner)
      · cases finished
    · cases finished
  · cases finished

variable [CommandSentinelTypeId]

theorem call (valid : s.Valid parallel) {call : Call Value}
    (stepped : s.step parallel thread (.call call) = some after) : after.Valid parallel := by
  rcases Option.bind_eq_some_iff.mp stepped with ⟨stack, found, stepped⟩
  split at stepped
  · simp only [Option.bind_eq_bind, Option.bind_eq_some_iff, Option.guard_eq_some',
      Option.pure_def, Option.some.injEq, exists_const] at stepped
    rcases stepped with ⟨_, method, world, ran, rfl⟩
    exact valid.keep (Call.length_commands method ran).ge valid.stages rfl rfl
  · cases stepped

theorem addStage (valid : s.Valid parallel) {stage : GuardedStage Body}
    (assembled : stage.Assembled parallel)
    (stepped : s.step parallel thread (.addStage stage) = some after) : after.Valid parallel := by
  rcases Option.bind_eq_some_iff.mp stepped with ⟨stack, found, stepped⟩
  split at stepped
  · simp only [Option.bind_eq_bind, Option.bind_eq_some_iff, Option.guard_eq_some',
      Option.pure_def, Option.some.injEq, exists_const] at stepped
    rcases stepped with ⟨_, _, _, rfl⟩
    refine valid.keep (Nat.le_refl _) ?_ rfl rfl
    exact List.forall_mem_append.mpr ⟨valid.stages, List.forall_mem_singleton.mpr assembled⟩
  · cases stepped

theorem runStage (valid : s.Valid parallel) {stage : GuardedStage Body}
    (assembled : stage.Assembled parallel)
    (stepped : s.step parallel thread (.runStage stage) = some after) : after.Valid parallel := by
  rcases Option.bind_eq_some_iff.mp stepped with ⟨stack, found, stepped⟩
  split at stepped
  · simp only [Option.bind_eq_bind, Option.bind_eq_some_iff, Option.guard_eq_some',
      Option.pure_def, Option.some.injEq, exists_const] at stepped
    rcases stepped with ⟨_, parents, _, rfl⟩
    let pushed : Session Value Body := { s with systemStages := s.systemStages ++ [stage] }
    have validPushed : pushed.Valid parallel := by
      refine valid.keep (Nat.le_refl _) ?_ rfl rfl
      exact List.forall_mem_append.mpr
        ⟨valid.stages, List.forall_mem_singleton.mpr assembled⟩
    exact validPushed.begins found assembled rfl (valid.stack found)
  · cases stepped

theorem tick (valid : s.Valid parallel)
    (stepped : s.step parallel thread .tick = some after) : after.Valid parallel := by
  rcases Option.bind_eq_some_iff.mp stepped with ⟨stack, found, stepped⟩
  split at stepped
  · simp only [Option.bind_eq_bind, Option.bind_eq_some_iff, Option.guard_eq_some',
      Option.pure_def, Option.some.injEq, exists_const] at stepped
    rcases stepped with ⟨_, rfl⟩
    refine valid.replace found (Nat.le_refl _) valid.stages rfl ?_ ?_
    · exact List.forall_mem_cons.mpr ⟨Frame.provided_tick, valid.stack found⟩
    · simp only [accesses_cons, Frame.leaves, List.count_nil]
      omega
  · cases stepped

theorem executeStage (valid : s.Valid parallel)
    (stepped : s.step parallel thread .executeStage = some after) : after.Valid parallel := by
  rcases Option.bind_eq_some_iff.mp stepped with ⟨stack, found, stepped⟩
  split at stepped
  · simp only [Option.bind_eq_bind, Option.bind_eq_some_iff, Option.guard_eq_some',
      Option.pure_def, Option.some.injEq, exists_const] at stepped
    rcases stepped with ⟨_, stage, listed, parents, _, rfl⟩
    have assembled := valid.stages stage (List.mem_of_getElem? listed)
    refine valid.begins found assembled rfl ?_
    exact List.forall_mem_cons.mpr ⟨Frame.provided_tick, valid.below found⟩
  · cases stepped

theorem endTick (valid : s.Valid parallel)
    (stepped : s.step parallel thread .endTick = some after) : after.Valid parallel := by
  rcases Option.bind_eq_some_iff.mp stepped with ⟨stack, found, stepped⟩
  split at stepped
  · simp only [Option.bind_eq_bind, Option.bind_eq_some_iff, Option.guard_eq_some',
      Option.pure_def, Option.some.injEq, exists_const] at stepped
    rcases stepped with ⟨_, rfl⟩
    refine valid.replace found (Nat.le_refl _) valid.stages rfl ?_ ?_
    · exact valid.below found
    · simp only [accesses_cons, Frame.leaves, List.count_nil]
      omega
  · cases stepped

theorem endStage (valid : s.Valid parallel) {batch : List (CommandPayload Value)}
    (stepped : s.step parallel thread (.endStage batch) = some after) : after.Valid parallel := by
  rcases Option.bind_eq_some_iff.mp stepped with ⟨stack, found, stepped⟩
  split at stepped
  · simp only [Option.bind_eq_bind, Option.bind_eq_some_iff, Option.guard_eq_some',
      Option.pure_def, Option.some.injEq, exists_const] at stepped
    rcases stepped with ⟨_, ⟨result, world⟩, applied, _, rfl⟩
    have length : world.commands.length = s.world.commands.length := by
      rw [World.commands_applySorted applied, List.length_map]
    have others := valid.below found
    refine valid.replace found length.ge ?_ rfl ?_ ?_
    · intro stage member
      dsimp only at member
      split at member
      · exact valid.stages stage member
      · exact valid.stages stage (List.mem_of_mem_eraseIdx member)
    · exact fun frame member => (others frame member).mono length.ge
    · simp only [accesses_cons, Frame.leaves, List.count_nil]
      omega
  · cases stepped

theorem pushCommand (valid : s.Valid parallel) {command : CommandPayload Value}
    (stepped : s.step parallel thread (.pushCommand command) = some after) :
    after.Valid parallel := by
  rcases Option.bind_eq_some_iff.mp stepped with ⟨stack, found, stepped⟩
  split at stepped
  · simp only [Option.bind_eq_bind, Option.bind_eq_some_iff, Option.guard_eq_some',
      Option.pure_def, Option.some.injEq, exists_const] at stepped
    rcases stepped with ⟨_, _, world, pushed, rfl⟩
    exact valid.keep (World.length_commands_pushCommand pushed).ge valid.stages rfl rfl
  · cases stepped

theorem extendCommand (valid : s.Valid parallel) {command : ComponentCommand Value}
    (stepped : s.step parallel thread (.extendCommand command) = some after) :
    after.Valid parallel := by
  rcases Option.bind_eq_some_iff.mp stepped with ⟨stack, found, stepped⟩
  split at stepped
  · simp only [Option.bind_eq_bind, Option.bind_eq_some_iff, Option.guard_eq_some',
      Option.pure_def, Option.some.injEq, exists_const] at stepped
    rcases stepped with ⟨_, world, extended, rfl⟩
    exact valid.keep (World.length_commands_extendCommand extended).ge valid.stages rfl rfl
  · cases stepped

theorem commandId (valid : s.Valid parallel)
    (stepped : s.step parallel thread .commandId = some after) : after.Valid parallel := by
  rcases Option.bind_eq_some_iff.mp stepped with ⟨stack, found, stepped⟩
  split at stepped
  · simp only [Option.bind_eq_bind, Option.bind_eq_some_iff, Option.guard_eq_some',
      Option.pure_def, Option.some.injEq, exists_const] at stepped
    rcases stepped with ⟨_, _, _, ⟨result, world⟩, took, rfl⟩
    exact valid.keep (World.length_commands_commandId took).ge valid.stages rfl rfl
  · cases stepped

/-- The guard of the system is the one that has the lock. -/
theorem dropAccess (valid : s.Valid parallel)
    (stepped : s.step parallel thread .dropAccess = some after) : after.Valid parallel := by
  rcases Option.bind_eq_some_iff.mp stepped with ⟨stack, found, stepped⟩
  split at stepped
  · simp only [Option.bind_eq_bind, Option.bind_eq_some_iff, Option.guard_eq_some',
      Option.pure_def, Option.some.injEq, exists_const] at stepped
    rcases stepped with ⟨member, rfl⟩
    have held := valid.held found
    have positive := List.count_pos_iff.mpr member
    have bound := Bool.toNat_le s.locked
    refine valid.replace found (Nat.le_refl _) valid.stages rfl ?_ ?_
    · exact List.forall_mem_cons.mpr ⟨Frame.provided_system, valid.below found⟩
    · simp only [Frame.leaves] at held
      simp only [accesses_cons, Frame.leaves, List.count_erase_self, Bool.toNat_false]
      omega
  · cases stepped

/-- Whatever an action does, the buffers and the lock stay valid. -/
theorem step (valid : s.Valid parallel) {act : Act Value Body}
    (admissible : s.Admissible parallel act) (stepped : s.step parallel thread act = some after) :
    after.Valid parallel := by
  cases act with
  | call call => exact valid.call stepped
  | addStage stage => exact valid.addStage admissible stepped
  | ensureCommands =>
      rcases Option.bind_eq_some_iff.mp stepped with ⟨made, constructs, entered⟩
      exact valid.construct constructs entered
  | runSystem params =>
      rcases Option.bind_eq_some_iff.mp stepped with ⟨made, constructs, entered⟩
      exact valid.construct constructs entered
  | runStage stage => exact valid.runStage admissible stepped
  | tick => exact valid.tick stepped
  | executeStage => exact valid.executeStage stepped
  | endTick => exact valid.endTick stepped
  | condition =>
      rcases Option.bind_eq_some_iff.mp stepped with ⟨made, constructs, entered⟩
      exact valid.construct constructs entered
  | system position =>
      rcases Option.bind_eq_some_iff.mp stepped with ⟨made, constructs, entered⟩
      exact valid.construct constructs entered
  | endStage batch => exact valid.endStage stepped
  | pushCommand command => exact valid.pushCommand stepped
  | extendCommand command => exact valid.extendCommand stepped
  | commandId => exact valid.commandId stepped
  | dropAccess => exact valid.dropAccess stepped
  | finish flag batch => exact valid.finish stepped

/-- The invariant of every run. -/
theorem reached {start : Session Value Body} (valid : start.Valid parallel)
    (reached : Reached parallel start s) : s.Valid parallel := by
  induction reached with
  | start => exact valid
  | step _ admissible stepped induction => exact induction.step admissible stepped

end Valid

end Session

end Cecs

import Cecs.Commands.Sort
import Cecs.Systems.Order
import Mathlib.Logic.Relation

/-! # The buffers of a stage

A system appends to the buffer of its `system_idx`, and `apply_commands` drains
the buffers by number. Under `parallel` the number is the place of the system in
the registration, elsewhere it is 0. A system with a `WorldAccess` can also use
buffer 0, and have the buffers drained in the middle of the stage. -/

namespace Cecs

open Foundation

/-- A queued command with the system that queued it, if a system of the stage did. -/
abbrev Queued (Value : Type) := Option TypeId × CommandPayload Value

section Stage

variable {Value Body : Type}

def resizeCommands (commands : List (List (Queued Value))) (len : Nat) :
    List (List (Queued Value)) :=
  commands ++ List.replicate (len - commands.length) []

/-- What a system does with the buffers. With a `WorldAccess` it can push to buffer 0, and
start a nested run, which ends with `apply_commands`; `nested` are the commands that the
nested systems have queued before, with their buffers. -/
inductive BufferAction (Value : Type) where
  | push (command : CommandPayload Value)
  | ensureCommands (command : CommandPayload Value)
  | applyCommands (nested : List (Nat × CommandPayload Value))

namespace BufferAction

def pushes (self : BufferAction Value) (sys : ErasedSystem Body) : List (Nat × Queued Value) :=
  match self with
  | push command => [(sys.systemIdx, some sys.id, command)]
  | ensureCommands command => [(0, some sys.id, command)]
  | applyCommands nested => nested.map fun (number, command) => (number, none, command)

def applies : BufferAction Value → Bool
  | applyCommands _ => true
  | _ => false

end BufferAction

/-- A command goes to the end of its buffer. The buffer is there: a stage, `run_system` and
`ensure_commands` resize the vector before. -/
def pushTo (commands : List (List (Queued Value))) (entry : Nat × Queued Value) :
    List (List (Queued Value)) :=
  (resizeCommands commands (entry.1 + 1)).modify entry.1 (· ++ [entry.2])

/-- What each `apply_commands` drains while the actions are done, and at the end. -/
def drainedBatches (commands : List (List (Queued Value))) :
    List (ErasedSystem Body × BufferAction Value) → List (List (Queued Value))
  | [] => [commands.flatten]
  | (sys, action) :: rest =>
      let pushed := (action.pushes sys).foldl pushTo commands
      if action.applies then pushed.flatten :: drainedBatches (pushed.map fun _ => []) rest
      else drainedBatches pushed rest

/-- The actions of the systems, one system after the other. A system with a `WorldAccess`
runs alone, and what the others push does not depend on how they are interleaved. -/
def actionsOf (actions : TypeId → List (BufferAction Value)) (order : List (ErasedSystem Body)) :
    List (ErasedSystem Body × BufferAction Value) :=
  order.flatMap fun sys => (actions sys.id).map fun action => (sys, action)

/-- What is drained while the systems of the stage run in the given order, and after them;
`before` are commands that other callers left in the buffers. -/
def runBuffers (actions : TypeId → List (BufferAction Value))
    (before : List (List (CommandPayload Value))) (order : List (ErasedSystem Body)) :
    List (List (Queued Value)) :=
  drainedBatches
    (resizeCommands (before.map fun buffer => buffer.map fun command => (none, command))
      order.length)
    (actionsOf actions order)

/-- What is pushed between two applications of the buffers, in the order of time. -/
def rounds (round : List (Nat × Queued Value)) :
    List (ErasedSystem Body × BufferAction Value) → List (List (Nat × Queued Value))
  | [] => [round]
  | (sys, action) :: rest =>
      let pushed := round ++ action.pushes sys
      if action.applies then pushed :: rounds [] rest else rounds pushed rest

/-- Every command of `first` is before the commands of its kind that `second` queued. -/
def InOrder (first second : TypeId) (batch : List (Queued Value)) : Prop :=
  batch.Pairwise fun x y => x.2.cmdTy = y.2.cmdTy →
    ¬(x.1 = some second ∧ y.1 = some first)

/-- The two systems push no two commands of one kind in the round. -/
def NoSharedKind (first second : TypeId) (round : List (Nat × Queued Value)) : Prop :=
  ∀ x ∈ round, ∀ y ∈ round, x.2.1 = some first → y.2.1 = some second →
    x.2.2.cmdTy ≠ y.2.2.cmdTy

/-- What `second` pushes is in no buffer before that of a command of its kind that `first`
pushes in the round. -/
def BuffersInOrder (first second : TypeId) (round : List (Nat × Queued Value)) : Prop :=
  ∀ x ∈ round, ∀ y ∈ round, x.2.1 = some first → y.2.1 = some second →
    x.2.2.cmdTy = y.2.2.cmdTy → x.1 ≤ y.1

/-- A listed system that names another listed one in `after`. -/
def NamesAfter (descriptors : List (SystemDescriptor Body)) (first second : TypeId) : Prop :=
  (∃ named ∈ descriptors, named.id = first) ∧
    ∃ naming ∈ descriptors, naming.id = second ∧ first ∈ naming.after

/-- A chain of `after`. -/
def OrderedAfter (descriptors : List (SystemDescriptor Body)) : TypeId → TypeId → Prop :=
  Relation.TransGen (NamesAfter descriptors)

end Stage

section Registration

variable {Body : Type} {descriptors : List (SystemDescriptor Body)}

theorem systems_withSystems (parallel : Bool) (descriptors : List (SystemDescriptor Body))
    (position : Nat) :
    (SystemStageBuilder.withSystems parallel descriptors).systems[position]? =
      descriptors[position]?.map fun descriptor =>
        ⟨if parallel then position else 0, descriptor⟩ := by
  have length : ∀ descriptors : List (SystemDescriptor Body),
      (SystemStageBuilder.withSystems parallel descriptors).systems.length =
        descriptors.length := by
    intro descriptors
    induction descriptors using List.reverseRecOn with
    | nil => rfl
    | append_singleton rest last induction =>
        simpa [SystemStageBuilder.withSystems, SystemStageBuilder.addSystem] using induction
  induction descriptors using List.reverseRecOn with
  | nil => rfl
  | append_singleton rest last induction =>
      have added : (SystemStageBuilder.withSystems parallel (rest ++ [last])).systems =
          (SystemStageBuilder.withSystems parallel rest).systems ++
            [⟨if parallel then rest.length else 0, last⟩] := by
        simp [← length rest, SystemStageBuilder.withSystems, SystemStageBuilder.addSystem]
      rw [added, List.getElem?_append, List.getElem?_append, length]
      by_cases inside : position < rest.length
      · rw [if_pos inside, if_pos inside, induction]
      · rw [if_neg inside, if_neg inside]
        by_cases isLast : position = rest.length
        · subst isLast
          simp
        · have beyond : 1 ≤ position - rest.length := by omega
          rw [List.getElem?_eq_none (by simpa using beyond),
            List.getElem?_eq_none (by simpa using beyond)]
          rfl

theorem map_id_withSystems (parallel : Bool) (descriptors : List (SystemDescriptor Body)) :
    (SystemStageBuilder.withSystems parallel descriptors).systems.map ErasedSystem.id =
      descriptors.map SystemDescriptor.id := by
  apply List.ext_getElem?
  intro position
  rw [List.getElem?_map, List.getElem?_map, systems_withSystems, Option.map_map]
  rfl

theorem mem_withSystems {parallel : Bool} {sys : ErasedSystem Body} :
    sys ∈ (SystemStageBuilder.withSystems parallel descriptors).systems ↔
      ∃ position descriptor, descriptors[position]? = some descriptor ∧
        sys = ⟨if parallel then position else 0, descriptor⟩ := by
  rw [List.mem_iff_getElem?]
  simp only [systems_withSystems, Option.map_eq_some_iff]
  exact exists_congr fun position => exists_congr fun descriptor =>
    and_congr_right fun _ => eq_comm

end Registration

section Buffers

variable {Value : Type}

theorem mem_flatten_iff {α : Type} {lists : List (List α)} {a : α} :
    a ∈ lists.flatten ↔ ∃ number : Nat, a ∈ lists.getD number [] := by
  rw [List.mem_flatten]
  constructor
  · rintro ⟨list, member, inside⟩
    rcases List.mem_iff_getElem?.mp member with ⟨number, found⟩
    exact ⟨number, by rw [List.getD, found]; exact inside⟩
  · rintro ⟨number, inside⟩
    cases found : lists[number]? with
    | none =>
        rw [List.getD, found] at inside
        cases inside
    | some list =>
        rw [List.getD, found] at inside
        exact ⟨list, List.mem_of_getElem? found, inside⟩

/-- The order of a concatenation, by the numbers of the lists. -/
theorem pairwise_flatten_iff {α : Type} {lists : List (List α)} {related : α → α → Prop} :
    lists.flatten.Pairwise related ↔
      (∀ number : Nat, (lists.getD number []).Pairwise related) ∧
      ∀ i j : Nat, i < j → ∀ a ∈ lists.getD i [], ∀ b ∈ lists.getD j [], related a b := by
  rw [List.pairwise_flatten, List.pairwise_iff_getElem]
  constructor
  · rintro ⟨inside, across⟩
    constructor
    · intro number
      by_cases bound : number < lists.length
      · rw [List.getD_eq_getElem _ _ bound]
        exact inside _ (List.getElem_mem bound)
      · rw [List.getD_eq_default _ _ (by omega)]
        exact List.Pairwise.nil
    · intro i j below a memberA b memberB
      by_cases bound : j < lists.length
      · rw [List.getD_eq_getElem _ _ bound] at memberB
        rw [List.getD_eq_getElem _ _ (below.trans bound)] at memberA
        exact across i j (below.trans bound) bound below a memberA b memberB
      · rw [List.getD_eq_default _ _ (by omega)] at memberB
        cases memberB
  · rintro ⟨inside, across⟩
    constructor
    · intro list member
      rcases List.getElem_of_mem member with ⟨number, bound, rfl⟩
      rw [← List.getD_eq_getElem _ [] bound]
      exact inside number
    · intro i j boundI boundJ below a memberA b memberB
      rw [← List.getD_eq_getElem _ [] boundI] at memberA
      rw [← List.getD_eq_getElem _ [] boundJ] at memberB
      exact across i j below a memberA b memberB

theorem getD_resizeCommands (commands : List (List (Queued Value))) (len number : Nat) :
    (resizeCommands commands len).getD number [] = commands.getD number [] := by
  rw [resizeCommands, List.getD, List.getD, List.getElem?_append]
  split
  · rfl
  · rename_i outside
    rw [List.getElem?_eq_none (Nat.le_of_not_lt outside), List.getElem?_replicate]
    split <;> rfl

theorem getD_pushTo (commands : List (List (Queued Value))) (entry : Nat × Queued Value)
    (number : Nat) : (pushTo commands entry).getD number [] =
      commands.getD number [] ++ if entry.1 = number then [entry.2] else [] := by
  rw [← getD_resizeCommands commands (entry.1 + 1) number, pushTo, List.getD, List.getD,
    List.getElem?_modify]
  split
  · rename_i same
    subst same
    have bound : entry.1 < (resizeCommands commands (entry.1 + 1)).length := by
      simp only [resizeCommands, List.length_append, List.length_replicate]
      omega
    rw [List.getElem?_eq_getElem bound]
    rfl
  · simp

/-- A buffer gets its entries in the order of time. -/
theorem getD_foldl_pushTo (commands : List (List (Queued Value)))
    (round : List (Nat × Queued Value)) (number : Nat) :
    (round.foldl pushTo commands).getD number [] =
      commands.getD number [] ++ (round.filter fun entry => entry.1 = number).map Prod.snd := by
  induction round generalizing commands with
  | nil => simp
  | cons entry rest induction =>
      rw [List.foldl_cons, induction, getD_pushTo, List.append_assoc, List.filter_cons]
      congr 1
      by_cases same : entry.1 = number <;> simp [same]

/-- No system of the stage has queued what is in the buffers. -/
def Untagged (commands : List (List (Queued Value))) : Prop :=
  ∀ number : Nat, ∀ x ∈ commands.getD number [], x.1 = none

/-- A batch is what is in the buffers after a round. -/
def IsBatch (batch : List (Queued Value)) (round : List (Nat × Queued Value)) : Prop :=
  ∃ commands, Untagged commands ∧ batch = (round.foldl pushTo commands).flatten

theorem untagged_emptied (commands : List (List (Queued Value))) :
    Untagged (commands.map fun _ => ([] : List (Queued Value))) := by
  intro number x member
  have empty : (commands.map fun _ => ([] : List (Queued Value))).getD number [] = [] := by
    rw [List.getD, List.getElem?_map]
    cases commands[number]? <;> rfl
  rw [empty] at member
  cases member

theorem untagged_start (before : List (List (CommandPayload Value))) (len : Nat) :
    Untagged (resizeCommands
      (before.map fun buffer => buffer.map fun command => ((none : Option TypeId), command))
      len) := by
  intro number x member
  rw [getD_resizeCommands, List.getD, List.getElem?_map] at member
  cases found : before[number]? with
  | none =>
      rw [found] at member
      cases member
  | some buffer =>
      rw [found] at member
      rcases List.mem_map.mp member with ⟨_, _, rfl⟩
      rfl

section Batch

variable {batch : List (Queued Value)} {round : List (Nat × Queued Value)}
  {first second : TypeId}

theorem IsBatch.mem_iff (isBatch : IsBatch batch round) {id : TypeId}
    {command : CommandPayload Value} :
    (some id, command) ∈ batch ↔ ∃ number, (number, some id, command) ∈ round := by
  rcases isBatch with ⟨commands, untagged, rfl⟩
  rw [mem_flatten_iff]
  apply exists_congr
  intro number
  rw [getD_foldl_pushTo, List.mem_append, List.mem_map]
  constructor
  · rintro (old | ⟨⟨place, entry⟩, member, rfl⟩)
    · cases untagged number _ old
    · rw [List.mem_filter, decide_eq_true_eq] at member
      rcases member with ⟨member, rfl⟩
      exact member
  · intro member
    exact Or.inr ⟨_, List.mem_filter.mpr ⟨member, decide_eq_true rfl⟩, rfl⟩

/-- Whatever the sort does with commands of one kind: the order is kept exactly when
there is nothing to keep. -/
theorem IsBatch.forall_sorted_iff (isBatch : IsBatch batch round) (different : first ≠ second) :
    (∀ sorted, SortCommands Prod.snd batch sorted → InOrder first second sorted) ↔
      NoSharedKind first second round := by
  constructor
  · rintro all ⟨numberX, _, x⟩ inX ⟨numberY, _, y⟩ inY rfl rfl sameKind
    have distinct : (some first, x) ≠ (some second, y) :=
      fun equal => different (Option.some.inj (Prod.mk.inj equal).1)
    rcases perm_of_two_members (isBatch.mem_iff.mpr ⟨numberX, inX⟩)
      (isBatch.mem_iff.mpr ⟨numberY, inY⟩) distinct with ⟨rest, parts⟩
    rcases exists_sortCommands_before Prod.snd parts sameKind.symm with
      ⟨sorted, sorts, inside⟩
    have order := List.pairwise_iff_forall_sublist.mp (all sorted sorts) inside
    exact order sameKind.symm ⟨rfl, rfl⟩
  · intro none sorted sorts
    have perm := (sortCommands_iff.mp sorts).perm
    apply List.pairwise_of_forall_mem_list
    rintro ⟨_, y⟩ memberY ⟨_, x⟩ memberX sameKind ⟨rfl, rfl⟩
    rcases isBatch.mem_iff.mp (perm.mem_iff.mp memberX) with ⟨numberX, inX⟩
    rcases isBatch.mem_iff.mp (perm.mem_iff.mp memberY) with ⟨numberY, inY⟩
    exact none _ inX _ inY rfl rfl sameKind.symm

/-- A buffer keeps the order of time, so only the numbers of the buffers can be in the way. -/
theorem IsBatch.sorted_inOrder_iff (isBatch : IsBatch batch round)
    (timely : round.Pairwise fun x y => ¬(x.2.1 = some second ∧ y.2.1 = some first)) :
    InOrder first second batch ↔ BuffersInOrder first second round := by
  rcases isBatch with ⟨commands, untagged, rfl⟩
  rw [InOrder, pairwise_flatten_iff]
  constructor
  · rintro ⟨_, across⟩ ⟨numberX, x⟩ inX ⟨numberY, y⟩ inY isFirst isSecond sameKind
    by_contra reversed
    have inBuffer : ∀ {number : Nat} {entry : Queued Value}, (number, entry) ∈ round →
        entry ∈ (round.foldl pushTo commands).getD number [] := by
      intro number entry member
      rw [getD_foldl_pushTo]
      apply List.mem_append_right
      exact List.mem_map.mpr ⟨_, List.mem_filter.mpr ⟨member, decide_eq_true rfl⟩, rfl⟩
    exact across numberY numberX (Nat.lt_of_not_le reversed) y (inBuffer inY) x (inBuffer inX)
      sameKind.symm ⟨isSecond, isFirst⟩
  · intro ordered
    constructor
    · intro number
      rw [getD_foldl_pushTo, List.pairwise_append, List.pairwise_map]
      refine ⟨?_, ?_, ?_⟩
      · apply List.pairwise_of_forall_mem_list
        rintro x memberX y _ _ ⟨isSecond, _⟩
        rw [untagged number x memberX] at isSecond
        cases isSecond
      · apply (timely.sublist List.filter_sublist).imp
        intro x y reversed _
        exact reversed
      · rintro x memberX y _ _ ⟨isSecond, _⟩
        rw [untagged number x memberX] at isSecond
        cases isSecond
    · rintro i j below x memberX y memberY sameKind ⟨isSecond, isFirst⟩
      have inRound : ∀ {number : Nat} {entry : Queued Value} {id : TypeId},
          entry ∈ (round.foldl pushTo commands).getD number [] → entry.1 = some id →
          (number, entry) ∈ round := by
        intro number entry id member tagged
        rw [getD_foldl_pushTo, List.mem_append, List.mem_map] at member
        rcases member with old | ⟨⟨place, same⟩, member, rfl⟩
        · rw [untagged number entry old] at tagged
          cases tagged
        · rw [List.mem_filter, decide_eq_true_eq] at member
          rcases member with ⟨member, rfl⟩
          exact member
      have notAfter := ordered _ (inRound memberY isFirst) _ (inRound memberX isSecond) isFirst
        isSecond sameKind.symm
      exact Nat.not_lt.mpr notAfter below

end Batch

variable {Body : Type}

/-- Batch by batch, what is drained is what the rounds have pushed. -/
theorem drainedBatches_rounds {commands : List (List (Queued Value))}
    (untagged : Untagged commands) (round : List (Nat × Queued Value))
    (done : List (ErasedSystem Body × BufferAction Value)) :
    List.Forall₂ IsBatch (drainedBatches (round.foldl pushTo commands) done)
      (rounds round done) := by
  induction done generalizing commands round with
  | nil => exact .cons ⟨commands, untagged, rfl⟩ .nil
  | cons entry rest induction =>
      rw [drainedBatches, rounds, ← List.foldl_append]
      split
      · exact .cons ⟨commands, untagged, rfl⟩ (induction (untagged_emptied _) [])
      · exact induction untagged _

theorem flatten_rounds (round : List (Nat × Queued Value))
    (done : List (ErasedSystem Body × BufferAction Value)) :
    (rounds round done).flatten = round ++ done.flatMap fun (sys, action) => action.pushes sys := by
  induction done generalizing round with
  | nil => simp [rounds]
  | cons entry rest induction =>
      rw [rounds]
      split <;> simp [induction]

/-- When `first` runs before `second`, so do its pushes come. -/
theorem pairwise_rounds (actions : TypeId → List (BufferAction Value)) {first second : TypeId}
    {order : List (ErasedSystem Body)} (different : first ≠ second)
    (executed : order.Pairwise fun x y => ¬(x.id = second ∧ y.id = first)) :
    (rounds [] (actionsOf actions order)).flatten.Pairwise fun x y =>
      ¬(x.2.1 = some second ∧ y.2.1 = some first) := by
  have tag : ∀ {sys : ErasedSystem Body} {action : BufferAction Value} {x : Nat × Queued Value}
      {id : TypeId}, x ∈ action.pushes sys → x.2.1 = some id → sys.id = id := by
    intro sys action x id member tagged
    cases action with
    | applyCommands nested =>
        rcases List.mem_map.mp member with ⟨_, _, rfl⟩
        cases tagged
    | _ =>
        cases List.mem_singleton.mp member
        exact Option.some.inj tagged
  have same : ∀ {sys : ErasedSystem Body} {action other : BufferAction Value}
      {x y : Nat × Queued Value}, x ∈ action.pushes sys → y ∈ other.pushes sys →
      ¬(x.2.1 = some second ∧ y.2.1 = some first) := by
    rintro sys action other x y memberX memberY ⟨isSecond, isFirst⟩
    exact different ((tag memberY isFirst).symm.trans (tag memberX isSecond))
  rw [flatten_rounds, List.nil_append, List.pairwise_flatMap]
  constructor
  · rintro ⟨sys, action⟩ _
    apply List.pairwise_of_forall_mem_list
    exact fun x memberX y memberY => same memberX memberY
  · rw [actionsOf, List.pairwise_flatMap]
    constructor
    · intro sys _
      rw [List.pairwise_map]
      apply List.pairwise_of_forall_mem_list
      exact fun _ _ _ _ x memberX y memberY => same memberX memberY
    · refine executed.imp ?_
      rintro sys other reversed _ memberA _ memberB x memberX y memberY ⟨isSecond, isFirst⟩
      rcases List.mem_map.mp memberA with ⟨_, _, rfl⟩
      rcases List.mem_map.mp memberB with ⟨_, _, rfl⟩
      exact reversed ⟨tag memberX isSecond, tag memberY isFirst⟩

section Applied

variable {batches applied : List (List (Queued Value))} {pushed : List (List (Nat × Queued Value))}
  {first second : TypeId}

/-- Between the batches the order of time holds, however each of them is sorted. -/
theorem inOrder_flatten_iff (areBatches : List.Forall₂ IsBatch batches pushed)
    (timely : pushed.flatten.Pairwise fun x y => ¬(x.2.1 = some second ∧ y.2.1 = some first))
    (sorts : List.Forall₂ (SortCommands Prod.snd) batches applied) :
    InOrder first second applied.flatten ↔ ∀ sorted ∈ applied, InOrder first second sorted := by
  rw [InOrder, List.pairwise_flatten]
  refine and_iff_left ?_
  rw [List.pairwise_iff_getElem]
  rintro i j boundI boundJ below ⟨_, x⟩ memberX ⟨_, y⟩ memberY _ ⟨rfl, rfl⟩
  have entry : ∀ {k : Nat} {bound : k < applied.length} {id : TypeId}
      {command : CommandPayload Value}, (some id, command) ∈ applied[k] →
      ∃ (inside : k < pushed.length) (number : Nat),
        (number, some id, command) ∈ pushed[k] := by
    intro k bound id command member
    have boundBatch : k < batches.length := sorts.length_eq ▸ bound
    have inside : k < pushed.length := areBatches.length_eq ▸ boundBatch
    have perm := (sortCommands_iff.mp (sorts.get boundBatch bound)).perm
    exact ⟨inside, (areBatches.get boundBatch inside).mem_iff.mp (perm.mem_iff.mp member)⟩
  rcases entry memberX with ⟨insideI, _, pushedX⟩
  rcases entry memberY with ⟨insideJ, _, pushedY⟩
  exact List.pairwise_iff_getElem.mp (List.pairwise_flatten.mp timely).2 i j insideI insideJ below
    _ pushedX _ pushedY ⟨rfl, rfl⟩

/-- One batch may be sorted in any way, the others as well. -/
theorem forall_applied_iff (areBatches : List.Forall₂ IsBatch batches pushed)
    (timely : pushed.flatten.Pairwise fun x y => ¬(x.2.1 = some second ∧ y.2.1 = some first))
    (different : first ≠ second) :
    (∀ applied, List.Forall₂ (SortCommands Prod.snd) batches applied →
      InOrder first second applied.flatten) ↔
    ∀ round ∈ pushed, NoSharedKind first second round := by
  constructor
  · intro all round member
    rcases List.getElem_of_mem member with ⟨k, inside, rfl⟩
    have bound : k < batches.length := areBatches.length_eq ▸ inside
    refine ((areBatches.get bound inside).forall_sorted_iff different).mp ?_
    intro sorted sorts
    have chosen : List.Forall₂ (SortCommands Prod.snd) batches
        ((batches.map (sortCommands Prod.snd)).set k sorted) := by
      rw [List.forall₂_iff_get]
      refine ⟨by simp, ?_⟩
      intro i boundI boundSet
      simp only [List.get_eq_getElem, List.getElem_set, List.getElem_map]
      split
      · rename_i isPlace
        subst isPlace
        exact sorts
      · exact sortCommands_sorts ..
    refine (inOrder_flatten_iff areBatches timely chosen).mp (all _ chosen) sorted ?_
    have inside : k < (batches.map (sortCommands Prod.snd)).length := by simpa using bound
    exact List.mem_set inside sorted
  · intro none applied sorts
    rw [inOrder_flatten_iff areBatches timely sorts]
    intro sorted member
    rcases List.getElem_of_mem member with ⟨k, inside, rfl⟩
    have bound : k < batches.length := sorts.length_eq ▸ inside
    have boundPushed : k < pushed.length := areBatches.length_eq ▸ bound
    exact ((areBatches.get bound boundPushed).forall_sorted_iff different).mpr
      (none _ (List.getElem_mem boundPushed)) _ (sorts.get bound inside)

/-- A sort that keeps the order of equal keys leaves the order of the buffers. -/
theorem inOrder_sortCommands_iff (areBatches : List.Forall₂ IsBatch batches pushed)
    (timely : pushed.flatten.Pairwise fun x y => ¬(x.2.1 = some second ∧ y.2.1 = some first)) :
    InOrder first second (batches.map (sortCommands Prod.snd)).flatten ↔
      ∀ round ∈ pushed, BuffersInOrder first second round := by
  have sorts : List.Forall₂ (SortCommands Prod.snd) batches
      (batches.map (sortCommands Prod.snd)) := by
    rw [List.forall₂_map_right_iff, List.forall₂_same]
    exact fun batch _ => sortCommands_sorts Prod.snd batch
  have stable : ∀ batch : List (Queued Value),
      InOrder first second (sortCommands Prod.snd batch) ↔ InOrder first second batch := by
    intro batch
    rw [sortCommands_eq]
    exact pairwise_stableSortBy_iff
  have alone : ∀ k (bound : k < batches.length) (inside : k < pushed.length),
      InOrder first second batches[k] ↔ BuffersInOrder first second pushed[k] := by
    intro k bound inside
    exact (areBatches.get bound inside).sorted_inOrder_iff
      ((List.pairwise_flatten.mp timely).1 _ (List.getElem_mem inside))
  rw [inOrder_flatten_iff areBatches timely sorts, List.forall_mem_map]
  simp only [stable]
  constructor
  · intro all round member
    rcases List.getElem_of_mem member with ⟨k, inside, rfl⟩
    have bound : k < batches.length := areBatches.length_eq ▸ inside
    exact (alone k bound inside).mp (all _ (List.getElem_mem bound))
  · intro all batch member
    rcases List.getElem_of_mem member with ⟨k, bound, rfl⟩
    have inside : k < pushed.length := areBatches.length_eq ▸ bound
    exact (alone k bound inside).mpr (all _ (List.getElem_mem inside))

end Applied

end Buffers

section Order

variable {Value Body : Type} {descriptors : List (SystemDescriptor Body)}
  {first second : TypeId}

/-- In the sorted order, the whole chain before a system is in front of it. -/
theorem mem_front_of_orderedAfter {parallel : Bool} {sorted : List (ErasedSystem Body)}
    (unique : (descriptors.map SystemDescriptor.id).Nodup)
    (perm : sorted.Perm (SystemStageBuilder.withSystems parallel descriptors).systems)
    (ordered : AfterFirst (SystemStageBuilder.withSystems parallel descriptors).systems sorted)
    (chain : OrderedAfter descriptors first second) {front back : List (ErasedSystem Body)}
    {sys : ErasedSystem Body} (parts : sorted = front ++ sys :: back) (last : sys.id = second) :
    first ∈ front.map ErasedSystem.id := by
  have direct : ∀ {named naming : TypeId}, NamesAfter descriptors named naming →
      ∀ {front back : List (ErasedSystem Body)} {sys : ErasedSystem Body},
      sorted = front ++ sys :: back → sys.id = naming → named ∈ front.map ErasedSystem.id := by
    rintro named naming ⟨⟨listed, inDescriptors, rfl⟩, by_, naming', rfl, mentions⟩ front back
      sys parts last
    have inSorted : sys ∈ sorted := by simp [parts]
    rcases mem_withSystems.mp (perm.mem_iff.mp inSorted) with ⟨_, descriptor, found, rfl⟩
    have same := List.inj_on_of_nodup_map unique (List.mem_of_getElem? found) naming' last
    subst same
    refine ordered front _ back parts listed.id mentions ?_
    rw [map_id_withSystems]
    exact List.mem_map_of_mem inDescriptors
  induction chain generalizing front back sys with
  | single names => exact direct names parts last
  | tail chain names induction =>
      rcases List.mem_map.mp (direct names parts last) with ⟨between, inFront, sameId⟩
      rcases List.append_of_mem inFront with ⟨start, rest, rfl⟩
      have earlierParts : sorted = start ++ between :: (rest ++ sys :: back) := by simp [parts]
      have earlier := induction earlierParts sameId
      rw [List.map_append]
      exact List.mem_append_left _ earlier

/-- The same in a run of a stage, whose systems have different ids. -/
theorem mem_front_of_runs {parallel : Bool} {stage : SystemStage Body}
    (built : (SystemStageBuilder.withSystems parallel descriptors).build = some stage)
    {order : List (ErasedSystem Body)} (ran : order.Perm stage.systems)
    (ordered : AfterFirst stage.systems order) (chain : OrderedAfter descriptors first second) :
    (order.map ErasedSystem.id).Nodup ∧
      ∀ front back sys, order = front ++ sys :: back → sys.id = second →
        first ∈ front.map ErasedSystem.id := by
  simp only [SystemStageBuilder.build, Option.bind_eq_bind, Option.bind_eq_some_iff,
    Option.pure_def, Option.some.injEq] at built
  rcases built with ⟨sorted, returned, rfl⟩
  rcases sortedSystems_spec returned with ⟨unique, perm, _⟩
  have all := ran.trans perm
  refine ⟨(all.map ErasedSystem.id).nodup_iff.mpr unique, ?_⟩
  have among : AfterFirst (SystemStageBuilder.withSystems parallel descriptors).systems order :=
    fun front sys back parts id names listed => ordered front sys back parts id names
      ((perm.map ErasedSystem.id).mem_iff.mpr listed)
  rw [map_id_withSystems] at unique
  exact fun front back sys parts last =>
    mem_front_of_orderedAfter unique all among chain parts last

/-- So a system later in the chain never runs before an earlier one. -/
theorem pairwise_of_orderedAfter {parallel : Bool} {stage : SystemStage Body}
    (built : (SystemStageBuilder.withSystems parallel descriptors).build = some stage)
    {order : List (ErasedSystem Body)} (ran : order.Perm stage.systems)
    (ordered : AfterFirst stage.systems order) (chain : OrderedAfter descriptors first second) :
    order.Pairwise fun x y => ¬(x.id = second ∧ y.id = first) := by
  rcases mem_front_of_runs built ran ordered chain with ⟨unique, before⟩
  rw [List.pairwise_iff_forall_sublist]
  rintro x y inside ⟨isSecond, isFirst⟩
  rcases List.cons_sublist_iff.mp inside with ⟨early, late, rfl, inEarly, inLate⟩
  rcases List.append_of_mem inEarly with ⟨front, back, rfl⟩
  have inFront := before front (back ++ late) x (by simp) isSecond
  rw [List.map_append, List.nodup_append] at unique
  refine unique.2.2 first ?_ first ?_ rfl
  · rw [List.map_append]
    exact List.mem_append_left _ inFront
  · rw [← isFirst]
    exact List.mem_map_of_mem (List.singleton_sublist.mp inLate)

theorem afterFirst_of_build {builder : SystemStageBuilder Body} {stage : SystemStage Body}
    (built : builder.build = some stage) : AfterFirst stage.systems stage.systems := by
  simp only [SystemStageBuilder.build, Option.bind_eq_bind, Option.bind_eq_some_iff,
    Option.pure_def, Option.some.injEq] at built
  rcases built with ⟨sorted, returned, rfl⟩
  rcases sortedSystems_spec returned with ⟨_, perm, ordered⟩
  exact fun front sys back parts id names listed =>
    ordered front sys back parts id names ((perm.map ErasedSystem.id).mem_iff.mp listed)

theorem mem_systems_of_build {parallel : Bool} {stage : SystemStage Body}
    (built : (SystemStageBuilder.withSystems parallel descriptors).build = some stage)
    {sys : ErasedSystem Body} : sys ∈ stage.systems ↔
      sys ∈ (SystemStageBuilder.withSystems parallel descriptors).systems := by
  simp only [SystemStageBuilder.build, Option.bind_eq_bind, Option.bind_eq_some_iff,
    Option.pure_def, Option.some.injEq] at built
  rcases built with ⟨sorted, returned, rfl⟩
  exact (sortedSystems_spec returned).2.1.mem_iff

theorem ne_of_orderedAfter {parallel : Bool} {stage : SystemStage Body}
    (built : (SystemStageBuilder.withSystems parallel descriptors).build = some stage)
    (chain : OrderedAfter descriptors first second) : first ≠ second := by
  obtain ⟨naming, inDescriptors, last⟩ : ∃ naming ∈ descriptors, naming.id = second := by
    cases chain with
    | single names => exact ⟨_, names.2.choose_spec.1, names.2.choose_spec.2.1⟩
    | tail _ names => exact ⟨_, names.2.choose_spec.1, names.2.choose_spec.2.1⟩
  rcases List.mem_iff_getElem?.mp inDescriptors with ⟨position, registered⟩
  have inStage := (mem_systems_of_build built).mpr
    (mem_withSystems.mpr ⟨position, naming, registered, rfl⟩)
  rcases mem_front_of_runs built (List.Perm.refl _) (afterFirst_of_build built) chain with
    ⟨unique, before⟩
  rcases List.append_of_mem inStage with ⟨front, back, parts⟩
  have inFront := before front back _ parts last
  rintro rfl
  rw [parts, List.map_append, List.map_cons] at unique
  refine (List.nodup_append.mp unique).2.2 _ inFront _ List.mem_cons_self ?_
  exact last.symm

/-- Without `parallel` all systems share buffer 0. -/
theorem buffersInOrder_of_sequential {stage : SystemStage Body}
    (built : (SystemStageBuilder.withSystems false descriptors).build = some stage)
    {actions : TypeId → List (BufferAction Value)} {round : List (Nat × Queued Value)}
    (pushed : round ∈ rounds [] (actionsOf actions stage.systems)) :
    BuffersInOrder first second round := by
  rintro ⟨number, x⟩ memberX y _ tagged _ _
  have inAll := List.mem_flatten.mpr ⟨round, pushed, memberX⟩
  rw [flatten_rounds, List.nil_append, List.mem_flatMap] at inAll
  rcases inAll with ⟨⟨sys, action⟩, done, member⟩
  rcases List.mem_flatMap.mp done with ⟨_, inStage, listed⟩
  rcases List.mem_map.mp listed with ⟨_, _, same⟩
  cases same
  rcases mem_withSystems.mp ((mem_systems_of_build built).mp inStage) with ⟨_, _, _, rfl⟩
  cases action with
  | applyCommands nested =>
      rcases List.mem_map.mp member with ⟨_, _, same⟩
      cases same
      cases tagged
  | _ =>
      cases List.mem_singleton.mp member
      exact Nat.zero_le _

/-- When the commands of two ordered systems are applied in their order: under
`parallel` if they push none of one kind between two applications of the buffers, or,
with a sort that keeps the order, if those of the first are in no later buffer; without
it always. -/
theorem inOrder_iff (actions : TypeId → List (BufferAction Value))
    (before : List (List (CommandPayload Value)))
    (chain : OrderedAfter descriptors first second) :
    (∀ stage order, (SystemStageBuilder.withSystems true descriptors).build = some stage →
      order.Perm stage.systems → AfterFirst stage.systems order →
      let batches := runBuffers actions before order
      let pushed := rounds [] (actionsOf actions order)
      ((∀ applied, List.Forall₂ (SortCommands Prod.snd) batches applied →
          InOrder first second applied.flatten) ↔
        ∀ round ∈ pushed, NoSharedKind first second round) ∧
      (InOrder first second (batches.map (sortCommands Prod.snd)).flatten ↔
        ∀ round ∈ pushed, BuffersInOrder first second round)) ∧
    ∀ stage, (SystemStageBuilder.withSystems false descriptors).build = some stage →
      InOrder first second
        ((runBuffers actions before stage.systems).map (sortCommands Prod.snd)).flatten := by
  constructor
  · intro stage order built ran ordered batches pushed
    have different := ne_of_orderedAfter built chain
    have timely := pairwise_rounds actions different
      (pairwise_of_orderedAfter built ran ordered chain)
    have areBatches := drainedBatches_rounds (untagged_start before order.length) []
      (actionsOf actions order)
    exact ⟨forall_applied_iff areBatches timely different,
      inOrder_sortCommands_iff areBatches timely⟩
  · intro stage built
    have timely := pairwise_rounds actions (ne_of_orderedAfter built chain)
      (pairwise_of_orderedAfter built (List.Perm.refl _) (afterFirst_of_build built) chain)
    have areBatches := drainedBatches_rounds (untagged_start before stage.systems.length) []
      (actionsOf actions stage.systems)
    rw [runBuffers]
    exact (inOrder_sortCommands_iff areBatches timely).mpr
      fun round member => buffersInOrder_of_sequential built member

end Order

section Example

open Sample

/-- The later system is registered first. -/
def laterFirst : List (SystemDescriptor Unit) :=
  [⟨2#128, [], (), [1#128]⟩, ⟨1#128, [], (), []⟩]

/-- Each system sets one resource to its own number. -/
def setResource (id : TypeId) : List (BufferAction Nat) :=
  [.push (.Resource (.Insert 9#128 id.toNat))]

/-- The first system applies what it has pushed, and pushes again. -/
def applyBetween (id : TypeId) : List (BufferAction Nat) :=
  if id = 1#128 then
    [.ensureCommands (.Resource (.Insert 9#128 1)), .applyCommands [(0, .World ⟨4⟩)],
      .push (.World ⟨8⟩)]
  else setResource id

theorem orderedAfter_laterFirst : OrderedAfter laterFirst 1#128 2#128 :=
  Relation.TransGen.single
    ⟨⟨⟨1#128, [], (), []⟩, by simp [laterFirst], rfl⟩,
      ⟨2#128, [], (), [1#128]⟩, by simp [laterFirst], rfl, by simp⟩

theorem inOrder_iff_laterFirst :
    (∀ stage order, (SystemStageBuilder.withSystems true laterFirst).build = some stage →
      order.Perm stage.systems → AfterFirst stage.systems order →
      let batches := runBuffers applyBetween [] order
      let pushed := rounds [] (actionsOf applyBetween order)
      ((∀ applied, List.Forall₂ (SortCommands Prod.snd) batches applied →
          InOrder 1#128 2#128 applied.flatten) ↔
        ∀ round ∈ pushed, NoSharedKind 1#128 2#128 round) ∧
      (InOrder 1#128 2#128 (batches.map (sortCommands Prod.snd)).flatten ↔
        ∀ round ∈ pushed, BuffersInOrder 1#128 2#128 round)) ∧
    ∀ stage, (SystemStageBuilder.withSystems false laterFirst).build = some stage →
      InOrder 1#128 2#128
        ((runBuffers applyBetween [] stage.systems).map (sortCommands Prod.snd)).flatten :=
  inOrder_iff applyBetween [] orderedAfter_laterFirst

/-- The stage runs the first system first but applies the commands of the second
first; without `parallel` the later system wins. -/
theorem parallel_reverses_laterFirst :
    ∃ (parallel sequential : SystemStage Unit) (w : World Nat),
      (SystemStageBuilder.withSystems true laterFirst).build = some parallel ∧
      (SystemStageBuilder.withSystems false laterFirst).build = some sequential ∧
      parallel.systems.map ErasedSystem.id = [1#128, 2#128] ∧
      World.new 1 = some w ∧ OrderedAfter laterFirst 1#128 2#128 ∧
      ¬InOrder 1#128 2#128
        ((runBuffers setResource [] parallel.systems).map (sortCommands Prod.snd)).flatten ∧
      (applyBatch (((runBuffers setResource [] parallel.systems).map
          (sortCommands Prod.snd)).flatten.map Prod.snd) w).map
        (fun outcome => outcome.2.resources[9#128]?) = some (some 1) ∧
      (applyBatch (((runBuffers setResource [] sequential.systems).map
          (sortCommands Prod.snd)).flatten.map Prod.snd) w).map
        (fun outcome => outcome.2.resources[9#128]?) = some (some 2) := by
  obtain ⟨parallel, sequential, w, buildParallel, buildSequential, order, created, batch,
      first, last⟩ :
      ∃ (parallel sequential : SystemStage Unit) (w : World Nat),
        (SystemStageBuilder.withSystems true laterFirst).build = some parallel ∧
        (SystemStageBuilder.withSystems false laterFirst).build = some sequential ∧
        parallel.systems.map ErasedSystem.id = [1#128, 2#128] ∧
        World.new 1 = some w ∧
        ((runBuffers setResource [] parallel.systems).map (sortCommands Prod.snd)).flatten =
          [(some 2#128, .Resource (.Insert 9#128 2)),
            (some 1#128, .Resource (.Insert 9#128 1))] ∧
        (applyBatch (((runBuffers setResource [] parallel.systems).map
            (sortCommands Prod.snd)).flatten.map Prod.snd) w).map
          (fun outcome => outcome.2.resources[9#128]?) = some (some 1) ∧
        (applyBatch (((runBuffers setResource [] sequential.systems).map
            (sortCommands Prod.snd)).flatten.map Prod.snd) w).map
          (fun outcome => outcome.2.resources[9#128]?) = some (some 2) :=
    ⟨_, _, _, rfl, rfl, rfl, rfl, rfl, rfl, rfl⟩
  refine ⟨parallel, sequential, w, buildParallel, buildSequential, order, created,
    orderedAfter_laterFirst, ?_, first, last⟩
  rw [batch]
  intro inOrder
  exact List.rel_of_pairwise_cons inOrder (List.mem_singleton_self _) rfl ⟨rfl, rfl⟩

end Example

end Cecs

import Cecs.Calls.Accounted
import Cecs.Scheduler.Parents
import Cecs.Systems.Confined

/-! # Orders that a schedule allows

The jobs of a stage may run in any order in which each system comes after its parents.
Systems that conflict are parent and child, and all others keep to parts of the world
that are apart, so every such order leaves the same world. -/

namespace Cecs

open Foundation

namespace Schedule

variable {Body : Type} {systems : List (ErasedSystem Body)}

/-- Every id in the stage has a position in the map. -/
theorem indices_isSome {id : TypeId} (member : id ∈ systems.map ErasedSystem.id) :
    ∃ j, indices systems id = some j := by
  have along : ∀ (entries : List (ErasedSystem Body × Nat)) (map : TypeId → Option Nat),
      ((map id).isSome = true ∨ ∃ entry ∈ entries, entry.1.id = id) →
      (entries.foldl (fun (map : TypeId → Option Nat) entry =>
        Function.update map entry.1.id (some entry.2)) map id).isSome = true := by
    intro entries
    induction entries with
    | nil => simp
    | cons entry entries induction =>
        intro map named
        apply induction
        simp only [Function.update_apply]
        rcases named with before | ⟨other, member, isId⟩
        · left
          split
          · rfl
          · exact before
        · rcases List.mem_cons.mp member with rfl | inRest
          · left
            rw [if_pos isId.symm]
            rfl
          · exact Or.inr ⟨other, inRest, isId⟩
  rcases List.mem_map.mp member with ⟨sys, inSystems, isId⟩
  rcases List.mem_iff_getElem?.mp inSystems with ⟨j, found⟩
  exact Option.isSome_iff_exists.mp
    (along _ _ (Or.inr ⟨(sys, j), List.mem_zipIdx_iff_getElem?.mpr found, isId⟩))

/-- The map finds a system by its id. -/
theorem indices_of_getElem? (unique : (systems.map ErasedSystem.id).Nodup) {j : Nat}
    {sys : ErasedSystem Body} (found : systems[j]? = some sys) :
    indices systems sys.id = some j := by
  rcases indices_isSome (List.mem_map_of_mem (List.mem_of_getElem? found)) with ⟨i, named⟩
  rcases indices_eq_some named with ⟨other, foundOther, sameId⟩
  have bound : i < (systems.map ErasedSystem.id).length := by
    rw [List.length_map]
    exact (List.getElem?_eq_some_iff.mp foundOther).1
  have same : (systems.map ErasedSystem.id)[i]? = (systems.map ErasedSystem.id)[j]? := by
    rw [List.getElem?_map, List.getElem?_map, foundOther, found]
    exact congrArg some sameId
  rw [named, (List.getElem?_inj bound unique).mp same]

/-- What is pushed to the history later is not compared with. -/
theorem parentsOf_append {indices : TypeId → Option Nat} {history : List QueryProperties} {i : Nat}
    (bound : i ≤ history.length) (later : List QueryProperties) (props : QueryProperties)
    (sys : ErasedSystem Body) :
    parentsOf indices (history ++ later) props sys i = parentsOf indices history props sys i := by
  rw [parentsOf, parentsOf, List.zipIdx_append, List.take_append_of_le_length]
  rw [List.length_zipIdx]
  exact bound

theorem mem_parentsOf_of_conflict {indices : TypeId → Option Nat}
    {history : List QueryProperties} {i j : Nat} {props other : QueryProperties}
    {sys : ErasedSystem Body} (before : j < i) (found : history[j]? = some other)
    (conflict : props.isDisjoint other = false) : j ∈ parentsOf indices history props sys i := by
  apply List.mem_append_left
  refine List.mem_map.mpr ⟨(other, j), List.mem_filter.mpr ⟨?_, by simp [conflict]⟩, rfl⟩
  have listed : history.zipIdx[j]? = some (other, j) := by simp [List.getElem?_zipIdx, found]
  apply List.mem_of_getElem? (i := j)
  rw [List.getElem?_take_of_lt before, listed]

variable [CommandSentinelTypeId]

/-- The loop has gone over `systems`. -/
structure Recorded (indices : TypeId → Option Nat) (systems : List (ErasedSystem Body))
    (history : List QueryProperties) (schedule : Schedule) : Prop where
  length : schedule.parents.length = systems.length
  declared : List.Forall₂ (fun sys props => QueryProperties.fromSystem sys.descriptor = some props)
    systems history
  parents : ∀ i sys props, systems[i]? = some sys → history[i]? = some props →
    schedule.parents[i]? = some (parentsOf indices history props sys i)

section Loop

variable {indices : TypeId → Option Nat} {history : List QueryProperties} {schedule : Schedule}

theorem Recorded.extend (recorded : Recorded indices systems history schedule)
    {sys : ErasedSystem Body} {final : List QueryProperties} {result : Schedule}
    (extended : Schedule.extend indices (history, schedule) (sys, systems.length) =
      some (final, result)) : Recorded indices (systems ++ [sys]) final result := by
  simp only [Schedule.extend, Option.bind_eq_bind, Option.bind_eq_some_iff, Option.pure_def,
    Option.some.injEq, Prod.mk.injEq] at extended
  rcases extended with ⟨props, collected, rfl, rfl⟩
  have sameLength := recorded.declared.length_eq
  refine ⟨by simp [recorded.length], ?_, ?_⟩
  · exact List.rel_append recorded.declared (.cons collected .nil)
  · intro i other otherProps found foundProps
    change (schedule.parents ++ [_])[i]? = _
    rcases Nat.lt_trichotomy i systems.length with inside | rfl | outside
    · rw [List.getElem?_append_left inside] at found
      rw [List.getElem?_append_left (by omega)] at foundProps
      rw [parentsOf_append (by omega), List.getElem?_append_left (by rwa [recorded.length])]
      exact recorded.parents i other otherProps found foundProps
    · rw [List.getElem?_concat_length] at found
      cases found
      rw [sameLength, List.getElem?_concat_length] at foundProps
      cases foundProps
      rw [parentsOf_append (by omega), ← recorded.length, List.getElem?_concat_length]
    · rw [List.getElem?_eq_none (by rw [List.length_append, List.length_singleton]; omega)]
        at found
      cases found

theorem Recorded.extends {rest : List (ErasedSystem Body)}
    (recorded : Recorded indices systems history schedule) {final : List QueryProperties}
    {result : Schedule}
    (ran : (rest.zipIdx systems.length).foldlM (Schedule.extend indices) (history, schedule) =
      some (final, result)) : Recorded indices (systems ++ rest) final result := by
  induction rest generalizing systems history schedule with
  | nil =>
      cases ran
      rw [List.append_nil]
      exact recorded
  | cons sys rest induction =>
      rw [List.zipIdx_cons, List.foldlM_cons, Option.bind_eq_bind, Option.bind_eq_some_iff] at ran
      rcases ran with ⟨⟨middle, next⟩, extended, ran⟩
      have recordedNext := recorded.extend extended
      rw [List.append_cons]
      apply induction recordedNext
      rw [List.length_append, List.length_singleton]
      exact ran

end Loop

theorem fromStage_recorded {stage : SystemStage Body} {schedule : Schedule}
    (made : fromStage stage = some schedule) :
    ∃ history, Recorded (indices stage.systems) stage.systems history schedule := by
  rcases stage with ⟨systems⟩
  cases systems with
  | nil =>
      cases made
      refine ⟨[], rfl, .nil, ?_⟩
      intro i sys props found
      cases found
  | cons first rest =>
      simp only [fromStage, Option.bind_eq_bind, Option.bind_eq_some_iff, Option.guard_eq_some',
        Option.pure_def, Option.some.injEq] at made
      rcases made with ⟨props, collected, _, bare, ⟨final, result⟩, ran, rfl⟩
      have start : Recorded (indices (first :: rest)) [first] [props] ⟨[[]]⟩ := by
        refine ⟨rfl, .cons collected .nil, ?_⟩
        intro i sys other found foundProps
        rw [List.getElem?_singleton] at found foundProps ⊢
        split at found
        · rename_i isFirst
          cases found
          rw [if_pos isFirst, Option.some.injEq] at foundProps
          rw [if_pos isFirst, isFirst, parentsOf, bare]
          rfl
        · cases found
      exact ⟨final, start.extends ran⟩

/-- Each system runs once, and its parents have run before. -/
structure Respects (schedule : Schedule) (order : List Nat) : Prop where
  once : order.Perm (List.range schedule.parents.length)
  parentsFirst : ∀ (i : Nat) (parents : List Nat), schedule.parents[i]? = some parents →
    ∀ j ∈ parents, order.idxOf j < order.idxOf i

theorem Recorded.props_of_getElem? {indices : TypeId → Option Nat}
    {history : List QueryProperties} {schedule : Schedule}
    (recorded : Recorded indices systems history schedule) {i : Nat} {sys : ErasedSystem Body}
    (found : systems[i]? = some sys) :
    ∃ props, history[i]? = some props ∧
      QueryProperties.fromSystem sys.descriptor = some props := by
  rcases List.getElem?_eq_some_iff.mp found with ⟨inside, rfl⟩
  have also : i < history.length := recorded.declared.length_eq ▸ inside
  exact ⟨history[i], List.getElem?_eq_getElem also, recorded.declared.get inside also⟩

/-- A system runs after those that it names. -/
theorem Respects.after {schedule : Schedule} {history : List QueryProperties} {order : List Nat}
    (respects : schedule.Respects order) (unique : (systems.map ErasedSystem.id).Nodup)
    (recorded : Recorded (indices systems) systems history schedule) {i j : Nat}
    {sys named : ErasedSystem Body} (found : systems[i]? = some sys)
    (foundNamed : systems[j]? = some named) (names : named.id ∈ sys.descriptor.after) :
    order.idxOf j < order.idxOf i := by
  rcases recorded.props_of_getElem? found with ⟨props, atHistory, _⟩
  apply respects.parentsFirst i _ (recorded.parents i sys props found atHistory)
  apply List.mem_append_right
  exact List.mem_filterMap.mpr ⟨named.id, names, indices_of_getElem? unique foundNamed⟩

omit [CommandSentinelTypeId] in
theorem filterMap_range {α : Type} (list : List α) :
    (List.range list.length).filterMap (fun i => list[i]?) = list := by
  induction list using List.reverseRecOn with
  | nil => rfl
  | append_singleton rest last induction =>
      have kept : (List.range rest.length).filterMap (fun i => (rest ++ [last])[i]?) =
          (List.range rest.length).filterMap (fun i => rest[i]?) := by
        apply List.filterMap_congr
        intro i inside
        rw [List.getElem?_append_left (List.mem_range.mp inside)]
      rw [List.length_append, List.length_singleton, List.range_succ, List.filterMap_append, kept,
        induction]
      simp

/-- Such an order runs all systems, each after the listed ones that it names. -/
theorem Respects.afterFirst {stage : SystemStage Body} {schedule : Schedule} {order : List Nat}
    (respects : schedule.Respects order) (unique : (stage.systems.map ErasedSystem.id).Nodup)
    (made : fromStage stage = some schedule) :
    let ran := order.filterMap fun i => stage.systems[i]?
    ran.Perm stage.systems ∧ AfterFirst stage.systems ran := by
  rcases fromStage_recorded made with ⟨history, recorded⟩
  have once := respects.once
  rw [recorded.length] at once
  constructor
  · exact (once.filterMap _).trans (List.Perm.of_eq (filterMap_range stage.systems))
  · intro front sys back parts id names listed
    rcases List.filterMap_eq_append_iff.mp parts with ⟨early, late, rfl, rfl, tail⟩
    rcases List.filterMap_eq_cons_iff.mp tail with ⟨skipped, i, rest, rfl, none, found, _⟩
    rcases List.mem_map.mp listed with ⟨named, member, rfl⟩
    rcases List.mem_iff_getElem?.mp member with ⟨j, foundNamed⟩
    have before := respects.after unique recorded found foundNamed names
    rw [List.mem_map]
    refine ⟨named, List.mem_filterMap.mpr ⟨j, ?_, foundNamed⟩, rfl⟩
    by_contra absent
    have notSkipped : j ∉ early ++ skipped := by
      intro inFront
      rcases List.mem_append.mp inFront with inEarly | inSkipped
      · exact absent inEarly
      · rw [none j inSkipped] at foundNamed
        cases foundNamed
    rw [← List.append_assoc, List.idxOf_append_of_notMem notSkipped] at before
    have atMost : (early ++ skipped ++ i :: rest).idxOf i ≤ (early ++ skipped).length := by
      by_cases inFront : i ∈ early ++ skipped
      · rw [List.idxOf_append_of_mem inFront]
        exact List.idxOf_le_length
      · rw [List.idxOf_append_of_notMem inFront, List.idxOf_cons_self]
        exact Nat.le_refl _
    omega

end Schedule

section Runs

variable {Value : Type} {w after : World Value}

/-- In a run that loses no slot the index is sound. -/
theorem Reachable.indexed [UnitTypeId] [BuiltinValues Value]
    (reachable : Reachable (fun w call => call.Accounts w) w) : w.Indexed := by
  rcases reachable.queueAwaits.accounted.index.tracked with ⟨slots, tracks⟩
  exact ⟨slots, tracks.toSound⟩

/-- The first positions in order are the first systems as they are sorted. -/
theorem SystemStage.runInOrder_range (stage : SystemStage (Program Value)) {k : Nat}
    (bound : k ≤ stage.systems.length) :
    stage.runInOrder (List.range k) =
      Action.sequence ErasedSystem.execute (stage.systems.take k) := by
  induction k with
  | zero => rfl
  | succ k induction =>
      have found : stage.systems[k]? = some stage.systems[k] := List.getElem?_eq_getElem bound
      have last : Action.sequence (fun i w => do (← stage.systems[i]?).execute w) [k] =
          Action.sequence ErasedSystem.execute [stage.systems[k]] := by
        simp only [Action.sequence, found]
        rfl
      rw [List.range_succ, List.take_add_one, found, Option.toList_some, runInOrder,
        sequence_append, sequence_append, last]
      exact congrArg (Action.andThen · _) (induction (Nat.le_of_succ_le bound))

variable [CommandSentinelTypeId]

/-- The index is sound at first, and whenever a system with `WorldAccess` returns in the
sorted run. -/
structure SystemStage.Intact (stage : SystemStage (Program Value)) (w : World Value) : Prop where
  start : w.Indexed
  returned : ∀ front sys back after, stage.systems = front ++ sys :: back →
    sys.descriptor.exclusive = true →
    Action.sequence ErasedSystem.execute (front ++ [sys]) w = some ((), after) → after.Indexed

namespace SystemStage

variable {stage : SystemStage (Program Value)} {schedule : Schedule} {order : List Nat}
  {history : List QueryProperties}

/-- The other systems leave the index sound. -/
theorem Intact.indexed (intact : stage.Intact w)
    (collected : ∀ sys ∈ stage.systems, ∃ props,
      QueryProperties.fromSystem sys.descriptor = some props)
    {front back : List (ErasedSystem (Program Value))} (split : stage.systems = front ++ back)
    (ran : Action.sequence ErasedSystem.execute front w = some ((), after)) : after.Indexed := by
  induction front using List.reverseRecOn generalizing back after with
  | nil =>
      cases ran
      exact intact.start
  | append_singleton front sys induction =>
      have whole : stage.systems = front ++ sys :: back := by
        rw [split, List.append_assoc, List.singleton_append]
      by_cases alone : sys.descriptor.exclusive = true
      · exact intact.returned front sys back after whole alone ran
      · rw [sequence_append] at ran
        rcases Action.andThen_eq_some.mp ran with ⟨_, middle, begun, ended⟩
        rcases Action.andThen_eq_some.mp ended with ⟨_, last, executed, finished⟩
        cases finished
        rcases collected sys (whole ▸ List.mem_append_right front List.mem_cons_self) with
          ⟨props, declared⟩
        have shared : props.exclusive = false := by
          rw [exclusive_of_fromSystem declared, Bool.eq_false_iff]
          exact alone
        exact (sys.execute_confined declared shared).keeps (induction whole begun) executed

/-- Systems that do not conflict can be swapped. -/
theorem swaps (recorded : Schedule.Recorded (Schedule.indices stage.systems) stage.systems history
      schedule) (respects : schedule.Respects order) {i j : Nat} (before : i < j)
    (inside : j < stage.systems.length) :
    order.idxOf i < order.idxOf j ∨
      Swaps World.Indexed (fun w : World Value => do (← stage.systems[j]?).execute w)
        (fun w => do (← stage.systems[i]?).execute w) := by
  have present : ∀ k < stage.systems.length, ∃ sys, stage.systems[k]? = some sys :=
    fun k bound => ⟨_, List.getElem?_eq_getElem bound⟩
  rcases present j inside with ⟨sys, found⟩
  rcases present i (before.trans inside) with ⟨other, foundEarlier⟩
  rcases recorded.props_of_getElem? found with ⟨props, atHistory, collected⟩
  rcases recorded.props_of_getElem? foundEarlier with ⟨earlier, atEarlier, collectedEarlier⟩
  cases disjoint : props.isDisjoint earlier with
  | false =>
      left
      apply respects.parentsFirst j _ (recorded.parents j sys props found atHistory)
      exact Schedule.mem_parentsOf_of_conflict before atEarlier disjoint
  | true =>
      right
      have shared : props.exclusive = false ∧ earlier.exclusive = false := by
        simp only [QueryProperties.isDisjoint, Bool.and_eq_true, Bool.not_eq_true'] at disjoint
        exact disjoint.1.1.1.1.1.1
      have confined := sys.execute_confined collected shared.1
      have confinedEarlier := other.execute_confined collectedEarlier shared.2
      have apart := QueryProperties.apart_of_isDisjoint disjoint
      simp only [found, foundEarlier]
      exact ⟨confined.keeps, confined.commutes apart confinedEarlier⟩

/-- Every order that the schedule allows leaves the world that the sorted run leaves. -/
theorem runInOrder_eq_runSorted
    (recorded : Schedule.Recorded (Schedule.indices stage.systems) stage.systems history schedule)
    (respects : schedule.Respects order) (intact : stage.Intact w) :
    stage.runInOrder order w = stage.runSorted w := by
  have length : schedule.parents.length = stage.systems.length := recorded.length
  have once := respects.once
  rw [length] at once
  have collected : ∀ sys ∈ stage.systems, ∃ props,
      QueryProperties.fromSystem sys.descriptor = some props := by
    intro sys member
    rcases List.mem_iff_getElem?.mp member with ⟨i, found⟩
    rcases recorded.props_of_getElem? found with ⟨props, _, declared⟩
    exact ⟨props, declared⟩
  have sorted := stage.runInOrder_range (Nat.le_refl _)
  rw [List.take_length] at sorted
  have ordered : (List.range stage.systems.length).Pairwise fun i j =>
      order.idxOf i < order.idxOf j ∨
        Swaps World.Indexed (fun w : World Value => do (← stage.systems[j]?).execute w)
          (fun w => do (← stage.systems[i]?).execute w) := by
    refine List.pairwise_lt_range.imp_of_mem ?_
    intro i j _ member before
    exact swaps recorded respects before (List.mem_range.mp member)
  rw [runSorted, ← sorted]
  apply sequence_reorder once List.nodup_range ordered
  intro front back after split ran
  rw [List.range_eq_range', List.range'_eq_append_iff] at split
  rcases split with ⟨k, bound, rfl, _⟩
  have prefixed := stage.runInOrder_range bound
  apply intact.indexed collected (List.take_append_drop k stage.systems).symm
  rw [← prefixed, List.range_eq_range']
  exact ran

end SystemStage

/-- In every order in which each system comes after its parents, it comes after the systems
that it names, and the world is left as the sorted run leaves it. -/
theorem Schedule.fromStage_anyOrder {builder : SystemStageBuilder (Program Value)}
    {stage : SystemStage (Program Value)} {schedule : Schedule} {order : List Nat}
    (built : builder.build = some stage) (made : Schedule.fromStage stage = some schedule)
    (respects : schedule.Respects order) :
    (∀ i j sys named, stage.systems[i]? = some sys → stage.systems[j]? = some named →
      named.id ∈ sys.descriptor.after → order.idxOf j < order.idxOf i) ∧
    ∀ w : World Value, stage.Intact w → stage.runInOrder order w = stage.runSorted w := by
  rw [SystemStageBuilder.build, Option.bind_eq_bind, Option.bind_eq_some_iff] at built
  rcases built with ⟨sorted, returned, same⟩
  cases same
  rcases sortedSystems_spec returned with ⟨uniqueAll, perm, _⟩
  have unique : (sorted.map ErasedSystem.id).Nodup :=
    (perm.map ErasedSystem.id).nodup_iff.mpr uniqueAll
  rcases Schedule.fromStage_recorded made with ⟨history, recorded⟩
  constructor
  · intro i j sys named found foundNamed names
    exact respects.after unique recorded found foundNamed names
  · intro w intact
    exact SystemStage.runInOrder_eq_runSorted recorded respects intact

end Runs

section Example

open Sample

/-- A system that spawns, one that sets a resource, and one that reads it after both. -/
def threeSystems : SystemStageBuilder (Program Nat) := ⟨[
  ⟨0, { id := 1#128, params := [.commands], after := []
        factory := .step (.pushCommand (.Entity ⟨.Insert, []⟩)) fun _ =>
          .step .commandId fun _ => .finish }⟩,
  ⟨1, { id := 2#128, params := [.resMut 7#128], after := []
        factory := .step (.setResource 7#128 5) fun _ => .finish }⟩,
  ⟨2, { id := 3#128, params := [.res 7#128, .query ⟨.ref 9#128, .unit⟩], after := [1#128]
        factory := .step (.resource 7#128) fun _ => .finish }⟩]⟩

theorem Schedule.fromStage_anyOrder_sample :
    threeSystems.build = some ⟨threeSystems.systems⟩ ∧
      Schedule.fromStage ⟨threeSystems.systems⟩ = some ⟨[[], [], [1, 0]]⟩ ∧
      ∃ w after : World Nat,
        SystemStage.runSorted ⟨threeSystems.systems⟩ w = some ((), after) ∧
        SystemStage.runInOrder ⟨threeSystems.systems⟩ [1, 0, 2] w = some ((), after) := by
  have built : threeSystems.build = some ⟨threeSystems.systems⟩ := rfl
  have made : Schedule.fromStage ⟨threeSystems.systems⟩ = some ⟨[[], [], [1, 0]]⟩ := rfl
  have respects : Schedule.Respects ⟨[[], [], [1, 0]]⟩ [1, 0, 2] := by
    refine ⟨by decide, ?_⟩
    intro i parents found j member
    rcases i with _ | _ | _ | i
    · cases found
      cases member
    · cases found
      cases member
    · cases found
      rcases List.mem_pair.mp member with rfl | rfl <;> decide
    · cases found
  obtain ⟨start, resized, w, after, created, resize, insert, ran⟩ :
      ∃ start resized w after : World Nat, World.new 4 = some start ∧
        Call.run start (.resizeCommands 3) = some resized ∧
        Call.run resized (.insertResource 7#128 1) = some w ∧
        SystemStage.runSorted ⟨threeSystems.systems⟩ w = some ((), after) :=
    ⟨_, _, _, _, rfl, rfl, rfl, rfl⟩
  have reachable : Reachable (fun w call => call.Accounts w) w :=
    .call (.call (.new created) (by trivial) (by trivial) resize) (by trivial) (by trivial) insert
  have intact : SystemStage.Intact ⟨threeSystems.systems⟩ w := by
    refine ⟨reachable.indexed, ?_⟩
    intro front sys back last split alone
    have shared : ∀ sys ∈ threeSystems.systems, sys.descriptor.exclusive = false := by decide
    have member : sys ∈ threeSystems.systems :=
      (show threeSystems.systems = _ from split) ▸
        List.mem_append_right front List.mem_cons_self
    rw [shared sys member] at alone
    cases alone
  have same := (Schedule.fromStage_anyOrder built made respects).2 w intact
  exact ⟨built, made, w, after, ran, same.trans ran⟩

end Example

end Cecs

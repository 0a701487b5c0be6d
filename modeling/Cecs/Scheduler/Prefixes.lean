import Cecs.Scheduler.Orders

/-! # Orders under way

Some systems of a stage have run, each after its parents. The others can follow, so what
has been done is the beginning of an order that the schedule allows. -/

namespace Cecs

open Foundation

namespace Schedule

variable {schedule : Schedule} {order : List Nat} {i : Nat}

/-- Some systems have run, each once and after its parents. -/
structure Begins (schedule : Schedule) (order : List Nat) : Prop where
  unique : order.Nodup
  inRange : ∀ i ∈ order, i < schedule.parents.length
  parentsFirst : ∀ front i back parents, order = front ++ i :: back →
    schedule.parents[i]? = some parents → ∀ j ∈ parents, j ∈ front

theorem begins_nil (schedule : Schedule) : schedule.Begins [] where
  unique := List.nodup_nil
  inRange := List.forall_mem_nil _
  parentsFirst front i back _ split := by simp at split

theorem Begins.concat (begins : schedule.Begins order) (absent : i ∉ order)
    (inRange : i < schedule.parents.length)
    (parents : ∀ parents, schedule.parents[i]? = some parents → ∀ j ∈ parents, j ∈ order) :
    schedule.Begins (order ++ [i]) where
  unique := by
    rw [← List.concat_eq_append, List.nodup_concat]
    exact ⟨absent, begins.unique⟩
  inRange := by
    intro j member
    rcases List.mem_append.mp member with before | last
    · exact begins.inRange j before
    · rw [List.mem_singleton.mp last]
      exact inRange
  parentsFirst := by
    intro front j back others split found k member
    rcases List.eq_nil_or_concat back with rfl | ⟨middle, last, rfl⟩
    · rcases List.append_inj' split rfl with ⟨rfl, same⟩
      cases same
      exact parents others found k member
    · rw [List.concat_eq_append, ← List.cons_append, ← List.append_assoc] at split
      rcases List.append_inj' split rfl with ⟨same, _⟩
      exact begins.parentsFirst front j middle others same found k member

theorem Begins.front {front back : List Nat} (begins : schedule.Begins (front ++ back)) :
    schedule.Begins front where
  unique := (List.nodup_append.mp begins.unique).1
  inRange i member := begins.inRange i (List.mem_append_left _ member)
  parentsFirst first i middle parents split found := by
    apply begins.parentsFirst first i (middle ++ back) parents _ found
    rw [split, List.append_assoc, List.cons_append]

/-- All systems have run. -/
theorem Begins.respects (begins : schedule.Begins order)
    (all : ∀ i < schedule.parents.length, i ∈ order) : schedule.Respects order where
  once := by
    rw [List.perm_ext_iff_of_nodup begins.unique List.nodup_range]
    intro i
    rw [List.mem_range]
    exact ⟨begins.inRange i, all i⟩
  parentsFirst := by
    intro i parents found j member
    rcases List.append_of_mem (all i (List.getElem?_eq_some_iff.mp found).1) with
      ⟨front, back, rfl⟩
    have before := begins.parentsFirst front i back parents rfl found j member
    have notBefore : i ∉ front := fun inFront =>
      (List.nodup_append.mp begins.unique).2.2 i inFront i List.mem_cons_self rfl
    rw [List.idxOf_append_of_mem before, List.idxOf_append_of_notMem notBefore]
    exact Nat.lt_add_right _ (List.idxOf_lt_length_iff.mpr before)

variable {Body : Type} {systems : List (ErasedSystem Body)}

/-- The systems that have not run can follow in the order in which they are sorted. -/
theorem Begins.extend (begins : schedule.Begins order) (forward : schedule.Forward systems) :
    ∃ rest, schedule.Respects (order ++ rest) := by
  have upTo : ∀ k ≤ schedule.parents.length,
      ∃ rest, schedule.Begins (order ++ rest) ∧ ∀ i < k, i ∈ order ++ rest := by
    intro k bound
    induction k with
    | zero => exact ⟨[], by rwa [List.append_nil], fun i absurd => by omega⟩
    | succ k induction =>
        rcases induction (Nat.le_of_succ_le bound) with ⟨rest, longer, all⟩
        by_cases member : k ∈ order ++ rest
        · refine ⟨rest, longer, fun i below => ?_⟩
          rcases Nat.lt_succ_iff_lt_or_eq.mp below with lower | rfl
          · exact all i lower
          · exact member
        · refine ⟨rest ++ [k], ?_, fun i below => ?_⟩
          · rw [← List.append_assoc]
            apply longer.concat member bound
            intro parents found j isParent
            exact all j (forward.forward k parents found j isParent)
          · rw [← List.append_assoc]
            rcases Nat.lt_succ_iff_lt_or_eq.mp below with lower | rfl
            · exact List.mem_append_left _ (all i lower)
            · exact List.mem_append_right _ List.mem_cons_self
  rcases upTo _ (Nat.le_refl _) with ⟨rest, longer, all⟩
  exact ⟨rest, longer.respects all⟩

/-- The schedule of a built stage has forward parents. -/
theorem fromStage_forward [CommandSentinelTypeId] {builder : SystemStageBuilder Body}
    {stage : SystemStage Body} (built : builder.build = some stage)
    (made : fromStage stage = some schedule) : schedule.Forward stage.systems := by
  rw [SystemStageBuilder.build, Option.bind_eq_bind, Option.bind_eq_some_iff] at built
  rcases built with ⟨sorted, returned, same⟩
  cases same
  rcases sortedSystems_spec returned with ⟨unique, perm, ordered⟩
  rcases fromStage_recorded made with ⟨history, recorded⟩
  refine ⟨recorded.length, ?_⟩
  intro i parents found j member
  have inside : i < sorted.length := recorded.length ▸ (List.getElem?_eq_some_iff.mp found).1
  have atSorted : sorted[i]? = some sorted[i] := List.getElem?_eq_getElem inside
  rcases recorded.props_of_getElem? atSorted with ⟨props, atHistory, _⟩
  rw [recorded.parents i _ props atSorted atHistory, Option.some.injEq] at found
  subst found
  have split : sorted = sorted.take i ++ sorted[i] :: sorted.drop (i + 1) := by
    rw [List.getElem_cons_drop, List.take_append_drop]
  have before := parentsOf_lt ordered perm unique split history props (j := j)
  rw [List.length_take_of_le (Nat.le_of_lt inside)] at before
  exact before member

end Schedule

section Runs

variable {Value : Type} {w after : World Value} {stage : SystemStage (Program Value)}
  {schedule : Schedule} {order : List Nat}

theorem SystemStage.runInOrder_concat (stage : SystemStage (Program Value)) (order : List Nat)
    (i : Nat) :
    stage.runInOrder (order ++ [i]) = (stage.runInOrder order).andThen fun _ w =>
      (stage.systems[i]?).bind fun sys => sys.execute w := by
  rw [runInOrder, runInOrder, sequence_append]
  congr 1
  funext _ w
  simp only [Action.sequence, Action.andThen, Option.bind_eq_bind]
  cases stage.systems[i]? with
  | none => rfl
  | some sys =>
      simp only [Option.bind_some]
      cases sys.execute w <;> rfl

variable [CommandSentinelTypeId] {history : List QueryProperties} {i j : Nat}

/-- A system with `WorldAccess` is the parent of all later ones, and has all earlier ones as
parents. -/
theorem Schedule.Recorded.parent_of_exclusive
    (recorded : Schedule.Recorded (Schedule.indices stage.systems) stage.systems history schedule)
    {sys other : ErasedSystem (Program Value)} (found : stage.systems[i]? = some sys)
    (foundOther : stage.systems[j]? = some other) (before : i < j)
    (alone : sys.descriptor.exclusive = true ∨ other.descriptor.exclusive = true) :
    ∃ parents, schedule.parents[j]? = some parents ∧ i ∈ parents := by
  rcases recorded.props_of_getElem? found with ⟨props, atHistory, collected⟩
  rcases recorded.props_of_getElem? foundOther with ⟨props', atHistory', collected'⟩
  refine ⟨_, recorded.parents j other props' foundOther atHistory', ?_⟩
  apply Schedule.mem_parentsOf_of_conflict before atHistory
  rw [← exclusive_of_fromSystem collected, ← exclusive_of_fromSystem collected'] at alone
  rcases alone with alone | alone <;> simp [QueryProperties.isDisjoint, alone]

namespace Schedule.Begins

/-- When a system with `WorldAccess` has run, exactly the earlier ones have run before it. -/
theorem perm_of_exclusive (begins : schedule.Begins (order ++ [i]))
    (recorded : Schedule.Recorded (Schedule.indices stage.systems) stage.systems history schedule)
    {sys : ErasedSystem (Program Value)} (found : stage.systems[i]? = some sys)
    (alone : sys.descriptor.exclusive = true) : (order ++ [i]).Perm (List.range (i + 1)) := by
  have absent : i ∉ order := fun inOrder =>
    (List.nodup_append.mp begins.unique).2.2 i inOrder i List.mem_cons_self rfl
  have inside := (List.getElem?_eq_some_iff.mp found).1
  rw [List.perm_ext_iff_of_nodup begins.unique List.nodup_range]
  intro j
  rw [List.mem_range, List.mem_append, List.mem_singleton]
  constructor
  · rintro (member | rfl)
    · by_contra later
      have bound := begins.inRange j (List.mem_append_left _ member)
      rw [recorded.length] at bound
      -- Then the system is a parent of the later one, and has run before it.
      rcases recorded.parent_of_exclusive found (List.getElem?_eq_getElem bound) (by omega)
        (Or.inl alone) with ⟨parents, foundParents, isParent⟩
      rcases List.append_of_mem member with ⟨front, back, rfl⟩
      apply absent
      apply List.mem_append_left
      exact begins.front.parentsFirst front j back parents rfl foundParents i isParent
    · exact Nat.lt_succ_self j
  · intro below
    rcases Nat.lt_succ_iff_lt_or_eq.mp below with before | same
    · left
      have atStage : stage.systems[j]? = some stage.systems[j] :=
        List.getElem?_eq_getElem (by omega)
      rcases recorded.parent_of_exclusive atStage found before (Or.inr alone) with
        ⟨parents, foundParents, isParent⟩
      exact begins.parentsFirst order i [] parents rfl foundParents j isParent
    · exact Or.inr same

/-- Once the first systems as they are sorted have run, in whatever order, they could have
run as they are sorted. -/
theorem runInOrder_range (begins : schedule.Begins order)
    (recorded : Schedule.Recorded (Schedule.indices stage.systems) stage.systems history schedule)
    (forward : schedule.Forward stage.systems) (intact : stage.Intact w) {count : Nat}
    (bound : count ≤ stage.systems.length) (perm : order.Perm (List.range count)) :
    stage.runInOrder order w =
      Action.sequence ErasedSystem.execute (stage.systems.take count) w := by
  rcases begins.extend forward with ⟨rest, respects⟩
  have collected : ∀ sys ∈ stage.systems, ∃ props,
      QueryProperties.fromSystem sys.descriptor = some props := by
    intro sys member
    rcases List.mem_iff_getElem?.mp member with ⟨i, found⟩
    rcases recorded.props_of_getElem? found with ⟨props, _, declared⟩
    exact ⟨props, declared⟩
  have ordered : (List.range count).Pairwise fun i j =>
      order.idxOf i < order.idxOf j ∨
        Swaps World.Indexed (fun w : World Value => do (← stage.systems[j]?).execute w)
          (fun w => do (← stage.systems[i]?).execute w) := by
    refine List.pairwise_lt_range.imp_of_mem ?_
    intro i j member memberOther before
    have inside := Nat.lt_of_lt_of_le (List.mem_range.mp memberOther) bound
    have swaps := SystemStage.swaps recorded respects before inside
    rw [List.idxOf_append_of_mem (perm.mem_iff.mpr member),
      List.idxOf_append_of_mem (perm.mem_iff.mpr memberOther)] at swaps
    exact swaps
  rw [← stage.runInOrder_range bound]
  apply sequence_reorder perm List.nodup_range ordered
  intro front back after split ran
  rw [List.range_eq_range', List.range'_eq_append_iff] at split
  rcases split with ⟨k, below, rfl, _⟩
  have prefixed := stage.runInOrder_range (Nat.le_trans below bound)
  apply intact.indexed collected (List.take_append_drop k stage.systems).symm
  rw [← prefixed, List.range_eq_range']
  exact ran

/-- The index is sound whenever some systems have run and no other has begun. -/
theorem indexed (begins : schedule.Begins order)
    (recorded : Schedule.Recorded (Schedule.indices stage.systems) stage.systems history schedule)
    (forward : schedule.Forward stage.systems) (intact : stage.Intact w)
    (ran : stage.runInOrder order w = some ((), after)) : after.Indexed := by
  induction order using List.reverseRecOn generalizing after with
  | nil =>
      cases ran
      exact intact.start
  | append_singleton order i induction =>
      have inside := begins.inRange i (List.mem_append_right _ List.mem_cons_self)
      rw [recorded.length] at inside
      have found : stage.systems[i]? = some stage.systems[i] := List.getElem?_eq_getElem inside
      by_cases alone : stage.systems[i].descriptor.exclusive = true
      · have perm := begins.perm_of_exclusive recorded found alone
        rw [begins.runInOrder_range recorded forward intact inside perm,
          List.take_succ_eq_append_getElem inside] at ran
        have split : stage.systems =
            stage.systems.take i ++ stage.systems[i] :: stage.systems.drop (i + 1) := by
          rw [List.getElem_cons_drop, List.take_append_drop]
        exact intact.returned _ _ _ after split alone ran
      · rw [SystemStage.runInOrder_concat, found] at ran
        rcases Action.andThen_eq_some.mp ran with ⟨_, middle, before, executed⟩
        rcases recorded.props_of_getElem? found with ⟨props, _, collected⟩
        have shared : props.exclusive = false := by
          rw [exclusive_of_fromSystem collected, Bool.eq_false_iff]
          exact alone
        exact (ErasedSystem.execute_confined _ collected shared).keeps
          (induction begins.front before) executed

/-- When the sorted run returns, the systems that have run could all run. -/
theorem runs (begins : schedule.Begins order)
    (recorded : Schedule.Recorded (Schedule.indices stage.systems) stage.systems history schedule)
    (forward : schedule.Forward stage.systems) (intact : stage.Intact w)
    (sorted : stage.runSorted w = some ((), after)) :
    ∃ middle, stage.runInOrder order w = some ((), middle) := by
  rcases begins.extend forward with ⟨rest, respects⟩
  have whole := SystemStage.runInOrder_eq_runSorted recorded respects intact
  rw [sorted, SystemStage.runInOrder, sequence_append] at whole
  rcases Action.andThen_eq_some.mp whole with ⟨_, middle, before, _⟩
  exact ⟨middle, before⟩

end Schedule.Begins

end Runs

end Cecs

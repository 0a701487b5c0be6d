import Cecs.Systems.References

/-! # Systems that only look

Every parameter says whether it is read only. A system of read-only parameters holds
nothing that it could write with, and leaves the world as it is. -/

namespace Cecs

open Foundation

namespace QueryFragment

def readOnly : QueryFragment → Bool
  | .ref _ => true
  | .refMut _ => false
  | .optionRef _ => true
  | .optionRefMut _ => false
  | .has _ => true
  | .entityId => true
  | .archetypeHash => true
  | .pair first rest => first.readOnly && rest.readOnly

theorem typesMut_of_readOnly {self : QueryFragment} (readOnly : self.readOnly = true)
    (set : Finset TypeId) : self.typesMut set = some set := by
  induction self generalizing set with
  | pair first rest inductionFirst inductionRest =>
      rcases Bool.and_eq_true_iff.mp readOnly with ⟨readFirst, readRest⟩
      rw [typesMut, inductionFirst readFirst]
      exact inductionRest readRest set
  | refMut ty => cases readOnly
  | optionRefMut ty => cases readOnly
  | _ => rfl

theorem borrowed_of_readOnly {self : QueryFragment} (readOnly : self.readOnly = true) :
    self.borrowed .exclusive = ∅ := by
  have none := (typesMut_eq_some_iff.mp (typesMut_of_readOnly readOnly ∅)).1
  rw [Finset.empty_union] at none
  exact none.symm

end QueryFragment

namespace Param

/-- `Commands` and the mutable parameters keep the default. -/
def readOnly : Param → Bool
  | .unit => true
  | .query q => q.fragment.readOnly
  | .querySet queries => queries.all fun query => query.fragment.readOnly
  | .res _ => true
  | .optionRes _ => true
  | .worldAccess => false
  | .pair first rest => first.readOnly && rest.readOnly
  | .resMut _ => false
  | .optionResMut _ => false
  | .commands => false

variable {self leaf : Param}

theorem readOnly_leaves (readOnly : self.readOnly = true) (member : leaf ∈ self.leaves) :
    leaf.readOnly = true := by
  induction self with
  | unit => cases member
  | pair first rest inductionFirst inductionRest =>
      rcases Bool.and_eq_true_iff.mp readOnly with ⟨readFirst, readRest⟩
      rcases List.mem_append.mp member with inFirst | inRest
      · exact inductionFirst readFirst inFirst
      · exact inductionRest readRest inRest
  | _ =>
      rw [List.mem_singleton.mp member]
      exact readOnly

theorem readOnly_fragments (readOnly : self.readOnly = true) {fragment : QueryFragment}
    (member : fragment ∈ self.fragments) : fragment.readOnly = true := by
  induction self with
  | query q =>
      rw [List.mem_singleton.mp member]
      exact readOnly
  | querySet queries =>
      rcases List.mem_map.mp member with ⟨query, listed, rfl⟩
      exact List.all_eq_true.mp readOnly query listed
  | pair first rest inductionFirst inductionRest =>
      rcases Bool.and_eq_true_iff.mp readOnly with ⟨readFirst, readRest⟩
      rcases List.mem_append.mp member with inFirst | inRest
      · exact inductionFirst readFirst inFirst
      · exact inductionRest readRest inRest
  | _ => cases member

theorem borrowed_of_readOnly (readOnly : self.readOnly = true) :
    self.borrowed .exclusive = ∅ := by
  rw [Finset.eq_empty_iff_forall_notMem]
  intro ty borrows
  rcases mem_borrowed.mp borrows with ⟨fragment, member, inFragment⟩
  rw [QueryFragment.borrowed_of_readOnly (readOnly_fragments readOnly member)] at inFragment
  exact Finset.notMem_empty ty inFragment

/-- Each trial gives back the set that it was given. -/
theorem trials_of_readOnly {queries : List Query}
    (readOnly : (queries.all fun query => query.fragment.readOnly) = true) (set : Finset TypeId) :
    queries.mapM (fun query => query.fragment.typesMut set) =
      some (queries.map fun _ => set) := by
  induction queries with
  | nil => rfl
  | cons query queries induction =>
      rw [List.all_cons, Bool.and_eq_true_iff] at readOnly
      rw [List.mapM_cons, QueryFragment.typesMut_of_readOnly readOnly.1, induction readOnly.2]
      rfl

theorem componentsMut_of_readOnly (readOnly : self.readOnly = true) (set : Finset TypeId) :
    self.componentsMut set = some set := by
  induction self generalizing set with
  | query q => exact QueryFragment.typesMut_of_readOnly readOnly set
  | querySet queries =>
      rw [componentsMut, trials_of_readOnly readOnly set]
      have same : (queries.map fun _ => set).foldl (· ∪ ·) set = set := by
        ext ty
        rw [mem_foldl_union]
        simp
      exact congrArg some same
  | pair first rest inductionFirst inductionRest =>
      rcases Bool.and_eq_true_iff.mp readOnly with ⟨readFirst, readRest⟩
      rw [componentsMut, inductionFirst readFirst]
      exact inductionRest readRest set
  | _ => rfl

theorem resourcesMut_of_readOnly [CommandSentinelTypeId] (readOnly : self.readOnly = true)
    (set : Finset TypeId) : self.resourcesMut set = set := by
  induction self generalizing set with
  | pair first rest inductionFirst inductionRest =>
      rcases Bool.and_eq_true_iff.mp readOnly with ⟨readFirst, readRest⟩
      rw [resourcesMut, inductionFirst readFirst, inductionRest readRest]
  | resMut ty => cases readOnly
  | optionResMut ty => cases readOnly
  | commands => cases readOnly
  | _ => rfl

theorem exclusive_of_readOnly (readOnly : self.readOnly = true) : self.exclusive = false := by
  induction self with
  | pair first rest inductionFirst inductionRest =>
      rcases Bool.and_eq_true_iff.mp readOnly with ⟨readFirst, readRest⟩
      rw [exclusive, inductionFirst readFirst, inductionRest readRest]
      rfl
  | worldAccess => cases readOnly
  | _ => rfl

theorem resource_of_readOnly (readOnly : self.readOnly = true) (ty : TypeId) :
    self.resource ≠ some (ty, .exclusive) := by
  cases self <;> simp [Param.readOnly, resource] at readOnly ⊢

end Param

namespace SystemDescriptor

variable {Body : Type} {self : SystemDescriptor Body}

def readOnly (self : SystemDescriptor Body) : Bool := self.params.all Param.readOnly

theorem readOnly_leaves (readOnly : self.readOnly = true) :
    ∀ leaf ∈ self.params.flatMap Param.leaves, leaf.readOnly = true := by
  intro leaf member
  rcases List.mem_flatMap.mp member with ⟨param, listed, inParam⟩
  exact Param.readOnly_leaves (List.all_eq_true.mp readOnly param listed) inParam

theorem componentsMut_of_readOnly (readOnly : self.readOnly = true) :
    self.componentsMut = some ∅ := by
  rcases self with ⟨id, params, factory, after⟩
  simp only [SystemDescriptor.readOnly] at readOnly
  rw [componentsMut]
  induction params with
  | nil => rfl
  | cons param params induction =>
      rw [List.all_cons, Bool.and_eq_true_iff] at readOnly
      rw [List.foldlM_cons, Param.componentsMut_of_readOnly readOnly.1]
      exact induction readOnly.2

theorem resourcesMut_of_readOnly [CommandSentinelTypeId] (readOnly : self.readOnly = true) :
    self.resourcesMut = ∅ := by
  rcases self with ⟨id, params, factory, after⟩
  simp only [SystemDescriptor.readOnly] at readOnly
  rw [resourcesMut]
  induction params with
  | nil => rfl
  | cons param params induction =>
      rw [List.all_cons, Bool.and_eq_true_iff] at readOnly
      rw [List.foldl_cons, Param.resourcesMut_of_readOnly readOnly.1]
      exact induction readOnly.2

theorem exclusive_of_readOnly (readOnly : self.readOnly = true) : self.exclusive = false := by
  rw [exclusive, List.any_eq_false]
  intro param listed
  rw [Param.exclusive_of_readOnly (List.all_eq_true.mp readOnly param listed)]
  exact Bool.false_ne_true

end SystemDescriptor

/-- What a system holds does not let it write, queue a command or reach the world. -/
structure Handles.View (handles : Handles) : Prop where
  readOnly : ∀ leaf ∈ handles.leaves, leaf.readOnly = true
  references : ∀ reference ∈ handles.references, reference.access = .shared

/-- The instructions that no one may make who only looks. -/
def Instruction.mutates {Value : Type} : Instruction Value → Bool
  | .query _ _ _ => false
  | .read _ => false
  | .resource _ => false
  | _ => true

section Run

variable {Value : Type} {handles : Handles} {w after : World Value} {answer : Response Value}

/-- A query that was derived from a read-only one hands out shared references. -/
theorem QueryMethod.shared_of_readOnly (self : QueryMethod) {source derived : Query}
    {derivations : List Derivation} (readOnly : source.fragment.readOnly = true)
    (derives : derivations.foldlM (fun query derivation => derivation.derive query) source =
      some derived) :
    ∀ reference ∈ (self.answer derived w).references, reference.access = .shared := by
  have nothing : derived.fragment.borrowed .exclusive = ∅ := by
    rw [← Finset.subset_empty, ← QueryFragment.borrowed_of_readOnly readOnly]
    exact (derivations_borrowed derives).1
  have cells : ∀ mutable ptr (table : EntityTable Value), derived.fragment.Cells
      (QueryFragment.refColumns .shared mutable ptr table)
      fun reference => reference.access = .shared := by
    intro mutable ptr table ty access borrows cells found cell inCells
    have notExclusive : access ≠ .exclusive := by
      rintro rfl
      rw [nothing] at borrows
      exact Finset.notMem_empty ty borrows
    rcases Option.map_eq_some_iff.mp found with ⟨column, _, rfl⟩
    rcases List.mem_map.mp inCells with ⟨row, _, rfl⟩
    simp [notExclusive]
  exact self.references_answer cells

namespace Handles.View

theorem not_commands (view : handles.View) : .commands ∉ handles.leaves := by
  intro member
  exact Bool.false_ne_true (view.readOnly _ member)

theorem not_worldAccess (view : handles.View) : .worldAccess ∉ handles.leaves := by
  intro member
  exact Bool.false_ne_true (view.readOnly _ member)

theorem source (view : handles.View) {query : Query}
    (member : query ∈ handles.leaves.flatMap Param.queries) :
    query.fragment.readOnly = true := by
  rcases List.mem_flatMap.mp member with ⟨leaf, inLeaves, inLeaf⟩
  have readOnly := view.readOnly leaf inLeaves
  cases leaf with
  | query q =>
      rw [List.mem_singleton.mp inLeaf]
      exact readOnly
  | querySet queries => exact List.all_eq_true.mp readOnly query inLeaf
  | _ => cases inLeaf

/-- An instruction that writes, queues a command, allocates or reaches for the world
cannot be made. -/
theorem run_mutating (view : handles.View) {instruction : Instruction Value}
    (mutates : instruction.mutates = true) (w : World Value) :
    instruction.run handles w = none := by
  cases instruction with
  | query source derivations method => cases mutates
  | read reference => cases mutates
  | resource ty => cases mutates
  | write reference value =>
      by_cases held : reference ∈ handles.references
      · simp [Instruction.run, view.references reference held]
      · simp [Instruction.run, held]
  | setResource ty value =>
      have notGranted : ¬∃ leaf ∈ handles.leaves, leaf.resource = some (ty, .exclusive) := by
        rintro ⟨leaf, member, grants⟩
        exact Param.resource_of_readOnly (view.readOnly leaf member) ty grants
      simp only [Instruction.run, guard, if_neg notGranted]
      rfl
  | worldMut change => simp [Instruction.run, view.not_worldAccess]
  | _ => simp [Instruction.run, view.not_commands]

theorem run (view : handles.View) {instruction : Instruction Value}
    (done : instruction.run handles w = some (answer, after)) :
    after = w ∧ ∀ reference ∈ answer.references, reference.access = .shared := by
  cases instruction with
  | query source derivations method =>
      simp only [Instruction.run, Action.reading_eq_some, Option.bind_eq_bind,
        Option.bind_eq_some_iff, Option.guard_eq_some', Option.pure_def, Option.some.injEq] at done
      rcases done with ⟨⟨_, member, query, derives, rfl⟩, rfl⟩
      exact ⟨rfl, method.shared_of_readOnly (view.source member) derives⟩
  | read reference =>
      simp only [Instruction.run, Action.reading_eq_some, Option.bind_eq_bind,
        Option.bind_eq_some_iff, Option.pure_def, Option.some.injEq] at done
      rcases done with ⟨⟨_, _, _, _, rfl⟩, rfl⟩
      exact ⟨rfl, List.forall_mem_nil _⟩
  | resource ty =>
      simp only [Instruction.run, Action.reading_eq_some, Option.bind_eq_bind,
        Option.bind_eq_some_iff, Option.pure_def, Option.some.injEq] at done
      rcases done with ⟨⟨_, _, rfl⟩, rfl⟩
      exact ⟨rfl, List.forall_mem_nil _⟩
  | _ =>
      rw [view.run_mutating rfl w] at done
      cases done

theorem receive (view : handles.View)
    (shared : ∀ reference ∈ answer.references, reference.access = .shared) :
    (handles.receive answer).View where
  readOnly := view.readOnly
  references := by
    intro reference member
    rcases List.mem_append.mp member with held | received
    · exact view.references reference held
    · exact shared reference received

/-- A whole program leaves the world as it is. -/
theorem runProgram (view : handles.View) {program : Program Value}
    (done : program.run handles w = some ((), after)) : after = w := by
  induction program generalizing handles w with
  | finish =>
      cases done
      rfl
  | panic => cases done
  | step instruction next induction =>
      rcases Action.andThen_eq_some.mp done with ⟨answer, middle, first, rest⟩
      rcases view.run first with ⟨rfl, shared⟩
      exact induction answer (view.receive shared) rest

end Handles.View

end Run

namespace World

variable {Value : Type} [CommandSentinelTypeId]

/-- The parameters are made with the first buffer, as in `run_system`. -/
def runViewSystem (w : World Value) (desc : SystemDescriptor (Program Value)) :
    Option (Unit × World Value) := do
  let _ ← validate desc.params
  guard (desc.readOnly = true)
  ErasedSystem.execute { systemIdx := 0, descriptor := desc } w

end World

namespace SystemDescriptor

variable {Value : Type} [CommandSentinelTypeId]

/-- A system of read-only parameters has nothing to write with. -/
theorem readOnly_spec (desc : SystemDescriptor (Program Value)) (readOnly : desc.readOnly = true) :
    desc.componentsMut = some ∅ ∧ desc.resourcesMut = ∅ ∧ desc.exclusive = false ∧
      (∀ leaf ∈ desc.params.flatMap Param.leaves,
        leaf ≠ .commands ∧ leaf ≠ .worldAccess ∧
        (∀ ty, leaf.resource ≠ some (ty, .exclusive)) ∧
        ∀ source ∈ leaf.queries, ∀ (derivations : List Derivation) derived,
          derivations.foldlM (fun query derivation => derivation.derive query) source =
            some derived →
          ∀ (method : QueryMethod) (w : World Value),
            ∀ reference ∈ (method.answer derived w).references, reference.access = .shared) ∧
      ∀ w after : World Value, w.runViewSystem desc = some ((), after) → after = w := by
  have view : ∀ systemIdx, Handles.View
      { leaves := desc.params.flatMap Param.leaves, systemIdx, references := [] } := by
    intro systemIdx
    exact ⟨readOnly_leaves readOnly, List.forall_mem_nil _⟩
  refine ⟨componentsMut_of_readOnly readOnly, resourcesMut_of_readOnly readOnly,
    exclusive_of_readOnly readOnly, ?_, ?_⟩
  · intro leaf member
    refine ⟨?_, ?_, Param.resource_of_readOnly (readOnly_leaves readOnly leaf member), ?_⟩
    · rintro rfl
      exact (view 0).not_commands member
    · rintro rfl
      exact (view 0).not_worldAccess member
    · intro source hands derivations derived derives method w
      have sourceReadOnly := (view 0).source (List.mem_flatMap.mpr ⟨leaf, member, hands⟩)
      exact method.shared_of_readOnly sourceReadOnly derives
  · intro w after done
    simp only [World.runViewSystem, Option.bind_eq_bind, Option.bind_eq_some_iff,
      Option.guard_eq_some', exists_const] at done
    rcases done with ⟨_, _, _, executed⟩
    rw [ErasedSystem.execute, Action.andThen_eq_some] at executed
    rcases executed with ⟨_, middle, started, ran⟩
    rw [← (Action.reading_eq_some.mp started).2] at ran
    exact (view 0).runProgram ran

end SystemDescriptor

open Sample

/-- The component 7, the component 9 where there is one, and the id. -/
def sevenAndNine : Query where
  fragment := .pair (.ref 7#128) (.pair (.optionRef 9#128) .entityId)
  filter := .unit

/-- It reads the first component 7 through a narrower query, and then a resource. -/
def readsSeven : SystemDescriptor (Program Nat) where
  id := 1#128
  params := [.pair (.querySet [sevenAndNine, ⟨.entityId, .With 9#128⟩]) (.res 3#128)]
  after := []
  factory := .step (.query sevenAndNine [.withFilter (.With 9#128), .subset (.ref 7#128)] .iterMut)
    fun
    | .items (.ref reference :: _) =>
        .step (.read reference) fun _ => .step (.resource 3#128) fun _ => .finish
    | _ => .panic

/-- What it holds while it runs. -/
def holdsSeven (references : List Reference) : Handles where
  leaves := [.querySet [sevenAndNine, ⟨.entityId, .With 9#128⟩], .res 3#128]
  systemIdx := 0
  references

theorem runViewSystem_readsSeven {w : World Nat} {reference : Reference} {old : Nat}
    (queried : Instruction.run (holdsSeven [])
      (.query sevenAndNine [.withFilter (.With 9#128), .subset (.ref 7#128)] .iterMut) w =
        some (.items [.ref reference], w))
    (cell : w.deref reference = some old) (ready : w.resources.contains 3#128 = true) :
    w.runViewSystem readsSeven = some ((), w) := by
  have accepted : (validate readsSeven.params).isSome = true := rfl
  have readOnly : readsSeven.readOnly = true := rfl
  have read : Instruction.run (holdsSeven [reference]) (.read reference) w =
      some (.value (some old), w) := by
    simp [Instruction.run, Action.reading, holdsSeven, cell]
  have found : Instruction.run (holdsSeven [reference]) (.resource 3#128) w =
      some (.value w.resources[3#128]?, w) := by
    simp [Instruction.run, Action.reading, holdsSeven, Param.resource]
  have allReady : ∀ leaf ∈ readsSeven.params.flatMap Param.leaves, leaf.isReady 0 w = true := by
    intro leaf member
    rcases List.mem_pair.mp member with rfl | rfl
    · rfl
    · exact ready
  have executed : ErasedSystem.execute ⟨0, readsSeven⟩ w = some ((), w) := by
    rw [ErasedSystem.execute, Action.andThen_eq_some]
    refine ⟨(), w, ?_, Action.andThen_eq_some.mpr ⟨_, _, queried, Action.andThen_eq_some.mpr
      ⟨_, _, read, Action.andThen_eq_some.mpr ⟨_, _, found, rfl⟩⟩⟩⟩
    apply Action.reading_eq_some.mpr
    rw [guard, if_pos (by decide), guard, if_pos allReady]
    exact ⟨rfl, rfl⟩
  rcases Option.isSome_iff_exists.mp accepted with ⟨props, valid⟩
  rw [World.runViewSystem, valid, readOnly]
  exact executed

theorem readOnly_spec_sample :
    ∃ w after : World Nat,
      (World.new 1).bind (World.runOperations · Query.someEntities) = some w ∧
      (w.insertResource 3#128 2).runViewSystem readsSeven = some ((), after) ∧
      after = w.insertResource 3#128 2 := by
  obtain ⟨before, w, reference, made, isNext, queried, cell, ready⟩ :
      ∃ (before w : World Nat) (reference : Reference),
        (World.new 1).bind (World.runOperations · Query.someEntities) = some before ∧
        w = before.insertResource 3#128 2 ∧
        Instruction.run (holdsSeven [])
          (.query sevenAndNine [.withFilter (.With 9#128), .subset (.ref 7#128)] .iterMut) w =
            some (.items [.ref reference], w) ∧
        w.deref reference = some 6 ∧ w.resources.contains 3#128 = true :=
    ⟨_, _, ⟨.shared, 2, 7#128, 0⟩, rfl, rfl, rfl, rfl, rfl⟩
  have ran := runViewSystem_readsSeven queried cell ready
  rw [isNext] at ran
  exact ⟨before, _, made, ran, (SystemDescriptor.readOnly_spec readsSeven rfl).2.2.2.2 _ _ ran⟩

end Cecs

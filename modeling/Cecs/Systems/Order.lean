import Cecs.Systems

/-! # The order that `sorted_systems` returns

The depth-first search emits a system after everything it names in `after`, so
what it returns is the same systems, each after the listed ones it names. -/

namespace Cecs

variable {Body : Type}

/-- Every system comes after the systems of `all` that it names in `after`. -/
def AfterFirst (all out : List (ErasedSystem Body)) : Prop :=
  ∀ front sys back, out = front ++ sys :: back →
    ∀ id ∈ sys.descriptor.after, id ∈ all.map ErasedSystem.id →
      id ∈ front.map ErasedSystem.id

namespace SortState

/-- `pending` are the ids of the systems between removal and emission. -/
structure Valid (all : List (ErasedSystem Body)) (pending : List TypeId)
    (state : SortState Body) : Prop where
  listed : ∀ sys ∈ all, sys ∈ state.out ∨ sys ∈ state.systems ∨ sys.id ∈ pending
  known : ∀ sys, sys ∈ state.out ∨ sys ∈ state.systems → sys ∈ all
  distinct : (state.out ++ state.systems).Nodup
  apart : ∀ sys, sys ∈ state.out ∨ sys ∈ state.systems → sys.id ∉ pending
  ordered : AfterFirst all state.out

end SortState

section Step

variable {all : List (ErasedSystem Body)} {pending : List TypeId} {state : SortState Body}

theorem AfterFirst.append {out : List (ErasedSystem Body)} {sys : ErasedSystem Body}
    (ordered : AfterFirst all out)
    (first : ∀ id ∈ sys.descriptor.after, id ∈ all.map ErasedSystem.id →
      id ∈ out.map ErasedSystem.id) : AfterFirst all (out ++ [sys]) := by
  intro front last back eq id named listed
  rcases List.eq_nil_or_concat back with rfl | ⟨rest, final, rfl⟩
  · have parts := List.append_inj' eq rfl
    cases parts.1
    cases List.singleton_inj.mp parts.2
    exact first id named listed
  · have regrouped : out ++ [sys] = (front ++ last :: rest) ++ [final] := by simp [eq]
    have parts := List.append_inj' regrouped rfl
    exact ordered front last rest parts.1 id named listed

/-- The system in question leaves `systems` and becomes pending. -/
theorem SortState.Valid.remove (unique : (all.map ErasedSystem.id).Nodup)
    (valid : state.Valid all pending) {sys : ErasedSystem Body} (member : sys ∈ state.systems) :
    SortState.Valid all (pending ++ [sys.id])
      { state with systems := state.systems.filter fun other => other.id != sys.id } where
  listed other inAll := by
    rcases valid.listed other inAll with emitted | waiting | isPending
    · exact Or.inl emitted
    · by_cases same : other.id = sys.id
      · exact Or.inr (Or.inr (by simp [same]))
      · exact Or.inr (Or.inl (by simp [waiting, same]))
    · exact Or.inr (Or.inr (by simp [isPending]))
  known other inState := by
    apply valid.known other
    rcases inState with emitted | waiting
    · exact Or.inl emitted
    · exact Or.inr (List.mem_filter.mp waiting).1
  distinct := valid.distinct.sublist (List.Sublist.append_left List.filter_sublist _)
  apart other inState := by
    have notPending := valid.apart other
    have different : other.id ≠ sys.id := by
      rcases inState with emitted | waiting
      · intro same
        have inAll := valid.known other (Or.inl emitted)
        have equal := List.inj_on_of_nodup_map unique inAll
          (valid.known sys (Or.inr member)) same
        exact (List.nodup_append.mp valid.distinct).2.2 other emitted sys member equal
      · simpa using (List.mem_filter.mp waiting).2
    rcases inState with emitted | waiting
    · simp [notPending (Or.inl emitted), different]
    · simp [notPending (Or.inr (List.mem_filter.mp waiting).1), different]
  ordered := valid.ordered

/-- The system is emitted. -/
theorem SortState.Valid.emit (unique : (all.map ErasedSystem.id).Nodup)
    {sys : ErasedSystem Body} (valid : state.Valid all (pending ++ [sys.id]))
    (inAll : sys ∈ all) (notPending : sys.id ∉ pending)
    (first : ∀ id ∈ sys.descriptor.after, id ∈ all.map ErasedSystem.id →
      id ∈ state.out.map ErasedSystem.id) :
    SortState.Valid all pending { state with out := state.out ++ [sys] } where
  listed other member := by
    rcases valid.listed other member with emitted | waiting | isPending
    · exact Or.inl (by simp [emitted])
    · exact Or.inr (Or.inl waiting)
    · rcases List.mem_append.mp isPending with before | this
      · exact Or.inr (Or.inr before)
      · have equal := List.inj_on_of_nodup_map unique member inAll (List.mem_singleton.mp this)
        exact Or.inl (by simp [equal])
  known other inState := by
    rcases inState with emitted | waiting
    · rcases List.mem_append.mp emitted with before | this
      · exact valid.known other (Or.inl before)
      · rw [List.mem_singleton.mp this]
        exact inAll
    · exact valid.known other (Or.inr waiting)
  distinct := by
    have fresh : sys ∉ state.out ++ state.systems := by
      intro member
      exact valid.apart sys (List.mem_append.mp member) (by simp)
    rw [List.append_assoc, List.singleton_append]
    exact List.perm_middle.nodup_iff.mpr (List.nodup_cons.mpr ⟨fresh, valid.distinct⟩)
  apart other inState := by
    rcases inState with emitted | waiting
    · rcases List.mem_append.mp emitted with before | this
      · exact fun inPending => valid.apart other (Or.inl before) (by simp [inPending])
      · rw [List.mem_singleton.mp this]
        exact notPending
    · exact fun inPending => valid.apart other (Or.inr waiting) (by simp [inPending])
  ordered := valid.ordered.append first

/-- What the search for one id, or for several ids in turn, establishes. -/
structure SortState.Extends (all : List (ErasedSystem Body)) (pending : List TypeId)
    (ids : List TypeId) (state result : SortState Body) : Prop where
  valid : result.Valid all pending
  emitted : ∀ id ∈ ids, id ∈ all.map ErasedSystem.id → id ∈ result.out.map ErasedSystem.id
  kept : ∀ sys ∈ state.out, sys ∈ result.out

theorem extends_of_foldlM {search : SortState Body → TypeId → Option (SortState Body)}
    (step : ∀ state id result, state.Valid all pending → search state id = some result →
      SortState.Extends all pending [id] state result)
    {ids : List TypeId} {result : SortState Body} (valid : state.Valid all pending)
    (folded : ids.foldlM search state = some result) :
    SortState.Extends all pending ids state result := by
  induction ids generalizing state with
  | nil =>
      cases folded
      exact ⟨valid, by simp, fun _ member => member⟩
  | cons id ids induction =>
      rw [List.foldlM_cons] at folded
      rcases Option.bind_eq_some_iff.mp folded with ⟨middle, first, rest⟩
      have head := step state id middle valid first
      have tail := induction head.valid rest
      refine ⟨tail.valid, ?_, fun sys member => tail.kept sys (head.kept sys member)⟩
      intro other member inAll
      rcases List.mem_cons.mp member with rfl | member
      · have emitted := head.emitted other (List.mem_singleton_self _) inAll
        rcases List.mem_map.mp emitted with ⟨sys, inOut, rfl⟩
        exact List.mem_map_of_mem (tail.kept sys inOut)
      · exact tail.emitted other member inAll

theorem extendSortedSystems_extends (unique : (all.map ErasedSystem.id).Nodup) {fuel : Nat}
    {id : TypeId} {result : SortState Body} (valid : state.Valid all pending)
    (extended : extendSortedSystems fuel id pending state = some result) :
    SortState.Extends all pending [id] state result := by
  induction fuel generalizing id pending state result with
  | zero => cases extended
  | succ fuel induction =>
      simp only [extendSortedSystems, Option.bind_eq_bind, Option.bind_eq_some_iff,
        Option.guard_eq_some', exists_and_left, exists_const] at extended
      rcases extended with ⟨notPending, searched⟩
      cases found : state.systems.find? fun sys => sys.id == id with
      | none =>
          rw [found] at searched
          cases searched
          refine ⟨valid, ?_, fun _ member => member⟩
          intro other member inAll
          rw [List.mem_singleton.mp member] at inAll ⊢
          rcases List.mem_map.mp inAll with ⟨sys, sysInAll, rfl⟩
          rcases valid.listed sys sysInAll with emitted | waiting | isPending
          · exact List.mem_map_of_mem emitted
          · have absent := List.find?_eq_none.mp found sys waiting
            simp at absent
          · exact absurd isPending notPending
      | some sys =>
          have member := List.mem_of_find?_eq_some found
          have sameId : sys.id = id := by
            simpa using List.find?_some found
          subst sameId
          rw [found] at searched
          simp only [Option.bind_eq_some_iff, Option.pure_def, Option.some.injEq] at searched
          rcases searched with ⟨middle, folded, rfl⟩
          have inAll := valid.known sys (Or.inr member)
          have inner := extends_of_foldlM
            (fun state id result valid extended => induction valid extended)
            (valid.remove unique member) folded
          refine ⟨inner.valid.emit unique inAll notPending inner.emitted, ?_, ?_⟩
          · intro other isThis _
            rw [List.mem_singleton.mp isThis]
            simp
          · intro other emitted
            exact List.mem_append_left _ (inner.kept other emitted)

end Step

theorem sortedSystems_spec {sys sorted : List (ErasedSystem Body)}
    (returned : sortedSystems sys = some sorted) :
    (sys.map ErasedSystem.id).Nodup ∧ sorted.Perm sys ∧ AfterFirst sys sorted := by
  simp only [sortedSystems, Option.bind_eq_bind, Option.bind_eq_some_iff,
    Option.guard_eq_some', exists_and_left, exists_const, Option.pure_def,
    Option.some.injEq] at returned
  rcases returned with ⟨unique, final, folded, rfl⟩
  have start : SortState.Valid sys [] { systems := sys, out := [] } :=
    { listed := fun _ member => Or.inr (Or.inl member)
      known := by simp
      distinct := by simpa using unique.of_map
      apart := by simp
      ordered := by
        intro front last back eq
        simp at eq }
  have extended := extends_of_foldlM
    (fun state id result valid extended => extendSortedSystems_extends unique valid extended)
    start folded
  refine ⟨unique, ?_, extended.valid.ordered⟩
  have distinct := (List.nodup_append.mp extended.valid.distinct).1
  apply (List.perm_ext_iff_of_nodup distinct unique.of_map).mpr
  intro other
  refine ⟨fun emitted => extended.valid.known other (Or.inl emitted), fun member => ?_⟩
  have inAll := List.mem_map_of_mem (f := ErasedSystem.id) member
  have emitted := extended.emitted other.id inAll inAll
  rcases List.mem_map.mp emitted with ⟨sys, inOut, sameId⟩
  have equal := List.inj_on_of_nodup_map unique (extended.valid.known sys (Or.inl inOut))
    member sameId
  exact equal ▸ inOut

end Cecs

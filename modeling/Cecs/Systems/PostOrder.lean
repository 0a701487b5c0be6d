import Cecs.Foundation.DepthFirst
import Cecs.Systems.Order

/-! # `sorted_systems` as a search of the graph of ids

Which stages are refused, what the order of the others respects, and when it
depends on the order in which the sets `after` iterate. -/

namespace Cecs

open Foundation

variable {Body : Type}

/-- What the system with the id names in `after`. -/
def namedBy (sys : List (ErasedSystem Body)) (id : TypeId) : List TypeId :=
  ((sys.find? fun other => other.id == id).map fun other => other.descriptor.after).getD []

/-- A listed system names another listed system, or itself. -/
def Names (sys : List (ErasedSystem Body)) (id other : TypeId) : Prop :=
  ∃ named ∈ sys, named.id = id ∧ other ∈ named.descriptor.after ∧
    other ∈ sys.map ErasedSystem.id

section Search

variable {sys : List (ErasedSystem Body)}

theorem find?_id (unique : (sys.map ErasedSystem.id).Nodup) {named : ErasedSystem Body}
    (member : named ∈ sys) : (sys.find? fun other => other.id == named.id) = some named := by
  cases found : sys.find? fun other => other.id == named.id with
  | none =>
      have absent := List.find?_eq_none.mp found named member
      simp at absent
  | some other =>
      have same : other.id = named.id := by simpa using List.find?_some found
      rw [List.inj_on_of_nodup_map unique (List.mem_of_find?_eq_some found) member same]

theorem namedBy_id (unique : (sys.map ErasedSystem.id).Nodup) {named : ErasedSystem Body}
    (member : named ∈ sys) : namedBy sys named.id = named.descriptor.after := by
  rw [namedBy, find?_id unique member]
  rfl

theorem edge_eq_names (unique : (sys.map ErasedSystem.id).Nodup) :
    DepthFirst.Edge (namedBy sys) (sys.map ErasedSystem.id) = Names sys := by
  funext id other
  apply propext
  constructor
  · rintro ⟨listed, otherListed, names⟩
    rcases List.mem_map.mp listed with ⟨named, member, rfl⟩
    rw [namedBy_id unique member] at names
    exact ⟨named, member, rfl, names, otherListed⟩
  · rintro ⟨named, member, rfl, names, otherListed⟩
    rw [← namedBy_id unique member] at names
    exact ⟨List.mem_map_of_mem member, otherListed, names⟩

/-- The search state of the ids. -/
def SortState.search (state : SortState Body) : Search TypeId where
  white := state.systems.map ErasedSystem.id
  out := state.out.map ErasedSystem.id

/-- The systems still to be sorted name what `next` lists. -/
def SortState.Follows (next : TypeId → List TypeId) (state : SortState Body) : Prop :=
  ∀ named ∈ state.systems, next named.id = named.descriptor.after

variable {next : TypeId → List TypeId} {state : SortState Body}

/-- Two searches in step: one fails when the other does, and what the one returns
stands for what the other returns. -/
def InStep (next : TypeId → List TypeId) (sorting : Option (SortState Body))
    (searching : Option (Search TypeId)) : Prop :=
  sorting.map SortState.search = searching ∧ ∀ result ∈ sorting, result.Follows next

theorem inStep_foldlM (sort : SortState Body → TypeId → Option (SortState Body))
    (search : Search TypeId → TypeId → Option (Search TypeId))
    (step : ∀ (state : SortState Body) id, state.Follows next →
      InStep next (sort state id) (search state.search id))
    (ids : List TypeId) (follows : state.Follows next) :
    InStep next (ids.foldlM sort state) (ids.foldlM search state.search) := by
  induction ids generalizing state with
  | nil => exact ⟨rfl, fun result same => Option.some.inj same ▸ follows⟩
  | cons id ids induction =>
      rcases step state id follows with ⟨same, kept⟩
      rw [List.foldlM_cons, List.foldlM_cons, ← same]
      cases first : sort state id with
      | none => exact ⟨rfl, fun result absent => by cases absent⟩
      | some middle => exact induction (kept middle first)

theorem InStep.emit {sorting : Option (SortState Body)} {searching : Option (Search TypeId)}
    (inStep : InStep next sorting searching) (named : ErasedSystem Body) :
    InStep next
      (sorting.bind fun extended => some { extended with out := extended.out ++ [named] })
      (searching.map fun extended => { extended with out := extended.out ++ [named.id] }) := by
  rcases inStep with ⟨rfl, kept⟩
  cases sorting with
  | none => exact ⟨rfl, fun result absent => by cases absent⟩
  | some extended =>
      constructor
      · simp [SortState.search]
      · intro result returned
        cases returned
        exact kept extended rfl

theorem extendSortedSystems_inStep (fuel : Nat) (id : TypeId) (pending : List TypeId)
    (follows : state.Follows next) :
    InStep next (extendSortedSystems fuel id pending state)
      (DepthFirst.visit next fuel id pending state.search) := by
  induction fuel generalizing id pending state with
  | zero => exact ⟨rfl, fun result absent => by cases absent⟩
  | succ fuel induction =>
      by_cases isPending : id ∈ pending
      · simp [InStep, extendSortedSystems, DepthFirst.visit, isPending]
      · cases found : state.systems.find? fun other => other.id == id with
        | none =>
            have notWhite : id ∉ state.search.white := by
              intro white
              rcases List.mem_map.mp white with ⟨named, member, rfl⟩
              have absent := List.find?_eq_none.mp found named member
              simp at absent
            rw [DepthFirst.visit_skip isPending notWhite]
            simp only [InStep, extendSortedSystems, isPending, found]
            exact ⟨rfl, fun result same => Option.some.inj same ▸ follows⟩
        | some named =>
            have member := List.mem_of_find?_eq_some found
            have sameId : named.id = id := by simpa using List.find?_some found
            subst sameId
            have white : named.id ∈ state.search.white := List.mem_map_of_mem member
            have entered : SortState.Follows next { state with
                systems := state.systems.filter fun other => other.id != named.id } :=
              fun other inside => follows other (List.mem_filter.mp inside).1
            have searching : SortState.search { state with
                systems := state.systems.filter fun other => other.id != named.id } =
                { state.search with white := state.search.white.filter (· != named.id) } := by
              simp [SortState.search, List.filter_map, Function.comp_def]
            have folded := inStep_foldlM
                (fun state id => extendSortedSystems fuel id (pending ++ [named.id]) state)
                (fun state id => DepthFirst.visit next fuel id (pending ++ [named.id]) state)
                (fun state id follows => induction id (pending ++ [named.id]) follows)
                named.descriptor.after entered
            rw [DepthFirst.visit_white isPending white, follows named member, ← searching]
            simp only [extendSortedSystems, isPending, found, not_false_eq_true, guard_true,
              Option.bind_eq_bind, Option.bind_some, Option.pure_def]
            exact folded.emit named

/-- The ids in the order of the sorted systems. -/
theorem sortedSystems_ids (unique : (sys.map ErasedSystem.id).Nodup) :
    (sortedSystems sys).map (List.map ErasedSystem.id) =
      DepthFirst.postOrder (namedBy sys) (sys.map ErasedSystem.id) := by
  have start : SortState.Follows (namedBy sys) { systems := sys, out := [] } :=
    fun named member => namedBy_id unique member
  have searched := (inStep_foldlM
      (fun state id => extendSortedSystems (sys.length + 1) id [] state)
      (fun state id => DepthFirst.visit (namedBy sys) (sys.length + 1) id [] state)
      (fun state id follows => extendSortedSystems_inStep (sys.length + 1) id [] follows)
      (sys.map ErasedSystem.id) start).1
  simp only [SortState.search, List.map_nil] at searched
  simp only [sortedSystems, unique, guard_true, Option.bind_eq_bind, Option.bind_some,
    Option.pure_def, DepthFirst.postOrder, List.length_map, ← searched]
  rw [Option.map_bind, Option.bind_map]
  rfl

end Search

section Cycles

variable {sys sorted : List (ErasedSystem Body)}

/-- The systems that a system leads to stand before it. -/
def ReachedFirst (sys sorted : List (ErasedSystem Body)) : Prop :=
  ∀ front named back, sorted = front ++ named :: back →
    ∀ id, Relation.TransGen (Names sys) named.id id → id ∈ front.map ErasedSystem.id

theorem sortedSystems_eq_none_iff (unique : (sys.map ErasedSystem.id).Nodup) :
    sortedSystems sys = none ↔ ∃ id, Relation.TransGen (Names sys) id id := by
  rw [← edge_eq_names unique, ← DepthFirst.postOrder_eq_none_iff unique,
    ← sortedSystems_ids unique, Option.map_eq_none_iff]

theorem sortedSystems_reachedFirst (returned : sortedSystems sys = some sorted) :
    ReachedFirst sys sorted := by
  have unique := (sortedSystems_spec returned).1
  have ids := sortedSystems_ids unique
  rw [returned, Option.map_some] at ids
  have closed := (DepthFirst.postOrder_spec unique ids.symm).2
  intro front named back split id leads
  rw [← edge_eq_names unique] at leads
  exact closed.reaches (by rw [split, List.map_append, List.map_cons]) leads

/-- Lists of listed systems with the same ids are the same. -/
theorem eq_of_ids (unique : (sys.map ErasedSystem.id).Nodup) {left right : List (ErasedSystem Body)}
    (leftListed : ∀ named ∈ left, named ∈ sys) (rightListed : ∀ named ∈ right, named ∈ sys)
    (same : left.map ErasedSystem.id = right.map ErasedSystem.id) : left = right := by
  induction left generalizing right with
  | nil => exact (List.map_eq_nil_iff.mp same.symm).symm
  | cons head tail induction =>
      cases right with
      | nil => cases same
      | cons other rest =>
          rw [List.map_cons, List.map_cons, List.cons.injEq] at same
          rw [List.inj_on_of_nodup_map unique (leftListed head List.mem_cons_self)
              (rightListed other List.mem_cons_self) same.1,
            induction (fun named member => leftListed named (List.mem_cons_of_mem _ member))
              (fun named member => rightListed named (List.mem_cons_of_mem _ member)) same.2]

/-- Systems that name no listed system stay in their order. -/
theorem sortedSystems_of_unnamed (unique : (sys.map ErasedSystem.id).Nodup)
    (unnamed : ∀ named ∈ sys, ∀ id ∈ named.descriptor.after, id ∉ sys.map ErasedSystem.id) :
    sortedSystems sys = some sys := by
  have isolated : ∀ id ∈ sys.map ErasedSystem.id, ∀ other ∈ namedBy sys id,
      other ∉ sys.map ErasedSystem.id := by
    intro id listed other names
    rcases List.mem_map.mp listed with ⟨named, member, rfl⟩
    rw [namedBy_id unique member] at names
    exact unnamed named member other names
  have ids := sortedSystems_ids unique
  rw [DepthFirst.postOrder_of_no_edges unique isolated, Option.map_eq_some_iff] at ids
  rcases ids with ⟨sorted, returned, same⟩
  rcases sortedSystems_spec returned with ⟨_, perm, _⟩
  rw [returned, eq_of_ids unique (fun _ member => perm.mem_iff.mp member) (fun _ member => member)
    same]

/-- `sorted_systems` panics on cycles, and returns all other lists in an order in which a
system comes after everything it leads to; without orderings it is the order of the list. -/
theorem sortedSystems_sorts (unique : (sys.map ErasedSystem.id).Nodup) :
    (sortedSystems sys = none ↔ ∃ id, Relation.TransGen (Names sys) id id) ∧
    (∀ sorted, sortedSystems sys = some sorted → sorted.Perm sys ∧ ReachedFirst sys sorted) ∧
    ((∀ named ∈ sys, ∀ id ∈ named.descriptor.after, id ∉ sys.map ErasedSystem.id) →
      sortedSystems sys = some sys) := by
  refine ⟨sortedSystems_eq_none_iff unique, ?_, sortedSystems_of_unnamed unique⟩
  intro sorted returned
  exact ⟨(sortedSystems_spec returned).2.1, sortedSystems_reachedFirst returned⟩

end Cycles

section Iteration

variable {sys : List (ErasedSystem Body)}

namespace ErasedSystem

/-- The system whose set `after` iterates in another order. -/
def withAfter (self : ErasedSystem Body) (after : List TypeId) : ErasedSystem Body :=
  { self with descriptor := { self.descriptor with after } }

@[simp] theorem id_withAfter (self : ErasedSystem Body) (after : List TypeId) :
    (self.withAfter after).id = self.id := rfl

@[simp] theorem after_withAfter (self : ErasedSystem Body) (after : List TypeId) :
    (self.withAfter after).descriptor.after = after := rfl

end ErasedSystem

/-- The same list of systems, with the same sets `after`, in another run of the program. -/
def Rehashed (sys other : List (ErasedSystem Body)) : Prop :=
  List.Forall₂ (fun named again => ∃ after, after.Perm named.descriptor.after ∧
    again = named.withAfter after) sys other

theorem Rehashed.ids {other : List (ErasedSystem Body)} (rehashed : Rehashed sys other) :
    other.map ErasedSystem.id = sys.map ErasedSystem.id := by
  induction rehashed with
  | nil => rfl
  | cons same _ induction =>
      rcases same with ⟨after, _, rfl⟩
      rw [List.map_cons, List.map_cons, induction]
      rfl

theorem Rehashed.namedBy {other : List (ErasedSystem Body)} (rehashed : Rehashed sys other)
    (id : TypeId) : (Cecs.namedBy other id).Perm (Cecs.namedBy sys id) := by
  induction rehashed with
  | nil => exact .refl _
  | @cons named again rest restAgain same _ induction =>
      rcases same with ⟨after, perm, rfl⟩
      by_cases found : named.id = id
      · simpa [Cecs.namedBy, found] using perm
      · simpa [Cecs.namedBy, found] using induction

/-- The systems in a run in which the sets iterate as `next` says. -/
def rehash (next : TypeId → List TypeId) (sys : List (ErasedSystem Body)) :
    List (ErasedSystem Body) :=
  sys.map fun named => named.withAfter (next named.id)

theorem rehashed_rehash (unique : (sys.map ErasedSystem.id).Nodup)
    {next : TypeId → List TypeId} (same : ∀ id, (next id).Perm (namedBy sys id)) :
    Rehashed sys (rehash next sys) := by
  rw [Rehashed, rehash, List.forall₂_map_right_iff, List.forall₂_same]
  intro named member
  refine ⟨next named.id, ?_, rfl⟩
  rw [← namedBy_id unique member]
  exact same named.id

theorem namedBy_rehash {next : TypeId → List TypeId}
    (same : ∀ id, (next id).Perm (namedBy sys id)) : namedBy (rehash next sys) = next := by
  funext id
  rw [namedBy, rehash, List.find?_map]
  simp only [Function.comp_def, ErasedSystem.id_withAfter]
  cases found : sys.find? fun other => other.id == id with
  | none =>
      have empty := same id
      rw [namedBy, found] at empty
      exact (List.perm_nil.mp empty).symm
  | some named =>
      have isId : named.id = id := by simpa using List.find?_some found
      rw [← isId]
      rfl

/-- The order does not depend on how the sets iterate exactly when, of any two systems
that the search finds from one listed system first, one leads to the other. -/
theorem sortedSystems_orderFree_iff (unique : (sys.map ErasedSystem.id).Nodup)
    (acyclic : ∀ id, ¬Relation.TransGen (Names sys) id id) :
    (∀ other, Rehashed sys other →
      (sortedSystems other).map (List.map ErasedSystem.id) =
        (sortedSystems sys).map (List.map ErasedSystem.id)) ↔
    DepthFirst.Chained (namedBy sys) (sys.map ErasedSystem.id) := by
  rw [← edge_eq_names unique] at acyclic
  rw [← DepthFirst.postOrder_orderFree_iff unique acyclic]
  constructor
  · intro orderFree next same
    have rehashed := rehashed_rehash unique same
    have again := orderFree _ rehashed
    rw [sortedSystems_ids unique, sortedSystems_ids (rehashed.ids ▸ unique), rehashed.ids,
      namedBy_rehash same] at again
    exact again
  · intro orderFree other rehashed
    rw [sortedSystems_ids unique, sortedSystems_ids (rehashed.ids ▸ unique), rehashed.ids]
    exact orderFree _ rehashed.namedBy

end Iteration

section Example

/-- A system that only has an order. -/
def bareSystem (id : TypeId) (after : List TypeId) : ErasedSystem Unit :=
  ⟨0, { id, params := [], factory := (), after }⟩

/-- The first system is to run after the second one, which is added later. -/
def latePair : List (ErasedSystem Unit) := [bareSystem 1#128 [2#128], bareSystem 2#128 []]

theorem sortedSystems_sorts_sample :
    sortedSystems latePair = some latePair.reverse ∧
      ReachedFirst latePair latePair.reverse := by
  have unique : (latePair.map ErasedSystem.id).Nodup := by decide
  have returned : sortedSystems latePair = some latePair.reverse := rfl
  exact ⟨returned, ((sortedSystems_sorts unique).2.1 _ returned).2⟩

theorem acyclic_of_sorted {sys sorted : List (ErasedSystem Unit)}
    (unique : (sys.map ErasedSystem.id).Nodup) (returned : sortedSystems sys = some sorted) :
    ∀ id, ¬Relation.TransGen (Names sys) id id := by
  intro id cycle
  rw [(sortedSystems_eq_none_iff unique).mpr ⟨id, cycle⟩] at returned
  cases returned

/-- The first system names two others, one of which is to run after the other one. -/
def chainAfter (after : List TypeId) : List (ErasedSystem Unit) :=
  [bareSystem 1#128 after, bareSystem 2#128 [3#128], bareSystem 3#128 []]

theorem sortedSystems_orderFree_iff_sample :
    Rehashed (chainAfter [2#128, 3#128]) (chainAfter [3#128, 2#128]) ∧
      (sortedSystems (chainAfter [3#128, 2#128])).map (List.map ErasedSystem.id) =
        (sortedSystems (chainAfter [2#128, 3#128])).map (List.map ErasedSystem.id) := by
  have unique : ((chainAfter [2#128, 3#128]).map ErasedSystem.id).Nodup := by decide
  have returned : sortedSystems (chainAfter [2#128, 3#128]) =
      some (chainAfter [2#128, 3#128]).reverse := rfl
  have rehashed : Rehashed (chainAfter [2#128, 3#128]) (chainAfter [3#128, 2#128]) :=
    .cons ⟨[3#128, 2#128], .swap _ _ _, rfl⟩ (.cons ⟨[3#128], .refl _, rfl⟩
      (.cons ⟨[], .refl _, rfl⟩ .nil))
  refine ⟨rehashed, (sortedSystems_orderFree_iff unique
    (acyclic_of_sorted unique returned)).mpr ?_ _ rehashed⟩
  have edge : ∀ a b, (a, b) = (1#128, 2#128) ∨ (a, b) = (2#128, 3#128) →
      DepthFirst.Edge (namedBy (chainAfter [2#128, 3#128]))
        ((chainAfter [2#128, 3#128]).map ErasedSystem.id) a b := by
    rintro a b (same | same) <;> cases same <;>
      simp [DepthFirst.Edge, namedBy, chainAfter, bareSystem, ErasedSystem.id]
  have first := Relation.ReflTransGen.single (edge 1#128 2#128 (by simp))
  have second := Relation.ReflTransGen.single (edge 2#128 3#128 (by simp))
  intro a listedA b listedB _
  simp only [chainAfter, bareSystem, ErasedSystem.id, List.map_cons, List.map_nil, List.mem_cons,
    List.not_mem_nil, or_false] at listedA listedB
  rcases listedA with rfl | rfl | rfl <;> rcases listedB with rfl | rfl | rfl
  · exact Or.inl .refl
  · exact Or.inl first
  · exact Or.inl (first.trans second)
  · exact Or.inr first
  · exact Or.inl .refl
  · exact Or.inl second
  · exact Or.inr (first.trans second)
  · exact Or.inr second
  · exact Or.inl .refl

/-- The first system is to run after the two others, which have no order. -/
def firstAfter (after : List TypeId) : List (ErasedSystem Unit) :=
  [bareSystem 1#128 after, bareSystem 2#128 [], bareSystem 3#128 []]

/-- In one run the systems that are not ordered keep their order, in another they do not. -/
theorem sortedSystems_hashOrder :
    ∃ sys other : List (ErasedSystem Unit), (sys.map ErasedSystem.id).Nodup ∧
      (∀ id, ¬Relation.TransGen (Names sys) id id) ∧ Rehashed sys other ∧
      (sortedSystems sys).map (List.map ErasedSystem.id) = some [2#128, 3#128, 1#128] ∧
      (sortedSystems other).map (List.map ErasedSystem.id) = some [3#128, 2#128, 1#128] := by
  have unique : ((firstAfter [2#128, 3#128]).map ErasedSystem.id).Nodup := by decide
  have returned : sortedSystems (firstAfter [2#128, 3#128]) =
      some [bareSystem 2#128 [], bareSystem 3#128 [], bareSystem 1#128 [2#128, 3#128]] := rfl
  refine ⟨firstAfter [2#128, 3#128], firstAfter [3#128, 2#128], unique,
    acyclic_of_sorted unique returned, ?_, by rw [returned]; rfl, rfl⟩
  refine .cons ⟨[3#128, 2#128], .swap _ _ _, rfl⟩ (.cons ⟨[], .refl _, rfl⟩
    (.cons ⟨[], .refl _, rfl⟩ .nil))

end Example

end Cecs

import Cecs.Scheduler
import Cecs.Systems.PostOrder
import Cecs.Systems.Validation

/-! # The parents in a schedule

Every parent stands before its child, because the stage is sorted. The assertion on
the first system is about what its set `after` holds, not about the stage. -/

namespace Cecs

open Foundation

section Components

variable {set start result : Finset TypeId}

/-- Types declared before do no harm when the fragment does not declare them. -/
theorem QueryFragment.typesMut_union {self : QueryFragment}
    (accepted : self.typesMut start = some result) (fresh : Disjoint set result) :
    self.typesMut (set ∪ start) = some (set ∪ result) := by
  rw [typesMut_eq_some_iff] at accepted ⊢
  rcases accepted with ⟨rfl, unrepeated⟩
  refine ⟨(Finset.union_assoc _ _ _).symm, ?_, unrepeated.apart⟩
  intro leaf member ty checks declared
  rcases Finset.mem_union.mp declared with inSet | inStart
  · apply Finset.disjoint_left.mp fresh inSet
    apply Finset.mem_union_right
    refine mem_borrowed.mpr ⟨leaf, member, ?_⟩
    cases leaf <;> cases checks
    rfl
  · exact unrepeated.undeclared leaf member ty checks inStart

namespace Param

theorem mapM_typesMut_union {queries : List Query} {sets : List (Finset TypeId)}
    (accepted : queries.mapM (fun query => query.fragment.typesMut start) = some sets)
    (fresh : ∀ result ∈ sets, Disjoint set result) :
    queries.mapM (fun query => query.fragment.typesMut (set ∪ start)) =
      some (sets.map (set ∪ ·)) := by
  induction queries generalizing sets with
  | nil =>
      cases accepted
      rfl
  | cons query queries induction =>
      simp only [List.mapM_cons, Option.bind_eq_bind, Option.bind_eq_some_iff, Option.pure_def,
        Option.some.injEq] at accepted
      rcases accepted with ⟨first, acceptedFirst, rest, acceptedRest, rfl⟩
      rw [List.forall_mem_cons] at fresh
      rw [List.mapM_cons, QueryFragment.typesMut_union acceptedFirst fresh.1,
        induction acceptedRest fresh.2]
      rfl

theorem foldl_union (sets : List (Finset TypeId)) (start : Finset TypeId) :
    (sets.map (set ∪ ·)).foldl (· ∪ ·) (set ∪ start) = set ∪ sets.foldl (· ∪ ·) start := by
  induction sets generalizing start with
  | nil => rfl
  | cons first rest induction =>
      have next : set ∪ start ∪ (set ∪ first) = set ∪ (start ∪ first) :=
        (Finset.union_union_distrib_left _ _ _).symm
      rw [List.map_cons, List.foldl_cons, List.foldl_cons, next, induction]

theorem componentsMut_union {self : Param} (accepted : self.componentsMut start = some result)
    (fresh : Disjoint set result) : self.componentsMut (set ∪ start) = some (set ∪ result) := by
  induction self generalizing start result with
  | pair first rest inductionFirst inductionRest =>
      rw [componentsMut, Option.bind_eq_bind, Option.bind_eq_some_iff] at accepted
      rcases accepted with ⟨middle, acceptedFirst, acceptedRest⟩
      have grows := (componentsMut_spec acceptedRest).1
      have freshMiddle : Disjoint set middle :=
        fresh.mono_right (grows ▸ Finset.subset_union_left)
      rw [componentsMut, inductionFirst acceptedFirst freshMiddle]
      exact inductionRest acceptedRest fresh
  | query q => exact QueryFragment.typesMut_union accepted fresh
  | querySet queries =>
      simp only [componentsMut, Option.bind_eq_bind, Option.bind_eq_some_iff, Option.pure_def,
        Option.some.injEq] at accepted
      rcases accepted with ⟨sets, trials, rfl⟩
      have freshTrials : ∀ trial ∈ sets, Disjoint set trial := by
        intro trial member
        apply fresh.mono_right
        intro ty inTrial
        rw [← List.map_id sets, mem_foldl_union]
        exact Or.inr ⟨trial, member, inTrial⟩
      rw [componentsMut, mapM_typesMut_union trials freshTrials]
      exact congrArg some (foldl_union sets start)
  | _ =>
      cases accepted
      rfl

theorem componentsConst_total {self : Param} (accepted : self.componentsConst start = some result)
    (set : Finset TypeId) : ∃ other, self.componentsConst set = some other := by
  induction self generalizing set start result with
  | pair first rest inductionFirst inductionRest =>
      rw [componentsConst, Option.bind_eq_bind, Option.bind_eq_some_iff] at accepted
      rcases accepted with ⟨middle, acceptedFirst, acceptedRest⟩
      rcases inductionFirst acceptedFirst set with ⟨other, otherFirst⟩
      rcases inductionRest acceptedRest other with ⟨final, finalRest⟩
      exact ⟨final, by rw [componentsConst, otherFirst]; exact finalRest⟩
  | querySet queries =>
      simp only [componentsConst, Option.bind_eq_bind, Option.bind_eq_some_iff] at accepted
      rcases accepted with ⟨mutable, trials, _⟩
      exact ⟨_, by rw [componentsConst, trials]; rfl⟩
  | _ => exact ⟨_, rfl⟩

end Param

end Components

section Validated

variable [CommandSentinelTypeId] {Body : Type}

/-- What the debug validation went through can be collected. -/
theorem components_of_joins {params : List Param} {start result : QueryProperties}
    (joined : params.foldlM QueryProperties.join start = some result) :
    params.foldlM (fun set param => param.componentsMut set) start.compMut =
        some result.compMut ∧
      ∀ set : Finset TypeId, ∃ shared,
        params.foldlM (fun set param => param.componentsConst set) set = some shared := by
  induction params generalizing start with
  | nil =>
      cases joined
      exact ⟨rfl, fun set => ⟨set, rfl⟩⟩
  | cons param params induction =>
      rw [List.foldlM_cons, Option.bind_eq_bind, Option.bind_eq_some_iff] at joined
      rcases joined with ⟨middle, join, joined⟩
      simp only [QueryProperties.join, Param.ensureQueryValid, Option.bind_eq_bind,
        Option.bind_eq_some_iff, Option.guard_eq_some', Option.pure_def, Option.some.injEq,
        exists_and_left, exists_const] at join
      rcases join with ⟨props, ⟨compMut, mutable, compConst, shared, _, rfl⟩, admitted, rfl⟩
      rcases induction joined with ⟨restMut, restConst⟩
      have apart : Disjoint start.compMut compMut := by
        rcases Bool.or_eq_true _ _ |>.mp admitted with disjoint | alone
        · simp only [QueryProperties.isDisjoint, Bool.and_eq_true, decide_eq_true_eq] at disjoint
          exact disjoint.1.1.1.2.symm
        · simp only [QueryProperties.isEmpty, Bool.and_eq_true, decide_eq_true_eq] at alone
          rw [alone.2.1.1.1.2]
          exact Finset.disjoint_empty_left _
      constructor
      · have union := Param.componentsMut_union mutable apart
        rw [Finset.union_empty] at union
        rw [List.foldlM_cons, union]
        exact restMut
      · intro set
        rcases Param.componentsConst_total shared set with ⟨other, first⟩
        rcases restConst other with ⟨final, rest⟩
        exact ⟨final, by rw [List.foldlM_cons, first]; exact rest⟩

theorem fromSystem_of_validate {desc : SystemDescriptor Body} {props : QueryProperties}
    (validated : validate desc.params = some props) :
    ∃ collected, QueryProperties.fromSystem desc = some collected := by
  rcases components_of_joins validated with ⟨mutable, total⟩
  rcases total ∅ with ⟨shared, collected⟩
  have compMut : desc.componentsMut = some props.compMut := mutable
  have compConst : desc.componentsConst = some shared := collected
  exact ⟨_, by rw [QueryProperties.fromSystem, compMut, compConst]; rfl⟩

end Validated

namespace Schedule

variable {Body : Type} {systems : List (ErasedSystem Body)} {k : Nat}

/-- The map names positions of systems with the id. -/
theorem indices_eq_some {id : TypeId} {j : Nat} (found : indices systems id = some j) :
    ∃ sys, systems[j]? = some sys ∧ sys.id = id := by
  have along : ∀ (entries : List (ErasedSystem Body × Nat)) (map : TypeId → Option Nat),
      entries.foldl (fun (map : TypeId → Option Nat) entry =>
        Function.update map entry.1.id (some entry.2)) map id = some j →
      map id = some j ∨ ∃ sys, (sys, j) ∈ entries ∧ sys.id = id := by
    intro entries
    induction entries with
    | nil => exact fun map found => Or.inl found
    | cons entry entries induction =>
        intro map found
        rcases induction _ found with before | ⟨sys, member, isId⟩
        · simp only [Function.update_apply] at before
          split at before
          · rename_i isId
            cases before
            exact Or.inr ⟨entry.1, List.mem_cons_self, isId.symm⟩
          · exact Or.inl before
        · exact Or.inr ⟨sys, List.mem_cons_of_mem _ member, isId⟩
  rcases along _ _ found with absent | ⟨sys, member, isId⟩
  · cases absent
  · exact ⟨sys, List.mem_zipIdx_iff_getElem?.mp member, isId⟩

/-- One list of parents for each system, and parents stand before their child. -/
structure Forward (schedule : Schedule) (systems : List (ErasedSystem Body)) : Prop where
  length : schedule.parents.length = systems.length
  forward : ∀ (i : Nat) (parents : List Nat), schedule.parents[i]? = some parents →
    ∀ j ∈ parents, j < i

/-- In a sorted stage the system at a position has parents before it. -/
theorem parentsOf_lt {all : List (ErasedSystem Body)} (ordered : AfterFirst all systems)
    (perm : systems.Perm all) (unique : (all.map ErasedSystem.id).Nodup)
    {front back : List (ErasedSystem Body)} {sys : ErasedSystem Body}
    (split : systems = front ++ sys :: back) (history : List QueryProperties)
    (props : QueryProperties) {j : Nat}
    (parent : j ∈ parentsOf (indices systems) history props sys front.length) :
    j < front.length := by
  rcases List.mem_append.mp parent with conflict | explicit
  · rcases List.mem_map.mp conflict with ⟨entry, member, rfl⟩
    rcases List.mem_take_iff_getElem.mp (List.mem_filter.mp member).1 with ⟨i, bound, rfl⟩
    rw [List.getElem_zipIdx, Nat.zero_add]
    exact Nat.lt_of_lt_of_le bound (Nat.min_le_left _ _)
  · rcases List.mem_filterMap.mp explicit with ⟨id, names, found⟩
    rcases indices_eq_some found with ⟨named, namedAt, rfl⟩
    have inAll : named.id ∈ all.map ErasedSystem.id :=
      List.mem_map_of_mem (perm.mem_iff.mp (List.mem_of_getElem? namedAt))
    rcases List.mem_map.mp (ordered front sys back split named.id names inAll) with
      ⟨other, inFront, sameId⟩
    rcases List.mem_iff_getElem?.mp inFront with ⟨i, otherAt⟩
    have inRange : i < front.length := (List.getElem?_eq_some_iff.mp otherAt).1
    have otherAtAll : systems[i]? = some other := by
      rw [split, List.getElem?_append_left inRange, otherAt]
    have uniqueSystems : (systems.map ErasedSystem.id).Nodup :=
      (perm.map ErasedSystem.id).nodup_iff.mpr unique
    have idAt : (systems.map ErasedSystem.id)[i]? = (systems.map ErasedSystem.id)[j]? := by
      rw [List.getElem?_map, List.getElem?_map, otherAtAll, namedAt]
      exact congrArg some sameId
    have bound : i < (systems.map ErasedSystem.id).length := by
      rw [List.length_map]
      exact (List.getElem?_eq_some_iff.mp otherAtAll).1
    rw [← (List.getElem?_inj bound uniqueSystems).mp idAt]
    exact inRange

variable [CommandSentinelTypeId]

/-- The loop over the systems from a position on keeps what it has and adds forward parents. -/
theorem extends_forward {indices : TypeId → Option Nat} {rest : List (ErasedSystem Body)}
    (validated : ∀ sys ∈ rest, (validate sys.descriptor.params).isSome = true)
    (lower : ∀ front sys back, rest = front ++ sys :: back → ∀ history props,
      ∀ j ∈ parentsOf indices history props sys (k + front.length), j < k + front.length)
    (history : List QueryProperties) {schedule : Schedule}
    (length : schedule.parents.length = k)
    (forward : ∀ (i : Nat) (parents : List Nat), schedule.parents[i]? = some parents →
      ∀ j ∈ parents, j < i) :
    ∃ final result, (rest.zipIdx k).foldlM (extend indices) (history, schedule) =
        some (final, result) ∧ result.parents.length = k + rest.length ∧
      ∀ (i : Nat) (parents : List Nat), result.parents[i]? = some parents →
        ∀ j ∈ parents, j < i := by
  induction rest generalizing k history schedule with
  | nil => exact ⟨history, schedule, rfl, by simp [length], forward⟩
  | cons sys rest induction =>
      rw [List.forall_mem_cons] at validated
      rcases Option.isSome_iff_exists.mp validated.1 with ⟨accepted, valid⟩
      rcases fromSystem_of_validate valid with ⟨props, collected⟩
      have here := lower [] sys rest rfl history props
      rw [List.length_nil, Nat.add_zero] at here
      have step : extend indices (history, schedule) (sys, k) = some (history ++ [props],
          ⟨schedule.parents ++ [parentsOf indices history props sys k]⟩) := by
        rw [extend, collected]
        rfl
      have later : ∀ front next back, rest = front ++ next :: back → ∀ history props,
          ∀ j ∈ parentsOf indices history props next (k + 1 + front.length),
            j < k + 1 + front.length := by
        intro front next back split
        have shifted := lower (sys :: front) next back (by rw [split, List.cons_append])
        rw [List.length_cons] at shifted
        rw [Nat.add_assoc, Nat.add_comm 1]
        exact shifted
      have forwardNext : ∀ (i : Nat) (parents : List Nat),
          (schedule.parents ++ [parentsOf indices history props sys k])[i]? = some parents →
            ∀ j ∈ parents, j < i := by
        intro i parents found
        rw [List.getElem?_append] at found
        split at found
        · exact forward i parents found
        · rename_i beyond
          rw [List.getElem?_singleton] at found
          split at found
          · cases found
            have atEnd : i = k := by omega
            exact atEnd ▸ here
          · cases found
      rcases induction validated.2 later (history ++ [props]) (by simp [length]) forwardNext with
        ⟨final, result, folded, lengthResult, forwardResult⟩
      refine ⟨final, result, ?_, ?_, forwardResult⟩
      · rw [List.zipIdx_cons, List.foldlM_cons, step]
        exact folded
      · rw [lengthResult, List.length_cons]
        omega

/-- The schedule of a built stage has forward parents exactly when its first system names
nothing, be it in the stage or not. -/
theorem fromStage_forward_iff {builder : SystemStageBuilder Body} {stage : SystemStage Body}
    (built : builder.build = some stage)
    (validated : ∀ sys ∈ builder.systems, (validate sys.descriptor.params).isSome = true) :
    (∃ schedule, fromStage stage = some schedule ∧ schedule.Forward stage.systems) ↔
      ∀ first ∈ stage.systems.head?, first.descriptor.after = [] := by
  rw [SystemStageBuilder.build, Option.bind_eq_bind, Option.bind_eq_some_iff] at built
  rcases built with ⟨sorted, returned, same⟩
  cases same
  rcases sortedSystems_spec returned with ⟨unique, perm, ordered⟩
  have valid : ∀ sys ∈ sorted, (validate sys.descriptor.params).isSome = true :=
    fun sys member => validated sys (perm.mem_iff.mp member)
  cases sorted with
  | nil =>
      constructor
      · intro _ first member
        cases member
      · intro _
        refine ⟨⟨[]⟩, rfl, rfl, ?_⟩
        intro i parents found
        cases found
  | cons first rest =>
      rw [List.forall_mem_cons] at valid
      rcases Option.isSome_iff_exists.mp valid.1 with ⟨accepted, validFirst⟩
      rcases fromSystem_of_validate validFirst with ⟨props, collected⟩
      constructor
      · rintro ⟨schedule, made, _⟩ head isHead
        cases isHead
        by_contra named
        simp [fromStage, collected, named] at made
      · intro bare
        have bareFirst := bare first rfl
        have lower : ∀ front sys back, rest = front ++ sys :: back → ∀ history props,
            ∀ j ∈ parentsOf (indices (first :: rest)) history props sys (1 + front.length),
              j < 1 + front.length := by
          intro front sys back split history props j parent
          have whole : first :: rest = (first :: front) ++ sys :: back := by
            rw [split, List.cons_append]
          have before := parentsOf_lt ordered perm unique whole history props (j := j)
          rw [List.length_cons, Nat.add_comm] at before
          exact before parent
        have forward : ∀ (i : Nat) (parents : List Nat), [([] : List Nat)][i]? = some parents →
            ∀ j ∈ parents, j < i := by
          intro i parents found j member
          rw [List.getElem?_singleton] at found
          split at found <;> cases found
          cases member
        rcases extends_forward valid.2 lower [props] rfl forward with
          ⟨final, result, folded, length, forwardResult⟩
        refine ⟨result, ?_, ?_, forwardResult⟩
        · simp [fromStage, collected, bareFirst, folded]
        · rw [length, List.length_cons, Nat.add_comm]

end Schedule

section Jobs

open JobSystem

variable {Body : Type} {systems : List (ErasedSystem Body)} {schedule : Schedule}
  {graph : HomogeneousJobGraph (ErasedSystem Body)}

/-- The graph has the systems as jobs and an edge from each parent. -/
theorem Schedule.jobs_spec (made : schedule.jobs systems = some graph) :
    graph.jobs = systems ∧ ∀ parent child, graph.IsEdge parent child →
      ∃ parents, schedule.parents[child]? = some parents ∧ parent ∈ parents := by
  -- First the parents of one system, then all systems.
  have one : ∀ (parents : List Nat) (i : Nat) (graph : HomogeneousJobGraph (ErasedSystem Body)),
      (parents.foldl (fun graph j => graph.addDependency j i) graph).jobs = graph.jobs ∧
        ∀ edge ∈ (parents.foldl (fun graph j => graph.addDependency j i) graph).edges,
          edge ∈ graph.edges ∨ edge.2 = i ∧ edge.1 ∈ parents := by
    intro parents i
    induction parents with
    | nil => exact fun graph => ⟨rfl, fun edge member => Or.inl member⟩
    | cons parent parents induction =>
        intro graph
        rcases induction (graph.addDependency parent i) with ⟨jobs, edges⟩
        refine ⟨jobs, fun edge member => ?_⟩
        rcases edges edge member with before | ⟨child, inRest⟩
        · rcases List.mem_append.mp before with old | new
          · exact Or.inl old
          · cases List.mem_singleton.mp new
            exact Or.inr ⟨rfl, List.mem_cons_self⟩
        · exact Or.inr ⟨child, List.mem_cons_of_mem _ inRest⟩
  have all : ∀ (entries : List (List Nat × Nat)) (graph : HomogeneousJobGraph (ErasedSystem Body)),
      let result := entries.foldl (fun graph entry =>
        entry.1.foldl (fun graph j => graph.addDependency j entry.2) graph) graph
      result.jobs = graph.jobs ∧ ∀ edge ∈ result.edges,
        edge ∈ graph.edges ∨ ∃ parents, (parents, edge.2) ∈ entries ∧ edge.1 ∈ parents := by
    intro entries
    induction entries with
    | nil => exact fun graph => ⟨rfl, fun edge member => Or.inl member⟩
    | cons entry entries induction =>
        intro graph
        rcases one entry.1 entry.2 graph with ⟨jobsOne, edgesOne⟩
        rcases induction (entry.1.foldl (fun graph j => graph.addDependency j entry.2) graph) with
          ⟨jobs, edges⟩
        refine ⟨jobs.trans jobsOne, fun edge member => ?_⟩
        rcases edges edge member with before | ⟨parents, inRest, isParent⟩
        · rcases edgesOne edge before with old | ⟨child, isParent⟩
          · exact Or.inl old
          · exact Or.inr ⟨entry.1, child ▸ List.mem_cons_self, isParent⟩
        · exact Or.inr ⟨parents, List.mem_cons_of_mem _ inRest, isParent⟩
  simp only [Schedule.jobs, Option.bind_eq_bind, Option.bind_eq_some_iff, Option.guard_eq_some',
    Option.pure_def, Option.some.injEq, exists_and_left, exists_const] at made
  rcases made with ⟨_, rfl⟩
  rcases all schedule.parents.zipIdx (HomogeneousJobGraph.new systems) with ⟨jobs, edges⟩
  refine ⟨jobs, fun parent child edge => ?_⟩
  rcases edges _ edge with absent | ⟨parents, member, isParent⟩
  · cases absent
  · exact ⟨parents, List.mem_zipIdx_iff_getElem?.mp member, isParent⟩

/-- Forward parents make a graph that `run_graph` can run to its end. -/
theorem Schedule.Forward.acyclic (forward : schedule.Forward systems)
    (made : schedule.jobs systems = some graph) : graph.Acyclic := by
  rcases jobs_spec made with ⟨jobs, edges⟩
  have before : ∀ parent child, graph.IsEdge parent child →
      parent < child ∧ child < graph.jobs.length := by
    intro parent child edge
    rcases edges parent child edge with ⟨parents, found, isParent⟩
    refine ⟨forward.forward child parents found parent isParent, ?_⟩
    rw [jobs, ← forward.length]
    exact (List.getElem?_eq_some_iff.mp found).1
  constructor
  · intro edge member
    have position := before edge.1 edge.2 member
    omega
  · intro job cycle
    have path : ∀ goal, Relation.TransGen graph.IsEdge job goal → job < goal := by
      intro goal path
      induction path with
      | single edge => exact (before _ _ edge).1
      | tail _ edge induction => exact Nat.lt_trans induction (before _ _ edge).1
    exact Nat.lt_irrefl job (path job cycle)

end Jobs

section Example

open Sample

/-- A stage with one system, which is ordered after a system that is not in it. -/
def lonelyAfter : SystemStageBuilder Unit := ⟨[bareSystem 1#128 [2#128]]⟩

/-- The assertion on the first system fails. -/
theorem fromStage_lonely : ∃ stage, lonelyAfter.build = some stage ∧
    (∀ sys ∈ lonelyAfter.systems, (validate sys.descriptor.params).isSome = true) ∧
    Schedule.fromStage stage = none := by
  refine ⟨⟨[bareSystem 1#128 [2#128]]⟩, rfl, ?_, rfl⟩
  intro sys member
  cases List.mem_singleton.mp member
  rfl

theorem fromStage_forward_iff_sample :
    ∃ stage schedule, SystemStageBuilder.build ⟨latePair⟩ = some stage ∧
      Schedule.fromStage stage = some schedule ∧ schedule.Forward stage.systems := by
  have built : SystemStageBuilder.build ⟨latePair⟩ = some ⟨latePair.reverse⟩ := rfl
  have validated : ∀ sys ∈ latePair, (validate sys.descriptor.params).isSome = true := by
    intro sys member
    simp only [latePair, List.mem_cons, List.not_mem_nil, or_false] at member
    rcases member with rfl | rfl <;> rfl
  have bare : ∀ first ∈ latePair.reverse.head?, first.descriptor.after = [] := by
    intro first isFirst
    cases isFirst
    rfl
  rcases (Schedule.fromStage_forward_iff built validated).mpr bare with ⟨schedule, made, forward⟩
  exact ⟨_, schedule, built, made, forward⟩

end Example

end Cecs

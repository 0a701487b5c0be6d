import Cecs.Query.Validation
import Cecs.Systems
import Mathlib.Data.Finset.Union

/-! # What the validation of a system excludes

The descriptor checks its parameters against each other; inside one parameter,
which may be a tuple, only the components are checked. -/

namespace Cecs

open Foundation

namespace Param

/-- The assertions of `ensure_query_valid`. -/
def ensureQueryValid [CommandSentinelTypeId] (self : Param) : Option QueryProperties := do
  let compMut ← self.componentsMut ∅
  let compConst ← self.componentsConst ∅
  guard (Disjoint compMut compConst)
  return { exclusive := self.exclusive
           compMut := compMut
           compConst := compConst
           resMut := self.resourcesMut ∅
           resConst := self.resourcesConst ∅ }

end Param

namespace QueryProperties

def default : QueryProperties where
  exclusive := false
  compMut := ∅
  compConst := ∅
  resMut := ∅
  resConst := ∅

def extend (self props : QueryProperties) : QueryProperties where
  exclusive := self.exclusive || props.exclusive
  compMut := self.compMut ∪ props.compMut
  compConst := self.compConst ∪ props.compConst
  resMut := self.resMut ∪ props.resMut
  resConst := self.resConst ∪ props.resConst

def isEmpty (self : QueryProperties) : Bool :=
  !self.exclusive
    && decide (self.compMut = ∅)
    && decide (self.resMut = ∅)
    && decide (self.resConst = ∅)
    && decide (self.compConst = ∅)

/-- One round of the loop over the parameters in `descriptor`. -/
def join [CommandSentinelTypeId] (self : QueryProperties) (param : Param) :
    Option QueryProperties := do
  let props ← param.ensureQueryValid
  guard (props.isDisjoint self || (props.exclusive && self.isEmpty))
  return self.extend props

end QueryProperties

/-- The debug validation in `descriptor`. -/
def validate [CommandSentinelTypeId] (params : List Param) : Option QueryProperties :=
  params.foldlM QueryProperties.join QueryProperties.default

namespace Param

/-- The parameters that are no tuples. -/
def leaves : Param → List Param
  | .unit => []
  | .pair first rest => first.leaves ++ rest.leaves
  | leaf => [leaf]

def fragments : Param → List QueryFragment
  | .query q => [q.fragment]
  | .querySet queries => queries.map Query.fragment
  | .pair first rest => first.fragments ++ rest.fragments
  | _ => []

/-- The components that a parameter grants this access to. -/
def borrowed (self : Param) (access : Access) : Finset TypeId :=
  self.fragments.toFinset.biUnion fun fragment => fragment.borrowed access

/-- The resource that a leaf grants access to, and how. -/
def resource : Param → Option (TypeId × Access)
  | .res ty => some (ty, .shared)
  | .optionRes ty => some (ty, .shared)
  | .resMut ty => some (ty, .exclusive)
  | .optionResMut ty => some (ty, .exclusive)
  | _ => none

/-- The components that a leaf takes out of the set of shared ones. -/
def drops (self : Param) : Finset TypeId :=
  match self with
  | .querySet _ => self.borrowed .exclusive
  | _ => ∅

section Declared

variable {set result : Finset TypeId} {ty : TypeId} {leaf : Param}

theorem mem_borrowed {self : Param} {access : Access} :
    ty ∈ self.borrowed access ↔ ∃ fragment ∈ self.fragments, ty ∈ fragment.borrowed access := by
  simp [borrowed]

theorem fragments_eq (self : Param) : self.fragments = self.leaves.flatMap fragments := by
  induction self with
  | pair first rest inductionFirst inductionRest =>
      rw [fragments, leaves, List.flatMap_append, inductionFirst, inductionRest]
  | _ => simp [fragments, leaves]

theorem mem_borrowed_leaves {self : Param} {access : Access} :
    ty ∈ self.borrowed access ↔ ∃ leaf ∈ self.leaves, ty ∈ leaf.borrowed access := by
  simp only [mem_borrowed, fragments_eq self, List.mem_flatMap]
  constructor
  · rintro ⟨fragment, ⟨leaf, member, inLeaf⟩, borrows⟩
    exact ⟨leaf, member, fragment, inLeaf, borrows⟩
  · rintro ⟨leaf, member, fragment, inLeaf, borrows⟩
    exact ⟨fragment, ⟨leaf, member, inLeaf⟩, borrows⟩

theorem drops_subset (self : Param) : self.drops ⊆ self.borrowed .exclusive := by
  cases self <;> simp [drops]

theorem componentsConst_eq_foldlM (self : Param) (set : Finset TypeId) :
    self.componentsConst set =
      self.leaves.foldlM (fun set leaf => leaf.componentsConst set) set := by
  induction self generalizing set with
  | pair first rest inductionFirst inductionRest =>
      rw [componentsConst, leaves, List.foldlM_append, inductionFirst]
      apply bind_congr
      exact fun middle => inductionRest middle
  | unit => rfl
  | _ => simp [leaves]

/-- The leaf looks at the types declared before it. -/
def Checks (leaf : Param) (ty : TypeId) : Prop :=
  ∃ fragment ∈ leaf.fragments, ∃ part ∈ fragment.leaves, part.checks = some ty

/-- The trials of a query set, each on a copy of the set. -/
theorem mapM_typesMut {queries : List Query} {sets : List (Finset TypeId)}
    (accepted : queries.mapM (fun query => query.fragment.typesMut set) = some sets) :
    sets = queries.map (fun query => set ∪ query.fragment.borrowed .exclusive) ∧
      ∀ query ∈ queries, query.fragment.Unrepeated set := by
  induction queries generalizing sets with
  | nil =>
      cases accepted
      exact ⟨rfl, fun _ member => absurd member List.not_mem_nil⟩
  | cons query queries induction =>
      simp only [List.mapM_cons, Option.bind_eq_bind, Option.bind_eq_some_iff, Option.pure_def,
        Option.some.injEq, QueryFragment.typesMut_eq_some_iff] at accepted
      rcases accepted with ⟨_, ⟨rfl, unrepeated⟩, rest, acceptedRest, rfl⟩
      rcases induction acceptedRest with ⟨rfl, unrepeatedRest⟩
      exact ⟨rfl, List.forall_mem_cons.mpr ⟨unrepeated, unrepeatedRest⟩⟩

theorem mem_foldl_union {α : Type} {sets : α → Finset TypeId} {list : List α}
    {start : Finset TypeId} :
    ty ∈ (list.map sets).foldl (· ∪ ·) start ↔
      ty ∈ start ∨ ∃ element ∈ list, ty ∈ sets element := by
  induction list generalizing start with
  | nil => simp
  | cons head list induction =>
      rw [List.map_cons, List.foldl_cons, induction, Finset.mem_union]
      simp [or_assoc]

/-- What `components_mut` adds, and what it has then checked. -/
theorem componentsMut_spec {self : Param} (accepted : self.componentsMut set = some result) :
    result = set ∪ self.borrowed .exclusive ∧
      (∀ leaf ∈ self.leaves, ∀ ty, leaf.Checks ty → ty ∉ set) ∧
      self.leaves.Pairwise fun before leaf =>
        ∀ ty, leaf.Checks ty → ty ∉ before.borrowed .exclusive := by
  induction self generalizing set result with
  | pair first rest inductionFirst inductionRest =>
      rw [componentsMut, Option.bind_eq_bind, Option.bind_eq_some_iff] at accepted
      rcases accepted with ⟨middle, acceptedFirst, acceptedRest⟩
      rcases inductionFirst acceptedFirst with ⟨rfl, freshFirst, apartFirst⟩
      rcases inductionRest acceptedRest with ⟨rfl, freshRest, apartRest⟩
      refine ⟨?_, ?_, List.pairwise_append.mpr ⟨apartFirst, apartRest, ?_⟩⟩
      · rw [Finset.union_assoc]
        congr 1
        ext ty
        simp [mem_borrowed, fragments, or_and_right, exists_or]
      · intro leaf member ty checks declared
        rcases List.mem_append.mp member with inFirst | inRest
        · exact freshFirst leaf inFirst ty checks declared
        · exact freshRest leaf inRest ty checks (Finset.mem_union_left _ declared)
      · intro before memberBefore leaf member ty checks borrowed
        exact freshRest leaf member ty checks
          (Finset.mem_union_right _ (mem_borrowed_leaves.mpr ⟨before, memberBefore, borrowed⟩))
  | query q =>
      rcases QueryFragment.typesMut_eq_some_iff.mp accepted with ⟨rfl, unrepeated⟩
      refine ⟨by simp [borrowed, fragments], ?_, List.pairwise_singleton ..⟩
      rintro leaf member ty ⟨fragment, inLeaf, part, inFragment, checks⟩
      rw [List.mem_singleton.mp member, fragments, List.mem_singleton] at inLeaf
      subst inLeaf
      exact unrepeated.undeclared part inFragment ty checks
  | querySet queries =>
      simp only [componentsMut, Option.bind_eq_bind, Option.bind_eq_some_iff, Option.pure_def,
        Option.some.injEq] at accepted
      rcases accepted with ⟨sets, trials, rfl⟩
      rcases mapM_typesMut trials with ⟨rfl, unrepeated⟩
      refine ⟨?_, ?_, List.pairwise_singleton ..⟩
      · ext ty
        rw [mem_foldl_union, Finset.mem_union, mem_borrowed]
        simp only [fragments, List.mem_map, exists_exists_and_eq_and, Finset.mem_union]
        constructor
        · rintro (inSet | ⟨query, member, inSet | borrows⟩)
          · exact Or.inl inSet
          · exact Or.inl inSet
          · exact Or.inr ⟨query, member, borrows⟩
        · rintro (inSet | ⟨query, member, borrows⟩)
          · exact Or.inl inSet
          · exact Or.inr ⟨query, member, Or.inr borrows⟩
      · rintro leaf member ty ⟨fragment, inLeaf, part, inFragment, checks⟩
        rw [List.mem_singleton.mp member, fragments, List.mem_map] at inLeaf
        rcases inLeaf with ⟨query, memberQuery, rfl⟩
        exact (unrepeated query memberQuery).undeclared part inFragment ty checks
  | _ =>
      cases accepted
      exact ⟨by simp [borrowed, fragments], by simp [leaves, Checks, fragments], by simp [leaves]⟩

theorem ne_pair_of_mem_leaves {self : Param} (member : leaf ∈ self.leaves) (first rest : Param) :
    leaf ≠ .pair first rest := by
  induction self with
  | pair left right inductionLeft inductionRight =>
      rcases List.mem_append.mp member with inLeft | inRight
      · exact inductionLeft inLeft
      · exact inductionRight inRight
  | unit => cases member
  | _ =>
      rw [List.mem_singleton.mp member]
      exact Param.noConfusion

/-- What a leaf does to the set of shared components. -/
theorem componentsConst_leaf (notPair : ∀ first rest, leaf ≠ .pair first rest)
    (accepted : leaf.componentsConst set = some result) :
    result = (set ∪ leaf.borrowed .shared) \ leaf.drops := by
  cases leaf with
  | query q =>
      simp only [componentsConst, Option.some.injEq, QueryFragment.typesConst_eq] at accepted
      simp [← accepted, borrowed, fragments, drops]
  | querySet queries =>
      simp only [componentsConst, Option.bind_eq_bind, Option.bind_eq_some_iff, Option.pure_def,
        Option.some.injEq, QueryFragment.typesConst_eq] at accepted
      rcases accepted with ⟨sets, trials, rfl⟩
      rcases mapM_typesMut trials with ⟨rfl, _⟩
      ext ty
      have shared : ty ∈ queries.foldl
          (fun set query => set ∪ query.fragment.borrowed .shared) set ↔
            ty ∈ set ∪ borrowed (.querySet queries) .shared := by
        rw [← @List.foldl_map _ _ _ (fun query : Query => query.fragment.borrowed .shared)
          (· ∪ ·), mem_foldl_union, Finset.mem_union, mem_borrowed]
        simp [fragments]
      have mutable : ty ∈ (queries.map fun query =>
          ∅ ∪ query.fragment.borrowed .exclusive).foldl (· ∪ ·) ∅ ↔
            ty ∈ drops (.querySet queries) := by
        rw [mem_foldl_union, drops, mem_borrowed]
        simp [fragments]
      rw [Finset.mem_sdiff, Finset.mem_sdiff, shared, mutable]
  | pair first rest => exact absurd rfl (notPair first rest)
  | _ =>
      cases accepted
      simp [borrowed, fragments, drops]

/-- A shared component is declared so, unless a query set takes it out. -/
theorem componentsConst_foldlM {list : List Param}
    (notPair : ∀ leaf ∈ list, ∀ first rest, leaf ≠ .pair first rest)
    (accepted : list.foldlM (fun set leaf => leaf.componentsConst set) set = some result)
    (declared : ty ∈ set ∨ ∃ leaf ∈ list, ty ∈ leaf.borrowed .shared) :
    ty ∈ result ∨ ∃ leaf ∈ list, ty ∈ leaf.drops := by
  induction list generalizing set with
  | nil =>
      cases accepted
      simpa using declared
  | cons head list induction =>
      rw [List.foldlM_cons, Option.bind_eq_bind, Option.bind_eq_some_iff] at accepted
      rcases accepted with ⟨middle, step, rest⟩
      have middleEq := componentsConst_leaf (notPair head List.mem_cons_self) step
      by_cases dropped : ty ∈ head.drops
      · exact Or.inr ⟨head, List.mem_cons_self, dropped⟩
      · have later : ty ∈ middle ∨ ∃ leaf ∈ list, ty ∈ leaf.borrowed .shared := by
          rw [middleEq, Finset.mem_sdiff, Finset.mem_union]
          rcases declared with inSet | ⟨leaf, member, shared⟩
          · exact Or.inl ⟨Or.inl inSet, dropped⟩
          · rcases List.mem_cons.mp member with rfl | inRest
            · exact Or.inl ⟨Or.inr shared, dropped⟩
            · exact Or.inr ⟨leaf, inRest, shared⟩
        rcases induction (fun leaf member => notPair leaf (List.mem_cons_of_mem _ member)) rest
          later with kept | ⟨leaf, member, drops⟩
        · exact Or.inl kept
        · exact Or.inr ⟨leaf, List.mem_cons_of_mem _ member, drops⟩

/-- If no later query set takes it out, only the leaf itself can. -/
theorem componentsConst_kept {list : List Param}
    (notPair : ∀ leaf ∈ list, ∀ first rest, leaf ≠ .pair first rest)
    (accepted : list.foldlM (fun set leaf => leaf.componentsConst set) set = some result)
    (kept : list.Pairwise fun before leaf => ∀ ty ∈ before.borrowed .shared, ty ∉ leaf.drops)
    (member : leaf ∈ list) (shared : ty ∈ leaf.borrowed .shared) :
    ty ∈ result ∨ ty ∈ leaf.drops := by
  induction list generalizing set with
  | nil => cases member
  | cons head list induction =>
      rw [List.foldlM_cons, Option.bind_eq_bind, Option.bind_eq_some_iff] at accepted
      rcases accepted with ⟨middle, step, rest⟩
      have notPairRest := fun leaf member => notPair leaf (List.mem_cons_of_mem _ member)
      rcases List.pairwise_cons.mp kept with ⟨keptHead, keptRest⟩
      rcases List.mem_cons.mp member with rfl | inRest
      · by_cases dropped : ty ∈ leaf.drops
        · exact Or.inr dropped
        · have declared : ty ∈ middle := by
            rw [componentsConst_leaf (notPair leaf List.mem_cons_self) step]
            exact Finset.mem_sdiff.mpr ⟨Finset.mem_union_right _ shared, dropped⟩
          rcases componentsConst_foldlM notPairRest rest (Or.inl declared) with
            survives | ⟨other, memberOther, drops⟩
          · exact Or.inl survives
          · exact absurd drops (keptHead other memberOther ty shared)
      · exact induction notPairRest rest keptRest inRest

end Declared

section Resources

variable {leaf : Param} {ty : TypeId}

theorem mem_resourcesConst {self : Param} {set : Finset TypeId} :
    ty ∈ self.resourcesConst set ↔
      ty ∈ set ∨ ∃ leaf ∈ self.leaves, ∃ access, leaf.resource = some (ty, access) := by
  induction self generalizing set with
  | pair first rest inductionFirst inductionRest =>
      rw [resourcesConst, inductionRest, inductionFirst, leaves]
      simp only [List.mem_append, or_and_right, exists_or, or_assoc]
  | _ => simp [resourcesConst, leaves, resource, eq_comm, or_comm]

theorem mem_resourcesMut [CommandSentinelTypeId] {self : Param} {set : Finset TypeId} :
    ty ∈ self.resourcesMut set ↔
      ty ∈ set ∨ (∃ leaf ∈ self.leaves, leaf.resource = some (ty, .exclusive)) ∨
        Param.commands ∈ self.leaves ∧ ty = commandSentinel := by
  induction self generalizing set with
  | pair first rest inductionFirst inductionRest =>
      rw [resourcesMut, inductionRest, inductionFirst, leaves]
      simp only [List.mem_append, or_and_right, exists_or, or_assoc, or_left_comm]
  | _ => simp [resourcesMut, leaves, resource, eq_comm, or_comm]

theorem exclusive_iff {self : Param} :
    self.exclusive = true ↔ Param.worldAccess ∈ self.leaves := by
  induction self with
  | pair first rest inductionFirst inductionRest =>
      rw [exclusive, Bool.or_eq_true, inductionFirst, inductionRest, leaves, List.mem_append]
  | _ => simp [exclusive, leaves]

end Resources

section Conflicts

variable {leaf other : Param} {ty : TypeId}

/-- Both grant access to one component or resource, one of them mutably. -/
def Conflicts (leaf other : Param) : Prop :=
  ∃ ty access otherAccess, (access = .exclusive ∨ otherAccess = .exclusive) ∧
    (ty ∈ leaf.borrowed access ∧ ty ∈ other.borrowed otherAccess ∨
      leaf.resource = some (ty, access) ∧ other.resource = some (ty, otherAccess))

/-- The two may be parameters of one system. -/
structure Clear (leaf other : Param) : Prop where
  apart : ¬leaf.Conflicts other
  oneCommands : ¬(leaf = .commands ∧ other = .commands)
  noWorldAccess : leaf ≠ .worldAccess ∧ other ≠ .worldAccess

/-- Pairs inside one tuple at which the validation does not look. -/
inductive Overlooked (leaf other : Param) : Prop where
  | resource {ty : TypeId} {access otherAccess : Access}
      (one : access = .exclusive ∨ otherAccess = .exclusive)
      (grants : leaf.resource = some (ty, access))
      (grantsOther : other.resource = some (ty, otherAccess))
  | commands (both : leaf = .commands ∧ other = .commands)
  | worldAccess (one : leaf = .worldAccess ∨ other = .worldAccess)
  | option {ty : TypeId} {fragment : QueryFragment} (borrows : ty ∈ leaf.borrowed .exclusive)
      (member : fragment ∈ other.fragments) (option : .optionRefMut ty ∈ fragment.leaves)
  | dropped {ty : TypeId} (shares : ty ∈ leaf.borrowed .shared) (drops : ty ∈ other.drops)

theorem Clear.not_overlooked (clear : leaf.Clear other) : ¬leaf.Overlooked other := by
  intro overlooked
  cases overlooked with
  | resource one grants grantsOther =>
      exact clear.apart ⟨_, _, _, one, Or.inr ⟨grants, grantsOther⟩⟩
  | commands both => exact clear.oneCommands both
  | worldAccess one => exact one.elim clear.noWorldAccess.1 clear.noWorldAccess.2
  | @option ty fragment borrows member option =>
      have mutable : ty ∈ other.borrowed .exclusive :=
        mem_borrowed.mpr ⟨fragment, member, QueryFragment.mem_borrowed.mpr ⟨_, option, rfl⟩⟩
      exact clear.apart ⟨ty, _, _, Or.inl rfl, Or.inl ⟨borrows, mutable⟩⟩
  | @dropped ty shares drops =>
      exact clear.apart ⟨ty, _, _, Or.inr rfl, Or.inl ⟨shares, drops_subset other drops⟩⟩

/-- A mutable borrow is checked, or it is an `Option<&mut T>`. -/
theorem checks_or_option (borrows : ty ∈ leaf.borrowed .exclusive) :
    leaf.Checks ty ∨ ∃ fragment ∈ leaf.fragments, .optionRefMut ty ∈ fragment.leaves := by
  rcases mem_borrowed.mp borrows with ⟨fragment, member, inFragment⟩
  rcases QueryFragment.mem_borrowed.mp inFragment with ⟨part, partMember, borrow⟩
  rcases QueryFragment.exclusive_of_borrow borrow with checks | rfl
  · exact Or.inl ⟨fragment, member, part, partMember, checks⟩
  · exact Or.inr ⟨fragment, member, partMember⟩

theorem access_of_borrowed {access : Access} (borrows : ty ∈ leaf.borrowed access) :
    access = .shared ∨ access = .exclusive := by
  rcases mem_borrowed.mp borrows with ⟨fragment, member, inFragment⟩
  rcases QueryFragment.mem_borrowed.mp inFragment with ⟨part, _, borrow⟩
  cases part <;> cases borrow <;> simp

/-- Inside one parameter nothing else conflicts. -/
theorem clear_of_not_overlooked [CommandSentinelTypeId] {self : Param} {props : QueryProperties}
    (accepted : self.ensureQueryValid = some props)
    (seen : self.leaves.Pairwise fun leaf other => ¬leaf.Overlooked other) :
    self.leaves.Pairwise Clear := by
  simp only [ensureQueryValid, Option.bind_eq_bind, Option.bind_eq_some_iff,
    Option.guard_eq_some'] at accepted
  rcases accepted with ⟨compMut, declaresMut, compConst, declaresConst, _, disjoint, _⟩
  rcases componentsMut_spec declaresMut with ⟨rfl, _, checked⟩
  rw [componentsConst_eq_foldlM] at declaresConst
  rw [Finset.empty_union, Finset.disjoint_left] at disjoint
  have kept : self.leaves.Pairwise fun before leaf =>
      ∀ ty ∈ before.borrowed .shared, ty ∉ leaf.drops :=
    seen.imp fun notOverlooked ty shares drops => notOverlooked (.dropped shares drops)
  -- What a leaf shares is declared shared, or the leaf borrows it mutably as well.
  have shared : ∀ leaf ∈ self.leaves, ∀ ty ∈ leaf.borrowed .shared,
      ty ∈ self.borrowed .exclusive → ty ∈ leaf.borrowed .exclusive := by
    intro leaf member ty shares mutable
    rcases componentsConst_kept (fun leaf => ne_pair_of_mem_leaves) declaresConst kept member
      shares with declared | drops
    · exact absurd declared (disjoint mutable)
    · exact drops_subset leaf drops
  refine (seen.and checked).imp_of_mem ?_
  rintro leaf other member memberOther ⟨notOverlooked, check⟩
  -- Both borrow mutably: the later one looks, or it is optional.
  have mutable : ∀ ty ∈ leaf.borrowed .exclusive, ty ∉ other.borrowed .exclusive := by
    intro ty borrows borrowsOther
    rcases checks_or_option borrowsOther with checks | ⟨fragment, inOther, option⟩
    · exact check ty checks borrows
    · exact notOverlooked (.option borrows inOther option)
  refine ⟨?_, fun both => notOverlooked (.commands both), ?_⟩
  · rintro ⟨ty, access, otherAccess, one, ⟨borrows, borrowsOther⟩ | ⟨grants, grantsOther⟩⟩
    · have whole : ∀ leaf ∈ self.leaves, ty ∈ leaf.borrowed .exclusive →
          ty ∈ self.borrowed .exclusive :=
        fun leaf member inLeaf => mem_borrowed_leaves.mpr ⟨leaf, member, inLeaf⟩
      rcases access_of_borrowed borrows with rfl | rfl
      · have exclusive := one.resolve_left (by decide)
        subst exclusive
        exact mutable ty (shared leaf member ty borrows (whole other memberOther borrowsOther))
          borrowsOther
      · rcases access_of_borrowed borrowsOther with rfl | rfl
        · exact mutable ty borrows
            (shared other memberOther ty borrowsOther (whole leaf member borrows))
        · exact mutable ty borrows borrowsOther
    · exact notOverlooked (.resource one grants grantsOther)
  · exact ⟨fun same => notOverlooked (.worldAccess (Or.inl same)),
      fun same => notOverlooked (.worldAccess (Or.inr same))⟩

end Conflicts

section Declared

variable [CommandSentinelTypeId] {self leaf : Param} {props : QueryProperties} {ty : TypeId}

/-- The properties of a parameter tell what its leaves have access to. -/
structure Declares (param : Param) (props : QueryProperties) : Prop where
  exclusive : Param.worldAccess ∈ param.leaves → props.exclusive = true
  compMut : ∀ leaf ∈ param.leaves, ∀ ty ∈ leaf.borrowed .exclusive, ty ∈ props.compMut
  compConst : ∀ leaf ∈ param.leaves, ∀ ty ∈ leaf.borrowed .shared,
    ty ∈ props.compConst ∨ ty ∈ props.compMut
  resMut : ∀ leaf ∈ param.leaves, ∀ ty, leaf.resource = some (ty, .exclusive) →
    ty ∈ props.resMut
  resConst : ∀ leaf ∈ param.leaves, ∀ ty access, leaf.resource = some (ty, access) →
    ty ∈ props.resConst
  commands : Param.commands ∈ param.leaves → commandSentinel ∈ props.resMut

/-- The sets that a parameter collects, whether they are disjoint or not. -/
theorem declares_of_components {compMut compConst : Finset TypeId}
    (declaresMut : self.componentsMut ∅ = some compMut)
    (declaresConst : self.componentsConst ∅ = some compConst) :
    self.Declares { exclusive := self.exclusive, compMut, compConst
                    resMut := self.resourcesMut ∅, resConst := self.resourcesConst ∅ } := by
  rcases componentsMut_spec declaresMut with ⟨rfl, _, _⟩
  rw [componentsConst_eq_foldlM] at declaresConst
  have mutable : ∀ leaf ∈ self.leaves, ∀ ty ∈ leaf.borrowed .exclusive,
      ty ∈ ∅ ∪ self.borrowed .exclusive := by
    intro leaf member ty borrows
    rw [Finset.empty_union]
    exact mem_borrowed_leaves.mpr ⟨leaf, member, borrows⟩
  exact {
    exclusive := exclusive_iff.mpr
    compMut := mutable
    compConst := by
      intro leaf member ty shares
      rcases componentsConst_foldlM (fun leaf => ne_pair_of_mem_leaves) declaresConst
        (Or.inr ⟨leaf, member, shares⟩) with declared | ⟨other, memberOther, drops⟩
      · exact Or.inl declared
      · exact Or.inr (mutable other memberOther ty (drops_subset other drops))
    resMut := fun leaf member ty grants =>
      mem_resourcesMut.mpr (Or.inr (Or.inl ⟨leaf, member, grants⟩))
    resConst := fun leaf member ty access grants =>
      mem_resourcesConst.mpr (Or.inr ⟨leaf, member, access, grants⟩)
    commands := fun member => mem_resourcesMut.mpr (Or.inr (Or.inr ⟨member, rfl⟩)) }

theorem declares (accepted : self.ensureQueryValid = some props) : self.Declares props := by
  simp only [ensureQueryValid, Option.bind_eq_bind, Option.bind_eq_some_iff,
    Option.guard_eq_some', Option.pure_def, Option.some.injEq, exists_const] at accepted
  rcases accepted with ⟨compMut, declaresMut, compConst, declaresConst, _, rfl⟩
  exact declares_of_components declaresMut declaresConst

theorem Declares.borrowed {param : Param} (declares : param.Declares props)
    (member : leaf ∈ param.leaves) {access : Access} (borrows : ty ∈ leaf.borrowed access) :
    ty ∈ props.compConst ∨ ty ∈ props.compMut := by
  rcases access_of_borrowed borrows with rfl | rfl
  · exact declares.compConst leaf member ty borrows
  · exact Or.inr (declares.compMut leaf member ty borrows)

/-- The assertion of `descriptor` about a parameter and the one before it. -/
def Admissible (props other : QueryProperties) : Prop :=
  props.isDisjoint other = true ∨ props.exclusive = true ∧ other.isEmpty = true

omit [CommandSentinelTypeId] in
theorem Admissible.of_extend {start other : QueryProperties}
    (admissible : Admissible props (start.extend other)) :
    Admissible props start ∧ Admissible props other := by
  rcases admissible with disjoint | ⟨exclusive, empty⟩
  · simp only [QueryProperties.isDisjoint, QueryProperties.extend, Bool.and_eq_true,
      Bool.not_eq_true', Bool.or_eq_false_iff, decide_eq_true_eq,
      Finset.disjoint_union_right] at disjoint
    rcases disjoint with ⟨⟨⟨⟨⟨⟨⟨own, startNot, otherNot⟩, a⟩, b⟩, c⟩, d⟩, e⟩, f⟩
    constructor
    · exact Or.inl (by simp [QueryProperties.isDisjoint, own, startNot, a, b, c, d, e, f])
    · exact Or.inl (by simp [QueryProperties.isDisjoint, own, otherNot, a, b, c, d, e, f])
  · simp only [QueryProperties.isEmpty, QueryProperties.extend, Bool.and_eq_true,
      Bool.not_eq_true', Bool.or_eq_false_iff, decide_eq_true_eq, Finset.union_eq_empty] at empty
    rcases empty with ⟨⟨⟨⟨⟨startNot, otherNot⟩, a⟩, b⟩, c⟩, d⟩
    constructor
    · exact Or.inr ⟨exclusive, by simp [QueryProperties.isEmpty, startNot, a, b, c, d]⟩
    · exact Or.inr ⟨exclusive, by simp [QueryProperties.isEmpty, otherNot, a, b, c, d]⟩

/-- Each parameter was compared with all before it. -/
theorem admitted {params : List Param} {start result : QueryProperties}
    (accepted : params.foldlM QueryProperties.join start = some result) :
    (∀ param ∈ params, ∃ props, param.ensureQueryValid = some props ∧ Admissible props start) ∧
      params.Pairwise fun before param => ∃ propsBefore props,
        before.ensureQueryValid = some propsBefore ∧ param.ensureQueryValid = some props ∧
          Admissible props propsBefore := by
  induction params generalizing start with
  | nil => exact ⟨fun _ member => absurd member List.not_mem_nil, List.Pairwise.nil⟩
  | cons param params induction =>
      rw [List.foldlM_cons, Option.bind_eq_bind, Option.bind_eq_some_iff] at accepted
      rcases accepted with ⟨middle, step, rest⟩
      simp only [QueryProperties.join, Option.bind_eq_bind, Option.bind_eq_some_iff,
        Option.guard_eq_some', Option.pure_def, Option.some.injEq, exists_const,
        Bool.or_eq_true, Bool.and_eq_true] at step
      rcases step with ⟨props, valid, admissible, rfl⟩
      rcases induction rest with ⟨later, pairs⟩
      constructor
      · intro other member
        rcases List.mem_cons.mp member with rfl | inRest
        · exact ⟨props, valid, admissible⟩
        · rcases later other inRest with ⟨propsOther, validOther, both⟩
          exact ⟨propsOther, validOther, both.of_extend.1⟩
      · refine List.pairwise_cons.mpr ⟨?_, pairs⟩
        intro other member
        rcases later other member with ⟨propsOther, validOther, both⟩
        exact ⟨props, propsOther, valid, validOther, both.of_extend.2⟩

/-- Leaves of different parameters are apart. -/
theorem Admissible.clear {other otherLeaf : Param} {propsBefore : QueryProperties}
    (before : self.Declares propsBefore) (after : other.Declares props)
    (admissible : Admissible props propsBefore) (member : leaf ∈ self.leaves)
    (memberOther : otherLeaf ∈ other.leaves) (noAccess : otherLeaf ≠ .worldAccess) :
    leaf.Clear otherLeaf := by
  rcases admissible with disjoint | ⟨_, empty⟩
  · simp only [QueryProperties.isDisjoint, Bool.and_eq_true, Bool.not_eq_true',
      decide_eq_true_eq, Finset.disjoint_left] at disjoint
    rcases disjoint with ⟨⟨⟨⟨⟨⟨⟨_, notExclusive⟩, mutConst⟩, resMutConst⟩, mutMut⟩, resMutMut⟩,
      constMut⟩, resConstMut⟩
    refine ⟨?_, ?_, ?_, noAccess⟩
    · rintro ⟨ty, access, otherAccess, one, ⟨borrows, borrowsOther⟩ | ⟨grants, grantsOther⟩⟩
      · have declared := before.borrowed member borrows
        have declaredOther := after.borrowed memberOther borrowsOther
        rcases one with rfl | rfl
        · have mutable := before.compMut leaf member ty borrows
          exact declaredOther.elim (fun shared => constMut shared mutable)
            fun exclusive => mutMut exclusive mutable
        · have mutable := after.compMut otherLeaf memberOther ty borrowsOther
          exact declared.elim (mutConst mutable) (mutMut mutable)
      · have declared := before.resConst leaf member ty access grants
        have declaredOther := after.resConst otherLeaf memberOther ty otherAccess grantsOther
        rcases one with rfl | rfl
        · exact resConstMut declaredOther (before.resMut leaf member ty grants)
        · exact resMutConst (after.resMut otherLeaf memberOther ty grantsOther) declared
    · rintro ⟨rfl, rfl⟩
      exact resMutMut (after.commands memberOther) (before.commands member)
    · rintro rfl
      rw [before.exclusive member] at notExclusive
      cases notExclusive
  · simp only [QueryProperties.isEmpty, Bool.and_eq_true, Bool.not_eq_true',
      decide_eq_true_eq] at empty
    rcases empty with ⟨⟨⟨⟨notExclusive, noMut⟩, noResMut⟩, noResConst⟩, noConst⟩
    refine ⟨?_, ?_, ?_, noAccess⟩
    · rintro ⟨ty, access, otherAccess, _, ⟨borrows, _⟩ | ⟨grants, _⟩⟩
      · have declared := before.borrowed member borrows
        simp [noMut, noConst] at declared
      · have declared := before.resConst leaf member ty access grants
        simp [noResConst] at declared
    · rintro ⟨rfl, _⟩
      have declared := before.commands member
      simp [noResMut] at declared
    · rintro rfl
      rw [before.exclusive member] at notExclusive
      cases notExclusive

end Declared

end Param

section Validation

variable [CommandSentinelTypeId] {params : List Param} {props : QueryProperties}

/-- What the parameters of a system are trusted to be. -/
structure Exclusive (leaves : List Param) : Prop where
  apart : leaves.Pairwise fun leaf other => ¬leaf.Conflicts other
  oneCommands : leaves.Pairwise fun leaf other => ¬(leaf = .commands ∧ other = .commands)
  alone : Param.worldAccess ∈ leaves → leaves = [.worldAccess]

omit [CommandSentinelTypeId] in
theorem exclusive_iff_clear {leaves : List Param} :
    Exclusive leaves ↔ leaves.Pairwise Param.Clear := by
  constructor
  · intro exclusive
    by_cases access : Param.worldAccess ∈ leaves
    · rw [exclusive.alone access]
      exact List.pairwise_singleton ..
    · refine (exclusive.apart.and exclusive.oneCommands).imp_of_mem ?_
      intro leaf other member memberOther both
      exact ⟨both.1, both.2, fun same => access (same ▸ member),
        fun same => access (same ▸ memberOther)⟩
  · intro clear
    refine ⟨clear.imp Param.Clear.apart, clear.imp Param.Clear.oneCommands, ?_⟩
    intro access
    rcases List.append_of_mem access with ⟨front, back, rfl⟩
    rcases List.pairwise_append.mp clear with ⟨_, rest, across⟩
    have noBack : back = [] := by
      rw [List.eq_nil_iff_forall_not_mem]
      exact fun leaf member => ((List.pairwise_cons.mp rest).1 leaf member).noWorldAccess.1 rfl
    have noFront : front = [] := by
      rw [List.eq_nil_iff_forall_not_mem]
      exact fun leaf member => (across leaf member _ List.mem_cons_self).noWorldAccess.2 rfl
    rw [noFront, noBack]
    rfl

/-- Accepted parameters are exclusive exactly when no tuple holds a pair that the
validation overlooks and nothing comes before `WorldAccess`. -/
theorem validate_exclusive_iff (accepted : validate params = some props) :
    Exclusive (params.flatMap Param.leaves) ↔
      (∀ param ∈ params, param.leaves.Pairwise fun leaf other => ¬leaf.Overlooked other) ∧
        params.Pairwise fun param other =>
          ∀ leaf ∈ param.leaves, Param.worldAccess ∉ other.leaves := by
  rcases Param.admitted accepted with ⟨valid, pairs⟩
  rw [exclusive_iff_clear, List.pairwise_flatMap]
  constructor
  · rintro ⟨inside, across⟩
    refine ⟨fun param member => (inside param member).imp Param.Clear.not_overlooked, ?_⟩
    refine across.imp ?_
    intro param other clear leaf member access
    exact (clear leaf member _ access).noWorldAccess.2 rfl
  · rintro ⟨seen, noAccess⟩
    constructor
    · intro param member
      rcases valid param member with ⟨propsParam, validParam, _⟩
      exact Param.clear_of_not_overlooked validParam (seen param member)
    · refine (pairs.and noAccess).imp ?_
      rintro param other ⟨⟨before, after, validBefore, validAfter, admissible⟩, noAccess⟩
      intro leaf member otherLeaf memberOther
      refine admissible.clear (Param.declares validBefore) (Param.declares validAfter) member
        memberOther ?_
      rintro rfl
      exact noAccess leaf member memberOther

end Validation

namespace Sample

scoped instance : CommandSentinelTypeId := ⟨2#128⟩

end Sample

open Sample

/-- A tuple of two `ResMut` of one resource is accepted. -/
theorem validate_twoResMut :
    ¬ ∀ (params : List Param) (props : QueryProperties), validate params = some props →
      Exclusive (params.flatMap Param.leaves) := by
  intro exclusive
  have accepted : validate [.pair (.resMut 7#128) (.resMut 7#128)] =
      some { exclusive := false, compMut := ∅, compConst := ∅
             resMut := {7#128}, resConst := {7#128} } := by
    simp [validate, QueryProperties.join, Param.ensureQueryValid, Param.componentsMut,
      Param.componentsConst, Param.resourcesMut, Param.resourcesConst, Param.exclusive,
      QueryProperties.isDisjoint, QueryProperties.default, QueryProperties.extend]
  have apart := (exclusive _ _ accepted).apart
  simp only [List.flatMap_cons, List.flatMap_nil, Param.leaves, List.append_nil,
    List.cons_append, List.nil_append, List.pairwise_cons] at apart
  exact apart.1 (.resMut 7#128) List.mem_cons_self
    ⟨7#128, .exclusive, .exclusive, Or.inl rfl, Or.inr ⟨rfl, rfl⟩⟩

theorem validate_exclusive_iff_sample :
    Exclusive ([.res 7#128, .resMut 9#128].flatMap Param.leaves) := by
  have accepted : validate [.res 7#128, .resMut 9#128] =
      some { exclusive := false, compMut := ∅, compConst := ∅
             resMut := {9#128}, resConst := {9#128, 7#128} } := by
    simp [validate, QueryProperties.join, Param.ensureQueryValid, Param.componentsMut,
      Param.componentsConst, Param.resourcesMut, Param.resourcesConst, Param.exclusive,
      QueryProperties.isDisjoint, QueryProperties.default, QueryProperties.extend]
  refine (validate_exclusive_iff accepted).mpr ⟨?_, ?_⟩
  · simp [Param.leaves]
  · simp [Param.leaves]

end Cecs

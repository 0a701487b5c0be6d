import Cecs.Query.Rows

/-! # What the validation of a query excludes

The sets that a fragment declares are those of its leaves. `&mut T` looks whether
its type was declared mutable before, `Option<&mut T>` does not. -/

namespace Cecs

open Foundation

namespace QueryFragment

def leaves : QueryFragment → List QueryFragment
  | .pair first rest => first.leaves ++ rest.leaves
  | leaf => [leaf]

/-- The component that a leaf refers to, and how. -/
def borrow : QueryFragment → Option (TypeId × Access)
  | .ref ty => some (ty, .shared)
  | .optionRef ty => some (ty, .shared)
  | .refMut ty => some (ty, .exclusive)
  | .optionRefMut ty => some (ty, .exclusive)
  | _ => none

/-- The components that some leaf refers to in this way. -/
def borrowed (self : QueryFragment) (access : Access) : Finset TypeId :=
  (self.leaves.filterMap fun leaf =>
    leaf.borrow.bind fun pair => if pair.2 = access then some pair.1 else none).toFinset

/-- The mutable leaves that look whether their type is declared already. -/
def checks : QueryFragment → Option TypeId
  | .refMut ty => some ty
  | _ => none

section Declared

variable {set result : Finset TypeId} {ty : TypeId}

theorem mem_borrowed {self : QueryFragment} {access : Access} :
    ty ∈ self.borrowed access ↔ ∃ leaf ∈ self.leaves, leaf.borrow = some (ty, access) := by
  rw [borrowed, List.mem_toFinset, List.mem_filterMap]
  apply exists_congr
  intro leaf
  cases leaf.borrow with
  | none => simp
  | some pair => simp [Prod.ext_iff, and_comm]

@[simp] theorem borrowed_pair (first rest : QueryFragment) (access : Access) :
    (pair first rest).borrowed access = first.borrowed access ∪ rest.borrowed access := by
  simp [borrowed, leaves]

theorem typesConst_eq (self : QueryFragment) (set : Finset TypeId) :
    self.typesConst set = set ∪ self.borrowed .shared := by
  induction self generalizing set with
  | pair first rest inductionFirst inductionRest =>
      rw [typesConst, inductionFirst, inductionRest, borrowed_pair, Finset.union_assoc]
  | _ => simp [typesConst, borrowed, leaves, borrow]

/-- The leaves that look at the declared types find theirs missing. -/
structure Unrepeated (fragment : QueryFragment) (set : Finset TypeId) : Prop where
  undeclared : ∀ leaf ∈ fragment.leaves, ∀ ty, leaf.checks = some ty → ty ∉ set
  apart : fragment.leaves.Pairwise fun before leaf =>
    ∀ ty, leaf.checks = some ty → before.borrow ≠ some (ty, .exclusive)

theorem unrepeated_pair {first rest : QueryFragment} :
    (pair first rest).Unrepeated set ↔
      first.Unrepeated set ∧ rest.Unrepeated (set ∪ first.borrowed .exclusive) := by
  constructor
  · intro both
    have undeclared := both.undeclared
    have apart := both.apart
    rw [leaves, List.pairwise_append] at apart
    rw [leaves] at undeclared
    refine ⟨⟨fun leaf member => undeclared leaf (List.mem_append_left _ member), apart.1⟩,
      ⟨?_, apart.2.1⟩⟩
    intro leaf member ty checked declared
    rcases Finset.mem_union.mp declared with inSet | inFirst
    · exact undeclared leaf (List.mem_append_right _ member) ty checked inSet
    · rcases mem_borrowed.mp inFirst with ⟨before, memberBefore, borrows⟩
      exact apart.2.2 before memberBefore leaf member ty checked borrows
  · rintro ⟨left, right⟩
    constructor
    · intro leaf member ty checked
      rcases List.mem_append.mp member with inFirst | inRest
      · exact left.undeclared leaf inFirst ty checked
      · exact fun declared =>
          right.undeclared leaf inRest ty checked (Finset.mem_union_left _ declared)
    · refine List.pairwise_append.mpr ⟨left.apart, right.apart, ?_⟩
      intro before memberBefore leaf member ty checked borrows
      exact right.undeclared leaf member ty checked
        (Finset.mem_union_right _ (mem_borrowed.mpr ⟨before, memberBefore, borrows⟩))

/-- What `types_mut` adds, and what it has then checked. -/
theorem typesMut_eq_some_iff {self : QueryFragment} :
    self.typesMut set = some result ↔
      result = set ∪ self.borrowed .exclusive ∧ self.Unrepeated set := by
  induction self generalizing set result with
  | pair first rest inductionFirst inductionRest =>
      rw [typesMut, Option.bind_eq_bind, Option.bind_eq_some_iff, unrepeated_pair,
        borrowed_pair, ← Finset.union_assoc]
      simp only [inductionFirst, inductionRest]
      constructor
      · rintro ⟨middle, ⟨rfl, left⟩, rfl, right⟩
        exact ⟨rfl, left, right⟩
      · rintro ⟨rfl, left, right⟩
        exact ⟨_, ⟨rfl, left⟩, rfl, right⟩
  | refMut ty =>
      have leaf : (refMut ty).Unrepeated set ↔ ty ∉ set := by
        constructor
        · exact fun fresh => fresh.undeclared _ List.mem_cons_self ty rfl
        · exact fun fresh => ⟨by simpa [leaves, checks] using fresh, List.pairwise_singleton ..⟩
      rw [leaf]
      by_cases declared : ty ∈ set
      · simp [typesMut, declared]
      · simp [typesMut, declared, borrowed, leaves, borrow, eq_comm]
  | _ =>
      rw [and_iff_left ⟨by simp [leaves, checks], by simp [leaves]⟩]
      simp [typesMut, borrowed, leaves, borrow, eq_comm]

end Declared

section Exclusive

variable {Value : Type} {table : EntityTable Value}

/-- Two leaves refer to one component, and one of them mutably. -/
def Conflicts (leaf other : QueryFragment) : Prop :=
  ∃ ty access otherAccess, leaf.borrow = some (ty, access) ∧
    other.borrow = some (ty, otherAccess) ∧ (access = .exclusive ∨ otherAccess = .exclusive)

/-- An `Option<&mut T>` whose component another leaf borrows mutably. -/
def RepeatsInOption (leaf other : QueryFragment) : Prop :=
  ∃ ty, leaf.borrow = some (ty, .exclusive) ∧ other = .optionRefMut ty

theorem RepeatsInOption.conflicts {leaf other : QueryFragment}
    (repeats : leaf.RepeatsInOption other) : leaf.Conflicts other := by
  rcases repeats with ⟨ty, borrows, rfl⟩
  exact ⟨ty, .exclusive, .exclusive, borrows, rfl, Or.inl rfl⟩

theorem exclusive_of_borrow {leaf : QueryFragment} {ty : TypeId}
    (borrows : leaf.borrow = some (ty, .exclusive)) :
    leaf.checks = some ty ∨ leaf = .optionRefMut ty := by
  cases leaf <;> simp_all [borrow, checks]

/-- The checks leave one way for two leaves of a fragment to conflict. -/
theorem repeatsInOption_of_conflicts {self : QueryFragment} (unrepeated : self.Unrepeated ∅)
    (disjoint : Disjoint (self.borrowed .exclusive) (self.borrowed .shared)) :
    self.leaves.Pairwise fun before leaf =>
      before.Conflicts leaf → before.RepeatsInOption leaf := by
  rw [Finset.disjoint_left] at disjoint
  refine unrepeated.apart.imp_of_mem ?_
  rintro before leaf memberBefore member apart ⟨ty, access, other, borrowsBefore, borrows, one⟩
  cases access with
  | raw => cases before <;> cases borrowsBefore
  | shared =>
      have exclusive := one.resolve_left (by decide)
      subst exclusive
      exact absurd (mem_borrowed.mpr ⟨before, memberBefore, borrowsBefore⟩)
        (disjoint (mem_borrowed.mpr ⟨leaf, member, borrows⟩))
  | exclusive =>
      cases other with
      | raw => cases leaf <;> cases borrows
      | shared =>
          exact absurd (mem_borrowed.mpr ⟨leaf, member, borrows⟩)
            (disjoint (mem_borrowed.mpr ⟨before, memberBefore, borrowsBefore⟩))
      | exclusive =>
          rcases exclusive_of_borrow borrows with checked | option
          · exact absurd borrowsBefore (apart ty checked)
          · exact ⟨ty, borrowsBefore, option⟩

end Exclusive

end QueryFragment

namespace Item

def references {α : Type} : Item α → List α
  | .ref value => [value]
  | .option (some value) => [value]
  | .pair first rest => first.references ++ rest.references
  | _ => []

end Item

namespace Reference

/-- Two references to one value, one of them mutable. -/
def Aliases (reference other : Reference) : Prop :=
  reference.archetype = other.archetype ∧ reference.ty = other.ty ∧
    reference.row = other.row ∧
    (reference.access = .exclusive ∨ other.access = .exclusive)

end Reference

namespace QueryFragment

variable {Value : Type} {table : EntityTable Value}

/-- What a reference to a cell of the column is known to be. -/
theorem mem_refColumns {ptr : Ptr} {writes : Bool} {ty : TypeId} {reference : Reference}
    {refs : List Reference} (found : refColumns .shared .exclusive ptr table writes ty = some refs)
    (member : reference ∈ refs) :
    (reference.ty, reference.access) = (ty, if writes then .exclusive else .shared) := by
  rcases Option.map_eq_some_iff.mp found with ⟨column, _, rfl⟩
  rcases List.mem_map.mp member with ⟨row, _, rfl⟩
  rfl

theorem references_of_cells {ptr : Ptr} {writes : Bool} {ty : TypeId} {item : Item Reference}
    (member : item ∈ ((refColumns .shared .exclusive ptr table writes ty).getD []).map Item.ref) :
    item.references.map (fun reference => (reference.ty, reference.access)) =
      [(ty, if writes then .exclusive else .shared)] := by
  rcases List.mem_map.mp member with ⟨reference, inColumn, rfl⟩
  cases found : refColumns .shared .exclusive ptr table writes ty with
  | none => simp [found] at inColumn
  | some refs =>
      rw [found, Option.getD_some] at inColumn
      exact congrArg (fun pair => [pair]) (mem_refColumns found inColumn)

theorem references_of_options {ptr : Ptr} {writes : Bool} {ty : TypeId} {rows : Nat}
    {item : Item Reference}
    (member : item ∈ optionItems rows (refColumns .shared .exclusive ptr table writes ty)) :
    (item.references.map fun reference => (reference.ty, reference.access)).Sublist
      [(ty, if writes then .exclusive else .shared)] := by
  cases found : refColumns .shared .exclusive ptr table writes ty with
  | none =>
      rw [found, optionItems] at member
      rw [List.eq_of_mem_replicate member]
      exact List.nil_sublist _
  | some refs =>
      rw [found, optionItems] at member
      rcases List.mem_map.mp member with ⟨reference, inColumn, rfl⟩
      have pair := mem_refColumns found inColumn
      simp only [Item.references, List.map_cons, List.map_nil, pair]
      exact List.Sublist.refl _

/-- The references of a row are among those that the leaves declare. -/
theorem references_sublist {ptr : Ptr} {self : QueryFragment} {item : Item Reference}
    (member : item ∈ self.iterMut ptr table) :
    (item.references.map fun reference => (reference.ty, reference.access)).Sublist
      (self.leaves.filterMap borrow) := by
  unfold iterMut at member
  induction self generalizing item with
  | ref ty =>
      rw [references_of_cells member]
      exact List.Sublist.refl _
  | refMut ty =>
      rw [references_of_cells member]
      exact List.Sublist.refl _
  | optionRef ty => exact references_of_options member
  | optionRefMut ty => exact references_of_options member
  | has ty =>
      rw [List.eq_of_mem_replicate member]
      exact List.nil_sublist _
  | entityId =>
      rcases List.mem_map.mp member with ⟨_, _, rfl⟩
      exact List.nil_sublist _
  | archetypeHash =>
      rw [List.eq_of_mem_replicate member]
      exact List.nil_sublist _
  | pair first rest inductionFirst inductionRest =>
      rw [iterColumns, ← List.map_uncurry_zip_eq_zipWith] at member
      rcases List.mem_map.mp member with ⟨⟨left, right⟩, both, rfl⟩
      have memberLeft := (List.of_mem_zip both).1
      have memberRight := (List.of_mem_zip both).2
      rw [leaves, List.filterMap_append]
      simp only [Function.uncurry_apply_pair, Item.references, List.map_append]
      exact (inductionFirst memberLeft).append (inductionRest memberRight)

/-- A row holds no two conflicting references if the leaves do not conflict. -/
theorem references_pairwise {ptr : Ptr} {self : QueryFragment} {item : Item Reference}
    (apart : self.leaves.Pairwise fun leaf other => ¬leaf.Conflicts other)
    (member : item ∈ self.iterMut ptr table) :
    item.references.Pairwise fun reference other => ¬reference.Aliases other := by
  have declared : (self.leaves.filterMap borrow).Pairwise fun left right =>
      left.1 = right.1 → ¬(left.2 = .exclusive ∨ right.2 = .exclusive) := by
    rw [List.pairwise_filterMap]
    refine apart.imp ?_
    rintro leaf other separate ⟨ty, access⟩ borrows ⟨otherTy, otherAccess⟩ borrowsOther same one
    change ty = otherTy at same
    subst same
    exact separate ⟨ty, access, otherAccess, borrows, borrowsOther, one⟩
  refine (List.pairwise_map.mp (declared.sublist (references_sublist member))).imp ?_
  rintro reference other separate ⟨_, sameTy, _, one⟩
  exact separate sameTy one

end QueryFragment

/-- An accepted query is exclusive exactly when no `Option<&mut T>` comes after
another mutable borrow of its component. -/
theorem ensureQueryValid_exclusive_iff (query : Query) {props : Finset TypeId × Finset TypeId}
    (accepted : ensureQueryValid query = some props) :
    (query.fragment.leaves.Pairwise fun leaf other => ¬leaf.Conflicts other) ∧
        (∀ (Value : Type) (ptr : Ptr) (table : EntityTable Value),
          ∀ item ∈ query.fragment.iterMut ptr table,
            item.references.Pairwise fun reference other => ¬reference.Aliases other) ↔
      query.fragment.leaves.Pairwise fun leaf other => ¬leaf.RepeatsInOption other := by
  simp only [ensureQueryValid, Option.bind_eq_bind, Option.bind_eq_some_iff,
    Option.guard_eq_some', QueryFragment.typesMut_eq_some_iff, QueryFragment.typesConst_eq,
    Finset.empty_union] at accepted
  rcases accepted with ⟨_, ⟨rfl, unrepeated⟩, _, disjoint, _⟩
  have only := QueryFragment.repeatsInOption_of_conflicts unrepeated disjoint
  constructor
  · rintro ⟨apart, _⟩
    exact apart.imp fun separate repeats => separate repeats.conflicts
  · intro unrepeatedOption
    have apart := (List.Pairwise.and only unrepeatedOption).imp fun both conflicts =>
      both.2 (both.1 conflicts)
    exact ⟨apart, fun _ _ _ _ member => QueryFragment.references_pairwise apart member⟩

/-- Two `Option<&mut T>` of one component are accepted, and a row of `iter_mut`
holds two mutable references to one value. -/
theorem ensureQueryValid_twoOptions :
    ¬ ∀ (fragment : QueryFragment) (props : Finset TypeId × Finset TypeId),
      ensureQueryValid ⟨fragment, .unit⟩ = some props →
        (fragment.leaves.Pairwise fun leaf other => ¬leaf.Conflicts other) ∧
        ∀ (table : EntityTable Nat), ∀ item ∈ fragment.iterMut 0 table,
          item.references.Pairwise fun reference other => ¬reference.Aliases other := by
  intro exclusive
  let table : EntityTable Nat :=
    { ty := 7#128, rows := 1, entities := [EntityId.new 0 0]
      components := (∅ : BTreeMap TypeId (Column Nat)).insert 7#128 [5] }
  let fragment : QueryFragment := .pair (.optionRefMut 7#128) (.optionRefMut 7#128)
  have accepted : ensureQueryValid ⟨fragment, .unit⟩ = some ({7#128}, ∅) := by
    simp [ensureQueryValid, fragment, QueryFragment.typesMut, QueryFragment.typesConst]
  let reference : Reference := { access := .exclusive, archetype := 0, ty := 7#128, row := 0 }
  have yielded : .pair (.option (some reference)) (.option (some reference)) ∈
      fragment.iterMut 0 table := by
    simp [fragment, table, reference, QueryFragment.iterMut, QueryFragment.iterColumns,
      QueryFragment.refColumns, QueryFragment.optionItems, columnRefs]
  have apart := (exclusive fragment _ accepted).2 table _ yielded
  simp [Item.references, Reference.Aliases, reference] at apart

theorem ensureQueryValid_exclusive_iff_sample :
    QueryFragment.leaves (.pair (.refMut 7#128) (.optionRefMut 9#128)) |>.Pairwise
      fun leaf other => ¬leaf.Conflicts other := by
  let fragment : QueryFragment := .pair (.refMut 7#128) (.optionRefMut 9#128)
  have accepted : ensureQueryValid ⟨fragment, .unit⟩ = some ({9#128, 7#128}, ∅) := by
    simp [ensureQueryValid, fragment, QueryFragment.typesMut, QueryFragment.typesConst]
  apply ((ensureQueryValid_exclusive_iff ⟨fragment, .unit⟩ accepted).mpr _).1
  simp [fragment, QueryFragment.leaves, QueryFragment.RepeatsInOption, QueryFragment.borrow]

end Cecs

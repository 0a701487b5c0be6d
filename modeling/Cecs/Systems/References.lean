import Cecs.Systems.Bodies

/-! # References that queries hand out

A query borrows no more than the one it is derived from, and each reference in an answer
is to a cell of a column that its fragment borrows. -/

namespace Cecs

variable {Value : Type} {ty : TypeId}

/-- A derived query borrows no more. -/
theorem Derivation.derive_borrowed {self : Derivation} {query derived : Query}
    (derives : self.derive query = some derived) :
    derived.fragment.borrowed .exclusive ⊆ query.fragment.borrowed .exclusive ∧
      derived.fragment.borrowed .shared ⊆
        query.fragment.borrowed .exclusive ∪ query.fragment.borrowed .shared := by
  cases self with
  | withFilter filter =>
      cases derives
      exact ⟨subset_rfl, Finset.subset_union_right⟩
  | subset fragment =>
      simp only [derive, Option.bind_eq_bind, Option.bind_eq_some_iff, Option.guard_eq_some',
        Option.pure_def, Option.some.injEq, exists_const] at derives
      rcases derives with ⟨allowed, rfl⟩
      simp only [Query.subsetAllowed, ensureQueryValid, Option.isSome_iff_exists,
        Option.bind_eq_bind, Option.bind_eq_some_iff, Option.guard_eq_some', Option.pure_def,
        Option.some.injEq, exists_const, QueryFragment.typesMut_eq_some_iff,
        QueryFragment.typesConst_eq, Finset.empty_union] at allowed
      rcases allowed with ⟨_, ⟨_, ⟨rfl, _⟩, _, rfl⟩, _, ⟨rfl, _⟩, mutable, shared⟩
      exact ⟨mutable, shared⟩

theorem derivations_borrowed {derivations : List Derivation} {source derived : Query}
    (derives : derivations.foldlM (fun query derivation => derivation.derive query) source =
      some derived) :
    derived.fragment.borrowed .exclusive ⊆ source.fragment.borrowed .exclusive ∧
      derived.fragment.borrowed .shared ⊆
        source.fragment.borrowed .exclusive ∪ source.fragment.borrowed .shared := by
  induction derivations generalizing source with
  | nil =>
      cases derives
      exact ⟨subset_rfl, Finset.subset_union_right⟩
  | cons derivation derivations induction =>
      rw [List.foldlM_cons, Option.bind_eq_bind, Option.bind_eq_some_iff] at derives
      rcases derives with ⟨middle, first, rest⟩
      rcases induction rest with ⟨mutableRest, sharedRest⟩
      rcases Derivation.derive_borrowed first with ⟨mutable, shared⟩
      refine ⟨mutableRest.trans mutable, sharedRest.trans ?_⟩
      exact Finset.union_subset (mutable.trans Finset.subset_union_left) shared

namespace QueryFragment

theorem access_of_borrowed {self : QueryFragment} {access : Access}
    (borrows : ty ∈ self.borrowed access) : access = .shared ∨ access = .exclusive := by
  rcases mem_borrowed.mp borrows with ⟨leaf, _, borrow⟩
  cases leaf <;> cases borrow <;> simp

variable {α : Type} {table : EntityTable Value} {columns : Bool → TypeId → Option (List α)}
  {Holds : α → Prop}

/-- A property of the cells of the borrowed columns. -/
def Cells (self : QueryFragment) (columns : Bool → TypeId → Option (List α)) (Holds : α → Prop) :
    Prop :=
  ∀ ty access, ty ∈ self.borrowed access → ∀ cells,
    columns (decide (access = .exclusive)) ty = some cells → ∀ cell ∈ cells, Holds cell

theorem cells_pair {first rest : QueryFragment} :
    (pair first rest).Cells columns Holds ↔
      first.Cells columns Holds ∧ rest.Cells columns Holds := by
  simp only [Cells, borrowed_pair, Finset.mem_union, or_imp, forall_and]

theorem Cells.leaf {self : QueryFragment} (cells : self.Cells columns Holds) {access : Access}
    (borrows : self.borrow = some (ty, access)) (leaves : self.leaves = [self]) :
    ∀ list, columns (decide (access = .exclusive)) ty = some list → ∀ cell ∈ list, Holds cell := by
  apply cells ty access
  rw [mem_borrowed]
  exact ⟨self, leaves ▸ List.mem_cons_self, borrows⟩

section Column

variable {column : Option (List α)} {item : Item α}

theorem references_of_cell (cells : ∀ list, column = some list → ∀ cell ∈ list, Holds cell)
    (member : item ∈ (column.getD []).map .ref) : ∀ cell ∈ item.references, Holds cell := by
  rcases List.mem_map.mp member with ⟨cell, inColumn, rfl⟩
  cases column with
  | none => cases inColumn
  | some list =>
      intro other listed
      rw [List.mem_singleton.mp listed]
      exact cells list rfl cell inColumn

theorem references_of_option (cells : ∀ list, column = some list → ∀ cell ∈ list, Holds cell)
    {rows : Nat} (member : item ∈ optionItems rows column) :
    ∀ cell ∈ item.references, Holds cell := by
  cases column with
  | none =>
      rw [List.eq_of_mem_replicate member]
      exact List.forall_mem_nil _
  | some list =>
      rcases List.mem_map.mp member with ⟨cell, inColumn, rfl⟩
      intro other listed
      rw [List.mem_singleton.mp listed]
      exact cells list rfl cell inColumn

theorem references_of_fetched (cells : ∀ list, column = some list → ∀ cell ∈ list, Holds cell)
    {index : Nat} (fetched : (column.bind fun list => list[index]?).map .ref = some item) :
    ∀ cell ∈ item.references, Holds cell := by
  rcases Option.map_eq_some_iff.mp fetched with ⟨cell, inColumn, rfl⟩
  rcases Option.bind_eq_some_iff.mp inColumn with ⟨list, found, inList⟩
  intro other listed
  rw [List.mem_singleton.mp listed]
  exact cells list found cell (List.mem_of_getElem? inList)

theorem references_of_fetchedOption
    (cells : ∀ list, column = some list → ∀ cell ∈ list, Holds cell) {index : Nat}
    (fetched : some (.option (column.bind fun list => list[index]?)) = some item) :
    ∀ cell ∈ item.references, Holds cell := by
  cases fetched
  cases inColumn : column.bind fun list => list[index]? with
  | none => exact List.forall_mem_nil _
  | some cell =>
      rcases Option.bind_eq_some_iff.mp inColumn with ⟨list, found, inList⟩
      intro other listed
      rw [List.mem_singleton.mp listed]
      exact cells list found cell (List.mem_of_getElem? inList)

end Column

theorem references_iterColumns {self : QueryFragment} (cells : self.Cells columns Holds)
    {item : Item α} (member : item ∈ self.iterColumns columns table) :
    ∀ cell ∈ item.references, Holds cell := by
  induction self generalizing item with
  | pair first rest inductionFirst inductionRest =>
      rcases cells_pair.mp cells with ⟨cellsFirst, cellsRest⟩
      rw [iterColumns, ← List.map_uncurry_zip_eq_zipWith] at member
      rcases List.mem_map.mp member with ⟨⟨left, right⟩, both, rfl⟩
      intro cell listed
      rcases List.mem_append.mp listed with inLeft | inRight
      · exact inductionFirst cellsFirst (List.of_mem_zip both).1 cell inLeft
      · exact inductionRest cellsRest (List.of_mem_zip both).2 cell inRight
  | ref ty => exact references_of_cell (cells.leaf rfl rfl) member
  | refMut ty => exact references_of_cell (cells.leaf rfl rfl) member
  | optionRef ty => exact references_of_option (cells.leaf rfl rfl) member
  | optionRefMut ty => exact references_of_option (cells.leaf rfl rfl) member
  | entityId =>
      rcases List.mem_map.mp member with ⟨_, _, rfl⟩
      exact List.forall_mem_nil _
  | _ =>
      rw [List.eq_of_mem_replicate member]
      exact List.forall_mem_nil _

theorem references_fetchColumns {self : QueryFragment} (cells : self.Cells columns Holds)
    {index : Nat} {item : Item α} (fetched : self.fetchColumns columns table index = some item) :
    ∀ cell ∈ item.references, Holds cell := by
  induction self generalizing item with
  | pair first rest inductionFirst inductionRest =>
      rcases cells_pair.mp cells with ⟨cellsFirst, cellsRest⟩
      simp only [fetchColumns, Option.bind_eq_bind, Option.bind_eq_some_iff, Option.pure_def,
        Option.some.injEq] at fetched
      rcases fetched with ⟨left, fetchedLeft, right, fetchedRight, rfl⟩
      intro cell listed
      rcases List.mem_append.mp listed with inLeft | inRight
      · exact inductionFirst cellsFirst fetchedLeft cell inLeft
      · exact inductionRest cellsRest fetchedRight cell inRight
  | ref ty => exact references_of_fetched (cells.leaf rfl rfl) fetched
  | refMut ty => exact references_of_fetched (cells.leaf rfl rfl) fetched
  | optionRef ty => exact references_of_fetchedOption (cells.leaf rfl rfl) fetched
  | optionRefMut ty => exact references_of_fetchedOption (cells.leaf rfl rfl) fetched
  | has ty =>
      cases fetched
      exact List.forall_mem_nil _
  | _ =>
      rcases Option.map_eq_some_iff.mp fetched with ⟨_, _, rfl⟩
      exact List.forall_mem_nil _

end QueryFragment

/-- The references in the answer to a method of a query are to cells of tables. -/
theorem QueryMethod.references_tables (self : QueryMethod) {query : Query} {w : World Value}
    {Holds : Reference → Prop}
    (cells : ∀ mutable ptr (table : EntityTable Value), w.tables ptr = some table →
      query.fragment.Cells (QueryFragment.refColumns .shared mutable ptr table) Holds) :
    ∀ reference ∈ (self.answer query w).references, Holds reference := by
  have rows : ∀ mutable, ∀ item ∈ (query.archetypes w).flatMap (fun entry =>
      query.fragment.iterColumns (QueryFragment.refColumns .shared mutable entry.1 entry.2)
        entry.2), ∀ reference ∈ item.references, Holds reference := by
    intro mutable item member
    rcases List.mem_flatMap.mp member with ⟨entry, walked, inTable⟩
    have found := (World.mem_walked.mp (Query.mem_archetypes.mp walked).1).2
    exact QueryFragment.references_iterColumns (cells mutable entry.1 entry.2 found) inTable
  have row : ∀ mutable id item, ((query.lookup w id).bind fun found =>
      query.fragment.fetchColumns
        (QueryFragment.refColumns .shared mutable found.1 found.2.2) found.2.2 found.2.1) =
        some item → ∀ reference ∈ item.references, Holds reference := by
    intro mutable id item fetched
    rcases Option.bind_eq_some_iff.mp fetched with ⟨⟨ptr, index, table⟩, looked, fetched⟩
    simp only [Query.lookup, Option.bind_eq_bind, Option.bind_eq_some_iff, Option.pure_def,
      Option.some.injEq, Prod.mk.injEq] at looked
    rcases looked with ⟨⟨_, _⟩, _, _, found, _, _, rfl, rfl, rfl⟩
    exact QueryFragment.references_fetchColumns (cells mutable _ _ found) fetched
  intro reference listed
  cases self with
  | iter =>
      rcases List.mem_flatMap.mp listed with ⟨item, inAnswer, inItem⟩
      exact rows .shared item inAnswer reference inItem
  | iterMut =>
      rcases List.mem_flatMap.mp listed with ⟨item, inAnswer, inItem⟩
      exact rows .exclusive item inAnswer reference inItem
  | fetch id =>
      rcases List.mem_flatMap.mp listed with ⟨item, inAnswer, inItem⟩
      exact row .shared id item (Option.mem_toList.mp inAnswer) reference inItem
  | fetchMut id =>
      rcases List.mem_flatMap.mp listed with ⟨item, inAnswer, inItem⟩
      exact row .exclusive id item (Option.mem_toList.mp inAnswer) reference inItem
  | _ => cases listed

theorem QueryMethod.references_answer (self : QueryMethod) {query : Query} {w : World Value}
    {Holds : Reference → Prop}
    (cells : ∀ mutable ptr (table : EntityTable Value),
      query.fragment.Cells (QueryFragment.refColumns .shared mutable ptr table) Holds) :
    ∀ reference ∈ (self.answer query w).references, Holds reference :=
  self.references_tables fun mutable ptr table _ => cells mutable ptr table

end Cecs

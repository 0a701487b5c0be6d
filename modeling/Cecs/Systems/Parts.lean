import Cecs.Systems.Bodies

/-! # The parts of a world

The columns, the resources, the places of the entities, and the queue of the commands
with the index they allocate from are parts; so is what no parameter but `WorldAccess`
changes. A query reads the columns that its fragment borrows, and no other. -/

namespace Cecs

open Foundation

section Restrict

variable {Value : Type} {types : Finset TypeId} {ty : TypeId}

namespace EntityTable

/-- The table with the columns of other types emptied. -/
def restrict (self : EntityTable Value) (types : Finset TypeId) : EntityTable Value :=
  { self with components := self.components.map fun ty column => if ty ∈ types then column else [] }

theorem getElem?_restrict (self : EntityTable Value) (types : Finset TypeId) (ty : TypeId) :
    (self.restrict types).components[ty]? =
      self.components[ty]?.map fun column => if ty ∈ types then column else [] :=
  Std.ExtTreeMap.getElem?_map

@[simp] theorem rows_restrict (self : EntityTable Value) (types : Finset TypeId) :
    (self.restrict types).rows = self.rows := rfl

@[simp] theorem entities_restrict (self : EntityTable Value) (types : Finset TypeId) :
    (self.restrict types).entities = self.entities := rfl

@[simp] theorem ty_restrict (self : EntityTable Value) (types : Finset TypeId) :
    (self.restrict types).ty = self.ty := rfl

@[simp] theorem isEmpty_restrict (self : EntityTable Value) (types : Finset TypeId) :
    (self.restrict types).isEmpty = self.isEmpty := rfl

@[simp] theorem containsColumn_restrict (self : EntityTable Value) (types : Finset TypeId)
    (ty : TypeId) : (self.restrict types).containsColumn ty = self.containsColumn ty := by
  rw [Bool.eq_iff_iff, containsColumn_iff, containsColumn_iff, getElem?_restrict]
  cases self.components[ty]? <;> simp

theorem eq_of_lookups {table other : EntityTable Value} (key : table.ty = other.ty)
    (rows : table.rows = other.rows) (entities : table.entities = other.entities)
    (lookups : ∀ ty : TypeId, table.components[ty]? = other.components[ty]?) : table = other := by
  cases table
  cases other
  rw [mk.injEq]
  exact ⟨key, rows, entities, Std.ExtTreeMap.ext_getElem? lookups⟩

theorem restrict_congr {table other : EntityTable Value}
    (outline : table.restrict ∅ = other.restrict ∅)
    (columns : ∀ ty ∈ types, table.components[ty]? = other.components[ty]?) :
    table.restrict types = other.restrict types := by
  have key : (table.restrict ∅).ty = (other.restrict ∅).ty := by rw [outline]
  have rows : (table.restrict ∅).rows = (other.restrict ∅).rows := by rw [outline]
  have entities : (table.restrict ∅).entities = (other.restrict ∅).entities := by rw [outline]
  refine eq_of_lookups key rows entities fun ty => ?_
  rw [getElem?_restrict, getElem?_restrict]
  by_cases member : ty ∈ types
  · rw [columns ty member]
  · have empty := congrArg (fun table : EntityTable Value => table.components[ty]?) outline
    simp only [getElem?_restrict, Finset.notMem_empty, if_false] at empty
    simp only [if_neg member]
    exact empty

theorem eq_of_columns {table other : EntityTable Value}
    (outline : table.restrict ∅ = other.restrict ∅)
    (columns : ∀ ty : TypeId, table.components[ty]? = other.components[ty]?) : table = other := by
  have key : (table.restrict ∅).ty = (other.restrict ∅).ty := by rw [outline]
  have rows : (table.restrict ∅).rows = (other.restrict ∅).rows := by rw [outline]
  have entities : (table.restrict ∅).entities = (other.restrict ∅).entities := by rw [outline]
  exact eq_of_lookups key rows entities columns

theorem getElem?_writeCell (self : EntityTable Value) (ty key : TypeId) (row : Nat)
    (value : Value) :
    (self.writeCell ty row value).components[key]? =
      if key = ty then self.components[ty]?.map fun column => column.set row value
      else self.components[key]? := by
  rw [writeCell]
  split
  · rename_i column found
    rw [BTreeMap.getElem?_insert, found]
    simp only [eq_comm, Option.map_some]
  · rename_i absent
    split
    · rename_i isKey
      rw [isKey, absent, Option.map_none]
    · rfl

theorem restrict_writeCell (self : EntityTable Value) (ty : TypeId) (row : Nat) (value : Value) :
    (self.writeCell ty row value).restrict ∅ = self.restrict ∅ := by
  have others : (self.writeCell ty row value).ty = self.ty ∧
      (self.writeCell ty row value).rows = self.rows ∧
      (self.writeCell ty row value).entities = self.entities := by
    rw [writeCell]
    split <;> exact ⟨rfl, rfl, rfl⟩
  refine eq_of_lookups others.1 others.2.1 others.2.2 fun key => ?_
  rw [getElem?_restrict, getElem?_restrict, getElem?_writeCell]
  by_cases isKey : key = ty
  · rw [if_pos isKey, isKey]
    cases self.components[ty]? <;> simp
  · rw [if_neg isKey]

end EntityTable

@[simp] theorem Filter.filter_restrict (self : Filter) (table : EntityTable Value)
    (types : Finset TypeId) : self.filter (table.restrict types) = self.filter table := by
  induction self with
  | Or x y inductionX inductionY => rw [filter, filter, inductionX, inductionY]
  | pair first rest inductionFirst inductionRest =>
      rw [filter, filter, inductionFirst, inductionRest]
  | _ => simp [filter]

namespace QueryFragment

@[simp] theorem contains_restrict (self : QueryFragment) (table : EntityTable Value)
    (types : Finset TypeId) : self.contains (table.restrict types) = self.contains table := by
  induction self with
  | pair first rest inductionFirst inductionRest =>
      rw [contains, contains, inductionFirst, inductionRest]
  | _ => simp [contains]

/-- The types are those that the fragment borrows, and maybe others. -/
def Within (self : QueryFragment) (types : Finset TypeId) : Prop :=
  ∀ access, self.borrowed access ⊆ types

theorem within_pair {first rest : QueryFragment} :
    (pair first rest).Within types ↔ first.Within types ∧ rest.Within types := by
  simp only [Within, borrowed_pair, Finset.union_subset_iff, forall_and]

variable {ptr : Ptr} {table : EntityTable Value} {const mutable : Access}

theorem refColumns_restrict (member : ty ∈ types) (writes : Bool) :
    refColumns const mutable ptr (table.restrict types) writes ty =
      refColumns const mutable ptr table writes ty := by
  rw [refColumns, refColumns, EntityTable.getElem?_restrict]
  simp only [if_pos member, Option.map_id']

theorem Within.leaf {self : QueryFragment} {access : Access} (within : self.Within types)
    (borrows : self.borrow = some (ty, access)) (leaves : self.leaves = [self]) : ty ∈ types := by
  apply within access
  rw [mem_borrowed]
  exact ⟨self, leaves ▸ List.mem_cons_self, borrows⟩

theorem iterColumns_restrict {self : QueryFragment} (within : self.Within types) :
    self.iterColumns (refColumns const mutable ptr (table.restrict types))
        (table.restrict types) =
      self.iterColumns (refColumns const mutable ptr table) table := by
  induction self with
  | pair first rest inductionFirst inductionRest =>
      rcases within_pair.mp within with ⟨withinFirst, withinRest⟩
      rw [iterColumns, iterColumns, inductionFirst withinFirst, inductionRest withinRest]
  | ref ty => simp only [iterColumns, refColumns_restrict (within.leaf rfl rfl)]
  | refMut ty => simp only [iterColumns, refColumns_restrict (within.leaf rfl rfl)]
  | optionRef ty =>
      simp only [iterColumns, refColumns_restrict (within.leaf rfl rfl),
        EntityTable.rows_restrict]
  | optionRefMut ty =>
      simp only [iterColumns, refColumns_restrict (within.leaf rfl rfl),
        EntityTable.rows_restrict]
  | _ => simp [iterColumns]

theorem fetchColumns_restrict {self : QueryFragment} (within : self.Within types) (index : Nat) :
    self.fetchColumns (refColumns const mutable ptr (table.restrict types))
        (table.restrict types) index =
      self.fetchColumns (refColumns const mutable ptr table) table index := by
  induction self with
  | pair first rest inductionFirst inductionRest =>
      rcases within_pair.mp within with ⟨withinFirst, withinRest⟩
      rw [fetchColumns, fetchColumns, inductionFirst withinFirst, inductionRest withinRest]
  | ref ty => simp only [fetchColumns, refColumns_restrict (within.leaf rfl rfl)]
  | refMut ty => simp only [fetchColumns, refColumns_restrict (within.leaf rfl rfl)]
  | optionRef ty => simp only [fetchColumns, refColumns_restrict (within.leaf rfl rfl)]
  | optionRefMut ty => simp only [fetchColumns, refColumns_restrict (within.leaf rfl rfl)]
  | _ => simp [fetchColumns]

end QueryFragment

namespace World

/-- The tables as they are seen through the columns of `types`. -/
def restrict (w : World Value) (types : Finset TypeId) : World Value := { w with
  tables := fun ptr => (w.tables ptr).map fun table => table.restrict types
  resources := ∅
  commands := [] }

def outline (w : World Value) : World Value :=
  (w.restrict ∅).setIndex { entries := [], count := 0, freeList := 0 }

def column (w : World Value) (ptr : Ptr) (ty : TypeId) : Option (Column Value) := do
  (← w.tables ptr).components[ty]?

theorem deref_eq (w : World Value) (reference : Reference) :
    w.deref reference =
      (w.column reference.archetype reference.ty).bind fun column => column[reference.row]? := by
  simp only [deref, column, EntityTable.getComponent, Option.bind_eq_bind, Option.bind_assoc]

theorem walked_restrict (w : World Value) (types : Finset TypeId) :
    (w.restrict types).walked = w.walked.map fun entry => (entry.1, entry.2.restrict types) := by
  rw [walked, walked, List.map_filterMap]
  simp only [restrict, Option.map_map, Function.comp_def]

variable {w other : World Value}

/-- Tables are at the same pointers, and differ in values only. -/
theorem tables_of_outline (outline : w.outline = other.outline) (ptr : Ptr) :
    w.tables ptr = none ∧ other.tables ptr = none ∨
      ∃ table tableOther, w.tables ptr = some table ∧ other.tables ptr = some tableOther ∧
        table.restrict ∅ = tableOther.restrict ∅ := by
  have shapes := congrFun (congrArg World.tables outline) ptr
  simp only [World.outline, setIndex, restrict] at shapes
  cases found : w.tables ptr with
  | none =>
      rw [found, Option.map_none, eq_comm, Option.map_eq_none_iff] at shapes
      exact Or.inl ⟨rfl, shapes⟩
  | some table =>
      rw [found, Option.map_some, eq_comm, Option.map_eq_some_iff] at shapes
      rcases shapes with ⟨tableOther, foundOther, same⟩
      exact Or.inr ⟨table, tableOther, rfl, foundOther, same.symm⟩

theorem restrict_congr (outline : w.outline = other.outline)
    (columns : ∀ ptr, ∀ ty ∈ types, w.column ptr ty = other.column ptr ty) :
    w.restrict types = (other.restrict types).setIndex w.entityIds := by
  have tables : (w.restrict types).tables = (other.restrict types).tables := by
    funext ptr
    have same := columns ptr
    simp only [restrict, column, Option.bind_eq_bind] at same ⊢
    rcases tables_of_outline outline ptr with ⟨none, noneOther⟩ |
      ⟨table, tableOther, found, foundOther, shapes⟩
    · rw [none, noneOther]
    · rw [found, foundOther] at same ⊢
      exact congrArg some (EntityTable.restrict_congr shapes same)
  have archetypes : w.outline.archetypes = other.outline.archetypes := by rw [outline]
  have staging : w.outline.archetypesStaging = other.outline.archetypesStaging := by rw [outline]
  have next : w.outline.nextTable = other.outline.nextTable := by rw [outline]
  rw [restrict, restrict, setIndex, World.mk.injEq]
  exact ⟨rfl, tables, next, archetypes, staging, rfl, rfl⟩

end World

namespace Query

theorem archetypes_restrict (self : Query) (w : World Value) (types : Finset TypeId) :
    self.archetypes (w.restrict types) =
      (self.archetypes w).map fun entry => (entry.1, entry.2.restrict types) := by
  rw [archetypes, archetypes, World.walked_restrict, List.filter_map]
  simp only [Function.comp_def, Filter.filter_restrict]

theorem matching_restrict (self : Query) (w : World Value) (types : Finset TypeId) :
    self.matching (w.restrict types) =
      (self.matching w).map fun table => table.restrict types := by
  rw [matching, matching, archetypes_restrict, List.map_map, List.filter_map, List.filter_map,
    List.map_map]
  simp only [Function.comp_def, QueryFragment.contains_restrict]

theorem lookup_restrict (self : Query) (w : World Value) (types : Finset TypeId) (id : EntityId) :
    self.lookup (w.restrict types) id =
      (self.lookup w id).map fun found => (found.1, found.2.1, found.2.2.restrict types) := by
  simp only [lookup, World.restrict, Option.bind_eq_bind]
  cases (w.entityIds.read id).toOption with
  | none => rfl
  | some spot =>
      simp only [Option.bind_some]
      cases w.tables spot.1 with
      | none => rfl
      | some table =>
          simp only [Option.bind_some, Option.map_some, Filter.filter_restrict]
          cases self.filter.filter table <;> rfl

theorem iterColumns_flatMap_restrict {self : Query} (within : self.fragment.Within types)
    (const mutable : Access) (w : World Value) :
    ((self.archetypes (w.restrict types)).flatMap fun entry => self.fragment.iterColumns
        (QueryFragment.refColumns const mutable entry.1 entry.2) entry.2) =
      (self.archetypes w).flatMap fun entry => self.fragment.iterColumns
        (QueryFragment.refColumns const mutable entry.1 entry.2) entry.2 := by
  rw [archetypes_restrict, List.flatMap_map]
  simp only [QueryFragment.iterColumns_restrict within]

theorem fetchColumns_lookup_restrict {self : Query} (within : self.fragment.Within types)
    (const mutable : Access) (w : World Value) (id : EntityId) :
    ((self.lookup (w.restrict types) id).bind fun found => self.fragment.fetchColumns
        (QueryFragment.refColumns const mutable found.1 found.2.2) found.2.2 found.2.1) =
      (self.lookup w id).bind fun found => self.fragment.fetchColumns
        (QueryFragment.refColumns const mutable found.1 found.2.2) found.2.2 found.2.1 := by
  rw [lookup_restrict, Option.bind_map]
  simp only [Function.comp_def, QueryFragment.fetchColumns_restrict within]

end Query

namespace QueryMethod

variable {w other : World Value}

/-- A query does not look at the other columns. -/
theorem answer_restrict (self : QueryMethod) {query : Query} (within : query.fragment.Within types)
    (w : World Value) : self.answer query (w.restrict types) = self.answer query w := by
  cases self with
  | count =>
      rw [answer, answer, Query.count, Query.count, Query.matching_restrict, List.map_map]
      rfl
  | isEmpty =>
      rw [answer, answer, Query.isEmpty, Query.isEmpty, Query.matching_restrict, List.all_map]
      rfl
  | any =>
      rw [answer, answer, Query.any, Query.any, Query.matching_restrict, List.any_map]
      rfl
  | iter => exact congrArg Response.items (Query.iterColumns_flatMap_restrict within _ _ w)
  | iterMut => exact congrArg Response.items (Query.iterColumns_flatMap_restrict within _ _ w)
  | fetch id => exact congrArg Response.item (Query.fetchColumns_lookup_restrict within _ _ w id)
  | fetchMut id => exact congrArg Response.item (Query.fetchColumns_lookup_restrict within _ _ w id)
  | contains id =>
      rw [answer, answer, Query.contains, Query.contains, Query.lookup_restrict, Option.any_map]
      simp only [QueryFragment.contains_restrict]

/-- Of the index it sees the places only. -/
theorem answer_setIndex (self : QueryMethod) (query : Query) {index : EntityIndex}
    (places : index.place = w.entityIds.place) :
    self.answer query (w.setIndex index) = self.answer query w := by
  have lookup : ∀ id, query.lookup (w.setIndex index) id = query.lookup w id := by
    intro id
    have same : (index.read id).toOption = (w.entityIds.read id).toOption := congrFun places id
    rw [Query.lookup, Query.lookup, World.setIndex, same]
  cases self with
  | fetch id => rw [answer, answer, Query.fetchShared, Query.fetchShared, lookup]
  | fetchMut id => rw [answer, answer, Query.fetchMut, Query.fetchMut, lookup]
  | contains id => rw [answer, answer, Query.contains, Query.contains, lookup]
  | _ => rfl

theorem answer_congr (self : QueryMethod) {query : Query} (within : query.fragment.Within types)
    (outline : w.outline = other.outline)
    (columns : ∀ ptr, ∀ ty ∈ types, w.column ptr ty = other.column ptr ty)
    (places : w.entityIds.place = other.entityIds.place) :
    self.answer query w = self.answer query other := by
  have samePlaces : w.entityIds.place = (other.restrict types).entityIds.place := places
  rw [← self.answer_restrict within w, World.restrict_congr outline columns,
    self.answer_setIndex query samePlaces, self.answer_restrict within]

end QueryMethod

end Restrict

/-- A part of a world. -/
inductive Part where
  | column (ptr : Ptr) (ty : TypeId)
  | resource (ty : TypeId)
  | outline
  | places
  | queue
  deriving DecidableEq

namespace World

variable {Value : Type}

def Agree : Part → World Value → World Value → Prop
  | .column ptr ty, w, other => w.column ptr ty = other.column ptr ty
  | .resource ty, w, other => w.resources[ty]? = other.resources[ty]?
  | .outline, w, other => w.outline = other.outline
  | .places, w, other => w.entityIds.place = other.entityIds.place
  | .queue, w, other => w.entityIds = other.entityIds ∧ w.commands = other.commands

theorem agree_equivalence (part : Part) :
    Equivalence (Agree part : World Value → World Value → Prop) := by
  cases part with
  | queue =>
      exact ⟨fun _ => ⟨rfl, rfl⟩, fun same => ⟨same.1.symm, same.2.symm⟩,
        fun first second => ⟨first.1.trans second.1, first.2.trans second.2⟩⟩
  | _ => exact ⟨fun _ => rfl, Eq.symm, Eq.trans⟩

theorem eq_of_agree {w other : World Value} (agree : ∀ part, Agree part w other) : w = other := by
  have outline : w.outline = other.outline := agree .outline
  have tables : w.tables = other.tables := by
    funext ptr
    have columns : ∀ ty, w.column ptr ty = other.column ptr ty := fun ty => agree (.column ptr ty)
    rcases tables_of_outline outline ptr with ⟨none, noneOther⟩ |
      ⟨table, tableOther, found, foundOther, shapes⟩
    · rw [none, noneOther]
    · simp only [column, found, foundOther, Option.bind_eq_bind, Option.bind_some] at columns
      rw [found, foundOther, EntityTable.eq_of_columns shapes columns]
  have archetypes : w.outline.archetypes = other.outline.archetypes := by rw [outline]
  have staging : w.outline.archetypesStaging = other.outline.archetypesStaging := by rw [outline]
  have next : w.outline.nextTable = other.outline.nextTable := by rw [outline]
  have resources : w.resources = other.resources :=
    Std.ExtTreeMap.ext_getElem? fun ty => agree (.resource ty)
  have queue : w.entityIds = other.entityIds ∧ w.commands = other.commands := agree .queue
  cases w
  cases other
  rw [World.mk.injEq]
  exact ⟨queue.1, tables, next, archetypes, staging, resources, queue.2⟩

/-- The parts make up the world. -/
def parts (Value : Type) : Parts (World Value) Part where
  Agree := Agree
  equivalence := agree_equivalence
  ext := eq_of_agree

section Writes

variable {w : World Value} {ptr : Ptr} {ty : TypeId} {row : Nat} {value : Value}

theorem outline_writeCell : (w.writeCell ptr ty row value).outline = w.outline := by
  rw [writeCell]
  split
  · rename_i table found
    have same : (w.setTable ptr (table.writeCell ty row value)).outline.tables =
        w.outline.tables := by
      funext other
      simp only [outline, setIndex, restrict, setTable, Function.update_apply]
      split
      · rename_i isPtr
        rw [isPtr, found, Option.map_some, Option.map_some,
          EntityTable.restrict_writeCell]
      · rfl
    rw [outline, outline, setIndex, setIndex, World.mk.injEq]
    exact ⟨rfl, same, rfl, rfl, rfl, rfl, rfl⟩
  · rfl

theorem column_writeCell (other : Ptr) (key : TypeId) :
    (w.writeCell ptr ty row value).column other key =
      if other = ptr ∧ key = ty then (w.column ptr ty).map fun column => column.set row value
      else w.column other key := by
  rw [writeCell]
  split
  · rename_i table found
    simp only [column, setTable, Function.update_apply, Option.bind_eq_bind]
    by_cases isPtr : other = ptr
    · rw [if_pos isPtr, isPtr, found, Option.bind_some, Option.bind_some, Option.bind_some,
        EntityTable.getElem?_writeCell]
      simp only [true_and]
    · rw [if_neg isPtr, if_neg fun both => isPtr both.1]
  · rename_i absent
    split
    · rename_i both
      simp [column, both.1, absent]
    · rfl

theorem same_writeCell : (w.writeCell ptr ty row value).entityIds = w.entityIds ∧
    (w.writeCell ptr ty row value).resources = w.resources ∧
    (w.writeCell ptr ty row value).commands = w.commands := by
  rw [writeCell]
  split <;> exact ⟨rfl, rfl, rfl⟩

end Writes

end World

end Cecs

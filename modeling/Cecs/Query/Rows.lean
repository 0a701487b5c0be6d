import Cecs.Query
import Cecs.World.Refinement
import Cecs.Serde.Entries

/-! # The rows that a query visits

A fragment reads a table column by column. Whether it reads values or hands out
references, a row of an aligned table yields what fetching that row yields, and
a query visits the rows of the entities that it contains. -/

namespace Cecs

open Foundation

inductive Access where
  | shared
  | exclusive
  | raw
  deriving DecidableEq, Repr

/-- A reference or pointer to a cell of a table. -/
structure Reference where
  access : Access
  archetype : Ptr
  ty : TypeId
  row : Nat
  deriving DecidableEq, Repr

namespace Item

variable {α β : Type}

/-- The item with every reference followed. -/
def follow (read : α → Option β) : Item α → Option (Item β)
  | .ref value => (read value).map .ref
  | .option (some value) => (read value).map fun value => .option (some value)
  | .option none => some (.option none)
  | .bool flag => some (.bool flag)
  | .entityId id => some (.entityId id)
  | .archetypeHash hash => some (.archetypeHash hash)
  | .pair first rest => do return .pair (← first.follow read) (← rest.follow read)

end Item

/-- The references to the cells of a column. -/
def columnRefs {Value : Type} (access : Access) (archetype : Ptr) (ty : TypeId)
    (column : Column Value) : List Reference :=
  (List.range column.length).map fun row => { access, archetype, ty, row }

namespace QueryFragment

variable {Value α : Type}

/-- The items of an optional column of a table with `rows` rows. -/
def optionItems (rows : Nat) : Option (List α) → List (Item α)
  | some column => column.map fun cell => .option (some cell)
  | none => List.replicate rows (.option none)

/-- The items of a table whose columns are read through `columns`; its first
argument tells whether the fragment may write. -/
def iterColumns (self : QueryFragment) (columns : Bool → TypeId → Option (List α))
    (archetype : EntityTable Value) : List (Item α) :=
  match self with
  | .ref ty => ((columns false ty).getD []).map .ref
  | .refMut ty => ((columns true ty).getD []).map .ref
  | .optionRef ty => optionItems archetype.rows (columns false ty)
  | .optionRefMut ty => optionItems archetype.rows (columns true ty)
  | .has ty => List.replicate archetype.rows (.bool (archetype.containsColumn ty))
  | .entityId => archetype.entities.map .entityId
  | .archetypeHash => List.replicate archetype.rows (.archetypeHash archetype.ty)
  | .pair first rest =>
      List.zipWith .pair (first.iterColumns columns archetype)
        (rest.iterColumns columns archetype)

def fetchColumns (self : QueryFragment) (columns : Bool → TypeId → Option (List α))
    (archetype : EntityTable Value) (index : Nat) : Option (Item α) :=
  match self with
  | .ref ty => ((columns false ty).bind fun column => column[index]?).map .ref
  | .refMut ty => ((columns true ty).bind fun column => column[index]?).map .ref
  | .optionRef ty => some (.option ((columns false ty).bind fun column => column[index]?))
  | .optionRefMut ty => some (.option ((columns true ty).bind fun column => column[index]?))
  | .has ty => some (.bool (archetype.containsColumn ty))
  | .entityId => archetype.entities[index]?.map .entityId
  | .archetypeHash => archetype.entities[index]?.map fun _ => .archetypeHash archetype.ty
  | .pair first rest => do
      return .pair (← first.fetchColumns columns archetype index)
        (← rest.fetchColumns columns archetype index)

def valueColumns (archetype : EntityTable Value) (_ : Bool) (ty : TypeId) :
    Option (List Value) := archetype.components[ty]?

/-- `&T` hands out `const` references, `&mut T` hands out `mutable` ones. -/
def refColumns (const mutable : Access) (ptr : Ptr) (archetype : EntityTable Value)
    (writes : Bool) (ty : TypeId) : Option (List Reference) :=
  (archetype.components[ty]?).map (columnRefs (if writes then mutable else const) ptr ty)

def iterMut (self : QueryFragment) (ptr : Ptr) (archetype : EntityTable Value) :
    List (Item Reference) :=
  self.iterColumns (refColumns .shared .exclusive ptr archetype) archetype

def fetchMut (self : QueryFragment) (ptr : Ptr) (archetype : EntityTable Value) (index : Nat) :
    Option (Item Reference) :=
  self.fetchColumns (refColumns .shared .exclusive ptr archetype) archetype index

def iterUnsafe (self : QueryFragment) (ptr : Ptr) (archetype : EntityTable Value) :
    List (Item Reference) :=
  self.iterColumns (refColumns .raw .raw ptr archetype) archetype

def fetchUnsafe (self : QueryFragment) (ptr : Ptr) (archetype : EntityTable Value)
    (index : Nat) : Option (Item Reference) :=
  self.fetchColumns (refColumns .raw .raw ptr archetype) archetype index

theorem iter_eq (self : QueryFragment) (archetype : EntityTable Value) :
    self.iter archetype = self.iterColumns (valueColumns archetype) archetype := by
  induction self with
  | pair first rest inductionFirst inductionRest =>
      rw [iter, iterColumns, inductionFirst, inductionRest]
  | optionRef ty =>
      rw [iter, iterColumns, valueColumns]
      cases archetype.components[ty]? <;> rfl
  | optionRefMut ty =>
      rw [iter, iterColumns, valueColumns]
      cases archetype.components[ty]? <;> rfl
  | _ => rfl

theorem fetch_eq (self : QueryFragment) (archetype : EntityTable Value) (index : Nat) :
    self.fetch archetype index =
      self.fetchColumns (valueColumns archetype) archetype index := by
  induction self with
  | pair first rest inductionFirst inductionRest =>
      rw [fetch, fetchColumns, inductionFirst, inductionRest]
  | _ => rfl

section Tables

variable {table : EntityTable Value} {columns : Bool → TypeId → Option (List α)}

/-- The columns are those of the table, with one cell for each row. -/
structure Covers (columns : Bool → TypeId → Option (List α)) (table : EntityTable Value) :
    Prop where
  length : ∀ writes ty column, columns writes ty = some column → column.length = table.rows
  present : ∀ writes ty, (columns writes ty).isSome = table.containsColumn ty

theorem covers_valueColumns (aligned : table.Aligned) : Covers (valueColumns table) table where
  length _ ty column found := aligned.columns ty column found
  present _ ty := by
    rw [Bool.eq_iff_iff, EntityTable.containsColumn_iff, Option.isSome_iff_exists]
    rfl

theorem covers_refColumns (aligned : table.Aligned) (const mutable : Access) (ptr : Ptr) :
    Covers (refColumns const mutable ptr table) table where
  length writes ty refs found := by
    rcases Option.map_eq_some_iff.mp found with ⟨column, foundColumn, rfl⟩
    rw [columnRefs, List.length_map, List.length_range]
    exact aligned.columns ty column foundColumn
  present writes ty := by
    rw [refColumns, Option.isSome_map, Bool.eq_iff_iff, EntityTable.containsColumn_iff,
      Option.isSome_iff_exists]

theorem Covers.column (covers : Covers columns table) (writes : Bool) {ty : TypeId}
    (present : table.containsColumn ty = true) :
    ∃ column, columns writes ty = some column ∧ column.length = table.rows := by
  rw [← covers.present writes ty, Option.isSome_iff_exists] at present
  rcases present with ⟨column, found⟩
  exact ⟨column, found, covers.length writes ty column found⟩

theorem Covers.no_column (covers : Covers columns table) (writes : Bool) {ty : TypeId}
    (absent : table.containsColumn ty = false) : columns writes ty = none := by
  rw [← covers.present writes ty] at absent
  exact Option.isSome_eq_false_iff.mp absent |> Option.isNone_iff_eq_none.mp

theorem Covers.isSome_cell (covers : Covers columns table) (writes : Bool) (ty : TypeId)
    {index : Nat} (inRange : index < table.rows) :
    ((columns writes ty).bind fun column => column[index]?).isSome =
      table.containsColumn ty := by
  cases present : table.containsColumn ty with
  | false => simp [covers.no_column writes present]
  | true =>
      rcases covers.column writes present with ⟨column, found, length⟩
      simp [found, length, inRange]

theorem Covers.length_cells (covers : Covers columns table) (writes : Bool) (ty : TypeId) :
    ((columns writes ty).getD []).length =
      if table.containsColumn ty then table.rows else 0 := by
  cases present : table.containsColumn ty with
  | false => simp [covers.no_column writes present]
  | true =>
      rcases covers.column writes present with ⟨column, found, length⟩
      simp [found, length]

/-- A fragment visits all rows of a table that contains it, or none. -/
theorem length_iterColumns (aligned : table.Aligned) (covers : Covers columns table)
    (self : QueryFragment) :
    (self.iterColumns columns table).length =
      if self.contains table then table.rows else 0 := by
  have optional : ∀ writes ty,
      (optionItems table.rows (columns writes ty)).length = table.rows := by
    intro writes ty
    cases found : columns writes ty with
    | none => simp [optionItems]
    | some column => simpa [optionItems] using covers.length writes ty column found
  induction self with
  | ref ty => rw [iterColumns, List.length_map, covers.length_cells]; rfl
  | refMut ty => rw [iterColumns, List.length_map, covers.length_cells]; rfl
  | optionRef ty => exact optional false ty
  | optionRefMut ty => exact optional true ty
  | has ty => simp [iterColumns, contains]
  | entityId => simp [iterColumns, contains, aligned.entities]
  | archetypeHash => simp [iterColumns, contains]
  | pair first rest inductionFirst inductionRest =>
      rw [iterColumns, List.length_zipWith, inductionFirst, inductionRest, contains]
      cases first.contains table <;> cases rest.contains table <;> simp

/-- The item of a row is what fetching the row returns. -/
theorem getElem?_iterColumns (aligned : table.Aligned) (covers : Covers columns table)
    (self : QueryFragment) {index : Nat} (inRange : index < table.rows) :
    (self.iterColumns columns table)[index]? = self.fetchColumns columns table index := by
  have listed : index < table.entities.length := by
    rw [aligned.entities]
    exact inRange
  have cell : ∀ writes ty, ((columns writes ty).getD [])[index]? =
      (columns writes ty).bind fun column => column[index]? := by
    intro writes ty
    cases columns writes ty <;> rfl
  have optional : ∀ writes ty, (optionItems table.rows (columns writes ty))[index]? =
      some (.option ((columns writes ty).bind fun column => column[index]?)) := by
    intro writes ty
    cases found : columns writes ty with
    | none => simp [optionItems, inRange]
    | some column =>
        have within : index < column.length := by
          rw [covers.length writes ty column found]
          exact inRange
        simp [optionItems, within]
  induction self with
  | ref ty => rw [iterColumns, List.getElem?_map, cell]; rfl
  | refMut ty => rw [iterColumns, List.getElem?_map, cell]; rfl
  | optionRef ty => exact optional false ty
  | optionRefMut ty => exact optional true ty
  | has ty => simp [iterColumns, fetchColumns, inRange]
  | entityId => rw [iterColumns, List.getElem?_map]; rfl
  | archetypeHash => simp [iterColumns, fetchColumns, inRange, listed]
  | pair first rest inductionFirst inductionRest =>
      rw [iterColumns, List.getElem?_zipWith, inductionFirst, inductionRest, fetchColumns]
      cases first.fetchColumns columns table index <;>
        cases rest.fetchColumns columns table index <;> rfl

theorem fetchColumns_isSome (aligned : table.Aligned) (covers : Covers columns table)
    (self : QueryFragment) {index : Nat} (inRange : index < table.rows) :
    (self.fetchColumns columns table index).isSome = self.contains table := by
  have listed : index < table.entities.length := by
    rw [aligned.entities]
    exact inRange
  induction self with
  | ref ty => rw [fetchColumns, Option.isSome_map, covers.isSome_cell _ _ inRange]; rfl
  | refMut ty => rw [fetchColumns, Option.isSome_map, covers.isSome_cell _ _ inRange]; rfl
  | optionRef ty => rfl
  | optionRefMut ty => rfl
  | has ty => rfl
  | entityId => simp [fetchColumns, contains, listed]
  | archetypeHash => simp [fetchColumns, contains, listed]
  | pair first rest inductionFirst inductionRest =>
      rw [contains, ← inductionFirst, ← inductionRest, fetchColumns]
      cases first.fetchColumns columns table index <;>
        cases rest.fetchColumns columns table index <;> rfl

/-- What a whole table yields, row by row. -/
theorem iterColumns_eq (aligned : table.Aligned) (covers : Covers columns table)
    (self : QueryFragment) :
    (self.iterColumns columns table).map some =
      if self.contains table then
        (List.range table.rows).map (self.fetchColumns columns table)
      else [] := by
  have length := length_iterColumns aligned covers self
  cases contained : self.contains table with
  | false =>
      rw [contained] at length
      simpa using length
  | true =>
      rw [contained, if_pos rfl] at length
      apply List.ext_getElem
      · simp [length]
      · intro index left right
        have inRange : index < table.rows := by simpa using right
        have here := getElem?_iterColumns aligned covers self inRange
        rw [List.getElem?_eq_getElem (length ▸ inRange)] at here
        simpa using here

theorem cell_refColumns (const mutable : Access) (ptr : Ptr) (writes : Bool) (ty : TypeId)
    (index : Nat) :
    ((refColumns const mutable ptr table writes ty).bind fun refs => refs[index]?) =
      (table.getComponent ty index).map fun _ =>
        { access := if writes then mutable else const, archetype := ptr, ty, row := index } := by
  rw [refColumns, EntityTable.getComponent]
  cases table.components[ty]? with
  | none => rfl
  | some column =>
      by_cases inRange : index < column.length <;> simp [columnRefs, inRange]

/-- Following the references of a row yields its values. -/
theorem follow_fetchColumns (const mutable : Access) (ptr : Ptr) (self : QueryFragment)
    {read : Reference → Option Value}
    (reads : ∀ reference : Reference, reference.archetype = ptr →
      read reference = table.getComponent reference.ty reference.row) (index : Nat) :
    (self.fetchColumns (refColumns const mutable ptr table) table index).bind
        (Item.follow read) =
      self.fetchColumns (valueColumns table) table index := by
  induction self with
  | ref ty =>
      simp only [fetchColumns, cell_refColumns]
      change _ = (table.getComponent ty index).map Item.ref
      cases cell : table.getComponent ty index <;> simp [Item.follow, reads, cell]
  | refMut ty =>
      simp only [fetchColumns, cell_refColumns]
      change _ = (table.getComponent ty index).map Item.ref
      cases cell : table.getComponent ty index <;> simp [Item.follow, reads, cell]
  | optionRef ty =>
      simp only [fetchColumns, cell_refColumns]
      change _ = some (Item.option (table.getComponent ty index))
      cases cell : table.getComponent ty index <;> simp [Item.follow, reads, cell]
  | optionRefMut ty =>
      simp only [fetchColumns, cell_refColumns]
      change _ = some (Item.option (table.getComponent ty index))
      cases cell : table.getComponent ty index <;> simp [Item.follow, reads, cell]
  | has ty => rfl
  | entityId =>
      simp only [fetchColumns]
      cases table.entities[index]? <;> rfl
  | archetypeHash =>
      simp only [fetchColumns]
      cases table.entities[index]? <;> rfl
  | pair first rest inductionFirst inductionRest =>
      rw [fetchColumns, fetchColumns, ← inductionFirst, ← inductionRest]
      cases first.fetchColumns (refColumns const mutable ptr table) table index with
      | none => rfl
      | some item =>
          cases rest.fetchColumns (refColumns const mutable ptr table) table index with
          | none => cases left : item.follow read <;> simp [left]
          | some other => rfl

/-- Following the references of a table in order yields what `iter` yields. -/
theorem map_follow (aligned : table.Aligned) (const mutable : Access) (ptr : Ptr)
    (self : QueryFragment) {read : Reference → Option Value}
    (reads : ∀ reference : Reference, reference.archetype = ptr →
      read reference = table.getComponent reference.ty reference.row) :
    (self.iterColumns (refColumns const mutable ptr table) table).map (Item.follow read) =
      (self.iter table).map some := by
  have refs := covers_refColumns aligned const mutable ptr
  have values := covers_valueColumns aligned
  have lengthRefs := length_iterColumns aligned refs self
  have lengthValues := length_iterColumns aligned values self
  rw [iter_eq]
  apply List.ext_getElem
  · rw [List.length_map, List.length_map, lengthRefs, lengthValues]
  · intro index left right
    rw [List.length_map] at left right
    have inRange : index < table.rows := by
      rw [lengthRefs] at left
      split at left
      · exact left
      · cases left
    have fetched := follow_fetchColumns const mutable ptr self reads index
    rw [← getElem?_iterColumns aligned refs self inRange,
      ← getElem?_iterColumns aligned values self inRange, List.getElem?_eq_getElem left,
      List.getElem?_eq_getElem right] at fetched
    simpa using fetched

end Tables

end QueryFragment

namespace World

variable {Value : Type}

def deref (w : World Value) (reference : Reference) : Option Value := do
  (← w.tables reference.archetype).getComponent reference.ty reference.row

/-- Each entry of `archetypes` owns a table of its own, as boxes do. -/
def Boxed (w : World Value) : Prop :=
  ∀ (key other : TypeHash) (ptr : Ptr), w.archetypes[key]? = some ptr →
    w.archetypes[other]? = some ptr → key = other

theorem Owned.boxed {w : World Value} (owned : w.Owned) : w.Boxed := by
  intro key other ptr first second
  rcases owned.archetypes key ptr first with ⟨table, found, ty⟩
  rcases owned.archetypes other ptr second with ⟨same, foundSame, tySame⟩
  rw [found, Option.some.injEq] at foundSame
  rw [← ty, ← tySame, foundSame]

/-- No table is walked twice. -/
theorem Boxed.walked {w : World Value} (boxed : w.Boxed) :
    w.walked.Pairwise fun left right => left.1 ≠ right.1 := by
  have keys := List.pairwise_map.mp (BTreeMap.toList_map_fst_nodup w.archetypes)
  rw [World.walked, List.pairwise_filterMap]
  refine keys.imp_of_mem ?_
  rintro ⟨key, ptr⟩ ⟨other, otherPtr⟩ member memberOther different entry found entryOther
    foundOther same
  rcases Option.map_eq_some_iff.mp found with ⟨_, _, rfl⟩
  rcases Option.map_eq_some_iff.mp foundOther with ⟨_, _, rfl⟩
  have owner := BTreeMap.mem_toList.mp member
  have ownerOther := BTreeMap.mem_toList.mp memberOther
  change ptr = otherPtr at same
  subst same
  exact different (boxed key other ptr owner ownerOther)

end World

namespace Query

variable {Value : Type}

def iterMut (self : Query) (w : World Value) : List (Item Reference) :=
  (self.archetypes w).flatMap fun entry => self.fragment.iterMut entry.1 entry.2

def iterUnsafe (self : Query) (w : World Value) : List (Item Reference) :=
  (self.archetypes w).flatMap fun entry => self.fragment.iterUnsafe entry.1 entry.2

def fetchMut (self : Query) (w : World Value) (id : EntityId) : Option (Item Reference) := do
  let (ptr, index, archetype) ← self.lookup w id
  self.fragment.fetchMut ptr archetype index

def fetchUnsafe (self : Query) (w : World Value) (id : EntityId) :
    Option (Item Reference) := do
  let (ptr, index, archetype) ← self.lookup w id
  self.fragment.fetchUnsafe ptr archetype index

/-- The entities whose rows are visited, in order. -/
def ids (self : Query) (w : World Value) : List EntityId :=
  (self.archetypes w).flatMap fun entry =>
    if self.fragment.contains entry.2 then entry.2.entities else []

variable {w : World Value} {ptr : Ptr} {table : EntityTable Value} {id : EntityId} {index : Nat}

theorem mem_archetypes {self : Query} :
    (ptr, table) ∈ self.archetypes w ↔
      (ptr, table) ∈ w.walked ∧ self.filter.filter table = true := List.mem_filter

theorem archetypes_aligned (consistent : w.Consistent) {self : Query}
    (walked : (ptr, table) ∈ self.archetypes w) : table.Aligned :=
  consistent.aligned ptr table (World.mem_walked.mp (mem_archetypes.mp walked).1).2

/-- The row of a listed entity is looked up in the table that lists it. -/
theorem lookup_of_entities (consistent : w.Consistent) {self : Query}
    (walked : (ptr, table) ∈ self.archetypes w) (owner : table.entities[index]? = some id) :
    self.lookup w id = some (ptr, index, table) := by
  rcases mem_archetypes.mp walked with ⟨inWorld, passes⟩
  have found := (World.mem_walked.mp inWorld).2
  have placed := consistent.place_of_entities found owner
  rw [EntityIndex.place] at placed
  simp [lookup, placed, found, passes]

/-- What is looked up is a row of a walked table, if its entity is in one. -/
theorem entities_of_lookup (consistent : w.Consistent)
    (listed : ∀ id, w.entityIds.isValid id = true → w.Walks id) {self : Query}
    (found : self.lookup w id = some (ptr, index, table)) :
    (ptr, table) ∈ self.archetypes w ∧ table.entities[index]? = some id ∧
      index < table.rows := by
  simp only [lookup, Option.bind_eq_bind, Option.bind_eq_some_iff, Option.guard_eq_some',
    Option.pure_def, Option.some.injEq, Prod.mk.injEq, exists_const] at found
  rcases found with ⟨⟨_, _⟩, placed, archetype, foundTable, passes, rfl, rfl, rfl⟩
  rcases consistent.table_of_place placed with ⟨same, foundSame, _, inRange, owner, _⟩
  rw [foundTable, Option.some.injEq] at foundSame
  subst foundSame
  rcases listed id (EntityIndex.isValid_iff_place.mpr ⟨_, placed⟩) with
    ⟨other, otherTable, walked, member⟩
  rcases List.mem_iff_getElem?.mp member with ⟨position, ownerOther⟩
  have again := consistent.place_of_entities (World.mem_walked.mp walked).2 ownerOther
  rw [EntityIndex.place, placed] at again
  cases again
  have sameTable := (World.mem_walked.mp walked).2
  rw [foundTable, Option.some.injEq] at sameTable
  subst sameTable
  exact ⟨mem_archetypes.mpr ⟨walked, passes⟩, owner, inRange⟩

/-- The visited rows, in the order of their entities. -/
theorem map_ids {β : Type} (consistent : w.Consistent) (self : Query)
    (row : Ptr → EntityTable Value → Nat → Option β) :
    (self.ids w).map (fun id => (self.lookup w id).bind fun spot => row spot.1 spot.2.2 spot.2.1) =
      (self.archetypes w).flatMap fun entry =>
        if self.fragment.contains entry.2 then
          (List.range entry.2.rows).map (row entry.1 entry.2)
        else [] := by
  rw [ids, List.map_flatMap]
  apply List.flatMap_congr
  rintro ⟨ptr, table⟩ walked
  have aligned := archetypes_aligned consistent walked
  split
  · apply List.ext_getElem
    · simp [aligned.entities]
    · intro index left right
      have inRange : index < table.entities.length := by simpa using left
      have owner := List.getElem?_eq_getElem inRange
      simp [lookup_of_entities consistent walked owner]
  · rfl

theorem mem_ids (consistent : w.Consistent)
    (listed : ∀ id, w.entityIds.isValid id = true → w.Walks id) (self : Query) :
    id ∈ self.ids w ↔ self.contains w id = true := by
  rw [ids, List.mem_flatMap]
  constructor
  · rintro ⟨⟨ptr, table⟩, walked, member⟩
    dsimp only at member
    split at member
    · rename_i contained
      rcases List.mem_iff_getElem?.mp member with ⟨index, owner⟩
      simp [Query.contains, lookup_of_entities consistent walked owner, contained]
    · cases member
  · intro contained
    rw [Query.contains, Option.any_eq_true] at contained
    rcases contained with ⟨⟨ptr, index, table⟩, found, contained⟩
    rcases entities_of_lookup consistent listed found with ⟨walked, owner, _⟩
    refine ⟨(ptr, table), walked, ?_⟩
    rw [if_pos contained]
    exact List.mem_of_getElem? owner

theorem nodup_ids (consistent : w.Consistent) (boxed : w.Boxed) (self : Query) :
    (self.ids w).Nodup := by
  rw [ids, List.nodup_flatMap]
  have entities : ∀ ptr table, (ptr, table) ∈ self.archetypes w →
      table.entities.Nodup := by
    intro ptr table walked
    have nodup := consistent.linked.keys_nodup ptr
    rwa [World.keys_store_of_table
      (World.mem_walked.mp (mem_archetypes.mp walked).1).2] at nodup
  constructor
  · rintro ⟨ptr, table⟩ walked
    split
    · exact entities ptr table walked
    · exact List.nodup_nil
  · refine (boxed.walked.filter _).imp_of_mem ?_
    rintro ⟨ptr, table⟩ ⟨other, otherTable⟩ walked walkedOther different id here there
    dsimp only at here there
    split at here
    · split at there
      · rcases List.mem_iff_getElem?.mp here with ⟨index, owner⟩
        rcases List.mem_iff_getElem?.mp there with ⟨position, ownerOther⟩
        have first := lookup_of_entities consistent walked owner
        rw [lookup_of_entities consistent walkedOther ownerOther] at first
        cases first
        exact different rfl
      · cases there
    · cases here

/-- Any of the ways to walk a table yields what fetching its rows returns. -/
theorem map_iter {α : Type} (consistent : w.Consistent) (self : Query)
    (columns : Ptr → EntityTable Value → Bool → TypeId → Option (List α))
    (covers : ∀ ptr table, table.Aligned → QueryFragment.Covers (columns ptr table) table) :
    ((self.archetypes w).flatMap fun entry =>
        self.fragment.iterColumns (columns entry.1 entry.2) entry.2).map some =
      (self.ids w).map fun id => (self.lookup w id).bind fun spot =>
        self.fragment.fetchColumns (columns spot.1 spot.2.2) spot.2.2 spot.2.1 := by
  rw [map_ids consistent self fun ptr table index =>
    self.fragment.fetchColumns (columns ptr table) table index, List.map_flatMap]
  apply List.flatMap_congr
  rintro ⟨ptr, table⟩ walked
  have aligned := archetypes_aligned consistent walked
  exact QueryFragment.iterColumns_eq aligned (covers ptr table aligned) self.fragment

/-- `count` adds up rows, the iterator visits them. -/
theorem count_eq_length (consistent : w.Consistent) (self : Query) :
    self.count w = (self.iter w).length := by
  have visits : ∀ entry ∈ self.archetypes w, (self.fragment.iter entry.2).length =
      if self.fragment.contains entry.2 then entry.2.rows else 0 := by
    rintro ⟨ptr, table⟩ walked
    have aligned := archetypes_aligned consistent walked
    rw [QueryFragment.iter_eq]
    exact QueryFragment.length_iterColumns aligned
      (QueryFragment.covers_valueColumns aligned) self.fragment
  rw [count, matching, iter, List.length_flatMap, List.map_congr_left visits]
  induction self.archetypes w with
  | nil => rfl
  | cons entry rest induction =>
      rw [List.map_cons, List.map_cons, List.sum_cons, ← induction, List.filter_cons]
      cases self.fragment.contains entry.2 <;> simp

theorem isValid_of_contains {self : Query} (contained : self.contains w id = true) :
    w.entityIds.isValid id = true := by
  rw [Query.contains, Option.any_eq_true] at contained
  rcases contained with ⟨⟨ptr, index, table⟩, found, _⟩
  simp only [lookup, Option.bind_eq_bind, Option.bind_eq_some_iff] at found
  rcases found with ⟨spot, placed, _⟩
  exact EntityIndex.isValid_iff_place.mpr ⟨spot, placed⟩

theorem contains_iff_fetch (consistent : w.Consistent)
    (listed : ∀ id, w.entityIds.isValid id = true → w.Walks id) (self : Query) (id : EntityId) :
    self.contains w id = true ↔ (self.fetch w id).isSome = true := by
  rw [Query.contains, Query.fetch]
  cases found : self.lookup w id with
  | none => simp
  | some spot =>
      rcases spot with ⟨ptr, index, table⟩
      rcases entities_of_lookup consistent listed found with ⟨walked, _, inRange⟩
      have aligned := archetypes_aligned consistent walked
      have some := QueryFragment.fetchColumns_isSome aligned
        (QueryFragment.covers_valueColumns aligned) self.fragment inRange
      rw [← QueryFragment.fetch_eq] at some
      simp [some]

/-- The items of `iter`, as what `fetch` returns. -/
theorem map_iter_fetch (consistent : w.Consistent) (self : Query) :
    (self.iter w).map some = (self.ids w).map (self.fetch w) := by
  have values := map_iter consistent self (fun _ => QueryFragment.valueColumns)
    fun _ _ => QueryFragment.covers_valueColumns
  simp only [← QueryFragment.iter_eq, ← QueryFragment.fetch_eq] at values
  exact values

theorem isEmpty_iff (consistent : w.Consistent) (self : Query) :
    self.isEmpty w = true ↔ self.iter w = [] := by
  rw [← List.length_eq_zero_iff, ← count_eq_length consistent, count,
    List.sum_eq_zero_iff_forall_eq_nat, isEmpty, List.all_eq_true, List.forall_mem_map]
  simp [EntityTable.isEmpty]

theorem any_eq_not_isEmpty (self : Query) : self.any w = !self.isEmpty w := by
  rw [any, isEmpty, List.not_all_eq_any_not]

/-- Following the references in the order in which they are handed out. -/
theorem map_follow (consistent : w.Consistent) (self : Query) (const mutable : Access) :
    ((self.archetypes w).flatMap fun entry => self.fragment.iterColumns
        (QueryFragment.refColumns const mutable entry.1 entry.2) entry.2).map
        (Item.follow w.deref) = (self.iter w).map some := by
  rw [iter, List.map_flatMap, List.map_flatMap]
  apply List.flatMap_congr
  rintro ⟨ptr, table⟩ walked
  have aligned := archetypes_aligned consistent walked
  have found := (World.mem_walked.mp (mem_archetypes.mp walked).1).2
  exact self.fragment.map_follow aligned const mutable ptr fun reference here => by
    simp [World.deref, here, found]

/-- In a world whose entities are all in walked tables, the ways to read a query
agree: it visits the row of each entity that it contains once, and all
iterators visit the rows in one order. -/
theorem agrees (consistent : w.Consistent) (boxed : w.Boxed)
    (listed : ∀ id, w.entityIds.isValid id = true → w.Walks id) (self : Query) :
    (∃ ids : List EntityId, ids.Nodup ∧
      (∀ id, id ∈ ids ↔ w.entityIds.isValid id = true ∧ self.contains w id = true) ∧
      (self.iter w).map some = ids.map (self.fetch w) ∧
      (self.iterMut w).map some = ids.map (self.fetchMut w) ∧
      (self.iterUnsafe w).map some = ids.map (self.fetchUnsafe w)) ∧
    (∀ id, self.contains w id = true ↔ (self.fetch w id).isSome = true) ∧
    self.count w = (self.iter w).length ∧
    (self.isEmpty w = true ↔ self.iter w = []) ∧ (self.any w = true ↔ self.iter w ≠ []) ∧
    (self.iterMut w).map (Item.follow w.deref) = (self.iter w).map some ∧
    (self.iterUnsafe w).map (Item.follow w.deref) = (self.iter w).map some := by
  have refs := fun const mutable => map_iter consistent self
    (fun ptr => QueryFragment.refColumns const mutable ptr)
    fun ptr _ aligned => QueryFragment.covers_refColumns aligned const mutable ptr
  have empty := isEmpty_iff consistent self
  refine ⟨⟨self.ids w, nodup_ids consistent boxed self, ?_, map_iter_fetch consistent self,
    refs .shared .exclusive, refs .raw .raw⟩, contains_iff_fetch consistent listed self,
    count_eq_length consistent self, empty, ?_, map_follow consistent self .shared .exclusive,
    map_follow consistent self .raw .raw⟩
  · intro id
    rw [mem_ids consistent listed]
    exact ⟨fun contained => ⟨isValid_of_contains contained, contained⟩, And.right⟩
  · rw [any_eq_not_isEmpty, Bool.not_eq_true', ← Bool.not_eq_true, empty]

/-- What makes entities in three tables, one of which is deleted again. -/
def someEntities : List (Operation Nat) :=
  [.insertEntity, .insertEntity, .insertEntity, .insertEntity,
    .setBundle (EntityId.new 0 0) [(7#128, 5)],
    .setBundle (EntityId.new 1 0) [(7#128, 6), (9#128, 1)],
    .setBundle (EntityId.new 2 0) [(8#128, 3)],
    .setBundle (EntityId.new 3 0) [(7#128, 8)],
    .deleteEntity (EntityId.new 0 0)]

/-- The component 7 where it is mutable, the component 9 where there is one, and the id. -/
def sevenAndNine : Query where
  fragment := .pair (.refMut 7#128) (.pair (.optionRef 9#128) .entityId)
  filter := .Or (.With 9#128) (.WithOut 8#128)

open Sample in
theorem agrees_sample :
    ∃ w : World Nat, (World.new 1).bind (World.runOperations · someEntities) = some w ∧
      sevenAndNine.iter w = [
        .pair (.ref 8) (.pair (.option none) (.entityId (EntityId.new 3 0))),
        .pair (.ref 6) (.pair (.option (some 1)) (.entityId (EntityId.new 1 0)))] ∧
      sevenAndNine.count w = (sevenAndNine.iter w).length ∧
      ∃ ids : List EntityId, ids.Nodup ∧
        (∀ id, id ∈ ids ↔ w.entityIds.isValid id = true ∧ sevenAndNine.contains w id = true) ∧
        (sevenAndNine.iter w).map some = ids.map (sevenAndNine.fetch w) := by
  obtain ⟨start, w, created, ran, unparked, items⟩ :
      ∃ start w : World Nat, World.new 1 = some start ∧
        start.runOperations someEntities = some w ∧ w.archetypesStaging = ∅ ∧
        sevenAndNine.iter w = [
          .pair (.ref 8) (.pair (.option none) (.entityId (EntityId.new 3 0))),
          .pair (.ref 6) (.pair (.option (some 1)) (.entityId (EntityId.new 1 0)))] :=
    ⟨_, _, rfl, rfl, rfl, rfl⟩
  have wf := World.runOperations_wellFormed (World.new_spec created).1 ran
  have listed : ∀ id, w.entityIds.isValid id = true → w.Walks id := by
    intro id valid
    rcases EntityIndex.isValid_iff_place.mp valid with ⟨_, placed⟩
    apply wf.walks _ placed
    intro key
    rw [unparked]
    exact Std.ExtTreeMap.getElem?_empty
  rcases agrees wf.toConsistent wf.toOwned.boxed listed sevenAndNine with
    ⟨⟨ids, distinct, contained, fetched, _⟩, _, counted, _⟩
  exact ⟨w, by rw [created]; exact ran, items, counted, ids, distinct, contained, fetched⟩

end Query

end Cecs

import Cecs.Serde.Housed
import Cecs.Serde.RoundTrip
import Cecs.World.RowOrder

/-! # The order of loaded rows

A load takes the values of a payload type by type. Each value moves the row of its entity to the
table of one more column, so the order in which the rows of a table end up depends on the order
in the payload and on the registered types of the entities. -/

namespace Cecs

open Foundation

namespace World

section Loading

variable {Value : Type} [UnitTypeId] [BuiltinValues Value] {w after : World Value} {id : EntityId}
  {types : Finset TypeId} {component : TypeId} {value : Value}

omit [BuiltinValues Value] in
theorem Loading.setComponent_walkedRows (loading : w.Loading types)
    (unparked : ∀ key : TypeHash, w.archetypesStaging[key]? = none) {row : Row Value}
    (live : w.view id = some row) {columns : Finset TypeId}
    (shape : ∀ ty, (row ty).isSome = true ↔ ty ∈ columns)
    (set : w.setComponent id component value = some (.ok (), after)) :
    after.walkedRows = transfer w.walkedRows (some (hashTypes columns))
      (hashTypes (insert component columns)) id := by
  rcases loading.toConsistent.table_of_view live with
    ⟨ptr, index, table, outcome, found, aligned, inRange, _, rfl⟩
  have shaped := loading.shaped ptr table found
  have same : columns = table.types := by
    ext ty
    rw [← shape, aligned.fills_row inRange ty]
  subst same
  rw [setBundle_walkedRows loading.toOwned loading.linked unparked outcome found set,
    shaped.hashed]
  congr 1
  split
  · rename_i fits
    have present : component ∈ table.types := by
      have subset := EntityTable.canInsert_iff.mp fits
      simpa [Bundle.types] using subset
    rw [Finset.insert_eq_of_mem present]
  · have distinct : Bundle.Distinct [(component, value)] := List.nodup_singleton component
    rw [shaped.computeHashFromTable distinct]
    simp [Finset.union_comm table.types]

/-- One value of a payload moves one row; a new entity comes from outside. -/
theorem Loading.loadComponent_walkedRows (loading : w.Loading types)
    (unparked : ∀ key : TypeHash, w.archetypesStaging[key]? = none) (alone : w.Alone id)
    (below : id.index + 1 < ENTITY_INDEX_MASK) {columns : Finset TypeId}
    (shape : ∀ ty, ((w.view id).getD Row.marker ty).isSome = true ↔ ty ∈ columns)
    (loaded : WorldPersister.loadComponent component w (id, value) = some after) :
    after.walkedRows = transfer w.walkedRows ((w.view id).map fun _ => hashTypes columns)
      (hashTypes (insert component columns)) id := by
  cases live : w.view id with
  | some row =>
      have valid : w.isIdValid id = true := by
        rw [isIdValid_iff loading.toConsistent, live]
        simp
      rw [live] at shape
      rw [WorldPersister.loadComponent, if_pos valid] at loaded
      exact loading.setComponent_walkedRows unparked live shape
        (WorldPersister.setComponent_of_unwrapped loaded)
  | none =>
      have invalid : ¬w.isIdValid id = true := by
        rw [isIdValid_iff loading.toConsistent, live]
        simp
      rcases loading.insertId alone live below with
        ⟨middle, inserted, loadingMiddle, viewedMiddle, _⟩
      have liveMiddle : middle.view id = some Row.marker := by
        rw [viewedMiddle, Function.update_self]
      have unparkedMiddle : ∀ key : TypeHash, middle.archetypesStaging[key]? = none := by
        intro key
        rw [(insertId_evolves inserted).staging, unparked]
      rw [live] at shape
      rw [WorldPersister.loadComponent, if_neg invalid, inserted] at loaded
      -- The new entity passes through the void table.
      have unitOnly : columns = {unitTypeId} := by
        ext ty
        rw [← shape, Finset.mem_singleton]
        by_cases same : ty = unitTypeId <;> simp [Row.marker, same]
      have absent : id ∉ w.walkedRows VOID_TY := by
        intro member
        rcases place_of_mem_walkedRows loading.linked member with ⟨_, _, _, placed⟩
        rw [(view_eq_none_iff loading.toConsistent).mp live] at placed
        cases placed
      rw [loadingMiddle.setComponent_walkedRows unparkedMiddle liveMiddle shape
          (WorldPersister.setComponent_of_unwrapped loaded),
        insertId_walkedRows loading.toOwned.boxes inserted, unitOnly, EntityTable.hashTypes_unit,
        transfer_through absent]
      rfl

end Loading

end World

namespace WorldPersister

section Place

variable {Value : Type} [UnitTypeId]

/-- The types of the cells of one entity. -/
def typesIn (done : List (EntityId × TypeId)) (id : EntityId) : Finset TypeId :=
  ((done.filter fun cell => cell.1 = id).map Prod.snd).toFinset

/-- The hash of the table with the given columns, and the unit column. -/
def tableHash (columns : Finset TypeId) : TypeHash := hashTypes (insert unitTypeId columns)

/-- The table of an entity with these columns, if it is loaded. -/
def tableOf (columns : Finset TypeId) : Option TypeHash :=
  if columns = ∅ then none else some (tableHash columns)

variable {done : List (EntityId × TypeId)} {id other : EntityId} {ty : TypeId}

omit [UnitTypeId] in
theorem mem_typesIn : ty ∈ typesIn done id ↔ (id, ty) ∈ done := by
  simp [typesIn]

omit [UnitTypeId] in
theorem typesIn_cons_of_ne (different : other ≠ id) :
    typesIn ((id, ty) :: done) other = typesIn done other := by
  simp [typesIn, Ne.symm different]

theorem tableOf_insert (columns : Finset TypeId) (ty : TypeId) :
    tableOf (insert ty columns) = some (tableHash (insert ty columns)) := by
  rw [tableOf, if_neg (Finset.insert_ne_empty ty columns)]

/-- Among known types, a table has the hash of its columns only. -/
theorem tableHash_inj {types left right : Finset TypeId} (apart : HashesApart types)
    (unit : unitTypeId ∈ types) (leftWithin : left ⊆ types) (rightWithin : right ⊆ types)
    (same : tableHash left = tableHash right) :
    insert unitTypeId left = insert unitTypeId right :=
  apart _ (Finset.insert_subset unit leftWithin) _ (Finset.insert_subset unit rightWithin)
    (Finset.mem_insert_self ..) (Finset.mem_insert_self ..) same

end Place

section Loop

variable {Value : Type} [UnitTypeId] [BuiltinValues Value] {source w after : World Value}
  {types : Finset TypeId} {done : List (EntityId × TypeId)} {component : TypeId}

/-- A world being loaded, with the cells `done`, in which nothing is parked. -/
structure Placing (source : World Value) (types : Finset TypeId)
    (done : List (EntityId × TypeId)) (w : World Value) : Prop
    extends Rebuilding source types done w where
  present : ∀ id ty, (id, ty) ∈ done → (source.cells id ty).isSome = true
  within : ∀ id ty, (id, ty) ∈ done → ty ∈ types
  unparked : w.Unparked

theorem Placing.shape (placing : Placing source types done w) (id : EntityId) (ty : TypeId) :
    ((w.view id).getD Row.marker ty).isSome = true ↔ ty ∈ insert unitTypeId (typesIn done id) := by
  have marker : (Row.marker ty : Option Value).isSome = true ↔ ty = unitTypeId := by
    by_cases same : ty = unitTypeId <;> simp [Row.marker, same]
  rw [placing.viewed, rebuilt, Finset.mem_insert, mem_typesIn]
  by_cases cell : (id, ty) ∈ done
  · have listed : id ∈ done.map Prod.fst := List.mem_map_of_mem (f := Prod.fst) cell
    simp [listed, cell, placing.present id ty cell]
  · split
    · simp [cell, marker]
    · simp [cell, marker]

theorem Placing.table (placing : Placing source types done w) (id : EntityId) :
    ((w.view id).map fun _ => tableHash (typesIn done id)) = tableOf (typesIn done id) := by
  have listed : id ∈ done.map Prod.fst ↔ typesIn done id ≠ ∅ := by
    rw [← Finset.nonempty_iff_ne_empty]
    simp [Finset.Nonempty, mem_typesIn]
  rw [placing.viewed, rebuilt, tableOf]
  by_cases empty : typesIn done id = ∅
  · rw [if_neg (fun member => listed.mp member empty), if_pos empty]
    rfl
  · rw [if_pos (listed.mpr empty), if_neg empty]
    rfl

theorem Placing.loadComponent (consistent : source.Consistent)
    (placing : Placing source types done w) (apart : HashesApart types)
    (registered : component ∈ types) {id : EntityId} {value : Value}
    (cell : source.cells id component = some value) :
    ∃ after, loadComponent component w (id, value) = some after ∧
      Placing source types ((id, component) :: done) after ∧
      after.walkedRows = transfer w.walkedRows (tableOf (typesIn done id))
        (tableHash (insert component (typesIn done id))) id := by
  rcases placing.toRebuilding.loadComponent consistent apart registered cell with
    ⟨after, loaded, rebuilding, _⟩
  have live := live_of_cell cell
  refine ⟨after, loaded, { rebuilding with present := ?_, within := ?_, unparked := ?_ }, ?_⟩
  · intro other ty member
    rcases List.mem_cons.mp member with same | before
    · cases same
      rw [cell]
      rfl
    · exact placing.present other ty before
  · intro other ty member
    rcases List.mem_cons.mp member with same | before
    · cases same
      exact registered
    · exact placing.within other ty before
  · rcases loadComponent_cases loaded with ⟨middle, rfl | inserted, set⟩
    · exact placing.unparked.setBundle set
    · exact (placing.unparked.evolves (World.insertId_evolves inserted)).setBundle set
  · rw [placing.toLoading.loadComponent_walkedRows placing.unparked.unparked
      (placing.toRebuilding.alone consistent live) (consistent.index_lt live) (placing.shape id)
      loaded, Finset.insert_comm, ← placing.table]
    rfl

/-- The values of one type move one row after another. -/
theorem Placing.loadComponents (consistent : source.Consistent)
    (placing : Placing source types done w) (apart : HashesApart types)
    (registered : component ∈ types) {values : List (EntityId × Value)}
    (distinct : (values.map Prod.fst).Nodup)
    (cells : ∀ entry ∈ values, source.cells entry.1 component = some entry.2) :
    ∃ after doneAfter, values.foldlM (WorldPersister.loadComponent component) w = some after ∧
      Placing source types doneAfter after ∧
      (∀ id ty, (id, ty) ∈ doneAfter ↔
        (id, ty) ∈ done ∨ ty = component ∧ id ∈ values.map Prod.fst) ∧
      after.walkedRows = (values.map Prod.fst).foldl (fun lists id =>
        transfer lists (tableOf (typesIn done id))
          (tableHash (insert component (typesIn done id))) id) w.walkedRows := by
  induction values generalizing w done with
  | nil => exact ⟨w, done, rfl, placing, by simp, rfl⟩
  | cons entry values induction =>
      rcases placing.loadComponent consistent apart registered
          (cells entry List.mem_cons_self) with
        ⟨middle, loaded, placingMiddle, rowsMiddle⟩
      rw [List.map_cons, List.nodup_cons] at distinct
      rcases induction placingMiddle distinct.2 fun other member =>
          cells other (List.mem_cons_of_mem _ member) with
        ⟨after, doneAfter, rest, placingAfter, listed, rows⟩
      refine ⟨after, doneAfter, ?_, placingAfter, ?_, ?_⟩
      · rw [List.foldlM_cons, loaded]
        exact rest
      · intro id ty
        rw [listed, List.mem_cons, List.map_cons, List.mem_cons, Prod.mk.injEq]
        tauto
      · rw [rows, List.map_cons, List.foldl_cons, rowsMiddle]
        apply List.foldl_ext
        intro lists id member
        have different : id ≠ entry.1 := fun same => distinct.1 (same ▸ member)
        rw [typesIn_cons_of_ne different]

end Loop

section Listed

variable {Value : Type} {w : World Value}

/-- The entities of one table with their values of one type. -/
theorem zip_eq_filterMap {ids : List EntityId} {values : List Value}
    {cells : EntityId → Option Value} (aligned : values.length = ids.length)
    (cell : ∀ (index : Nat) (id : EntityId), ids[index]? = some id → cells id = values[index]?) :
    ids.zip values = ids.filterMap fun id => (cells id).map fun value => (id, value) := by
  induction ids generalizing values with
  | nil => rfl
  | cons id ids induction =>
      cases values with
      | nil => simp at aligned
      | cons value values =>
          have here := cell 0 id rfl
          rw [List.filterMap_cons, here]
          simp only [List.getElem?_cons_zero, Option.map_some, List.zip_cons_cons]
          rw [induction (by simpa using aligned)]
          intro index other found
          exact cell (index + 1) other (by simpa using found)

/-- The values of a type that a save collects, entity by entity. -/
theorem componentValues_eq_filterMap (consistent : w.Consistent) (component : TypeId) :
    componentValues w component = w.listedIds.filterMap fun id =>
      (w.getComponent id component).map fun value => (id, value) := by
  rw [componentValues_eq, World.listedIds, List.filterMap_flatMap]
  apply List.flatMap_congr
  rintro ⟨ptr, table⟩ walked
  have found := (World.mem_walked.mp walked).2
  have aligned := consistent.aligned ptr table found
  have read : ∀ (index : Nat) (id : EntityId), table.entities[index]? = some id →
      w.getComponent id component = table.getComponent component index := by
    intro index id owner
    have placed := consistent.place_of_entities found owner
    simp [World.getComponent, EntityIndex.read_of_place placed, found]
  cases column : table.components[component]? with
  | none =>
      rw [Option.getD_none, List.zip_nil_right, eq_comm, List.filterMap_eq_nil_iff]
      intro id member
      rcases List.mem_iff_getElem?.mp member with ⟨index, owner⟩
      simp [read index id owner, EntityTable.getComponent, column]
  | some values =>
      rw [Option.getD_some]
      apply zip_eq_filterMap
      · rw [aligned.columns component values column, aligned.entities]
      · intro index id owner
        rw [read index id owner, EntityTable.getComponent, column]
        rfl

theorem componentValues_map_fst (consistent : w.Consistent) (component : TypeId) :
    (componentValues w component).map Prod.fst =
      w.listedIds.filter fun id => (w.getComponent id component).isSome := by
  rw [componentValues_eq_filterMap consistent]
  induction w.listedIds with
  | nil => rfl
  | cons id ids induction =>
      cases cell : w.getComponent id component <;> simp [cell, induction]

end Listed

end WorldPersister

namespace World

variable {Value : Type} [UnitTypeId]

/-- The types of an entity among those that were loaded. -/
def loadedTypes (w : World Value) (loaded : List TypeId) (id : EntityId) : Finset TypeId :=
  (loaded.filter fun ty => (w.getComponent id ty).isSome).toFinset

/-- The table of an entity after these types were loaded. -/
def loadedTable (w : World Value) (loaded : List TypeId) (id : EntityId) : Option TypeHash :=
  WorldPersister.tableOf (w.loadedTypes loaded id)

/-- The rows of a table after these types were loaded, the head of the list last. -/
def loadedRows (w : World Value) (key : TypeHash) : List TypeId → List EntityId
  | [] => []
  | ty :: loaded =>
      stage w.listedIds key (w.loadedTable loaded) (w.loadedTable (ty :: loaded))
        (w.loadedRows key loaded)

variable {w : World Value} {loaded : List TypeId} {id : EntityId} {component : TypeId}

omit [UnitTypeId] in
theorem mem_loadedTypes {ty : TypeId} :
    ty ∈ w.loadedTypes loaded id ↔ ty ∈ loaded ∧ (w.getComponent id ty).isSome = true := by
  simp [loadedTypes]

omit [UnitTypeId] in
theorem loadedTypes_cons_of_has (has : (w.getComponent id component).isSome = true) :
    w.loadedTypes (component :: loaded) id = insert component (w.loadedTypes loaded id) := by
  rw [loadedTypes, List.filter_cons, if_pos has, List.toFinset_cons, loadedTypes]

omit [UnitTypeId] in
theorem loadedTypes_cons_of_lacks (lacks : (w.getComponent id component).isSome = false) :
    w.loadedTypes (component :: loaded) id = w.loadedTypes loaded id := by
  rw [loadedTypes, List.filter_cons, if_neg (by simp [lacks]), loadedTypes]

omit [UnitTypeId] in
theorem loadedTypes_subset {types : Finset TypeId} (within : ∀ ty ∈ loaded, ty ∈ types) :
    w.loadedTypes loaded id ⊆ types := by
  intro ty member
  exact within ty (mem_loadedTypes.mp member).1

/-- While the values of one type are loaded, a table does not both lose and gain rows: it
loses rows only if the type is not among its columns, and gains rows only if it is. -/
theorem loadedTable_apart {types : Finset TypeId} (apart : HashesApart types)
    (unit : unitTypeId ∈ types) (within : ∀ ty ∈ component :: loaded, ty ∈ types)
    {ids : List EntityId} (has : ∀ id ∈ ids, (w.getComponent id component).isSome = true)
    (key : TypeHash) :
    (∀ id ∈ ids, w.loadedTable loaded id = some key →
        w.loadedTable (component :: loaded) id = some key) ∨
      ∀ id ∈ ids, w.loadedTable (component :: loaded) id = some key →
        w.loadedTable loaded id = some key := by
  by_cases loses : ∃ id ∈ ids, w.loadedTable loaded id = some key ∧
      component ∉ insert unitTypeId (w.loadedTypes loaded id)
  · rcases loses with ⟨leaver, _, here, lacks⟩
    right
    intro id member gained
    exfalso
    have columns : w.loadedTypes (component :: loaded) id =
        insert component (w.loadedTypes loaded id) := loadedTypes_cons_of_has (has id member)
    rw [loadedTable, columns, WorldPersister.tableOf_insert, Option.some.injEq] at gained
    rw [loadedTable, WorldPersister.tableOf] at here
    split at here
    · cases here
    · rw [Option.some.injEq, ← gained] at here
      have same := WorldPersister.tableHash_inj apart unit
        (loadedTypes_subset fun ty loadedTy => within ty (List.mem_cons_of_mem _ loadedTy))
        (columns ▸ loadedTypes_subset within) here
      rw [same] at lacks
      exact lacks (Finset.mem_insert_of_mem (Finset.mem_insert_self ..))
  · left
    intro id member here
    have present : component ∈ insert unitTypeId (w.loadedTypes loaded id) := by
      by_contra lacks
      exact loses ⟨id, member, here, lacks⟩
    rw [loadedTable, loadedTypes_cons_of_has (has id member), WorldPersister.tableOf_insert,
      WorldPersister.tableHash, Finset.insert_comm, Finset.insert_eq_of_mem present]
    rw [loadedTable, WorldPersister.tableOf] at here
    split at here
    · cases here
    · exact here

end World

namespace WorldPersister

section Replay

variable {Version Value : Type} [UnitTypeId] [BuiltinValues Value] {source w after : World Value}
  {types : Finset TypeId} {loaded : List TypeId} {component : TypeId}

/-- A world in which the values of the types `loaded` were loaded, the head of the list last. -/
structure Replayed (source : World Value) (types : Finset TypeId) (loaded : List TypeId)
    (w : World Value) : Prop where
  placing : ∃ done, Placing source types done w ∧
    ∀ id ty, (id, ty) ∈ done ↔ id ∈ source.listedIds ∧ ty ∈ source.loadedTypes loaded id
  rows : ∀ key, w.walkedRows key = source.loadedRows key loaded

omit [UnitTypeId] [BuiltinValues Value] in
theorem typesIn_eq {done : List (EntityId × TypeId)}
    (listed : ∀ id ty, (id, ty) ∈ done ↔
      id ∈ source.listedIds ∧ ty ∈ source.loadedTypes loaded id) {id : EntityId}
    (walked : id ∈ source.listedIds) : typesIn done id = source.loadedTypes loaded id := by
  ext ty
  rw [mem_typesIn, listed]
  exact and_iff_right walked

/-- The values of one type are loaded. -/
theorem Replayed.loadComponents (replayed : Replayed source types loaded w)
    (consistent : source.Consistent) (boxes : source.Boxes) (apart : HashesApart types)
    (unit : unitTypeId ∈ types) (within : ∀ ty ∈ component :: loaded, ty ∈ types) :
    ∃ after, (componentValues source component).foldlM (loadComponent component) w =
        some after ∧ Replayed source types (component :: loaded) after := by
  rcases replayed.placing with ⟨done, placing, listed⟩
  have ids := componentValues_map_fst consistent component
  have distinct : ((componentValues source component).map Prod.fst).Nodup := by
    rw [ids]
    exact (World.nodup_listedIds boxes consistent.linked).filter _
  have cells : ∀ entry ∈ componentValues source component,
      source.cells entry.1 component = some entry.2 := by
    intro entry member
    rcases (mem_componentValues consistent).mp member with ⟨_, row, viewed, cell⟩
    simp [World.cells, viewed, cell]
  rcases placing.loadComponents consistent apart (within component List.mem_cons_self) distinct
      cells with ⟨after, doneAfter, load, placingAfter, listedAfter, rows⟩
  refine ⟨after, load, ⟨doneAfter, placingAfter, ?_⟩, ?_⟩
  · intro id ty
    rw [listedAfter, listed, ids, List.mem_filter, World.mem_loadedTypes, World.mem_loadedTypes,
      List.mem_cons]
    constructor
    · intro either
      rcases either with ⟨walked, before, has⟩ | ⟨rfl, walked, has⟩
      · exact ⟨walked, Or.inr before, has⟩
      · exact ⟨walked, Or.inl rfl, has⟩
    · intro both
      rcases both with ⟨walked, rfl | before, has⟩
      · exact Or.inr ⟨rfl, walked, has⟩
      · exact Or.inl ⟨walked, before, has⟩
  · intro key
    have has : ∀ id ∈ source.listedIds.filter fun id =>
        (source.getComponent id component).isSome,
        (source.getComponent id component).isSome = true := fun id member =>
      (List.mem_filter.mp member).2
    have moves : after.walkedRows =
        (source.listedIds.filter fun id => (source.getComponent id component).isSome).foldl
          (fun lists id => transfer lists (source.loadedTable loaded id)
            (tableHash (insert component (source.loadedTypes loaded id))) id) w.walkedRows := by
      rw [rows, ids]
      apply List.foldl_ext
      intro lists id member
      rw [typesIn_eq listed (List.mem_filter.mp member).1]
      rfl
    have target : ∀ id ∈ source.listedIds.filter fun id =>
        (source.getComponent id component).isSome,
        source.loadedTable (component :: loaded) id =
          some (tableHash (insert component (source.loadedTypes loaded id))) := by
      intro id member
      rw [World.loadedTable, World.loadedTypes_cons_of_has (has id member), tableOf_insert]
    have still : ∀ id ∈ source.listedIds, (source.getComponent id component).isSome = false →
        source.loadedTable loaded id = source.loadedTable (component :: loaded) id := by
      intro id _ lacks
      rw [World.loadedTable, World.loadedTable, World.loadedTypes_cons_of_lacks lacks]
    rw [moves, foldl_transfer target (World.loadedTable_apart apart unit within has key),
      stage_filter still, replayed.rows, World.loadedRows]

theorem Replayed.insertResource (replayed : Replayed source types loaded w) (resource : TypeId)
    (value : Value) : Replayed source types loaded (w.insertResource resource value) := by
  rcases replayed.placing with ⟨done, placing, listed⟩
  have unparked : (w.insertResource resource value).Unparked := { placing.unparked with }
  exact ⟨⟨done, { placing with unparked := unparked }, listed⟩, replayed.rows⟩

end Replay

section Chain

variable {Version Value : Type} [UnitTypeId] [BuiltinValues Value] [TypeName] [VersionReq Version]
  {P next : WorldPersister Version} {source w : World Value} {types : Finset TypeId}
  {loaded : List TypeId}

/-- The types registered as components, in the order of their registration. -/
def registered (self : WorldPersister Version) : List TypeId :=
  ((self.entries.filter fun entry => entry.1 = .Component).map Prod.snd).reverse

omit [UnitTypeId] [TypeName] [VersionReq Version] in
theorem mem_registered {component : TypeId} :
    component ∈ P.registered ↔ component ∈ P.components := by
  simp [registered, components]

/-- The entries of a chain are loaded in its order. -/
theorem Replayed.visitMap (replayed : Replayed source types loaded w)
    (names : Function.Injective (typeName : TypeId → String)) (consistent : source.Consistent)
    (boxes : source.Boxes) (apart : HashesApart types) (unit : unitTypeId ∈ types)
    (within : ∀ ty ∈ next.registered ++ loaded, ty ∈ types)
    (known : ∀ entry ∈ next.entries, entry ∈ P.entries) {fuel : Nat}
    (enough : (next.saveEntry source : Entries Version Value).length < fuel) :
    ∃ after, P.visitMap fuel { pending := none, rest := next.saveEntry source } w =
        some (.ok after) ∧ Replayed source types (next.registered ++ loaded) after := by
  induction next generalizing fuel w loaded with
  | nil version =>
      cases fuel with
      | zero => simp at enough
      | succ fuel => exact ⟨w, rfl, replayed⟩
  | cons ty component version next induction =>
      have inChain := known (ty, component) List.mem_cons_self
      have rest : ∀ entry ∈ next.entries, entry ∈ P.entries := fun entry member =>
        known entry (List.mem_cons_of_mem _ member)
      rw [saveEntry, List.length_append] at enough
      rw [saveEntry]
      cases ty with
      | Component =>
          have order : (cons .Component component version next).registered ++ loaded =
              next.registered ++ component :: loaded := by
            simp [registered, entries]
          rw [order] at within ⊢
          rcases replayed.loadComponents consistent boxes apart unit
              (fun other member => within other (List.mem_append_right _ member)) with
            ⟨middle, load, replayedMiddle⟩
          rw [saveImpl] at enough ⊢
          split
          · rename_i none
            rw [List.isEmpty_iff.mp none] at load
            cases load
            rw [if_pos none] at enough
            exact induction replayedMiddle within rest (by simpa using enough)
          · rename_i some
            rw [if_neg some] at enough
            cases fuel with
            | zero => simp at enough
            | succ fuel =>
                rw [List.singleton_append, visitMap_components names inChain, load,
                  Option.bind_some]
                exact induction replayedMiddle within rest (by simp at enough; omega)
      | Resource =>
          have order : (cons .Resource component version next).registered = next.registered := by
            simp [registered, entries]
          rw [order] at within ⊢
          rw [saveImpl] at enough ⊢
          cases found : source.resources[component]? with
          | none =>
              rw [found] at enough
              exact induction replayed within rest (by simpa using enough)
          | some value =>
              rw [found] at enough
              cases fuel with
              | zero => simp at enough
              | succ fuel =>
                  rw [List.singleton_append, visitMap_resource names inChain]
                  exact induction (replayed.insertResource component value) within rest
                    (by simp at enough; omega)
      | Noop =>
          have order : (cons .Noop component version next).registered = next.registered := by
            simp [registered, entries]
          rw [order] at within ⊢
          exact induction replayed within rest (by simpa [saveImpl] using enough)

/-- What a load does to the rows of each table. -/
theorem load_replayed (names : Function.Injective (typeName : TypeId → String))
    (consistent : w.Consistent) (boxes : w.Boxes)
    (apart : HashesApart (insert unitTypeId P.components)) (accepts : P.Accepts P) :
    ∃ after, P.load (P.save w : Payload Version Value) = some (.ok after) ∧
      Replayed w (insert unitTypeId P.components) P.registered after := by
  obtain ⟨start, created⟩ : ∃ start : World Value, World.new 0 = some start := ⟨_, rfl⟩
  have unit : unitTypeId ∈ insert unitTypeId P.components := Finset.mem_insert_self ..
  rcases World.loading_new created unit with ⟨loading, viewed, _⟩
  have rebuilding : Rebuilding w (insert unitTypeId P.components) [] start := {
    loading with
    viewed := viewed
    live := fun _ _ member => absurd member List.not_mem_nil }
  have replayed : Replayed w (insert unitTypeId P.components) [] start := by
    refine ⟨⟨[], { rebuilding with present := ?_, within := ?_, unparked := ?_ }, ?_⟩, ?_⟩
    · exact fun _ _ member => absurd member List.not_mem_nil
    · exact fun _ _ member => absurd member List.not_mem_nil
    · exact World.unparked_new created
    · simp [World.mem_loadedTypes]
    · intro key
      rw [World.loadedRows, List.eq_nil_iff_forall_not_mem]
      intro id member
      rcases World.place_of_mem_walkedRows loading.linked member with ⟨_, _, _, placed⟩
      rw [(World.view_eq_none_iff loading.toConsistent).mp (congrFun viewed id)] at placed
      cases placed
  have within : ∀ ty ∈ P.registered ++ [], ty ∈ insert unitTypeId P.components := by
    intro ty member
    rw [List.append_nil, mem_registered] at member
    exact Finset.mem_insert_of_mem member
  have visits : ∀ fuel, (P.saveEntry w : Entries Version Value).length < fuel →
      ∃ after, P.visitMap fuel { pending := none, rest := P.saveEntry w } start =
          some (.ok after) ∧ Replayed w (insert unitTypeId P.components) P.registered after := by
    intro fuel enough
    have visited := replayed.visitMap names consistent boxes apart unit within
      (fun _ member => member) enough
    rw [List.append_nil] at visited
    exact visited
  rw [load, created, save, Option.bind_eq_bind, Option.bind_some]
  cases versioned : P.version with
  | none => exact visits _ (Nat.lt_succ_self _)
  | some version =>
      simp only [Option.toList_some, List.map_cons, List.map_nil, List.singleton_append,
        List.length_cons]
      rw [visitMap_version versioned, if_pos (accepts version version versioned versioned)]
      exact visits _ (Nat.lt_succ_self _)

end Chain

end WorldPersister

end Cecs

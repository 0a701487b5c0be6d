import Cecs.Serde.RowOrder

/-! # Saving a loaded world again

The second payload is the first one exactly when queries walk the loaded entities of each saved
type in the old order: the order of the hashes of their loaded tables has to agree with it, and
so has the order of rows in each table. -/

namespace Cecs

open Foundation

namespace World

variable {Value : Type} {w : World Value} {id : EntityId}

/-- The entities with a component, in the order in which queries walk them. -/
def idsWith (w : World Value) (component : TypeId) : List EntityId :=
  w.listedIds.filter fun id => (w.getComponent id component).isSome

theorem mem_idsWith {component : TypeId} : id ∈ w.idsWith component ↔
    id ∈ w.listedIds ∧ (w.getComponent id component).isSome = true := by
  simp [idsWith]

theorem walks_iff : w.Walks id ↔ id ∈ w.listedIds := by
  simp [Walks, listedIds]

/-- `BTreeMap` iterates in the order of its keys. -/
theorem keys_increasing (w : World Value) :
    w.archetypes.keys.Pairwise fun key other => key.toNat < other.toNat := by
  refine Std.ExtTreeMap.ordered_keys.imp ?_
  intro key other less
  exact BitVec.lt_def.mp (compareOfLessAndEq_eq_lt.mp less)

end World

namespace WorldPersister

section Walk

variable {Value : Type} [UnitTypeId] [BuiltinValues Value] {source w : World Value}
  {types : Finset TypeId} {loaded : List TypeId} {id : EntityId}

theorem Replayed.wellFormed (replayed : Replayed source types loaded w) : w.WellFormed := by
  rcases replayed.placing with ⟨done, placing, _⟩
  exact placing.toWellFormed

theorem Replayed.mem_listedIds (replayed : Replayed source types loaded w) :
    id ∈ w.listedIds ↔ id ∈ source.listedIds ∧ source.loadedTypes loaded id ≠ ∅ := by
  have wf := replayed.wellFormed
  rcases replayed.placing with ⟨done, placing, listed⟩
  have walked : id ∈ w.listedIds ↔ w.view id ≠ none := by
    rw [← World.walks_iff]
    constructor
    · intro walks
      rcases walks with ⟨ptr, table, walked, member⟩
      rcases List.mem_iff_getElem?.mp member with ⟨index, owner⟩
      have placed := wf.toConsistent.place_of_entities (World.mem_walked.mp walked).2 owner
      rw [ne_eq, World.view_eq_none_iff wf.toConsistent, placed]
      simp
    · intro live
      rw [ne_eq, World.view_eq_none_iff wf.toConsistent, ← ne_eq,
        Option.ne_none_iff_exists'] at live
      rcases live with ⟨spot, placed⟩
      exact wf.walks placing.unparked.unparked placed
  have some : w.view id ≠ none ↔ id ∈ done.map Prod.fst := by
    rw [placing.viewed, rebuilt]
    split
    · rename_i member
      simpa using member
    · rename_i absent
      simpa using absent
  rw [walked, some, ← Finset.nonempty_iff_ne_empty]
  simp [Finset.Nonempty, listed]

/-- The columns of a loaded entity. -/
theorem Replayed.shape (replayed : Replayed source types loaded w) (walked : id ∈ w.listedIds)
    (ty : TypeId) : (w.getComponent id ty).isSome = true ↔
      ty ∈ insert unitTypeId (source.loadedTypes loaded id) := by
  have consistent := replayed.wellFormed.toConsistent
  have listedHere := replayed.mem_listedIds.mp walked
  rcases replayed.placing with ⟨done, placing, listed⟩
  rw [consistent.getComponent_eq, World.cells, ← typesIn_eq listed listedHere.1,
    ← placing.shape id ty]
  cases live : w.view id with
  | none =>
      have gone := placing.table id
      rw [live, typesIn_eq listed listedHere.1, tableOf, if_neg listedHere.2] at gone
      cases gone
  | some row => rfl

/-- The values of a loaded entity. -/
theorem Replayed.getComponent (replayed : Replayed source types loaded w)
    (consistent : source.Consistent) (walked : id ∈ source.listedIds) {ty : TypeId}
    (has : ty ∈ source.loadedTypes loaded id) :
    w.getComponent id ty = source.getComponent id ty := by
  have wf := replayed.wellFormed
  rcases replayed.placing with ⟨done, placing, listed⟩
  have cell : (id, ty) ∈ done := (listed id ty).mpr ⟨walked, has⟩
  have member : id ∈ done.map Prod.fst := List.mem_map_of_mem (f := Prod.fst) cell
  rw [wf.toConsistent.getComponent_eq, consistent.getComponent_eq, World.cells, placing.viewed,
    rebuilt, if_pos member]
  exact if_pos cell

/-- A row of a table has the columns of its hash. -/
theorem Replayed.table (replayed : Replayed source types loaded w) {key : TypeHash}
    (member : id ∈ w.walkedRows key) : tableHash (source.loadedTypes loaded id) = key := by
  have wf := replayed.wellFormed
  rcases World.place_of_mem_walkedRows wf.linked member with ⟨ptr, index, owner, placed⟩
  rcases wf.toConsistent.table_of_place placed with
    ⟨table, found, aligned, inRange, owned, viewed⟩
  rcases wf.archetypes key ptr owner with ⟨_, foundAgain, rfl⟩
  cases found.symm.trans foundAgain
  have walked : id ∈ w.listedIds := by
    rw [World.listedIds_eq, List.mem_flatMap]
    refine ⟨table.ty, ?_, member⟩
    rw [Std.ExtTreeMap.mem_keys, BTreeMap.mem_iff]
    exact ⟨ptr, owner⟩
  have columns : table.types = insert unitTypeId (source.loadedTypes loaded id) := by
    ext ty
    rw [← replayed.shape walked ty, ← aligned.fills_row inRange ty,
      wf.toConsistent.getComponent_eq, World.cells, viewed]
    rfl
  rw [(wf.shaped ptr table found).hashed, columns, tableHash]

/-- Loaded entities are walked in the order of the hashes of their tables. -/
theorem Replayed.ordered (replayed : Replayed source types loaded w) :
    w.listedIds.Pairwise fun id other => (tableHash (source.loadedTypes loaded id)).toNat ≤
      (tableHash (source.loadedTypes loaded other)).toNat := by
  rw [World.listedIds_eq]
  exact pairwise_flatMap w.keys_increasing fun _ _ member => replayed.table member

/-- The rows of a table are the entities that queries walk with its hash. -/
theorem Replayed.filter_listedIds (replayed : Replayed source types loaded w) (key : TypeHash) :
    (w.listedIds.filter fun id => tableHash (source.loadedTypes loaded id) = key) =
      source.loadedRows key loaded := by
  rw [World.listedIds_eq, ← replayed.rows]
  apply filter_flatMap Std.ExtTreeMap.nodup_keys fun _ _ member => replayed.table member
  intro absent
  rw [Std.ExtTreeMap.mem_keys, BTreeMap.not_mem_iff] at absent
  exact World.walkedRows_of_absent absent

end Walk

section Condition

variable {Version Value : Type} [UnitTypeId] {P : WorldPersister Version} {w : World Value}

/-- The condition under which queries walk the loaded entities in the old order. -/
structure KeepsOrder (P : WorldPersister Version) (w : World Value) : Prop where
  /-- If the unit component is saved, then for all entities that are. -/
  units : unitTypeId ∈ P.components → ∀ id ∈ w.listedIds, w.loadedTypes P.registered id ≠ ∅ →
    (w.getComponent id unitTypeId).isSome = true
  /-- The hashes of the loaded tables do not decrease along the saved values of a type. -/
  tables : ∀ ty ∈ P.components, (w.idsWith ty).Pairwise fun id other =>
    tableHash (w.loadedTypes P.registered id) ≤ tableHash (w.loadedTypes P.registered other)
  /-- The rows that stay in a table are in the old order when the others have left. -/
  rows : ∀ key : TypeHash, w.loadedRows key P.registered =
    w.listedIds.filter fun id => w.loadedTable P.registered id = some key

/-- A saved entity is loaded into the table with its hash. -/
theorem loadedTable_eq_some {loaded : List TypeId} {id : EntityId} {key : TypeHash} :
    w.loadedTable loaded id = some key ↔
      w.loadedTypes loaded id ≠ ∅ ∧ tableHash (w.loadedTypes loaded id) = key := by
  rw [World.loadedTable, tableOf]
  split
  · rename_i empty
    simp [empty]
  · rename_i columns
    simp [columns]

/-- The saved values of a type, of the entities that are loaded into one table. -/
theorem filter_idsWith {loaded : List TypeId} {ty : TypeId} (member : ty ∈ loaded)
    (key : TypeHash) :
    (w.idsWith ty).filter (fun id => tableHash (w.loadedTypes loaded id) = key) =
      (w.listedIds.filter fun id => w.loadedTable loaded id = some key).filter fun id =>
        (w.getComponent id ty).isSome := by
  rw [World.idsWith, List.filter_filter, List.filter_filter]
  apply List.filter_congr
  intro id _
  cases has : (w.getComponent id ty).isSome with
  | false => simp
  | true =>
      have columns : w.loadedTypes loaded id ≠ ∅ :=
        Finset.ne_empty_of_mem (World.mem_loadedTypes.mpr ⟨member, has⟩)
      simp [loadedTable_eq_some, columns]

end Condition

section Order

variable {Version Value : Type} [UnitTypeId] [BuiltinValues Value] {P : WorldPersister Version}
  {source w : World Value} {types : Finset TypeId}

/-- The same payload entry is the same list of entities. -/
theorem Replayed.componentValues_iff {loaded : List TypeId}
    (replayed : Replayed source types loaded w) (consistent : source.Consistent) {ty : TypeId}
    (member : ty ∈ loaded) : componentValues w ty = componentValues source ty ↔
      w.idsWith ty = source.idsWith ty := by
  have values : ∀ {world : World Value}, world.Consistent →
      componentValues world ty = (world.idsWith ty).filterMap fun id =>
        (world.getComponent id ty).map fun value => (id, value) := by
    intro world consistentWorld
    rw [componentValues_eq_filterMap consistentWorld, World.idsWith, List.filterMap_filter]
    congr 1
    funext id
    cases world.getComponent id ty <;> rfl
  have consistentAfter := replayed.wellFormed.toConsistent
  constructor
  · intro same
    rw [World.idsWith, World.idsWith, ← componentValues_map_fst consistentAfter,
      ← componentValues_map_fst consistent, same]
  · intro same
    rw [values consistentAfter, values consistent, same]
    apply List.filterMap_congr
    intro id listed
    rcases World.mem_idsWith.mp listed with ⟨walked, has⟩
    rw [replayed.getComponent consistent walked (World.mem_loadedTypes.mpr ⟨member, has⟩)]

/-- The loaded values of a type, of the entities in one table. -/
theorem Replayed.filter_idsWith {loaded : List TypeId}
    (replayed : Replayed source types loaded w) (ty : TypeId) (key : TypeHash) :
    (w.idsWith ty).filter (fun id => tableHash (source.loadedTypes loaded id) = key) =
      (source.loadedRows key loaded).filter fun id => (w.getComponent id ty).isSome := by
  rw [← replayed.filter_listedIds, World.idsWith, List.filter_filter, List.filter_filter]
  congr 1
  funext id
  exact Bool.and_comm ..

/-- A loaded entity has a registered component if it had it, where no unit is new. -/
theorem Replayed.has_iff {loaded : List TypeId} (replayed : Replayed source types loaded w)
    {ty : TypeId} (member : ty ∈ loaded) {id : EntityId} (walked : id ∈ w.listedIds)
    (unit : ty = unitTypeId → (source.getComponent id ty).isSome = true) :
    (w.getComponent id ty).isSome = (source.getComponent id ty).isSome := by
  rw [Bool.eq_iff_iff, replayed.shape walked, Finset.mem_insert, World.mem_loadedTypes]
  constructor
  · intro either
    rcases either with isUnit | ⟨_, has⟩
    · exact unit isUnit
    · exact has
  · intro has
    exact Or.inr ⟨member, has⟩

theorem KeepsOrder.idsWith (keeps : P.KeepsOrder source)
    (replayed : Replayed source types P.registered w) {ty : TypeId} (member : ty ∈ P.components) :
    w.idsWith ty = source.idsWith ty := by
  have loaded := mem_registered.mpr member
  have injective : Function.Injective (BitVec.toNat : TypeHash → Nat) := fun _ _ same =>
    BitVec.eq_of_toNat_eq same
  refine eq_of_ordered injective (replayed.ordered.filter _)
    ((keeps.tables ty member).imp BitVec.le_def.mp) ?_
  intro key
  rw [replayed.filter_idsWith, WorldPersister.filter_idsWith loaded, keeps.rows]
  apply List.filter_congr
  intro id listed
  rcases List.mem_filter.mp listed with ⟨walked, table⟩
  have columns := (loadedTable_eq_some.mp (of_decide_eq_true table)).1
  apply replayed.has_iff loaded (replayed.mem_listedIds.mpr ⟨walked, columns⟩)
  intro isUnit
  subst isUnit
  exact keeps.units member id walked columns

theorem Replayed.keepsOrder (replayed : Replayed source types P.registered w)
    (apart : HashesApart types) (unit : unitTypeId ∈ types)
    (within : ∀ ty ∈ P.components, ty ∈ types)
    (same : ∀ ty ∈ P.components, w.idsWith ty = source.idsWith ty) : P.KeepsOrder source := by
  have units : unitTypeId ∈ P.components → ∀ id ∈ source.listedIds,
      source.loadedTypes P.registered id ≠ ∅ →
      (source.getComponent id unitTypeId).isSome = true := by
    intro saved id walked columns
    have loaded := replayed.mem_listedIds.mpr ⟨walked, columns⟩
    have has : id ∈ w.idsWith unitTypeId :=
      World.mem_idsWith.mpr ⟨loaded, (replayed.shape loaded _).mpr (Finset.mem_insert_self ..)⟩
    rw [same unitTypeId saved] at has
    exact (World.mem_idsWith.mp has).2
  refine { units := units, tables := ?_, rows := ?_ }
  · intro ty member
    rw [← same ty member]
    exact (replayed.ordered.filter _).imp BitVec.le_def.mpr
  · intro key
    by_cases used : ∃ id ∈ source.listedIds, source.loadedTable P.registered id = some key
    · -- The entities of a table have a registered type in common.
      rcases used with ⟨id, walked, table⟩
      rcases loadedTable_eq_some.mp table with ⟨columns, hashed⟩
      rcases Finset.nonempty_iff_ne_empty.mpr columns with ⟨ty, present⟩
      have loaded := (World.mem_loadedTypes.mp present).1
      have common : ∀ other, tableHash (source.loadedTypes P.registered other) = key →
          ty ∈ insert unitTypeId (source.loadedTypes P.registered other) := by
        intro other hashedOther
        have subset : ∀ id, source.loadedTypes P.registered id ⊆ types := fun id =>
          World.loadedTypes_subset fun ty member => within ty (mem_registered.mp member)
        rw [tableHash_inj apart unit (subset other) (subset id) (hashedOther.trans hashed.symm)]
        exact Finset.mem_insert_of_mem present
      have left : (source.loadedRows key P.registered).filter
          (fun id => (w.getComponent id ty).isSome) = source.loadedRows key P.registered := by
        rw [List.filter_eq_self]
        intro other row
        rw [← replayed.filter_listedIds] at row
        rcases List.mem_filter.mp row with ⟨walkedOther, hashedOther⟩
        rw [replayed.shape walkedOther]
        exact common other (of_decide_eq_true hashedOther)
      have right : (source.listedIds.filter fun id =>
          source.loadedTable P.registered id = some key).filter
            (fun id => (source.getComponent id ty).isSome) =
          source.listedIds.filter fun id => source.loadedTable P.registered id = some key := by
        rw [List.filter_eq_self]
        intro other row
        rcases List.mem_filter.mp row with ⟨walkedOther, tableOther⟩
        rcases loadedTable_eq_some.mp (of_decide_eq_true tableOther) with
          ⟨columnsOther, hashedOther⟩
        rcases Finset.mem_insert.mp (common other hashedOther) with rfl | has
        · exact units (mem_registered.mp loaded) other walkedOther columnsOther
        · exact (World.mem_loadedTypes.mp has).2
      rw [← left, ← right, ← replayed.filter_idsWith,
        ← WorldPersister.filter_idsWith loaded, same ty (mem_registered.mp loaded)]
    · have noRows : source.loadedRows key P.registered = [] := by
        rw [← replayed.filter_listedIds, List.filter_eq_nil_iff]
        intro id walked hashed
        rcases replayed.mem_listedIds.mp walked with ⟨walkedSource, columns⟩
        exact used ⟨id, walkedSource,
          loadedTable_eq_some.mpr ⟨columns, of_decide_eq_true hashed⟩⟩
      rw [noRows, eq_comm, List.filter_eq_nil_iff]
      intro id walked table
      exact used ⟨id, walked, of_decide_eq_true table⟩

end Order

section Alike

variable {Version Value : Type} [UnitTypeId] {P : WorldPersister Version} {w : World Value}

omit [UnitTypeId] in
/-- Entities with the same components have the same loaded types. -/
theorem loadedTypes_congr {loaded : List TypeId} {id other : EntityId}
    (alike : ∀ ty ∈ loaded, (w.getComponent id ty).isSome = (w.getComponent other ty).isSome) :
    w.loadedTypes loaded id = w.loadedTypes loaded other := by
  rw [World.loadedTypes, World.loadedTypes, List.filter_congr alike]

/-- Entities that have the same types move together. -/
theorem loadedRows_of_alike {loaded : List TypeId} {first : EntityId}
    (alike : ∀ id ∈ w.listedIds, ∀ ty ∈ loaded,
      (w.getComponent id ty).isSome = (w.getComponent first ty).isSome) (key : TypeHash) :
    w.loadedRows key loaded =
      if w.loadedTable loaded first = some key then w.listedIds else [] := by
  induction loaded with
  | nil => rfl
  | cons ty loaded induction =>
      have rest : ∀ id ∈ w.listedIds, ∀ ty ∈ loaded,
          (w.getComponent id ty).isSome = (w.getComponent first ty).isSome :=
        fun id walked ty member => alike id walked ty (List.mem_cons_of_mem _ member)
      rw [World.loadedRows, induction rest]
      apply stage_together
      · intro id walked
        rw [World.loadedTable, loadedTypes_congr (rest id walked), World.loadedTable]
      · intro id walked
        rw [World.loadedTable, loadedTypes_congr (alike id walked), World.loadedTable]

/-- Where all entities have the same registered components, the order is kept. -/
theorem keepsOrder_of_alike (wf : w.WellFormed) (alike : ∀ id ∈ w.listedIds,
      ∀ other ∈ w.listedIds, ∀ ty ∈ P.components,
        (w.getComponent id ty).isSome = (w.getComponent other ty).isSome) : P.KeepsOrder w := by
  have loaded : ∀ id ∈ w.listedIds, ∀ other ∈ w.listedIds, ∀ ty ∈ P.registered,
      (w.getComponent id ty).isSome = (w.getComponent other ty).isSome :=
    fun id walked other walkedOther ty member =>
      alike id walked other walkedOther ty (mem_registered.mp member)
  refine { units := ?_, tables := ?_, rows := ?_ }
  · intro _ id walked _
    rcases World.walks_iff.mpr walked with ⟨ptr, table, walkedTable, member⟩
    rcases List.mem_iff_getElem?.mp member with ⟨index, owner⟩
    have found := (World.mem_walked.mp walkedTable).2
    have placed := wf.toConsistent.place_of_entities found owner
    rcases wf.toConsistent.table_of_place placed with
      ⟨_, foundAgain, aligned, inRange, _, viewed⟩
    cases found.symm.trans foundAgain
    rw [wf.toConsistent.getComponent_eq, World.cells, viewed, Option.bind_some,
      aligned.fills_row inRange]
    exact (wf.shaped ptr table found).unitColumn
  · intro ty _
    apply List.pairwise_of_forall_mem_list
    intro id member other memberOther
    rw [loadedTypes_congr (loaded id (World.mem_idsWith.mp member).1 other
      (World.mem_idsWith.mp memberOther).1)]
    exact BitVec.le_refl _
  · intro key
    cases listed : w.listedIds with
    | nil =>
        have none : ∀ id ∈ w.listedIds, ∀ ty ∈ P.registered,
            (w.getComponent id ty).isSome = (w.getComponent (EntityId.new 0 0) ty).isSome := by
          rw [listed]
          exact fun _ member => absurd member List.not_mem_nil
        rw [loadedRows_of_alike none, listed]
        split <;> rfl
    | cons first rest =>
        have walked : first ∈ w.listedIds := listed ▸ List.mem_cons_self
        have all := fun id member => loaded id member first walked
        rw [loadedRows_of_alike all, ← listed, eq_comm]
        apply filter_together
        intro id member
        rw [World.loadedTable, loadedTypes_congr (all id member), World.loadedTable]

end Alike

section Payload

variable {Version Value : Type} [TypeName] {P : WorldPersister Version} {w after : World Value}

theorem saveEntry_eq (components : ∀ ty ∈ P.components,
      componentValues after ty = componentValues w ty)
    (resources : ∀ ty ∈ P.resources, after.resources[ty]? = w.resources[ty]?) :
    (P.saveEntry after : Entries Version Value) = P.saveEntry w := by
  have each : ∀ ty component, (ty, component) ∈ P.entries →
      (saveImpl ty component after : Entries Version Value) = saveImpl ty component w := by
    intro ty component member
    cases ty with
    | Component => rw [saveImpl, saveImpl, components component (mem_components.mpr member)]
    | Resource => rw [saveImpl, saveImpl, resources component (mem_resources.mpr member)]
    | Noop => rfl
  clear components resources
  induction P with
  | nil version => rfl
  | cons ty component version next induction =>
      rw [saveEntry, saveEntry, each ty component List.mem_cons_self,
        induction fun ty component member => each ty component (List.mem_cons_of_mem _ member)]

theorem save_eq (consistent : w.Consistent) (consistentAfter : after.Consistent)
    (components : ∀ ty ∈ P.components, componentValues after ty = componentValues w ty)
    (resources : ∀ ty ∈ P.resources, after.resources[ty]? = w.resources[ty]?) :
    (P.save after : Payload Version Value) = P.save w := by
  have entries : (P.save after : Payload Version Value).entries = (P.save w).entries := by
    rw [save, save, saveEntry_eq components resources]
  have announced : (P.save after : Payload Version Value).announced = (P.save w).announced := by
    rw [announced_save consistentAfter, announced_save consistent, entries]
  calc (P.save after : Payload Version Value)
      = ⟨(P.save after).announced, (P.save after).entries⟩ := rfl
    _ = ⟨(P.save w).announced, (P.save w).entries⟩ := by rw [entries, announced]
    _ = P.save w := rfl

/-- The entry of a component type in a payload. -/
theorem mem_save_components (names : Function.Injective (typeName : TypeId → String))
    {component : TypeId} {values : List (EntityId × Value)} :
    (entryName .Component component, .components values) ∈
        (P.save w : Payload Version Value).entries ↔
      component ∈ P.components ∧ values = componentValues w component ∧ values ≠ [] := by
  rw [mem_components]
  simp only [save, List.mem_append, List.mem_map, Prod.mk.injEq]
  constructor
  · intro found
    rcases found with ⟨_, _, _, contents⟩ | written
    · cases contents
    · rcases mem_saveEntry.mp written with ⟨ty, other, inChain, here⟩
      rcases entryName_injective names (saved_of_mem_saveImpl here).2.1 with ⟨rfl, rfl⟩
      rw [saveImpl] at here
      split at here
      · cases here
      · rename_i some
        simp only [List.mem_singleton, Prod.mk.injEq, Content.components.injEq, true_and] at here
        subst here
        exact ⟨inChain, rfl, by simpa using some⟩
  · intro both
    rcases both with ⟨inChain, rfl, some⟩
    right
    rw [mem_saveEntry]
    refine ⟨.Component, component, inChain, ?_⟩
    rw [saveImpl, if_neg (by simpa using some)]
    exact List.mem_singleton_self _

theorem componentValues_of_save_eq (names : Function.Injective (typeName : TypeId → String))
    (same : (P.save after : Payload Version Value) = P.save w) {component : TypeId}
    (member : component ∈ P.components) :
    componentValues after component = componentValues w component := by
  by_cases none : componentValues after component = []
  · by_contra different
    have some : componentValues w component ≠ [] := fun alsoNone =>
      different (none.trans alsoNone.symm)
    have entry := (mem_save_components (P := P) (w := w) names).mpr ⟨member, rfl, some⟩
    rw [← same] at entry
    exact different ((mem_save_components names).mp entry).2.1.symm
  · have entry := (mem_save_components (P := P) (w := after) names).mpr ⟨member, rfl, none⟩
    rw [same] at entry
    exact ((mem_save_components names).mp entry).2.1

end Payload

section Again

variable {Version Value : Type} [UnitTypeId] [BuiltinValues Value] [TypeName] [VersionReq Version]

/-- The requirement of a version is checked against itself. -/
theorem accepts_of_load {P : WorldPersister Version} {w after : World Value}
    (load : P.load (P.save w : Payload Version Value) = some (.ok after)) : P.Accepts P := by
  intro expected version versioned saved
  cases versioned.symm.trans saved
  simp only [WorldPersister.load, save, versioned, Option.toList_some, List.map_cons,
    List.map_nil, List.singleton_append, List.length_cons, Option.bind_eq_bind,
    Option.bind_eq_some_iff] at load
  rcases load with ⟨start, _, visited⟩
  rw [visitMap_version versioned] at visited
  split at visited
  · rename_i accepted
    exact accepted
  · cases visited

/-- A persister that loads its payload saves it again exactly when its version accepts itself
and the loaded entities are walked in the old order. -/
theorem save_load_save_iff (P : WorldPersister Version) (w : World Value)
    (consistent : w.Consistent) (boxes : w.Boxes)
    (names : Function.Injective (typeName : TypeId → String))
    (apart : HashesApart (insert unitTypeId P.components)) (skips : P.SkipsPool Value) :
    (∃ after : World Value, P.load (P.save w : Payload Version Value) = some (.ok after) ∧
        (P.save after : Payload Version Value) = P.save w) ↔ P.Accepts P ∧ P.KeepsOrder w := by
  have both : P.components ∩ P.components = P.components := Finset.inter_self _
  constructor
  · intro saves
    rcases saves with ⟨after, load, same⟩
    have accepts := accepts_of_load load
    rcases load_replayed names consistent boxes apart accepts with ⟨_, loadAgain, replayed⟩
    rw [load, Option.some.injEq, Except.ok.injEq] at loadAgain
    subst loadAgain
    refine ⟨accepts, replayed.keepsOrder apart (Finset.mem_insert_self ..)
      (fun ty member => Finset.mem_insert_of_mem member) ?_⟩
    intro ty member
    rw [← replayed.componentValues_iff consistent (mem_registered.mpr member)]
    exact componentValues_of_save_eq names same member
  · intro conditions
    rcases conditions with ⟨accepts, keeps⟩
    rcases load_replayed names consistent boxes apart accepts with ⟨after, load, replayed⟩
    rcases load_known_eq names consistent (both.symm ▸ apart) accepts
        skips (fun _ _ member _ => member) id with ⟨_, loadAgain, _, _, resources⟩
    rw [load, Option.some.injEq, Except.ok.injEq] at loadAgain
    subst loadAgain
    refine ⟨after, load, save_eq consistent replayed.wellFormed.toConsistent ?_ ?_⟩
    · intro ty member
      rw [replayed.componentValues_iff consistent (mem_registered.mpr member)]
      exact keeps.idsWith replayed member
    · intro ty member
      rw [resources, if_pos (Finset.mem_inter.mpr ⟨member, member⟩)]

end Again

open Sample

/-- Of two component types the one registered last is loaded first. -/
def twoTypes : WorldPersister Nat := (new.withComponent 3#128).withComponent 2#128

/-- Three entities with one component, the first with another one. -/
def threeEntities : Option (World Nat) := do
  let w ← World.new 3
  w.runOperations [.insertEntity, .insertEntity, .insertEntity,
    .setBundle (EntityId.new 0 0) [(2#128, 5), (3#128, 8)],
    .setBundle (EntityId.new 1 0) [(2#128, 6)],
    .setBundle (EntityId.new 2 0) [(2#128, 7)]]

/-- The other component is loaded last: the first row leaves the table of the others, and the
last row takes its place. -/
theorem save_load_save_reordered :
    ∃ w after : World Nat, threeEntities = some w ∧ w.WellFormed ∧
      twoTypes.load (twoTypes.save w) = some (.ok after) ∧
      componentValues w 2#128 =
        [(EntityId.new 0 0, 5), (EntityId.new 1 0, 6), (EntityId.new 2 0, 7)] ∧
      componentValues after 2#128 =
        [(EntityId.new 0 0, 5), (EntityId.new 2 0, 7), (EntityId.new 1 0, 6)] ∧
      (twoTypes.save after : Payload Nat Nat) ≠ twoTypes.save w := by
  obtain ⟨w, after, built, loaded, saved, reordered⟩ :
      ∃ w after : World Nat, threeEntities = some w ∧
      twoTypes.load (twoTypes.save w) = some (.ok after) ∧
      componentValues w 2#128 =
        [(EntityId.new 0 0, 5), (EntityId.new 1 0, 6), (EntityId.new 2 0, 7)] ∧
      componentValues after 2#128 =
        [(EntityId.new 0 0, 5), (EntityId.new 2 0, 7), (EntityId.new 1 0, 6)] :=
    ⟨_, _, rfl, rfl, rfl, rfl⟩
  have wf : w.WellFormed := by
    rw [threeEntities, Option.bind_eq_bind, Option.bind_eq_some_iff] at built
    rcases built with ⟨first, created, ran⟩
    exact World.runOperations_wellFormed (World.new_spec created).1 ran
  refine ⟨w, after, built, wf, loaded, saved, reordered, ?_⟩
  intro same
  have values := componentValues_of_save_eq typeName_injective same
    (show 2#128 ∈ twoTypes.components by decide)
  rw [saved, reordered] at values
  exact absurd (congrArg (List.map Prod.fst) values) (by decide)

theorem twoTypes_skipsPool : twoTypes.SkipsPool Nat := by
  have none : twoTypes.resources = ∅ := by decide
  intro ty member
  rw [none] at member
  exact absurd member (Finset.notMem_empty ty)

theorem save_load_save_iff_sample :
    ∃ w : World Nat, w.WellFormed ∧ twoTypes.KeepsOrder w := by
  obtain ⟨first, w, after, created, ran, loaded, saved, savedAgain⟩ :
      ∃ first w after : World Nat, World.new 2 = some first ∧
      first.runOperations [.insertEntity, .insertEntity,
        .setBundle (EntityId.new 0 0) [(2#128, 5), (3#128, 8)],
        .setBundle (EntityId.new 1 0) [(2#128, 6)]] = some w ∧
      twoTypes.load (twoTypes.save w) = some (.ok after) ∧
      twoTypes.save w =
        ⟨2, [(entryName .Component 2#128, .components
          [(EntityId.new 0 0, 5), (EntityId.new 1 0, 6)]),
          (entryName .Component 3#128, .components [(EntityId.new 0 0, 8)])]⟩ ∧
      twoTypes.save after =
        ⟨2, [(entryName .Component 2#128, .components
          [(EntityId.new 0 0, 5), (EntityId.new 1 0, 6)]),
          (entryName .Component 3#128, .components [(EntityId.new 0 0, 8)])]⟩ :=
    ⟨_, _, _, rfl, rfl, rfl, rfl, rfl⟩
  have wf := World.runOperations_wellFormed (World.new_spec created).1 ran
  refine ⟨w, wf, ((save_load_save_iff _ w wf.toConsistent wf.toOwned.boxes typeName_injective
    (by decide) twoTypes_skipsPool).mp ⟨after, loaded, savedAgain.trans saved.symm⟩).2⟩

end WorldPersister

end Cecs

import Cecs.Table.Bundles
import Cecs.World.Known

/-! # Where an entity goes

`set_bundle` and `remove_component` find the table that the entity moves to by a
hash. These are the exact conditions under which they find the right one. -/

namespace Cecs

open Foundation

namespace World

section Hashes

variable [UnitTypeId]

/-- Nonzero hashes tell the sets of columns apart. -/
theorem hashesApart_of_nonzero {types : Finset TypeId} (nonzero : NonzeroHashes types) :
    HashesApart types := by
  intro left leftWithin right rightWithin leftUnit rightUnit same
  have differ := (nonzero.eq_iff leftWithin rightWithin).mp same
  rw [← symmDiff_eq_bot, Finset.bot_eq_empty, Finset.eq_empty_iff_forall_notMem]
  intro ty member
  cases Finset.mem_singleton.mp (differ member)
  simp [Finset.mem_symmDiff, leftUnit, rightUnit] at member

end Hashes

section Bundles

variable {Value : Type} [UnitTypeId] {w after : World Value} {id : EntityId}

/-- The bundle is set in a table with all its columns, and in another table than
before if that one lacked a column. -/
def ExtendsEntity (w : World Value) (id : EntityId) (bundle : Bundle Value) : Prop :=
  ∃ src index table after dst row target,
    w.entityIds.read id = .ok (src, index) ∧ w.tables src = some table ∧
    w.setBundle id bundle = some (.ok (), after) ∧
    after.entityIds.read id = .ok (dst, row) ∧ after.tables dst = some target ∧
    bundle.types ⊆ target.types ∧ (bundle.canInsert table = false → dst ≠ src)

variable {bundle : Bundle Value}

/-- The table that `set_bundle` moves the entity to has the hash it computed. -/
theorem placeForBundle_destination {placed : World Value} {src dst : Ptr} {index row : Nat}
    {table : EntityTable Value} (found : w.tables src = some table)
    (grows : bundle.canInsert table = false)
    (place : w.placeForBundle src index bundle = some (placed, dst, row)) :
    w.getArchetypeByKey (bundle.computeHashFromTable table) = some dst ∨
      w.getArchetypeByKey (bundle.computeHashFromTable table) = none ∧
        bundle.computeHashFromTable table = (bundle.extend table).ty := by
  simp only [placeForBundle, found, grows, Option.bind_eq_bind, Option.bind_some,
    Bool.false_eq_true, if_false] at place
  split at place
  · rename_i newArch lookup
    simp only [Option.bind_eq_some_iff, Option.pure_def, Option.some.injEq, Prod.mk.injEq]
      at place
    rcases place with ⟨_, _, _, _, _, rfl, _⟩
    exact Or.inl lookup
  · rename_i absent
    simp only [Option.bind_eq_some_iff, Option.guard_eq_some', exists_and_left] at place
    exact Or.inr ⟨absent, place.1⟩

omit [UnitTypeId] in
/-- The tables of a world that got a new one keep their columns when an entity moves. -/
theorem Owned.types_relocated (owned : w.Owned) {base : World Value} {src dst : Ptr}
    (relocated : Relocated base after id src dst)
    (added : base = w ∨ ∃ table, w.archetypes[table.ty]? = none ∧ base = w.addTable table)
    {ptr : Ptr} {table : EntityTable Value} (found : w.tables ptr = some table) :
    ∃ target, after.tables ptr = some target ∧ target.types = table.types := by
  have inBase : base.tables ptr = some table := by
    rcases added with rfl | ⟨fresh, absent, rfl⟩
    · exact found
    · rw [tables_addTable fresh absent, Function.update_of_ne, found]
      exact Nat.ne_of_lt (owned.fresh ptr table found)
  rcases relocated.evolves.tables ptr table inBase with ⟨target, foundTarget, persists⟩
  exact ⟨target, foundTarget, persists.types⟩

/-- Wherever `set_bundle` moves an entity, the tables keep their columns. -/
theorem Owned.types_setBundle (owned : w.Owned) {result : WorldResult Unit}
    (set : w.setBundle id bundle = some (result, after)) {ptr : Ptr}
    {table : EntityTable Value} (found : w.tables ptr = some table) :
    ∃ target, after.tables ptr = some target ∧ target.types = table.types := by
  rcases setBundle_relocated set with rfl | ⟨src, dst, old, base, _, relocated, added⟩
  · exact ⟨table, found, rfl⟩
  · apply owned.types_relocated relocated _ found
    rcases added with same | ⟨absent, same⟩
    · exact Or.inl same
    · rw [getArchetypeByKey, Option.or_eq_none_iff] at absent
      exact Or.inr ⟨_, absent.1, same⟩

/-- A successful `set_bundle` of a bundle that the table lacks a type of: the entity
is in a table with the computed hash, or the hash is that of the extended table. -/
theorem setBundle_destination {src : Ptr} {index : Nat} {table : EntityTable Value}
    (outcome : w.entityIds.read id = .ok (src, index)) (found : w.tables src = some table)
    (grows : bundle.canInsert table = false) {result : WorldResult Unit}
    (set : w.setBundle id bundle = some (result, after)) {dst : Ptr} {row : Nat}
    (moved : after.entityIds.read id = .ok (dst, row)) :
    w.getArchetypeByKey (bundle.computeHashFromTable table) = some dst ∨
      w.getArchetypeByKey (bundle.computeHashFromTable table) = none ∧
        bundle.computeHashFromTable table = (bundle.extend table).ty := by
  simp only [setBundle, outcome, Option.bind_eq_bind, Option.bind_eq_some_iff, Option.pure_def,
    Option.some.injEq, Prod.mk.injEq] at set
  rcases set with ⟨⟨placed, arch, place⟩, placing, _, _, _, _, entityIds, updated, _, rfl⟩
  have pointer := congrFun (EntityIndex.update_repoints updated).arch id.index
  rw [Function.update_self] at pointer
  cases (EntityIndex.arch_of_read moved).symm.trans pointer
  exact placeForBundle_destination found grows placing

omit [UnitTypeId] in
theorem read_of_entityTable {table : EntityTable Value} (found : w.entityTable id = some table) :
    ∃ ptr index, w.entityIds.read id = .ok (ptr, index) ∧ w.tables ptr = some table := by
  rw [entityTable] at found
  split at found
  · cases found
  · exact ⟨_, _, ‹_›, found⟩

omit [UnitTypeId] in
/-- The table of a live entity has the components of the entity. -/
theorem Consistent.view_of_entityTable (consistent : w.Consistent) {table : EntityTable Value}
    (found : w.entityTable id = some table) :
    ∃ row, w.view id = some row ∧ EntityTable.Fills row table := by
  rcases read_of_entityTable found with ⟨ptr, index, outcome, foundTable⟩
  rcases consistent.table_of_place (EntityIndex.place_of_read outcome) with
    ⟨same, foundSame, aligned, inRange, _, viewed⟩
  cases foundTable.symm.trans foundSame
  exact ⟨_, viewed, aligned.fills_row inRange⟩

/-- When the bundle names what is lacking an odd number of times, its hash is that of
the union of the columns. -/
theorem computeHash_union {table : EntityTable Value} (shaped : table.Shaped)
    (nonzero : NonzeroHashes bundle.types) (oddly : bundle.OddlyLacking table) :
    bundle.computeHashFromTable table = hashTypes (table.types ∪ bundle.types) := by
  rcases shaped.extend bundle with ⟨_, shapedNew, types⟩
  rw [(Bundle.computeHash_eq_iff nonzero).mpr oddly.odd, shapedNew.hashed, types]

theorem WellFormed.extendsEntity (wf : w.WellFormed) {types : Finset TypeId}
    (known : w.Knows types) (nonzero : NonzeroHashes types) (within : bundle.types ⊆ types)
    {table : EntityTable Value} (found : w.entityTable id = some table)
    (oddly : bundle.OddlyLacking table) : w.ExtendsEntity id bundle := by
  have nonzeroBundle : NonzeroHashes bundle.types :=
    fun set subset => nonzero set (subset.trans within)
  rcases wf.index with ⟨slots, sound⟩
  rcases wf.toConsistent.view_of_entityTable found with ⟨cells, live, _⟩
  rcases read_of_entityTable found with ⟨src, index, outcome, foundTable⟩
  have sameTable : ∀ other, w.entityTable id = some other → other = table :=
    fun other foundOther => Option.some.inj (foundOther.symm.trans found)
  rcases setBundle_hashed wf sound live
      (fun other foundOther => sameTable other foundOther ▸
        computeHash_union (wf.shaped src table foundTable) nonzeroBundle oddly)
      (fun other foundOther => known.hashDetermines wf.toFormed (hashesApart_of_nonzero nonzero)
        (known.union wf.toFormed within foundOther).1
        (known.union wf.toFormed within foundOther).2) with
    ⟨after, set, wfAfter, viewAfter, _⟩
  have liveAfter : after.view id = some (cells.insertBundle bundle) := by
    rw [viewAfter, Function.update_self]
  rcases wfAfter.toConsistent.table_of_view liveAfter with
    ⟨dst, row, target, moved, foundTarget, aligned, inRange, _, filled⟩
  have covers : bundle.types ⊆ target.types := by
    intro ty member
    rw [← aligned.fills_row inRange ty, filled, Row.insertBundle_isSome]
    exact Or.inr member
  refine ⟨src, index, table, after, dst, row, target, outcome, foundTable, set, moved,
    foundTarget, covers, ?_⟩
  rintro grows rfl
  rcases wf.toOwned.types_setBundle set foundTable with ⟨same, foundSame, types⟩
  cases foundTarget.symm.trans foundSame
  rw [types, ← EntityTable.canInsert_iff, grows] at covers
  cases covers

theorem WellFormed.oddlyLacking (wf : w.WellFormed) {types : Finset TypeId}
    (known : w.Knows types) (nonzero : NonzeroHashes types) (within : bundle.types ⊆ types)
    {table : EntityTable Value} (found : w.entityTable id = some table)
    (extended : w.ExtendsEntity id bundle) : bundle.OddlyLacking table := by
  have nonzeroBundle : NonzeroHashes bundle.types :=
    fun set subset => nonzero set (subset.trans within)
  rcases extended with
    ⟨src, index, same, after, dst, row, target, outcome, foundTable, set, moved, foundTarget,
      covers, _⟩
  have sameTable : w.entityTable id = some same := by simp [entityTable, outcome, foundTable]
  cases found.symm.trans sameTable
  have shaped := wf.shaped src table foundTable
  constructor
  · intro ty lacks notUnit
    have grows : bundle.canInsert table = false := by
      rw [← Bool.not_eq_true, Bundle.canInsert_iff_lacking]
      exact List.ne_nil_of_mem lacks
    rcases setBundle_destination outcome foundTable grows set moved with lookup | ⟨_, extension⟩
    · -- The destination has the columns of `table` and those with an odd count, no others.
      rcases wf.toOwned.table_of_key lookup with ⟨old, foundOld, ty_eq⟩
      rcases wf.toOwned.types_setBundle set foundOld with ⟨same, foundSame, types_eq⟩
      cases foundTarget.symm.trans foundSame
      have counted : oddMembers (bundle.lacking table) ⊆ bundle.types :=
        (Finset.filter_subset _ _).trans (Bundle.toFinset_lacking ▸ Finset.sdiff_subset)
      have apart : symmDiff table.types (oddMembers (bundle.lacking table)) ⊆ types :=
        Finset.symmDiff_subset_union.trans
          (Finset.union_subset (known src table foundTable) (counted.trans within))
      rw [(wf.shaped dst old foundOld).hashed, Bundle.computeHashFromTable_eq, shaped.hashed,
        ← hashTypes_symmDiff, nonzero.eq_iff (known dst old foundOld) apart] at ty_eq
      have member : ty ∈ old.types := types_eq ▸ covers (Bundle.mem_lacking.mp lacks).1
      have absent := (Bundle.mem_lacking.mp lacks).2
      by_contra even
      apply notUnit (Finset.mem_singleton.mp (ty_eq _))
      rw [Finset.mem_symmDiff, Finset.mem_symmDiff, mem_oddMembers, Bundle.count_lacking lacks]
      simp [member, absent, even]
    · exact (Bundle.computeHash_eq_iff nonzeroBundle).mp extension ty lacks notUnit
  · intro grows
    have lacks := mt Bundle.canInsert_iff_lacking.mpr (Bool.not_eq_true _ ▸ grows)
    rcases List.exists_mem_of_ne_nil _ lacks with ⟨ty, member⟩
    refine ⟨ty, member, ?_⟩
    rintro rfl
    exact (Bundle.mem_lacking.mp member).2 shaped.unitColumn

/-- The hash of a bundle leads to a table with all its columns exactly when every
type that is lacking is named an odd number of times. -/
theorem bundle_destination_iff {types : Finset TypeId} (nonzero : NonzeroHashes types)
    (within : bundle.types ⊆ types) :
    (∀ archetype : EntityTable Value,
      bundle.HashesExtension archetype ↔ bundle.OddlyLacking archetype) ∧
    ∀ (w : World Value) (id : EntityId) (archetype : EntityTable Value), w.WellFormed →
      w.Knows types → w.entityTable id = some archetype →
      (w.ExtendsEntity id bundle ↔ bundle.OddlyLacking archetype) := by
  constructor
  · intro archetype
    exact Bundle.hashesExtension_iff fun set subset => nonzero set (subset.trans within)
  · intro w id archetype wf known found
    constructor
    · exact wf.oddlyLacking known nonzero within found
    · exact wf.extendsEntity known nonzero within found

end Bundles

section Removal

variable {Value : Type} [UnitTypeId] {w after : World Value} {id : EntityId} {ty : TypeId}

/-- The component goes: the entity moves to another table, with its other components,
and the world stays well-formed. -/
def Removes (w : World Value) (id : EntityId) (ty : TypeId) : Prop :=
  ∃ src index dst place row after, w.entityIds.read id = .ok (src, index) ∧
    w.removeComponent id ty = some (.ok (), after) ∧
    after.entityIds.read id = .ok (dst, place) ∧ src ≠ dst ∧ after.WellFormed ∧
    w.view id = some row ∧ after.view = Function.update w.view id (some (row.remove ty))

/-- Wherever `remove_component` moves an entity, the tables keep their columns. -/
theorem Owned.types_removeComponent (owned : w.Owned) {result : WorldResult Unit}
    (removed : w.removeComponent id ty = some (result, after)) {ptr : Ptr}
    {table : EntityTable Value} (found : w.tables ptr = some table) :
    ∃ target, after.tables ptr = some target ∧ target.types = table.types := by
  rcases removeComponent_relocated removed with
    rfl | ⟨src, dst, old, base, _, column, relocated, added⟩
  · exact ⟨table, found, rfl⟩
  · apply owned.types_relocated relocated _ found
    rcases added with same | ⟨absent, same⟩
    · exact Or.inl same
    · rw [← EntityTable.ty_reduceWithColumn_cloneEmpty column] at absent
      exact Or.inr ⟨_, absent, same⟩

/-- The table found by the hash is the one that the entity moves to. -/
theorem removeComponent_destination {src ptr dst : Ptr} {index row : Nat}
    {table : EntityTable Value} (outcome : w.entityIds.read id = .ok (src, index))
    (found : w.tables src = some table) (present : table.containsColumn ty = true)
    (lookup : w.archetypes[table.extendedHash ty]? = some ptr) {result : WorldResult Unit}
    (removed : w.removeComponent id ty = some (result, after))
    (moved : after.entityIds.read id = .ok (dst, row)) : dst = ptr := by
  simp only [removeComponent, outcome, found, present, placeWithout, lookup, if_true,
    Option.bind_eq_bind, Option.bind_some, Option.bind_eq_some_iff, Option.guard_eq_some',
    Option.pure_def, Option.some.injEq, Prod.mk.injEq, exists_and_left, exists_const] at removed
  rcases removed with ⟨spot, ⟨_, _, _, _, _, rfl⟩, entityIds, updated, _, rfl⟩
  have pointer := congrFun (EntityIndex.update_repoints updated).arch id.index
  rw [Function.update_self] at pointer
  exact Option.some.inj ((EntityIndex.arch_of_read moved).symm.trans pointer)

theorem WellFormed.removes (wf : w.WellFormed) {table : EntityTable Value}
    (found : w.entityTable id = some table) (present : ty ∈ table.types)
    (notUnit : ty ≠ unitTypeId) (finds : w.FindsWithout id ty) : w.Removes id ty := by
  rcases wf.index with ⟨slots, sound⟩
  rcases wf.toConsistent.view_of_entityTable found with ⟨row, live, fills⟩
  rcases read_of_entityTable found with ⟨src, index, outcome, foundTable⟩
  rcases Option.isSome_iff_exists.mp ((fills ty).mpr present) with ⟨value, held⟩
  rcases removeComponent_hashed wf sound live notUnit held finds with
    ⟨after, removed, wfAfter, viewAfter, _⟩
  have liveAfter : after.view id = some (row.remove ty) := by
    rw [viewAfter, Function.update_self]
  rcases wfAfter.toConsistent.table_of_view liveAfter with
    ⟨dst, place, target, moved, foundTarget, aligned, inRange, _, filled⟩
  refine ⟨src, index, dst, place, row, after, outcome, removed, moved, ?_, wfAfter, live,
    viewAfter⟩
  rintro rfl
  -- The old table still has the column, the entity does not have the component.
  rcases wf.toOwned.types_removeComponent removed foundTable with ⟨same, foundSame, types⟩
  cases foundTarget.symm.trans foundSame
  rw [← types, ← aligned.fills_row inRange ty, filled] at present
  simp [Row.remove] at present

theorem WellFormed.findsWithout (wf : w.WellFormed) {table : EntityTable Value}
    (found : w.entityTable id = some table) (present : ty ∈ table.types) {row : Row Value}
    (removed : w.removeComponent id ty = some (.ok (), after)) (wfAfter : after.WellFormed)
    (live : w.view id = some row)
    (viewAfter : after.view = Function.update w.view id (some (row.remove ty))) :
    ty ≠ unitTypeId ∧ w.FindsWithout id ty := by
  rcases wf.toConsistent.view_of_entityTable found with ⟨same, liveSame, fills⟩
  cases live.symm.trans liveSame
  rcases read_of_entityTable found with ⟨origin, index, outcome, foundSrc⟩
  have liveAfter : after.view id = some (row.remove ty) := by
    rw [viewAfter, Function.update_self]
  rcases wfAfter.toConsistent.table_of_view liveAfter with
    ⟨dst, position, target, moved, foundTarget, aligned, inRange, _, filled⟩
  have without : target.types = table.types.erase ty := by
    ext other
    rw [← aligned.fills_row inRange other, filled, Finset.mem_erase, ← fills other]
    by_cases same : other = ty <;> simp [Row.remove, same]
  constructor
  · rintro rfl
    have unit := (wfAfter.shaped dst target foundTarget).unitColumn
    rw [without] at unit
    exact Finset.notMem_erase _ _ unit
  · intro before ptr old foundBefore lookup foundOld
    cases found.symm.trans foundBefore
    have column := EntityTable.mem_types.mp present
    cases removeComponent_destination outcome foundSrc column lookup removed moved
    rcases wf.toOwned.types_removeComponent removed foundOld with ⟨kept, foundKept, types⟩
    cases foundTarget.symm.trans foundKept
    rw [← types, without]

/-- A component is removed by a move to another table exactly when it is not the unit
component and no table of other columns has the hash of those that remain. -/
theorem removes_iff (wf : w.WellFormed) {table : EntityTable Value}
    (found : w.entityTable id = some table) (present : ty ∈ table.types) :
    w.Removes id ty ↔ ty ≠ unitTypeId ∧ w.FindsWithout id ty := by
  constructor
  · rintro ⟨_, _, _, _, row, after, _, removed, _, _, wfAfter, live, viewAfter⟩
    exact wf.findsWithout found present removed wfAfter live viewAfter
  · rintro ⟨notUnit, finds⟩
    exact wf.removes found present notUnit finds

end Removal

section Operations

variable {Value : Type} [UnitTypeId] {w after : World Value} {id : EntityId}

/-- A bundle that was set as it should be was set in a table that was found with its columns. -/
theorem WellFormed.findsExtended (wf : w.WellFormed) {bundle : Bundle Value} {row : Row Value}
    (set : w.setBundle id bundle = some (.ok (), after)) (wfAfter : after.WellFormed)
    (live : w.view id = some row)
    (viewAfter : after.view = Function.update w.view id (some (row.insertBundle bundle))) :
    w.FindsExtended id bundle := by
  intro table ptr old found grows lookup foundOld
  rcases wf.toConsistent.view_of_entityTable found with ⟨same, liveSame, fills⟩
  cases live.symm.trans liveSame
  rcases read_of_entityTable found with ⟨src, index, outcome, foundSrc⟩
  have liveAfter : after.view id = some (row.insertBundle bundle) := by
    rw [viewAfter, Function.update_self]
  rcases wfAfter.toConsistent.table_of_view liveAfter with
    ⟨dst, position, target, moved, foundTarget, aligned, inRange, _, filled⟩
  rcases setBundle_destination outcome foundSrc grows set moved with here | ⟨absent, _⟩
  · cases lookup.symm.trans here
    rcases wf.toOwned.types_setBundle set foundOld with ⟨kept, foundKept, types⟩
    cases foundTarget.symm.trans foundKept
    rw [← types]
    ext ty
    rw [← aligned.fills_row inRange ty, filled, Row.insertBundle_isSome, Finset.mem_union,
      ← fills ty]
  · rw [absent] at lookup
    cases lookup

variable [BuiltinValues Value]

/-- Every operation keeps the world well-formed and is one step of the map, exactly when what
it finds under the hash of the new columns is a table with these columns. -/
theorem perform_refines_iff (wf : w.WellFormed) (operation : Operation Value)
    (admissible : w.Admissible operation) :
    (∃ outcome after, w.perform operation = some (outcome, after) ∧ after.WellFormed ∧
      EntityMap.Step w.view operation outcome after.view) ↔ w.FindsTarget operation := by
  constructor
  · rintro ⟨outcome, after, performed, wfAfter, step⟩
    cases operation with
    | insertEntity => trivial
    | deleteEntity _ => trivial
    | setBundle id bundle =>
        intro table ptr target found
        rcases wf.toConsistent.view_of_entityTable found with ⟨row, live, _⟩
        rcases Option.map_eq_some_iff.mp performed with ⟨⟨result, _⟩, set, same⟩
        cases same
        generalize viewed : after.view = views at step
        cases step with
        | set liveStep =>
            exact wf.findsExtended set wfAfter liveStep viewed table ptr target found
        | dead about dead =>
            cases about
            rw [live] at dead
            cases dead
    | removeComponent id ty =>
        rintro ⟨table, found, member⟩
        rcases wf.toConsistent.view_of_entityTable found with ⟨row, live, fills⟩
        rcases Option.map_eq_some_iff.mp performed with ⟨⟨result, _⟩, removed, same⟩
        cases same
        generalize viewed : after.view = views at step
        cases step with
        | remove liveStep _ =>
            exact (wf.findsWithout found member removed wfAfter liveStep viewed).2
        | missing liveStep absent =>
            cases live.symm.trans liveStep
            rw [← fills ty, absent] at member
            cases member
        | dead about dead =>
            cases about
            rw [live] at dead
            cases dead
  · intro finds
    cases about : operation.entity with
    | none =>
        cases operation <;> cases about
        exact perform_insertEntity wf admissible
    | some id =>
        cases live : w.view id with
        | none => exact ⟨_, w, perform_dead wf about live, wf, .dead about live⟩
        | some row => exact perform_live wf about live admissible finds

end Operations

section Example

open Sample

/-- What makes an entity with one component. -/
def oneComponent : List (Operation Nat) :=
  [.insertEntity, .setBundle (EntityId.new 0 0) [(7#128, 5)]]

/-- A first entity in a new world, which knows the unit type and another type. A bundle
that names the other type twice can not be set. -/
theorem first_entity : ∃ (w : World Nat) (table : EntityTable Nat),
    (World.new 1).bind insertEntity = some (EntityId.new 0 0, w) ∧ w.WellFormed ∧
      w.Knows {1#128, 7#128} ∧ w.entityTable (EntityId.new 0 0) = some table ∧
      table.types = {1#128} ∧
      w.setBundle (EntityId.new 0 0) [(7#128, 5), (7#128, 6)] = none := by
  obtain ⟨start, w, created, inserted, columns, stuck⟩ :
      ∃ start w : World Nat, World.new 1 = some start ∧
        start.insertEntity = some (EntityId.new 0 0, w) ∧
        ((w.entityTable (EntityId.new 0 0)).any fun table => table.types = {1#128}) = true ∧
        (w.setBundle (EntityId.new 0 0) [(7#128, 5), (7#128, 6)]).isNone = true :=
    ⟨_, _, rfl, rfl, rfl, rfl⟩
  have unit : unitTypeId ∈ ({1#128, 7#128} : Finset TypeId) := by decide
  rcases (Option.any_eq_true _ _).mp columns with ⟨table, found, types⟩
  rcases insertEntity_spec (new_spec created).1 (by cases created; decide) with
    ⟨id, after, same, wf, _⟩
  cases inserted.symm.trans same
  exact ⟨w, table, by rw [created]; exact inserted, wf,
    (insertEntity_evolves inserted).knows (knows_new created unit), found,
    of_decide_eq_true types, Option.isNone_iff_eq_none.mp stuck⟩

/-- What makes three entities, two of which share a table with a third type. -/
def threeEntities : List (Operation Nat) :=
  [.insertEntity, .insertEntity, .insertEntity,
    .setBundle (EntityId.new 0 0) [(7#128, 5)],
    .setBundle (EntityId.new 1 0) [(7#128, 6), (9#128, 1)],
    .setBundle (EntityId.new 2 0) [(7#128, 8)]]

/-- The first entity moves from the table that it shares to the table of the second. -/
theorem perform_refines_iff_sample :
    let operation : Operation Nat := .setBundle (EntityId.new 0 0) [(9#128, 2), (7#128, 3)]
    ∃ w : World Nat, (World.new 1).bind (runOperations · threeEntities) = some w ∧
      ∃ outcome after, w.perform operation = some (outcome, after) ∧ after.WellFormed ∧
        EntityMap.Step w.view operation outcome after.view := by
  intro operation
  obtain ⟨start, w, created, ran, admitted⟩ :
      ∃ start w : World Nat, World.new 1 = some start ∧
        start.runOperations threeEntities = some w ∧ w.admits operation = true :=
    ⟨_, _, rfl, rfl, rfl⟩
  have wf := runOperations_wellFormed (new_spec created).1 ran
  rcases wf.toOwned.of_admits admitted with ⟨admissible, noCollision⟩
  exact ⟨w, by rw [created]; exact ran,
    (perform_refines_iff wf operation admissible).mpr (noCollision.findsTarget wf admissible)⟩

/-- What makes an entity whose only type has the hash that two other types have together. -/
def collidingTypes : List (Operation Nat) :=
  [.insertEntity, .insertEntity, .setBundle (EntityId.new 0 0) [(6#128, 1)],
    .setBundle (EntityId.new 1 0) [(2#128, 2)]]

/-- The hash of `2` and `4` is `6`: the second entity moves to the table of the first, which
has no column for its new component. -/
theorem perform_collides :
    let operation : Operation Nat := .setBundle (EntityId.new 1 0) [(4#128, 3)]
    ∃ w : World Nat, (World.new 1).bind (runOperations · collidingTypes) = some w ∧
      w.WellFormed ∧ w.Admissible operation ∧ w.perform operation = none := by
  intro operation
  obtain ⟨start, w, created, ran, stuck⟩ :
      ∃ start w : World Nat, World.new 1 = some start ∧
        start.runOperations collidingTypes = some w ∧ (w.perform operation).isNone = true :=
    ⟨_, _, rfl, rfl, rfl⟩
  have distinct : Bundle.Distinct [(4#128, (3 : Nat))] := by decide
  exact ⟨w, by rw [created]; exact ran, runOperations_wellFormed (new_spec created).1 ran,
    distinct, Option.isNone_iff_eq_none.mp stuck⟩

theorem bundle_destination_iff_sample :
    ∃ w : World Nat, (World.new 1).bind insertEntity = some (EntityId.new 0 0, w) ∧
      w.ExtendsEntity (EntityId.new 0 0) [(7#128, 5), (7#128, 6), (7#128, 8)] := by
  rcases first_entity with ⟨w, table, made, wf, known, found, types, _⟩
  have nonzero : NonzeroHashes ({1#128, 7#128} : Finset TypeId) := by decide
  have within : Bundle.types [(7#128, 5), (7#128, 6), (7#128, 8)] ⊆ {1#128, 7#128} := by decide
  refine ⟨w, made, ((bundle_destination_iff nonzero within).2 w (EntityId.new 0 0) table wf
    known found).mpr ⟨?_, ?_⟩⟩
  · intro ty lacks _
    have named := (Bundle.mem_lacking.mp lacks).1
    rw [Bundle.types, List.mem_toFinset] at named
    simp at named
    subst named
    decide
  · intro _
    refine ⟨7#128, Bundle.mem_lacking.mpr ⟨by decide, ?_⟩, by decide⟩
    rw [types]
    decide

/-- A type that is named twice is hashed twice: the hash is that of the table itself,
and the move panics. -/
theorem bundle_destination_twice :
    NonzeroHashes ({1#128, 7#128} : Finset TypeId) ∧
    ¬ Bundle.HashesExtension [(7#128, 5), (7#128, 6)] (EntityTable.empty : EntityTable Nat) ∧
    ∃ w : World Nat, (World.new 1).bind insertEntity = some (EntityId.new 0 0, w) ∧
      w.WellFormed ∧ w.setBundle (EntityId.new 0 0) [(7#128, 5), (7#128, 6)] = none := by
  refine ⟨by decide, ?_, ?_⟩
  · rintro ⟨extension, _⟩
    exact absurd extension (by decide)
  · rcases first_entity with ⟨w, _, made, wf, _, _, _, stuck⟩
    exact ⟨w, made, wf, stuck⟩

/-- A world with one entity that has a component, and which can not lose the unit
component. -/
theorem first_component : ∃ (w : World Nat) (table : EntityTable Nat),
    (World.new 1).bind (runOperations · oneComponent) = some w ∧ w.WellFormed ∧
      w.entityTable (EntityId.new 0 0) = some table ∧ table.types = {1#128, 7#128} ∧
      w.FindsWithout (EntityId.new 0 0) 7#128 ∧
      w.removeComponent (EntityId.new 0 0) 1#128 = none := by
  obtain ⟨start, w, created, ran, columns, admitted, stuck⟩ :
      ∃ start w : World Nat, World.new 1 = some start ∧
        start.runOperations oneComponent = some w ∧
        ((w.entityTable (EntityId.new 0 0)).any fun table =>
          table.types = {1#128, 7#128}) = true ∧
        w.admits (.removeComponent (EntityId.new 0 0) 7#128) = true ∧
        (w.removeComponent (EntityId.new 0 0) 1#128).isNone = true :=
    ⟨_, _, rfl, rfl, rfl, rfl, rfl⟩
  rcases (Option.any_eq_true _ _).mp columns with ⟨table, found, types⟩
  have wf := runOperations_wellFormed (new_spec created).1 ran
  have member : 7#128 ∈ table.types := by
    rw [of_decide_eq_true types]
    decide
  have determines := (wf.toOwned.of_admits admitted).2 _
    (by rw [targetTypes, found, Option.map_some])
  exact ⟨w, table, by rw [created]; exact ran, wf, found, of_decide_eq_true types,
    wf.findsWithout_of_determines found member determines,
    Option.isNone_iff_eq_none.mp stuck⟩

theorem removes_iff_sample : ∃ w : World Nat,
    (World.new 1).bind (runOperations · oneComponent) = some w ∧
      w.Removes (EntityId.new 0 0) 7#128 := by
  rcases first_component with ⟨w, table, ran, wf, found, types, finds, _⟩
  have present : 7#128 ∈ table.types := by
    rw [types]
    decide
  exact ⟨w, ran, (removes_iff wf found present).mpr ⟨by decide, finds⟩⟩

/-- Every table has the unit column, and its hash is zero: without the unit component
the entity would move to the table that it is in. -/
theorem removes_unit : ∃ (w : World Nat) (table : EntityTable Nat),
    (World.new 1).bind (runOperations · oneComponent) = some w ∧ w.WellFormed ∧
      w.entityTable (EntityId.new 0 0) = some table ∧ unitTypeId ∈ table.types ∧
      w.removeComponent (EntityId.new 0 0) unitTypeId = none ∧
      ¬ w.Removes (EntityId.new 0 0) unitTypeId := by
  rcases first_component with ⟨w, table, ran, wf, found, types, _, stuck⟩
  refine ⟨w, table, ran, wf, found, ?_, stuck, ?_⟩
  · rw [types]
    decide
  · rintro ⟨_, _, _, _, _, _, _, removed, _⟩
    cases stuck.symm.trans removed

end Example

end World

end Cecs

import Cecs.World.WellFormed

/-! # The operations on a well-formed world

Each operation is the same edit of the store of rows as of the abstract map:
detach the row of the entity, attach a new one, or overwrite it in place. -/

namespace Cecs

open Foundation

namespace World

section Move

variable {Value : Type} {w : World Value} {id : EntityId}

theorem deleteEntity_dead (absent : w.entityIds.place id = none) :
    w.deleteEntity id = some (.error .EntityNotFound, w) := by
  rcases EntityIndex.read_of_place_none absent with ⟨error, outcome⟩
  simp [deleteEntity, outcome]

variable [UnitTypeId]

/-- The row of an entity goes, and its slot is freed. -/
theorem WellFormed.dropEntity (wf : w.WellFormed) {slots : List Nat}
    (sound : w.entityIds.Sound slots) {ptr : Ptr} {index : Nat}
    {table : EntityTable Value} (found : w.tables ptr = some table)
    (owner : table.entities[index]? = some id) :
    ∃ renamed freed,
      w.entityIds.updateMoved (table.dropRow index).entities[index]? index = some renamed ∧
      w.entityIds.Alike slots renamed ∧ renamed.Claimed slots id ∧
      renamed.free id = some freed ∧ (table.dropRow index).entities[index]? ≠ some id ∧
      freed.Sound (id.index :: slots) ∧
      let after := (w.setTable ptr (table.dropRow index)).setIndex freed
      after.WellFormed ∧ after.view = Function.update w.view id none := by
  have placed := wf.place_of_entities found owner
  rcases wf.updateMoved_dropRow sound found owner with
    ⟨renamed, updated, alike, claims, different, places⟩
  have claimed := claims id (sound.claimed placed)
  rcases EntityIndex.free_spec alike.right claimed with ⟨freed, free, soundFreed, placesFreed⟩
  have edit : ((w.setTable ptr (table.dropRow index)).setIndex freed).store =
      w.store.detach id ptr index := by
    apply RowStore.ext
    · funext other
      change freed.place other = _
      rw [placesFreed]
      by_cases same : other = id
      · subst same
        rw [Function.update_self, RowStore.place_detach_self]
      · rw [Function.update_of_ne same, places other same]
    · refine (rows_store_setTable w ptr (table.dropRow index)).trans ?_
      rw [(wf.aligned ptr table found).rowList_dropRow, RowStore.rows_detach,
        rows_store_of_table found]
  refine ⟨renamed, freed, updated, alike, claimed, free, different, soundFreed, ?_, ?_⟩
  · apply (wf.toFormed.dropRow found index).wellFormed soundFreed
    rw [edit]
    exact wf.linked.detach placed
  · rw [view, edit]
    exact wf.linked.view_detach placed

theorem deleteEntity_live (wf : w.WellFormed) {slots : List Nat}
    (sound : w.entityIds.Sound slots) {row : Row Value} (live : w.view id = some row) :
    ∃ after renamed, w.deleteEntity id = some (.ok (), after) ∧ after.WellFormed ∧
      after.view = Function.update w.view id none ∧ w.entityIds.Alike slots renamed ∧
      renamed.Claimed slots id ∧ renamed.free id = some after.entityIds := by
  rcases wf.toConsistent.table_of_view live with
    ⟨ptr, index, table, outcome, found, aligned, inRange, owner, _⟩
  rcases wf.dropEntity sound found owner with
    ⟨renamed, freed, updated, alike, claimed, free, different, _, wfAfter, viewAfter⟩
  refine ⟨_, renamed, ?_, wfAfter, viewAfter, alike, claimed, free⟩
  simp [deleteEntity, outcome, found, aligned.remove_eq inRange, different, updated, free]

/-- When the new row is complete and the index names it, the move is done. -/
theorem finish_move (wf : w.WellFormed) {slots : List Nat} (sound : w.entityIds.Sound slots)
    {src dst : Ptr} {index : Nat}
    {source target result : EntityTable Value} (found : w.tables src = some source)
    (owner : source.entities[index]? = some id) (foundTarget : w.tables dst = some target)
    (different : src ≠ dst) {cells : Row Value}
    (extended : EntityTable.Extends target result id cells)
    (full : EntityTable.Fills cells target) {renamed : EntityIndex}
    (updated : w.entityIds.updateMoved (source.dropRow index).entities[index]? index =
      some renamed) :
    ∃ entityIds, renamed.update id dst target.rows = some entityIds ∧
      w.entityIds.Alike slots entityIds ∧
      let after :=
        ((w.setTable src (source.dropRow index)).setTable dst result).setIndex entityIds
      after.WellFormed ∧ after.view = Function.update w.view id (some cells) := by
  have placed := wf.place_of_entities found owner
  rcases wf.updateMoved_dropRow sound found owner with
    ⟨renamed, updatedAgain, alike, claims, _, places⟩
  rw [updated] at updatedAgain
  cases updatedAgain
  have claimed := claims id (sound.claimed placed)
  rcases EntityIndex.update_spec alike.right claimed dst target.rows with
    ⟨entityIds, update, soundUpdated, placesUpdated, _⟩
  refine ⟨entityIds, update,
    ⟨sound, soundUpdated, (EntityIndex.update_generationAt update).trans alike.generations⟩, ?_⟩
  rcases extended.complete (wf.aligned dst target foundTarget) full with
    ⟨alignedResult, rowsResult⟩
  have alignedSource := wf.aligned src source found
  have foundAfter : (w.setTable src (source.dropRow index)).tables dst = some target := by
    simp [setTable, Ne.symm different, foundTarget]
  have edit :
      (((w.setTable src (source.dropRow index)).setTable dst result).setIndex
        entityIds).store = (w.store.detach id src index).attach id dst cells := by
    apply RowStore.ext
    · funext other
      change entityIds.place other = _
      rw [placesUpdated, RowStore.place_attach]
      have length : target.rows = ((w.store.detach id src index).rows dst).length := by
        rw [RowStore.rows_detach, Function.update_of_ne (Ne.symm different),
          rows_store_of_table foundTarget, EntityTable.length_rowList,
          (wf.aligned dst target foundTarget).entities]
      by_cases same : other = id
      · subst same
        rw [Function.update_self, Function.update_self, length]
      · rw [Function.update_of_ne same, Function.update_of_ne same, places other same]
    · refine (rows_store_setTable _ dst result).trans ?_
      rw [rows_store_setTable, rowsResult, alignedSource.rowList_dropRow,
        RowStore.rows_attach, RowStore.rows_detach, rows_store_of_table found,
        Function.update_of_ne (Ne.symm different), rows_store_of_table foundTarget]
  have linkedDetached := wf.linked.detach placed
  have absent : (w.store.detach id src index).place id = none :=
    RowStore.place_detach_self id src index
  constructor
  · apply Formed.wellFormed _ soundUpdated
    · rw [edit]
      exact linkedDetached.attach absent dst cells
    · exact (wf.toFormed.dropRow found index).setTable foundAfter extended.ty extended.types
        alignedResult
  · rw [view, edit, linkedDetached.view_attach absent, wf.linked.view_detach placed,
      Function.update_idem]
    rfl

end Move

section AddTable

variable {Value : Type} {w : World Value}

/-- A new table is boxed and entered under its `ty`. -/
def addTable (w : World Value) (table : EntityTable Value) : World Value :=
  (w.allocateTable table).2.insertArchetypes table.ty w.nextTable

theorem tables_addTable (table : EntityTable Value) (absent : w.archetypes[table.ty]? = none) :
    (w.addTable table).tables = Function.update w.tables w.nextTable (some table) := by
  simp [addTable, insertArchetypes, allocateTable, setTable, absent, dropTable]

theorem Owned.tables_nextTable (owned : w.Owned) : w.tables w.nextTable = none := by
  cases found : w.tables w.nextTable with
  | none => rfl
  | some table => exact absurd (owned.fresh _ table found) (Nat.lt_irrefl _)

theorem Owned.addTable (owned : w.Owned) {table : EntityTable Value}
    (absent : w.archetypes[table.ty]? = none) : (w.addTable table).Owned := by
  have tables := tables_addTable table absent
  have archetypes : ∀ key : TypeHash, (w.addTable table).archetypes[key]? =
      if table.ty = key then some w.nextTable else w.archetypes[key]? :=
    fun key => BTreeMap.getElem?_insert w.archetypes table.ty w.nextTable key
  have next : (w.addTable table).nextTable = w.nextTable + 1 := rfl
  have old : ∀ ptr other, w.tables ptr = some other →
      (w.addTable table).tables ptr = some other := by
    intro ptr other found
    have before := owned.fresh ptr other found
    rw [tables, Function.update_of_ne (Nat.ne_of_lt before), found]
  have cases : ∀ ptr other, (w.addTable table).tables ptr = some other →
      (ptr = w.nextTable ∧ other = table) ∨ w.tables ptr = some other := by
    intro ptr other found
    rw [tables, Function.update_apply] at found
    split at found
    · exact Or.inl ⟨‹_›, (Option.some.inj found).symm⟩
    · exact Or.inr found
  refine ⟨?_, ?_, ?_, ?_, ?_⟩
  · intro key ptr owner
    rw [archetypes] at owner
    split at owner
    · cases owner
      exact ⟨table, by rw [tables, Function.update_self], ‹_›⟩
    · rcases owned.archetypes key ptr owner with ⟨other, found, ty⟩
      exact ⟨other, old ptr other found, ty⟩
  · intro key ptr owner
    rcases owned.staging key ptr owner with ⟨other, found, ty⟩
    exact ⟨other, old ptr other found, ty⟩
  · intro ptr other found
    rw [archetypes]
    rcases cases ptr other found with ⟨rfl, rfl⟩ | before
    · exact Or.inl (if_pos rfl)
    · rcases owned.owner ptr other before with inArchetypes | inStaging
      · left
        rw [if_neg, inArchetypes]
        intro same
        rw [same, inArchetypes] at absent
        cases absent
      · exact Or.inr inStaging
  · intro key ptr owner inStaging
    rw [archetypes] at owner
    split at owner
    · cases owner
      rcases owned.staging key w.nextTable inStaging with ⟨other, found, _⟩
      exact absurd (owned.fresh _ other found) (Nat.lt_irrefl _)
    · exact owned.unshared key ptr owner inStaging
  · intro ptr other found
    rw [next]
    rcases cases ptr other found with ⟨rfl, rfl⟩ | before
    · exact Nat.lt_succ_self _
    · exact Nat.lt_succ_of_lt (owned.fresh ptr other before)

/-- Adding a table without rows adds no entity. -/
theorem WellFormed.addTable [UnitTypeId] (wf : w.WellFormed) {table : EntityTable Value}
    (absent : w.archetypes[table.ty]? = none) (blank : table.Blank) (shaped : table.Shaped) :
    (w.addTable table).WellFormed ∧ (w.addTable table).view = w.view := by
  have tables := tables_addTable table absent
  have edit : (w.addTable table).store = w.store := by
    apply RowStore.ext
    · rfl
    · funext ptr
      simp only [store, tables, Function.update_apply]
      by_cases same : ptr = w.nextTable
      · subst same
        rw [if_pos rfl, wf.toOwned.tables_nextTable]
        exact blank.rowList
      · rw [if_neg same]
  have cases : ∀ ptr other, (w.addTable table).tables ptr = some other →
      other = table ∨ w.tables ptr = some other := by
    intro ptr other found
    rw [tables, Function.update_apply] at found
    split at found
    · exact Or.inl (Option.some.inj found).symm
    · exact Or.inr found
  constructor
  · refine { wf.toOwned.addTable absent with
      index := wf.index, linked := ?_, aligned := ?_, shaped := ?_, void := ?_ }
    · intro ptr other found
      rcases cases ptr other found with rfl | before
      · exact blank.aligned
      · exact wf.aligned ptr other before
    · rw [edit]
      exact wf.linked
    · intro ptr other found
      rcases cases ptr other found with rfl | before
      · exact shaped
      · exact wf.shaped ptr other before
    · rcases wf.void with ⟨ptr, void, owner, found, types⟩
      refine ⟨ptr, void, ?_, ?_, types⟩
      · refine (BTreeMap.getElem?_insert w.archetypes table.ty w.nextTable VOID_TY).trans ?_
        rw [if_neg, owner]
        intro same
        rw [same, owner] at absent
        cases absent
      · rw [tables, Function.update_of_ne (Nat.ne_of_lt (wf.fresh ptr void found)), found]
  · rw [view, edit]
    rfl

/-- `insert_archetype` moves the row into a table it added. -/
theorem insertArchetype_eq {arch : Ptr} {index : Nat}
    {source table removed extended : EntityTable Value} (found : w.tables arch = some source)
    (absent : w.archetypes[table.ty]? = none) (notNew : arch ≠ w.nextTable)
    {moved : Option EntityId} {entityIds : EntityIndex}
    (move : source.moveEntity table index = some (0, moved, removed, extended))
    (updated : w.entityIds.updateMoved moved index = some entityIds) :
    w.insertArchetype arch index table =
      some (w.nextTable,
        (((w.addTable table).setTable arch removed).setTable w.nextTable extended).setIndex
          entityIds) := by
  have absentKey : table.ty ∉ w.archetypes := BTreeMap.not_mem_iff.mpr absent
  simp [insertArchetype, allocateTable, moveEntity, setTable, notNew, found, move,
    absentKey, insertArchetypes, dropTable, addTable, updated, setIndex]

end AddTable

section SetBundle

variable {Value : Type} {w : World Value} {id : EntityId}

theorem setBundle_dead [UnitTypeId] (absent : w.entityIds.place id = none)
    (bundle : Bundle Value) : w.setBundle id bundle = some (.error .EntityNotFound, w) := by
  rcases EntityIndex.read_of_place_none absent with ⟨error, outcome⟩
  simp [setBundle, outcome]

variable [UnitTypeId]

/-- Everything a move needs: the tables after it, the renamed entity, the cells
that the bundle fills in and the new place of `id`. -/
theorem WellFormed.relocate (wf : w.WellFormed) {slots : List Nat}
    (sound : w.entityIds.Sound slots) {src dst : Ptr} {index : Nat}
    {source target : EntityTable Value} (found : w.tables src = some source)
    (owner : source.entities[index]? = some id) (foundTarget : w.tables dst = some target)
    (different : src ≠ dst) {bundle : Bundle Value}
    (present : ∀ entry ∈ bundle, entry.1 ∈ target.types) {cells : Row Value}
    (full : EntityTable.Fills cells target)
    (agree : ∀ ty ∈ target.types, cells ty = (source.row index).insertBundle bundle ty) :
    ∃ extended renamed result entityIds,
      source.moveEntity target index =
        some (target.rows, (source.dropRow index).entities[index]?, source.dropRow index,
          extended) ∧
      w.entityIds.updateMoved (source.dropRow index).entities[index]? index =
        some renamed ∧
      (source.dropRow index).entities[index]? ≠ some id ∧
      bundle.insertInto extended target.rows = some result ∧
      renamed.update id dst target.rows = some entityIds ∧
      w.entityIds.Alike slots entityIds ∧
      let after :=
        ((w.setTable src (source.dropRow index)).setTable dst result).setIndex entityIds
      after.WellFormed ∧ after.view = Function.update w.view id (some cells) := by
  have aligned := wf.aligned src source found
  have inRange := aligned.inRange owner
  rcases aligned.moveEntity_eq (wf.aligned dst target foundTarget) inRange owner with
    ⟨extended, moved, extension⟩
  rcases wf.updateMoved_dropRow sound found owner with ⟨renamed, updated, _, _, notSelf, _⟩
  rcases extension.insertInto (wf.aligned dst target foundTarget) present with
    ⟨result, inserted, filled⟩
  rcases finish_move wf sound found owner foundTarget different (filled.congr agree) full
      updated with
    ⟨entityIds, update, alike, after⟩
  exact ⟨extended, renamed, result, entityIds, moved, updated, notSelf, inserted, update, alike,
    after⟩

/-- The row of an entity is rewritten where it lies. -/
theorem WellFormed.rewrite (wf : w.WellFormed) {ptr : Ptr} {index : Nat}
    {table result : EntityTable Value} (found : w.tables ptr = some table)
    (owner : table.entities[index]? = some id) {cells : Row Value}
    (overwritten : EntityTable.Overwrites table result index cells)
    (full : EntityTable.Fills cells table) :
    w.entityIds.update id ptr index = some w.entityIds ∧
      (w.setTable ptr result).WellFormed ∧
      (w.setTable ptr result).view = Function.update w.view id (some cells) := by
  rcases wf.index with ⟨slots, sound⟩
  have placed := wf.place_of_entities found owner
  rcases overwritten.complete (wf.aligned ptr table found) owner full with
    ⟨alignedResult, rows⟩
  have edit : (w.setTable ptr result).store = w.store.overwrite id ptr index cells := by
    apply RowStore.ext
    · rfl
    · refine (rows_store_setTable w ptr result).trans ?_
      rw [rows, ← rows_store_of_table found]
      rfl
  refine ⟨EntityIndex.update_of_place placed, ?_, ?_⟩
  · have formed := wf.toFormed.setTable found overwritten.ty overwritten.types alignedResult
    refine { formed with index := ⟨slots, sound⟩, linked := ?_ }
    rw [edit]
    exact wf.linked.overwrite placed cells
  · rw [view, edit]
    exact wf.linked.view_overwrite placed cells

/-- The only table with the hash of `types` is the one with these columns. -/
def HashDetermines (w : World Value) (types : Finset TypeId) : Prop :=
  ∀ ptr table, w.tables ptr = some table → table.ty = hashTypes types → table.types = types

omit [UnitTypeId] in
theorem Owned.table_of_key (owned : w.Owned) {key : TypeHash} {ptr : Ptr}
    (found : w.getArchetypeByKey key = some ptr) :
    ∃ table, w.tables ptr = some table ∧ table.ty = key := by
  rw [getArchetypeByKey, Option.or_eq_some_iff] at found
  rcases found with inArchetypes | ⟨_, inStaging⟩
  · exact owned.archetypes key ptr inArchetypes
  · exact owned.staging key ptr inStaging

omit [UnitTypeId] in
theorem fills_insertBundle {table target : EntityTable Value} (aligned : table.Aligned)
    {index : Nat} (inRange : index < table.rows) {bundle : Bundle Value}
    (types : target.types = table.types ∪ bundle.types) :
    EntityTable.Fills ((table.row index).insertBundle bundle) target := by
  intro ty
  rw [Row.insertBundle_isSome, aligned.fills_row inRange ty, types, Finset.mem_union]

theorem Formed.shaped_of_entity (formed : w.Formed) {table : EntityTable Value}
    (found : w.entityTable id = some table) :
    (∃ ptr, w.tables ptr = some table) ∧ table.Shaped := by
  rw [entityTable] at found
  split at found
  · cases found
  · exact ⟨⟨_, found⟩, formed.shaped _ table found⟩

/-- What the maps hold under the hash of the columns that the entity gets has just these
columns. -/
def FindsExtended (w : World Value) (id : EntityId) (bundle : Bundle Value) : Prop :=
  ∀ table ptr target, w.entityTable id = some table → bundle.canInsert table = false →
    w.getArchetypeByKey (bundle.computeHashFromTable table) = some ptr →
    w.tables ptr = some target → target.types = table.types ∪ bundle.types

/-- A bundle whose hash is that of the union of the columns is set in the table that is found. -/
theorem setBundle_found (wf : w.WellFormed) {slots : List Nat}
    (sound : w.entityIds.Sound slots) {row : Row Value} (live : w.view id = some row)
    {bundle : Bundle Value}
    (hashed : ∀ table, w.entityTable id = some table →
      bundle.computeHashFromTable table = hashTypes (table.types ∪ bundle.types))
    (finds : w.FindsExtended id bundle) :
    ∃ after, w.setBundle id bundle = some (.ok (), after) ∧ after.WellFormed ∧
      after.view = Function.update w.view id (some (row.insertBundle bundle)) ∧
      w.entityIds.Alike slots after.entityIds := by
  rcases wf.toConsistent.table_of_view live with
    ⟨ptr, index, table, outcome, found, aligned, inRange, owner, rfl⟩
  have shaped := wf.shaped ptr table found
  have table_eq : w.entityTable id = some table := by simp [entityTable, outcome, found]
  have hash := hashed table table_eq
  by_cases fits : bundle.canInsert table = true
  · -- The entity stays where it is.
    have subset := EntityTable.canInsert_iff.mp fits
    have sameTypes : table.types = table.types ∪ bundle.types :=
      (Finset.union_eq_left.mpr subset).symm
    rcases (EntityTable.overwrites_self table index).insertInto aligned inRange fun
        entry member => subset (Bundle.mem_types_of_mem member) with
      ⟨result, inserted, overwritten⟩
    rcases wf.rewrite found owner overwritten (fills_insertBundle aligned inRange
        sameTypes) with
      ⟨update, wfAfter, viewAfter⟩
    refine ⟨_, ?_, wfAfter, viewAfter, .refl sound⟩
    simp [setBundle, outcome, placeForBundle, found, fits, inserted, update, setIndex, setTable]
  · have notSubset := mt EntityTable.canInsert_iff.mpr fits
    cases lookup : w.getArchetypeByKey (bundle.computeHashFromTable table) with
    | some dst =>
        -- It moves to a table that exists, in use or parked.
        rcases wf.toOwned.table_of_key lookup with ⟨target, foundTarget, ty⟩
        have types := finds table dst target table_eq (Bool.eq_false_iff.mpr fits) lookup
          foundTarget
        have different : ptr ≠ dst := by
          rintro rfl
          rw [found] at foundTarget
          cases foundTarget
          exact notSubset (Finset.union_eq_left.mp types.symm)
        rcases wf.relocate sound found owner foundTarget different (fun entry member => types
            ▸ Finset.mem_union_right _ (Bundle.mem_types_of_mem member)) (fills_insertBundle
            aligned inRange types) (fun _ _ => rfl) with
          ⟨extended, renamed, result, entityIds, move, updated, _, inserted, update,
          alike, wfAfter, viewAfter⟩
        refine ⟨_, ?_, wfAfter, viewAfter, alike⟩
        simp [setBundle, outcome, placeForBundle, found, fits, lookup, moveEntity, different,
          foundTarget, move, updated, setTable, setIndex, inserted, update]
    | none =>
        -- It moves to a new table.
        rcases shaped.extend bundle with ⟨blank, shapedNew, types⟩
        have ty : bundle.computeHashFromTable table = (bundle.extend table).ty := by
          rw [hash, shapedNew.hashed, types]
        rw [getArchetypeByKey, Option.or_eq_none_iff, ty] at lookup
        rcases wf.addTable lookup.1 blank shapedNew with ⟨wfAdded, viewAdded⟩
        have notNew : ptr ≠ w.nextTable := Nat.ne_of_lt (wf.fresh ptr table found)
        have tables := tables_addTable (bundle.extend table) lookup.1
        have foundAdded : (w.addTable (bundle.extend table)).tables ptr = some table := by
          rw [tables, Function.update_of_ne notNew, found]
        have foundNew : (w.addTable (bundle.extend table)).tables w.nextTable =
            some (bundle.extend table) := by
          rw [tables, Function.update_self]
        rcases wfAdded.relocate sound foundAdded owner foundNew notNew (fun entry member =>
            types ▸ Finset.mem_union_right _ (Bundle.mem_types_of_mem member))
            (fills_insertBundle aligned inRange types) (fun _ _ => rfl) with
          ⟨extended, renamed, result, entityIds, move, updated, _, inserted, update,
          alike, wfAfter, viewAfter⟩
        rw [blank.rows] at move inserted update
        rw [viewAdded] at viewAfter
        have absent : w.getArchetypeByKey (bundle.extend table).ty = none := by
          rw [getArchetypeByKey, lookup.1, lookup.2]
          rfl
        refine ⟨_, ?_, wfAfter, viewAfter, alike⟩
        simp [setBundle, outcome, placeForBundle, found, fits, ty, absent,
          insertArchetype_eq found lookup.1 notNew move updated, setTable, setIndex, inserted,
          update]

/-- Hashes that determine the columns lead to the right table. -/
theorem WellFormed.findsExtended_of_determines (wf : w.WellFormed) {bundle : Bundle Value}
    (hashed : ∀ table, w.entityTable id = some table →
      bundle.computeHashFromTable table = hashTypes (table.types ∪ bundle.types))
    (determined : ∀ table, w.entityTable id = some table →
      w.HashDetermines (table.types ∪ bundle.types)) : w.FindsExtended id bundle := by
  intro table ptr target found _ lookup foundTarget
  rcases wf.toOwned.table_of_key lookup with ⟨same, foundSame, ty⟩
  cases foundTarget.symm.trans foundSame
  exact determined table found ptr target foundTarget (ty.trans (hashed table found))

/-- A bundle whose hash is that of the union of the columns is set. -/
theorem setBundle_hashed (wf : w.WellFormed) {slots : List Nat}
    (sound : w.entityIds.Sound slots) {row : Row Value} (live : w.view id = some row)
    {bundle : Bundle Value}
    (hashed : ∀ table, w.entityTable id = some table →
      bundle.computeHashFromTable table = hashTypes (table.types ∪ bundle.types))
    (determined : ∀ table, w.entityTable id = some table →
      w.HashDetermines (table.types ∪ bundle.types)) :
    ∃ after, w.setBundle id bundle = some (.ok (), after) ∧ after.WellFormed ∧
      after.view = Function.update w.view id (some (row.insertBundle bundle)) ∧
      w.entityIds.Alike slots after.entityIds :=
  setBundle_found wf sound live hashed (wf.findsExtended_of_determines hashed determined)

theorem Formed.computeHashFromTable (formed : w.Formed) {bundle : Bundle Value}
    (distinct : bundle.Distinct) : ∀ table, w.entityTable id = some table →
      bundle.computeHashFromTable table = hashTypes (table.types ∪ bundle.types) := by
  intro table found
  rcases formed.shaped_of_entity found with ⟨_, shaped⟩
  exact shaped.computeHashFromTable distinct

theorem setBundle_live (wf : w.WellFormed) {slots : List Nat}
    (sound : w.entityIds.Sound slots) {row : Row Value} (live : w.view id = some row)
    {bundle : Bundle Value} (distinct : bundle.Distinct)
    (determined : ∀ table, w.entityTable id = some table →
      w.HashDetermines (table.types ∪ bundle.types)) :
    ∃ after, w.setBundle id bundle = some (.ok (), after) ∧ after.WellFormed ∧
      after.view = Function.update w.view id (some (row.insertBundle bundle)) ∧
      w.entityIds.Alike slots after.entityIds :=
  setBundle_hashed wf sound live (wf.toFormed.computeHashFromTable distinct) determined

end SetBundle

section RemoveComponent

variable {Value : Type} [UnitTypeId] {w : World Value} {id : EntityId} {ty : TypeId}

theorem removeComponent_dead (absent : w.entityIds.place id = none) (ty : TypeId) :
    w.removeComponent id ty = some (.error .EntityNotFound, w) := by
  rcases EntityIndex.read_of_place_none absent with ⟨error, outcome⟩
  simp [removeComponent, outcome]

theorem removeComponent_missing (wf : w.WellFormed) {row : Row Value}
    (live : w.view id = some row) (missing : row ty = none) :
    w.removeComponent id ty = some (.error .ComponentNotFound, w) := by
  rcases wf.toConsistent.table_of_view live with
    ⟨ptr, index, table, outcome, found, aligned, inRange, _, rfl⟩
  have absent : ¬table.containsColumn ty = true := by
    rw [← EntityTable.mem_types, ← aligned.fills_row inRange ty, missing]
    simp
  simp [removeComponent, outcome, found, absent]

omit [UnitTypeId] in
theorem fills_remove {table target : EntityTable Value} (aligned : table.Aligned)
    {index : Nat} (inRange : index < table.rows) (types : target.types = table.types.erase ty) :
    EntityTable.Fills ((table.row index).remove ty) target := by
  intro other
  rw [types, Finset.mem_erase, ← aligned.fills_row inRange other]
  by_cases same : other = ty <;> simp [Row.remove, same]

omit [UnitTypeId] in
theorem nothing_present (target : EntityTable Value) :
    ∀ entry ∈ ([] : Bundle Value), entry.1 ∈ target.types :=
  fun _ member => absurd member List.not_mem_nil

omit [UnitTypeId] in
theorem remove_agrees {target : EntityTable Value} {row : Row Value} {types : Finset TypeId}
    (erased : target.types = types.erase ty) :
    ∀ other ∈ target.types, row.remove ty other = row.insertBundle [] other := by
  intro other member
  rw [erased] at member
  rw [Row.remove, Function.update_of_ne (Finset.ne_of_mem_erase member),
    Row.insertBundle_nil]

/-- What the map of tables in use holds under the hash of the columns without `ty`
has just these columns. -/
def FindsWithout (w : World Value) (id : EntityId) (ty : TypeId) : Prop :=
  ∀ table ptr target, w.entityTable id = some table →
    w.archetypes[table.extendedHash ty]? = some ptr → w.tables ptr = some target →
    target.types = table.types.erase ty

/-- A component whose table without it is found by its hash is removed. -/
theorem removeComponent_hashed (wf : w.WellFormed) {slots : List Nat}
    (sound : w.entityIds.Sound slots) {row : Row Value} (live : w.view id = some row)
    (notUnit : ty ≠ unitTypeId) {value : Value} (present : row ty = some value)
    (finds : w.FindsWithout id ty) :
    ∃ after, w.removeComponent id ty = some (.ok (), after) ∧ after.WellFormed ∧
      after.view = Function.update w.view id (some (row.remove ty)) ∧
      w.entityIds.Alike slots after.entityIds := by
  rcases wf.toConsistent.table_of_view live with
    ⟨ptr, index, table, outcome, found, aligned, inRange, owner, rfl⟩
  have shaped := wf.shaped ptr table found
  have table_eq : w.entityTable id = some table := by simp [entityTable, outcome, found]
  have member : ty ∈ table.types := by
    rw [← aligned.fills_row inRange ty, present]
    rfl
  have column := EntityTable.mem_types.mp member
  cases lookup : w.archetypes[table.extendedHash ty]? with
  | some dst =>
      rcases wf.archetypes _ dst lookup with ⟨target, foundTarget, targetTy⟩
      have types := finds table dst target table_eq lookup foundTarget
      have different : ptr ≠ dst := by
        rintro rfl
        rw [found] at foundTarget
        cases foundTarget
        rw [types] at member
        exact Finset.notMem_erase ty _ member
      rcases wf.relocate sound found owner foundTarget different (nothing_present target)
          (fills_remove aligned inRange types) (remove_agrees types) with
        ⟨extended, renamed, result, entityIds, move, updated, notSelf, inserted, update,
        alike, wfAfter, viewAfter⟩
      cases inserted
      refine ⟨_, ?_, wfAfter, viewAfter, alike⟩
      simp [removeComponent, outcome, found, column, placeWithout, lookup, moveEntity,
        different, foundTarget, move, notSelf, updated, setTable, setIndex, update]
  | none =>
      rcases shaped.reduce notUnit member with ⟨blank, shapedNew, types, newTy⟩
      rw [← newTy] at lookup
      rcases wf.addTable lookup blank shapedNew with ⟨wfAdded, viewAdded⟩
      have notNew : ptr ≠ w.nextTable := Nat.ne_of_lt (wf.fresh ptr table found)
      have tables := tables_addTable (table.cloneEmpty.reduceWithColumn ty) lookup
      have foundAdded :
          (w.addTable (table.cloneEmpty.reduceWithColumn ty)).tables ptr = some table := by
        rw [tables, Function.update_of_ne notNew, found]
      have foundNew : (w.addTable (table.cloneEmpty.reduceWithColumn ty)).tables w.nextTable =
          some (table.cloneEmpty.reduceWithColumn ty) := by
        rw [tables, Function.update_self]
      rcases wfAdded.relocate sound foundAdded owner foundNew notNew (nothing_present _)
          (fills_remove aligned inRange types) (remove_agrees types) with
        ⟨extended, renamed, result, entityIds, move, updated, _, inserted, update,
        alike, wfAfter, viewAfter⟩
      cases inserted
      rw [blank.rows] at move update
      rw [viewAdded] at viewAfter
      refine ⟨_, ?_, wfAfter, viewAfter, alike⟩
      rw [newTy] at lookup
      simp [removeComponent, outcome, found, column, placeWithout, lookup,
        insertArchetype_eq found (newTy ▸ lookup) notNew move updated, setTable, setIndex,
        update]

/-- Hashes that determine the columns lead to the right table. -/
theorem WellFormed.findsWithout_of_determines (wf : w.WellFormed) {table : EntityTable Value}
    (found : w.entityTable id = some table) (member : ty ∈ table.types)
    (determines : w.HashDetermines (table.types.erase ty)) : w.FindsWithout id ty := by
  intro same ptr target foundSame owner foundTarget
  cases found.symm.trans foundSame
  rcases wf.archetypes _ ptr owner with ⟨other, foundOther, targetTy⟩
  cases foundTarget.symm.trans foundOther
  rcases wf.toFormed.shaped_of_entity found with ⟨_, shaped⟩
  exact determines ptr target foundTarget (targetTy.trans (shaped.extendedHash member))

theorem removeComponent_live (wf : w.WellFormed) {slots : List Nat}
    (sound : w.entityIds.Sound slots) {row : Row Value} (live : w.view id = some row)
    (notUnit : ty ≠ unitTypeId) {value : Value} (present : row ty = some value)
    (determined : ∀ table, w.entityTable id = some table →
      w.HashDetermines (table.types.erase ty)) :
    ∃ after, w.removeComponent id ty = some (.ok (), after) ∧ after.WellFormed ∧
      after.view = Function.update w.view id (some (row.remove ty)) ∧
      w.entityIds.Alike slots after.entityIds := by
  apply removeComponent_hashed wf sound live notUnit present
  rcases wf.toConsistent.table_of_view live with
    ⟨arch, index, table, outcome, found, aligned, inRange, _, rfl⟩
  have table_eq : w.entityTable id = some table := by simp [entityTable, outcome, found]
  apply wf.findsWithout_of_determines table_eq _ (determined table table_eq)
  rw [← aligned.fills_row inRange ty, present]
  rfl

end RemoveComponent

section InsertEntity

variable {Value : Type} [UnitTypeId] [BuiltinValues Value] {w : World Value}

/-- An allocated id gets a row with the unit component. -/
theorem initId_spec (wf : w.WellFormed) {id : EntityId} {entityIds : EntityIndex}
    {slots : List Nat} (sound : entityIds.Sound slots) (claimed : entityIds.Claimed slots id)
    (places : entityIds.place = w.entityIds.place) (absent : w.entityIds.place id = none) :
    ∃ after, (w.setIndex entityIds).initId id = some after ∧ after.WellFormed ∧
      after.view = Function.update w.view id (some Row.marker) ∧
      entityIds.Alike slots after.entityIds := by
  rcases wf.void with ⟨ptr, table, owner, found, types⟩
  have aligned := wf.aligned ptr table found
  have present : unitTypeId ∈ table.types := (wf.shaped ptr table found).unitColumn
  rcases (EntityTable.extends_insertEntity table id).setComponent aligned present
      unitValue with
    ⟨result, set, extended⟩
  have full : EntityTable.Fills (Row.marker : Row Value) table := by
    intro other
    rw [types, Finset.mem_singleton]
    by_cases same : other = unitTypeId <;> simp [Row.marker, same]
  rcases extended.complete aligned full with ⟨alignedResult, rows⟩
  rcases EntityIndex.update_spec sound claimed ptr table.rows with
    ⟨updatedIds, update, soundUpdated, placesUpdated, _⟩
  have edit : ((w.setTable ptr result).setIndex updatedIds).store =
      w.store.attach id ptr Row.marker := by
    apply RowStore.ext
    · change updatedIds.place = _
      rw [placesUpdated, places, RowStore.place_attach, rows_store_of_table found,
        EntityTable.length_rowList, aligned.entities]
      rfl
    · refine (rows_store_setTable w ptr result).trans ?_
      rw [rows, RowStore.rows_attach, rows_store_of_table found]
      rfl
  refine ⟨(w.setTable ptr result).setIndex updatedIds, ?_, ?_, ?_,
    ⟨sound, soundUpdated, EntityIndex.update_generationAt update⟩⟩
  · simp [initId, setIndex, owner, found, aligned.insertEntity_eq, set, update, setTable]
  · apply (wf.toFormed.setTable found extended.ty extended.types alignedResult).wellFormed
      soundUpdated
    rw [edit]
    exact wf.linked.attach absent ptr Row.marker
  · rw [view, edit]
    exact wf.linked.view_attach absent ptr Row.marker

theorem insertEntity_spec (wf : w.WellFormed) (room : w.entityIds.HasRoom) :
    ∃ id after, w.insertEntity = some (id, after) ∧ after.WellFormed ∧ w.view id = none ∧
      after.view = Function.update w.view id (some Row.marker) := by
  rcases wf.index with ⟨slots, sound⟩
  rcases EntityIndex.allocateWithResize_spec sound room with
    ⟨id, entityIds, rest, allocated, soundRest, claimed, places, absent⟩
  rcases initId_spec wf soundRest claimed places absent with
    ⟨after, init, wfAfter, viewAfter, _⟩
  refine ⟨id, after, ?_, wfAfter, (view_eq_none_iff wf.toConsistent).mpr absent, viewAfter⟩
  simp [insertEntity, allocated, init]

end InsertEntity

end World

end Cecs

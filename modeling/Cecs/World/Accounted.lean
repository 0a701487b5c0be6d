import Cecs.EntityIndex.Pending
import Cecs.Table.Effects
import Cecs.Table.Merge
import Cecs.World.Evolution

/-! # Worlds that account for their slots

Every slot that is not free belongs to an entity with a row, or to an id that waits
for its row. Unlike well-formedness this says nothing about columns, so operations
keep it whichever hashes collide. -/

namespace Cecs

open Foundation

namespace World

variable {Value : Type} {w middle after : World Value} {pending : Set EntityId} {id : EntityId}

/-- Index and tables name each other, and the allocated ids without a row are those
of `pending`. -/
structure Accounted (w : World Value) (pending : Set EntityId) : Prop where
  index : w.entityIds.Accounts pending
  counted : ∀ ptr table, w.tables ptr = some table → table.Counted
  linked : w.store.Linked

/-- All is accounted for but the place of `id`, which the index has not been told. -/
structure AccountedBut (w : World Value) (pending : Set EntityId) (id : EntityId)
    (spot : Ptr × Nat) : Prop where
  index : w.entityIds.Accounts pending
  live : id ∈ w.entityIds.live
  counted : ∀ ptr table, w.tables ptr = some table → table.Counted
  linked : RowStore.Linked
    { w.store with place := Function.update w.entityIds.place id (some spot) }

section Basic

theorem Accounted.congr (accounted : w.Accounted pending)
    (entityIds : after.entityIds = w.entityIds) (tables : after.tables = w.tables) :
    after.Accounted pending := by
  rcases w with ⟨_, _, _, _, _, _, _⟩
  rcases after with ⟨_, _, _, _, _, _, _⟩
  cases entityIds
  cases tables
  exact { accounted with }

theorem AccountedBut.congr {spot : Ptr × Nat} (accounted : w.AccountedBut pending id spot)
    (entityIds : after.entityIds = w.entityIds) (tables : after.tables = w.tables) :
    after.AccountedBut pending id spot := by
  rcases w with ⟨_, _, _, _, _, _, _⟩
  rcases after with ⟨_, _, _, _, _, _, _⟩
  cases entityIds
  cases tables
  exact { accounted with }

/-- The index may change as long as nobody moves. -/
theorem Accounted.setIndex (accounted : w.Accounted pending) {entityIds : EntityIndex}
    {waiting : Set EntityId} (index : entityIds.Accounts waiting)
    (places : entityIds.place = w.entityIds.place) : (w.setIndex entityIds).Accounted waiting where
  index := index
  counted := accounted.counted
  linked := accounted.linked.congr places rfl

theorem keys_store_setTable_sameList {ptr : Ptr} {table written : EntityTable Value}
    (found : w.tables ptr = some table) (same : table.SameList written) :
    (w.setTable ptr written).store.keys = w.store.keys := by
  rw [keys_store_setTable, same.entities, ← keys_store_of_table found, Function.update_eq_self]

/-- Cells may change. -/
theorem Accounted.write (accounted : w.Accounted pending) {ptr : Ptr}
    {table written : EntityTable Value} (found : w.tables ptr = some table)
    (same : table.SameList written) : (w.setTable ptr written).Accounted pending where
  index := accounted.index
  counted := forall_setTable accounted.counted (same.counted (accounted.counted ptr table found))
  linked := accounted.linked.congr rfl (keys_store_setTable_sameList found same)

theorem AccountedBut.write {spot : Ptr × Nat} (accounted : w.AccountedBut pending id spot)
    {ptr : Ptr} {table written : EntityTable Value} (found : w.tables ptr = some table)
    (same : table.SameList written) : (w.setTable ptr written).AccountedBut pending id spot where
  index := accounted.index
  live := accounted.live
  counted := forall_setTable accounted.counted (same.counted (accounted.counted ptr table found))
  linked := accounted.linked.congr rfl (keys_store_setTable_sameList found same)

/-- The index is told the place. -/
theorem AccountedBut.update {ptr : Ptr} {row : Nat}
    (accounted : w.AccountedBut pending id (ptr, row)) {entityIds : EntityIndex}
    (updated : w.entityIds.update id ptr row = some entityIds) :
    (w.setIndex entityIds).Accounted pending where
  index := accounted.index.update accounted.live updated
  counted := accounted.counted
  linked := accounted.linked.congr
    (accounted.index.update_place (Or.inr accounted.live) updated) rfl

theorem Accounted.stay (accounted : w.Accounted pending) {spot : Ptr × Nat}
    (placed : w.entityIds.place id = some spot) : w.AccountedBut pending id spot where
  index := accounted.index
  live := ⟨spot, placed⟩
  counted := accounted.counted
  linked := by
    rw [← placed, Function.update_eq_self]
    exact accounted.linked

/-- A table without rows is added to the memory. -/
theorem Accounted.allocateTable (accounted : w.Accounted pending)
    (fresh : w.tables w.nextTable = none) {table : EntityTable Value} (blank : table.Blank) :
    (w.allocateTable table).2.Accounted pending where
  index := accounted.index
  counted := forall_setTable accounted.counted blank.aligned.entities
  linked := by
    have nobody : w.store.keys w.nextTable = [] := by
      simp [RowStore.keys, store, fresh]
    have keys : (w.setTable w.nextTable table).store.keys = w.store.keys := by
      rw [keys_store_setTable, blank.entities, ← nobody, Function.update_eq_self]
    exact accounted.linked.congr rfl keys

end Basic

section Queues

/-- Moving rows does not touch the queued commands. -/
theorem commands_moveEntity {src dst : Ptr} {index row : Nat} {moved : Option EntityId}
    (move : w.moveEntity src dst index = some (row, moved, after)) :
    after.commands = w.commands := by
  simp only [moveEntity, Option.bind_eq_bind, Option.bind_eq_some_iff, Option.pure_def,
    Option.some.injEq, Prod.mk.injEq] at move
  rcases move with ⟨_, _, _, _, _, _, _, _, _, _, rfl⟩
  rfl

theorem commands_insertArchetype {src ptr : Ptr} {index : Nat} {table : EntityTable Value}
    (inserted : w.insertArchetype src index table = some (ptr, after)) :
    after.commands = w.commands := by
  simp only [insertArchetype, Option.bind_eq_bind, Option.bind_eq_some_iff, Option.pure_def,
    Option.some.injEq, Prod.mk.injEq] at inserted
  rcases inserted with ⟨⟨_, moved, shifted⟩, move, _, _, _, _, _, _, _, rfl⟩
  have kept := commands_moveEntity move
  exact kept

theorem commands_placeForBundle [UnitTypeId] {src dst : Ptr} {index row : Nat}
    {bundle : Bundle Value} (place : w.placeForBundle src index bundle = some (after, dst, row)) :
    after.commands = w.commands := by
  simp only [placeForBundle, Option.bind_eq_bind, Option.bind_eq_some_iff] at place
  rcases place with ⟨table, _, place⟩
  split at place
  · cases place
    rfl
  · split at place
    · simp only [Option.bind_eq_some_iff, Option.pure_def, Option.some.injEq,
        Prod.mk.injEq] at place
      rcases place with ⟨⟨_, moved, shifted⟩, move, _, _, rfl, _⟩
      have kept := commands_moveEntity move
      exact kept
    · simp only [Option.bind_eq_some_iff, Option.pure_def, Option.some.injEq,
        Prod.mk.injEq] at place
      rcases place with ⟨_, _, _, inserted, rfl, _⟩
      exact commands_insertArchetype inserted

theorem commands_setBundle [UnitTypeId] {bundle : Bundle Value} {result : WorldResult Unit}
    (set : w.setBundle id bundle = some (result, after)) : after.commands = w.commands := by
  rw [setBundle] at set
  split at set
  · cases set
    rfl
  · simp only [Option.bind_eq_bind, Option.bind_eq_some_iff, Option.pure_def,
      Option.some.injEq, Prod.mk.injEq] at set
    rcases set with ⟨⟨placed, _, _⟩, place, _, _, _, _, _, _, _, rfl⟩
    have kept := commands_placeForBundle place
    exact kept

theorem commands_placeWithout [UnitTypeId] {src dst : Ptr} {index row : Nat}
    {table : EntityTable Value} {ty : TypeId}
    (place : w.placeWithout id src index table ty = some (after, dst, row)) :
    after.commands = w.commands := by
  rw [placeWithout] at place
  split at place
  · simp only [Option.bind_eq_bind, Option.bind_eq_some_iff, Option.pure_def,
      Option.some.injEq, Prod.mk.injEq] at place
    rcases place with ⟨⟨_, moved, shifted⟩, move, _, _, _, _, rfl, _⟩
    have kept := commands_moveEntity move
    exact kept
  · simp only [Option.bind_eq_bind, Option.bind_eq_some_iff, Option.pure_def,
      Option.some.injEq, Prod.mk.injEq] at place
    rcases place with ⟨_, inserted, rfl, _⟩
    exact commands_insertArchetype inserted

theorem commands_removeComponent [UnitTypeId] {ty : TypeId} {result : WorldResult Unit}
    (removed : w.removeComponent id ty = some (result, after)) : after.commands = w.commands := by
  rw [removeComponent] at removed
  split at removed
  · cases removed
    rfl
  · simp only [Option.bind_eq_bind, Option.bind_eq_some_iff] at removed
    rcases removed with ⟨table, _, removed⟩
    split at removed
    · simp only [Option.bind_eq_some_iff, Option.pure_def, Option.some.injEq,
        Prod.mk.injEq] at removed
      rcases removed with ⟨⟨placed, _, _⟩, place, _, _, _, rfl⟩
      have kept := commands_placeWithout place
      exact kept
    · cases removed
      rfl

end Queues

section Move

variable {src dst : Ptr} {index row : Nat} {moved : Option EntityId}
  {entityIds : EntityIndex}

/-- The entity swapped into the gap is told its row, and no other place changes. -/
theorem Accounted.updateMoved (accounted : w.Accounted pending) {table : EntityTable Value}
    (found : w.tables src = some table) (owner : table.entities[index]? = some id)
    (renamed : w.entityIds.updateMoved (table.dropRow index).entities[index]? index =
      some entityIds) :
    entityIds.Accounts pending ∧ id ∈ entityIds.live ∧
      ∀ other, other ≠ id → entityIds.place other = (w.store.detach id src index).place other := by
  rcases moved_of_dropRow accounted.linked found owner with ⟨different, before⟩
  rcases accounted.index.updateMoved before renamed with ⟨accounts, places⟩
  refine ⟨accounts, ⟨(src, index), ?_⟩, ?_⟩
  · rw [places]
    exact (if_neg different).trans (place_of_entities accounted.linked found owner)
  · intro other notId
    rw [places, RowStore.place_detach, if_neg notId, keys_store_of_table found]
    rfl

theorem keys_dropRow {table : EntityTable Value} (found : w.tables src = some table) :
    (w.setTable src (table.dropRow index)).store.keys = (w.store.detach id src index).keys := by
  funext ptr
  rw [keys_store_setTable, RowStore.keys_detach, Function.update_apply, keys_store_of_table found]
  rfl

/-- The row of a live entity goes with the entity. -/
theorem Accounted.drop (accounted : w.Accounted pending) {table : EntityTable Value}
    (found : w.tables src = some table) (owner : table.entities[index]? = some id)
    {renamed : EntityIndex}
    (rename : w.entityIds.updateMoved (table.dropRow index).entities[index]? index = some renamed)
    (freed : renamed.free id = some entityIds) :
    ((w.setTable src (table.dropRow index)).setIndex entityIds).Accounted pending := by
  have placed := place_of_entities accounted.linked found owner
  rcases accounted.updateMoved found owner rename with ⟨accounts, live, places⟩
  rcases accounts.free live freed with ⟨accountsFreed, placesFreed⟩
  have placesAfter : entityIds.place = (w.store.detach id src index).place := by
    funext other
    rw [placesFreed]
    by_cases same : other = id
    · rw [same, Function.update_self, RowStore.place_detach_self]
    · rw [Function.update_of_ne same, places other same]
  exact ⟨accountsFreed,
    forall_setTable accounted.counted ((accounted.counted src table found).dropRow index),
    (accounted.linked.detach placed).congr placesAfter (keys_dropRow found)⟩

/-- The row of a live entity goes to another table. -/
theorem Accounted.move (accounted : w.Accounted pending)
    (placed : w.entityIds.place id = some (src, index))
    (move : w.moveEntity src dst index = some (row, moved, after))
    (renamed : after.entityIds.updateMoved moved index = some entityIds) :
    (after.setIndex entityIds).AccountedBut pending id (dst, row) := by
  simp only [moveEntity, Option.bind_eq_bind, Option.bind_eq_some_iff, Option.guard_eq_some',
    Option.pure_def, Option.some.injEq, Prod.mk.injEq, exists_const] at move
  rcases move with ⟨different, source, foundSource, target, foundTarget,
    ⟨_, _, dropped, grown⟩, moves, rfl, rfl, rfl⟩
  rcases EntityTable.moveEntity_listed moves with ⟨other, owner, rfl, rfl, rfl, appends⟩
  rcases owner_of_place accounted.linked placed with ⟨_, foundAgain, ownerId⟩
  cases foundSource.symm.trans foundAgain
  cases owner.symm.trans ownerId
  rcases accounted.updateMoved foundSource owner renamed with ⟨accounts, live, places⟩
  have countedTarget : target.entities.length = target.rows :=
    accounted.counted dst target foundTarget
  have absent : (w.store.detach id src index).place id = none :=
    RowStore.place_detach_self id src index
  have keysTarget : (w.store.detach id src index).keys dst = target.entities := by
    rw [RowStore.keys_detach, if_neg (Ne.symm different), keys_store_of_table foundTarget]
  have length : ((w.store.detach id src index).rows dst).length = target.rows := by
    rw [← countedTarget, ← keysTarget, RowStore.keys, List.length_map]
  let edit := (w.store.detach id src index).attach id dst fun _ => none
  have placesAfter : Function.update entityIds.place id (some (dst, target.rows)) = edit.place := by
    funext other
    rw [RowStore.place_attach, length]
    by_cases same : other = id
    · rw [same, Function.update_self, Function.update_self]
    · rw [Function.update_of_ne same, Function.update_of_ne same, places other same]
  have keysAfter : ((w.setTable src (source.dropRow index)).setTable dst grown).store.keys =
      edit.keys := by
    funext ptr
    rw [keys_store_setTable, RowStore.keys_attach, keysTarget, keys_dropRow foundSource,
      appends.entities, Function.update_apply]
  have countedSource := (accounted.counted src source foundSource).dropRow index
  exact ⟨accounts, live,
    forall_setTable (forall_setTable accounted.counted countedSource) appends.counted,
    ((accounted.linked.detach placed).attach absent dst fun _ => none).congr placesAfter
      keysAfter⟩

/-- The row goes to a table that is boxed for it. -/
theorem Accounted.insertArchetype (accounted : w.Accounted pending)
    (fresh : w.tables w.nextTable = none) (placed : w.entityIds.place id = some (src, index))
    {table : EntityTable Value} (blank : table.Blank)
    (inserted : w.insertArchetype src index table = some (dst, after)) :
    after.AccountedBut pending id (dst, 0) := by
  simp only [World.insertArchetype, Option.bind_eq_bind, Option.bind_eq_some_iff,
    Option.guard_eq_some', Option.pure_def, Option.some.injEq, Prod.mk.injEq,
    exists_and_left, exists_const] at inserted
  rcases inserted with ⟨⟨_, moved, shifted⟩, move, rfl, absent, renamed, rename, rfl, rfl⟩
  have boxed := accounted.allocateTable fresh blank
  have sameTables : (shifted.insertArchetypes table.ty w.nextTable).tables = shifted.tables := by
    simp [insertArchetypes, absent, dropTable]
  exact (boxed.move placed move rename).congr rfl sameTables

end Move

section Components

variable [UnitTypeId] {src dst : Ptr} {index row : Nat} {result : WorldResult Unit}

theorem Accounted.placeForBundle (accounted : w.Accounted pending)
    (fresh : w.tables w.nextTable = none) (placed : w.entityIds.place id = some (src, index))
    {bundle : Bundle Value}
    (place : w.placeForBundle src index bundle = some (after, dst, row)) :
    after.AccountedBut pending id (dst, row) := by
  simp only [World.placeForBundle, Option.bind_eq_bind, Option.bind_eq_some_iff] at place
  rcases place with ⟨table, _, place⟩
  split at place
  · cases place
    exact accounted.stay placed
  · split at place
    · simp only [Option.bind_eq_some_iff, Option.pure_def, Option.some.injEq,
        Prod.mk.injEq] at place
      rcases place with ⟨⟨_, moved, shifted⟩, move, renamed, rename, rfl, rfl, rfl⟩
      exact accounted.move placed move rename
    · simp only [Option.bind_eq_some_iff, Option.pure_def, Option.some.injEq,
        Prod.mk.injEq] at place
      rcases place with ⟨_, _, ⟨ptr, inserted⟩, insertion, rfl, rfl, rfl⟩
      exact accounted.insertArchetype fresh placed (EntityTable.blank_extend bundle table) insertion

theorem Accounted.setBundle (accounted : w.Accounted pending)
    (fresh : w.tables w.nextTable = none) {bundle : Bundle Value}
    (set : w.setBundle id bundle = some (result, after)) : after.Accounted pending := by
  rw [World.setBundle] at set
  cases outcome : w.entityIds.read id with
  | error error =>
      simp only [outcome, Option.some.injEq, Prod.mk.injEq] at set
      exact set.2 ▸ accounted
  | ok spot =>
      simp only [outcome, Option.bind_eq_bind, Option.bind_eq_some_iff, Option.pure_def,
        Option.some.injEq, Prod.mk.injEq] at set
      rcases set with ⟨⟨placed, ptr, row⟩, place, table, found, written, inserted, entityIds,
        updated, _, rfl⟩
      have moved := accounted.placeForBundle fresh (EntityIndex.place_of_read outcome) place
      exact (moved.write found (EntityTable.insertInto_listed inserted)).update updated

theorem Accounted.placeWithout (accounted : w.Accounted pending)
    (fresh : w.tables w.nextTable = none) (placed : w.entityIds.place id = some (src, index))
    {table : EntityTable Value} {ty : TypeId}
    (place : w.placeWithout id src index table ty = some (after, dst, row)) :
    after.AccountedBut pending id (dst, row) := by
  rw [World.placeWithout] at place
  split at place
  · simp only [Option.bind_eq_bind, Option.bind_eq_some_iff, Option.pure_def,
      Option.some.injEq, Prod.mk.injEq] at place
    rcases place with ⟨⟨_, moved, shifted⟩, move, _, _, renamed, rename, rfl, rfl, rfl⟩
    exact accounted.move placed move rename
  · simp only [Option.bind_eq_bind, Option.bind_eq_some_iff, Option.pure_def,
      Option.some.injEq, Prod.mk.injEq] at place
    rcases place with ⟨⟨ptr, inserted⟩, insertion, rfl, rfl, rfl⟩
    exact accounted.insertArchetype fresh placed (EntityTable.blank_reduce table ty) insertion

theorem Accounted.removeComponent (accounted : w.Accounted pending)
    (fresh : w.tables w.nextTable = none) {ty : TypeId}
    (removed : w.removeComponent id ty = some (result, after)) : after.Accounted pending := by
  rw [World.removeComponent] at removed
  cases outcome : w.entityIds.read id with
  | error error =>
      simp only [outcome, Option.some.injEq, Prod.mk.injEq] at removed
      exact removed.2 ▸ accounted
  | ok spot =>
      simp only [outcome, Option.bind_eq_bind, Option.bind_eq_some_iff] at removed
      rcases removed with ⟨table, _, removed⟩
      split at removed
      · simp only [Option.bind_eq_some_iff, Option.pure_def, Option.some.injEq,
          Prod.mk.injEq] at removed
        rcases removed with ⟨⟨placed, ptr, row⟩, place, entityIds, updated, _, rfl⟩
        have moved := accounted.placeWithout fresh (EntityIndex.place_of_read outcome) place
        exact moved.update updated
      · cases removed
        exact accounted

end Components

section Lifecycle

variable {result : WorldResult Unit}

theorem Accounted.deleteEntity (accounted : w.Accounted pending)
    (deleted : w.deleteEntity id = some (result, after)) :
    after.Accounted pending ∧ after.commands = w.commands := by
  rw [World.deleteEntity] at deleted
  cases outcome : w.entityIds.read id with
  | error error =>
      simp only [outcome, Option.some.injEq, Prod.mk.injEq] at deleted
      rcases deleted with ⟨_, rfl⟩
      exact ⟨accounted, rfl⟩
  | ok spot =>
      simp only [outcome, Option.bind_eq_bind, Option.bind_eq_some_iff, Option.pure_def,
        Option.some.injEq, Prod.mk.injEq] at deleted
      rcases deleted with ⟨table, found, ⟨moved, dropped⟩, removed, _, _, renamed, rename, freed,
        free, _, rfl⟩
      rcases owner_of_place accounted.linked (EntityIndex.place_of_read outcome) with
        ⟨_, foundAgain, owner⟩
      cases found.symm.trans foundAgain
      rcases EntityTable.remove_listed (accounted.counted _ table found) removed with ⟨rfl, rfl⟩
      exact ⟨accounted.drop found owner rename free, rfl⟩

theorem Accounted.reserveEntities (accounted : w.Accounted pending) {additional : Nat}
    (reserved : w.reserveEntities additional = some after) :
    after.Accounted pending ∧ after.commands = w.commands := by
  simp only [World.reserveEntities, Option.bind_eq_bind, Option.bind_eq_some_iff,
    Option.pure_def, Option.some.injEq] at reserved
  rcases reserved with ⟨entityIds, grown, rfl⟩
  rcases accounted.index.reserve grown with ⟨index, places⟩
  exact ⟨accounted.setIndex index places, rfl⟩

variable [UnitTypeId] [BuiltinValues Value]

/-- An id that waits for its row gets one in the void table. -/
theorem Accounted.initId (accounted : w.Accounted pending) (member : id ∈ pending)
    (init : w.initId id = some after) :
    after.Accounted (pending \ {id}) ∧ after.commands = w.commands := by
  rcases initId_eq_some_iff.mp init with ⟨ptr, table, row, grown, written, entityIds, owner,
    found, insertion, set, updated, rfl⟩
  rcases EntityTable.insertEntity_listed insertion with ⟨rfl, appends⟩
  have listed := appends.sameList (EntityTable.setComponent_listed set)
  have counted : table.entities.length = table.rows := accounted.counted ptr table found
  have absent := EntityIndex.not_mem_live.mp (accounted.index.waits id member)
  have placesAfter : entityIds.place = (w.store.attach id ptr fun _ => none).place := by
    rw [accounted.index.update_place (Or.inl member) updated, RowStore.place_attach,
      rows_store_of_table found, EntityTable.length_rowList, counted]
    rfl
  have keysAfter : (w.setTable ptr written).store.keys =
      (w.store.attach id ptr fun _ => none).keys := by
    funext other
    rw [keys_store_setTable, RowStore.keys_attach, keys_store_of_table found, listed.entities,
      Function.update_apply]
  exact ⟨⟨accounted.index.place_pending member updated,
    forall_setTable accounted.counted listed.counted,
    (accounted.linked.attach absent ptr fun _ => none).congr placesAfter keysAfter⟩, rfl⟩

/-- An id is handed out and gets its row at once. -/
theorem Accounted.initHanded (accounted : w.Accounted pending) {entityIds : EntityIndex}
    (index : entityIds.Accounts (insert id pending)) (fresh : id ∉ pending)
    (places : entityIds.place = w.entityIds.place)
    (init : (w.setIndex entityIds).initId id = some after) :
    after.Accounted pending ∧ after.commands = w.commands := by
  have initialized := (accounted.setIndex index places).initId (Set.mem_insert id pending) init
  rw [Set.insert_sdiff_self_of_notMem fresh] at initialized
  exact initialized

theorem Accounted.insertEntity (accounted : w.Accounted pending)
    (inserted : w.insertEntity = some (id, after)) :
    after.Accounted pending ∧ after.commands = w.commands := by
  simp only [World.insertEntity, Option.bind_eq_bind, Option.bind_eq_some_iff, Option.pure_def,
    Option.some.injEq, Prod.mk.injEq] at inserted
  rcases inserted with ⟨⟨handed, entityIds⟩, allocated, _, init, rfl, rfl⟩
  rcases accounted.index.allocateWithResize allocated with ⟨index, fresh, places⟩
  exact accounted.initHanded index fresh places init

theorem Accounted.insertId (accounted : w.Accounted pending) {outcome : Except InsertError Unit}
    (inserted : w.insertId id = some (outcome, after)) :
    after.Accounted pending ∧ after.commands = w.commands := by
  rcases insertId_eq_some_iff.mp inserted with ⟨entityIds, insertion, rest⟩
  rcases accounted.index.insertId insertion with
    ⟨places, ⟨rfl, index, fresh⟩ | ⟨⟨error, rfl⟩, rfl⟩⟩
  · exact accounted.initHanded index fresh places rest
  · cases rest
    exact ⟨accounted.setIndex accounted.index rfl, rfl⟩

end Lifecycle

section Merge

variable {lhs rhs : EntityId} {lhsArch rhsArch : Ptr} {lhsIndex rhsIndex : Nat}
  {result : WorldResult Unit}

theorem Accounted.mergeIntoRhs (accounted : w.Accounted pending)
    (placed : w.entityIds.place lhs = some (lhsArch, lhsIndex)) (different : lhsArch ≠ rhsArch)
    (merged : w.mergeIntoRhs lhs lhsArch lhsIndex rhsArch rhsIndex = some (result, after)) :
    after.Accounted pending ∧ after.commands = w.commands := by
  simp only [World.mergeIntoRhs, Option.bind_eq_bind, Option.bind_eq_some_iff, Option.pure_def,
    Option.some.injEq, Prod.mk.injEq] at merged
  rcases merged with ⟨source, found, target, foundTarget, ⟨moved, dropped, written⟩, move,
    renamed, rename, freed, free, _, rfl⟩
  rcases owner_of_place accounted.linked placed with ⟨_, foundAgain, owner⟩
  cases found.symm.trans foundAgain
  rcases EntityTable.moveEntityInto_listed (accounted.counted _ source found) move with
    ⟨rfl, rfl, same⟩
  have foundNext : (w.setTable lhsArch (source.dropRow lhsIndex)).tables rhsArch = some target := by
    rw [tables_setTable, Function.update_of_ne (Ne.symm different), foundTarget]
  exact ⟨(accounted.drop found owner rename free).write foundNext same, rfl⟩

theorem Accounted.mergeIntoLhs (accounted : w.Accounted pending) (notSame : lhs ≠ rhs)
    (placedLhs : w.entityIds.place lhs = some (lhsArch, lhsIndex))
    (placedRhs : w.entityIds.place rhs = some (rhsArch, rhsIndex)) (different : lhsArch ≠ rhsArch)
    (merged : w.mergeIntoLhs lhs rhs lhsArch lhsIndex rhsArch rhsIndex = some (result, after)) :
    after.Accounted pending ∧ after.commands = w.commands := by
  simp only [World.mergeIntoLhs, Option.bind_eq_bind, Option.bind_eq_some_iff, Option.pure_def,
    Option.some.injEq, Prod.mk.injEq] at merged
  rcases merged with ⟨left, foundLhs, right, foundRhs, ⟨moved, dropped⟩, removed, renamed, rename,
    _, _, updated, update, freed, free, _, rfl⟩
  rcases owner_of_place accounted.linked placedRhs with ⟨_, foundAgain, ownerRhs⟩
  cases foundRhs.symm.trans foundAgain
  have countedRhs := accounted.counted _ right foundRhs
  rcases EntityTable.remove_listed countedRhs removed with ⟨rfl, rfl⟩
  rcases accounted.updateMoved foundRhs ownerRhs rename with ⟨accounts, live, places⟩
  have linkedDetached := accounted.linked.detach placedRhs
  have absent : (w.store.detach rhs rhsArch rhsIndex).place rhs = none :=
    RowStore.place_detach_self rhs rhsArch rhsIndex
  have keysLeft : (w.store.detach rhs rhsArch rhsIndex).keys lhsArch = left.entities := by
    rw [RowStore.keys_detach, if_neg different, keys_store_of_table foundLhs]
  have stillPlaced :
      (w.store.detach rhs rhsArch rhsIndex).place lhs = some (lhsArch, lhsIndex) := by
    apply (linkedDetached lhs lhsArch lhsIndex).mpr
    rw [keysLeft, ← keys_store_of_table foundLhs]
    exact (accounted.linked lhs lhsArch lhsIndex).mp placedLhs
  -- `lhs` keeps its place until it is freed.
  have liveLhs : lhs ∈ updated.live := by
    refine ⟨(lhsArch, lhsIndex), ?_⟩
    rw [accounts.update_place (Or.inr live) update, Function.update_of_ne notSame,
      places lhs notSame, stillPlaced]
  rcases (accounts.update live update).free liveLhs free with ⟨accountsFreed, placesFreed⟩
  let edit := (w.store.detach rhs rhsArch rhsIndex).handOver lhs rhs lhsArch lhsIndex fun _ => none
  have placesAfter : freed.place = edit.place := by
    funext other
    rw [placesFreed, accounts.update_place (Or.inr live) update]
    simp only [edit, RowStore.handOver]
    by_cases isLhs : other = lhs
    · subst isLhs
      rw [Function.update_self, Function.update_of_ne notSame, Function.update_self]
    · rw [Function.update_of_ne isLhs]
      by_cases isRhs : other = rhs
      · subst isRhs
        rw [Function.update_self, Function.update_self]
      · rw [Function.update_of_ne isRhs, Function.update_of_ne isRhs, Function.update_of_ne isLhs,
          places other isRhs]
  let heir : EntityTable Value := { left with entities := left.entities.set lhsIndex rhs }
  have keysAfter : ((w.setTable rhsArch (right.dropRow rhsIndex)).setTable lhsArch
      heir).store.keys = edit.keys := by
    funext ptr
    rw [keys_store_setTable, RowStore.keys_handOver, keysLeft, keys_dropRow foundRhs,
      Function.update_apply]
  have countedHeir : heir.Counted := by
    have counted : left.entities.length = left.rows := accounted.counted lhsArch left foundLhs
    change (left.entities.set lhsIndex rhs).length = left.rows
    rw [List.length_set, counted]
  exact ⟨⟨accountsFreed, forall_setTable
    (forall_setTable accounted.counted (countedRhs.dropRow rhsIndex)) countedHeir,
    (linkedDetached.handOver stillPlaced absent fun _ => none).congr placesAfter keysAfter⟩, rfl⟩

/-- The table that a merge looks up is there, or made without rows. -/
theorem Accounted.entryOrInsert (accounted : w.Accounted pending)
    (fresh : w.tables w.nextTable = none) {key : TypeHash} {table : EntityTable Value}
    (blank : table.Blank) {ptr : Ptr} (entered : w.entryOrInsert key table = (ptr, after)) :
    after.Accounted pending ∧ after.entityIds = w.entityIds ∧ after.commands = w.commands ∧
      ∀ other found, w.tables other = some found → after.tables other = some found := by
  rw [World.entryOrInsert] at entered
  split at entered
  · cases entered
    exact ⟨accounted, rfl, rfl, fun _ _ found => found⟩
  · rename_i absent
    cases entered
    have sameTables : ((w.allocateTable table).2.insertArchetypes key w.nextTable).tables =
        (w.allocateTable table).2.tables := by
      simp [insertArchetypes, World.allocateTable, setTable, absent, dropTable]
    refine ⟨(accounted.allocateTable fresh blank).congr rfl sameTables, rfl, rfl, ?_⟩
    intro other found foundOther
    have notNew : other ≠ w.nextTable := by
      rintro rfl
      rw [fresh] at foundOther
      cases foundOther
    refine (congrFun sameTables other).trans ?_
    exact (Function.update_of_ne notNew ..).trans foundOther

theorem Accounted.mergeIntoThird [UnitTypeId] (accounted : w.Accounted pending)
    (fresh : w.tables w.nextTable = none) (notSame : lhs ≠ rhs)
    (placedLhs : w.entityIds.place lhs = some (lhsArch, lhsIndex))
    (placedRhs : w.entityIds.place rhs = some (rhsArch, rhsIndex)) (different : lhsArch ≠ rhsArch)
    {dstHash : TypeHash}
    (merged : w.mergeIntoThird lhs rhs lhsArch lhsIndex rhsArch rhsIndex dstHash =
      some (result, after)) : after.Accounted pending ∧ after.commands = w.commands := by
  simp only [World.mergeIntoThird, Option.bind_eq_bind, Option.bind_eq_some_iff] at merged
  rcases merged with ⟨left, foundLhs, right, _, merged⟩
  rcases entered : w.entryOrInsert dstHash (right.merged left) with ⟨dst, base⟩
  rcases accounted.entryOrInsert fresh (EntityTable.blank_merged right left) entered with
    ⟨accountedBase, sameIndex, sameCommands, kept⟩
  simp only [entered, Option.pure_def, Option.some.injEq, Prod.mk.injEq, Option.guard_eq_some',
    exists_and_left, exists_const] at merged
  rcases merged with ⟨⟨row, movedRhs, shifted⟩, move, renamed, rename, notDst, target,
    foundTarget, ⟨dropped, written⟩, merging, movedLhs, moves, again, renameAgain, updated, update,
    freed, free, _, rfl⟩
  rcases EntityTable.mergeInto_listed merging with ⟨rfl, same⟩
  have countedLhs := accounted.counted _ left foundLhs
  rw [(countedLhs.dropRow lhsIndex).movedInto lhsIndex, Option.some.injEq] at moves
  subst moves
  rcases owner_of_place accounted.linked placedLhs with ⟨_, foundAgain, owner⟩
  cases foundLhs.symm.trans foundAgain
  -- The entity moved for `lhs` is another one than `rhs`, so `rhs` may be told first.
  have otherSlot : ∀ other, (left.dropRow lhsIndex).entities[lhsIndex]? = some other →
      other.index ≠ rhs.index := by
    intro other moved
    rcases (moved_of_dropRow accounted.linked foundLhs owner).2 other moved with ⟨before, placed⟩
    apply index_ne_of_live _ (EntityIndex.read_of_place placed)
      (EntityIndex.read_of_place placedRhs)
    rintro rfl
    rw [placed, Option.some.injEq, Prod.mk.injEq] at placedRhs
    exact different placedRhs.1
  rcases (EntityIndex.update_updateMoved_iff otherSlot).mpr ⟨_, renameAgain, update⟩ with
    ⟨told, updateFirst, renameSecond⟩
  rw [← sameIndex] at placedRhs
  have shiftedTold := (accountedBase.move placedRhs move rename).update updateFirst
  have foundShifted : shifted.tables lhsArch = some left := by
    rw [tables_moveEntity_of_ne move different notDst, kept lhsArch left foundLhs]
  have foundNext : (shifted.setTable lhsArch (left.dropRow lhsIndex)).tables dst = some target := by
    rw [tables_setTable, Function.update_of_ne (Ne.symm notDst), foundTarget]
  exact ⟨(shiftedTold.drop foundShifted owner renameSecond free).write foundNext same,
    (commands_moveEntity move).trans sameCommands⟩

variable [UnitTypeId]

/-- The tables of the two entities have different types, or there is nothing to merge. -/
def mergeApart (w : World Value) (lhs rhs : EntityId) : Bool :=
  lhs == rhs || match w.entityTable lhs, w.entityTable rhs with
    | some left, some right => left.ty != right.ty
    | _, _ => true

theorem Accounted.mergeEntities (accounted : w.Accounted pending)
    (fresh : w.tables w.nextTable = none) (apart : w.mergeApart lhs rhs = true)
    (merged : w.mergeEntities lhs rhs = some (result, after)) :
    after.Accounted pending ∧ after.commands = w.commands := by
  rw [World.mergeEntities] at merged
  split at merged
  · cases merged
    exact ⟨accounted, rfl⟩
  · rename_i notSame
    split at merged
    · rename_i lhsArch lhsIndex rhsArch rhsIndex liveLhs liveRhs
      have placedLhs := EntityIndex.place_of_read liveLhs
      have placedRhs := EntityIndex.place_of_read liveRhs
      simp only [Option.bind_eq_bind, Option.bind_eq_some_iff] at merged
      rcases merged with ⟨left, foundLhs, right, foundRhs, merged⟩
      have otherTy : left.ty ≠ right.ty := by
        simpa [mergeApart, notSame, entityTable, liveLhs, liveRhs, foundLhs, foundRhs] using apart
      have different : lhsArch ≠ rhsArch := by
        rintro rfl
        rw [foundLhs, Option.some.injEq] at foundRhs
        exact otherTy (congrArg _ foundRhs)
      rw [if_neg otherTy] at merged
      split at merged
      · exact accounted.mergeIntoRhs placedLhs different merged
      · split at merged
        · exact accounted.mergeIntoLhs notSame placedLhs placedRhs different merged
        · exact accounted.mergeIntoThird fresh notSame placedLhs placedRhs different merged
    · cases merged
      exact ⟨accounted, rfl⟩

end Merge

end World

end Cecs

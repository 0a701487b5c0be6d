import Cecs.Foundation.Stages
import Cecs.World.Accounted
import Cecs.World.Clone

/-! # The order of rows

Setting components moves one entity: its row leaves the table with the hash of its columns, where
the last row takes its place, and it gets the last row of the table with the hash of its new
columns. -/

namespace Cecs

open Foundation

namespace World

variable {Value : Type} {w after : World Value} {id : EntityId}

/-- The rows of the table that queries walk under a hash. -/
def walkedRows (w : World Value) (key : TypeHash) : List EntityId :=
  (w.archetypes[key]?.map w.store.keys).getD []

theorem walkedRows_of_owner {key : TypeHash} {ptr : Ptr} (owner : w.archetypes[key]? = some ptr) :
    w.walkedRows key = w.store.keys ptr := by
  rw [walkedRows, owner]
  rfl

theorem walkedRows_of_absent {key : TypeHash} (absent : w.archetypes[key]? = none) :
    w.walkedRows key = [] := by
  rw [walkedRows, absent]
  rfl

theorem walkedRows_congr (archetypes : after.archetypes = w.archetypes)
    (keys : after.store.keys = w.store.keys) : after.walkedRows = w.walkedRows := by
  funext key
  rw [walkedRows, walkedRows, archetypes, keys]

theorem place_of_mem_walkedRows (linked : w.store.Linked) {key : TypeHash}
    (member : id ∈ w.walkedRows key) :
    ∃ ptr index, w.archetypes[key]? = some ptr ∧ w.entityIds.place id = some (ptr, index) := by
  cases owner : w.archetypes[key]? with
  | none =>
      rw [walkedRows_of_absent owner] at member
      cases member
  | some ptr =>
      rw [walkedRows_of_owner owner] at member
      rcases List.mem_iff_getElem?.mp member with ⟨index, listed⟩
      exact ⟨ptr, index, rfl, (linked id ptr index).mpr listed⟩

/-- No box is in `archetypes` twice. -/
def Boxes (w : World Value) : Prop :=
  ∀ (key other : TypeHash) (ptr : Ptr), w.archetypes[key]? = some ptr →
    w.archetypes[other]? = some ptr → key = other

theorem Owned.boxes (owned : w.Owned) : w.Boxes := by
  intro key other ptr atKey atOther
  rcases owned.archetypes key ptr atKey with ⟨table, found, rfl⟩
  rcases owned.archetypes other ptr atOther with ⟨same, foundSame, rfl⟩
  cases found.symm.trans foundSame
  rfl

/-- Queries walk the tables in the order of their hashes. -/
theorem listedIds_eq (w : World Value) :
    w.listedIds = w.archetypes.keys.flatMap w.walkedRows := by
  rw [listedIds, walked, ← Std.ExtTreeMap.map_fst_toList_eq_keys, List.flatMap_map,
    List.filterMap_eq_flatMap_toList, List.flatMap_assoc]
  apply List.flatMap_congr
  rintro ⟨key, ptr⟩ member
  rw [walkedRows_of_owner (BTreeMap.mem_toList.mp member)]
  cases found : w.tables ptr with
  | none => simp [found, RowStore.keys, store]
  | some table => simp [keys_store_of_table found]

theorem nodup_listedIds (boxes : w.Boxes) (linked : w.store.Linked) : w.listedIds.Nodup := by
  rw [listedIds_eq, List.nodup_flatMap]
  constructor
  · intro key _
    rw [walkedRows]
    cases w.archetypes[key]? with
    | none => exact List.nodup_nil
    | some ptr => exact linked.keys_nodup ptr
  · refine Std.ExtTreeMap.nodup_keys.imp ?_
    intro key other different id here there
    rcases place_of_mem_walkedRows linked here with ⟨ptr, index, owner, placed⟩
    rcases place_of_mem_walkedRows linked there with ⟨_, _, ownerOther, placedOther⟩
    cases placed.symm.trans placedOther
    exact different (boxes key other ptr owner ownerOther)

theorem keys_store_congr (tables : after.tables = w.tables) :
    after.store.keys = w.store.keys := by
  funext ptr
  simp only [RowStore.keys, store, tables]

/-- The row of an entity in one table and its new row in another. -/
def movedKeys (w : World Value) (id : EntityId) (src dst : Ptr) (index : Nat) :
    Ptr → List EntityId :=
  Function.update (Function.update w.store.keys src (swapRemove (w.store.keys src) index)) dst
    (w.store.keys dst ++ [id])

section Move

variable {src dst : Ptr} {index row : Nat} {moved : Option EntityId}

theorem moveEntity_keys (placed : (w.store.keys src)[index]? = some id)
    (move : w.moveEntity src dst index = some (row, moved, after)) :
    src ≠ dst ∧ after.archetypes = w.archetypes ∧
      after.store.keys = w.movedKeys id src dst index := by
  simp only [moveEntity, Option.bind_eq_bind, Option.bind_eq_some_iff, Option.guard_eq_some',
    Option.pure_def, Option.some.injEq, Prod.mk.injEq, exists_const] at move
  rcases move with ⟨different, source, foundSource, target, foundTarget,
    ⟨_, _, dropped, grown⟩, moves, rfl, rfl, rfl⟩
  rcases EntityTable.moveEntity_listed moves with ⟨other, owner, rfl, rfl, rfl, appends⟩
  rw [keys_store_of_table foundSource, owner, Option.some.injEq] at placed
  subst placed
  refine ⟨different, rfl, ?_⟩
  rw [keys_store_setTable, keys_store_setTable, appends.entities, movedKeys,
    keys_store_of_table foundSource, keys_store_of_table foundTarget]
  rfl

/-- The table that is boxed for the row had no key before. -/
theorem insertArchetype_keys (owned : w.Owned) (placed : (w.store.keys src)[index]? = some id)
    {table : EntityTable Value} (blank : table.Blank)
    (inserted : w.insertArchetype src index table = some (dst, after)) :
    src ≠ dst ∧ (∀ key : TypeHash, w.archetypes[key]? ≠ some dst) ∧ w.store.keys dst = [] ∧
      after.archetypes = w.archetypes.insert table.ty dst ∧
      after.store.keys = w.movedKeys id src dst index := by
  simp only [World.insertArchetype, Option.bind_eq_bind, Option.bind_eq_some_iff,
    Option.guard_eq_some', Option.pure_def, Option.some.injEq, Prod.mk.injEq,
    exists_and_left, exists_const] at inserted
  rcases inserted with ⟨⟨_, moved, shifted⟩, move, rfl, absent, renamed, rename, rfl, rfl⟩
  have unused := owned.tables_nextTable
  have none : w.store.keys w.nextTable = [] := by simp [RowStore.keys, store, unused]
  have boxed : (w.allocateTable table).2.store.keys = w.store.keys := by
    have entities : table.entities = [] := blank.entities
    rw [allocateTable]
    change (w.setTable w.nextTable table).store.keys = w.store.keys
    rw [keys_store_setTable, entities, ← none, Function.update_eq_self]
  rcases moveEntity_keys (boxed ▸ placed) move with ⟨different, archetypes, keys⟩
  have sameTables : (shifted.insertArchetypes table.ty w.nextTable).tables = shifted.tables := by
    simp [insertArchetypes, absent, dropTable]
  refine ⟨different, ?_, none, ?_, ?_⟩
  · intro key owner
    rcases owned.archetypes key _ owner with ⟨other, found, _⟩
    cases unused.symm.trans found
  · change shifted.archetypes.insert table.ty w.nextTable = _
    rw [archetypes]
    rfl
  · rw [movedKeys, boxed] at keys
    exact (keys_store_congr sameTables).trans keys

end Move

section Bundles

variable [UnitTypeId] {src dst : Ptr} {index row : Nat}

/-- Where `placeForBundle` puts the row. -/
theorem placeForBundle_keys (owned : w.Owned) (placed : (w.store.keys src)[index]? = some id)
    {table : EntityTable Value} (found : w.tables src = some table) {bundle : Bundle Value}
    (place : w.placeForBundle src index bundle = some (after, dst, row)) :
    (bundle.canInsert table = true ∧ after.archetypes = w.archetypes ∧
        after.store.keys = w.store.keys) ∨
      bundle.canInsert table = false ∧ src ≠ dst ∧
        after.store.keys = w.movedKeys id src dst index ∧
        (w.getArchetypeByKey (bundle.computeHashFromTable table) = some dst ∧
            after.archetypes = w.archetypes ∨
          w.getArchetypeByKey (bundle.computeHashFromTable table) = none ∧
            (∀ key : TypeHash, w.archetypes[key]? ≠ some dst) ∧ w.store.keys dst = [] ∧
            after.archetypes = w.archetypes.insert (bundle.computeHashFromTable table) dst) := by
  simp only [World.placeForBundle, found, Option.bind_eq_bind, Option.bind_some] at place
  split at place
  · rename_i fits
    cases place
    exact Or.inl ⟨fits, rfl, rfl⟩
  · rename_i lacks
    have grows : bundle.canInsert table = false := Bool.eq_false_of_not_eq_true lacks
    split at place
    · rename_i lookup
      simp only [Option.bind_eq_some_iff, Option.pure_def, Option.some.injEq,
        Prod.mk.injEq] at place
      rcases place with ⟨⟨_, moved, shifted⟩, move, renamed, rename, rfl, rfl, rfl⟩
      rcases moveEntity_keys placed move with ⟨different, archetypes, keys⟩
      exact Or.inr ⟨grows, different, keys, Or.inl ⟨lookup, archetypes⟩⟩
    · rename_i lookup
      simp only [Option.bind_eq_some_iff, Option.pure_def, Option.some.injEq,
        Prod.mk.injEq, Option.guard_eq_some', exists_and_left, exists_const] at place
      rcases place with ⟨hash, ⟨ptr, inserted⟩, insertion, rfl, rfl, rfl⟩
      rcases insertArchetype_keys owned placed (EntityTable.blank_extend bundle table)
        insertion with ⟨different, fresh, none, archetypes, keys⟩
      exact Or.inr ⟨grows, different, keys, Or.inr ⟨lookup, fresh, none, hash ▸ archetypes⟩⟩

omit [UnitTypeId] in
/-- The moved row, seen from the keys. -/
theorem walkedRows_moved (boxes : w.Boxes) (linked : w.store.Linked)
    (listed : (w.store.keys src)[index]? = some id) {key hash : TypeHash}
    (owner : w.archetypes[key]? = some src) (different : src ≠ dst)
    (keys : after.store.keys = w.movedKeys id src dst index)
    (target : w.archetypes[hash]? = some dst ∧ after.archetypes = w.archetypes ∨
      w.archetypes[hash]? = none ∧ (∀ key : TypeHash, w.archetypes[key]? ≠ some dst) ∧
        w.store.keys dst = [] ∧ after.archetypes = w.archetypes.insert hash dst) :
    after.walkedRows = transfer w.walkedRows (some key) hash id := by
  have swapped : swapOut (w.store.keys src) id = swapRemove (w.store.keys src) index := by
    rw [swapOut]
    congr 1
    rcases List.getElem?_eq_some_iff.mp listed with ⟨inRange, rfl⟩
    exact (linked.keys_nodup src).idxOf_getElem index inRange
  have atDst : after.archetypes[hash]? = some dst := by
    rcases target with ⟨found, same⟩ | ⟨_, _, _, inserted⟩
    · rw [same, found]
    · rw [inserted, BTreeMap.getElem?_insert, if_pos rfl]
  have elsewhere : ∀ other : TypeHash, other ≠ hash →
      after.archetypes[other]? = w.archetypes[other]? ∧ w.archetypes[other]? ≠ some dst := by
    intro other notHash
    rcases target with ⟨found, same⟩ | ⟨_, fresh, _, inserted⟩
    · exact ⟨by rw [same], fun again => notHash (boxes other hash dst again found)⟩
    · exact ⟨by rw [inserted, BTreeMap.getElem?_insert, if_neg (Ne.symm notHash)], fresh other⟩
  have rowsDst : w.walkedRows hash = w.store.keys dst := by
    rcases target with ⟨found, _⟩ | ⟨absent, _, none, _⟩
    · exact walkedRows_of_owner found
    · rw [walkedRows_of_absent absent, none]
  have notHash : key ≠ hash := by
    intro same
    subst same
    rcases target with ⟨found, _⟩ | ⟨absent, _⟩
    · exact different (Option.some.inj (owner.symm.trans found))
    · rw [absent] at owner
      cases owner
  funext other
  rw [transfer, if_neg (by simpa using notHash)]
  by_cases isHash : other = hash
  · subst isHash
    rw [if_neg (by simpa using notHash), if_pos rfl, walkedRows_of_owner atDst, keys, movedKeys,
      Function.update_self, rowsDst]
  · rcases elsewhere other isHash with ⟨same, notDst⟩
    rw [if_neg (Ne.symm isHash)]
    cases found : w.archetypes[other]? with
    | none =>
        have notKey : key ≠ other := by
          intro isKey
          rw [← isKey, owner] at found
          cases found
        rw [if_neg (by simpa using notKey), walkedRows_of_absent (same.trans found),
          walkedRows_of_absent found]
    | some ptr =>
        have ptrNotDst : ptr ≠ dst := by
          intro isDst
          rw [isDst] at found
          exact notDst found
        rw [walkedRows_of_owner (same.trans found), walkedRows_of_owner found, keys, movedKeys,
          Function.update_of_ne ptrNotDst]
        by_cases isSrc : ptr = src
        · subst isSrc
          rw [if_pos (congrArg some (boxes key other ptr owner found)), Function.update_self,
            swapped]
        · have notKey : key ≠ other := by
            intro isKey
            rw [← isKey, owner, Option.some.injEq] at found
            exact isSrc found.symm
          rw [if_neg (by simpa using notKey), Function.update_of_ne isSrc]

/-- A bundle is set on a live entity: its row goes to the table of the computed hash. -/
theorem setBundle_walkedRows (owned : w.Owned) (linked : w.store.Linked)
    (unparked : ∀ key : TypeHash, w.archetypesStaging[key]? = none)
    (outcome : w.entityIds.read id = .ok (src, index)) {table : EntityTable Value}
    (found : w.tables src = some table) {bundle : Bundle Value} {result : WorldResult Unit}
    (set : w.setBundle id bundle = some (result, after)) :
    after.walkedRows = transfer w.walkedRows (some table.ty)
      (if bundle.canInsert table then table.ty else bundle.computeHashFromTable table) id := by
  simp only [World.setBundle, outcome, Option.bind_eq_bind, Option.bind_eq_some_iff,
    Option.pure_def, Option.some.injEq, Prod.mk.injEq] at set
  rcases set with ⟨⟨placed, ptr, row⟩, place, target, foundTarget, written, inserted, entityIds,
    updated, _, rfl⟩
  have listed := (linked id src index).mp (EntityIndex.place_of_read outcome)
  have keysAfter : ((placed.setTable ptr written).setIndex entityIds).store.keys =
      placed.store.keys :=
    keys_store_setTable_sameList foundTarget (EntityTable.insertInto_listed inserted)
  have archetypesAfter : ((placed.setTable ptr written).setIndex entityIds).archetypes =
      placed.archetypes := rfl
  rw [walkedRows_congr archetypesAfter keysAfter]
  -- Where nothing is parked, lookups by hash find walked tables.
  have owner : w.archetypes[table.ty]? = some src := by
    rcases owned.owner src table found with inArchetypes | inStaging
    · exact inArchetypes
    · rw [unparked] at inStaging
      cases inStaging
  have lookup : ∀ key : TypeHash, w.getArchetypeByKey key = w.archetypes[key]? := by
    intro key
    rw [getArchetypeByKey, unparked, Option.or_none]
  rcases placeForBundle_keys owned listed found place with
    ⟨fits, archetypes, keys⟩ | ⟨grows, different, keys, target⟩
  · rw [if_pos fits, walkedRows_congr archetypes keys]
    funext key
    rw [transfer, if_pos rfl]
  · rw [grows, if_neg Bool.false_ne_true]
    rw [lookup] at target
    exact walkedRows_moved owned.boxes linked listed owner different keys target

section Lifecycle

variable [BuiltinValues Value]

/-- A new entity gets the last row of the void table. -/
theorem initId_walkedRows (boxes : w.Boxes) (init : w.initId id = some after) :
    after.walkedRows = transfer w.walkedRows none VOID_TY id := by
  rcases initId_eq_some_iff.mp init with ⟨ptr, table, row, grown, written, entityIds, owner,
    found, insertion, set, updated, rfl⟩
  rcases EntityTable.insertEntity_listed insertion with ⟨rfl, appends⟩
  have listed := appends.sameList (EntityTable.setComponent_listed set)
  have keys : ((w.setTable ptr written).setIndex entityIds).store.keys =
      Function.update w.store.keys ptr (w.store.keys ptr ++ [id]) := by
    rw [keys_store_of_table found, ← listed.entities]
    exact keys_store_setTable w ptr written
  have archetypes : ((w.setTable ptr written).setIndex entityIds).archetypes = w.archetypes := rfl
  funext key
  rw [transfer, if_neg (by simp), if_neg (by simp)]
  by_cases void : VOID_TY = key
  · subst void
    rw [if_pos rfl, walkedRows_of_owner owner, walkedRows_of_owner (archetypes ▸ owner), keys,
      Function.update_self]
  · rw [if_neg void]
    cases atKey : w.archetypes[key]? with
    | none => rw [walkedRows_of_absent atKey, walkedRows_of_absent (archetypes ▸ atKey)]
    | some other =>
        have different : other ≠ ptr := by
          intro same
          rw [same] at atKey
          exact void (boxes VOID_TY key ptr owner atKey)
        rw [walkedRows_of_owner atKey, walkedRows_of_owner (archetypes ▸ atKey), keys,
          Function.update_of_ne different]

theorem insertId_walkedRows (boxes : w.Boxes)
    (inserted : w.insertId id = some (.ok (), after)) :
    after.walkedRows = transfer w.walkedRows none VOID_TY id := by
  rcases insertId_eq_some_iff.mp inserted with ⟨entityIds, _, init⟩
  have boxesSet : (w.setIndex entityIds).Boxes := boxes
  have appended := initId_walkedRows boxesSet init
  exact appended

end Lifecycle

end Bundles

end World

end Cecs

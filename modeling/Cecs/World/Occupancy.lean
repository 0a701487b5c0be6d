import Cecs.World.Accounted
import Cecs.World.Copy

/-! # Slots and rows

When no id waits for a row, the slots that are not free are those of the entities in
the tables: as many as there are rows. Tables may move between the maps and be
copied without a change to that. -/

namespace Cecs

open Foundation

namespace World

variable {Value : Type} {w after : World Value} {pending : Set EntityId}

/-- The tables that the two maps own. -/
def ownedPtrs (w : World Value) : List Ptr :=
  w.archetypes.toList.map Prod.snd ++ w.archetypesStaging.toList.map Prod.snd

/-- The total number of rows. -/
def numRows (w : World Value) : Nat :=
  (w.ownedPtrs.map fun ptr => ((w.tables ptr).map EntityTable.rows).getD 0).sum

/-- The index leads to the row of a table that the entity is in. -/
def HasRow (w : World Value) (id : EntityId) : Prop :=
  ∃ ptr row table, w.entityIds.read id = .ok (ptr, row) ∧ w.tables ptr = some table ∧
    row < table.rows ∧ table.entities[row]? = some id

/-- Every slot is free or belongs to an entity with a row, and nothing else is allocated. -/
def SlotsShared (w : World Value) : Prop :=
  ∃ slots, w.entityIds.Sound slots ∧
    (∀ slot < w.entityIds.cap, slot ∈ slots ∨ ∃ id, id.index = slot ∧ w.HasRow id) ∧
    ∀ id, w.entityIds.Claimed slots id → w.HasRow id

section Count

theorem mem_ownedPtrs {ptr : Ptr} : ptr ∈ w.ownedPtrs ↔
    (∃ key : TypeHash, w.archetypes[key]? = some ptr) ∨
      ∃ key : TypeHash, w.archetypesStaging[key]? = some ptr := by
  simp only [ownedPtrs, List.mem_append, List.mem_map, Prod.exists, BTreeMap.mem_toList,
    exists_eq_right]

/-- The pointers of a map are distinct when each leads to a table of its key. -/
theorem nodup_pointers {map : BTreeMap TypeHash Ptr}
    (keyed : ∀ (key : TypeHash) (ptr : Ptr), map[key]? = some ptr →
      ∃ table, w.tables ptr = some table ∧ table.ty = key) :
    (map.toList.map Prod.snd).Nodup := by
  apply List.Nodup.map_on _ (BTreeMap.toList_map_fst_nodup map).of_map
  rintro ⟨key, ptr⟩ member ⟨other, _⟩ memberOther rfl
  rcases keyed key ptr (BTreeMap.mem_toList.mp member) with ⟨table, found, rfl⟩
  rcases keyed other ptr (BTreeMap.mem_toList.mp memberOther) with ⟨_, foundAgain, rfl⟩
  cases found.symm.trans foundAgain
  rfl

theorem Owned.nodup_ownedPtrs (owned : w.Owned) : w.ownedPtrs.Nodup := by
  rw [ownedPtrs, List.nodup_append]
  refine ⟨nodup_pointers owned.archetypes, nodup_pointers owned.staging, ?_⟩
  intro ptr inArchetypes other inStaging same
  subst same
  simp only [List.mem_map, Prod.exists, BTreeMap.mem_toList, exists_eq_right]
    at inArchetypes inStaging
  rcases inArchetypes with ⟨key, owner⟩
  rcases inStaging with ⟨keyStaging, parked⟩
  exact owned.unshared key ptr owner (owned.key_unique parked (Or.inl owner)).1

/-- All entities that have a row, table by table. -/
def rowOwners (w : World Value) : List EntityId := w.ownedPtrs.flatMap w.store.keys

theorem Accounted.mem_rowOwners (accounted : w.Accounted pending) (owned : w.Owned)
    {id : EntityId} : id ∈ w.rowOwners ↔ id ∈ w.entityIds.live := by
  rw [rowOwners, List.mem_flatMap]
  constructor
  · rintro ⟨ptr, _, listed⟩
    rcases List.mem_iff_getElem?.mp listed with ⟨row, rowAt⟩
    exact ⟨(ptr, row), (accounted.linked id ptr row).mpr rowAt⟩
  · rintro ⟨⟨ptr, row⟩, placed⟩
    rcases owner_of_place accounted.linked placed with ⟨table, found, _⟩
    refine ⟨ptr, ?_, List.mem_of_getElem? ((accounted.linked id ptr row).mp placed)⟩
    exact mem_ownedPtrs.mpr ((owned.owner ptr table found).imp (⟨_, ·⟩) (⟨_, ·⟩))

theorem Accounted.nodup_rowOwners (accounted : w.Accounted pending) (owned : w.Owned) :
    w.rowOwners.Nodup := by
  rw [rowOwners, List.nodup_flatMap]
  refine ⟨fun ptr _ => accounted.linked.keys_nodup ptr, ?_⟩
  refine owned.nodup_ownedPtrs.imp ?_
  intro ptr other different id listed listedOther
  rcases List.mem_iff_getElem?.mp listed with ⟨row, rowAt⟩
  rcases List.mem_iff_getElem?.mp listedOther with ⟨rowOther, rowAtOther⟩
  have placed := (accounted.linked id ptr row).mpr rowAt
  rw [(accounted.linked id other rowOther).mpr rowAtOther, Option.some.injEq,
    Prod.mk.injEq] at placed
  exact different placed.1.symm

theorem Accounted.length_rowOwners (accounted : w.Accounted pending) :
    w.rowOwners.length = w.numRows := by
  rw [rowOwners, List.length_flatMap, numRows]
  congr 1
  apply List.map_congr_left
  intro ptr _
  cases found : w.tables ptr with
  | none => simp [RowStore.keys, store, found]
  | some table =>
      rw [keys_store_of_table found]
      exact accounted.counted ptr table found

theorem Accounted.hasRow (accounted : w.Accounted pending) {id : EntityId}
    (live : id ∈ w.entityIds.live) : w.HasRow id := by
  rcases live with ⟨⟨ptr, row⟩, placed⟩
  rcases owner_of_place accounted.linked placed with ⟨table, found, owner⟩
  refine ⟨ptr, row, table, EntityIndex.read_of_place placed, found, ?_, owner⟩
  rw [← accounted.counted ptr table found]
  exact (List.getElem?_eq_some_iff.mp owner).1

theorem Accounted.slotsShared (accounted : w.Accounted ∅) : w.SlotsShared := by
  rcases accounted.index.live_of_unlisted with ⟨slots, sound, taken, lives⟩
  refine ⟨slots, sound, ?_, fun id claimed => accounted.hasRow (lives id claimed)⟩
  intro slot inRange
  by_cases listed : slot ∈ slots
  · exact Or.inl listed
  · rcases taken slot inRange listed with ⟨id, live, sameSlot⟩
    exact Or.inr ⟨id, sameSlot, accounted.hasRow live⟩

/-- The index counts as many entities as there are rows. -/
theorem Accounted.numEntities_eq (accounted : w.Accounted ∅) (owned : w.Owned) :
    w.numEntities = w.numRows := by
  rw [numEntities, EntityIndex.len]
  rcases accounted.index.live_of_unlisted with ⟨slots, sound, taken, _⟩
  have claimed : ∀ id ∈ w.rowOwners, w.entityIds.Claimed slots id := by
    intro id member
    rcases (accounted.mem_rowOwners owned).mp member with ⟨spot, placed⟩
    exact sound.claimed placed
  -- The free slots and those of the entities in rows are all slots, once each.
  have distinct : (w.rowOwners.map EntityId.index).Nodup :=
    List.Nodup.map_on (fun id member other memberOther =>
      (claimed id member).eq_of_index (claimed other memberOther))
      (accounted.nodup_rowOwners owned)
  have shared : (slots ++ w.rowOwners.map EntityId.index).Perm (List.range w.entityIds.cap) := by
    rw [List.perm_ext_iff_of_nodup _ List.nodup_range]
    · intro slot
      rw [List.mem_append, List.mem_range, List.mem_map]
      constructor
      · rintro (listed | ⟨id, member, rfl⟩)
        · exact sound.lt_cap listed
        · exact (claimed id member).inRange
      · intro inRange
        by_cases listed : slot ∈ slots
        · exact Or.inl listed
        · rcases taken slot inRange listed with ⟨id, live, sameSlot⟩
          exact Or.inr ⟨id, (accounted.mem_rowOwners owned).mpr live, sameSlot⟩
    · rw [List.nodup_append]
      refine ⟨sound.nodup, distinct, ?_⟩
      intro slot listed other member same
      rcases List.mem_map.mp member with ⟨id, memberId, rfl⟩
      exact (claimed id memberId).unlisted (same ▸ listed)
  have size := shared.length_eq
  have counted := sound.counted
  rw [List.length_append, List.length_map, List.length_range, accounted.length_rowOwners] at size
  omega

end Count

section Tables

/-- Tables without rows may go. -/
theorem Accounted.keeps (accounted : w.Accounted pending) (keeps : Keeps w after)
    (shrinks : ∀ ptr table, after.tables ptr = some table → w.tables ptr = some table) :
    after.Accounted pending := by
  have keys : after.store.keys = w.store.keys := by
    funext ptr
    cases found : w.tables ptr with
    | none =>
        cases foundAfter : after.tables ptr with
        | none => simp [RowStore.keys, store, found, foundAfter]
        | some table =>
            rw [shrinks ptr table foundAfter] at found
            cases found
    | some table =>
        cases foundAfter : after.tables ptr with
        | none =>
            have without : table.rows = 0 := by
              by_contra holds
              rw [keeps.tables ptr table found (Nat.pos_of_ne_zero holds)] at foundAfter
              cases foundAfter
            have nobody : table.entities = [] := by
              rw [← List.length_eq_zero_iff, accounted.counted ptr table found, without]
            rw [keys_store_of_table found, nobody]
            simp [RowStore.keys, store, foundAfter]
        | some changed =>
            have same := shrinks ptr changed foundAfter
            rw [keys_store_of_table same, keys_store_of_table foundAfter]
  refine ⟨keeps.entityIds ▸ accounted.index, ?_, accounted.linked.congr ?_ keys⟩
  · intro ptr table found
    exact accounted.counted ptr table (shrinks ptr table found)
  · exact congrArg EntityIndex.place keeps.entityIds

theorem dropTable_shrinks {tables : Ptr → Option (EntityTable Value)} {old : Option Ptr}
    {ptr : Ptr} {table : EntityTable Value} (found : dropTable tables old ptr = some table) :
    tables ptr = some table := by
  cases old with
  | none => exact found
  | some dropped =>
      rw [dropTable, Function.update_apply] at found
      split at found
      · cases found
      · exact found

/-- What every promotion and demotion keeps holds after all of them. -/
theorem moveArchetypes_invariant (Holds : World Value → Prop)
    (promotes : ∀ key w after, Holds w → promote w key = some after → Holds after)
    (demotes : ∀ key w after, Holds w → demote w key = some after → Holds after)
    (holds : Holds w) (moved : w.moveArchetypes = some after) : Holds after := by
  have along : ∀ (move : World Value → TypeHash → Option (World Value)),
      (∀ key w after, Holds w → move w key = some after → Holds after) →
      ∀ (keys : List TypeHash) (w after : World Value), Holds w →
        keys.foldlM move w = some after → Holds after := by
    intro move moves keys
    induction keys with
    | nil =>
        intro w after holds ran
        cases ran
        exact holds
    | cons key keys induction =>
        intro w after holds ran
        rw [List.foldlM_cons] at ran
        rcases Option.bind_eq_some_iff.mp ran with ⟨middle, first, rest⟩
        exact induction middle after (moves key w middle holds first) rest
  rcases Option.bind_eq_some_iff.mp moved with ⟨promoted, promotion, demotion⟩
  exact along demote demotes _ _ _ (along promote promotes _ _ _ holds promotion) demotion

/-- The tables at the end of `apply_commands` were there before. -/
theorem moveArchetypes_shrinks (moved : w.moveArchetypes = some after) {ptr : Ptr}
    {table : EntityTable Value} (found : after.tables ptr = some table) :
    w.tables ptr = some table := by
  let Holds (middle : World Value) := middle.tables ptr = some table → w.tables ptr = some table
  apply moveArchetypes_invariant Holds _ _ (fun found => found) moved found
  · intro key middle after holds promotion found
    rcases Option.bind_eq_some_iff.mp promotion with ⟨_, _, promoted⟩
    cases promoted
    exact holds (dropTable_shrinks found)
  · intro key middle after holds demotion found
    rcases Option.bind_eq_some_iff.mp demotion with ⟨_, _, demoted⟩
    cases demoted
    exact holds (dropTable_shrinks found)

theorem commands_moveArchetypes (moved : w.moveArchetypes = some after) :
    after.commands = w.commands := by
  apply moveArchetypes_invariant (fun middle => middle.commands = w.commands) _ _ rfl moved
  · intro key middle after holds promotion
    rcases Option.bind_eq_some_iff.mp promotion with ⟨_, _, promoted⟩
    cases promoted
    exact holds
  · intro key middle after holds demotion
    rcases Option.bind_eq_some_iff.mp demotion with ⟨_, _, demoted⟩
    cases demoted
    exact holds

theorem Accounted.moveArchetypes (accounted : w.Accounted pending) (housed : w.Housed)
    (moved : w.moveArchetypes = some after) : after.Accounted pending := by
  rcases housed.moveArchetypes with ⟨result, moving, _, _, keeps⟩
  cases moved.symm.trans moving
  exact accounted.keeps keeps fun _ _ found => moveArchetypes_shrinks moved found

theorem Accounted.vacuum (accounted : w.Accounted pending) (housed : w.Housed)
    (parkedEmpty : w.ParkedEmpty) : w.vacuum.Accounted pending := by
  apply accounted.keeps (housed.vacuum parkedEmpty).2.2
  intro ptr table found
  simp only [World.vacuum] at found
  split at found
  · cases found
  · exact found

/-- An entity that is listed somewhere is in a table that queries walk. -/
theorem Accounted.liveWalked (accounted : w.Accounted pending) (listed : w.AllListed) :
    w.LiveWalked := by
  intro id ptr row live
  rcases listed id.index ptr (EntityIndex.arch_of_read live) with ⟨other, member, sameSlot⟩
  rcases mem_listedIds.mp member with ⟨key, found, table, owner, foundTable, listedThere⟩
  rcases List.mem_iff_getElem?.mp listedThere with ⟨position, ownerAt⟩
  have placed := place_of_entities accounted.linked foundTable ownerAt
  have pointer := EntityIndex.arch_of_read (EntityIndex.read_of_place placed)
  rw [sameSlot, EntityIndex.arch_of_read live, Option.some.injEq] at pointer
  exact ⟨key, pointer ▸ owner⟩

/-- The ids that wait keep their slots in the copy. -/
theorem Accounted.clone (accounted : w.Accounted pending) (owned : w.Owned) (listed : w.AllListed)
    (cloned : w.clone = some after) : after.Accounted pending ∧ after.commands = [] := by
  have walked := accounted.liveWalked listed
  rcases accounted.index.tracked with ⟨slots, tracks⟩
  rcases clone_eq accounted.linked owned walked tracks.toSound with
    ⟨index, copied, alike, places⟩
  cases cloned.symm.trans copied
  have lives : index.live = w.entityIds.live := by
    ext id
    rw [EntityIndex.mem_live, EntityIndex.mem_live, places]
    cases w.entityIds.place id <;> simp
  have tracked := tracks.keeps alike.right alike.generations
  rw [← lives] at tracked
  refine ⟨⟨⟨⟨slots, tracked⟩, fun id member => lives ▸ accounted.index.waits id member⟩, ?_,
    linked_cloneWith accounted.linked walked places⟩, rfl⟩
  intro ptr table found
  rcases clonedTables_eq_some.mp found with ⟨before, _, _, foundBefore⟩
  exact accounted.counted before table foundBefore

end Tables

end World

end Cecs

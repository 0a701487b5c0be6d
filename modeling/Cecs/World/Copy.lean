import Cecs.World.Beside
import Cecs.World.Clone

/-! # What a clone is

When the live entities of a well-formed world are in tables that queries walk, its
clone is a well-formed world with the same entities. -/

namespace Cecs

open Foundation

namespace World

variable {Value : Type} {w : World Value}

/-- All live entities are in `archetypes`. -/
def LiveWalked (w : World Value) : Prop :=
  ∀ id ptr index, w.entityIds.read id = .ok (ptr, index) →
    ∃ key : TypeHash, w.archetypes[key]? = some ptr

/-- The place in the clone. -/
def clonedPlace (w : World Value) (spot : Ptr × Nat) : Ptr × Nat :=
  (w.nextTable + spot.1, spot.2)

theorem mem_listedIds {id : EntityId} : id ∈ w.listedIds ↔
    ∃ (key : TypeHash) (ptr : Ptr) (table : EntityTable Value), w.archetypes[key]? = some ptr ∧
      w.tables ptr = some table ∧ id ∈ table.entities := by
  simp only [listedIds, walked, List.mem_flatMap, List.mem_filterMap, Option.map_eq_some_iff,
    Prod.exists]
  constructor
  · rintro ⟨ptr, table, ⟨key, before, member, other, found, pair⟩, listed⟩
    cases pair
    exact ⟨key, ptr, table, BTreeMap.mem_toList.mp member, found, listed⟩
  · rintro ⟨key, ptr, table, owner, found, listed⟩
    exact ⟨ptr, table, ⟨key, ptr, BTreeMap.mem_toList.mpr owner, table, found, rfl⟩, listed⟩

section Entries

variable {slots : List Nat}

/-- An entity of a walked table is pointed to the copy. -/
theorem cloneEntry_eq (linked : w.store.Linked) (owned : w.Owned) {id : EntityId}
    (listed : id ∈ w.listedIds) {index : EntityIndex} (alike : w.entityIds.Alike slots index) :
    ∃ result, w.cloneEntry index id = some result ∧ w.entityIds.Alike slots result ∧
      result.place =
        Function.update index.place id ((w.entityIds.place id).map w.clonedPlace) := by
  rcases mem_listedIds.mp listed with ⟨key, ptr, table, owner, found, member⟩
  rcases List.mem_iff_getElem?.mp member with ⟨row, rowAt⟩
  have placed := place_of_entities linked found rowAt
  rcases owned.archetypes key ptr owner with ⟨_, foundAgain, rfl⟩
  cases found.symm.trans foundAgain
  rcases EntityIndex.update_spec alike.right (alike.claimed (alike.left.claimed placed))
      (w.nextTable + ptr) row with
    ⟨result, updated, sound, places, _⟩
  have lookup := getElem?_clonedArchetypes.mpr ⟨ptr, owner, rfl⟩
  have generations := (EntityIndex.update_generationAt updated).trans alike.generations
  refine ⟨result, ?_, ⟨alike.left, sound, generations⟩, ?_⟩
  · have read : (w.entityIds.read id).toOption = some (ptr, row) := placed
    simp [cloneEntry, read, found, lookup, updated]
  · rw [places, placed]
    rfl

theorem cloneEntries_eq (linked : w.store.Linked) (owned : w.Owned) {ids : List EntityId}
    (listed : ∀ id ∈ ids, id ∈ w.listedIds) {index : EntityIndex}
    (alike : w.entityIds.Alike slots index) :
    ∃ result, ids.foldlM w.cloneEntry index = some result ∧ w.entityIds.Alike slots result ∧
      ∀ id, result.place id =
        if id ∈ ids then (w.entityIds.place id).map w.clonedPlace else index.place id := by
  induction ids generalizing index with
  | nil => exact ⟨index, rfl, alike, fun _ => rfl⟩
  | cons first rest induction =>
      rcases cloneEntry_eq linked owned (listed first List.mem_cons_self) alike with
        ⟨middle, entry, alikeMiddle, places⟩
      rcases induction (fun id member => listed id (List.mem_cons_of_mem _ member))
          alikeMiddle with
        ⟨result, entries, alikeResult, placesResult⟩
      refine ⟨result, ?_, alikeResult, ?_⟩
      · rw [List.foldlM_cons, entry]
        exact entries
      · intro id
        rw [placesResult, places, Function.update_apply]
        by_cases inRest : id ∈ rest
        · simp [inRest]
        · by_cases same : id = first <;> simp [inRest, same]

/-- Every live entity is pointed to the copy of its table. -/
theorem clone_eq (linked : w.store.Linked) (owned : w.Owned) (walked : w.LiveWalked)
    (sound : w.entityIds.Sound slots) :
    ∃ index, w.clone = some (w.cloneWith index) ∧ w.entityIds.Alike slots index ∧
      ∀ id, index.place id = (w.entityIds.place id).map w.clonedPlace := by
  rcases cloneEntries_eq linked owned (fun _ member => member) (.refl sound) with
    ⟨index, entries, alike, places⟩
  refine ⟨index, by simp [clone, sound.clone, entries, cloneWith], alike, ?_⟩
  intro id
  rw [places]
  by_cases listed : id ∈ w.listedIds
  · rw [if_pos listed]
  · rw [if_neg listed]
    cases placed : w.entityIds.place id with
    | none => rfl
    | some spot =>
        rcases spot with ⟨ptr, row⟩
        rcases walked id ptr row (EntityIndex.read_of_place placed) with ⟨key, owner⟩
        rcases owner_of_place linked placed with ⟨table, found, ownerAt⟩
        exact absurd (mem_listedIds.mpr ⟨key, ptr, table, owner, found,
          List.mem_of_getElem? ownerAt⟩) listed

end Entries

/-- The world `other` has the same entities, tables and resources. -/
structure Copies [UnitTypeId] (other w : World Value) : Prop where
  wellFormed : other.WellFormed
  valid : ∀ id, other.entityIds.isValid id = w.entityIds.isValid id
  table : ∀ id, other.entityTable id = w.entityTable id
  view : other.view = w.view
  pointers : ∀ slot ptr, other.entityIds.arch slot = some ptr →
    ∃ (key : TypeHash) (table : EntityTable Value), other.archetypes[key]? = some ptr ∧
      other.tables ptr = some table
  resources : other.resources = w.resources

section Copies

variable {index : EntityIndex}

theorem clonedTables_of_walked {ptr : Ptr} {key : TypeHash}
    (owner : w.archetypes[key]? = some ptr) :
    w.clonedTables (w.nextTable + ptr) = w.tables ptr := by
  apply Option.ext
  intro table
  rw [clonedTables_eq_some]
  constructor
  · rintro ⟨before, same, _, found⟩
    rw [Nat.add_left_cancel same]
    exact found
  · exact fun found => ⟨ptr, rfl, ⟨key, owner⟩, found⟩

/-- Index and tables of the clone name each other. -/
theorem linked_cloneWith (linked : w.store.Linked) (walked : w.LiveWalked)
    (places : ∀ id, index.place id = (w.entityIds.place id).map w.clonedPlace) :
    (w.cloneWith index).store.Linked := by
  intro id ptr row
  change index.place id = some (ptr, row) ↔ _
  rw [places, Option.map_eq_some_iff]
  constructor
  · rintro ⟨⟨before, spot⟩, placed, pair⟩
    cases pair
    rcases walked id before spot (EntityIndex.read_of_place placed) with ⟨key, owner⟩
    rcases owner_of_place linked placed with ⟨table, found, ownerAt⟩
    have copy : (w.cloneWith index).tables (w.nextTable + before) = some table :=
      (clonedTables_of_walked owner).trans found
    rw [keys_store_of_table copy]
    exact ownerAt
  · intro listed
    cases copy : (w.cloneWith index).tables ptr with
    | none => simp [RowStore.keys, store, copy] at listed
    | some table =>
        rw [keys_store_of_table copy] at listed
        rcases clonedTables_eq_some.mp copy with ⟨before, rfl, _, found⟩
        exact ⟨(before, row), place_of_entities linked found listed, rfl⟩

theorem view_cloneWith (walked : w.LiveWalked)
    (places : ∀ id, index.place id = (w.entityIds.place id).map w.clonedPlace) :
    (w.cloneWith index).view = w.view := by
  funext id
  change ((index.place id).bind _) = ((w.entityIds.place id).bind _)
  rw [places]
  cases placed : w.entityIds.place id with
  | none => rfl
  | some spot =>
      rcases spot with ⟨ptr, row⟩
      rcases walked id ptr row (EntityIndex.read_of_place placed) with ⟨key, owner⟩
      have sameRows : (w.cloneWith index).store.rows (w.nextTable + ptr) = w.store.rows ptr := by
        simp only [store]
        rw [show (w.cloneWith index).tables (w.nextTable + ptr) = w.tables ptr from
          clonedTables_of_walked owner]
      simp only [Option.map_some, Option.bind_some, clonedPlace, sameRows]

theorem WellFormed.cloneWith [UnitTypeId] {slots : List Nat} (wf : w.WellFormed)
    (walked : w.LiveWalked) (sound : index.Sound slots)
    (places : ∀ id, index.place id = (w.entityIds.place id).map w.clonedPlace) :
    (w.cloneWith index).WellFormed := by
  have original : ∀ ptr table, (w.cloneWith index).tables ptr = some table →
      ∃ before, w.tables before = some table := by
    intro ptr table copy
    rcases clonedTables_eq_some.mp copy with ⟨before, _, _, found⟩
    exact ⟨before, found⟩
  refine { wf.toOwned.cloneWith index with
    index := ⟨slots, sound⟩
    linked := linked_cloneWith wf.linked walked places
    aligned := ?_, shaped := ?_, void := ?_ }
  · intro ptr table copy
    rcases original ptr table copy with ⟨before, found⟩
    exact wf.aligned before table found
  · intro ptr table copy
    rcases original ptr table copy with ⟨before, found⟩
    exact wf.shaped before table found
  · rcases wf.void with ⟨ptr, table, owner, found, types⟩
    exact ⟨w.nextTable + ptr, table, getElem?_clonedArchetypes.mpr ⟨ptr, owner, rfl⟩,
      (clonedTables_of_walked owner).trans found, types⟩

theorem clone_copies [UnitTypeId] (wf : w.WellFormed) (walked : w.LiveWalked) :
    ∃ (index : EntityIndex) (slots : List Nat), w.clone = some (w.cloneWith index) ∧
      w.entityIds.Alike slots index ∧ Copies (w.cloneWith index) w := by
  rcases wf.index with ⟨slots, sound⟩
  rcases clone_eq wf.linked wf.toOwned walked sound with ⟨index, cloned, alike, places⟩
  have tableOf : ∀ id ptr row, w.entityIds.place id = some (ptr, row) →
      ∃ (key : TypeHash) (table : EntityTable Value), w.archetypes[key]? = some ptr ∧
        w.tables ptr = some table ∧ w.clonedTables (w.nextTable + ptr) = some table := by
    intro id ptr row placed
    rcases walked id ptr row (EntityIndex.read_of_place placed) with ⟨key, owner⟩
    rcases wf.archetypes key ptr owner with ⟨table, found, _⟩
    exact ⟨key, table, owner, found, (clonedTables_of_walked owner).trans found⟩
  refine ⟨index, slots, cloned, alike, wf.cloneWith walked alike.right places, ?_, ?_,
    view_cloneWith walked places, ?_, rfl⟩
  · intro id
    rw [Bool.eq_iff_iff, EntityIndex.isValid_iff_place, EntityIndex.isValid_iff_place]
    change (∃ spot, index.place id = some spot) ↔ _
    rw [places]
    cases w.entityIds.place id <;> simp
  · intro id
    have place := places id
    cases placed : w.entityIds.place id with
    | none =>
        rw [placed] at place
        rcases EntityIndex.read_of_place_none placed with ⟨_, outcome⟩
        rcases EntityIndex.read_of_place_none place with ⟨_, copy⟩
        simp only [entityTable, outcome, cloneWith, copy]
    | some spot =>
        rcases spot with ⟨ptr, row⟩
        rw [placed] at place
        rcases tableOf id ptr row placed with ⟨_, table, _, found, copy⟩
        simp only [entityTable, EntityIndex.read_of_place placed, cloneWith,
          EntityIndex.read_of_place place, found, copy]
  · intro slot ptr pointer
    rcases alike.right.place_of_arch pointer with ⟨id, row, _, placed⟩
    rw [places, Option.map_eq_some_iff] at placed
    rcases placed with ⟨⟨before, spot⟩, placed, pair⟩
    cases pair
    rcases tableOf id before spot placed with ⟨key, table, owner, _, copy⟩
    exact ⟨key, table, getElem?_clonedArchetypes.mpr ⟨before, owner, rfl⟩, copy⟩

end Copies

section Independence

variable [UnitTypeId] {types : Finset TypeId}

/-- Tables are allocated from an address on. -/
def allocatingFrom (w : World Value) (ptr : Ptr) : World Value := { w with nextTable := ptr }

theorem WellFormed.allocatingFrom (wf : w.WellFormed) {ptr : Ptr} (later : w.nextTable ≤ ptr) :
    (w.allocatingFrom ptr).WellFormed where
  index := wf.index
  aligned := wf.aligned
  linked := wf.linked
  archetypes := wf.archetypes
  staging := wf.staging
  owner := wf.owner
  unshared := wf.unshared
  fresh other table found := Nat.lt_of_lt_of_le (wf.fresh other table found) later
  shaped := wf.shaped
  void := wf.void

variable [BuiltinValues Value]

/-- In a memory with the tables of another world, the changes do what they do
alone, and these tables stay as they are. -/
def Independent (w : World Value) (others : Ptr → Option (EntityTable Value))
    (list : List (Change Value)) : Prop :=
  (w.beside others).changes list =
      (w.changes list).map (fun (answers, after) => (answers, after.beside others)) ∧
    ∀ answers after, (w.beside others).changes list = some (answers, after) →
      ∀ ptr table, others ptr = some table → after.tables ptr = some table

theorem Twins.independent {others : Ptr → Option (EntityTable Value)} (twins : Twins types w w)
    (hashes : HashesApart types) (apart : w.Beside others) {list : List (Change Value)}
    (permitted : ∀ change ∈ list, change.Permitted ∧ change.types ⊆ types) :
    w.Independent others list := by
  rcases twins.changes_beside hashes apart permitted with ⟨same, stays⟩
  refine ⟨same, ?_⟩
  intro answers after ran ptr table found
  rw [same, Option.map_eq_some_iff] at ran
  rcases ran with ⟨⟨alone, final⟩, ranAlone, pair⟩
  cases pair
  exact (stays answers final ranAlone).tables found

/-- The clone is a copy; what happens to one of the two does not happen to the
other, and what happens to both happens alike. -/
theorem clone_spec (wf : w.WellFormed) (walked : w.LiveWalked) (known : w.Knows types)
    (hashes : HashesApart types) :
    ∃ copy, w.clone = some copy ∧ Copies copy w ∧
      ∀ list : List (Change Value),
        (∀ change ∈ list, change.Permitted ∧ change.types ⊆ types) →
        copy.Independent w.tables list ∧
        (w.allocatingFrom copy.nextTable).Independent copy.tables list ∧
        ((w.changes list = none ∧ copy.changes list = none) ∨
          ∃ answers first second, w.changes list = some (answers, first) ∧
            copy.changes list = some (answers, second) ∧ second.view = first.view) := by
  rcases clone_copies wf walked with ⟨index, slots, cloned, alike, copies⟩
  have knownCopy : (w.cloneWith index).Knows types := by
    intro ptr table found
    rcases clonedTables_eq_some.mp found with ⟨before, _, _, foundBefore⟩
    exact known before table foundBefore
  have twins : Twins types w (w.cloneWith index) :=
    ⟨wf, copies.wellFormed, known, knownCopy, ⟨slots, alike⟩, copies.view⟩
  have wfOriginal := wf.allocatingFrom (Nat.le_add_left w.nextTable w.nextTable)
  refine ⟨w.cloneWith index, cloned, copies, ?_⟩
  intro list permitted
  refine ⟨?_, ?_, ?_⟩
  · apply (Twins.refl copies.wellFormed knownCopy).independent hashes _ permitted
    intro ptr table found
    have before := wf.fresh ptr table found
    refine ⟨?_, Nat.lt_of_lt_of_le before (Nat.le_add_left ..)⟩
    exact if_neg fun copied => Nat.not_le_of_lt before copied.1
  · apply (Twins.refl wfOriginal known).independent hashes _ permitted
    intro ptr table found
    refine ⟨?_, copies.wellFormed.fresh ptr table found⟩
    rcases clonedTables_eq_some.mp found with ⟨before, rfl, _, _⟩
    cases original : w.tables (w.nextTable + before) with
    | none => exact original
    | some other =>
        exact absurd (wf.fresh _ other original) (Nat.not_lt_of_le (Nat.le_add_right ..))
  · rcases twins.changes hashes permitted with
      stuck | ⟨answers, first, second, ran, ranCopy, after⟩
    · exact Or.inl stuck
    · exact Or.inr ⟨answers, first, second, ran, ranCopy, after.view⟩

omit [BuiltinValues Value] in
/-- Without parked tables all live entities are walked. -/
theorem WellFormed.liveWalked (wf : w.WellFormed) (unparked : w.archetypesStaging = ∅) :
    w.LiveWalked := by
  intro id ptr index live
  rcases wf.toConsistent.table_of_place (EntityIndex.place_of_read live) with ⟨table, found, _⟩
  rcases wf.owner ptr table found with inArchetypes | inStaging
  · exact ⟨table.ty, inArchetypes⟩
  · rw [unparked] at inStaging
    exact absurd inStaging (nothing_staged table.ty ptr)

end Independence

section Example

open Sample

/-- An entity with a value, and what makes it. -/
def oneValue : List (Change Nat) :=
  [.operation .insertEntity, .operation (.setBundle (EntityId.new 0 0) [(7#128, 5)])]

theorem oneValue_permitted :
    ∀ change ∈ oneValue, change.Permitted ∧ change.types ⊆ {1#128, 7#128} := by
  simp [oneValue, Change.Permitted, Change.types, Bundle.Distinct, Bundle.types]

theorem clone_spec_sample :
    ∃ w copy after : World Nat, w.clone = some copy ∧ Copies copy w ∧
      (copy.beside w.tables).changes [.operation (.deleteEntity (EntityId.new 0 0))] =
        some ([.outcome (.answer (.ok ()))], after) ∧
      ∀ ptr table, w.tables ptr = some table → after.tables ptr = some table := by
  have hashes : HashesApart ({1#128, 7#128} : Finset TypeId) := by decide
  have unit : unitTypeId ∈ ({1#128, 7#128} : Finset TypeId) := by decide
  obtain ⟨start, w, copied, after, answers, created, made, unparked, cloned, deleted⟩ :
      ∃ (start w copied after : World Nat) (answers : List Answer), World.new 1 = some start ∧
        start.changes oneValue = some (answers, w) ∧ w.archetypesStaging = ∅ ∧
        w.clone = some copied ∧
        (copied.beside w.tables).changes [.operation (.deleteEntity (EntityId.new 0 0))] =
          some ([.outcome (.answer (.ok ()))], after) :=
    ⟨_, _, _, _, _, rfl, rfl, rfl, rfl, rfl⟩
  have twins : Twins {1#128, 7#128} start start :=
    .refl (new_spec created).1 (knows_new created unit)
  rcases twins.changes hashes oneValue_permitted with
    ⟨stuck, _⟩ | ⟨_, first, second, ran, again, twinsAfter⟩
  · rw [stuck] at made
    cases made
  · cases ran.symm.trans again
    cases ran.symm.trans made
    rcases clone_spec twinsAfter.left (twinsAfter.left.liveWalked unparked) twinsAfter.knownLeft
        hashes with
      ⟨copy, same, copies, changed⟩
    cases cloned.symm.trans same
    rcases changed [.operation (.deleteEntity (EntityId.new 0 0))]
        (by simp [Change.Permitted, Change.types]) with
      ⟨independent, _⟩
    exact ⟨_, copied, after, cloned, copies, deleted, independent.2 _ after deleted⟩

end Example

end World

end Cecs

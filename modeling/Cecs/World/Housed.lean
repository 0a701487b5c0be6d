import Cecs.Commands
import Cecs.World.Evolution

/-! # Worlds that house their entities

Every entry of the index points to a table that one of the maps owns, and no table
has fewer rows than entries point to it. This is what the moves of tables between
the two maps rely on. It is weaker than well-formedness: which row is whose, and
which columns a table has, do not matter. -/

namespace Cecs

open Foundation

namespace World

variable {Value : Type} {w after : World Value}

theorem holdsRows_eq_true {ptr : Ptr} {table : EntityTable Value}
    (found : w.tables ptr = some table) : w.holdsRows ptr = true ↔ 0 < table.rows := by
  simp [holdsRows, found, EntityTable.isEmpty, Nat.pos_iff_ne_zero]

theorem holdsRows_eq_false {ptr : Ptr} {table : EntityTable Value}
    (found : w.tables ptr = some table) : w.holdsRows ptr = false ↔ table.rows = 0 := by
  rw [← Bool.not_eq_true, holdsRows_eq_true found]
  omega

theorem holdsRows_of_absent {ptr : Ptr} (absent : w.tables ptr = none) :
    w.holdsRows ptr = false := by
  simp [holdsRows, absent]

theorem holdsRows_congr {ptr : Ptr} (same : after.tables ptr = w.tables ptr) :
    after.holdsRows ptr = w.holdsRows ptr := by
  rw [holdsRows, holdsRows, same]

/-- No parked table has rows. -/
def ParkedEmpty (w : World Value) : Prop :=
  ∀ (key : TypeHash) (ptr : Ptr), w.archetypesStaging[key]? = some ptr →
    w.holdsRows ptr = false

structure Housed (w : World Value) : Prop extends Owned w where
  pointers : ∀ slot ptr, w.entityIds.arch slot = some ptr → ∃ table, w.tables ptr = some table
  covered : ∀ ptr table, w.tables ptr = some table →
    w.entityIds.population ptr ≤ table.rows
  /-- Of two tables with one key, the parked one has no rows. -/
  twins : ∀ (key : TypeHash) (ptr other : Ptr), w.archetypes[key]? = some other →
    w.archetypesStaging[key]? = some ptr → w.holdsRows ptr = false

theorem Housed.pointed (housed : w.Housed) {slot : Nat} {ptr : Ptr}
    (pointer : w.entityIds.arch slot = some ptr) :
    ∃ table, w.tables ptr = some table ∧ 0 < table.rows := by
  rcases housed.pointers slot ptr pointer with ⟨table, found⟩
  exact ⟨table, found,
    Nat.lt_of_lt_of_le (EntityIndex.population_pos pointer) (housed.covered ptr table found)⟩

/-- A live entity is in a table that one of the maps owns. -/
theorem Housed.live (housed : w.Housed) {id : EntityId} {ptr : Ptr} {index : Nat}
    (live : w.entityIds.read id = .ok (ptr, index)) :
    ∃ table, w.tables ptr = some table ∧ 0 < table.rows ∧
      (w.archetypes[table.ty]? = some ptr ∨ w.archetypesStaging[table.ty]? = some ptr) := by
  rcases housed.pointed (EntityIndex.arch_of_read live) with ⟨table, found, positive⟩
  exact ⟨table, found, positive, housed.owner ptr table found⟩

section Evolves

variable {parked : Bool}

theorem Evolves.table (evolves : Evolves parked w after) {ptr : Ptr}
    {changed : EntityTable Value} (found : after.tables ptr = some changed) :
    ∃ table, w.tables ptr = some table ∧ Persists parked w after ptr table changed := by
  cases before : w.tables ptr with
  | none =>
      rw [evolves.absent ptr before] at found
      cases found
  | some table =>
      rcases evolves.tables ptr table before with ⟨same, foundSame, persists⟩
      rw [found, Option.some.injEq] at foundSame
      exact ⟨table, rfl, foundSame ▸ persists⟩

theorem Evolves.owned (evolves : Evolves parked w after) (owned : w.Owned) : after.Owned := by
  have keyed : ∀ (key : TypeHash) (ptr : Ptr),
      (∃ table, w.tables ptr = some table ∧ table.ty = key) →
      ∃ table, after.tables ptr = some table ∧ table.ty = key := by
    intro key ptr before
    rcases before with ⟨table, found, ty⟩
    rcases evolves.tables ptr table found with ⟨changed, foundChanged, persists⟩
    exact ⟨changed, foundChanged, persists.ty.trans ty⟩
  refine ⟨?_, ?_, ?_, ?_, ?_⟩
  · intro key ptr owner
    rw [evolves.archetypes] at owner
    exact keyed key ptr (owned.archetypes key ptr owner)
  · intro key ptr owner
    rw [evolves.staging] at owner
    exact keyed key ptr (owned.staging key ptr owner)
  · intro ptr changed found
    rcases evolves.table found with ⟨table, foundBefore, persists⟩
    rw [evolves.archetypes, evolves.staging, persists.ty]
    exact owned.owner ptr table foundBefore
  · intro key ptr owner
    rw [evolves.archetypes] at owner
    rw [evolves.staging]
    exact owned.unshared key ptr owner
  · intro ptr changed found
    rcases evolves.table found with ⟨table, foundBefore, _⟩
    rw [evolves.nextTable]
    exact owned.fresh ptr table foundBefore

/-- A table that no lookup finds gains no rows. -/
theorem Evolves.holdsRows_eq_false (evolves : Evolves parked w after) {ptr : Ptr}
    (empty : w.holdsRows ptr = false) (unreached : ¬w.Reaches parked ptr) :
    after.holdsRows ptr = false := by
  cases found : after.tables ptr with
  | none => exact holdsRows_of_absent found
  | some changed =>
      rcases evolves.table found with ⟨table, foundBefore, persists⟩
      rw [World.holdsRows_eq_false foundBefore] at empty
      rw [World.holdsRows_eq_false found]
      rcases persists.found with fewer | reached
      · omega
      · exact absurd reached unreached

/-- A parked table has its own key only. -/
theorem Owned.key_unique (owned : w.Owned) {key other : TypeHash} {ptr : Ptr}
    (parked : w.archetypesStaging[key]? = some ptr)
    (owner : w.archetypes[other]? = some ptr ∨ w.archetypesStaging[other]? = some ptr) :
    w.archetypesStaging[other]? = some ptr ∧ other = key := by
  rcases owned.staging key ptr parked with ⟨table, found, rfl⟩
  rcases owner with inArchetypes | inStaging
  · rcases owned.archetypes other ptr inArchetypes with ⟨same, foundSame, rfl⟩
    rw [found, Option.some.injEq] at foundSame
    subst foundSame
    exact absurd parked (owned.unshared _ ptr inArchetypes)
  · rcases owned.staging other ptr inStaging with ⟨same, foundSame, rfl⟩
    rw [found, Option.some.injEq] at foundSame
    exact ⟨inStaging, foundSame ▸ rfl⟩

theorem Evolves.housed (evolves : Evolves parked w after) (housed : w.Housed) :
    after.Housed where
  toOwned := evolves.owned housed.toOwned
  pointers slot ptr pointer := by
    obtain ⟨table, found⟩ : ∃ table, w.tables ptr = some table := by
      rcases evolves.pointers slot ptr pointer with ⟨before, pointed⟩ | present
      · exact housed.pointers before ptr pointed
      · exact present
    rcases evolves.tables ptr table found with ⟨changed, foundChanged, _⟩
    exact ⟨changed, foundChanged⟩
  covered ptr changed found := by
    rcases evolves.table found with ⟨table, foundBefore, persists⟩
    have before := housed.covered ptr table foundBefore
    have moved := persists.covered
    omega
  twins key ptr other inArchetypes inStaging := by
    rw [evolves.archetypes] at inArchetypes
    rw [evolves.staging] at inStaging
    apply evolves.holdsRows_eq_false (housed.twins key ptr other inArchetypes inStaging)
    intro reached
    rcases reached with ⟨found, owner⟩ | ⟨_, found, lookup⟩
    · have keyed := housed.key_unique inStaging (Or.inl owner)
      rw [keyed.2] at owner
      exact housed.unshared key ptr owner inStaging
    · rw [getArchetypeByKey, Option.or_eq_some_iff] at lookup
      rcases lookup with owner | ⟨absent, owner⟩
      · have keyed := housed.key_unique inStaging (Or.inl owner)
        rw [keyed.2] at owner
        exact housed.unshared key ptr owner inStaging
      · rw [(housed.key_unique inStaging (Or.inr owner)).2, inArchetypes] at absent
        cases absent

/-- What does not look at parked tables leaves them empty. -/
theorem Evolves.parkedEmpty (evolves : Evolves false w after) (owned : w.Owned)
    (empty : w.ParkedEmpty) : after.ParkedEmpty := by
  intro key ptr inStaging
  rw [evolves.staging] at inStaging
  apply evolves.holdsRows_eq_false (empty key ptr inStaging)
  intro reached
  rcases reached with ⟨found, owner⟩ | ⟨no, _⟩
  · have keyed := owned.key_unique inStaging (Or.inl owner)
    rw [keyed.2] at owner
    exact owned.unshared key ptr owner inStaging
  · cases no

end Evolves

section AddTable

variable {table : EntityTable Value}

theorem Owned.tables_addTable_of_present (owned : w.Owned)
    (absent : w.archetypes[table.ty]? = none) {ptr : Ptr} {old : EntityTable Value}
    (found : w.tables ptr = some old) : (w.addTable table).tables ptr = some old := by
  rw [tables_addTable table absent,
    Function.update_of_ne (Nat.ne_of_lt (owned.fresh ptr old found)), found]

theorem Owned.holdsRows_addTable (owned : w.Owned)
    (absent : w.archetypes[table.ty]? = none) {key : TypeHash} {ptr : Ptr}
    (parked : w.archetypesStaging[key]? = some ptr) :
    (w.addTable table).holdsRows ptr = w.holdsRows ptr := by
  rcases owned.staging key ptr parked with ⟨old, found, _⟩
  apply holdsRows_congr
  rw [owned.tables_addTable_of_present absent found, found]

theorem Owned.parkedEmpty_addTable (owned : w.Owned)
    (absent : w.archetypes[table.ty]? = none) (empty : w.ParkedEmpty) :
    (w.addTable table).ParkedEmpty := by
  intro key ptr parked
  rw [owned.holdsRows_addTable absent parked]
  exact empty key ptr parked

/-- A new table must not have the key of a parked table with rows. -/
theorem Housed.addTable (housed : w.Housed) (absent : w.archetypes[table.ty]? = none)
    (empty : table.rows = 0)
    (unshadowed : ∀ ptr, w.archetypesStaging[table.ty]? = some ptr →
      w.holdsRows ptr = false) : (w.addTable table).Housed where
  toOwned := housed.toOwned.addTable absent
  pointers slot ptr pointer := by
    rcases housed.pointers slot ptr pointer with ⟨old, found⟩
    exact ⟨old, housed.tables_addTable_of_present absent found⟩
  covered ptr other found := by
    rw [tables_addTable table absent, Function.update_apply] at found
    split at found
    · rename_i new
      cases found
      -- Nothing points to the new table.
      rw [empty, Nat.le_zero, EntityIndex.population_eq_zero]
      intro slot pointer
      rcases housed.pointers slot ptr pointer with ⟨old, foundOld⟩
      rw [new, housed.tables_nextTable] at foundOld
      cases foundOld
    · exact housed.covered ptr other found
  twins key ptr other inArchetypes inStaging := by
    rw [housed.holdsRows_addTable absent inStaging]
    change (w.archetypes.insert table.ty w.nextTable)[key]? = some other at inArchetypes
    rw [BTreeMap.getElem?_insert] at inArchetypes
    split at inArchetypes
    · rename_i sameKey
      subst sameKey
      exact unshadowed ptr inStaging
    · exact housed.twins key ptr other inArchetypes inStaging

end AddTable

/-- Nothing is lost: the same index, and the same tables but for some without rows. -/
structure Keeps (w after : World Value) : Prop where
  entityIds : after.entityIds = w.entityIds
  tables : ∀ ptr table, w.tables ptr = some table → 0 < table.rows →
    after.tables ptr = some table

theorem Keeps.trans {middle : World Value} (first : Keeps w middle)
    (second : Keeps middle after) : Keeps w after where
  entityIds := second.entityIds.trans first.entityIds
  tables ptr table found positive :=
    second.tables ptr table (first.tables ptr table found positive) positive

theorem Keeps.of_tables (entityIds : after.entityIds = w.entityIds)
    (tables : after.tables = w.tables) : Keeps w after :=
  ⟨entityIds, fun ptr table found _ => by rw [tables, found]⟩

section MoveArchetypes

/-- A parked table with rows has its key for itself, so it replaces no other. -/
theorem Housed.promote (housed : w.Housed) {key : TypeHash} {ptr : Ptr}
    (parked : w.archetypesStaging[key]? = some ptr) (holds : w.holdsRows ptr = true) :
    ∃ after, w.promote key = some after ∧ after.Housed ∧ after.tables = w.tables ∧
      after.entityIds = w.entityIds ∧
      ∀ other : TypeHash, after.archetypesStaging[other]? =
        if key = other then none else w.archetypesStaging[other]? := by
  have alone : w.archetypes[key]? = none := by
    rw [Option.eq_none_iff_forall_ne_some]
    intro other inArchetypes
    rw [housed.twins key ptr other inArchetypes parked] at holds
    cases holds
  have promoted : w.promote key = some { w with
      archetypes := w.archetypes.insert key ptr
      archetypesStaging := w.archetypesStaging.erase key } := by
    simp [World.promote, parked, insertArchetypes, alone, dropTable]
  refine ⟨_, promoted, ?_, rfl, rfl, BTreeMap.getElem?_erase _ key⟩
  · have archetypes : ∀ other : TypeHash, (w.archetypes.insert key ptr)[other]? =
        if key = other then some ptr else w.archetypes[other]? :=
      BTreeMap.getElem?_insert w.archetypes key ptr
    have staging : ∀ other : TypeHash, (w.archetypesStaging.erase key)[other]? =
        if key = other then none else w.archetypesStaging[other]? :=
      BTreeMap.getElem?_erase w.archetypesStaging key
    refine { archetypes := ?_, staging := ?_, owner := ?_, unshared := ?_,
             fresh := housed.fresh, pointers := housed.pointers,
             covered := housed.covered, twins := ?_ }
    · intro other target owner
      rw [archetypes] at owner
      split at owner
      · rename_i same
        cases owner
        exact same ▸ housed.staging key ptr parked
      · exact housed.archetypes other target owner
    · intro other target owner
      rw [staging] at owner
      split at owner
      · cases owner
      · exact housed.staging other target owner
    · intro target table found
      rw [archetypes, staging]
      by_cases same : key = table.ty
      · rw [if_pos same, if_pos same]
        left
        rcases housed.owner target table found with owner | owner
        · rw [← same, alone] at owner
          cases owner
        · rw [← same, parked] at owner
          exact owner
      · rw [if_neg same, if_neg same]
        exact housed.owner target table found
    · intro other target owner inStaging
      rw [staging] at inStaging
      split at inStaging
      · cases inStaging
      · rename_i different
        rw [archetypes, if_neg different] at owner
        exact housed.unshared other target owner inStaging
    · intro other target twin inArchetypes inStaging
      rw [staging] at inStaging
      split at inStaging
      · cases inStaging
      · rename_i different
        rw [archetypes, if_neg different] at inArchetypes
        exact housed.twins other target twin inArchetypes inStaging

theorem Housed.promotions (housed : w.Housed) {keys : List TypeHash} (distinct : keys.Nodup)
    (queued : ∀ key ∈ keys, ∃ ptr, w.archetypesStaging[key]? = some ptr ∧
      w.holdsRows ptr = true) :
    ∃ after, keys.foldlM World.promote w = some after ∧ after.Housed ∧
      after.tables = w.tables ∧ after.entityIds = w.entityIds ∧
      ∀ other : TypeHash, after.archetypesStaging[other]? =
        if other ∈ keys then none else w.archetypesStaging[other]? := by
  induction keys generalizing w with
  | nil => exact ⟨w, rfl, housed, rfl, rfl, fun _ => rfl⟩
  | cons key keys induction =>
      rcases queued key List.mem_cons_self with ⟨ptr, parked, holds⟩
      rcases housed.promote parked holds with
        ⟨middle, promoted, housedMiddle, tables, entityIds, staging⟩
      have queuedMiddle : ∀ other ∈ keys, ∃ ptr, middle.archetypesStaging[other]? = some ptr ∧
          middle.holdsRows ptr = true := by
        intro other member
        rcases queued other (List.mem_cons_of_mem key member) with ⟨target, inStaging, full⟩
        refine ⟨target, ?_, ?_⟩
        · rw [staging, if_neg, inStaging]
          intro same
          exact (List.nodup_cons.mp distinct).1 (same ▸ member)
        · rw [holdsRows_congr (congrFun tables target), full]
      rcases induction housedMiddle (List.nodup_cons.mp distinct).2 queuedMiddle with
        ⟨after, rest, housedAfter, tablesAfter, entityIdsAfter, stagingAfter⟩
      refine ⟨after, ?_, housedAfter, tablesAfter.trans tables,
        entityIdsAfter.trans entityIds, ?_⟩
      · rw [List.foldlM_cons, promoted]
        exact rest
      · intro other
        rw [stagingAfter, staging]
        grind

/-- The box that a demotion drops holds no entity. -/
theorem Housed.demote (housed : w.Housed) {key : TypeHash} {ptr : Ptr}
    (owner : w.archetypes[key]? = some ptr) (empty : w.holdsRows ptr = false) :
    ∃ after, w.demote key = some after ∧ after.Housed ∧ Keeps w after ∧
      (∀ other : TypeHash, after.archetypes[other]? =
        if key = other then none else w.archetypes[other]?) ∧
      (w.ParkedEmpty → after.ParkedEmpty) ∧
      ∀ target, w.holdsRows target = false → after.holdsRows target = false := by
  have tables : ∀ target table,
      dropTable w.tables w.archetypesStaging[key]? target = some table ↔
        w.tables target = some table ∧ w.archetypesStaging[key]? ≠ some target := by
    intro target table
    cases w.archetypesStaging[key]? with
    | none => simp [dropTable]
    | some old =>
        rw [dropTable, Function.update_apply]
        by_cases same : target = old
        · simp [same]
        · simp [same, Ne.symm same]
  have dropped : ∀ target, w.archetypesStaging[key]? = some target →
      w.holdsRows target = false := fun target => housed.twins key target ptr owner
  have archetypes : ∀ other : TypeHash, (w.archetypes.erase key)[other]? =
      if key = other then none else w.archetypes[other]? :=
    BTreeMap.getElem?_erase w.archetypes key
  have staging : ∀ other : TypeHash, (w.archetypesStaging.insert key ptr)[other]? =
      if key = other then some ptr else w.archetypesStaging[other]? :=
    BTreeMap.getElem?_insert w.archetypesStaging key ptr
  have demoted : w.demote key = some { w with
      tables := dropTable w.tables w.archetypesStaging[key]?
      archetypes := w.archetypes.erase key
      archetypesStaging := w.archetypesStaging.insert key ptr } := by
    simp [World.demote, owner, insertStaging]
  -- Tables of other keys stay, and so does the table that is parked.
  have present : ∀ (other : TypeHash) (target : Ptr),
      (∃ table, w.tables target = some table ∧ table.ty = other) →
      w.archetypesStaging[key]? ≠ some target →
      ∃ table, dropTable w.tables w.archetypesStaging[key]? target = some table ∧
        table.ty = other := by
    intro other target before kept
    rcases before with ⟨table, found, ty⟩
    exact ⟨table, (tables target table).mpr ⟨found, kept⟩, ty⟩
  have holds : ∀ target, w.holdsRows target = false →
      ({ w with
          tables := dropTable w.tables w.archetypesStaging[key]?
          archetypes := w.archetypes.erase key
          archetypesStaging := w.archetypesStaging.insert key ptr } : World Value).holdsRows
        target = false := by
    intro target without
    cases found : dropTable w.tables w.archetypesStaging[key]? target with
    | none => exact holdsRows_of_absent found
    | some table =>
        rw [holdsRows_eq_false ((tables target table).mp found).1] at without
        exact (holdsRows_eq_false found).mpr without
  refine ⟨_, demoted, ?_, ⟨rfl, ?_⟩, archetypes, ?_, holds⟩
  · refine { archetypes := ?_, staging := ?_, owner := ?_, unshared := ?_, fresh := ?_,
             pointers := ?_, covered := ?_, twins := ?_ }
    · intro other target inArchetypes
      rw [archetypes] at inArchetypes
      split at inArchetypes
      · cases inArchetypes
      · rename_i different
        apply present other target (housed.archetypes other target inArchetypes)
        intro parked
        exact different (housed.key_unique parked (Or.inl inArchetypes)).2.symm
    · intro other target inStaging
      rw [staging] at inStaging
      split at inStaging
      · rename_i same
        cases inStaging
        exact present other ptr (same ▸ housed.archetypes key ptr owner)
          (housed.unshared key ptr owner)
      · rename_i different
        apply present other target (housed.staging other target inStaging)
        intro parked
        exact different (housed.key_unique parked (Or.inr inStaging)).2.symm
    · intro target table found
      rcases (tables target table).mp found with ⟨foundBefore, kept⟩
      rw [archetypes, staging]
      by_cases same : key = table.ty
      · rw [if_pos same, if_pos same]
        right
        rcases housed.owner target table foundBefore with before | before
        · rw [← same, owner] at before
          exact before
        · exact absurd (same ▸ before) kept
      · rw [if_neg same, if_neg same]
        exact housed.owner target table foundBefore
    · intro other target inArchetypes inStaging
      rw [archetypes] at inArchetypes
      split at inArchetypes
      · cases inArchetypes
      · rename_i different
        rw [staging, if_neg different] at inStaging
        exact housed.unshared other target inArchetypes inStaging
    · intro target table found
      exact housed.fresh target table ((tables target table).mp found).1
    · intro slot target pointer
      rcases housed.pointed pointer with ⟨table, found, positive⟩
      refine ⟨table, (tables target table).mpr ⟨found, ?_⟩⟩
      intro parked
      have without := (holdsRows_eq_false found).mp (dropped target parked)
      omega
    · intro target table found
      exact housed.covered target table ((tables target table).mp found).1
    · intro other target twin inArchetypes inStaging
      rw [archetypes] at inArchetypes
      split at inArchetypes
      · cases inArchetypes
      · rename_i different
        rw [staging, if_neg different] at inStaging
        exact holds target (housed.twins other target twin inArchetypes inStaging)
  · intro target table found positive
    refine (tables target table).mpr ⟨found, ?_⟩
    intro parked
    have without := (holdsRows_eq_false found).mp (dropped target parked)
    omega
  · intro parkedEmpty other target inStaging
    apply holds
    rw [staging] at inStaging
    split at inStaging
    · cases inStaging
      exact empty
    · exact parkedEmpty other target inStaging

theorem Housed.demotions (housed : w.Housed) (parkedEmpty : w.ParkedEmpty)
    {keys : List TypeHash} (distinct : keys.Nodup)
    (queued : ∀ key ∈ keys, ∃ ptr, w.archetypes[key]? = some ptr ∧ w.holdsRows ptr = false) :
    ∃ after, keys.foldlM World.demote w = some after ∧ after.Housed ∧ after.ParkedEmpty ∧
      Keeps w after := by
  induction keys generalizing w with
  | nil => exact ⟨w, rfl, housed, parkedEmpty, rfl, fun _ _ found _ => found⟩
  | cons key keys induction =>
      rcases queued key List.mem_cons_self with ⟨ptr, owner, empty⟩
      rcases housed.demote owner empty with
        ⟨middle, demoted, housedMiddle, keeps, archetypes, parked, holds⟩
      have queuedMiddle : ∀ other ∈ keys, ∃ ptr, middle.archetypes[other]? = some ptr ∧
          middle.holdsRows ptr = false := by
        intro other member
        rcases queued other (List.mem_cons_of_mem key member) with ⟨target, owner, without⟩
        refine ⟨target, ?_, holds target without⟩
        rw [archetypes, if_neg, owner]
        intro same
        exact (List.nodup_cons.mp distinct).1 (same ▸ member)
      rcases induction housedMiddle (parked parkedEmpty) (List.nodup_cons.mp distinct).2
          queuedMiddle with
        ⟨after, rest, housedAfter, parkedAfter, keepsAfter⟩
      refine ⟨after, ?_, housedAfter, parkedAfter, keeps.trans keepsAfter⟩
      rw [List.foldlM_cons, demoted]
      exact rest

theorem mem_promotionQueue {key : TypeHash} : key ∈ w.promotionQueue ↔
    ∃ ptr, w.archetypesStaging[key]? = some ptr ∧ w.holdsRows ptr = true := by
  simp only [promotionQueue, List.mem_map, List.mem_filter, Prod.exists, BTreeMap.mem_toList,
    exists_and_right, exists_eq_right]

theorem of_mem_demotionQueue {key : TypeHash} (member : key ∈ w.demotionQueue) :
    ∃ ptr, w.archetypes[key]? = some ptr ∧ w.holdsRows ptr = false := by
  rcases List.mem_map.mp member with ⟨⟨_, ptr⟩, inQueue, rfl⟩
  rcases List.mem_filter.mp inQueue with ⟨owner, test⟩
  simp only [Bool.and_eq_true, Bool.not_eq_true'] at test
  exact ⟨ptr, BTreeMap.mem_toList.mp owner, test.2⟩

theorem promotionQueue_nodup (w : World Value) : w.promotionQueue.Nodup :=
  (BTreeMap.toList_map_fst_nodup w.archetypesStaging).sublist
    (List.filter_sublist.map Prod.fst)

theorem demotionQueue_nodup (w : World Value) : w.demotionQueue.Nodup :=
  (BTreeMap.toList_map_fst_nodup w.archetypes).sublist (List.filter_sublist.map Prod.fst)

/-- The end of `apply_commands` succeeds, loses nothing and leaves no parked table
with rows. -/
theorem Housed.moveArchetypes (housed : w.Housed) :
    ∃ after, w.moveArchetypes = some after ∧ after.Housed ∧ after.ParkedEmpty ∧
      Keeps w after := by
  rcases housed.promotions w.promotionQueue_nodup fun key => mem_promotionQueue.mp with
    ⟨promoted, promotion, housedPromoted, tables, entityIds, staging⟩
  have parkedEmpty : promoted.ParkedEmpty := by
    intro key ptr parked
    rw [staging] at parked
    split at parked
    · cases parked
    · rename_i unqueued
      rw [holdsRows_congr (congrFun tables ptr), ← Bool.not_eq_true]
      intro holds
      exact unqueued (mem_promotionQueue.mpr ⟨ptr, parked, holds⟩)
  rcases housedPromoted.demotions parkedEmpty promoted.demotionQueue_nodup
      fun key => of_mem_demotionQueue with
    ⟨after, demotion, housedAfter, parkedAfter, keeps⟩
  refine ⟨after, ?_, housedAfter, parkedAfter, (Keeps.of_tables entityIds tables).trans keeps⟩
  rw [World.moveArchetypes, promotion]
  exact demotion

end MoveArchetypes

/-- `vacuum` drops no entity's table as long as the parked ones are empty. -/
theorem Housed.vacuum (housed : w.Housed) (parkedEmpty : w.ParkedEmpty) :
    w.vacuum.Housed ∧ w.vacuum.ParkedEmpty ∧ Keeps w w.vacuum := by
  have tables : ∀ ptr table, w.vacuum.tables ptr = some table ↔
      w.tables ptr = some table ∧ ∀ key : TypeHash, w.archetypesStaging[key]? ≠ some ptr := by
    intro ptr table
    have parked : (w.archetypesStaging.toList.map Prod.snd).contains ptr = true ↔
        ∃ key : TypeHash, w.archetypesStaging[key]? = some ptr := by
      simp only [List.contains_iff_mem, List.mem_map, Prod.exists, BTreeMap.mem_toList,
        exists_eq_right]
    simp only [World.vacuum, parked, ne_eq, ← not_exists]
    by_cases inStaging : ∃ key : TypeHash, w.archetypesStaging[key]? = some ptr
    · simp [inStaging]
    · simp [inStaging]
  have kept : ∀ ptr table, w.tables ptr = some table → 0 < table.rows →
      w.vacuum.tables ptr = some table := by
    intro ptr table found positive
    refine (tables ptr table).mpr ⟨found, ?_⟩
    intro key parked
    have without := (holdsRows_eq_false found).mp (parkedEmpty key ptr parked)
    omega
  have staging : ∀ (key : TypeHash) (ptr : Ptr), w.vacuum.archetypesStaging[key]? ≠ some ptr := by
    intro key ptr
    simp [World.vacuum]
  refine ⟨?_, fun key ptr parked => absurd parked (staging key ptr), rfl, kept⟩
  refine { archetypes := ?_, staging := ?_, owner := ?_, unshared := ?_, fresh := ?_,
           pointers := ?_, covered := ?_, twins := ?_ }
  · intro key ptr owner
    rcases housed.archetypes key ptr owner with ⟨table, found, ty⟩
    refine ⟨table, (tables ptr table).mpr ⟨found, ?_⟩, ty⟩
    intro other parked
    have keyed := housed.key_unique parked (Or.inl owner)
    exact housed.unshared key ptr owner keyed.1
  · exact fun key ptr parked => absurd parked (staging key ptr)
  · intro ptr table found
    rcases (tables ptr table).mp found with ⟨foundBefore, unparked⟩
    left
    rcases housed.owner ptr table foundBefore with owner | owner
    · exact owner
    · exact absurd owner (unparked table.ty)
  · exact fun key ptr _ => staging key ptr
  · intro ptr table found
    exact housed.fresh ptr table ((tables ptr table).mp found).1
  · intro slot ptr pointer
    rcases housed.pointed pointer with ⟨table, found, positive⟩
    exact ⟨table, kept ptr table found positive⟩
  · intro ptr table found
    exact housed.covered ptr table ((tables ptr table).mp found).1
  · exact fun key ptr _ _ parked => absurd parked (staging key ptr)

end World

end Cecs

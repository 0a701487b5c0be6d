import Cecs.Query
import Cecs.World.Housed

/-! # Cloning a world

The clone owns copies of the tables that queries walk, and the entities that are
found there are pointed to the copies. A copy's address is the original's plus the
number of all allocations so far, so no old pointer is valid in the clone. -/

namespace Cecs

open Foundation

namespace World

variable {Value : Type}

/-- The ids that `Query::<EntityId>` yields. -/
def listedIds (w : World Value) : List EntityId :=
  w.walked.flatMap fun entry => entry.2.entities

def clonedArchetypes (w : World Value) : BTreeMap TypeHash Ptr :=
  w.archetypes.map fun _ ptr => w.nextTable + ptr

/-- The memory of the clone. -/
def clonedTables (w : World Value) (ptr : Ptr) : Option (EntityTable Value) :=
  if w.nextTable ≤ ptr ∧ (w.archetypes.toList.map Prod.snd).contains (ptr - w.nextTable) then
    w.tables (ptr - w.nextTable)
  else
    none

/-- The body of the loop: the entry of `id` gets the new table of the same type. -/
def cloneEntry (w : World Value) (entityIds : EntityIndex) (id : EntityId) :
    Option EntityIndex := do
  let (ptr, rowIndex) ← (w.entityIds.read id).toOption
  let table ← w.tables ptr
  let newArch ← w.clonedArchetypes[table.ty]?
  entityIds.update id newArch rowIndex

def clone (w : World Value) : Option (World Value) := do
  let entityIds ← w.entityIds.clone
  return { entityIds := ← w.listedIds.foldlM w.cloneEntry entityIds
           tables := w.clonedTables
           nextTable := w.nextTable + w.nextTable
           archetypes := w.clonedArchetypes
           archetypesStaging := ∅
           resources := w.resources
           commands := [] }

theorem iter_entityId (w : World Value) (filter : Filter) :
    Query.iter ⟨.entityId, filter⟩ w =
      ((Query.archetypes ⟨.entityId, filter⟩ w).flatMap fun entry =>
        entry.2.entities).map .entityId := by
  rw [List.map_flatMap]
  rfl

/-- Every entity is listed in a table that queries walk. -/
def AllListed (w : World Value) : Prop :=
  ∀ slot ptr, w.entityIds.arch slot = some ptr → ∃ id ∈ w.listedIds, id.index = slot

variable {w after : World Value}

theorem getElem?_clonedArchetypes {key : TypeHash} {ptr : Ptr} :
    w.clonedArchetypes[key]? = some ptr ↔
      ∃ before, w.archetypes[key]? = some before ∧ w.nextTable + before = ptr := by
  rw [clonedArchetypes, Std.ExtTreeMap.getElem?_map, Option.map_eq_some_iff]

theorem clonedTables_eq_some {ptr : Ptr} {table : EntityTable Value} :
    w.clonedTables ptr = some table ↔ ∃ before, ptr = w.nextTable + before ∧
      (∃ key : TypeHash, w.archetypes[key]? = some before) ∧ w.tables before = some table := by
  have owned : ∀ before, (w.archetypes.toList.map Prod.snd).contains before = true ↔
      ∃ key : TypeHash, w.archetypes[key]? = some before := by
    intro before
    simp only [List.contains_iff_mem, List.mem_map, Prod.exists, BTreeMap.mem_toList,
      exists_eq_right]
  rw [clonedTables]
  constructor
  · intro found
    split at found
    · rename_i copied
      exact ⟨ptr - w.nextTable, (Nat.add_sub_cancel' copied.1).symm, (owned _).mp copied.2,
        found⟩
    · cases found
  · intro found
    rcases found with ⟨before, rfl, owner, foundBefore⟩
    rw [Nat.add_sub_cancel_left, if_pos ⟨Nat.le_add_right .., (owned before).mpr owner⟩]
    exact foundBefore

theorem arch_clone {result : EntityIndex} (cloned : w.entityIds.clone = some result) :
    result.cap = w.entityIds.cap ∧ result.arch = w.entityIds.arch := by
  simp only [EntityIndex.clone, Option.bind_eq_bind, Option.bind_eq_some_iff, Option.pure_def,
    Option.some.injEq] at cloned
  rcases cloned with ⟨_, _, _, _, rfl⟩
  exact ⟨rfl, rfl⟩

/-- A listed entity is pointed to the copy of its own table. -/
theorem Housed.cloneEntry (housed : w.Housed) {index result : EntityIndex} {id : EntityId}
    (cloned : w.cloneEntry index id = some result) :
    ∃ (key : TypeHash) (ptr : Ptr), w.archetypes[key]? = some ptr ∧
      w.entityIds.arch id.index = some ptr ∧
      index.Repoints result id.index (some (w.nextTable + ptr)) := by
  simp only [World.cloneEntry, Option.bind_eq_bind, Option.bind_eq_some_iff] at cloned
  rcases cloned with ⟨⟨ptr, row⟩, read, table, found, newArch, lookup, updated⟩
  have live := EntityIndex.read_of_place read
  have pointer := EntityIndex.arch_of_read live
  rcases getElem?_clonedArchetypes.mp lookup with ⟨before, owner, rfl⟩
  -- The table of the entity is the one that `archetypes` has under its type.
  have same : before = ptr := by
    rcases housed.live live with ⟨other, foundOther, positive, owners⟩
    rw [found, Option.some.injEq] at foundOther
    subst foundOther
    rcases owners with inArchetypes | inStaging
    · rw [owner] at inArchetypes
      exact Option.some.inj inArchetypes
    · have without := (holdsRows_eq_false found).mp (housed.twins _ ptr before owner inStaging)
      omega
  exact ⟨table.ty, ptr, same ▸ owner, pointer, same ▸ EntityIndex.update_repoints updated⟩

theorem Housed.cloneEntries (housed : w.Housed) {ids : List EntityId}
    {index result : EntityIndex} (cloned : ids.foldlM w.cloneEntry index = some result) :
    result.cap = index.cap ∧
      (∀ id ∈ ids, ∃ (key : TypeHash) (ptr : Ptr), w.archetypes[key]? = some ptr ∧
        w.entityIds.arch id.index = some ptr) ∧
      ∀ slot, result.arch slot =
        if slot ∈ ids.map EntityId.index then
          (w.entityIds.arch slot).map (w.nextTable + ·)
        else index.arch slot := by
  induction ids generalizing index with
  | nil =>
      cases cloned
      exact ⟨rfl, fun id member => absurd member List.not_mem_nil, fun _ => rfl⟩
  | cons id ids induction =>
      rw [List.foldlM_cons] at cloned
      rcases Option.bind_eq_some_iff.mp cloned with ⟨middle, entry, rest⟩
      rcases housed.cloneEntry entry with ⟨key, ptr, owner, pointer, repoints⟩
      rcases induction rest with ⟨cap, walked, arch⟩
      refine ⟨cap.trans repoints.cap, ?_, ?_⟩
      · intro other member
        rcases List.mem_cons.mp member with rfl | member
        · exact ⟨key, ptr, owner, pointer⟩
        · exact walked other member
      · intro slot
        have cases : slot ∈ (id :: ids).map EntityId.index ↔
            slot = id.index ∨ slot ∈ ids.map EntityId.index := List.mem_cons
        rw [arch, repoints.arch, Function.update_apply]
        by_cases listed : slot ∈ ids.map EntityId.index
        · rw [if_pos listed, if_pos (cases.mpr (Or.inr listed))]
        · by_cases same : slot = id.index
          · rw [if_neg listed, if_pos same, if_pos (cases.mpr (Or.inl same)), same, pointer]
            rfl
          · rw [if_neg listed, if_neg same, if_neg (cases.not.mpr (not_or.mpr ⟨same, listed⟩))]

/-- The clone, up to its index. -/
def cloneWith (w : World Value) (index : EntityIndex) : World Value where
  entityIds := index
  tables := w.clonedTables
  nextTable := w.nextTable + w.nextTable
  archetypes := w.clonedArchetypes
  archetypesStaging := ∅
  resources := w.resources
  commands := []

theorem clone_eq_some (cloned : w.clone = some after) :
    ∃ copied index, w.entityIds.clone = some copied ∧
      w.listedIds.foldlM w.cloneEntry copied = some index ∧ after = w.cloneWith index := by
  simp only [World.clone, Option.bind_eq_bind, Option.bind_eq_some_iff, Option.pure_def,
    Option.some.injEq] at cloned
  rcases cloned with ⟨copied, copying, index, entries, rfl⟩
  exact ⟨copied, index, copying, entries, rfl⟩

theorem nothing_staged (key : TypeHash) (ptr : Ptr) :
    (∅ : BTreeMap TypeHash Ptr)[key]? ≠ some ptr := by
  rw [Std.ExtTreeMap.getElem?_empty]
  exact nofun

/-- The clone owns the copies. -/
theorem Owned.cloneWith (owned : w.Owned) (index : EntityIndex) : (w.cloneWith index).Owned where
  archetypes key ptr owner := by
    rcases getElem?_clonedArchetypes.mp owner with ⟨before, ownerBefore, rfl⟩
    rcases owned.archetypes key before ownerBefore with ⟨table, found, ty⟩
    exact ⟨table, clonedTables_eq_some.mpr ⟨before, rfl, ⟨key, ownerBefore⟩, found⟩, ty⟩
  staging key ptr found := absurd found (nothing_staged key ptr)
  owner ptr table found := by
    rcases clonedTables_eq_some.mp found with ⟨before, rfl, ⟨key, owner⟩, foundBefore⟩
    rcases owned.archetypes key before owner with ⟨same, foundSame, rfl⟩
    rw [foundBefore, Option.some.injEq] at foundSame
    subst foundSame
    exact Or.inl (getElem?_clonedArchetypes.mpr ⟨before, owner, rfl⟩)
  unshared key ptr _ := nothing_staged key ptr
  fresh ptr table found := by
    rcases clonedTables_eq_some.mp found with ⟨before, rfl, _, foundBefore⟩
    exact Nat.add_lt_add_left (owned.fresh before table foundBefore) w.nextTable

/-- When all entities are listed, each points into the clone. -/
theorem Housed.clone (housed : w.Housed) (listed : w.AllListed)
    (cloned : w.clone = some after) : after.Housed ∧ after.ParkedEmpty := by
  rcases clone_eq_some cloned with ⟨index, result, copied, entries, rfl⟩
  rcases arch_clone copied with ⟨sameCap, sameArch⟩
  rcases housed.cloneEntries entries with ⟨cap, walks, arch⟩
  have relocated : ∀ slot, result.arch slot =
      (w.entityIds.arch slot).map (w.nextTable + ·) := by
    intro slot
    rw [arch]
    split
    · rfl
    · rename_i unlisted
      rw [sameArch]
      cases pointer : w.entityIds.arch slot with
      | none => rfl
      | some ptr =>
          rcases listed slot ptr pointer with ⟨id, member, rfl⟩
          exact absurd (List.mem_map_of_mem member) unlisted
  -- An entity's table is walked, or the entity would not be listed.
  have walked : ∀ slot ptr, w.entityIds.arch slot = some ptr →
      ∃ key : TypeHash, w.archetypes[key]? = some ptr := by
    intro slot ptr pointer
    rcases listed slot ptr pointer with ⟨id, member, rfl⟩
    rcases walks id member with ⟨key, target, owner, pointed⟩
    rw [pointer, Option.some.injEq] at pointed
    exact ⟨key, pointed ▸ owner⟩
  refine ⟨?_, fun key ptr found => absurd found (nothing_staged key ptr)⟩
  refine { housed.toOwned.cloneWith result with
    pointers := ?_, covered := ?_
    twins := fun key ptr _ _ found => absurd found (nothing_staged key ptr) }
  · intro slot ptr pointer
    have pointed : result.arch slot = some ptr := pointer
    rw [relocated, Option.map_eq_some_iff] at pointed
    rcases pointed with ⟨before, pointerBefore, rfl⟩
    rcases housed.pointers slot before pointerBefore with ⟨table, found⟩
    exact ⟨table, clonedTables_eq_some.mpr ⟨before, rfl, walked slot before pointerBefore, found⟩⟩
  · intro ptr table found
    rcases clonedTables_eq_some.mp found with ⟨before, rfl, _, foundBefore⟩
    have population := EntityIndex.population_relocated (add_right_injective w.nextTable)
      (cap.trans sameCap) relocated before
    change result.population (w.nextTable + before) ≤ table.rows
    rw [population]
    exact housed.covered before table foundBefore

end World

end Cecs

import Cecs.EntityIndex.Sound
import Mathlib.Data.List.Count

/-! # How many entries point to a table

What each operation of the index does to the table pointers of its entries,
whatever the state of the index. -/

namespace Cecs

namespace EntityIndex

def arch (index : EntityIndex) (slot : Nat) : Option Ptr :=
  index.entries[slot]?.bind Entry.arch

/-- The number of entries that point to a table. -/
def population (index : EntityIndex) (ptr : Ptr) : Nat :=
  index.entries.countP fun entry => decide (entry.arch = some ptr)

/-- One if the pointer is `ptr`. -/
def pointsTo (pointer : Option Ptr) (ptr : Ptr) : Nat :=
  if pointer = some ptr then 1 else 0

@[simp] theorem pointsTo_none (ptr : Ptr) : pointsTo none ptr = 0 := rfl

variable {index result : EntityIndex} {id : EntityId}

theorem population_set {slot : Nat} {before after : Entry}
    (found : index.entries[slot]? = some before)
    (entries : result.entries = index.entries.set slot after) (ptr : Ptr) :
    result.population ptr + pointsTo before.arch ptr =
      index.population ptr + pointsTo after.arch ptr := by
  rcases List.getElem?_eq_some_iff.mp found with ⟨inRange, rfl⟩
  have bound := List.boole_getElem_le_countP
    (p := fun entry : Entry => decide (entry.arch = some ptr)) inRange
  simp only [population, pointsTo, entries, List.countP_set inRange, decide_eq_true_eq]
    at bound ⊢
  omega

theorem arch_set {slot : Nat} {before after : Entry}
    (found : index.entries[slot]? = some before)
    (entries : result.entries = index.entries.set slot after) :
    result.arch = Function.update index.arch slot after.arch := by
  rcases List.getElem?_eq_some_iff.mp found with ⟨inRange, _⟩
  funext other
  by_cases same : other = slot
  · subst same
    simp [arch, entries, inRange]
  · simp [arch, entries, Function.update_of_ne same, List.getElem?_set_ne (Ne.symm same)]

theorem arch_of_read {ptr : Ptr} {row : Nat} (live : index.read id = .ok (ptr, row)) :
    index.arch id.index = some ptr := by
  rcases place_eq_some_iff.mp (place_of_read live) with ⟨entry, found, _, pointer, _⟩
  simp [arch, found, pointer]

/-- The entity that an entry with a table belongs to. -/
theorem Sound.place_of_arch {slots : List Nat} (sound : index.Sound slots) {slot : Nat}
    {ptr : Ptr} (pointer : index.arch slot = some ptr) :
    ∃ (id : EntityId) (row : Nat), id.index = slot ∧ index.place id = some (ptr, row) := by
  rcases Option.bind_eq_some_iff.mp pointer with ⟨entry, found, points⟩
  have inRange := (List.getElem?_eq_some_iff.mp found).1
  have packable : EntityId.Packable slot entry.generation :=
    ⟨Nat.le_of_lt (Nat.lt_trans inRange sound.capLt), sound.generationLe _ entry found⟩
  have sameIndex := EntityId.index_new packable
  refine ⟨EntityId.new slot entry.generation, entry.rowIndex, sameIndex, ?_⟩
  rw [place_eq_some_iff, sameIndex, EntityId.generation_new packable]
  exact ⟨entry, found, rfl, points, rfl⟩

/-- An entry of a table is counted. -/
theorem population_pos {slot : Nat} {ptr : Ptr} (pointer : index.arch slot = some ptr) :
    0 < index.population ptr := by
  rcases Option.bind_eq_some_iff.mp pointer with ⟨entry, found, points⟩
  exact List.countP_pos_iff.mpr ⟨entry, List.mem_of_getElem? found, by simp [points]⟩

/-- A table that no entry points to. -/
theorem population_eq_zero {ptr : Ptr} :
    index.population ptr = 0 ↔ ∀ slot, index.arch slot ≠ some ptr := by
  constructor
  · intro none slot pointer
    have positive := population_pos pointer
    omega
  · intro none
    rw [population, List.countP_eq_zero]
    intro entry member
    rcases List.mem_iff_getElem?.mp member with ⟨slot, found⟩
    have unpointed := none slot
    simp only [arch, found, Option.bind_some] at unpointed
    simp [unpointed]

/-- A population moves with its table. -/
theorem population_relocated {relocate : Ptr → Ptr} (injective : Function.Injective relocate)
    (cap : result.cap = index.cap)
    (arch : ∀ slot, result.arch slot = (index.arch slot).map relocate) (ptr : Ptr) :
    result.population (relocate ptr) = index.population ptr := by
  have pointers : result.entries.map Entry.arch =
      (index.entries.map Entry.arch).map (Option.map relocate) := by
    apply List.ext_getElem?
    intro slot
    have pointer := arch slot
    simp only [EntityIndex.arch, List.getElem?_map] at pointer ⊢
    cases before : index.entries[slot]? with
    | none =>
        have outside : result.entries[slot]? = none := by
          rw [List.getElem?_eq_none_iff] at before ⊢
          exact Nat.le_trans (Nat.le_of_eq cap) before
        simp [outside]
    | some entry =>
        have inside : slot < result.entries.length := by
          have within := (List.getElem?_eq_some_iff.mp before).1
          exact Nat.lt_of_lt_of_eq within cap.symm
        rw [before, List.getElem?_eq_getElem inside] at pointer
        rw [List.getElem?_eq_getElem inside]
        simpa using pointer
  have counted : ∀ (entityIds : EntityIndex) (target : Ptr), entityIds.population target =
      (entityIds.entries.map Entry.arch).count (some target) := by
    intro entityIds target
    rw [population, List.count, List.countP_map]
    apply List.countP_congr
    intro entry _
    simp
  rw [counted, counted, pointers]
  exact List.count_map_of_injective _ _ (Option.map_injective injective) (some ptr)

/-- The tables of the entries after an operation that writes one entry. -/
structure Repoints (index result : EntityIndex) (slot : Nat) (pointer : Option Ptr) :
    Prop where
  cap : result.cap = index.cap
  arch : result.arch = Function.update index.arch slot pointer
  population : ∀ ptr, result.population ptr + pointsTo (index.arch slot) ptr =
    index.population ptr + pointsTo pointer ptr

theorem repoints_set {slot : Nat} {pointer : Option Ptr} {before after : Entry}
    (found : index.entries[slot]? = some before)
    (entries : result.entries = index.entries.set slot after)
    (points : after.arch = pointer) : Repoints index result slot pointer where
  cap := by simp [EntityIndex.cap, entries]
  arch := points ▸ arch_set found entries
  population ptr := by
    have old : index.arch slot = before.arch := by simp [EntityIndex.arch, found]
    rw [old, ← points]
    exact population_set found entries ptr

/-- The tables of the entries are the same, and so is the number of entities. -/
structure SamePointers (index result : EntityIndex) : Prop where
  cap : result.cap = index.cap
  count : result.count = index.count
  arch : result.arch = index.arch
  population : result.population = index.population

theorem Repoints.same {slot : Nat} {pointer : Option Ptr}
    (repoints : Repoints index result slot pointer) (unchanged : index.arch slot = pointer)
    (count : result.count = index.count) : SamePointers index result where
  cap := repoints.cap
  count := count
  arch := by
    rw [repoints.arch, ← unchanged, Function.update_eq_self]
  population := by
    funext ptr
    have counted := repoints.population ptr
    rw [unchanged] at counted
    omega

theorem SamePointers.trans {middle : EntityIndex} (first : SamePointers index middle)
    (second : SamePointers middle result) : SamePointers index result where
  cap := second.cap.trans first.cap
  count := second.count.trans first.count
  arch := second.arch.trans first.arch
  population := second.population.trans first.population

/-- Moves inside the tables do not matter to the entry that is written next. -/
theorem SamePointers.repoints {middle : EntityIndex} {slot : Nat} {pointer : Option Ptr}
    (same : SamePointers index middle) (repoints : Repoints middle result slot pointer) :
    Repoints index result slot pointer where
  cap := repoints.cap.trans same.cap
  arch := by rw [repoints.arch, same.arch]
  population ptr := by
    have counted := repoints.population ptr
    rw [same.arch, same.population] at counted
    exact counted

theorem updateRowIndex_same {row : Nat} (updated : index.updateRowIndex id row = some result) :
    SamePointers index result := by
  simp only [updateRowIndex, Option.bind_eq_bind, Option.bind_eq_some_iff, Option.pure_def,
    Option.some.injEq] at updated
  rcases updated with ⟨entry, found, _, _, rfl⟩
  refine (repoints_set found rfl rfl).same ?_ rfl
  simp [arch, found]

theorem updateMoved_same {moved : Option EntityId} {row : Nat}
    (updated : index.updateMoved moved row = some result) : SamePointers index result := by
  cases moved with
  | none =>
      cases updated
      exact ⟨rfl, rfl, rfl, rfl⟩
  | some id => exact updateRowIndex_same updated

theorem update_repoints {ptr : Ptr} {row : Nat}
    (updated : index.update id ptr row = some result) :
    Repoints index result id.index (some ptr) := by
  simp only [update, Option.bind_eq_bind, Option.bind_eq_some_iff, Option.pure_def,
    Option.some.injEq] at updated
  rcases updated with ⟨entry, found, _, _, rfl⟩
  exact repoints_set found rfl rfl

theorem update_count {ptr : Ptr} {row : Nat}
    (updated : index.update id ptr row = some result) : result.count = index.count := by
  simp only [update, Option.bind_eq_bind, Option.bind_eq_some_iff, Option.pure_def,
    Option.some.injEq] at updated
  rcases updated with ⟨_, _, _, _, rfl⟩
  rfl

theorem free_repoints (freed : index.free id = some result) :
    Repoints index result id.index none := by
  simp only [free, freeListPush, Option.bind_eq_bind, Option.bind_eq_some_iff,
    Option.pure_def, Option.some.injEq] at freed
  rcases freed with ⟨_, _, entry, found, _, _, again, foundAgain, rfl⟩
  have inRange := (List.getElem?_eq_some_iff.mp found).1
  rw [List.getElem?_set_self inRange] at foundAgain
  cases foundAgain
  exact repoints_set found (List.set_set ..) rfl

/-- A freed handle is dead. -/
theorem place_free (freed : index.free id = some result) : result.place id = none := by
  have cleared : result.arch id.index = none := by
    rw [(free_repoints freed).arch, Function.update_self]
  cases placed : result.place id with
  | none => rfl
  | some spot =>
      have live := read_of_place placed
      rw [arch_of_read live] at cleared
      cases cleared

/-- Entries may lose their table, no entry gets one. -/
structure Fewer (index result : EntityIndex) : Prop where
  arch : ∀ slot ptr, result.arch slot = some ptr → index.arch slot = some ptr
  population : ∀ ptr, result.population ptr ≤ index.population ptr

theorem Fewer.trans {middle : EntityIndex} (first : Fewer index middle)
    (second : Fewer middle result) : Fewer index result where
  arch slot ptr pointer := first.arch slot ptr (second.arch slot ptr pointer)
  population ptr := Nat.le_trans (second.population ptr) (first.population ptr)

theorem fewer_set {slot : Nat} {before after : Entry}
    (found : index.entries[slot]? = some before)
    (entries : result.entries = index.entries.set slot after)
    (kept : after.arch = none ∨ after.arch = before.arch) :
    Fewer index result where
  arch other ptr pointer := by
    rw [arch_set found entries, Function.update_apply] at pointer
    split at pointer
    · subst slot
      rcases kept with vacant | same
      · rw [vacant] at pointer
        cases pointer
      · rw [same] at pointer
        simp [arch, found, pointer]
    · exact pointer
  population ptr := by
    have counted := population_set found entries ptr
    rcases kept with vacant | same
    · simp only [vacant, pointsTo, reduceCtorEq, if_false] at counted
      omega
    · rw [same] at counted
      omega

theorem arch_freshEntries {start stop last : Nat} {entry : Entry}
    (member : entry ∈ freshEntries start stop last) : entry.arch = none := by
  rcases List.mem_map.mp member with ⟨_, _, rfl⟩
  rfl

/-- A new index has no entities. -/
theorem arch_new {initialCapacity : Nat} (created : new initialCapacity = some result)
    (slot : Nat) : result.arch slot = none := by
  simp only [new, Option.bind_eq_bind, Option.bind_eq_some_iff, Option.pure_def,
    Option.some.injEq] at created
  rcases created with ⟨_, _, rfl⟩
  rw [Option.eq_none_iff_forall_ne_some]
  intro ptr pointer
  rcases Option.bind_eq_some_iff.mp pointer with ⟨entry, found, points⟩
  rw [arch_freshEntries (List.mem_of_getElem? found)] at points
  cases points

theorem grow_fewer {newCap : Nat} (grown : index.grow newCap = some result) :
    Fewer index result := by
  simp only [grow, Option.bind_eq_bind, Option.bind_eq_some_iff, Option.pure_def,
    Option.some.injEq] at grown
  rcases grown with ⟨_, _, _, _, _, _, rfl⟩
  constructor
  · intro slot ptr pointer
    rcases Option.bind_eq_some_iff.mp pointer with ⟨entry, found, points⟩
    rw [EntityIndex.grown, List.getElem?_append] at found
    split at found
    · simp [arch, found, points]
    · rw [arch_freshEntries (List.mem_of_getElem? found)] at points
      cases points
  · intro ptr
    have vacant : (freshEntries index.cap newCap index.freeList).countP
        (fun entry => decide (entry.arch = some ptr)) = 0 := by
      rw [List.countP_eq_zero]
      intro entry member
      simp [arch_freshEntries member]
    simp [population, EntityIndex.grown, List.countP_append, vacant]

theorem initAllocatedId_fewer {slot : Nat}
    (allocated : index.initAllocatedId slot = some (id, result)) : Fewer index result := by
  simp only [initAllocatedId, Option.bind_eq_bind, Option.bind_eq_some_iff, Option.pure_def,
    Option.some.injEq, Prod.mk.injEq] at allocated
  rcases allocated with ⟨entry, found, _, _, _, rfl⟩
  exact fewer_set found rfl (Or.inl rfl)

theorem freeListPop_fewer {slot : Option Nat}
    (popped : index.freeListPop = some (slot, result)) : Fewer index result := by
  rw [freeListPop] at popped
  split at popped
  · cases popped
    exact ⟨fun _ _ pointer => pointer, fun _ => Nat.le_refl _⟩
  · simp only [Option.bind_eq_bind, Option.bind_eq_some_iff, Option.pure_def,
      Option.some.injEq, Prod.mk.injEq] at popped
    rcases popped with ⟨_, _, _, rfl⟩
    exact ⟨fun _ _ pointer => pointer, fun _ => Nat.le_refl _⟩

/-- A slot comes from the free list, or from the end of the slots in use, if there is one. -/
theorem allocate_cases {outcome : Except HandleTableError EntityId}
    (allocated : index.allocate = some (outcome, result)) :
    (∃ slot popped id, index.freeListPop = some (some slot, popped) ∧
        popped.initAllocatedId slot = some (id, result)) ∨
      (∃ id, index.initAllocatedId index.count = some (id, result)) ∨ result = index := by
  simp only [allocate, Option.bind_eq_bind, Option.bind_eq_some_iff] at allocated
  rcases allocated with ⟨⟨slot, popped⟩, pop, rest⟩
  cases slot with
  | some slot =>
      simp only [Option.bind_eq_some_iff, Option.pure_def, Option.some.injEq,
        Prod.mk.injEq] at rest
      rcases rest with ⟨⟨id, allocated⟩, init, _, rfl⟩
      exact Or.inl ⟨slot, popped, id, pop, init⟩
  | none =>
      dsimp only at rest
      split at rest
      · cases rest
        exact Or.inr (Or.inr rfl)
      · simp only [Option.bind_eq_some_iff, Option.pure_def, Option.some.injEq,
          Prod.mk.injEq] at rest
        rcases rest with ⟨⟨id, allocated⟩, init, _, rfl⟩
        exact Or.inr (Or.inl ⟨id, init⟩)

theorem allocate_fewer {outcome : Except HandleTableError EntityId}
    (allocated : index.allocate = some (outcome, result)) : Fewer index result := by
  rcases allocate_cases allocated with ⟨_, _, _, pop, init⟩ | ⟨_, init⟩ | rfl
  · exact (freeListPop_fewer pop).trans (initAllocatedId_fewer init)
  · exact initAllocatedId_fewer init
  · exact ⟨fun _ _ pointer => pointer, fun _ => Nat.le_refl _⟩

theorem allocateWithResize_fewer (allocated : index.allocateWithResize = some (id, result)) :
    Fewer index result := by
  simp only [allocateWithResize, Option.bind_eq_bind, Option.bind_eq_some_iff] at allocated
  rcases allocated with ⟨resized, resize, ⟨outcome, after⟩, allocation, rest⟩
  have grown : Fewer index resized := by
    rw [growIfFull] at resize
    split at resize
    · exact grow_fewer resize
    · cases resize
      exact ⟨fun _ _ pointer => pointer, fun _ => Nat.le_refl _⟩
  cases outcome with
  | error error => cases rest
  | ok id =>
      cases rest
      exact grown.trans (allocate_fewer allocation)

theorem reserve_fewer {additional : Nat} (reserved : index.reserve additional = some result) :
    Fewer index result := by
  rw [reserve] at reserved
  split at reserved
  · exact grow_fewer reserved
  · cases reserved
    exact ⟨fun _ _ pointer => pointer, fun _ => Nat.le_refl _⟩

theorem writeLink_fewer {link : FreeListLink} {target : Nat}
    (written : index.writeLink link target = some result) : Fewer index result := by
  cases link with
  | head =>
      cases written
      exact ⟨fun _ _ pointer => pointer, fun _ => Nat.le_refl _⟩
  | entry slot =>
      simp only [writeLink, Option.bind_eq_bind, Option.bind_eq_some_iff, Option.pure_def,
        Option.some.injEq] at written
      rcases written with ⟨entry, found, rfl⟩
      exact fewer_set found rfl (Or.inr rfl)

theorem insertId_fewer {outcome : Except InsertError Unit}
    (inserted : index.insertId id = some (outcome, result)) : Fewer index result := by
  have refl : Fewer index index := ⟨fun _ _ pointer => pointer, fun _ => Nat.le_refl _⟩
  rw [insertId] at inserted
  dsimp only at inserted
  split at inserted
  · simp only [Option.bind_eq_bind, Option.bind_eq_some_iff, Option.pure_def,
      Option.some.injEq, Prod.mk.injEq] at inserted
    rcases inserted with ⟨_, _, _, rfl⟩
    exact refl
  · simp only [Option.bind_eq_bind, Option.bind_eq_some_iff] at inserted
    rcases inserted with ⟨grown, growth, link, _, rest⟩
    have grew : Fewer index grown := by
      rw [growToHold] at growth
      split at growth
      · exact grow_fewer growth
      · cases growth
        exact refl
    cases link with
    | none =>
        simp only [Option.bind_eq_some_iff, Option.pure_def, Option.some.injEq,
          Prod.mk.injEq] at rest
        rcases rest with ⟨_, _, _, rfl⟩
        exact grew
    | some link =>
        simp only [Option.bind_eq_some_iff, Option.pure_def, Option.some.injEq,
          Prod.mk.injEq] at rest
        rcases rest with ⟨_, _, unlinked, write, ⟨_, allocated⟩, init, entry, found, _, rfl⟩
        exact ((grew.trans (writeLink_fewer write)).trans (initAllocatedId_fewer init)).trans
          (fewer_set found rfl (Or.inr rfl))

section Valid

theorem isValid_update {ptr : Ptr} {row : Nat}
    (updated : index.update id ptr row = some result) : result.isValid id = true := by
  simp only [update, Option.bind_eq_bind, Option.bind_eq_some_iff, Option.guard_eq_some',
    Option.pure_def, Option.some.injEq, exists_const] at updated
  rcases updated with ⟨entry, found, current, rfl⟩
  let after : Entry := { entry with arch := some ptr, rowIndex := row }
  have places := @place_set_current index id entry after found current.symm rfl
  exact isValid_iff_place.mpr ⟨(ptr, row), (congrFun places id).trans (Function.update_self ..)⟩

theorem isValid_updateRowIndex {other : EntityId} {row : Nat} (valid : index.isValid id = true)
    (updated : index.updateRowIndex other row = some result) : result.isValid id = true := by
  simp only [updateRowIndex, Option.bind_eq_bind, Option.bind_eq_some_iff,
    Option.guard_eq_some', Option.pure_def, Option.some.injEq, exists_const] at updated
  rcases updated with ⟨entry, found, current, rfl⟩
  rw [isValid_iff_place] at valid ⊢
  rw [place_set_row found current.symm, Function.update_apply]
  split
  · rename_i same
    subst same
    rcases valid with ⟨⟨ptr, before⟩, placed⟩
    rcases place_eq_some_iff.mp placed with ⟨entryBefore, foundBefore, _, pointer, _⟩
    rw [found, Option.some.injEq] at foundBefore
    subst foundBefore
    exact ⟨(ptr, row), by simp [pointer]⟩
  · exact valid

theorem isValid_reserve {additional : Nat} (valid : index.isValid id = true)
    (reserved : index.reserve additional = some result) : result.isValid id = true := by
  rw [reserve] at reserved
  split at reserved
  · simp only [grow, Option.bind_eq_bind, Option.bind_eq_some_iff, Option.guard_eq_some',
      Option.pure_def, Option.some.injEq, exists_const] at reserved
    rcases reserved with ⟨_, larger, _, rfl⟩
    rw [isValid_iff_place] at valid ⊢
    rw [place_grown larger]
    exact valid
  · cases reserved
    exact valid

theorem read_of_isValid (valid : index.isValid id = true) :
    ∃ ptr row, index.read id = .ok (ptr, row) := by
  rcases isValid_iff_place.mp valid with ⟨⟨ptr, row⟩, placed⟩
  exact ⟨ptr, row, read_of_place placed⟩

end Valid

end EntityIndex

end Cecs

import Cecs.Commands
import Cecs.EntityIndex.Sound

/-! # The capacity of the entity index

As many ids can be allocated without growing as there are free slots. `reserve` provides
what it was asked for unless its sum overflows, and the growth of a full index keeps to
the limit as long as three halves of its capacity do. -/

namespace Cecs

open Foundation

namespace EntityIndex

/-- A number of calls of `allocate` that all succeed. -/
def allocateTimes (self : EntityIndex) : Nat → Option EntityIndex
  | 0 => some self
  | times + 1 => do
      match ← self.allocate with
      | (.ok _, result) => result.allocateTimes times
      | (.error _, _) => none

variable {index : EntityIndex} {slots : List Nat}

/-- Each call takes the first free slot. -/
theorem Sound.allocateTimes_spec (sound : index.Sound slots) {times : Nat}
    (enough : times ≤ slots.length) :
    ∃ result, index.allocateTimes times = some result ∧ result.Sound (slots.drop times) ∧
      result.cap = index.cap := by
  induction times generalizing index slots with
  | zero => exact ⟨index, rfl, sound, rfl⟩
  | succ times induction =>
      cases slots with
      | nil => cases enough
      | cons slot rest =>
          rcases sound.allocate_spec with ⟨id, middle, allocated, soundMiddle, _, _, _, capacity⟩
          rcases induction soundMiddle (Nat.le_of_succ_le_succ enough) with
            ⟨result, served, soundResult, capacityResult⟩
          refine ⟨result, ?_, soundResult, capacityResult.trans capacity⟩
          rw [allocateTimes, allocated]
          exact served

/-- A call without a free slot fails. -/
theorem Sound.allocateTimes_eq_none (sound : index.Sound slots) {times : Nat}
    (short : slots.length < times) : index.allocateTimes times = none := by
  induction times generalizing index slots with
  | zero => cases short
  | succ times induction =>
      cases slots with
      | nil =>
          have stop : index.freeList = SENTINEL := sound.linked.eq_nil_iff.mp rfl
          have full : index.count = index.cap := sound.counted
          have refused : index.allocate = some (.error .OutOfCapacity, index) := by
            simp [allocate, freeListPop, stop, full]
          rw [allocateTimes, refused]
          rfl
      | cons slot rest =>
          rcases sound.allocate_spec with ⟨id, middle, allocated, soundMiddle, _⟩
          rw [allocateTimes, allocated]
          exact induction soundMiddle (Nat.lt_of_succ_lt_succ short)

/-- That many allocations succeed, and none of them grows the index. -/
def Serves (index : EntityIndex) (times : Nat) : Prop :=
  ∃ result, index.allocateTimes times = some result ∧ result.cap = index.cap

theorem Sound.serves_iff (sound : index.Sound slots) {times : Nat} :
    index.Serves times ↔ times ≤ slots.length := by
  constructor
  · intro serves
    rcases serves with ⟨result, served, _⟩
    by_contra short
    rw [sound.allocateTimes_eq_none (Nat.lt_of_not_le short)] at served
    cases served
  · intro enough
    rcases sound.allocateTimes_spec enough with ⟨result, served, _, capacity⟩
    exact ⟨result, served, capacity⟩

section Reserve

theorem Sound.reserve_spec (sound : index.Sound slots) {additional : Nat} {result : EntityIndex}
    (reserved : index.reserve additional = some result) :
    ∃ free, result.Sound free ∧ result.count = index.count ∧
      result.cap = max index.cap ((index.count + additional) % 2 ^ 32) := by
  simp only [reserve] at reserved
  split at reserved
  · rename_i larger
    simp only [grow, Option.bind_eq_bind, Option.bind_eq_some_iff, Option.guard_eq_some',
      Option.pure_def, Option.some.injEq, exists_const] at reserved
    rcases reserved with ⟨below, _, _, rfl⟩
    refine ⟨_, sound.grown larger below, rfl, ?_⟩
    rw [cap_grown larger]
    omega
  · rename_i enough
    cases reserved
    exact ⟨slots, sound, rfl, by omega⟩

/-- A reserve that returns provides what it was asked for exactly when the new capacity
does not overflow. -/
theorem Sound.serves_reserve_iff (sound : index.Sound slots) {additional : Nat}
    {result : EntityIndex} (reserved : index.reserve additional = some result) :
    result.Serves additional ↔ index.count + additional < 2 ^ 32 := by
  rcases sound.reserve_spec reserved with ⟨free, soundResult, sameCount, capacity⟩
  have counted := soundResult.counted
  have limit := soundResult.capLt
  have limitBefore := sound.capLt
  have countedBefore := sound.counted
  simp only [ENTITY_INDEX_MASK, INDEX_BITS] at limit limitBefore
  rw [soundResult.serves_iff]
  constructor
  · intro enough
    by_contra overflow
    omega
  · intro fits
    rw [Nat.mod_eq_of_lt fits] at capacity
    omega

/-- `reserve` of the index, and `Commands::reserve_entities` once it is applied. -/
theorem reserve_serves_iff {Value : Type} (index : EntityIndex) (slots : List Nat)
    (sound : index.Sound slots) (additional : Nat) :
    (∀ result, index.reserve additional = some result →
      (result.Serves additional ↔ index.count + additional < 2 ^ 32)) ∧
    ∀ (w after : World Value) (outcome : WorldResult Unit), w.entityIds = index →
      (WorldCommands.Reserve additional).apply w = some (outcome, after) →
      (after.entityIds.Serves additional ↔ index.count + additional < 2 ^ 32) := by
  constructor
  · exact fun result reserved => sound.serves_reserve_iff reserved
  · rintro w after outcome rfl applied
    simp only [WorldCommands.apply, World.reserveEntities, Option.bind_eq_bind,
      Option.bind_eq_some_iff, Option.pure_def, Option.some.injEq, Prod.mk.injEq] at applied
    rcases applied with ⟨_, ⟨entityIds, reserved, rfl⟩, _, rfl⟩
    exact sound.serves_reserve_iff reserved

theorem reserve_serves_iff_sample :
    ∃ index result, new 1 = some index ∧ index.reserve 3 = some result ∧ result.Serves 3 := by
  obtain ⟨index, result, created, reserved, few⟩ : ∃ index result, new 1 = some index ∧
      index.reserve 3 = some result ∧ index.count + 3 < 2 ^ 32 := ⟨_, _, rfl, rfl, by decide⟩
  refine ⟨index, result, created, reserved, ?_⟩
  have served := (@reserve_serves_iff Nat index _ (new_spec created).1 3).1 result reserved
  exact served.mpr few

/-- One entity, and the sum is zero. -/
theorem reserve_overflows :
    ¬∀ (index : EntityIndex) (slots : List Nat) (additional : Nat) (result : EntityIndex),
      index.Sound slots → additional < 2 ^ 32 → index.reserve additional = some result →
      result.Serves additional := by
  intro claim
  obtain ⟨start, id, index, created, allocated, reserved⟩ : ∃ start id index,
      new 1 = some start ∧ start.allocate = some (.ok id, index) ∧
      index.reserve (2 ^ 32 - 1) = some index := ⟨_, _, _, rfl, rfl, rfl⟩
  rcases (new_spec created).1.allocate_spec with ⟨_, _, same, sound, _⟩
  rw [allocated, Option.some.injEq, Prod.mk.injEq] at same
  rcases same with ⟨_, rfl⟩
  have serves := claim index _ _ index sound (by decide) reserved
  rw [sound.serves_iff] at serves
  exact absurd serves (by decide)

end Reserve

section Resize

/-- Three halves of the capacity, rounded up, are below the limit. -/
theorem resizedCapacity_lt_iff {capacity : Nat} (below : capacity < ENTITY_INDEX_MASK) :
    resizedCapacity capacity < ENTITY_INDEX_MASK ↔ capacity ≤ 11184809 := by
  simp only [ENTITY_INDEX_MASK, INDEX_BITS] at below ⊢
  have exact : asFloat32 capacity = capacity := asFloat32_of_lt (by omega)
  rw [resizedCapacity, exact]
  constructor
  · intro fits
    by_contra large
    by_cases narrow : capacity * 3 < 2 ^ (24 + 1)
    · have close := (asFloat32_close narrow).1
      omega
    · have close := le_asFloat32 (by omega : capacity * 3 < 2 ^ 26)
      omega
  · intro small
    have close := (asFloat32_close (by omega : capacity * 3 < 2 ^ (24 + 1))).2
    omega

/-- A full index grows and hands out its first new slot exactly up to a capacity. -/
theorem allocateWithResize_full_iff (index : EntityIndex) (slots : List Nat)
    (sound : index.Sound slots) (full : index.count = index.cap) :
    (∃ id result, index.allocateWithResize = some (id, result) ∧ id.index = index.cap ∧
        index.cap < resizedCapacity index.cap ∧
        resizedCapacity index.cap < ENTITY_INDEX_MASK ∧
        result.cap = resizedCapacity index.cap) ↔
      index.cap ≤ 11184809 := by
  have empty : slots = [] := by
    have counted := sound.counted
    exact List.length_eq_zero_iff.mp (by omega)
  subst empty
  rw [← resizedCapacity_lt_iff sound.capLt]
  constructor
  · intro resized
    rcases resized with ⟨_, _, _, _, _, below, _⟩
    exact below
  · intro below
    rcases sound.growIfFull_of_full below with ⟨extra, difference, larger, resize⟩
    have grown := sound.grown larger below
    rw [List.append_nil, difference, List.range'_succ] at grown
    rcases grown.allocate_spec with ⟨id, result, allocated, _, _, sameSlot, _, capacity⟩
    refine ⟨id, result, ?_, sameSlot, larger, below, ?_⟩
    · simp [allocateWithResize, resize, allocated]
    · rw [capacity, cap_grown larger]

theorem allocateWithResize_full_iff_sample :
    ∃ (index : EntityIndex) (id : EntityId) (result : EntityIndex), index.count = index.cap ∧
      index.allocateWithResize = some (id, result) ∧ id.index = 1 ∧ result.cap = 2 := by
  obtain ⟨start, id, index, created, allocated, full, one, resized⟩ :
      ∃ (start : EntityIndex) (id : EntityId) (index : EntityIndex), new 1 = some start ∧
        start.allocate = some (.ok id, index) ∧ index.count = index.cap ∧ index.cap = 1 ∧
        resizedCapacity index.cap = 2 := ⟨_, _, _, rfl, rfl, rfl, rfl, rfl⟩
  rcases (new_spec created).1.allocate_spec with ⟨_, _, same, sound, _⟩
  rw [allocated, Option.some.injEq, Prod.mk.injEq] at same
  rcases same with ⟨_, rfl⟩
  rcases (allocateWithResize_full_iff index _ sound full).mpr (by omega) with
    ⟨other, result, done, slot, _, _, capacity⟩
  exact ⟨index, other, result, full, done, slot.trans one, capacity.trans resized⟩

/-- An index with 11184810 slots, all of them allocated: three halves of that are the
limit. -/
theorem allocateWithResize_large :
    ∃ start index, new 11184810 = some start ∧ start.allocateTimes 11184810 = some index ∧
      index.count = index.cap ∧ index.cap + 1 < ENTITY_INDEX_MASK ∧
      index.allocateWithResize = none := by
  have accepted : 11184810 < ENTITY_INDEX_MASK := by decide
  obtain ⟨start, created⟩ : ∃ start, new 11184810 = some start := by
    simp [new, accepted]
  have sound := (new_spec created).1
  have capacityStart : start.cap = 11184810 := by
    have counted := sound.counted
    simp only [new, accepted, guard, if_true, Option.pure_def, Option.bind_eq_bind,
      Option.bind_some, Option.some.injEq] at created
    subst created
    simp [cap]
  have enough : 11184810 ≤ (List.range' 0 (max 11184810 1)).length := by simp
  rcases sound.allocateTimes_spec enough with ⟨index, served, soundIndex, capacity⟩
  rw [List.drop_eq_nil_of_le (by simp)] at soundIndex
  have full : index.count = index.cap := soundIndex.counted
  refine ⟨start, index, created, served, full, by rw [capacity, capacityStart]; decide, ?_⟩
  cases resized : index.allocateWithResize with
  | none => rfl
  | some both =>
      have room := soundIndex.hasRoom_of_full.mp (soundIndex.hasRoom resized)
      rw [resizedCapacity_lt_iff soundIndex.capLt, capacity, capacityStart] at room
      exact absurd room (by decide)

end Resize

end EntityIndex

end Cecs

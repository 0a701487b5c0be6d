import Cecs.EntityIndex.Population

/-! # Generations

The generation of a slot is read when an id is handed out and advanced when the
id is freed. All other operations but `insert_id` leave it alone. -/

namespace Cecs

open Foundation

namespace EntityIndex

def generationAt (index : EntityIndex) (slot : Nat) : Option Nat :=
  index.entries[slot]?.map Entry.generation

/-- The generation that the slot has, or will start with. -/
def turn (index : EntityIndex) (slot : Nat) : Nat := (index.generationAt slot).getD 0

variable {index result : EntityIndex} {slots : List Nat} {id : EntityId}

theorem generationAt_isSome {slot : Nat} :
    (∃ generation, index.generationAt slot = some generation) ↔ slot < index.cap := by
  rw [← Option.isSome_iff_exists]
  simp [generationAt, cap]

theorem generationAt_eq (index : EntityIndex) (slot : Nat) :
    index.generationAt slot = if slot < index.cap then some (index.turn slot) else none := by
  by_cases inRange : slot < index.cap
  · rcases generationAt_isSome.mpr inRange with ⟨generation, current⟩
    rw [if_pos inRange, turn, current, Option.getD_some]
  · rw [if_neg inRange, generationAt, List.getElem?_eq_none (Nat.le_of_not_lt inRange)]
    rfl

/-- A claimed id is one whose generation is that of its slot, outside the free list. -/
theorem claimed_iff :
    index.Claimed slots id ↔
      id.index ∉ slots ∧ index.generationAt id.index = some id.generation := by
  rw [generationAt, Option.map_eq_some_iff]
  exact ⟨fun claimed => ⟨claimed.unlisted, claimed.current⟩, fun both => ⟨both.1, both.2⟩⟩

theorem Claimed.turn (claimed : index.Claimed slots id) :
    index.turn id.index = id.generation := by
  rw [EntityIndex.turn, (claimed_iff.mp claimed).2, Option.getD_some]

theorem Claimed.inRange (claimed : index.Claimed slots id) : id.index < index.cap :=
  generationAt_isSome.mp ⟨_, (claimed_iff.mp claimed).2⟩

/-- Two claimed ids of one slot are one id. -/
theorem Claimed.eq_of_index {other : EntityId} (claimed : index.Claimed slots id)
    (claimedOther : index.Claimed slots other) (sameSlot : id.index = other.index) :
    id = other := by
  have current := (claimed_iff.mp claimed).2
  have currentOther := (claimed_iff.mp claimedOther).2
  rw [sameSlot, currentOther] at current
  exact EntityId.eq_of_pair sameSlot (Option.some.inj current).symm

/-- Every slot that is not free is claimed. -/
theorem Sound.exists_claimed (sound : index.Sound slots) {slot : Nat}
    (inRange : slot < index.cap) (unlisted : slot ∉ slots) :
    ∃ id : EntityId, id.index = slot ∧ index.Claimed slots id := by
  rcases generationAt_isSome.mpr inRange with ⟨generation, current⟩
  rcases Option.map_eq_some_iff.mp current with ⟨entry, found, rfl⟩
  have packable : EntityId.Packable slot entry.generation :=
    ⟨Nat.le_of_lt (Nat.lt_trans inRange sound.capLt), sound.generationLe slot entry found⟩
  refine ⟨EntityId.new slot entry.generation, EntityId.index_new packable, ?_⟩
  rw [claimed_iff, EntityId.index_new packable, EntityId.generation_new packable]
  exact ⟨unlisted, current⟩

section Entries

theorem generationAt_set {slot : Nat} {before after : Entry}
    (found : index.entries[slot]? = some before)
    (entries : result.entries = index.entries.set slot after) :
    result.generationAt = Function.update index.generationAt slot (some after.generation) := by
  have inRange := (List.getElem?_eq_some_iff.mp found).1
  funext other
  by_cases same : other = slot
  · subst same
    simp [generationAt, entries, inRange]
  · simp [generationAt, entries, Function.update_of_ne same, List.getElem?_set_ne (Ne.symm same)]

theorem generationAt_set_same {slot : Nat} {before after : Entry}
    (found : index.entries[slot]? = some before)
    (entries : result.entries = index.entries.set slot after)
    (same : after.generation = before.generation) :
    result.generationAt = index.generationAt := by
  rw [generationAt_set found entries, Function.update_eq_self_iff, same]
  simp [generationAt, found]

/-- New slots start at generation 0. -/
theorem generationAt_grown {newCap slot : Nat} (larger : index.cap < newCap) :
    (index.grown newCap).generationAt slot =
      if slot < index.cap then index.generationAt slot
      else if slot < newCap then some 0 else none := by
  rcases Nat.lt_or_ge slot index.cap with inside | outside
  · rw [if_pos inside, generationAt, getElem?_grown_of_lt inside]
    rfl
  · rw [if_neg (Nat.not_lt_of_le outside)]
    by_cases before : slot < newCap
    · rw [if_pos before, generationAt, getElem?_grown_of_le outside before]
      rfl
    · have beyond : (index.grown newCap).cap ≤ slot := by
        rw [cap_grown larger]
        exact Nat.le_of_not_lt before
      rw [if_neg before, generationAt, List.getElem?_eq_none beyond]
      rfl

theorem turn_grown {newCap : Nat} (larger : index.cap < newCap) (slot : Nat) :
    (index.grown newCap).turn slot = index.turn slot := by
  rw [turn, generationAt_grown larger]
  by_cases inside : slot < index.cap
  · rw [if_pos inside]
    rfl
  · rw [if_neg inside, turn, generationAt_eq, if_neg inside]
    split <;> rfl

end Entries

section Operations

theorem update_generationAt {ptr : Ptr} {row : Nat}
    (updated : index.update id ptr row = some result) :
    result.generationAt = index.generationAt := by
  simp only [update, Option.bind_eq_bind, Option.bind_eq_some_iff, Option.pure_def,
    Option.some.injEq] at updated
  rcases updated with ⟨entry, found, _, _, rfl⟩
  exact generationAt_set_same found rfl rfl

theorem updateRowIndex_generationAt {row : Nat}
    (updated : index.updateRowIndex id row = some result) :
    result.generationAt = index.generationAt := by
  simp only [updateRowIndex, Option.bind_eq_bind, Option.bind_eq_some_iff, Option.pure_def,
    Option.some.injEq] at updated
  rcases updated with ⟨entry, found, _, _, rfl⟩
  exact generationAt_set_same found rfl rfl

theorem writeLink_generationAt {link : FreeListLink} {target : Nat}
    (written : index.writeLink link target = some result) :
    result.generationAt = index.generationAt := by
  cases link with
  | head =>
      cases written
      rfl
  | entry slot =>
      simp only [writeLink, Option.bind_eq_bind, Option.bind_eq_some_iff, Option.pure_def,
        Option.some.injEq] at written
      rcases written with ⟨entry, found, rfl⟩
      exact generationAt_set_same found rfl rfl

theorem initAllocatedId_generationAt {slot : Nat}
    (allocated : index.initAllocatedId slot = some (id, result)) :
    result.generationAt = index.generationAt := by
  simp only [initAllocatedId, Option.bind_eq_bind, Option.bind_eq_some_iff, Option.pure_def,
    Option.some.injEq, Prod.mk.injEq] at allocated
  rcases allocated with ⟨entry, found, _, _, _, rfl⟩
  exact generationAt_set_same found rfl rfl

theorem freeListPop_generationAt {slot : Option Nat}
    (popped : index.freeListPop = some (slot, result)) :
    result.generationAt = index.generationAt := by
  rw [freeListPop] at popped
  split at popped
  · cases popped
    rfl
  · simp only [Option.bind_eq_bind, Option.bind_eq_some_iff, Option.pure_def,
      Option.some.injEq, Prod.mk.injEq] at popped
    rcases popped with ⟨_, _, _, rfl⟩
    rfl

theorem allocate_generationAt {outcome : Except HandleTableError EntityId}
    (allocated : index.allocate = some (outcome, result)) :
    result.generationAt = index.generationAt := by
  rcases allocate_cases allocated with ⟨_, _, _, pop, init⟩ | ⟨_, init⟩ | rfl
  · exact (initAllocatedId_generationAt init).trans (freeListPop_generationAt pop)
  · exact initAllocatedId_generationAt init
  · rfl

/-- `free` advances the generation of the slot, modulo 256. -/
theorem free_generationAt (freed : index.free id = some result) :
    result.generationAt = Function.update index.generationAt id.index
      (some ((id.generation + 1) % 256)) := by
  simp only [free, freeListPush, Option.bind_eq_bind, Option.bind_eq_some_iff,
    Option.guard_eq_some', Option.pure_def, Option.some.injEq, exists_const] at freed
  rcases freed with ⟨_, entry, found, current, again, foundAgain, rfl⟩
  have inRange := (List.getElem?_eq_some_iff.mp found).1
  rw [List.getElem?_set_self inRange] at foundAgain
  cases foundAgain
  let after : Entry :=
    { generation := (entry.generation + 1) &&& ENTITY_GEN_MASK
      arch := none, rowIndex := index.freeList }
  have next : after.generation = (id.generation + 1) % 256 := by
    rw [current]
    exact Nat.and_two_pow_sub_one_eq_mod (entry.generation + 1) 8
  rw [← next]
  exact @generationAt_set index _ _ _ after found (List.set_set ..)

/-- The copy is equal. -/
theorem clone_eq (cloned : index.clone = some result) : result = index := by
  simp only [clone, Option.bind_eq_bind, Option.bind_eq_some_iff, Option.pure_def,
    Option.some.injEq] at cloned
  rcases cloned with ⟨_, _, _, _, rfl⟩
  rfl

end Operations

end EntityIndex

end Cecs

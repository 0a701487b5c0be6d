import Cecs.EntityIndex.InsertId

/-! # Indexes that hand out the same ids

What an index hands out depends on its free list and on the generations of its
slots, not on where the entities are. Two indexes that agree on these keep
agreeing, and their operations return the same. -/

namespace Cecs

open Foundation

namespace EntityIndex

/-- The same slots are free, in the same order, and the generations are the same. -/
structure Alike (slots : List Nat) (index other : EntityIndex) : Prop where
  left : index.Sound slots
  right : other.Sound slots
  generations : other.generationAt = index.generationAt

variable {index other result : EntityIndex} {slots rest : List Nat} {id : EntityId}

theorem Alike.refl (sound : index.Sound slots) : Alike slots index index := ⟨sound, sound, rfl⟩

theorem Alike.symm (alike : Alike slots index other) : Alike slots other index :=
  ⟨alike.right, alike.left, alike.generations.symm⟩

theorem Alike.trans (first : Alike slots index other) (second : Alike slots other result) :
    Alike slots index result :=
  ⟨first.left, second.right, second.generations.trans first.generations⟩

theorem Alike.cap (alike : Alike slots index other) : other.cap = index.cap := by
  have same : ∀ slot, slot < other.cap ↔ slot < index.cap := by
    intro slot
    rw [← generationAt_isSome, ← generationAt_isSome, alike.generations]
  exact Nat.le_antisymm (Nat.le_of_not_lt fun less => Nat.lt_irrefl _ ((same _).mp less))
    (Nat.le_of_not_lt fun less => Nat.lt_irrefl _ ((same _).mpr less))

theorem Alike.turn (alike : Alike slots index other) (slot : Nat) :
    other.turn slot = index.turn slot := by
  rw [EntityIndex.turn, EntityIndex.turn, alike.generations]

theorem Alike.hasRoom (alike : Alike slots index other) : other.HasRoom ↔ index.HasRoom := by
  have counted := alike.left.counted
  have countedOther := alike.right.counted
  have cap := alike.cap
  rw [HasRoom, HasRoom, cap]
  exact or_congr_left (by omega)

/-- An id claimed in one of them is claimed in the other. -/
theorem Alike.claimed (alike : Alike slots index other) (claimed : index.Claimed slots id) :
    other.Claimed slots id := by
  rw [claimed_iff] at claimed ⊢
  rw [alike.generations]
  exact claimed

/-- An index with slots can be copied. -/
theorem Sound.clone (sound : index.Sound slots) : index.clone = some index := by
  have positive : max index.cap 1 = index.cap := Nat.max_eq_left sound.capPos
  have created : new index.cap =
      some { entries := freshEntries 0 index.cap SENTINEL, count := 0, freeList := 0 } := by
    simp [new, positive, sound.capLt]
  simp only [EntityIndex.clone, created, Option.bind_eq_bind, Option.bind_some]
  simp [EntityIndex.cap]

section Update

theorem updateMoved_generationAt {moved : Option EntityId} {row : Nat}
    (updated : index.updateMoved moved row = some result) :
    result.generationAt = index.generationAt := by
  cases moved with
  | none =>
      cases updated
      rfl
  | some id => exact updateRowIndex_generationAt updated

/-- The slot of a claimed id is freed in both. -/
theorem Alike.free (alike : Alike slots index other) {freed freedOther : EntityIndex}
    (claimed : index.Claimed slots id) (free : index.free id = some freed)
    (freeOther : other.free id = some freedOther) :
    Alike (id.index :: slots) freed freedOther := by
  rcases free_spec alike.left claimed with ⟨_, again, soundFreed, _⟩
  cases free.symm.trans again
  rcases free_spec alike.right (alike.claimed claimed) with ⟨_, again, soundOther, _⟩
  cases freeOther.symm.trans again
  refine ⟨soundFreed, soundOther, ?_⟩
  rw [free_generationAt free, free_generationAt freeOther, alike.generations]

end Update

section Allocate

theorem Alike.grown (alike : Alike slots index other) {newCap : Nat} (larger : index.cap < newCap)
    (below : newCap < ENTITY_INDEX_MASK) :
    Alike (List.range' index.cap (newCap - index.cap) ++ slots) (index.grown newCap)
      (other.grown newCap) := by
  have cap := alike.cap
  have largerOther : other.cap < newCap := cap ▸ larger
  refine ⟨alike.left.grown larger below, ?_, ?_⟩
  · rw [← cap]
    exact alike.right.grown largerOther below
  · funext slot
    rw [generationAt_grown larger, generationAt_grown largerOther, cap, alike.generations]

/-- The first free slot is handed out with its generation. -/
theorem Alike.allocate {slot : Nat} (alike : Alike (slot :: rest) index other) :
    ∃ id first second, index.allocate = some (.ok id, first) ∧
      other.allocate = some (.ok id, second) ∧ Alike rest first second ∧
      first.Claimed rest id ∧ id.index = slot ∧ first.place = index.place ∧
      second.place = other.place := by
  rcases alike.left.allocate_spec with
    ⟨id, first, allocated, soundFirst, claimed, sameSlot, places, _⟩
  rcases alike.right.allocate_spec with
    ⟨idOther, second, allocatedOther, soundSecond, claimedOther, sameSlotOther, placesOther, _⟩
  have generations : second.generationAt = first.generationAt := by
    rw [allocate_generationAt allocated, allocate_generationAt allocatedOther,
      alike.generations]
  have agree : Alike rest first second := ⟨soundFirst, soundSecond, generations⟩
  have sameId : id = idOther :=
    (agree.claimed claimed).eq_of_index claimedOther (sameSlot.trans sameSlotOther.symm)
  subst sameId
  exact ⟨id, first, second, allocated, allocatedOther, agree, claimed, sameSlot, places,
    placesOther⟩

/-- Both hand out the same id, or neither has room. -/
theorem Alike.allocateWithResize (alike : Alike slots index other) :
    (index.allocateWithResize = none ∧ other.allocateWithResize = none) ∨
    ∃ id first second rest, index.allocateWithResize = some (id, first) ∧
      other.allocateWithResize = some (id, second) ∧ Alike rest first second ∧
      first.Claimed rest id ∧ first.place = index.place ∧ second.place = other.place ∧
      index.place id = none := by
  by_cases room : index.HasRoom
  · right
    obtain ⟨grown, grownOther, slot, rest, resize, resizeOther, agree, places, placesOther⟩ :
        ∃ grown grownOther slot rest, index.growIfFull = some grown ∧
          other.growIfFull = some grownOther ∧ Alike (slot :: rest) grown grownOther ∧
          grown.place = index.place ∧ grownOther.place = other.place := by
      cases slots with
      | cons slot rest =>
          exact ⟨index, other, slot, rest, alike.left.growIfFull_of_free,
            alike.right.growIfFull_of_free, alike, rfl, rfl⟩
      | nil =>
          have below := alike.left.hasRoom_of_full.mp room
          have belowOther := alike.right.hasRoom_of_full.mp (alike.hasRoom.mpr room)
          rcases alike.left.growIfFull_of_full below with ⟨extra, difference, larger, resize⟩
          rcases alike.right.growIfFull_of_full belowOther with ⟨_, _, largerOther, resizeOther⟩
          have agree := alike.grown larger below
          rw [List.append_nil, difference, List.range'_succ] at agree
          rw [alike.cap] at resizeOther largerOther
          exact ⟨_, _, index.cap, List.range' (index.cap + 1) extra, resize, resizeOther, agree,
            place_grown larger, place_grown (alike.cap ▸ largerOther)⟩
    rcases agree.allocate with ⟨id, first, second, allocated, allocatedOther, alikeAfter,
      claimed, sameSlot, placesFirst, placesSecond⟩
    refine ⟨id, first, second, rest, ?_, ?_, alikeAfter, claimed, placesFirst.trans places,
      placesSecond.trans placesOther, ?_⟩
    · simp [EntityIndex.allocateWithResize, resize, allocated]
    · simp [EntityIndex.allocateWithResize, resizeOther, allocatedOther]
    · rcases agree.left.vacant slot List.mem_cons_self with ⟨entry, found, vacant⟩
      rw [← places]
      exact place_eq_none_of_vacant (sameSlot ▸ found) vacant
  · left
    constructor
    · rw [Option.eq_none_iff_forall_ne_some]
      rintro ⟨id, after⟩ allocated
      exact room (alike.left.hasRoom allocated)
    · rw [Option.eq_none_iff_forall_ne_some]
      rintro ⟨id, after⟩ allocated
      exact room (alike.hasRoom.mp (alike.right.hasRoom allocated))

end Allocate

section Insert

theorem insertErrorFor_eq (index : EntityIndex) (id : EntityId) :
    index.insertErrorFor id = (index.generationAt id.index).map fun generation =>
      if generation = id.generation then .AlreadyInserted id else .Taken id := by
  rw [insertErrorFor, generationAt]
  cases index.entries[id.index]? <;> rfl

/-- Both insert the id, or both refuse it with one error, or neither can hold it. -/
theorem Alike.insertId (alike : Alike slots index other) (id : EntityId) :
    (index.insertId id = none ∧ other.insertId id = none) ∨
    (∃ error, index.insertId id = some (.error error, index) ∧
      other.insertId id = some (.error error, other)) ∨
    ∃ first second rest, index.insertId id = some (.ok (), first) ∧
      other.insertId id = some (.ok (), second) ∧ Alike rest first second ∧
      first.Claimed rest id ∧ first.place = index.place ∧ second.place = other.place ∧
      index.place id = none := by
  by_cases below : id.index + 1 < ENTITY_INDEX_MASK
  · right
    by_cases taken : id.index < index.cap ∧ id.index ∉ slots
    · left
      rcases taken with ⟨inRange, unlisted⟩
      rcases insertId_of_taken alike.left inRange unlisted with ⟨error, refused, returned⟩
      have inRangeOther : id.index < other.cap := alike.cap ▸ inRange
      rcases insertId_of_taken alike.right inRangeOther unlisted with
        ⟨errorOther, refusedOther, returnedOther⟩
      rw [insertErrorFor_eq, alike.generations, ← insertErrorFor_eq, refused,
        Option.some.injEq] at refusedOther
      subst refusedOther
      exact ⟨error, returned, returnedOther⟩
    · right
      have free : id.index < index.cap → id.index ∈ slots := by
        intro inRange
        by_contra unlisted
        exact taken ⟨inRange, unlisted⟩
      have freeOther : id.index < other.cap → id.index ∈ slots := alike.cap ▸ free
      rcases insertId_of_free alike.left free below with
        ⟨first, rest, inserted, inserts, erased⟩
      rcases insertId_of_free alike.right freeOther below with
        ⟨second, restOther, insertedOther, insertsOther, erasedOther⟩
      rw [alike.cap, ← erased] at erasedOther
      subst erasedOther
      have generations : second.generationAt = first.generationAt := by
        have sameCap : second.cap = first.cap := by
          rw [inserts.cap, insertsOther.cap, alike.cap]
        funext slot
        rw [generationAt_eq, generationAt_eq, sameCap]
        by_cases same : slot = id.index
        · rw [same, inserts.claimed.turn, insertsOther.claimed.turn]
        · rw [inserts.turn slot same, insertsOther.turn slot same, alike.turn]
      refine ⟨first, second, _, inserted, insertedOther,
        ⟨inserts.sound, insertsOther.sound, generations⟩, inserts.claimed, inserts.place,
        insertsOther.place, ?_⟩
      cases placed : index.place id with
      | none => rfl
      | some spot =>
          have claimed := alike.left.claimed placed
          exact absurd (free claimed.inRange) claimed.unlisted
  · left
    constructor
    · rw [Option.eq_none_iff_forall_ne_some]
      rintro ⟨outcome, after⟩ returned
      exact below (alike.left.insertId_below returned)
    · rw [Option.eq_none_iff_forall_ne_some]
      rintro ⟨outcome, after⟩ returned
      exact below (alike.right.insertId_below returned)

end Insert

end EntityIndex

end Cecs

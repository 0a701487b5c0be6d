import Cecs.EntityIndex
import Mathlib.Data.List.Perm.Subperm

/-! # The invariant of the entity index

Every slot is listed in the free list or counted as allocated, the listed slots
hold no entity, and each operation changes the place of at most one entity. -/

namespace Cecs

open Foundation

namespace EntityIndex

/-- Where the index says that an entity lives. -/
def place (index : EntityIndex) (id : EntityId) : Option (Ptr × Nat) :=
  (index.read id).toOption

/-- The links of the free list. -/
def link (index : EntityIndex) (slot : Nat) : Option Nat :=
  index.entries[slot]?.map Entry.rowIndex

/-- `slots` are the free slots, in the order of the free list. -/
structure Listed (index : EntityIndex) (slots : List Nat) : Prop where
  capLt : index.cap < ENTITY_INDEX_MASK
  generationLe : ∀ (slot : Nat) (entry : Entry), index.entries[slot]? = some entry →
    entry.generation ≤ ENTITY_GEN_MASK
  linked : Chain index.link SENTINEL index.freeList slots
  nodup : slots.Nodup
  vacant : ∀ slot ∈ slots, ∃ entry : Entry, index.entries[slot]? = some entry ∧ entry.arch = none
  counted : index.count + slots.length = index.cap

/-- An index has slots, and the free ones are listed. -/
structure Sound (index : EntityIndex) (slots : List Nat) : Prop extends
    Listed index slots where
  capPos : 0 < index.cap

/-- The slot of `id` is not free and has its generation. -/
structure Claimed (index : EntityIndex) (slots : List Nat) (id : EntityId) : Prop where
  unlisted : id.index ∉ slots
  current : ∃ entry : Entry, index.entries[id.index]? = some entry ∧
    entry.generation = id.generation

section Place

variable {index : EntityIndex} {id : EntityId}

theorem place_eq_some_iff {arch : Ptr} {row : Nat} :
    index.place id = some (arch, row) ↔
      ∃ entry : Entry, index.entries[id.index]? = some entry ∧
        entry.generation = id.generation ∧ entry.arch = some arch ∧
        entry.rowIndex = row := by
  cases found : index.entries[id.index]? with
  | none => simp [place, read, get, isValid, found, Except.toOption]
  | some entry =>
      cases pointer : entry.arch with
      | none => simp [place, read, get, isValid, found, pointer, Except.toOption]
      | some target =>
          by_cases same : entry.generation = id.generation <;>
            simp [place, read, get, isValid, found, pointer, same, Except.toOption]

theorem read_of_place {arch : Ptr} {row : Nat} (placed : index.place id = some (arch, row)) :
    index.read id = .ok (arch, row) := by
  unfold place at placed
  cases outcome : index.read id with
  | error error => simp [outcome, Except.toOption] at placed
  | ok spot => simpa [outcome, Except.toOption] using placed

theorem place_of_read {arch : Ptr} {row : Nat} (outcome : index.read id = .ok (arch, row)) :
    index.place id = some (arch, row) := by
  rw [place, outcome]
  rfl

theorem read_of_place_none (absent : index.place id = none) :
    ∃ error, index.read id = .error error := by
  unfold place at absent
  cases outcome : index.read id with
  | error error => exact ⟨error, rfl⟩
  | ok spot => simp [outcome, Except.toOption] at absent

theorem isValid_iff_place : index.isValid id = true ↔ ∃ spot, index.place id = some spot := by
  cases found : index.entries[id.index]? with
  | none => simp [place, read, get, isValid, found, Except.toOption]
  | some entry =>
      cases pointer : entry.arch with
      | none => simp [place, read, get, isValid, found, pointer, Except.toOption]
      | some target =>
          by_cases same : entry.generation = id.generation <;>
            simp [place, read, get, isValid, found, pointer, same, Except.toOption]

theorem isValid_eq_false_iff : index.isValid id = false ↔ index.place id = none := by
  rw [← Bool.not_eq_true, isValid_iff_place, ← Option.ne_none_iff_exists', not_not]

/-- The places after one entry has been replaced. -/
theorem place_set {slot : Nat} {entry : Entry} (inRange : slot < index.cap) (id : EntityId) :
    ({ index with entries := index.entries.set slot entry } : EntityIndex).place id =
      if id.index = slot then
        if entry.generation = id.generation then
          entry.arch.map fun arch => (arch, entry.rowIndex)
        else none
      else index.place id := by
  apply Option.ext
  rintro ⟨arch, row⟩
  rw [place_eq_some_iff]
  by_cases sameSlot : id.index = slot
  · subst sameSlot
    have within : id.index < index.entries.length := inRange
    by_cases current : entry.generation = id.generation <;>
      simp [within, current]
  · rw [if_neg sameSlot, place_eq_some_iff]
    simp [Ne.symm sameSlot]

/-- No other handle of the same slot has a place. -/
theorem place_eq_none_of_current {entry : Entry} {other : EntityId}
    (found : index.entries[id.index]? = some entry)
    (current : entry.generation = id.generation) (sameSlot : other.index = id.index)
    (different : other ≠ id) : index.place other = none := by
  cases placed : index.place other with
  | none => rfl
  | some spot =>
      rcases place_eq_some_iff.mp placed with ⟨entryOther, foundOther, currentOther, _⟩
      rw [sameSlot, found] at foundOther
      cases foundOther
      exact absurd (EntityId.eq_of_pair sameSlot (currentOther.symm.trans current)) different

/-- Ids that have a place are in slots of their own. -/
theorem eq_of_placed {left right : EntityId} {spot spotRight : Ptr × Nat}
    (placed : index.place left = some spot) (placedRight : index.place right = some spotRight)
    (sameSlot : left.index = right.index) : left = right := by
  rcases spot with ⟨ptr, row⟩
  rcases place_eq_some_iff.mp placed with ⟨entry, found, current, _⟩
  by_contra different
  have absent := place_eq_none_of_current found current sameSlot.symm (Ne.symm different)
  rw [absent] at placedRight
  cases placedRight

/-- The slot of an id that has a place is below the limit. -/
theorem Sound.slot_lt {slots : List Nat} (sound : index.Sound slots) {spot : Ptr × Nat}
    (placed : index.place id = some spot) : id.index + 1 < ENTITY_INDEX_MASK := by
  rcases spot with ⟨ptr, row⟩
  rcases place_eq_some_iff.mp placed with ⟨entry, found, _⟩
  have inRange : id.index < index.cap := (List.getElem?_eq_some_iff.mp found).1
  have below := sound.capLt
  omega

/-- Replacing the entry of `id` by one of the same generation. -/
theorem place_set_current {before after : Entry}
    (found : index.entries[id.index]? = some before)
    (current : before.generation = id.generation)
    (sameGeneration : after.generation = before.generation) :
    ({ index with entries := index.entries.set id.index after } : EntityIndex).place =
      Function.update index.place id
        (after.arch.map fun arch => (arch, after.rowIndex)) := by
  have inRange : id.index < index.cap := (List.getElem?_eq_some_iff.mp found).1
  funext other
  rw [place_set inRange]
  by_cases same : other = id
  · subst same
    rw [Function.update_self, if_pos rfl, if_pos (sameGeneration.trans current)]
  · rw [Function.update_of_ne same]
    by_cases sameSlot : other.index = id.index
    · rw [if_pos sameSlot, place_eq_none_of_current found current sameSlot same, if_neg]
      intro sameGen
      exact same (EntityId.eq_of_pair sameSlot
        (sameGen.symm.trans (sameGeneration.trans current)))
    · rw [if_neg sameSlot]

/-- Only the row of `id` changes. -/
theorem place_set_row {entry : Entry} (found : index.entries[id.index]? = some entry)
    (current : entry.generation = id.generation) (row : Nat) :
    ({ index with
        entries := index.entries.set id.index { entry with rowIndex := row } } :
      EntityIndex).place =
      Function.update index.place id (entry.arch.map fun arch => (arch, row)) :=
  place_set_current found current rfl

end Place

section Preservation

variable {index : EntityIndex} {slots : List Nat} {id : EntityId}

theorem Listed.lt_cap (listed : index.Listed slots) {slot : Nat} (member : slot ∈ slots) :
    slot < index.cap := by
  rcases listed.vacant slot member with ⟨entry, found, _⟩
  exact (List.getElem?_eq_some_iff.mp found).1

/-- A live entity claims its slot. -/
theorem Sound.claimed (sound : index.Sound slots) {spot : Ptr × Nat}
    (placed : index.place id = some spot) : index.Claimed slots id := by
  rcases place_eq_some_iff.mp placed with ⟨entry, found, current, pointer, _⟩
  refine ⟨?_, entry, found, current⟩
  intro member
  rcases sound.vacant _ member with ⟨listed, foundListed, vacant⟩
  rw [found] at foundListed
  cases foundListed
  rw [vacant] at pointer
  cases pointer

/-- The entry of a slot outside the free list may be replaced. -/
theorem Sound.set (sound : index.Sound slots) {slot : Nat} (unlisted : slot ∉ slots)
    {entry : Entry} (generationLe : entry.generation ≤ ENTITY_GEN_MASK) :
    Sound { index with entries := index.entries.set slot entry } slots where
  capPos := by simpa [cap] using sound.capPos
  capLt := by simpa [cap] using sound.capLt
  generationLe other found atOther := by
    rw [List.getElem?_set] at atOther
    split at atOther
    · split at atOther
      · cases atOther
        exact generationLe
      · cases atOther
    · exact sound.generationLe other found atOther
  linked := by
    apply sound.linked.congr
    intro node member
    have different : slot ≠ node := by
      rintro rfl
      exact unlisted member
    simp [link, different]
  nodup := sound.nodup
  vacant node member := by
    have different : slot ≠ node := by
      rintro rfl
      exact unlisted member
    simpa [different] using sound.vacant node member
  counted := by simpa [cap] using sound.counted

theorem Claimed.set {other : EntityId} {before after : Entry}
    (found : index.entries[id.index]? = some before)
    (sameGeneration : after.generation = before.generation)
    (claimed : index.Claimed slots other) :
    Claimed { index with entries := index.entries.set id.index after } slots other := by
  refine ⟨claimed.unlisted, ?_⟩
  rcases claimed.current with ⟨entry, foundOther, current⟩
  by_cases same : id.index = other.index
  · rw [← same, found] at foundOther
    cases foundOther
    exact ⟨after, by simp [← same, (List.getElem?_eq_some_iff.mp found).1],
      sameGeneration.trans current⟩
  · exact ⟨entry, by simp [same, foundOther], current⟩

theorem update_spec (sound : index.Sound slots) (claimed : index.Claimed slots id)
    (arch : Ptr) (row : Nat) :
    ∃ result, index.update id arch row = some result ∧ result.Sound slots ∧
      result.place = Function.update index.place id (some (arch, row)) ∧
      ∀ other, index.Claimed slots other → result.Claimed slots other := by
  rcases claimed.current with ⟨entry, found, current⟩
  refine ⟨{ index with
      entries := index.entries.set id.index
        { entry with arch := some arch, rowIndex := row } }, ?_, ?_, ?_, ?_⟩
  · simp [update, found, current]
  · exact sound.set claimed.unlisted (sound.generationLe _ entry found)
  · exact place_set_current found current rfl
  · exact fun other => Claimed.set found rfl

/-- An entity that keeps its place keeps its entry. -/
theorem update_of_place {arch : Ptr} {row : Nat} (placed : index.place id = some (arch, row)) :
    index.update id arch row = some index := by
  rcases place_eq_some_iff.mp placed with ⟨entry, found, current, pointer, atRow⟩
  have same : { entry with arch := some arch, rowIndex := row } = entry := by
    rw [← pointer, ← atRow]
  have kept : index.entries.set id.index entry = index.entries := by
    rcases List.getElem?_eq_some_iff.mp found with ⟨inRange, entryAt⟩
    rw [← entryAt, List.set_getElem_self]
  simp [update, found, current.symm, same, kept]

theorem updateRowIndex_spec (sound : index.Sound slots) {arch : Ptr} {before : Nat}
    (placed : index.place id = some (arch, before)) (row : Nat) :
    ∃ result, index.updateRowIndex id row = some result ∧ result.Sound slots ∧
      result.place = Function.update index.place id (some (arch, row)) ∧
      ∀ other, index.Claimed slots other → result.Claimed slots other := by
  rcases place_eq_some_iff.mp placed with ⟨entry, found, current, pointer, _⟩
  refine ⟨{ index with
      entries := index.entries.set id.index { entry with rowIndex := row } },
    ?_, ?_, ?_, ?_⟩
  · simp [updateRowIndex, found, current]
  · exact sound.set (sound.claimed placed).unlisted (sound.generationLe _ entry found)
  · have places := place_set_row found current row
    simpa only [pointer, Option.map_some] using places
  · exact fun other => Claimed.set found rfl

/-- The entity swapped into a row is the only one whose place changes. -/
theorem updateMoved_spec (sound : index.Sound slots) {moved : Option EntityId}
    {arch : Ptr} (placed : ∀ id, moved = some id → ∃ before, index.place id = some (arch, before))
    (row : Nat) :
    ∃ result, index.updateMoved moved row = some result ∧ result.Sound slots ∧
      (result.place = fun other =>
        if moved = some other then some (arch, row) else index.place other) ∧
      ∀ other, index.Claimed slots other → result.Claimed slots other := by
  cases moved with
  | none => exact ⟨index, rfl, sound, by simp, fun _ claimed => claimed⟩
  | some id =>
      rcases placed id rfl with ⟨before, placedId⟩
      rcases updateRowIndex_spec sound placedId row with
        ⟨result, updated, soundResult, places, claims⟩
      refine ⟨result, updated, soundResult, ?_, claims⟩
      funext other
      rw [places, Function.update_apply]
      simp only [Option.some.injEq, eq_comm]

/-- The entries of two entities can be changed in either order. -/
theorem update_updateMoved_iff {moved : Option EntityId} {arch : Ptr} {row gap : Nat}
    (apart : ∀ other, moved = some other → other.index ≠ id.index) {result : EntityIndex} :
    (∃ updated, index.update id arch row = some updated ∧
        updated.updateMoved moved gap = some result) ↔
      ∃ renamed, index.updateMoved moved gap = some renamed ∧
        renamed.update id arch row = some result := by
  cases moved with
  | none => simp [updateMoved]
  | some other =>
      have different := apart other rfl
      simp only [EntityIndex.update, updateMoved, updateRowIndex, Option.bind_eq_bind,
        Option.bind_eq_some_iff, Option.pure_def, Option.some.injEq, Option.guard_eq_some',
        exists_and_left, exists_const]
      constructor
      · rintro ⟨_, ⟨entry, found, current, rfl⟩, entryMoved, foundMoved, currentMoved, rfl⟩
        rw [List.getElem?_set_ne (Ne.symm different)] at foundMoved
        refine ⟨_, ⟨entryMoved, foundMoved, currentMoved, rfl⟩, entry, ?_, current, ?_⟩
        · rw [List.getElem?_set_ne different, found]
        · rw [List.set_comm _ _ different]
      · rintro ⟨_, ⟨entryMoved, foundMoved, currentMoved, rfl⟩, entry, found, current, rfl⟩
        rw [List.getElem?_set_ne different] at found
        refine ⟨_, ⟨entry, found, current, rfl⟩, entryMoved, ?_, currentMoved, ?_⟩
        · rw [List.getElem?_set_ne (Ne.symm different), foundMoved]
        · rw [List.set_comm _ _ different]

/-- Free slots and one slot in use fit below the capacity. -/
theorem Sound.length_lt_cap (sound : index.Sound slots) {slot : Nat}
    (unlisted : slot ∉ slots) (inRange : slot < index.cap) : slots.length < index.cap := by
  have within : slot :: slots ⊆ List.range index.cap := by
    intro other member
    rcases List.mem_cons.mp member with equal | member
    · exact equal ▸ List.mem_range.mpr inRange
    · exact List.mem_range.mpr (sound.lt_cap member)
  have nodup : (slot :: slots).Nodup := List.nodup_cons.mpr ⟨unlisted, sound.nodup⟩
  have bound := (nodup.subperm within).length_le
  simp only [List.length_cons, List.length_range] at bound
  omega

theorem and_ENTITY_GEN_MASK_le (number : Nat) :
    number &&& ENTITY_GEN_MASK ≤ ENTITY_GEN_MASK := Nat.and_le_right

theorem free_spec (sound : index.Sound slots) (claimed : index.Claimed slots id) :
    ∃ result, index.free id = some result ∧ result.Sound (id.index :: slots) ∧
      result.place = Function.update index.place id none := by
  rcases claimed.current with ⟨entry, found, current⟩
  have inRange : id.index < index.entries.length := (List.getElem?_eq_some_iff.mp found).1
  have short := sound.length_lt_cap claimed.unlisted inRange
  have counted := sound.counted
  have positive : 0 < index.count := by omega
  refine ⟨{ entries := index.entries.set id.index
              { generation := (entry.generation + 1) &&& ENTITY_GEN_MASK
                arch := none, rowIndex := index.freeList }
            count := index.count - 1
            freeList := id.index }, ?_, ?_, ?_⟩
  · simp only [free, found, freeListPush]
    simp [positive, current, inRange]
  · let freed : Entry :=
      { generation := (entry.generation + 1) &&& ENTITY_GEN_MASK
        arch := none, rowIndex := index.freeList }
    have generationLe : freed.generation ≤ ENTITY_GEN_MASK := and_ENTITY_GEN_MASK_le _
    have replaced := sound.set claimed.unlisted generationLe
    refine ⟨⟨replaced.capLt, replaced.generationLe, ?_, ?_, ?_, ?_⟩, replaced.capPos⟩
    · refine ⟨rfl, ?_, index.freeList, by simp [link, inRange], replaced.linked⟩
      have belowMask := Nat.lt_trans inRange sound.capLt
      intro equal
      rw [equal] at belowMask
      simp [SENTINEL, ENTITY_INDEX_MASK, INDEX_BITS] at belowMask
    · exact List.nodup_cons.mpr ⟨claimed.unlisted, sound.nodup⟩
    · intro slot member
      rcases List.mem_cons.mp member with equal | member
      · subst equal
        simp [inRange]
      · exact replaced.vacant slot member
    · simp only [List.length_cons, cap, List.length_set] at counted ⊢
      omega
  · funext other
    refine (place_set inRange other).trans ?_
    by_cases same : other = id
    · subst same
      simp
    · rw [Function.update_of_ne same]
      by_cases sameSlot : other.index = id.index
      · rw [place_eq_none_of_current found current sameSlot same]
        simp [sameSlot]
      · rw [if_neg sameSlot]

theorem getElem?_freshEntries {start stop last slot : Nat} (before : slot < stop - start) :
    (freshEntries start stop last)[slot]? =
      some { generation := 0, arch := none,
             rowIndex := if start + slot + 1 = stop then last else start + slot + 1 } := by
  simp [freshEntries, before]

@[simp] theorem length_freshEntries (start stop last : Nat) :
    (freshEntries start stop last).length = stop - start := by
  simp [freshEntries]

theorem cap_grown {newCap : Nat} (larger : index.cap < newCap) :
    (index.grown newCap).cap = newCap := by
  simp only [cap, grown, List.length_append, length_freshEntries]
  exact Nat.add_sub_cancel' (Nat.le_of_lt larger)

theorem getElem?_grown_of_lt {newCap slot : Nat} (inside : slot < index.cap) :
    (index.grown newCap).entries[slot]? = index.entries[slot]? :=
  List.getElem?_append_left inside

theorem getElem?_grown_of_le {newCap slot : Nat} (outside : index.cap ≤ slot)
    (before : slot < newCap) :
    (index.grown newCap).entries[slot]? =
      some { generation := 0, arch := none,
             rowIndex := if slot + 1 = newCap then index.freeList else slot + 1 } := by
  have within : slot - index.cap < newCap - index.cap := by omega
  have position : index.cap + (slot - index.cap) = slot := by omega
  refine (List.getElem?_append_right outside).trans ?_
  refine (getElem?_freshEntries within).trans ?_
  rw [position]

/-- New slots hold no entity. -/
theorem place_grown {newCap : Nat} (larger : index.cap < newCap) :
    (index.grown newCap).place = index.place := by
  funext id
  apply Option.ext
  rintro ⟨arch, row⟩
  rw [place_eq_some_iff, place_eq_some_iff]
  rcases Nat.lt_or_ge id.index index.cap with inside | outside
  · rw [getElem?_grown_of_lt inside]
  · have absent : index.entries[id.index]? = none := List.getElem?_eq_none outside
    rw [absent]
    constructor
    · rintro ⟨entry, found, _, pointer, _⟩
      have inRange : id.index < (index.grown newCap).cap :=
        (List.getElem?_eq_some_iff.mp found).1
      rw [cap_grown larger] at inRange
      rw [getElem?_grown_of_le outside inRange] at found
      cases found
      cases pointer
    · rintro ⟨entry, found, _⟩
      cases found

theorem ENTITY_INDEX_MASK_lt_SENTINEL : ENTITY_INDEX_MASK < SENTINEL := by decide

/-- The new slots are linked in front of the free list. -/
theorem Listed.linked_grown (listed : index.Listed slots) {newCap : Nat}
    (larger : index.cap < newCap) (below : newCap < ENTITY_INDEX_MASK) :
    Chain (index.grown newCap).link SENTINEL index.cap
      (List.range' index.cap (newCap - index.cap) ++ slots) := by
  have rest : Chain (index.grown newCap).link SENTINEL index.freeList slots := by
    apply listed.linked.congr
    intro slot member
    simp only [link]
    rw [getElem?_grown_of_lt (listed.lt_cap member)]
  apply rest.range'_append
  · omega
  · intro slot fromCap before
    simp only [link]
    rw [getElem?_grown_of_le fromCap (by omega), Nat.add_sub_cancel' (Nat.le_of_lt larger)]
    rfl
  · intro slot _ before
    have := ENTITY_INDEX_MASK_lt_SENTINEL
    omega

theorem Listed.grown (listed : index.Listed slots) {newCap : Nat} (larger : index.cap < newCap)
    (below : newCap < ENTITY_INDEX_MASK) :
    (index.grown newCap).Sound (List.range' index.cap (newCap - index.cap) ++ slots) where
  capPos := by
    rw [cap_grown larger]
    exact Nat.lt_of_le_of_lt (Nat.zero_le _) larger
  capLt := by
    rw [cap_grown larger]
    exact below
  generationLe slot entry found := by
    rcases Nat.lt_or_ge slot index.cap with inside | outside
    · rw [getElem?_grown_of_lt inside] at found
      exact listed.generationLe slot entry found
    · have inRange : slot < (index.grown newCap).cap := (List.getElem?_eq_some_iff.mp found).1
      rw [cap_grown larger] at inRange
      rw [getElem?_grown_of_le outside inRange] at found
      cases found
      exact Nat.zero_le _
  linked := listed.linked_grown larger below
  nodup := by
    rw [List.nodup_append]
    refine ⟨List.nodup_range', listed.nodup, ?_⟩
    intro slot fresh other member equal
    have inRange := listed.lt_cap member
    rw [List.mem_range'_1] at fresh
    omega
  vacant slot member := by
    rcases List.mem_append.mp member with fresh | old
    · rw [List.mem_range'_1] at fresh
      exact ⟨_, getElem?_grown_of_le fresh.1 (by omega), rfl⟩
    · rcases listed.vacant slot old with ⟨entry, found, vacant⟩
      exact ⟨entry, (getElem?_grown_of_lt (listed.lt_cap old)).trans found, vacant⟩
  counted := by
    have counted := listed.counted
    rw [cap_grown larger, List.length_append, List.length_range']
    change index.count + _ = newCap
    omega

theorem Sound.grow_eq (sound : index.Sound slots) {newCap : Nat}
    (larger : index.cap < newCap) (below : newCap < ENTITY_INDEX_MASK) :
    index.grow newCap = some (index.grown newCap) := by
  have capPos := sound.capPos
  have twice : 2 ≤ newCap := by omega
  simp [grow, below, larger, twice]

/-- The first index is grown from one without slots. -/
theorem new_spec {initialCapacity : Nat} {result : EntityIndex}
    (created : new initialCapacity = some result) :
    result.Sound (List.range' 0 (max initialCapacity 1)) ∧ result.place = fun _ => none := by
  simp only [new, Option.bind_eq_bind, Option.bind_eq_some_iff, Option.guard_eq_some',
    Option.pure_def, Option.some.injEq] at created
  rcases created with ⟨_, below, rfl⟩
  let nothing : EntityIndex := { entries := [], count := 0, freeList := SENTINEL }
  have listed : nothing.Listed [] :=
    { capLt := by decide
      generationLe := by simp [nothing]
      linked := rfl
      nodup := List.nodup_nil
      vacant := by simp
      counted := rfl }
  have larger : nothing.cap < max initialCapacity 1 := by
    simp [nothing, cap]
  have belowMask : max initialCapacity 1 < ENTITY_INDEX_MASK := by
    simp only [ENTITY_INDEX_MASK, INDEX_BITS] at below ⊢
    omega
  have sound := listed.grown larger belowMask
  have places := place_grown larger
  constructor
  · simpa [nothing, EntityIndex.grown, cap] using sound
  · refine Eq.trans ?_ (places.trans ?_)
    · simp [nothing, EntityIndex.grown, cap]
    · funext id
      simp [place, read, get, isValid, nothing, Except.toOption]

end Preservation

section Allocation

variable {index : EntityIndex} {slots rest : List Nat} {id : EntityId}

theorem place_eq_none_of_vacant {entry : Entry} (found : index.entries[id.index]? = some entry)
    (vacant : entry.arch = none) : index.place id = none := by
  cases placed : index.place id with
  | none => rfl
  | some spot =>
      rcases place_eq_some_iff.mp placed with ⟨other, foundOther, _, pointer, _⟩
      rw [found] at foundOther
      cases foundOther
      rw [vacant] at pointer
      cases pointer

/-- Replacing one entry without an entity by another moves nobody. -/
theorem place_set_vacant {slot : Nat} {before after : Entry}
    (found : index.entries[slot]? = some before) (vacantBefore : before.arch = none)
    (vacantAfter : after.arch = none) :
    ({ index with entries := index.entries.set slot after } : EntityIndex).place =
      index.place := by
  funext id
  rw [place_set (List.getElem?_eq_some_iff.mp found).1]
  by_cases sameSlot : id.index = slot
  · subst sameSlot
    rw [place_eq_none_of_vacant found vacantBefore, vacantAfter]
    simp
  · rw [if_neg sameSlot]

/-- A slot that is in no list any more is allocated: the index was one short. -/
theorem initAllocatedId_spec {slot : Nat} {entry : Entry}
    (sound : Sound { index with count := index.count + 1 } rest) (unlisted : slot ∉ rest)
    (found : index.entries[slot]? = some entry) (vacant : entry.arch = none) :
    ∃ id result, index.initAllocatedId slot = some (id, result) ∧
      result.Sound rest ∧ result.Claimed rest id ∧ id.index = slot ∧
      result.place = index.place ∧ result.cap = index.cap := by
  have generationLe := sound.generationLe slot entry found
  have inRange : slot < index.entries.length := (List.getElem?_eq_some_iff.mp found).1
  have packable : EntityId.Packable slot entry.generation :=
    ⟨Nat.le_of_lt (Nat.lt_trans inRange sound.capLt), generationLe⟩
  have indexNew := EntityId.index_new packable
  have generationNew := EntityId.generation_new packable
  let allocated : Entry := { entry with arch := none, rowIndex := SENTINEL }
  refine ⟨EntityId.new slot entry.generation,
    { index with count := index.count + 1, entries := index.entries.set slot allocated },
    ?_, sound.set unlisted generationLe, ⟨?_, allocated, ?_, ?_⟩, indexNew, ?_, ?_⟩
  · simp only [initAllocatedId, found]
    simp [packable, allocated]
  · rw [indexNew]
    exact unlisted
  · rw [indexNew]
    simp [inRange]
  · rw [generationNew]
  · exact place_set_vacant found vacant rfl
  · simp [cap]

theorem Sound.allocate_spec {slot : Nat} (sound : index.Sound (slot :: rest)) :
    ∃ id result, index.allocate = some (.ok id, result) ∧
      result.Sound rest ∧ result.Claimed rest id ∧ id.index = slot ∧
      result.place = index.place ∧ result.cap = index.cap := by
  rcases sound.linked with ⟨atHead, notStop, following, linked, tail⟩
  rcases sound.vacant slot List.mem_cons_self with ⟨entry, found, vacant⟩
  rcases List.nodup_cons.mp sound.nodup with ⟨unlisted, nodup⟩
  have row : entry.rowIndex = following := by
    simpa [link, found] using linked
  let popped : EntityIndex := { index with freeList := following }
  have soundPopped : Sound { popped with count := popped.count + 1 } rest :=
    { capPos := sound.capPos
      capLt := sound.capLt
      generationLe := sound.generationLe
      linked := tail
      nodup := nodup
      vacant := fun other member => sound.vacant other (List.mem_cons_of_mem _ member)
      counted := by
        have counted := sound.counted
        simp only [List.length_cons, cap, popped] at counted ⊢
        omega }
  rcases initAllocatedId_spec soundPopped unlisted found vacant with
    ⟨id, result, allocated, soundResult, claimed, sameSlot, places, capacity⟩
  refine ⟨id, result, ?_, soundResult, claimed, sameSlot, places, capacity⟩
  have pop : index.freeListPop = some (some slot, popped) := by
    rw [freeListPop, atHead, if_neg notStop, found]
    simp [popped, row]
  simp [allocate, pop, allocated]

/-- Without a resize the id comes from the free list. -/
theorem Sound.allocate_ok (sound : index.Sound slots)
    (allocated : index.allocate = some (.ok id, result)) :
    ∃ rest, result.Sound rest ∧ result.place = index.place ∧ index.place id = none := by
  cases slots with
  | nil =>
      have stop : index.freeList = SENTINEL := sound.linked.eq_nil_iff.mp rfl
      have full : index.count = index.cap := sound.counted
      simp [allocate, freeListPop, stop, full] at allocated
  | cons slot rest =>
      rcases sound.allocate_spec with ⟨other, after, same, soundRest, _, sameSlot, places, _⟩
      rw [same, Option.some.injEq, Prod.mk.injEq, Except.ok.injEq] at allocated
      rcases allocated with ⟨rfl, rfl⟩
      rcases sound.vacant slot List.mem_cons_self with ⟨entry, found, vacant⟩
      exact ⟨rest, soundRest, places, place_eq_none_of_vacant (sameSlot ▸ found) vacant⟩

/-- A failed allocation leaves the index as it was. -/
theorem Sound.allocate_error (sound : index.Sound slots) {error : HandleTableError}
    (failed : index.allocate = some (.error error, result)) : result = index := by
  cases slots with
  | nil =>
      have stop : index.freeList = SENTINEL := sound.linked.eq_nil_iff.mp rfl
      have full : index.count = index.cap := sound.counted
      simp only [allocate, freeListPop, stop, full, if_true, Option.bind_eq_bind,
        Option.bind_some, Option.pure_def, Option.some.injEq, Prod.mk.injEq] at failed
      exact failed.2.symm
  | cons slot rest =>
      rcases sound.allocate_spec with ⟨_, _, handed, _⟩
      rw [handed] at failed
      cases failed

/-- A slot is unused, or the index may still be resized. -/
def HasRoom (index : EntityIndex) : Prop :=
  index.count < index.cap ∨ resizedCapacity index.cap < ENTITY_INDEX_MASK

instance (index : EntityIndex) : Decidable index.HasRoom :=
  inferInstanceAs (Decidable (_ ∨ _))

theorem lt_resizedCapacity {cap : Nat} (positive : 0 < cap)
    (below : cap < ENTITY_INDEX_MASK) : cap < resizedCapacity cap := by
  simp only [ENTITY_INDEX_MASK, INDEX_BITS] at below
  have exact : asFloat32 cap = cap := asFloat32_of_lt (by omega)
  rw [resizedCapacity, exact]
  by_cases small : cap * 3 < 2 ^ 24
  · rw [asFloat32_of_lt small]
    omega
  · have close := le_asFloat32 (by omega : cap * 3 < 2 ^ 26)
    omega

/-- A slot is free already. -/
theorem Sound.growIfFull_of_free {slot : Nat} (sound : index.Sound (slot :: rest)) :
    index.growIfFull = some index := by
  rw [growIfFull, if_neg]
  rintro ⟨empty, _⟩
  exact List.cons_ne_nil slot rest (sound.linked.eq_nil_iff.mpr empty)

/-- Growing provides free slots, the first of which is the old capacity. -/
theorem Sound.growIfFull_of_full (sound : index.Sound [])
    (below : resizedCapacity index.cap < ENTITY_INDEX_MASK) :
    ∃ extra, resizedCapacity index.cap - index.cap = extra + 1 ∧
      index.cap < resizedCapacity index.cap ∧
      index.growIfFull = some (index.grown (resizedCapacity index.cap)) := by
  have stop : index.freeList = SENTINEL := sound.linked.eq_nil_iff.mp rfl
  have full : index.count = index.cap := sound.counted
  have larger := lt_resizedCapacity sound.capPos sound.capLt
  rcases Nat.exists_eq_add_of_lt larger with ⟨extra, positive⟩
  refine ⟨extra, by omega, larger, ?_⟩
  rw [growIfFull, if_pos ⟨stop, full⟩, sound.grow_eq larger below]

theorem Sound.hasRoom_of_free {slot : Nat} (sound : index.Sound (slot :: rest)) :
    index.HasRoom := by
  have counted := sound.counted
  rw [List.length_cons] at counted
  exact Or.inl (by omega)

theorem Sound.hasRoom_of_full (sound : index.Sound []) :
    index.HasRoom ↔ resizedCapacity index.cap < ENTITY_INDEX_MASK := by
  have full : index.count = index.cap := sound.counted
  exact or_iff_right (by omega)

/-- A resize that succeeds had room. -/
theorem Sound.hasRoom (sound : index.Sound slots)
    (allocated : index.allocateWithResize = some (id, result)) : index.HasRoom := by
  cases slots with
  | cons slot rest => exact sound.hasRoom_of_free
  | nil =>
      rw [sound.hasRoom_of_full]
      by_contra noRoom
      have stop : index.freeList = SENTINEL := sound.linked.eq_nil_iff.mp rfl
      have full : index.count = index.cap := sound.counted
      have stuck : index.growIfFull = none := by
        rw [growIfFull, if_pos ⟨stop, full⟩, grow]
        simp [noRoom]
      simp [allocateWithResize, stuck] at allocated

theorem allocateWithResize_spec (sound : index.Sound slots) (room : index.HasRoom) :
    ∃ id result rest, index.allocateWithResize = some (id, result) ∧
      result.Sound rest ∧ result.Claimed rest id ∧ result.place = index.place ∧
      index.place id = none := by
  -- Either a slot is free already, or growing provides one.
  have resized : ∃ grown slot rest, index.growIfFull = some grown ∧
      grown.Sound (slot :: rest) ∧ grown.place = index.place := by
    cases slots with
    | cons slot rest => exact ⟨index, slot, rest, sound.growIfFull_of_free, sound, rfl⟩
    | nil =>
        have below := sound.hasRoom_of_full.mp room
        rcases sound.growIfFull_of_full below with ⟨extra, difference, larger, resize⟩
        have grown := sound.grown larger below
        rw [List.append_nil, difference, List.range'_succ] at grown
        exact ⟨_, index.cap, List.range' (index.cap + 1) extra, resize, grown,
          place_grown larger⟩
  rcases resized with ⟨grown, slot, rest, resize, soundGrown, places⟩
  rcases soundGrown.allocate_spec with
    ⟨id, result, allocated, soundResult, claimed, sameSlot, placesResult, _⟩
  refine ⟨id, result, rest, ?_, soundResult, claimed, placesResult.trans places, ?_⟩
  · simp [allocateWithResize, resize, allocated]
  · rcases soundGrown.vacant slot List.mem_cons_self with ⟨entry, found, vacant⟩
    rw [← places]
    exact place_eq_none_of_vacant (sameSlot ▸ found) vacant

end Allocation

end EntityIndex

end Cecs

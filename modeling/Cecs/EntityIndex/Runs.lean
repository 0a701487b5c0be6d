import Cecs.EntityIndex.InsertId
import Mathlib.Data.Nat.ModEq
import Mathlib.Data.Set.Insert

/-! # Runs of the entity index

An id is allocated from the moment it is handed out or inserted until it is
freed. Whatever the order of the operations, the free list holds the slots of
no allocated id, once each. -/

namespace Cecs

open Foundation

namespace EntityIndex

/-- What an operation does to the set of allocated ids. -/
inductive Event where
  | handed (id : EntityId)
  | inserted (id : EntityId)
  | freed (id : EntityId)
  | quiet
  deriving DecidableEq, Repr

namespace Event

def after (allocated : Set EntityId) : Event → Set EntityId
  | .handed id => insert id allocated
  | .inserted id => insert id allocated
  | .freed id => allocated \ {id}
  | .quiet => allocated

/-- The generation of `slot` after the event. -/
def turned (slot turn : Nat) : Event → Nat
  | .inserted id => if id.index = slot then id.generation else turn
  | .freed id => if id.index = slot then (turn + 1) % 256 else turn
  | _ => turn

end Event

/-- The operations, with their callers' promise that an id they pass to
`update`, `update_row_index` or `free` is allocated. -/
inductive Step (index : EntityIndex) (allocated : Set EntityId) : Event → EntityIndex → Prop where
  | allocate {id : EntityId} {after : EntityIndex}
      (returned : index.allocate = some (.ok id, after)) : Step index allocated (.handed id) after
  | allocateFull {error : HandleTableError} {after : EntityIndex}
      (returned : index.allocate = some (.error error, after)) : Step index allocated .quiet after
  | allocateWithResize {id : EntityId} {after : EntityIndex}
      (returned : index.allocateWithResize = some (id, after)) :
      Step index allocated (.handed id) after
  | insertId {id : EntityId} {after : EntityIndex}
      (returned : index.insertId id = some (.ok (), after)) :
      Step index allocated (.inserted id) after
  | insertIdRefused {id : EntityId} {error : InsertError} {after : EntityIndex}
      (returned : index.insertId id = some (.error error, after)) :
      Step index allocated .quiet after
  | reserve {additional : Nat} {after : EntityIndex}
      (returned : index.reserve additional = some after) : Step index allocated .quiet after
  | update {id : EntityId} {arch : Ptr} {row : Nat} {after : EntityIndex}
      (member : id ∈ allocated) (returned : index.update id arch row = some after) :
      Step index allocated .quiet after
  | updateRowIndex {id : EntityId} {row : Nat} {after : EntityIndex}
      (member : id ∈ allocated) (returned : index.updateRowIndex id row = some after) :
      Step index allocated .quiet after
  | free {id : EntityId} {after : EntityIndex}
      (member : id ∈ allocated) (returned : index.free id = some after) :
      Step index allocated (.freed id) after
  | clone {after : EntityIndex}
      (returned : index.clone = some after) : Step index allocated .quiet after

/-- Any sequence of operations, with the events they leave. -/
inductive Run : EntityIndex → Set EntityId → List Event → EntityIndex → Set EntityId → Prop where
  | nil {index : EntityIndex} {allocated : Set EntityId} : Run index allocated [] index allocated
  | cons {index middle final : EntityIndex} {allocated last : Set EntityId} {event : Event}
      {events : List Event} (step : Step index allocated event middle)
      (rest : Run middle (event.after allocated) events final last) :
      Run index allocated (event :: events) final last

/-- The free list holds the slots of no allocated id. -/
structure Tracks (index : EntityIndex) (slots : List Nat) (allocated : Set EntityId) : Prop
    extends Sound index slots where
  mem_iff : ∀ id, id ∈ allocated ↔ index.Claimed slots id

variable {index after : EntityIndex} {slots rest : List Nat} {allocated : Set EntityId}
variable {id : EntityId}

section Steps

/-- Nothing is handed out or freed. -/
theorem Tracks.keeps (tracks : index.Tracks slots allocated) (sound : after.Sound slots)
    (same : after.generationAt = index.generationAt) : after.Tracks slots allocated where
  toSound := sound
  mem_iff other := by rw [tracks.mem_iff, claimed_iff, claimed_iff, same]

theorem Tracks.new {initialCapacity : Nat} (created : new initialCapacity = some index) :
    index.Tracks (List.range' 0 index.cap) ∅ := by
  have capacity : index.cap = max initialCapacity 1 := by
    simp only [EntityIndex.new, Option.bind_eq_bind, Option.bind_eq_some_iff, Option.pure_def,
      Option.some.injEq] at created
    rcases created with ⟨_, _, rfl⟩
    simp [cap]
  refine ⟨capacity ▸ (new_spec created).1, fun other => ?_⟩
  constructor
  · exact fun member => absurd member (Set.notMem_empty other)
  · intro claimed
    have listed : other.index ∈ List.range' 0 index.cap := by
      rw [List.mem_range'_1]
      exact ⟨Nat.zero_le _, by simpa using claimed.inRange⟩
    exact absurd listed claimed.unlisted

theorem Tracks.grown (tracks : index.Tracks slots allocated) {newCap : Nat}
    (larger : index.cap < newCap) (below : newCap < ENTITY_INDEX_MASK) :
    (index.grown newCap).Tracks (List.range' index.cap (newCap - index.cap) ++ slots)
      allocated where
  toSound := tracks.toListed.grown larger below
  mem_iff other := by
    rw [tracks.mem_iff, claimed_iff, claimed_iff, generationAt_grown larger, List.mem_append,
      List.mem_range'_1, not_or]
    constructor
    · rintro ⟨unlisted, current⟩
      have inside : other.index < index.cap := generationAt_isSome.mp ⟨_, current⟩
      exact ⟨⟨fun fresh => Nat.not_le_of_lt inside fresh.1, unlisted⟩, by rwa [if_pos inside]⟩
    · rintro ⟨⟨old, unlisted⟩, current⟩
      by_cases inside : other.index < index.cap
      · exact ⟨unlisted, by rwa [if_pos inside] at current⟩
      · rw [if_neg inside] at current
        split at current
        · exact absurd ⟨Nat.le_of_not_lt inside, by omega⟩ old
        · cases current

/-- The invariant after an operation, and the generations it leaves. -/
def Follows (index : EntityIndex) (allocated : Set EntityId) (event : Event)
    (after : EntityIndex) : Prop :=
  (∃ rest, after.Tracks rest (event.after allocated)) ∧
    ∀ slot, after.turn slot = event.turned slot (index.turn slot)

theorem Tracks.follows_grow (tracks : index.Tracks slots allocated) {newCap : Nat}
    (grown : index.grow newCap = some after) : Follows index allocated .quiet after := by
  simp only [grow, Option.bind_eq_bind, Option.bind_eq_some_iff, Option.guard_eq_some',
    Option.pure_def, Option.some.injEq, exists_const] at grown
  rcases grown with ⟨below, larger, _, rfl⟩
  exact ⟨⟨_, tracks.grown larger below⟩, turn_grown larger⟩

theorem Tracks.follows_same (tracks : index.Tracks slots allocated) (sound : after.Sound slots)
    (same : after.generationAt = index.generationAt) : Follows index allocated .quiet after :=
  ⟨⟨slots, tracks.keeps sound same⟩, fun slot => by rw [turn, same]; rfl⟩

/-- An empty free list means that every slot is allocated. -/
theorem Sound.full (sound : index.Sound slots) {popped : EntityIndex}
    (pop : index.freeListPop = some (none, popped)) : index.count = index.cap := by
  have stop : index.freeList = SENTINEL := by
    by_contra notStop
    simp [freeListPop, notStop, Option.bind_eq_some_iff] at pop
  have counted := sound.counted
  rwa [sound.linked.eq_nil_iff.mpr stop] at counted

/-- `allocate` hands out the first free slot, or fails without a change. -/
theorem Tracks.follows_allocate (tracks : index.Tracks slots allocated)
    {outcome : Except HandleTableError EntityId}
    (returned : index.allocate = some (outcome, after)) :
    (∃ error, outcome = .error error ∧ after = index) ∨
      ∃ id, outcome = .ok id ∧ id ∉ allocated ∧ Follows index allocated (.handed id) after := by
  have generations := allocate_generationAt returned
  cases slots with
  | nil =>
      have stop : index.freeList = SENTINEL := tracks.linked.eq_nil_iff.mp rfl
      have pop : index.freeListPop = some (none, index) := if_pos stop
      have full := tracks.full pop
      simp only [allocate, pop, full, Option.bind_eq_bind, Option.bind_some, if_true,
        Option.pure_def, Option.some.injEq, Prod.mk.injEq] at returned
      exact Or.inl ⟨_, returned.1.symm, returned.2.symm⟩
  | cons slot rest =>
      rcases tracks.toSound.allocate_spec with
        ⟨id, result, allocation, sound, claimed, sameSlot, _⟩
      rw [returned, Option.some.injEq, Prod.mk.injEq] at allocation
      rcases allocation with ⟨rfl, rfl⟩
      refine Or.inr ⟨id, rfl, ?_, ⟨rest, sound, fun other => ?_⟩, fun slot => ?_⟩
      · intro member
        have unlisted := ((tracks.mem_iff id).mp member).unlisted
        exact unlisted (sameSlot ▸ List.mem_cons_self)
      · change other ∈ insert id allocated ↔ _
        rw [Set.mem_insert_iff, tracks.mem_iff]
        constructor
        · rintro (rfl | old)
          · exact claimed
          · rcases claimed_iff.mp old with ⟨unlisted, current⟩
            rw [claimed_iff, generations]
            exact ⟨fun member => unlisted (List.mem_cons_of_mem _ member), current⟩
        · intro now
          by_cases same : other.index = id.index
          · exact Or.inl (now.eq_of_index claimed same)
          · rcases claimed_iff.mp now with ⟨unlisted, current⟩
            rw [claimed_iff, ← generations]
            refine Or.inr ⟨?_, current⟩
            rw [List.mem_cons, not_or]
            exact ⟨fun equal => same (equal.trans sameSlot.symm), unlisted⟩
      · rw [turn, generations]
        rfl

/-- What follows a quiet operation follows from before it. -/
theorem Follows.after_quiet {middle : EntityIndex} {event : Event}
    (first : Follows index allocated .quiet middle)
    (second : Follows middle allocated event after) : Follows index allocated event after :=
  ⟨second.1, fun slot => by rw [second.2, first.2]; rfl⟩

theorem Tracks.follows_growIfFull (tracks : index.Tracks slots allocated)
    (resized : index.growIfFull = some after) : Follows index allocated .quiet after := by
  rw [growIfFull] at resized
  split at resized
  · exact tracks.follows_grow resized
  · cases resized
    exact tracks.follows_same tracks.toSound rfl

theorem Tracks.follows_allocateWithResize (tracks : index.Tracks slots allocated)
    (returned : index.allocateWithResize = some (id, after)) :
    id ∉ allocated ∧ Follows index allocated (.handed id) after := by
  simp only [allocateWithResize, Option.bind_eq_bind, Option.bind_eq_some_iff] at returned
  rcases returned with ⟨resized, resize, ⟨outcome, result⟩, allocation, rest⟩
  have first := tracks.follows_growIfFull resize
  rcases first.1 with ⟨_, tracksResized⟩
  rcases tracksResized.follows_allocate allocation with
    ⟨error, rfl, _⟩ | ⟨handed, rfl, fresh, second⟩
  · cases rest
  · cases rest
    exact ⟨fresh, first.after_quiet second⟩

theorem Tracks.follows_reserve (tracks : index.Tracks slots allocated) {additional : Nat}
    (returned : index.reserve additional = some after) :
    Follows index allocated .quiet after := by
  rw [reserve] at returned
  split at returned
  · exact tracks.follows_grow returned
  · cases returned
    exact tracks.follows_same tracks.toSound rfl

theorem Tracks.follows_update (tracks : index.Tracks slots allocated) (member : id ∈ allocated)
    {arch : Ptr} {row : Nat} (returned : index.update id arch row = some after) :
    Follows index allocated .quiet after := by
  rcases update_spec tracks.toSound ((tracks.mem_iff id).mp member) arch row with
    ⟨result, updated, sound, _⟩
  rw [returned, Option.some.injEq] at updated
  exact tracks.follows_same (updated ▸ sound) (update_generationAt returned)

theorem Tracks.follows_updateRowIndex (tracks : index.Tracks slots allocated)
    (member : id ∈ allocated) {row : Nat} (returned : index.updateRowIndex id row = some after) :
    Follows index allocated .quiet after := by
  have same := updateRowIndex_generationAt returned
  simp only [updateRowIndex, Option.bind_eq_bind, Option.bind_eq_some_iff, Option.pure_def,
    Option.some.injEq] at returned
  rcases returned with ⟨entry, found, _, _, rfl⟩
  have unlisted := ((tracks.mem_iff id).mp member).unlisted
  exact tracks.follows_same (tracks.toSound.set unlisted (tracks.generationLe _ entry found)) same

theorem Tracks.follows_free (tracks : index.Tracks slots allocated) (member : id ∈ allocated)
    (returned : index.free id = some after) : Follows index allocated (.freed id) after := by
  have claimed := (tracks.mem_iff id).mp member
  have generations := free_generationAt returned
  rcases free_spec tracks.toSound claimed with ⟨result, freed, sound, _⟩
  rw [returned, Option.some.injEq] at freed
  refine ⟨⟨id.index :: slots, freed ▸ sound, fun other => ?_⟩, fun slot => ?_⟩
  · change other ∈ allocated \ {id} ↔ _
    rw [Set.mem_sdiff_singleton, tracks.mem_iff, claimed_iff, claimed_iff, generations,
      List.mem_cons, not_or]
    constructor
    · rintro ⟨⟨unlisted, current⟩, different⟩
      have elsewhere : other.index ≠ id.index := fun same =>
        different (Claimed.eq_of_index (claimed_iff.mpr ⟨unlisted, current⟩) claimed same)
      exact ⟨⟨elsewhere, unlisted⟩, by rwa [Function.update_of_ne elsewhere]⟩
    · rintro ⟨⟨elsewhere, unlisted⟩, current⟩
      rw [Function.update_of_ne elsewhere] at current
      exact ⟨⟨unlisted, current⟩, fun same => elsewhere (congrArg _ same)⟩
  · have old := claimed.turn
    rw [turn, generations, Function.update_apply]
    by_cases same : id.index = slot
    · subst same
      simp [Event.turned, old]
    · simp [Event.turned, same, Ne.symm same, turn]

/-- The slot of an inserted id was free or new, and no other slot changes hands. -/
theorem Tracks.follows_inserts (tracks : index.Tracks slots allocated)
    (inserts : Inserts index slots id after rest)
    (free : ∀ other ∈ allocated, other.index ≠ id.index) :
    Follows index allocated (.inserted id) after := by
  refine ⟨⟨rest, inserts.sound, fun other => ?_⟩, fun slot => ?_⟩
  · change other ∈ insert id allocated ↔ _
    rw [Set.mem_insert_iff]
    by_cases same : other.index = id.index
    · constructor
      · rintro (rfl | old)
        · exact inserts.claimed
        · exact absurd same (free other old)
      · exact fun now => Or.inl (now.eq_of_index inserts.claimed same)
    · have different : other ≠ id := fun equal => same (congrArg _ equal)
      have capacity := inserts.cap
      rw [or_iff_right different, tracks.mem_iff, claimed_iff, claimed_iff, inserts.free,
        generationAt_eq, generationAt_eq after, inserts.turn _ same]
      by_cases inside : other.index < index.cap
      · have stays : other.index < after.cap := by omega
        simp only [if_pos inside, if_pos stays]
        have old : ¬ (index.cap ≤ other.index ∧ other.index ≤ id.index) := by omega
        simp [same, old]
      · rw [if_neg inside]
        constructor
        · exact fun both => absurd both.2 (by simp)
        · rintro ⟨unlisted, current⟩
          have beyond : id.index < other.index := by
            by_contra within
            exact unlisted ⟨Or.inr ⟨Nat.le_of_not_lt inside, Nat.le_of_not_lt within⟩, same⟩
          rw [if_neg (by omega)] at current
          cases current
  · by_cases same : slot = id.index
    · subst same
      rw [inserts.claimed.turn]
      simp [Event.turned]
    · rw [inserts.turn slot same]
      simp [Event.turned, Ne.symm same]

/-- `insert_id` succeeds exactly when no allocated id has the slot. -/
theorem Tracks.insertId_cases (tracks : index.Tracks slots allocated) (id : EntityId)
    (below : id.index + 1 < ENTITY_INDEX_MASK) :
    (∃ after rest, index.insertId id = some (.ok (), after) ∧
      (∀ other ∈ allocated, other.index ≠ id.index) ∧ Inserts index slots id after rest) ∨
    ∃ error, index.insertId id = some (.error error, index) ∧
      ∃ other ∈ allocated, other.index = id.index := by
  by_cases taken : id.index < index.cap ∧ id.index ∉ slots
  · rcases taken with ⟨inRange, unlisted⟩
    rcases insertId_of_taken tracks.toSound inRange unlisted with ⟨error, _, refused⟩
    rcases tracks.toSound.exists_claimed inRange unlisted with ⟨other, sameSlot, claimed⟩
    exact Or.inr ⟨error, refused, other, (tracks.mem_iff other).mpr claimed, sameSlot⟩
  · have free : id.index < index.cap → id.index ∈ slots := by
      intro inRange
      by_contra unlisted
      exact taken ⟨inRange, unlisted⟩
    rcases insertId_of_free tracks.toSound free below with ⟨after, rest, inserted, inserts, _⟩
    refine Or.inl ⟨after, rest, inserted, ?_, inserts⟩
    intro other member sameSlot
    have claimed := (tracks.mem_iff other).mp member
    exact claimed.unlisted (sameSlot ▸ free (sameSlot ▸ claimed.inRange))

theorem Tracks.follows_insertId (tracks : index.Tracks slots allocated)
    {outcome : Except InsertError Unit} (returned : index.insertId id = some (outcome, after)) :
    Follows index allocated
      (if outcome = .ok () then .inserted id else .quiet) after := by
  rcases tracks.insertId_cases id (tracks.toSound.insertId_below returned) with
    ⟨result, rest, inserted, free, inserts⟩ | ⟨error, refused, _⟩
  · rw [returned, Option.some.injEq, Prod.mk.injEq] at inserted
    rcases inserted with ⟨rfl, rfl⟩
    exact tracks.follows_inserts inserts free
  · rw [returned, Option.some.injEq, Prod.mk.injEq] at refused
    rcases refused with ⟨rfl, rfl⟩
    exact tracks.follows_same tracks.toSound rfl

/-- Each operation keeps the invariant. -/
theorem Tracks.step {event : Event} (tracks : index.Tracks slots allocated)
    (step : Step index allocated event after) : Follows index allocated event after := by
  cases step with
  | allocate returned =>
      rcases tracks.follows_allocate returned with ⟨_, failed, _⟩ | ⟨_, handed, _, follows⟩
      · cases failed
      · cases handed
        exact follows
  | allocateFull returned =>
      rcases tracks.follows_allocate returned with ⟨_, _, rfl⟩ | ⟨_, handed, _⟩
      · exact tracks.follows_same tracks.toSound rfl
      · cases handed
  | allocateWithResize returned => exact (tracks.follows_allocateWithResize returned).2
  | insertId returned => exact tracks.follows_insertId returned
  | insertIdRefused returned => exact tracks.follows_insertId returned
  | reserve returned => exact tracks.follows_reserve returned
  | update member returned => exact tracks.follows_update member returned
  | updateRowIndex member returned => exact tracks.follows_updateRowIndex member returned
  | free member returned => exact tracks.follows_free member returned
  | clone returned =>
      rw [clone_eq returned]
      exact tracks.follows_same tracks.toSound rfl

/-- An id that is handed out is not allocated. -/
theorem Tracks.fresh (tracks : index.Tracks slots allocated)
    (step : Step index allocated (.handed id) after) : id ∉ allocated := by
  cases step with
  | allocate returned =>
      rcases tracks.follows_allocate returned with ⟨_, failed, _⟩ | ⟨_, handed, fresh, _⟩
      · cases failed
      · cases handed
        exact fresh
  | allocateWithResize returned => exact (tracks.follows_allocateWithResize returned).1

end Steps

section Runs

variable {start final : EntityIndex} {held last : Set EntityId} {events : List Event}

theorem Tracks.run (tracks : index.Tracks slots allocated)
    (run : Run index allocated events final last) : ∃ rest, final.Tracks rest last := by
  induction run generalizing slots with
  | nil => exact ⟨slots, tracks⟩
  | cons step _ induction =>
      rcases (tracks.step step).1 with ⟨rest, tracksMiddle⟩
      exact induction tracksMiddle

/-- No two allocated ids share a slot. -/
theorem Tracks.eq_of_index (tracks : index.Tracks slots allocated) {other : EntityId}
    (member : id ∈ allocated) (memberOther : other ∈ allocated)
    (sameSlot : id.index = other.index) : id = other :=
  ((tracks.mem_iff id).mp member).eq_of_index ((tracks.mem_iff other).mp memberOther) sameSlot

/-- The list visits each slot that is not allocated exactly once, and no other. -/
structure ListsUnallocated (index : EntityIndex) (allocated : Set EntityId)
    (slots : List Nat) : Prop where
  linked : Chain index.link SENTINEL index.freeList slots
  nodup : slots.Nodup
  mem_iff : ∀ slot, slot ∈ slots ↔ slot < index.cap ∧ ∀ id ∈ allocated, id.index ≠ slot
  counted : slots.length + index.count = index.cap

theorem Tracks.listsUnallocated (tracks : index.Tracks slots allocated) :
    index.ListsUnallocated allocated slots where
  linked := tracks.linked
  nodup := tracks.nodup
  counted := (Nat.add_comm _ _).trans tracks.counted
  mem_iff slot := by
    constructor
    · intro member
      refine ⟨tracks.toListed.lt_cap member, ?_⟩
      rintro id allocatedId rfl
      exact ((tracks.mem_iff id).mp allocatedId).unlisted member
    · rintro ⟨inRange, unallocated⟩
      by_contra unlisted
      rcases tracks.toSound.exists_claimed inRange unlisted with ⟨id, sameSlot, claimed⟩
      exact unallocated id ((tracks.mem_iff id).mpr claimed) sameSlot

/-- `id` becomes allocated, and the slots of the others are as they were. -/
structure AllocatesOnly (index : EntityIndex) (allocated : Set EntityId) (id : EntityId)
    (after : EntityIndex) : Prop where
  cap : after.cap = max index.cap (id.index + 1)
  listed : ∃ slots, after.ListsUnallocated (insert id allocated) slots
  current : after.generationAt id.index = some id.generation
  turn : ∀ slot, slot ≠ id.index → after.turn slot = index.turn slot
  arch : after.arch = index.arch
  entries : ∀ other ∈ allocated,
    after.entries[other.index]? = index.entries[other.index]?

theorem Tracks.allocatesOnly (tracks : index.Tracks slots allocated)
    (free : ∀ other ∈ allocated, other.index ≠ id.index)
    (inserts : Inserts index slots id after rest) : AllocatesOnly index allocated id after where
  cap := inserts.cap
  listed := by
    rcases (tracks.follows_inserts inserts free).1 with ⟨slots, tracksAfter⟩
    exact ⟨slots, tracksAfter.listsUnallocated⟩
  current := (claimed_iff.mp inserts.claimed).2
  turn := inserts.turn
  arch := inserts.arch
  entries other member := by
    have claimed := (tracks.mem_iff other).mp member
    exact inserts.entries _ claimed.inRange (free other member) claimed.unlisted

/-- In every reachable state the free list and the allocated ids share out the
slots, `allocate` finds a free slot or none at all, and `insert_id` takes the
slot it is asked for or changes nothing. -/
theorem Run.sharesOut {initialCapacity : Nat} (created : new initialCapacity = some start)
    (run : Run start ∅ events index allocated) :
    (∃ slots, index.ListsUnallocated allocated slots) ∧
    (∀ id ∈ allocated, id.index < index.cap ∧
      ∀ other ∈ allocated, id.index = other.index → id = other) ∧
    (∀ resized popped, resized = index ∨ index.growIfFull = some resized →
      resized.freeListPop = some (none, popped) → resized.count = resized.cap) ∧
    ∀ id : EntityId, id.index + 1 < ENTITY_INDEX_MASK →
      ∃ outcome after, index.insertId id = some (outcome, after) ∧
        (outcome = .ok () ↔ ∀ other ∈ allocated, other.index ≠ id.index) ∧
        (outcome = .ok () → AllocatesOnly index allocated id after) ∧
        ∀ error, outcome = .error error → after = index := by
  rcases (Tracks.new created).run run with ⟨slots, tracks⟩
  refine ⟨⟨slots, tracks.listsUnallocated⟩, ?_, ?_, ?_⟩
  · intro id member
    exact ⟨((tracks.mem_iff id).mp member).inRange, fun other => tracks.eq_of_index member⟩
  · rintro resized popped (rfl | grown) pop
    · exact tracks.toSound.full pop
    · rcases (tracks.follows_growIfFull grown).1 with ⟨_, tracksResized⟩
      exact tracksResized.toSound.full pop
  · intro id below
    rcases tracks.insertId_cases id below with
      ⟨after, rest, inserted, free, inserts⟩ | ⟨error, refused, other, member, sameSlot⟩
    · exact ⟨.ok (), after, inserted, iff_of_true rfl free,
        fun _ => tracks.allocatesOnly free inserts, by simp⟩
    · refine ⟨.error error, index, refused, ?_, by simp, by simp⟩
      exact iff_of_false (by simp) fun free => free other member sameSlot

/-- A slot is freed, the index grows for a chosen id, and another slot is handed out. -/
def slotsReused : List Event :=
  [.handed (EntityId.new 0 0), .handed (EntityId.new 1 0), .freed (EntityId.new 0 0),
    .inserted (EntityId.new 4 7), .handed (EntityId.new 2 0)]

/-- After that two slots are free, one of which can be chosen. -/
theorem Run.sharesOut_sample : ∃ start index : EntityIndex,
    new 2 = some start ∧ Run start ∅ slotsReused index (slotsReused.foldl Event.after ∅) ∧
    index.count = 3 ∧ index.cap = 5 ∧
    (∃ slots, index.ListsUnallocated (slotsReused.foldl Event.after ∅) slots) ∧
    ∃ after, index.insertId (EntityId.new 3 2) = some (.ok (), after) ∧
      AllocatesOnly index (slotsReused.foldl Event.after ∅) (EntityId.new 3 2) after := by
  obtain ⟨start, one, two, freed, grown, index, after, created, first, second, free, insertion,
      third, count, cap, chosen⟩ :
      ∃ start one two freed grown index after : EntityIndex, new 2 = some start ∧
        start.allocate = some (.ok (EntityId.new 0 0), one) ∧
        one.allocate = some (.ok (EntityId.new 1 0), two) ∧
        two.free (EntityId.new 0 0) = some freed ∧
        freed.insertId (EntityId.new 4 7) = some (.ok (), grown) ∧
        grown.allocateWithResize = some (EntityId.new 2 0, index) ∧
        index.count = 3 ∧ index.cap = 5 ∧
        index.insertId (EntityId.new 3 2) = some (.ok (), after) :=
    ⟨_, _, _, _, _, _, _, rfl, rfl, rfl, rfl, rfl, rfl, rfl, rfl, rfl⟩
  have held : EntityId.new 0 0 ∈ Event.after (Event.after ∅ (.handed (EntityId.new 0 0)))
      (.handed (EntityId.new 1 0)) := Set.mem_insert_of_mem _ (Set.mem_insert _ _)
  have run : Run start ∅ slotsReused index (slotsReused.foldl Event.after ∅) :=
    .cons (.allocate first) <| .cons (.allocate second) <| .cons (.free held free) <|
      .cons (.insertId insertion) <| .cons (.allocateWithResize third) .nil
  rcases Run.sharesOut created run with ⟨listed, _, _, inserts⟩
  rcases inserts (EntityId.new 3 2) (by decide) with ⟨outcome, other, same, _, allocates, _⟩
  cases chosen.symm.trans same
  exact ⟨start, index, created, run, count, cap, listed, _, chosen, allocates rfl⟩

end Runs

section Generations

variable {start final : EntityIndex} {last : Set EntityId} {first second events : List Event}

/-- Whether the event frees the slot. -/
def Event.frees (slot : Nat) : Event → Bool
  | .freed id => id.index = slot
  | _ => false

def frees (slot : Nat) (events : List Event) : Nat := events.countP (Event.frees slot)

/-- The ids handed out and not freed, one entry for each time. -/
def Event.held (ids : List EntityId) : Event → List EntityId
  | .handed id => id :: ids
  | .inserted id => id :: ids
  | .freed id => ids.erase id
  | .quiet => ids

def held (events : List Event) : List EntityId := events.foldl Event.held []

theorem Run.split (run : Run index allocated (first ++ second) final last) :
    ∃ middle stand, Run index allocated first middle stand ∧
      Run middle stand second final last := by
  induction first generalizing index allocated with
  | nil => exact ⟨index, allocated, .nil, run⟩
  | cons event rest induction =>
      cases run with
      | cons step tail =>
          rcases induction tail with ⟨middle, stand, front, back⟩
          exact ⟨middle, stand, .cons step front, back⟩

/-- Without inserted ids the generation of a slot counts how often it was freed. -/
theorem Tracks.turn_run (tracks : index.Tracks slots allocated)
    (run : Run index allocated events final last) (noInsert : ∀ id, .inserted id ∉ events)
    (slot : Nat) : final.turn slot ≡ index.turn slot + frees slot events [MOD 256] := by
  induction run generalizing slots with
  | nil => exact Nat.ModEq.refl _
  | @cons index middle final allocated last event events step rest induction =>
      rcases tracks.step step with ⟨⟨_, tracksMiddle⟩, turns⟩
      have later := induction tracksMiddle fun id member =>
        noInsert id (List.mem_cons_of_mem _ member)
      have now : middle.turn slot ≡ index.turn slot + frees slot [event] [MOD 256] := by
        rw [turns]
        cases event with
        | handed id => exact Nat.ModEq.refl _
        | inserted id => exact absurd List.mem_cons_self (noInsert id)
        | quiet => exact Nat.ModEq.refl _
        | freed id =>
            by_cases same : id.index = slot
            · simpa [Event.turned, frees, Event.frees, same] using Nat.mod_modEq _ _
            · simpa [Event.turned, frees, Event.frees, same] using Nat.ModEq.refl _
      have total : frees slot (event :: events) = frees slot [event] + frees slot events :=
        @List.countP_append _ _ [event] events
      rw [total, ← Nat.add_assoc]
      exact later.trans (now.add_right _)

/-- An allocated id stays so until it is freed. -/
theorem Run.mem_of_not_freed (run : Run index allocated events final last)
    (member : id ∈ allocated) (kept : .freed id ∉ events) : id ∈ last := by
  induction run with
  | nil => exact member
  | @cons index middle final allocated last event events step rest induction =>
      apply induction
      · cases event with
        | handed other => exact Set.mem_insert_of_mem _ member
        | inserted other => exact Set.mem_insert_of_mem _ member
        | quiet => exact member
        | freed other =>
            refine ⟨member, ?_⟩
            rintro rfl
            exact kept List.mem_cons_self
      · exact fun later => kept (List.mem_cons_of_mem _ later)

/-- Only an allocated id is freed. -/
theorem Run.mem_of_freed (run : Run index allocated (.freed id :: events) final last) :
    id ∈ allocated := by
  cases run with
  | cons step _ =>
      cases step with
      | free member _ => exact member

theorem frees_pos (freed : .freed id ∈ events) : 0 < frees id.index events :=
  List.countP_pos_iff.mpr ⟨_, freed, by simp [Event.frees]⟩

theorem Tracks.turn_eq (tracks : index.Tracks slots allocated) (member : id ∈ allocated) :
    index.turn id.index = id.generation :=
  ((tracks.mem_iff id).mp member).turn

/-- From an allocated id to a state in which its slot has the same generation. -/
theorem Tracks.dvd_frees (tracks : index.Tracks slots allocated) (member : id ∈ allocated)
    (run : Run index allocated events final last) (noInsert : ∀ id, .inserted id ∉ events)
    (back : final.turn id.index = id.generation) : 256 ∣ frees id.index events := by
  have turns := tracks.turn_run run noInsert id.index
  rw [tracks.turn_eq member, back] at turns
  exact Nat.modEq_zero_iff_dvd.mp (Nat.ModEq.add_left_cancel' _ turns.symm)

/-- A handed id carries the generation that its slot had already. -/
theorem Tracks.turn_handed (tracks : index.Tracks slots allocated)
    (step : Step index allocated (.handed id) after) :
    index.turn id.index = id.generation := by
  rcases tracks.step step with ⟨⟨_, tracksAfter⟩, turns⟩
  exact (turns id.index).symm.trans (tracksAfter.turn_eq (Set.mem_insert _ _))

/-- An allocated id is handed out again only after 256 frees of its slot. -/
theorem Tracks.frees_handed (tracks : index.Tracks slots allocated) (member : id ∈ allocated)
    (run : Run index allocated events final last) (noInsert : ∀ id, .inserted id ∉ events)
    (step : Step final last (.handed id) after) :
    0 < frees id.index events ∧ 256 ∣ frees id.index events := by
  rcases tracks.run run with ⟨_, tracksFinal⟩
  have freed : .freed id ∈ events := by
    by_contra kept
    exact tracksFinal.fresh step (run.mem_of_not_freed member kept)
  exact ⟨frees_pos freed, tracks.dvd_frees member run noInsert (tracksFinal.turn_handed step)⟩

/-- A freed id is valid again only after 256 frees of its slot. -/
theorem Tracks.frees_valid (tracks : index.Tracks slots allocated) (member : id ∈ allocated)
    (run : Run index allocated events final last) (noInsert : ∀ id, .inserted id ∉ events)
    (freed : .freed id ∈ events) (valid : final.isValid id = true) :
    256 ≤ frees id.index events := by
  rcases tracks.run run with ⟨_, tracksFinal⟩
  rcases isValid_iff_place.mp valid with ⟨_, placed⟩
  exact Nat.le_of_dvd (frees_pos freed)
    (tracks.dvd_frees member run noInsert (tracksFinal.toSound.claimed placed).turn)

/-- What was handed out and not freed is allocated, and was handed out once. -/
theorem Tracks.held_run (tracks : index.Tracks slots allocated)
    (run : Run index allocated events final last) (noInsert : ∀ id, .inserted id ∉ events)
    {ids : List EntityId} (nodup : ids.Nodup) (same : ∀ id, id ∈ ids ↔ id ∈ allocated) :
    (events.foldl Event.held ids).Nodup ∧
      ∀ id, id ∈ events.foldl Event.held ids ↔ id ∈ last := by
  induction run generalizing slots ids with
  | nil => exact ⟨nodup, same⟩
  | @cons index middle final allocated last event events step rest induction =>
      rcases (tracks.step step).1 with ⟨_, tracksMiddle⟩
      have later := fun id member => noInsert id (List.mem_cons_of_mem _ member)
      cases event with
      | handed id =>
          have fresh := tracks.fresh step
          apply induction tracksMiddle later
          · exact List.nodup_cons.mpr ⟨fun member => fresh ((same id).mp member), nodup⟩
          · intro other
            rw [Event.held, List.mem_cons, same]
            rfl
      | inserted id => exact absurd List.mem_cons_self (noInsert id)
      | quiet => exact induction tracksMiddle later nodup same
      | freed id =>
          apply induction tracksMiddle later (nodup.erase id)
          intro other
          rw [nodup.mem_erase_iff, same, and_comm]
          rfl

/-- Without inserted ids, no id is handed out while it is allocated, and an id
that was freed is handed out or valid again only after its slot has been freed
256 times. -/
theorem Run.reuse {initialCapacity : Nat} (created : new initialCapacity = some start)
    (run : Run start ∅ events index allocated) (noInsert : ∀ id, .inserted id ∉ events) :
    (held events).Nodup ∧ (∀ id, id ∈ held events ↔ id ∈ allocated) ∧
    (∀ id ∈ allocated, ∀ other ∈ allocated, id.index = other.index → id = other) ∧
    (∀ first between rest id, events = first ++ .handed id :: (between ++ .handed id :: rest) →
      0 < frees id.index between ∧ 256 ∣ frees id.index between) ∧
    ∀ first between id, events = first ++ .freed id :: between →
      index.isValid id = true → 256 ≤ frees id.index (.freed id :: between) := by
  have tracksStart := Tracks.new created
  have unique := tracksStart.held_run run noInsert List.nodup_nil (by simp)
  rcases tracksStart.run run with ⟨_, tracks⟩
  refine ⟨unique.1, unique.2, fun id member other => tracks.eq_of_index member, ?_, ?_⟩
  · rintro first between rest id rfl
    rcases run.split with ⟨_, _, front, tail⟩
    rcases tracksStart.run front with ⟨_, tracksFront⟩
    cases tail with
    | cons step tail =>
        rcases (tracksFront.step step).1 with ⟨_, tracksHanded⟩
        rcases tail.split with ⟨_, _, middle, tail⟩
        cases tail with
        | cons again _ =>
            exact tracksHanded.frees_handed (Set.mem_insert _ _) middle
              (fun other member => noInsert other (by simp [member])) again
  · rintro first between id rfl valid
    rcases run.split with ⟨_, _, front, tail⟩
    rcases tracksStart.run front with ⟨_, tracksFront⟩
    exact tracksFront.frees_valid tail.mem_of_freed tail
      (fun other member => noInsert other (List.mem_append_right _ member))
      List.mem_cons_self valid

/-- An index with one slot. -/
def oneSlot (generation count freeList : Nat) : EntityIndex where
  entries := [{ generation, arch := none, rowIndex := SENTINEL }]
  count := count
  freeList := freeList

theorem Run.reuse_sample :
    (held [.handed (EntityId.new 0 0), .freed (EntityId.new 0 0),
      .handed (EntityId.new 0 1)]).Nodup := by
  have created : new 1 = some (oneSlot 0 0 0) := rfl
  have handed : Step (oneSlot 0 0 0) ∅ (.handed (EntityId.new 0 0)) (oneSlot 0 1 SENTINEL) :=
    .allocate rfl
  have freed : Step (oneSlot 0 1 SENTINEL) (insert (EntityId.new 0 0) ∅)
      (.freed (EntityId.new 0 0)) (oneSlot 1 0 0) := .free (Set.mem_insert _ _) rfl
  have again : Step (oneSlot 1 0 0) (insert (EntityId.new 0 0) ∅ \ {EntityId.new 0 0})
      (.handed (EntityId.new 0 1)) (oneSlot 1 1 SENTINEL) := .allocate rfl
  have run := Run.cons handed (Run.cons freed (Run.cons again Run.nil))
  exact (Run.reuse created run (by simp)).1

end Generations

end EntityIndex

end Cecs

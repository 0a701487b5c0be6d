import Cecs.EntityIndex.Runs

/-! # Allocated ids without a place

An id is allocated before its entity gets a row. Every slot outside the free list
belongs to a live entity or to an id that still waits for its row. -/

namespace Cecs

open Foundation

namespace EntityIndex

/-- The ids that have a place. -/
def live (index : EntityIndex) : Set EntityId := {id | ∃ spot, index.place id = some spot}

/-- The ids that are allocated are the live ones, and those of `pending`, which have
no place yet. -/
structure Accounts (index : EntityIndex) (pending : Set EntityId) : Prop where
  tracked : ∃ slots, index.Tracks slots (pending ∪ index.live)
  waits : ∀ id ∈ pending, id ∉ index.live

variable {index result : EntityIndex} {pending after : Set EntityId} {id : EntityId}

theorem mem_live : id ∈ index.live ↔ ∃ spot, index.place id = some spot := Iff.rfl

theorem not_mem_live : id ∉ index.live ↔ index.place id = none := by
  rw [Option.eq_none_iff_forall_ne_some, mem_live, not_exists]

theorem live_congr (same : result.place = index.place) : result.live = index.live := by
  rw [live, live, same]

section Steps

/-- What an operation makes of the allocated ids is split anew. -/
theorem Accounts.step (accounts : index.Accounts pending) {event : Event}
    (step : Step index (pending ∪ index.live) event result)
    (split : event.after (pending ∪ index.live) = after ∪ result.live)
    (waits : ∀ id ∈ after, id ∉ result.live) : result.Accounts after := by
  rcases accounts.tracked with ⟨slots, tracks⟩
  rcases (tracks.step step).1 with ⟨rest, tracksAfter⟩
  exact ⟨⟨rest, split ▸ tracksAfter⟩, waits⟩

theorem Accounts.quiet (accounts : index.Accounts pending)
    (step : Step index (pending ∪ index.live) .quiet result)
    (same : result.live = index.live) : result.Accounts pending := by
  apply accounts.step step
  · rw [same]
    rfl
  · rw [same]
    exact accounts.waits

theorem Accounts.sound (accounts : index.Accounts pending) : ∃ slots, index.Sound slots := by
  rcases accounts.tracked with ⟨slots, tracks⟩
  exact ⟨slots, tracks.toSound⟩

theorem accounts_new {initialCapacity : Nat} (created : new initialCapacity = some index) :
    index.Accounts ∅ := by
  have nobody : index.live = ∅ := by
    rw [Set.eq_empty_iff_forall_notMem]
    intro id
    rw [not_mem_live, (new_spec created).2]
  refine ⟨⟨List.range' 0 index.cap, ?_⟩, fun id member => absurd member (Set.notMem_empty id)⟩
  rw [nobody, Set.union_self]
  exact Tracks.new created

/-- An id that is allocated gets a place, or another place. -/
theorem live_update {arch : Ptr} {row : Nat}
    (places : result.place = Function.update index.place id (some (arch, row))) :
    result.live = insert id index.live := by
  ext other
  rw [Set.mem_insert_iff, mem_live, mem_live, places, Function.update_apply]
  by_cases same : other = id <;> simp [same]

theorem Accounts.update_place (accounts : index.Accounts pending) {arch : Ptr} {row : Nat}
    (allocated : id ∈ pending ∪ index.live) (updated : index.update id arch row = some result) :
    result.place = Function.update index.place id (some (arch, row)) := by
  rcases accounts.tracked with ⟨slots, tracks⟩
  rcases update_spec tracks.toSound ((tracks.mem_iff id).mp allocated) arch row with
    ⟨_, again, _, places, _⟩
  cases updated.symm.trans again
  exact places

theorem Accounts.update (accounts : index.Accounts pending) {arch : Ptr} {row : Nat}
    (live : id ∈ index.live) (updated : index.update id arch row = some result) :
    result.Accounts pending := by
  have allocated : id ∈ pending ∪ index.live := Or.inr live
  apply accounts.quiet (.update allocated updated)
  rw [live_update (accounts.update_place allocated updated), Set.insert_eq_of_mem live]

/-- A pending id gets its place. -/
theorem Accounts.place_pending (accounts : index.Accounts pending) {arch : Ptr} {row : Nat}
    (member : id ∈ pending) (updated : index.update id arch row = some result) :
    result.Accounts (pending \ {id}) := by
  have allocated : id ∈ pending ∪ index.live := Or.inl member
  have lives := live_update (accounts.update_place allocated updated)
  apply accounts.step (.update allocated updated)
  · rw [lives, Set.union_insert, ← Set.insert_union, Set.insert_sdiff_singleton,
      Set.insert_eq_of_mem member]
    rfl
  · intro other waiting
    rw [lives, Set.mem_insert_iff, not_or]
    exact ⟨waiting.2, accounts.waits other waiting.1⟩

/-- The entity swapped into a row is the only one whose place changes. -/
theorem Accounts.updateMoved (accounts : index.Accounts pending) {moved : Option EntityId}
    {arch : Ptr} (placed : ∀ id, moved = some id → ∃ before, index.place id = some (arch, before))
    {row : Nat} (updated : index.updateMoved moved row = some result) :
    result.Accounts pending ∧ result.place = fun other =>
      if moved = some other then some (arch, row) else index.place other := by
  rcases accounts.sound with ⟨slots, sound⟩
  rcases updateMoved_spec sound placed row with ⟨_, again, _, places, _⟩
  cases updated.symm.trans again
  refine ⟨?_, places⟩
  cases moved with
  | none =>
      cases updated
      exact accounts
  | some id =>
      rcases placed id rfl with ⟨before, placedId⟩
      apply accounts.quiet (.updateRowIndex (Or.inr ⟨_, placedId⟩) updated)
      ext other
      rw [mem_live, mem_live, places]
      by_cases same : id = other
      · subst same
        simp [placedId]
      · simp [same]

/-- A live entity's slot is freed. -/
theorem Accounts.free (accounts : index.Accounts pending) (live : id ∈ index.live)
    (freed : index.free id = some result) :
    result.Accounts pending ∧ result.place = Function.update index.place id none := by
  have allocated : id ∈ pending ∪ index.live := Or.inr live
  rcases accounts.tracked with ⟨slots, tracks⟩
  rcases free_spec tracks.toSound ((tracks.mem_iff id).mp allocated) with ⟨_, again, _, places⟩
  cases freed.symm.trans again
  have lives : result.live = index.live \ {id} := by
    ext other
    rw [Set.mem_sdiff_singleton, mem_live, mem_live, places, Function.update_apply]
    by_cases same : other = id <;> simp [same]
  refine ⟨?_, places⟩
  apply accounts.step (.free allocated freed)
  · have notPending : id ∉ pending := fun member => accounts.waits id member live
    change (pending ∪ index.live) \ {id} = _
    rw [lives, Set.union_sdiff_distrib, Set.sdiff_singleton_eq_self notPending]
  · intro other waiting
    rw [lives]
    exact fun both => accounts.waits other waiting both.1

end Steps

section Allocation

/-- An id handed out is pending. -/
theorem Accounts.handed (accounts : index.Accounts pending)
    (step : Step index (pending ∪ index.live) (.handed id) result)
    (same : result.place = index.place) :
    result.Accounts (insert id pending) ∧ id ∉ pending := by
  rcases accounts.tracked with ⟨slots, tracks⟩
  have fresh := tracks.fresh step
  rw [Set.mem_union, not_or] at fresh
  refine ⟨?_, fresh.1⟩
  apply accounts.step step
  · rw [live_congr same, Set.insert_union]
    rfl
  · intro other waiting
    rw [live_congr same]
    rcases Set.mem_insert_iff.mp waiting with rfl | waiting
    · exact fresh.2
    · exact accounts.waits other waiting

theorem Accounts.allocate (accounts : index.Accounts pending)
    (allocated : index.allocate = some (.ok id, result)) :
    result.Accounts (insert id pending) ∧ id ∉ pending ∧ result.place = index.place ∧
      id ∉ index.live := by
  rcases accounts.sound with ⟨slots, sound⟩
  rcases sound.allocate_ok allocated with ⟨_, _, places, absent⟩
  rcases accounts.handed (.allocate allocated) places with ⟨handed, fresh⟩
  exact ⟨handed, fresh, places, not_mem_live.mpr absent⟩

theorem Accounts.allocateFull (accounts : index.Accounts pending) {error : HandleTableError}
    (allocated : index.allocate = some (.error error, result)) :
    result.Accounts pending ∧ result.place = index.place := by
  rcases accounts.tracked with ⟨slots, tracks⟩
  rcases tracks.follows_allocate allocated with ⟨_, _, rfl⟩ | ⟨_, handed, _⟩
  · exact ⟨accounts, rfl⟩
  · cases handed

theorem Accounts.allocateWithResize (accounts : index.Accounts pending)
    (allocated : index.allocateWithResize = some (id, result)) :
    result.Accounts (insert id pending) ∧ id ∉ pending ∧ result.place = index.place := by
  rcases accounts.sound with ⟨slots, sound⟩
  rcases allocateWithResize_spec sound (sound.hasRoom allocated) with
    ⟨_, _, _, again, _, _, places, _⟩
  cases allocated.symm.trans again
  rcases accounts.handed (.allocateWithResize allocated) places with ⟨handed, fresh⟩
  exact ⟨handed, fresh, places⟩

/-- A given id is pending as well, if its slot was free. -/
theorem Accounts.insertId (accounts : index.Accounts pending) {outcome : Except InsertError Unit}
    (inserted : index.insertId id = some (outcome, result)) :
    result.place = index.place ∧
      (outcome = .ok () ∧ result.Accounts (insert id pending) ∧ id ∉ pending ∨
        (∃ error, outcome = .error error) ∧ result = index) := by
  rcases accounts.tracked with ⟨slots, tracks⟩
  rcases tracks.insertId_cases id (tracks.toSound.insertId_below inserted) with
    ⟨_, rest, again, free, inserts⟩ | ⟨error, again, _⟩
  · cases inserted.symm.trans again
    have fresh : id ∉ pending ∪ index.live := fun member => free id member rfl
    rw [Set.mem_union, not_or] at fresh
    refine ⟨inserts.place, Or.inl ⟨rfl, ?_, fresh.1⟩⟩
    apply accounts.step (.insertId inserted)
    · rw [live_congr inserts.place, Set.insert_union]
      rfl
    · intro other waiting
      rw [live_congr inserts.place]
      rcases Set.mem_insert_iff.mp waiting with rfl | waiting
      · exact fresh.2
      · exact accounts.waits other waiting
  · cases inserted.symm.trans again
    exact ⟨rfl, Or.inr ⟨⟨error, rfl⟩, rfl⟩⟩

theorem Accounts.reserve (accounts : index.Accounts pending) {additional : Nat}
    (reserved : index.reserve additional = some result) :
    result.Accounts pending ∧ result.place = index.place := by
  have places : result.place = index.place := by
    rw [EntityIndex.reserve] at reserved
    split at reserved
    · simp only [grow, Option.bind_eq_bind, Option.bind_eq_some_iff, Option.guard_eq_some',
        Option.pure_def, Option.some.injEq, exists_const] at reserved
      rcases reserved with ⟨_, larger, _, rfl⟩
      exact place_grown larger
    · cases reserved
      rfl
  exact ⟨accounts.quiet (.reserve reserved) (live_congr places), places⟩

end Allocation

section Slots

/-- When nothing is pending, a slot that is not free belongs to a live entity. -/
theorem Accounts.live_of_unlisted (accounts : index.Accounts ∅) :
    ∃ slots, index.Sound slots ∧ (∀ slot < index.cap, slot ∉ slots →
      ∃ id ∈ index.live, id.index = slot) ∧
      ∀ id, index.Claimed slots id → id ∈ index.live := by
  rcases accounts.tracked with ⟨slots, tracks⟩
  have lives : ∀ id, index.Claimed slots id → id ∈ index.live := by
    intro id claimed
    have allocated := (tracks.mem_iff id).mpr claimed
    rwa [Set.empty_union] at allocated
  refine ⟨slots, tracks.toSound, ?_, lives⟩
  intro slot inRange unlisted
  rcases tracks.toSound.exists_claimed inRange unlisted with ⟨id, sameSlot, claimed⟩
  exact ⟨id, lives id claimed, sameSlot⟩

end Slots

end EntityIndex

end Cecs

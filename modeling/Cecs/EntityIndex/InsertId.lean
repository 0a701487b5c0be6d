import Cecs.EntityIndex.Generations
import Mathlib.Data.Finset.Card

/-! # Inserting a given id

`insert_id` takes the slot of the id out of the middle of the free list. It
finds the slot there when every slot that is not free holds an entity. -/

namespace Cecs

open Foundation

namespace EntityIndex

variable {index result : EntityIndex} {slots : List Nat} {id : EntityId}

section InUse

/-- The slots that hold an entity. -/
def inUse (index : EntityIndex) : Finset Nat :=
  (Finset.range index.cap).filter fun slot => (index.arch slot).isSome

theorem mem_inUse {slot : Nat} : slot ∈ index.inUse ↔ (index.arch slot).isSome = true := by
  rw [inUse, Finset.mem_filter, Finset.mem_range]
  refine ⟨fun both => both.2, fun used => ⟨?_, used⟩⟩
  rcases Option.isSome_iff_exists.mp used with ⟨ptr, pointer⟩
  rcases Option.bind_eq_some_iff.mp pointer with ⟨entry, found, _⟩
  exact (List.getElem?_eq_some_iff.mp found).1

theorem inUse_congr (same : ∀ slot, (result.arch slot).isSome = (index.arch slot).isSome) :
    result.inUse = index.inUse := by
  ext slot
  rw [mem_inUse, mem_inUse, same]

/-- No slot is allocated without an entity in it. -/
def Settled (index : EntityIndex) : Prop := index.inUse.card = index.count

theorem settled_new {initialCapacity : Nat} (created : new initialCapacity = some result) :
    result.Settled := by
  have unused : result.inUse = ∅ := by
    rw [Finset.eq_empty_iff_forall_notMem]
    intro slot member
    rw [mem_inUse, arch_new created] at member
    cases member
  simp only [new, Option.bind_eq_bind, Option.bind_eq_some_iff, Option.pure_def,
    Option.some.injEq] at created
  rcases created with ⟨_, _, rfl⟩
  rw [Settled, unused, Finset.card_empty]

/-- An allocated slot gets its entity. -/
theorem inUse_of_repoints {slot : Nat} {ptr : Ptr}
    (repoints : Repoints index result slot (some ptr)) :
    result.inUse = insert slot index.inUse := by
  ext other
  rw [Finset.mem_insert, mem_inUse, mem_inUse, repoints.arch]
  by_cases same : other = slot <;> simp [same]

/-- Then every slot is free or holds an entity. -/
theorem Sound.mem_slots (sound : index.Sound slots) (settled : index.Settled) {slot : Nat}
    (inRange : slot < index.cap) (unused : index.arch slot = none) : slot ∈ slots := by
  have free : slots.toFinset ⊆ Finset.range index.cap \ index.inUse := by
    intro other member
    rw [List.mem_toFinset] at member
    rcases sound.vacant other member with ⟨entry, found, vacant⟩
    rw [Finset.mem_sdiff, Finset.mem_range, mem_inUse]
    refine ⟨sound.lt_cap member, ?_⟩
    simp [arch, found, vacant]
  have within : index.inUse ⊆ Finset.range index.cap := Finset.filter_subset _ _
  have counted := sound.counted
  have size := Finset.card_sdiff_add_card_eq_card within
  rw [Finset.card_range, settled] at size
  have all := Finset.eq_of_subset_of_card_le free (by
    rw [List.toFinset_card_of_nodup sound.nodup]
    omega)
  rw [← List.mem_toFinset, all, Finset.mem_sdiff, Finset.mem_range, mem_inUse]
  exact ⟨inRange, by simp [unused]⟩

end InUse

section Walk

/-- The link that leads out of the front part of the list. -/
def lastLink : FreeListLink → List Nat → FreeListLink
  | link, [] => link
  | _, slot :: front => lastLink (.entry slot) front

theorem lastLink_concat (link : FreeListLink) (front : List Nat) (slot : Nat) :
    lastLink link (front ++ [slot]) = .entry slot := by
  induction front generalizing link with
  | nil => rfl
  | cons head front induction => exact induction (.entry head)

theorem readLink_entry (index : EntityIndex) (slot : Nat) :
    index.readLink (.entry slot) = index.link slot := rfl

/-- The walk passes the slots in front of `needle` and stops at the link to it. -/
theorem findLink_eq {front back : List Nat} {needle target : Nat} {fuel : Nat}
    {link : FreeListLink} (read : index.readLink link = some target)
    (chain : Chain index.link SENTINEL target (front ++ needle :: back))
    (absent : needle ∉ front) (enough : front.length < fuel) :
    index.findLink needle fuel link = some (some (lastLink link front)) := by
  induction front generalizing link target fuel with
  | nil =>
      rcases chain with ⟨atNeedle, notStop, _⟩
      cases fuel with
      | zero => simp at enough
      | succ fuel =>
          subst atNeedle
          simp [findLink, read, notStop, lastLink]
  | cons slot front induction =>
      rcases chain with ⟨atSlot, notStop, following, linked, tail⟩
      cases fuel with
      | zero => simp at enough
      | succ fuel =>
          subst atSlot
          have different : target ≠ needle := by
            rintro rfl
            exact absent List.mem_cons_self
          rw [lastLink, ← induction ((readLink_entry index target).trans linked) tail
            (fun member => absent (List.mem_cons_of_mem _ member)) (by simpa using enough)]
          simp [findLink, read, notStop, different]

/-- The walk past a slot that is not in the list ends at the last link. -/
theorem findLink_eq_none {slots : List Nat} {needle target : Nat} {fuel : Nat}
    {link : FreeListLink} (read : index.readLink link = some target)
    (chain : Chain index.link SENTINEL target slots) (absent : needle ∉ slots)
    (enough : slots.length < fuel) : index.findLink needle fuel link = some none := by
  induction slots generalizing link target fuel with
  | nil =>
      cases fuel with
      | zero => simp at enough
      | succ fuel => simp [findLink, read, Chain.nil_iff.mp chain]
  | cons slot rest induction =>
      rcases chain with ⟨atSlot, notStop, following, linked, tail⟩
      cases fuel with
      | zero => simp at enough
      | succ fuel =>
          subst atSlot
          have different : target ≠ needle := by
            rintro rfl
            exact absent List.mem_cons_self
          rw [← induction ((readLink_entry index target).trans linked) tail
            (fun member => absent (List.mem_cons_of_mem _ member)) (by simpa using enough)]
          simp [findLink, read, notStop, different]

/-- The link that is rewritten is kept in a free slot, if not in the head. -/
theorem writeLink_entries {front : List Nat} {target slot : Nat}
    (written : index.writeLink (lastLink .head front) target = some result)
    (outside : slot ∉ front) : result.entries[slot]? = index.entries[slot]? := by
  rcases List.eq_nil_or_concat front with rfl | ⟨rest, before, rfl⟩
  · cases written
    rfl
  · rw [List.concat_eq_append] at written outside
    rw [lastLink_concat] at written
    simp only [writeLink, Option.bind_eq_bind, Option.bind_eq_some_iff, Option.pure_def,
      Option.some.injEq] at written
    rcases written with ⟨entry, _, rfl⟩
    apply List.getElem?_set_ne
    rintro rfl
    exact outside (by simp)

end Walk

section Unlink

/-- A link rewritten in an entry changes nothing else. -/
theorem getElem?_set_row {slot : Nat} {entry : Entry} (found : index.entries[slot]? = some entry)
    (row other : Nat) :
    (index.entries.set slot { entry with rowIndex := row })[other]? =
      index.entries[other]?.map fun before =>
        if other = slot then { before with rowIndex := row } else before := by
  rcases List.getElem?_eq_some_iff.mp found with ⟨inRange, rfl⟩
  by_cases same : other = slot
  · subst same
    simp [inRange]
  · rw [List.getElem?_set_ne (Ne.symm same)]
    simp [same]

/-- What is left of the free list once the link to `needle` leads past it. -/
structure Unlinked (index unlinked : EntityIndex) (rest : List Nat) : Prop where
  sound : Sound { unlinked with count := unlinked.count + 1 } rest
  count : unlinked.count = index.count
  cap : unlinked.cap = index.cap
  arch : unlinked.arch = index.arch
  place : unlinked.place = index.place

theorem Sound.sublist_counted (front : List Nat) {back : List Nat} {needle : Nat}
    (sound : index.Sound (front ++ needle :: back)) :
    index.count + 1 + (front ++ back).length = index.cap := by
  have counted := sound.counted
  simp only [List.length_append, List.length_cons] at counted ⊢
  omega

theorem Sound.unlink_head {back : List Nat} {needle : Nat}
    (sound : index.Sound (needle :: back)) :
    ∃ following unlinked, index.readLink (.entry needle) = some following ∧
      index.writeLink .head following = some unlinked ∧ Unlinked index unlinked back := by
  rcases sound.linked with ⟨_, _, following, linked, tail⟩
  have counted := Sound.sublist_counted [] sound
  refine ⟨following, _, linked, rfl, ⟨?_, rfl, rfl, rfl, rfl⟩⟩
  exact {
    capPos := sound.capPos
    capLt := sound.capLt
    generationLe := sound.generationLe
    linked := tail
    nodup := (List.nodup_cons.mp sound.nodup).2
    vacant := fun slot member => sound.vacant slot (List.mem_cons_of_mem _ member)
    counted := counted }

theorem Sound.unlink_entry {front back : List Nat} {before needle : Nat}
    (sound : index.Sound (front ++ before :: needle :: back)) :
    ∃ following unlinked, index.readLink (.entry needle) = some following ∧
      index.writeLink (.entry before) following = some unlinked ∧
      Unlinked index unlinked (front ++ before :: back) := by
  have regrouped : front ++ before :: needle :: back = (front ++ [before]) ++ needle :: back := by
    simp
  have soundRegrouped := regrouped ▸ sound
  rcases soundRegrouped.linked.tail_of_append with ⟨following, linked, _⟩
  rcases sound.vacant before (by simp) with ⟨entry, found, vacant⟩
  have rows := getElem?_set_row found following
  have inRange : before < index.entries.length := (List.getElem?_eq_some_iff.mp found).1
  have sublist : (front ++ before :: back).Sublist (front ++ before :: needle :: back) :=
    ((List.sublist_cons_self needle back).cons_cons before).append_left front
  refine ⟨following, { index with
      entries := index.entries.set before { entry with rowIndex := following } }, linked,
    by simp [writeLink, found], ⟨?_, rfl, by simp [EntityIndex.cap], ?_, ?_⟩⟩
  · exact {
      capPos := by simpa [EntityIndex.cap] using sound.capPos
      capLt := by simpa [EntityIndex.cap] using sound.capLt
      generationLe := by
        intro slot changed foundChanged
        rw [rows, Option.map_eq_some_iff] at foundChanged
        rcases foundChanged with ⟨old, foundOld, rfl⟩
        have bound := sound.generationLe slot old foundOld
        split <;> exact bound
      linked := by
        apply (sound.linked.unlink sound.nodup linked).congr
        intro slot _
        simp only [link, rows, Function.update_apply]
        by_cases same : slot = before
        · subst same
          simp [found]
        · simp [same]
      nodup := sound.nodup.sublist sublist
      vacant := by
        intro slot member
        rcases sound.vacant slot (sublist.subset member) with ⟨old, foundOld, vacantOld⟩
        refine ⟨_, (rows slot).trans (by rw [foundOld]; rfl), ?_⟩
        split <;> exact vacantOld
      counted := by
        have counted := Sound.sublist_counted (front ++ [before]) soundRegrouped
        simpa [EntityIndex.cap] using counted }
  · rw [arch_set found rfl]
    apply Function.update_eq_self_iff.mpr
    simp [EntityIndex.arch, found]
  · exact place_set_vacant found vacant vacant

/-- The slot leaves the free list. -/
theorem Sound.unlink {front back : List Nat} {needle : Nat}
    (sound : index.Sound (front ++ needle :: back)) :
    ∃ following unlinked, index.readLink (.entry needle) = some following ∧
      index.writeLink (lastLink .head front) following = some unlinked ∧
      Unlinked index unlinked (front ++ back) := by
  rcases List.eq_nil_or_concat front with rfl | ⟨rest, before, rfl⟩
  · exact sound.unlink_head
  · rw [List.concat_eq_append] at sound ⊢
    rw [lastLink_concat]
    simp only [List.append_assoc, List.singleton_append] at sound ⊢
    exact sound.unlink_entry

end Unlink

section Insert

/-- New slots hold no entity. -/
theorem arch_grown {newCap : Nat} (larger : index.cap < newCap) :
    (index.grown newCap).arch = index.arch := by
  funext slot
  rcases Nat.lt_or_ge slot index.cap with inside | outside
  · rw [arch, getElem?_grown_of_lt inside]
    rfl
  · have absent : index.arch slot = none := by
      rw [arch, List.getElem?_eq_none outside]
      rfl
    rw [absent]
    by_cases before : slot < newCap
    · rw [arch, getElem?_grown_of_le outside before]
      rfl
    · have beyond : (index.grown newCap).cap ≤ slot := by
        rw [cap_grown larger]
        exact Nat.le_of_not_lt before
      rw [arch, List.getElem?_eq_none beyond]
      rfl

/-- The free slots once `needle` is a slot of the index. -/
def heldSlots (cap : Nat) (slots : List Nat) (needle : Nat) : List Nat :=
  if cap ≤ needle then List.range' cap (needle + 1 - cap) ++ slots else slots

/-- After the growth the slot exists and is free. -/
theorem growToHold_spec (sound : index.Sound slots) {needle : Nat}
    (free : needle < index.cap → needle ∈ slots) (below : needle + 1 < ENTITY_INDEX_MASK) :
    ∃ grown rest, index.growToHold needle = some grown ∧ grown.Sound rest ∧ needle ∈ rest ∧
      rest = heldSlots index.cap slots needle ∧
      grown.arch = index.arch ∧ grown.place = index.place ∧ grown.count = index.count ∧
      grown.cap = max index.cap (needle + 1) ∧
      (∀ slot < index.cap, grown.entries[slot]? = index.entries[slot]?) ∧
      (∀ slot, grown.turn slot = index.turn slot) ∧
      ∀ slot, slot ∈ rest ↔ slot ∈ slots ∨ index.cap ≤ slot ∧ slot ≤ needle := by
  by_cases outside : index.cap ≤ needle
  · have larger : index.cap < needle + 1 := by omega
    refine ⟨index.grown (needle + 1), _, ?_, sound.grown larger below, ?_,
      (if_pos outside).symm, arch_grown larger, place_grown larger, rfl, ?_,
      fun slot inside => getElem?_grown_of_lt inside, turn_grown larger, ?_⟩
    · rw [growToHold, if_pos outside, sound.grow_eq larger below]
    · apply List.mem_append_left
      rw [List.mem_range'_1]
      omega
    · rw [cap_grown larger]
      omega
    · intro slot
      rw [List.mem_append, List.mem_range'_1, or_comm]
      exact or_congr_right (by omega)
  · have inside := Nat.lt_of_not_le outside
    refine ⟨index, slots, if_neg outside, sound, free inside, (if_neg outside).symm, rfl, rfl, rfl,
      (Nat.max_eq_left inside).symm, fun _ _ => rfl, fun _ => rfl, fun slot => ?_⟩
    exact (or_iff_left fun both => outside (Nat.le_trans both.1 both.2)).symm

theorem initAllocatedId_same {slot : Nat} {entry : Entry} {id : EntityId}
    (found : index.entries[slot]? = some entry) (vacant : entry.arch = none)
    (allocated : index.initAllocatedId slot = some (id, result)) :
    result.arch = index.arch ∧ result.count = index.count + 1 := by
  simp only [initAllocatedId, found, Option.bind_eq_bind, Option.bind_some,
    Option.bind_eq_some_iff, Option.pure_def, Option.some.injEq, Prod.mk.injEq] at allocated
  rcases allocated with ⟨_, _, _, rfl⟩
  refine ⟨?_, rfl⟩
  rw [arch_set found rfl]
  apply Function.update_eq_self_iff.mpr
  simp [arch, found, vacant]

/-- What `insert_id` does when it takes the slot of `id`. -/
structure Inserts (index : EntityIndex) (slots : List Nat) (id : EntityId)
    (result : EntityIndex) (rest : List Nat) : Prop where
  sound : result.Sound rest
  claimed : result.Claimed rest id
  place : result.place = index.place
  arch : result.arch = index.arch
  count : result.count = index.count + 1
  cap : result.cap = max index.cap (id.index + 1)
  free : ∀ slot, slot ∈ rest ↔
    (slot ∈ slots ∨ index.cap ≤ slot ∧ slot ≤ id.index) ∧ slot ≠ id.index
  turn : ∀ slot, slot ≠ id.index → result.turn slot = index.turn slot
  entries : ∀ slot < index.cap, slot ≠ id.index → slot ∉ slots →
    result.entries[slot]? = index.entries[slot]?

/-- The last steps of `insert_id`, once the link to the slot is known. -/
theorem Unlinked.claim {grown unlinked : EntityIndex} {rest : List Nat}
    (taken : Unlinked grown unlinked rest) (unlisted : id.index ∉ rest)
    (inRange : id.index < grown.cap) (unused : grown.arch id.index = none) :
    ∃ other allocated entry, unlinked.initAllocatedId id.index = some (other, allocated) ∧
      allocated.entries[id.index]? = some entry ∧
      ∀ claimed : EntityIndex, claimed = { allocated with
          entries := allocated.entries.set id.index
            { entry with generation := id.generation } } →
        claimed.Sound rest ∧ claimed.Claimed rest id ∧ claimed.place = grown.place ∧
        claimed.arch = grown.arch ∧ claimed.count = grown.count + 1 ∧
        claimed.cap = grown.cap ∧
        ∀ slot, slot ≠ id.index → claimed.entries[slot]? = unlinked.entries[slot]? := by
  have within : id.index < unlinked.entries.length := Nat.lt_of_lt_of_eq inRange taken.cap.symm
  have found := List.getElem?_eq_getElem within
  have vacant : unlinked.entries[id.index].arch = none := by
    have pointer : unlinked.arch id.index = none := by rw [taken.arch, unused]
    simpa [EntityIndex.arch, found] using pointer
  rcases initAllocatedId_spec taken.sound unlisted found vacant with
    ⟨other, allocated, init, soundAllocated, _, _, placeAllocated, capAllocated⟩
  rcases initAllocatedId_same found vacant init with ⟨archAllocated, countAllocated⟩
  have withinAllocated : id.index < allocated.entries.length := by
    have same : allocated.cap = grown.cap := capAllocated.trans taken.cap
    exact Nat.lt_of_lt_of_eq inRange same.symm
  have foundAllocated := List.getElem?_eq_getElem withinAllocated
  have vacantAllocated : allocated.entries[id.index].arch = none := by
    have pointer : allocated.arch id.index = none := by
      rw [archAllocated, taken.arch, unused]
    simpa [EntityIndex.arch, foundAllocated] using pointer
  refine ⟨other, allocated, _, init, foundAllocated, ?_⟩
  rintro claimed rfl
  refine ⟨soundAllocated.set unlisted id.generation_le,
    ⟨unlisted, _, List.getElem?_set_self withinAllocated, rfl⟩, ?_, ?_, ?_, ?_, ?_⟩
  · rw [← taken.place, ← placeAllocated]
    exact place_set_vacant foundAllocated vacantAllocated vacantAllocated
  · rw [arch_set foundAllocated rfl, ← taken.arch, ← archAllocated]
    apply Function.update_eq_self_iff.mpr
    rw [archAllocated, taken.arch, unused, vacantAllocated]
  · change allocated.count = _
    rw [countAllocated, taken.count]
  · refine (List.length_set ..).trans ?_
    exact capAllocated.trans taken.cap
  · intro slot different
    refine (List.getElem?_set_ne (Ne.symm different)).trans ?_
    simp only [initAllocatedId, Option.bind_eq_bind, Option.bind_eq_some_iff,
      Option.pure_def, Option.some.injEq, Prod.mk.injEq] at init
    rcases init with ⟨_, _, _, _, _, rfl⟩
    exact List.getElem?_set_ne (Ne.symm different)

/-- A free slot is claimed with the generation of the given id. -/
theorem insertId_of_free (sound : index.Sound slots)
    (free : id.index < index.cap → id.index ∈ slots)
    (below : id.index + 1 < ENTITY_INDEX_MASK) :
    ∃ result rest, index.insertId id = some (.ok (), result) ∧
      Inserts index slots id result rest ∧
      rest = (heldSlots index.cap slots id.index).erase id.index := by
  rcases growToHold_spec sound free below with
    ⟨grown, listed, growth, soundGrown, member, held, archGrown, placeGrown, countGrown, capGrown,
      entriesGrown, turnGrown, membership⟩
  have unused : index.arch id.index = none := by
    by_cases inside : id.index < index.cap
    · rcases sound.vacant _ (free inside) with ⟨entry, found, vacant⟩
      simp [arch, found, vacant]
    · rw [arch, List.getElem?_eq_none (Nat.le_of_not_lt inside)]
      rfl
  rcases List.append_of_mem member with ⟨front, back, rfl⟩
  have parts := List.nodup_middle.mp soundGrown.nodup
  have unlisted : id.index ∉ front ++ back := (List.nodup_cons.mp parts).1
  have walk : grown.findLink id.index (grown.cap + 1) .head =
      some (some (lastLink .head front)) := by
    apply findLink_eq rfl soundGrown.linked
    · exact fun inFront => unlisted (List.mem_append_left _ inFront)
    · have counted := soundGrown.counted
      simp only [List.length_append, List.length_cons] at counted
      omega
  rcases soundGrown.unlink with ⟨following, unlinked, row, written, taken⟩
  rcases taken.claim unlisted (soundGrown.lt_cap member) (by rw [archGrown, unused]) with
    ⟨other, allocated, entry, init, foundAllocated, claims⟩
  rcases claims _ rfl with ⟨soundResult, claimed, place, arch, count, cap, entries⟩
  have erased : front ++ back = (heldSlots index.cap slots id.index).erase id.index := by
    have notBefore : id.index ∉ front := fun inFront =>
      unlisted (List.mem_append_left _ inFront)
    rw [← held, List.erase_append_right _ notBefore, List.erase_cons_head]
  refine ⟨_, front ++ back, ?_, ⟨soundResult, claimed, place.trans placeGrown,
    arch.trans archGrown, by rw [count, countGrown], cap.trans capGrown, ?_, ?_, ?_⟩, erased⟩
  · have notInUse : ¬((index.entries[id.index]?.map fun entry => entry.arch.isSome).getD
        false) = true := by
      cases lookup : index.entries[id.index]? with
      | none => simp
      | some entry =>
          have pointer : entry.arch = none := by
            simpa [EntityIndex.arch, lookup] using unused
          simp [pointer]
    rw [insertId]
    simp only [notInUse, growth, walk, row, written, init, foundAllocated,
      Option.bind_eq_bind, Option.bind_some, Option.pure_def]
    rfl
  · intro slot
    rw [← membership slot, List.mem_append, List.mem_append, List.mem_cons]
    constructor
    · intro member
      have different : slot ≠ id.index := by
        rintro rfl
        exact unlisted (List.mem_append.mpr member)
      exact ⟨member.imp_right Or.inr, different⟩
    · rintro ⟨inFront | equal | inBack, different⟩
      · exact Or.inl inFront
      · exact absurd equal different
      · exact Or.inr inBack
  · intro slot different
    have unchanged := congrFun (writeLink_generationAt written) slot
    rw [← turnGrown slot, EntityIndex.turn, EntityIndex.turn, ← unchanged]
    simp only [generationAt, entries slot different]
  · intro slot inside different inUse
    have outside : slot ∉ front := by
      intro member
      rcases (membership slot).mp (List.mem_append_left _ member) with listed | ⟨beyond, _⟩
      · exact inUse listed
      · exact Nat.not_le_of_lt inside beyond
    rw [entries slot different, writeLink_entries written outside, entriesGrown slot inside]

/-- A slot that is not free is refused, and nothing changes. -/
theorem insertId_of_taken (sound : index.Sound slots) (inRange : id.index < index.cap)
    (unlisted : id.index ∉ slots) :
    ∃ error, index.insertErrorFor id = some error ∧
      index.insertId id = some (.error error, index) := by
  have within : id.index < index.entries.length := inRange
  have found := List.getElem?_eq_getElem within
  have enough : slots.length < index.cap + 1 := by
    have counted := sound.counted
    omega
  have walk : index.findLink id.index (index.cap + 1) .head = some none :=
    findLink_eq_none rfl sound.linked unlisted enough
  have growth : index.growToHold id.index = some index :=
    if_neg (Nat.not_le_of_lt inRange)
  rcases Option.isSome_iff_exists.mp (by simp [insertErrorFor, found] :
    (index.insertErrorFor id).isSome = true) with ⟨error, refused⟩
  refine ⟨error, refused, ?_⟩
  rw [insertId]
  dsimp only
  split
  · simp [refused]
  · simp [growth, walk, refused]

/-- `insert_id` does not return when the slot lies past the largest capacity. -/
theorem Sound.insertId_below (sound : index.Sound slots)
    {outcome : Except InsertError Unit} (returned : index.insertId id = some (outcome, result)) :
    id.index + 1 < ENTITY_INDEX_MASK := by
  rcases Nat.lt_or_ge id.index index.cap with inside | outside
  · exact Nat.lt_of_le_of_lt inside sound.capLt
  · have within : index.entries.length ≤ id.index := outside
    rw [insertId] at returned
    simp only [List.getElem?_eq_none within, Option.map_none, Option.getD_none,
      Bool.false_eq_true, if_false, growToHold, if_pos outside, grow, Option.bind_eq_bind,
      Option.bind_eq_some_iff, Option.guard_eq_some'] at returned
    rcases returned with ⟨_, ⟨_, below, _⟩, _⟩
    exact below

/-- A given id is claimed whatever its generation, if its slot is not in use. -/
theorem insertId_spec (sound : index.Sound slots) (settled : index.Settled)
    (unused : index.arch id.index = none) (below : id.index + 1 < ENTITY_INDEX_MASK) :
    ∃ result rest, index.insertId id = some (.ok (), result) ∧ result.Sound rest ∧
      result.Claimed rest id ∧ result.place = index.place ∧ result.arch = index.arch ∧
      result.count = index.count + 1 := by
  rcases insertId_of_free sound (fun inside => sound.mem_slots settled inside unused) below with
    ⟨result, rest, inserted, inserts, _⟩
  exact ⟨result, rest, inserted, inserts.sound, inserts.claimed, inserts.place, inserts.arch,
    inserts.count⟩

end Insert

end EntityIndex

end Cecs

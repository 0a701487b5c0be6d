import Cecs.Commands.Accounted
import Cecs.Commands.LaterWins
import Cecs.Commands.Meaning
import Cecs.World.Known
import Cecs.World.MergeTables

/-! # A batch does what its commands mean

In a well-formed world every command does the abstract step, or the index has no room
for it and it does not return. -/

namespace Cecs

open Foundation

section Conditions

variable {Value : Type}

namespace CommandPayload

/-- The index does not return: a capacity would pass its limit. -/
def refused (w : Cecs.World Value) : CommandPayload Value → Prop
  | .Entity ⟨.Init _, _⟩ => w.entityIds.reserve 1 = none
  | .Entity ⟨.InsertId id, _⟩ => w.entityIds.insertId id = none
  | .Entity ⟨.Insert, _⟩ => w.entityIds.allocateWithResize = none
  | .World (.Reserve additional) => w.entityIds.reserve additional = none
  | _ => False

end CommandPayload

variable [UnitTypeId]

/-- A bundle names each of its types once, and the unit component stays. -/
def ComponentCommand.Regular (types : Finset TypeId) : ComponentCommand Value → Prop
  | .Insert bundle => bundle.Distinct ∧ bundle.types ⊆ types
  | .Delete ty => ty ≠ unitTypeId

def CommandPayload.Regular (types : Finset TypeId) : CommandPayload Value → Prop
  | .Entity commands => ∀ command ∈ commands.payload, command.Regular types
  | _ => True

/-- The world is well-formed, with components of known types, and `ids` wait for a row. -/
structure World.Orderly (types : Finset TypeId) (w : World Value) (ids : List EntityId) :
    Prop extends WellFormed w where
  known : w.Knows types
  awaits : w.Awaits ids

/-- The abstract state of a world in which `ids` wait. -/
def World.state (w : World Value) (ids : List EntityId) : EntityState Value where
  entities := w.view
  waiting := {id | id ∈ ids}
  resources ty := w.resources[ty]?

end Conditions

section Index

namespace EntityIndex

variable {index after : EntityIndex} {pending : Set EntityId} {id : EntityId}

/-- An id that was just handed out has a slot for itself. -/
theorem Accounts.slotFree (accounts : after.Accounts (insert id pending)) (fresh : id ∉ pending)
    (absent : id ∉ after.live) {other : EntityId} (allocated : other ∈ pending ∪ after.live) :
    other.index ≠ id.index := by
  intro sameSlot
  rcases accounts.tracked with ⟨slots, tracks⟩
  have claimed := (tracks.mem_iff id).mp (Or.inl (Set.mem_insert id pending))
  have also : other ∈ insert id pending ∪ after.live := by
    rw [Set.insert_union]
    exact Set.mem_insert_of_mem id allocated
  cases ((tracks.mem_iff other).mp also).eq_of_index claimed sameSlot
  rcases allocated with waits | live
  · exact fresh waits
  · exact absent live

/-- A slot in use is refused with the error that tells whether the id itself has it. -/
theorem Accounts.insertId_refused (accounts : index.Accounts pending) {error : InsertError}
    (inserted : index.insertId id = some (.error error, after)) :
    after = index ∧ (error = .AlreadyInserted id ∧ id ∈ pending ∪ index.live ∨
      error = .Taken id ∧ ∃ other ∈ pending ∪ index.live, other ≠ id ∧
        other.index = id.index) := by
  rcases accounts.tracked with ⟨slots, tracks⟩
  rcases tracks.insertId_cases id (tracks.toSound.insertId_below inserted) with
    ⟨_, _, again, _⟩ | ⟨_, again, other, allocated, sameSlot⟩
  · cases inserted.symm.trans again
  · cases inserted.symm.trans again
    refine ⟨rfl, ?_⟩
    have claimed := (tracks.mem_iff other).mp allocated
    rcases insertId_of_taken tracks.toSound (sameSlot ▸ claimed.inRange)
        (sameSlot ▸ claimed.unlisted) with ⟨found, refusal, returned⟩
    cases inserted.symm.trans returned
    rcases claimed.current with ⟨entry, foundEntry, current⟩
    rw [sameSlot] at foundEntry
    rw [insertErrorFor_eq, generationAt, foundEntry, Option.map_some, Option.map_some,
      Option.some.injEq] at refusal
    by_cases same : entry.generation = id.generation
    · left
      rw [if_pos same] at refusal
      have isOther : other = id := EntityId.eq_of_pair sameSlot (current.symm.trans same)
      exact ⟨refusal.symm, isOther ▸ allocated⟩
    · right
      rw [if_neg same] at refusal
      refine ⟨refusal.symm, other, allocated, ?_, sameSlot⟩
      rintro rfl
      exact same current

theorem update_cap {ptr : Ptr} {row : Nat} (updated : index.update id ptr row = some after) :
    after.cap = index.cap := by
  simp only [update, Option.bind_eq_bind, Option.bind_eq_some_iff, Option.pure_def,
    Option.some.injEq] at updated
  rcases updated with ⟨_, _, _, _, rfl⟩
  exact List.length_set

/-- Only the number of slots and of those in use decide whether there is room. -/
theorem reserve_eq_none_congr {additional : Nat} (count : after.count = index.count)
    (cap : after.cap = index.cap) :
    after.reserve additional = none ↔ index.reserve additional = none := by
  rw [reserve, reserve, count, cap, grow, grow, cap]
  split <;> simp [Option.bind_eq_none_iff]

end EntityIndex

end Index

section Payload

variable {Value : Type} [UnitTypeId] {w after : World Value} {types : Finset TypeId}
  {id : EntityId} {row : Row Value}

omit [UnitTypeId] in
theorem World.isIdValid_of_view (consistent : w.Consistent) (live : w.view id = some row) :
    w.isIdValid id = true := by
  rw [World.isIdValid, ← Bool.not_eq_false, EntityIndex.isValid_eq_false_iff,
    ← World.view_eq_none_iff consistent, live]
  exact Option.some_ne_none row

omit [UnitTypeId] in
theorem World.isIdValid_of_dead (consistent : w.Consistent) (dead : w.view id = none) :
    w.isIdValid id = false :=
  EntityIndex.isValid_eq_false_iff.mpr ((World.view_eq_none_iff consistent).mp dead)

/-- A change of a live entity succeeds and is the change of its components. -/
theorem ComponentCommand.apply_live (wf : w.WellFormed) (known : w.Knows types)
    (apart : HashesApart types) {command : ComponentCommand Value}
    (regular : command.Regular types) (live : w.view id = some row) :
    ∃ after, command.apply id w = some (.ok (), after) ∧ after.WellFormed ∧ after.Knows types ∧
      after.view = Function.update w.view id (some (command.update row)) := by
  rcases wf.index with ⟨slots, sound⟩
  cases command with
  | Insert bundle =>
      rcases World.setBundle_live wf sound live regular.1 (fun table found => by
          rcases known.union wf.toFormed regular.2 found with ⟨subset, unit⟩
          exact known.hashDetermines wf.toFormed apart subset unit) with
        ⟨after, set, wfAfter, viewed, _⟩
      exact ⟨after, set, wfAfter, World.setBundle_knows wf.toFormed known regular.2 set, viewed⟩
  | Delete ty =>
      cases present : row ty with
      | none =>
          have missing := World.removeComponent_missing wf live present
          refine ⟨w, by simp [apply, missing], wf, known, ?_⟩
          have same : row.remove ty = row := by rw [Row.remove, ← present, Function.update_eq_self]
          rw [update, same, ← live, Function.update_eq_self]
      | some value =>
          rcases World.removeComponent_live wf sound live regular present (fun table found => by
              rcases known.erase wf.toFormed regular found with ⟨subset, unit⟩
              exact known.hashDetermines wf.toFormed apart subset unit) with
            ⟨after, removed, wfAfter, viewed, _⟩
          exact ⟨after, by simp [apply, removed], wfAfter,
            World.removeComponent_knows wf.toFormed known regular removed, viewed⟩

theorem EntityCommands.applyPayload_live (wf : w.WellFormed) (known : w.Knows types)
    (apart : HashesApart types) {payload : List (ComponentCommand Value)}
    (regular : ∀ command ∈ payload, command.Regular types) (live : w.view id = some row) :
    ∃ after, applyPayload payload id w = some (.ok (), after) ∧ after.WellFormed ∧
      after.Knows types ∧ after.view = Function.update w.view id (some (row.updated payload)) := by
  rw [applyPayload, if_pos (World.isIdValid_of_view wf.toConsistent live)]
  induction payload generalizing w row with
  | nil =>
      refine ⟨w, rfl, wf, known, ?_⟩
      rw [Row.updated, List.foldl_nil, ← live, Function.update_eq_self]
  | cons command rest induction =>
      rcases List.forall_mem_cons.mp regular with ⟨first, others⟩
      rcases ComponentCommand.apply_live wf known apart first live with
        ⟨middle, applied, wfMiddle, knownMiddle, viewed⟩
      have liveMiddle : middle.view id = some (command.update row) := by
        rw [viewed, Function.update_self]
      rcases induction wfMiddle knownMiddle others liveMiddle with
        ⟨after, looped, wfAfter, knownAfter, viewedAfter⟩
      refine ⟨after, by simp [forEach, applied, looped], wfAfter, knownAfter, ?_⟩
      rw [viewedAfter, viewed, Function.update_idem]
      rfl

end Payload

section Index

namespace World

variable {Value : Type} [UnitTypeId] {w : World Value} {types : Finset TypeId} {id : EntityId}
  {ids : List EntityId}

/-- The index may change as long as nobody moves. -/
theorem WellFormed.setIndex (wf : w.WellFormed) {entityIds : EntityIndex} {slots : List Nat}
    (sound : entityIds.Sound slots) (places : entityIds.place = w.entityIds.place) :
    (w.setIndex entityIds).WellFormed ∧ (w.setIndex entityIds).view = w.view := by
  have same : (w.setIndex entityIds).store = w.store :=
    congrArg (fun place => { w.store with place }) places
  refine ⟨wf.toFormed.wellFormed sound (same ▸ wf.linked), ?_⟩
  rw [view, same, ← view]

theorem Orderly.accounts (orderly : w.Orderly types ids) :
    w.entityIds.Accounts {id | id ∈ ids} := orderly.awaits.accounted.index

omit [UnitTypeId] in
theorem live_iff_view (consistent : w.Consistent) :
    id ∈ w.entityIds.live ↔ w.view id ≠ none := by
  rw [Ne, view_eq_none_iff consistent, ← EntityIndex.not_mem_live, not_not]

/-- What the index has allocated is allocated in the abstract state. -/
theorem Orderly.allocated_iff (orderly : w.Orderly types ids) :
    id ∈ ({id | id ∈ ids} : Set EntityId) ∪ w.entityIds.live ↔ (w.state ids).Allocated id := by
  rw [Set.mem_union, live_iff_view orderly.toConsistent, or_comm]
  rfl

omit [UnitTypeId] in
theorem state_setEntity {after : World Value} {row : Option (Row Value)}
    (viewed : after.view = Function.update w.view id row)
    (resources : after.resources = w.resources) :
    after.state ids = (w.state ids).setEntity id row := by
  rw [state, state, viewed, resources]
  rfl

omit [UnitTypeId] in
theorem waiting_sdiff (distinct : (id :: ids).Nodup) :
    (w.state (id :: ids)).waiting \ {id} = (w.state ids).waiting := by
  have absent := (List.nodup_cons.mp distinct).1
  ext other
  simp only [state, Set.mem_sdiff_singleton, Set.mem_ofPred_eq, List.mem_cons]
  constructor
  · intro waits
    exact waits.1.resolve_left waits.2
  · intro waits
    exact ⟨Or.inr waits, fun same => absent (same ▸ waits)⟩

variable [BuiltinValues Value]

/-- The new row does not count for the index. -/
theorem reserve_initId {after : World Value} (init : w.initId id = some after)
    (additional : Nat) :
    after.entityIds.reserve additional = none ↔ w.entityIds.reserve additional = none := by
  rcases initId_eq_some_iff.mp init with ⟨_, _, _, _, _, _, _, _, _, _, updated, rfl⟩
  exact EntityIndex.reserve_eq_none_congr (EntityIndex.update_count updated)
    (EntityIndex.update_cap updated)

/-- An id that waits gets a row with the unit component. -/
theorem WellFormed.initId (wf : w.WellFormed) {entityIds : EntityIndex} {pending : Set EntityId}
    (index : entityIds.Accounts pending) (waits : id ∈ pending)
    (places : entityIds.place = w.entityIds.place) :
    ∃ after, (w.setIndex entityIds).initId id = some after ∧ after.WellFormed ∧
      after.view = Function.update w.view id (some Row.marker) := by
  rcases index.tracked with ⟨slots, tracks⟩
  have claimed := (tracks.mem_iff id).mp (Or.inl waits)
  have absent := EntityIndex.not_mem_live.mp (index.waits id waits)
  rw [places] at absent
  rcases initId_spec wf tracks.toSound claimed places absent with ⟨after, init, wfAfter, viewed, _⟩
  exact ⟨after, init, wfAfter, viewed⟩

end World

end Index

section Merge

namespace World

variable {Value : Type} [UnitTypeId] {w after : World Value} {types : Finset TypeId}
  {src dst : EntityId} {ids : List EntityId} {left right : Row Value}

theorem mergeEntities_knows (wf : w.WellFormed) (known : w.Knows types)
    {result : WorldResult Unit} (merged : w.mergeEntities src dst = some (result, after)) :
    after.Knows types := by
  rcases mergeEntities_evolves wf.toOwned.tables_nextTable merged with
    evolves | ⟨srcTable, dstTable, foundSrc, foundDst, _, _, _, absent, evolves⟩
  · exact evolves.knows known
  · rcases known.entityTable foundSrc with ⟨_, _, srcTypes⟩
    rcases known.entityTable foundDst with ⟨dstArch, inMemory, dstTypes⟩
    rcases (wf.shaped dstArch dstTable inMemory).merged srcTable with ⟨_, _, newTypes⟩
    rw [← (merged_shape srcTable dstTable).2] at absent
    apply evolves.knows
    apply known.addTable absent
    rw [newTypes]
    exact Finset.union_subset dstTypes srcTypes

/-- The tables of known columns are told apart by their hashes. -/
theorem Orderly.mergeDetermines (orderly : w.Orderly types ids) (apart : HashesApart types) :
    w.MergeDetermines src dst := by
  intro srcTable dstTable foundSrc foundDst
  rcases orderly.known.entityTable foundSrc with ⟨_, _, srcTypes⟩
  rcases orderly.known.entityTable foundDst with ⟨dstArch, inMemory, dstTypes⟩
  have unit := (orderly.shaped dstArch dstTable inMemory).unitColumn
  exact ⟨orderly.known.hashDetermines orderly.toFormed apart
      (Finset.union_subset dstTypes srcTypes) (Finset.mem_union_left _ unit),
    orderly.known.hashDetermines orderly.toFormed apart dstTypes unit⟩

/-- Entities in tables of different types have different components. -/
theorem WellFormed.differentTypes (wf : w.WellFormed) (different : src ≠ dst)
    (apart : w.mergeApart src dst = true) (liveSrc : w.view src = some left)
    (liveDst : w.view dst = some right) : left.DifferentTypes right := by
  rcases wf.toConsistent.table_of_view liveSrc with
    ⟨srcArch, i, srcTable, readSrc, foundSrc, alignedSrc, inSrc, _, rfl⟩
  rcases wf.toConsistent.table_of_view liveDst with
    ⟨dstArch, j, dstTable, readDst, foundDst, alignedDst, inDst, _, rfl⟩
  simp only [mergeApart, entityTable, readSrc, readDst, foundSrc, foundDst, Bool.or_eq_true,
    beq_iff_eq, different, bne_iff_ne, false_or] at apart
  by_contra same
  simp only [Row.DifferentTypes, not_exists, ne_eq, not_not] at same
  apply apart
  rw [(wf.shaped srcArch srcTable foundSrc).hashed, (wf.shaped dstArch dstTable foundDst).hashed]
  congr 1
  ext ty
  rw [← alignedSrc.fills_row inSrc ty, ← alignedDst.fills_row inDst ty, same ty]

end World

end Merge

section Command

variable {Value : Type} [UnitTypeId] [BuiltinValues Value] {w : Cecs.World Value}
  {types : Finset TypeId} {id : EntityId} {ids : List EntityId}
  {payload : List (ComponentCommand Value)}

open World (Orderly)
open EntityState (Applies)

namespace CommandPayload

/-- The command returns, and it is the abstract step. -/
def Refines (types : Finset TypeId) (ids : List EntityId) (w : Cecs.World Value)
    (command : CommandPayload Value) : Prop :=
  ∃ result after, command.apply w = some (result, after) ∧ after.WellFormed ∧
    after.Knows types ∧ Applies (w.state (command.earlyIds ++ ids)) command result (after.state ids)

/-- A payload that is applied to an entity with the components `row`. -/
theorem refines_payload (apart : HashesApart types)
    (regular : ∀ command ∈ payload, command.Regular types) {action : EntityAction}
    {started : Cecs.World Value} {row : Row Value}
    (starts : ∀ outcome, EntityCommands.applyPayload payload id started = some outcome →
      EntityCommands.apply ⟨action, payload⟩ w = some outcome)
    (wf : started.WellFormed) (known : started.Knows types)
    (viewed : started.view = Function.update w.view id (some row))
    (applies : Applies (w.state (action.earlyIds ++ ids)) (.Entity ⟨action, payload⟩) (.ok ())
      ((w.state ids).setEntity id (row.updated payload))) :
    Refines types ids w (.Entity ⟨action, payload⟩) := by
  have live : started.view id = some row := by rw [viewed, Function.update_self]
  rcases EntityCommands.applyPayload_live wf known apart regular live with
    ⟨after, applied, wfAfter, knownAfter, viewedAfter⟩
  have returned := starts _ applied
  rw [viewed, Function.update_idem] at viewedAfter
  refine ⟨.ok (), after, returned, wfAfter, knownAfter, ?_⟩
  rwa [World.state_setEntity viewedAfter (EntityCommands.resources_apply returned)]

theorem refines_fetch (orderly : w.Orderly types ids) (apart : HashesApart types)
    (regular : ∀ command ∈ payload, command.Regular types) :
    Refines types ids w (.Entity ⟨.Fetch id, payload⟩) := by
  cases live : w.view id with
  | none =>
      refine ⟨.error .EntityNotFound, w, ?_, orderly.toWellFormed, orderly.known, .fetchDead live⟩
      simp [apply, EntityCommands.apply, EntityCommands.applyPayload,
        World.isIdValid_of_dead orderly.toConsistent live]
  | some row =>
      have unchanged : w.view = Function.update w.view id (some row) := by
        rw [← live, Function.update_eq_self]
      have starts : ∀ outcome, EntityCommands.applyPayload payload id w = some outcome →
          EntityCommands.apply ⟨.Fetch id, payload⟩ w = some outcome := fun _ applied => applied
      exact refines_payload apart regular starts orderly.toWellFormed orderly.known unchanged
        (.fetch live)

theorem refines_init (orderly : w.Orderly types (id :: ids)) (apart : HashesApart types)
    (regular : ∀ command ∈ payload, command.Regular types)
    (room : w.entityIds.reserve 1 ≠ none) : Refines types ids w (.Entity ⟨.Init id, payload⟩) := by
  obtain ⟨middle, init, wfMiddle, viewed⟩ : ∃ middle, w.initId id = some middle ∧
      middle.WellFormed ∧ middle.view = Function.update w.view id (some Row.marker) :=
    orderly.toWellFormed.initId orderly.accounts List.mem_cons_self rfl
  have evolves := World.initId_evolves init
  rcases orderly.awaits.initId init with ⟨awaits, _⟩
  have roomMiddle := mt (World.reserve_initId init 1).mp room
  rcases Option.ne_none_iff_exists'.mp roomMiddle with ⟨entityIds, reserved⟩
  rcases awaits.accounted.index.reserve reserved with ⟨index, places⟩
  rcases index.sound with ⟨slots, sound⟩
  rcases wfMiddle.setIndex sound places with ⟨wfStarted, viewedStarted⟩
  have applies : Applies (w.state (id :: ids)) (.Entity ⟨.Init id, payload⟩) (.ok ()) _ :=
    .init List.mem_cons_self
  have others : (w.state (id :: ids)).waiting \ {id} = (w.state ids).waiting :=
    World.waiting_sdiff orderly.awaits.distinct
  rw [others] at applies
  refine refines_payload apart regular ?_ wfStarted (evolves.knows orderly.known)
    (viewedStarted.trans viewed) applies
  intro outcome applied
  simpa [EntityCommands.apply, init, World.reserveEntities, reserved] using applied

/-- A new entity, at an id that was handed out for it. -/
theorem refines_handed (orderly : w.Orderly types ids) (apart : HashesApart types)
    (regular : ∀ command ∈ payload, command.Regular types) {action : EntityAction}
    (noEarly : action.earlyIds = []) {entityIds : EntityIndex}
    (index : entityIds.Accounts (insert id {id | id ∈ ids})) (fresh : id ∉ ids)
    (places : entityIds.place = w.entityIds.place)
    (starts : ∀ started, (w.setIndex entityIds).initId id = some started → ∀ outcome,
      EntityCommands.applyPayload payload id started = some outcome →
      EntityCommands.apply ⟨action, payload⟩ w = some outcome)
    (applies : (w.state ids).SlotFree id →
      Applies (w.state ids) (.Entity ⟨action, payload⟩) (.ok ())
        ((w.state ids).setEntity id (Row.marker.updated payload))) :
    Refines types ids w (.Entity ⟨action, payload⟩) := by
  rcases orderly.toWellFormed.initId index (Set.mem_insert id _) places with
    ⟨started, init, wfStarted, viewed⟩
  have known := (World.initId_evolves init).knows (w := w.setIndex entityIds) orderly.known
  have absent := index.waits id (Set.mem_insert id _)
  have slotFree : (w.state ids).SlotFree id := by
    intro other allocated
    rw [← orderly.allocated_iff, ← EntityIndex.live_congr places] at allocated
    exact index.slotFree fresh absent allocated
  apply refines_payload apart regular (starts started init) wfStarted known viewed
  rw [noEarly]
  exact applies slotFree

theorem refines_insert (orderly : w.Orderly types ids) (apart : HashesApart types)
    (regular : ∀ command ∈ payload, command.Regular types)
    (room : w.entityIds.allocateWithResize ≠ none) :
    Refines types ids w (.Entity ⟨.Insert, payload⟩) := by
  rcases Option.ne_none_iff_exists'.mp room with ⟨⟨id, entityIds⟩, allocated⟩
  rcases orderly.accounts.allocateWithResize allocated with ⟨index, fresh, places⟩
  refine refines_handed orderly apart regular rfl index fresh places ?_ fun free => .insert free
  intro started init outcome applied
  simpa [EntityCommands.apply, World.insertEntity, allocated, init] using applied

theorem refines_insertId (orderly : w.Orderly types ids) (apart : HashesApart types)
    (regular : ∀ command ∈ payload, command.Regular types)
    (room : w.entityIds.insertId id ≠ none) :
    Refines types ids w (.Entity ⟨.InsertId id, payload⟩) := by
  rcases Option.ne_none_iff_exists'.mp room with ⟨⟨outcome, entityIds⟩, inserted⟩
  cases outcome with
  | ok done =>
      rcases orderly.accounts.insertId inserted with
        ⟨places, ⟨_, index, fresh⟩ | ⟨⟨_, failed⟩, _⟩⟩
      · refine refines_handed orderly apart regular rfl index fresh places ?_
          fun free => .insertId free
        intro started init outcome applied
        simpa [EntityCommands.apply, World.insertId, inserted, init] using applied
      · cases failed
  | error error =>
      rcases orderly.accounts.insertId_refused inserted with
        ⟨rfl, ⟨rfl, allocated⟩ | ⟨rfl, other, allocated, different, sameSlot⟩⟩
      · have asBefore : EntityCommands.apply ⟨.InsertId id, payload⟩ w =
            EntityCommands.applyPayload payload id w := by
          simp [EntityCommands.apply, World.insertId, inserted, World.setIndex]
        cases live : w.view id with
        | some row =>
            have unchanged : w.view = Function.update w.view id (some row) := by
              rw [← live, Function.update_eq_self]
            exact refines_payload apart regular (fun _ applied => asBefore.trans applied)
              orderly.toWellFormed orderly.known unchanged (.insertLive live)
        | none =>
            rw [orderly.allocated_iff] at allocated
            have waits : id ∈ ids := allocated.resolve_left fun live' => live' live
            refine ⟨.error .EntityNotFound, w, ?_, orderly.toWellFormed, orderly.known,
              .insertWaiting waits⟩
            refine asBefore.trans ?_
            simp [EntityCommands.applyPayload, World.isIdValid_of_dead orderly.toConsistent live]
      · refine ⟨.error (.InsertInvalidId id), w, ?_, orderly.toWellFormed, orderly.known,
          .insertTaken (orderly.allocated_iff.mp allocated) sameSlot different⟩
        simp [apply, EntityCommands.apply, World.insertId, inserted, World.setIndex]

theorem refines_delete (orderly : w.Orderly types ids) :
    Refines types ids w (.Entity ⟨.Delete id, payload⟩) := by
  have applies : Applies (w.state ids) (.Entity ⟨.Delete id, payload⟩) (.ok ()) _ := .delete
  cases live : w.view id with
  | none =>
      have absent := (World.view_eq_none_iff orderly.toConsistent).mp live
      have unchanged : (w.state ids).setEntity id none = w.state ids := by
        rw [EntityState.setEntity, show none = (w.state ids).entities id from live.symm,
          Function.update_eq_self]
      rw [unchanged] at applies
      refine ⟨.ok (), w, ?_, orderly.toWellFormed, orderly.known, applies⟩
      simp [apply, EntityCommands.apply, World.deleteEntity_dead absent]
  | some row =>
      rcases orderly.toConsistent.index with ⟨slots, sound⟩
      rcases World.deleteEntity_live orderly.toWellFormed sound live with
        ⟨after, _, deleted, wfAfter, viewed, _⟩
      have evolves := World.deleteEntity_evolves deleted
      refine ⟨.ok (), after, ?_, wfAfter, evolves.knows orderly.known, ?_⟩
      · simp [apply, EntityCommands.apply, deleted]
      · rwa [World.state_setEntity viewed evolves.resources]

theorem refines_merge (orderly : w.Orderly types ids) (apart : HashesApart types)
    {src dst : EntityId} (mergesApart : w.mergeApart src dst = true) :
    Refines types ids w (.Entity ⟨.Merge src dst, payload⟩) := by
  by_cases different : src = dst
  · subst different
    refine ⟨.ok (), w, ?_, orderly.toWellFormed, orderly.known, .mergeSelf⟩
    simp [apply, EntityCommands.apply, World.mergeEntities]
  · have dies : (w.view src = none ∨ w.view dst = none) →
        Refines types ids w (.Entity ⟨.Merge src dst, payload⟩) := by
      intro dead
      refine ⟨.error .EntityNotFound, w, World.mergeEntities_dead different ?_,
        orderly.toWellFormed, orderly.known, .mergeDead different dead⟩
      exact dead.imp (World.isIdValid_of_dead orderly.toConsistent)
        (World.isIdValid_of_dead orderly.toConsistent)
    cases liveSrc : w.view src with
    | none => exact dies (Or.inl liveSrc)
    | some left =>
        cases liveDst : w.view dst with
        | none => exact dies (Or.inr liveDst)
        | some right =>
            have types_ne := orderly.differentTypes different mergesApart liveSrc liveDst
            rcases World.mergeEntities_live orderly.toWellFormed (orderly.mergeDetermines apart)
                liveSrc liveDst types_ne with ⟨after, returned, merged⟩
            have known := World.mergeEntities_knows orderly.toWellFormed orderly.known returned
            refine ⟨.ok (), after, returned, merged.wellFormed, known, ?_⟩
            have states : after.state ids = ((w.state ids).setEntity dst
                (right.overriddenBy left)).setEntity src none := by
              rw [World.state, merged.view, World.resources_mergeEntities returned]
              rfl
            rw [states]
            exact .merge liveSrc liveDst types_ne

theorem refines_resource (orderly : w.Orderly types ids) (command : ResourceCommand Value) :
    Refines types ids w (.Resource command) := by
  cases command with
  | Insert ty value =>
      refine ⟨.ok (), w.insertResource ty value, rfl, { orderly.toWellFormed with },
        orderly.known, ?_⟩
      have states : (w.insertResource ty value).state ids = { w.state ids with
          resources := Function.update (w.state ids).resources ty (some value) } := by
        rw [World.state, World.state]
        congr 1
        funext other
        rw [World.insertResource, BTreeMap.getElem?_insert, Function.update_apply]
        exact if_congr eq_comm rfl rfl
      rw [states]
      exact .insertResource
  | Delete ty =>
      refine ⟨.ok (), w.removeResource ty, rfl, { orderly.toWellFormed with }, orderly.known, ?_⟩
      have states : (w.removeResource ty).state ids = { w.state ids with
          resources := Function.update (w.state ids).resources ty none } := by
        rw [World.state, World.state]
        congr 1
        funext other
        rw [World.removeResource, BTreeMap.getElem?_erase, Function.update_apply]
        exact if_congr eq_comm rfl rfl
      rw [states]
      exact .removeResource

theorem refines_reserve (orderly : w.Orderly types ids) {additional : Nat}
    (room : w.entityIds.reserve additional ≠ none) :
    Refines types ids w (.World (.Reserve additional)) := by
  rcases Option.ne_none_iff_exists'.mp room with ⟨entityIds, reserved⟩
  rcases orderly.accounts.reserve reserved with ⟨index, places⟩
  rcases index.sound with ⟨slots, sound⟩
  rcases orderly.toWellFormed.setIndex sound places with ⟨wfAfter, viewed⟩
  refine ⟨.ok (), w.setIndex entityIds, ?_, wfAfter, orderly.known, ?_⟩
  · simp [apply, WorldCommands.apply, World.reserveEntities, reserved]
  · have states : (w.setIndex entityIds).state ids = w.state ids := by
      rw [World.state, viewed]
      rfl
    rw [states]
    exact .reserve

/-- A command does not return for lack of room, or it is the abstract step. -/
theorem apply_refines {command : CommandPayload Value}
    (orderly : w.Orderly types (command.earlyIds ++ ids)) (apart : HashesApart types)
    (regular : command.Regular types) (tidily : command.tidy w = true) :
    (command.refused w ∧ command.apply w = none) ∨
    ∃ result after, command.apply w = some (result, after) ∧ after.Orderly types ids ∧
      Applies (w.state (command.earlyIds ++ ids)) command result (after.state ids) := by
  have returns : Refines types ids w command →
      ∃ result after, command.apply w = some (result, after) ∧ after.Orderly types ids ∧
        Applies (w.state (command.earlyIds ++ ids)) command result (after.state ids) := by
    rintro ⟨result, after, applied, wf, known, applies⟩
    have awaits := (apply_awaits orderly.awaits tidily applied).1
    exact ⟨result, after, applied, ⟨wf, known, awaits⟩, applies⟩
  rw [tidy, Bool.and_eq_true] at tidily
  cases command with
  | Entity commands =>
      rcases commands with ⟨action, payload⟩
      cases action with
      | Fetch id => exact Or.inr (returns (refines_fetch orderly apart regular))
      | Init id =>
          by_cases room : w.entityIds.reserve 1 = none
          · refine Or.inl ⟨room, ?_⟩
            cases init : w.initId id with
            | none => simp [apply, EntityCommands.apply, init]
            | some middle =>
                have noRoom := (World.reserve_initId init 1).mpr room
                simp [apply, EntityCommands.apply, init, World.reserveEntities, noRoom]
          · exact Or.inr (returns (refines_init orderly apart regular room))
      | InsertId id =>
          by_cases room : w.entityIds.insertId id = none
          · exact Or.inl ⟨room, by simp [apply, EntityCommands.apply, World.insertId, room]⟩
          · exact Or.inr (returns (refines_insertId orderly apart regular room))
      | Insert =>
          by_cases room : w.entityIds.allocateWithResize = none
          · exact Or.inl ⟨room, by simp [apply, EntityCommands.apply, World.insertEntity, room]⟩
          · exact Or.inr (returns (refines_insert orderly apart regular room))
      | Delete id => exact Or.inr (returns (refines_delete orderly))
      | Merge src dst => exact Or.inr (returns (refines_merge orderly apart tidily.2))
  | Resource command => exact Or.inr (returns (refines_resource orderly command))
  | World command =>
      rcases command with ⟨additional⟩
      by_cases room : w.entityIds.reserve additional = none
      · exact Or.inl ⟨room, by simp [apply, WorldCommands.apply, World.reserveEntities, room]⟩
      · exact Or.inr (returns (refines_reserve orderly room))

end CommandPayload

end Command

section Moves

namespace World

variable {Value : Type} [UnitTypeId] {w after : World Value} {types : Finset TypeId}
  {ids : List EntityId}

omit [UnitTypeId] in
/-- The moves of tables leave a table under the hash of no components. -/
theorem void_moveArchetypes (present : (w.archetypes[VOID_TY]?).isSome = true)
    (moved : w.moveArchetypes = some after) : (after.archetypes[VOID_TY]?).isSome = true := by
  have along : ∀ (move : World Value → TypeHash → Option (World Value)) (keys : List TypeHash),
      (∀ key ∈ keys, ∀ w after, (w.archetypes[VOID_TY]?).isSome = true → move w key = some after →
        (after.archetypes[VOID_TY]?).isSome = true) →
      ∀ w after : World Value, (w.archetypes[VOID_TY]?).isSome = true →
        keys.foldlM move w = some after → (after.archetypes[VOID_TY]?).isSome = true := by
    intro move keys
    induction keys with
    | nil =>
        intro _ w after present ran
        cases ran
        exact present
    | cons key keys induction =>
        intro moves w after present ran
        rw [List.foldlM_cons] at ran
        rcases Option.bind_eq_some_iff.mp ran with ⟨middle, first, rest⟩
        rcases List.forall_mem_cons.mp moves with ⟨head, tail⟩
        exact induction tail middle after (head w middle present first) rest
  rcases Option.bind_eq_some_iff.mp moved with ⟨promoted, promotion, demotion⟩
  refine along demote _ ?_ promoted after (along promote _ ?_ w promoted present promotion) demotion
  · intro key member w after present demotes
    rcases Option.bind_eq_some_iff.mp demotes with ⟨ptr, _, same⟩
    cases same
    have notVoid : key ≠ VOID_TY := by
      rcases List.mem_map.mp member with ⟨entry, inQueue, rfl⟩
      simpa using (Bool.and_eq_true_iff.mp (List.mem_filter.mp inQueue).2).1
    simpa [insertStaging, BTreeMap.getElem?_erase, notVoid] using present
  · intro key _ w after present promotes
    rcases Option.bind_eq_some_iff.mp promotes with ⟨ptr, _, same⟩
    cases same
    simp only [insertArchetypes, BTreeMap.getElem?_insert]
    split
    · rfl
    · exact present

omit [UnitTypeId] in
/-- Tables without rows hold nothing that could be looked up. -/
theorem Keeps.store (keeps : Keeps w after) (consistent : w.Consistent)
    (shrinks : ∀ ptr table, after.tables ptr = some table → w.tables ptr = some table) :
    after.store = w.store := by
  apply RowStore.ext
  · exact congrArg EntityIndex.place keeps.entityIds
  · funext ptr
    cases found : w.tables ptr with
    | none =>
        have absent : after.tables ptr = none := by
          rw [Option.eq_none_iff_forall_ne_some]
          intro table foundAfter
          rw [shrinks ptr table foundAfter] at found
          cases found
        simp [World.store, found, absent]
    | some table =>
        rcases Nat.eq_zero_or_pos table.rows with without | holds
        · have aligned := consistent.aligned ptr table found
          have empty : table.rowList = [] := by
            rw [← List.length_eq_zero_iff, EntityTable.length_rowList, aligned.entities, without]
          cases foundAfter : after.tables ptr with
          | none => simp [World.store, found, foundAfter, empty]
          | some changed =>
              cases (shrinks ptr changed foundAfter).symm.trans found
              simp [World.store, found, foundAfter]
        · simp [World.store, found, keeps.tables ptr table found holds]

/-- What keeps all rows and adds no table keeps the world orderly, and its state. -/
theorem Orderly.keeps (orderly : w.Orderly types ids) (apart : HashesApart types)
    (housed : after.Housed) (keeps : Keeps w after)
    (shrinks : ∀ ptr table, after.tables ptr = some table → w.tables ptr = some table)
    (void : (after.archetypes[VOID_TY]?).isSome = true)
    (resources : after.resources = w.resources) :
    after.Orderly types ids ∧ after.state ids = w.state ids := by
  have store := keeps.store orderly.toConsistent shrinks
  have viewed : after.view = w.view := congrArg RowStore.view store
  have states : after.state ids = w.state ids := by
    rw [state, state, viewed, resources]
  rcases Option.isSome_iff_exists.mp void with ⟨ptr, owner⟩
  rcases housed.archetypes VOID_TY ptr owner with ⟨table, found, ty⟩
  have shaped := orderly.shaped ptr table (shrinks ptr table found)
  have only : table.types = {unitTypeId} := by
    rcases orderly.void with ⟨voidPtr, voidTable, _, foundVoid, voidTypes⟩
    have shapedVoid := orderly.shaped voidPtr voidTable foundVoid
    have unit : unitTypeId ∈ types :=
      orderly.known voidPtr voidTable foundVoid shapedVoid.unitColumn
    apply apart _ (orderly.known ptr table (shrinks ptr table found)) _
      (Finset.singleton_subset_iff.mpr unit) shaped.unitColumn (Finset.mem_singleton_self _)
    rw [← shaped.hashed, ty, EntityTable.hashTypes_unit]
  refine ⟨{ housed.toOwned with
    index := by rw [keeps.entityIds]; exact orderly.index
    linked := store ▸ orderly.linked
    aligned := fun ptr table found => orderly.aligned ptr table (shrinks ptr table found)
    shaped := fun ptr table found => orderly.shaped ptr table (shrinks ptr table found)
    void := ⟨ptr, table, owner, found, only⟩
    known := fun ptr table found => orderly.known ptr table (shrinks ptr table found)
    awaits := ⟨housed, orderly.awaits.accounted.keeps keeps shrinks,
      orderly.awaits.distinct⟩ }, states⟩

end World

end Moves

section Batch

variable {Value : Type} [UnitTypeId] [BuiltinValues Value] {w : World Value}
  {types : Finset TypeId} {lost : List EntityId}

open World (Orderly)
open EntityState (AppliesAll)

/-- A batch does not return for lack of room at one of its commands, or it is the abstract
one. The ids of the commands behind a failure go on waiting. -/
theorem applyBatch_refines {batch : List (CommandPayload Value)}
    (orderly : w.Orderly types (earlyIds batch ++ lost)) (apart : HashesApart types)
    (regular : ∀ command ∈ batch, command.Regular types)
    (tidily : along CommandPayload.apply CommandPayload.tidy batch w = true) :
    (∃ front command back middle, batch = front ++ command :: back ∧
      applyBatch front w = some (.ok (), middle) ∧ command.refused middle ∧
      applyBatch batch w = none) ∨
    ∃ result after waiting, applyBatch batch w = some (result, after) ∧
      after.Orderly types waiting ∧ (result = .ok () → waiting = lost) ∧
      AppliesAll (w.state (earlyIds batch ++ lost)) batch result (after.state waiting) := by
  induction batch generalizing w with
  | nil => exact Or.inr ⟨.ok (), w, lost, rfl, orderly, fun _ => rfl, .done⟩
  | cons command rest induction =>
      rw [along, Bool.and_eq_true] at tidily
      rcases List.forall_mem_cons.mp regular with ⟨regularFirst, regularRest⟩
      have early : earlyIds (command :: rest) ++ lost =
          command.earlyIds ++ (earlyIds rest ++ lost) := by
        rw [earlyIds, List.flatMap_cons, List.append_assoc]
        rfl
      rw [early] at orderly ⊢
      rcases CommandPayload.apply_refines orderly apart regularFirst tidily.1 with
        ⟨refused, stuck⟩ | ⟨result, middle, applied, orderlyMiddle, applies⟩
      · left
        exact ⟨[], command, rest, w, rfl, rfl, refused, by simp [applyBatch, forEach, stuck]⟩
      · cases result with
        | error error =>
            right
            refine ⟨.error error, middle, earlyIds rest ++ lost, ?_, orderlyMiddle, ?_,
              .failed applies⟩
            · simp [applyBatch, forEach, applied]
            · intro ok
              cases ok
        | ok done =>
            rw [applied] at tidily
            have looped : applyBatch (command :: rest) w = applyBatch rest middle := by
              simp [applyBatch, forEach, applied]
            rw [looped]
            rcases induction orderlyMiddle regularRest tidily.2 with
              ⟨front, other, back, last, split, ran, refused, stuck⟩ |
                ⟨result, after, waiting, ran, orderlyAfter, none, appliesRest⟩
            · left
              refine ⟨command :: front, other, back, last, by rw [split]; rfl, ?_, refused, stuck⟩
              simpa [applyBatch, forEach, applied] using ran
            · right
              exact ⟨result, after, waiting, ran, orderlyAfter, none, .next applies appliesRest⟩

omit [BuiltinValues Value] in
theorem World.Orderly.moveArchetypes {ids : List EntityId} (orderly : w.Orderly types ids)
    (apart : HashesApart types) :
    ∃ after, w.moveArchetypes = some after ∧ after.Orderly types ids ∧ after.ParkedEmpty ∧
      after.state ids = w.state ids := by
  rcases orderly.awaits.housed.moveArchetypes with ⟨after, moved, housed, empty, keeps⟩
  have void : (after.archetypes[VOID_TY]?).isSome = true := by
    rcases orderly.void with ⟨ptr, _, owner, _⟩
    exact World.void_moveArchetypes (Option.isSome_iff_exists.mpr ⟨ptr, owner⟩) moved
  rcases orderly.keeps apart housed keeps
      (fun _ _ found => World.moveArchetypes_shrinks moved found) void
      (resources_moveArchetypes moved) with ⟨orderlyAfter, states⟩
  exact ⟨after, moved, orderlyAfter, empty, states⟩

/-- `apply_commands` stops for lack of room, or it does what the commands mean: nothing is lost
or doubled by the sort of the tables at its end. -/
theorem World.Orderly.applySorted {batch : List (CommandPayload Value)}
    (orderly : w.Orderly types (earlyIds batch ++ lost)) (apart : HashesApart types)
    (regular : ∀ command ∈ batch, command.Regular types)
    (tidily : along CommandPayload.apply CommandPayload.tidy batch w.drained = true) :
    (∃ front command back middle, batch = front ++ command :: back ∧
      applyBatch front w.drained = some (.ok (), middle) ∧ command.refused middle ∧
      w.applySorted batch = none) ∨
    ∃ result after waiting, w.applySorted batch = some (result, after) ∧
      after.Orderly types waiting ∧ (result = .ok () → waiting = lost ∧ after.ParkedEmpty) ∧
      AppliesAll (w.state (earlyIds batch ++ lost)) batch result (after.state waiting) := by
  have drained : w.drained.Orderly types (earlyIds batch ++ lost) :=
    ⟨{ orderly.toWellFormed with }, orderly.known,
      orderly.awaits.congr { orderly.awaits.housed with } rfl rfl⟩
  rcases applyBatch_refines drained apart regular tidily with
    ⟨front, command, back, middle, split, ran, refused, stuck⟩ |
      ⟨result, applied, waiting, ran, orderlyApplied, none, applies⟩
  · exact Or.inl ⟨front, command, back, middle, split, ran, refused,
      by simp [World.applySorted, stuck]⟩
  · right
    cases result with
    | error error =>
        refine ⟨.error error, applied, waiting, ?_, orderlyApplied, ?_, applies⟩
        · simp [World.applySorted, ran]
        · intro ok
          cases ok
    | ok done =>
        rcases orderlyApplied.moveArchetypes apart with
          ⟨after, moved, orderlyAfter, empty, states⟩
        refine ⟨.ok (), after, waiting, ?_, orderlyAfter, fun ok => ⟨none ok, empty⟩, ?_⟩
        · simp [World.applySorted, ran, moved]
        · rw [states]
          exact applies

end Batch

end Cecs

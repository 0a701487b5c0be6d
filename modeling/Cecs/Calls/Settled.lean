import Cecs.Calls.Accounted

/-! # Parked tables over whole runs

Under which conditions on the calls of a run no parked table keeps rows, so that every
live entity is seen by queries and survives `vacuum`. -/

namespace Cecs

open Foundation

section Conditions

variable {Value : Type} [UnitTypeId] [BuiltinValues Value]

/-- The command is tidy and, while a parked table has rows, not rejected. -/
def CommandPayload.settles (w : Cecs.World Value) (command : CommandPayload Value) : Bool :=
  command.tidy w && (!command.rejected w || w.promotionQueue.isEmpty)

/-- No table is put in the place of one with rows, no two entities of one table are
merged, and no batch ends with an error while a parked table has rows. -/
def Call.Settles (w : World Value) : Call Value → Prop
  | .mergeEntities lhs rhs => w.mergeSafe lhs rhs = true ∧ w.mergeApart lhs rhs = true
  | .applyCommands batch =>
      along CommandPayload.apply CommandPayload.settles batch w.drained = true
  | .clone => w.AllListed
  | _ => True

omit [UnitTypeId] [BuiltinValues Value] in
/-- What is safe before every iteration is so in any weaker sense. -/
theorem along_imp {α : Type} {step : α → Effect Value} {safe weaker : World Value → α → Bool}
    (implies : ∀ w item, safe w item = true → weaker w item = true) {items : List α}
    {w : World Value} (safely : along step safe items w = true) :
    along step weaker items w = true := by
  induction items generalizing w with
  | nil => rfl
  | cons item rest induction =>
      rw [along, Bool.and_eq_true] at safely ⊢
      refine ⟨implies w item safely.1, ?_⟩
      split
      · rename_i after ran
        rw [ran] at safely
        exact induction safely.2
      · rfl

theorem Call.Settles.tidy {w : World Value} {call : Call Value} (settles : call.Settles w)
    (empty : w.ParkedEmpty) : call.Tidy w := by
  cases call with
  | mergeEntities lhs rhs => exact settles
  | applyCommands batch =>
      exact along_imp (fun _ _ both => (Bool.and_eq_true_iff.mp both).1) settles
  | vacuum => exact empty
  | clone => exact settles
  | _ => trivial

end Conditions

section Settled

variable {Value : Type} [UnitTypeId] [BuiltinValues Value] {w after : World Value}

open World (Housed Plain Keeps)

omit [UnitTypeId] [BuiltinValues Value] in
theorem World.promotionQueue_eq_nil : w.promotionQueue.isEmpty = true ↔ w.ParkedEmpty := by
  rw [List.isEmpty_iff, List.eq_nil_iff_forall_not_mem]
  constructor
  · intro empty key ptr parked
    rw [← Bool.not_eq_true]
    exact fun holds => empty key (World.mem_promotionQueue.mpr ⟨ptr, parked, holds⟩)
  · intro empty key member
    rcases World.mem_promotionQueue.mp member with ⟨ptr, parked, holds⟩
    rw [empty key ptr parked] at holds
    cases holds

/-- However a batch of settling commands ends, it ends in a housed world, and after an
error no parked table has rows. -/
theorem World.Housed.settleBatch (housed : w.Housed) {batch : List (CommandPayload Value)}
    {result : WorldResult Unit}
    (settles : along CommandPayload.apply CommandPayload.settles batch w = true)
    (applied : Cecs.applyBatch batch w = some (result, after)) :
    after.Housed ∧ (result = .ok () ∨ after.ParkedEmpty) := by
  have kept : ∀ (command : CommandPayload Value) (w after : World Value), w.Housed →
      command.settles w = true → command.apply w = some (.ok (), after) → after.Housed := by
    intro command w after housed settles step
    rw [CommandPayload.settles, CommandPayload.tidy, Bool.and_eq_true, Bool.and_eq_true] at settles
    exact CommandPayload.apply_housed housed settles.1.1 step
  have failed : ∀ (command : CommandPayload Value) (w after : World Value) (error : WorldError),
      w.Housed → command.settles w = true → command.apply w = some (.error error, after) →
      after.Housed ∧ after.ParkedEmpty := by
    intro command w after error housed settles step
    rw [CommandPayload.settles, CommandPayload.tidy, Bool.and_eq_true, Bool.and_eq_true] at settles
    rcases CommandPayload.apply_error housed settles.1.1 step with ⟨rejected, keeps⟩
    have settled := settles.2
    rw [rejected, Bool.not_true, Bool.false_or, World.promotionQueue_eq_nil] at settled
    exact ⟨CommandPayload.apply_housed housed settles.1.1 step, keeps settled⟩
  rcases forEach_invariant World.Housed (fun after => after.Housed ∧ after.ParkedEmpty) kept
      failed housed settles applied with
    ⟨ok, housedAfter⟩ | ⟨_, housedAfter, empty⟩
  · exact ⟨housedAfter, Or.inl ok⟩
  · exact ⟨housedAfter, Or.inr empty⟩

theorem Call.run_parkedEmpty (housed : w.Housed) (empty : w.ParkedEmpty) {call : Call Value}
    (settles : call.Settles w) (ran : call.run w = some after) : after.ParkedEmpty := by
  rcases Call.run_cases ran with
    ⟨lhs, rhs, rfl⟩ | ⟨batch, rfl⟩ | rfl | rfl | plain
  · rcases Option.map_eq_some_iff.mp ran with ⟨⟨result, _⟩, merged, rfl⟩
    exact (housed.mergeEntities settles.1 merged).2 empty
  · rcases Option.map_eq_some_iff.mp ran with ⟨⟨result, _⟩, sorted, rfl⟩
    rcases World.applySorted_cases sorted with
      ⟨applied, applying, ⟨_, moved⟩ | ⟨⟨error, failed⟩, rfl⟩⟩
    · rcases (housed.drained.settleBatch settles applying).1.moveArchetypes with
        ⟨other, moving, _, emptyAfter, _⟩
      rw [moved, Option.some.injEq] at moving
      exact moving ▸ emptyAfter
    · rcases housed.drained.settleBatch settles applying with ⟨_, ok | emptyAfter⟩
      · rw [failed] at ok
        cases ok
      · exact emptyAfter
  · cases ran
    exact (housed.vacuum empty).2.1
  · exact (housed.clone settles ran).2
  · exact plain.parkedEmpty housed empty

/-- In a run of settling calls no parked table ever has rows between two calls, and the
rows name the entities that the index leads to them. -/
theorem Reachable.settled (reachable : Reachable (fun w call => call.Settles w) w) :
    w.ParkedEmpty ∧ ∃ lost, w.QueueAwaits lost := by
  induction reachable with
  | new created =>
      have unparked := World.unparked_new created
      exact ⟨unparked.parkedEmpty, [], World.queueAwaits_nil unparked.toHoused
        (World.accounted_new created) (World.commands_new created)⟩
  | load loaded =>
      rcases WorldPersister.load_accounted loaded with ⟨unparked, accounted, commands⟩
      exact ⟨unparked.parkedEmpty, [],
        World.queueAwaits_nil unparked.toHoused accounted commands⟩
  | call reachable admissible settles ran induction =>
      rcases induction with ⟨empty, lost, awaits⟩
      rcases Call.run_awaits awaits admissible (settles.tidy empty) ran with
        ⟨left, awaitsAfter, _⟩
      exact ⟨Call.run_parkedEmpty awaits.housed empty settles ran, _, awaitsAfter⟩

omit [UnitTypeId] [BuiltinValues Value] in
/-- A live entity's table is walked by queries when no parked table has rows. -/
theorem World.Housed.walked (housed : w.Housed) (empty : w.ParkedEmpty) {id : EntityId}
    {ptr : Ptr} {index : Nat} (live : w.entityIds.read id = .ok (ptr, index)) :
    ∃ table, w.tables ptr = some table ∧ (ptr, table) ∈ w.walked := by
  rcases housed.live live with ⟨table, found, positive, owner | owner⟩
  · exact ⟨table, found, World.mem_walked.mpr ⟨⟨table.ty, owner⟩, found⟩⟩
  · have without := (World.holdsRows_eq_false found).mp (empty table.ty ptr owner)
    omega

omit [UnitTypeId] [BuiltinValues Value] in
theorem Query.mem_archetypes_of_lookup (housed : w.Housed) (empty : w.ParkedEmpty)
    {query : Query} {id : EntityId} {ptr : Ptr} {index : Nat} {table : EntityTable Value}
    (found : query.lookup w id = some (ptr, index, table)) :
    (ptr, table) ∈ query.archetypes w := by
  simp only [lookup, Option.bind_eq_bind, Option.bind_eq_some_iff, Option.guard_eq_some',
    Option.pure_def, Option.some.injEq, Prod.mk.injEq, exists_and_left, exists_const] at found
  rcases found with ⟨⟨target, row⟩, read, other, inMemory, passes, rfl, rfl, rfl⟩
  rcases housed.walked empty (EntityIndex.read_of_place read) with ⟨same, foundSame, walked⟩
  rw [inMemory, Option.some.injEq] at foundSame
  exact List.mem_filter.mpr ⟨foundSame ▸ walked, passes⟩

omit [UnitTypeId] [BuiltinValues Value] in
/-- A query for ids yields every id that it fetches. -/
theorem Query.mem_iter_of_fetch (housed : w.Housed) (empty : w.ParkedEmpty) {filter : Filter}
    {id : EntityId} {item : Item Value}
    (fetched : Query.fetch ⟨.entityId, filter⟩ w id = some item) :
    item ∈ Query.iter ⟨.entityId, filter⟩ w := by
  simp only [Query.fetch, Option.bind_eq_bind, Option.bind_eq_some_iff] at fetched
  rcases fetched with ⟨⟨ptr, index, table⟩, found, row⟩
  have walked := Query.mem_archetypes_of_lookup housed empty found
  rcases Option.map_eq_some_iff.mp row with ⟨owner, ownerAt, rfl⟩
  rw [World.iter_entityId]
  apply List.mem_map_of_mem
  exact List.mem_flatMap.mpr ⟨(ptr, table), walked, List.mem_of_getElem? ownerAt⟩

omit [UnitTypeId] [BuiltinValues Value] in
/-- The row of a live entity names it, so a query for ids that looks at its table yields
the entity. -/
theorem World.Accounted.mem_iter {pending : Set EntityId} (accounted : w.Accounted pending)
    (housed : w.Housed) (empty : w.ParkedEmpty) {id : EntityId} {ptr : Ptr} {index : Nat}
    (live : w.entityIds.read id = .ok (ptr, index)) :
    ∃ table, w.tables ptr = some table ∧ (ptr, table) ∈ w.walked ∧
      table.entities[index]? = some id ∧ ∀ filter : Filter, filter.filter table = true →
        .entityId id ∈ Query.iter ⟨.entityId, filter⟩ w := by
  rcases housed.walked empty live with ⟨table, found, walked⟩
  rcases owner_of_place accounted.linked (EntityIndex.place_of_read live) with
    ⟨same, foundSame, owner⟩
  cases found.symm.trans foundSame
  refine ⟨table, found, walked, owner, ?_⟩
  intro filter passes
  have fetched : Query.fetch ⟨.entityId, filter⟩ w id = some (.entityId id) := by
    simp [Query.fetch, Query.lookup, live, Except.toOption, found, passes, QueryFragment.fetch,
      owner]
  exact Query.mem_iter_of_fetch housed empty fetched

/-- In such a run every live entity survives `vacuum`, and its table, the one that a
fetch looks into, is among those that iteration walks and yields the entity. -/
theorem Reachable.vacuum_keeps (reachable : Reachable (fun w call => call.Settles w) w) :
    w.ParkedEmpty ∧ (∀ id, KeepsEntity w w.vacuum id) ∧
      (∀ id ptr index, w.entityIds.read id = .ok (ptr, index) →
        ∃ table, w.tables ptr = some table ∧ (ptr, table) ∈ w.walked ∧
          table.entities[index]? = some id ∧ ∀ filter : Filter, filter.filter table = true →
            .entityId id ∈ Query.iter ⟨.entityId, filter⟩ w) ∧
      (∀ (query : Query) id ptr index table, query.lookup w id = some (ptr, index, table) →
        (ptr, table) ∈ query.archetypes w) ∧
      ∀ filter id item, Query.fetch ⟨.entityId, filter⟩ w id = some item →
        item ∈ Query.iter ⟨.entityId, filter⟩ w := by
  rcases reachable.settled with ⟨empty, lost, awaits⟩
  have housed := awaits.housed
  have vacuumed := housed.vacuum empty
  exact ⟨empty, vacuumed.2.2.entity housed vacuumed.1,
    fun _ _ _ live => awaits.accounted.mem_iter housed empty live,
    fun _ _ _ _ _ found => Query.mem_archetypes_of_lookup housed empty found,
    fun _ _ _ fetched => Query.mem_iter_of_fetch housed empty fetched⟩

theorem Call.settles_of_queues (w : World Value) (call : Call Value)
    (queues : call.queues = true) : call.Settles w := by
  cases call with
  | mergeEntities lhs rhs => cases queues
  | applyCommands batch => cases queues
  | clone => cases queues
  | _ => trivial

end Settled

section Example

open Sample

/-- An entity moves into the parked table, then a command fails on a dead id. -/
def moveAndFail : List (Call Nat) :=
  [.pushCommand 0 (.Entity ⟨.Fetch (EntityId.new 1 0), []⟩),
    .extendCommand 0 (.Insert [(7#128, 5)]),
    .pushCommand 0 (.Entity ⟨.Fetch (EntityId.new 0 0), []⟩)]

theorem Reachable.vacuum_keeps_sample :
    ∃ w : World Nat, w.getComponent (EntityId.new 0 0) 7#128 = some 1 ∧ w.ParkedEmpty ∧
      (∀ id, KeepsEntity w w.vacuum id) ∧
      (∀ id ptr index, w.entityIds.read id = .ok (ptr, index) →
        ∃ table, w.tables ptr = some table ∧ (ptr, table) ∈ w.walked ∧
          table.entities[index]? = some id ∧ ∀ filter : Filter, filter.filter table = true →
            .entityId id ∈ Query.iter ⟨.entityId, filter⟩ w) ∧
      (∀ (query : Query) id ptr index table, query.lookup w id = some (ptr, index, table) →
        (ptr, table) ∈ query.archetypes w) ∧
      ∀ filter id item, Query.fetch ⟨.entityId, filter⟩ w id = some item →
        item ∈ Query.iter ⟨.entityId, filter⟩ w := by
  obtain ⟨start, queued, w, created, queueing, settles, applied, component⟩ :
      ∃ start queued w : World Nat, World.new 4 = some start ∧
        ([.resizeCommands 1, .pushCommand 0 (.Entity ⟨.Insert, []⟩),
          .extendCommand 0 (.Insert [(7#128, 1)])] : List (Call Nat)).foldlM Call.run start =
            some queued ∧
        along CommandPayload.apply CommandPayload.settles
          (sortCommands id queued.queuedCommands) queued.drained = true ∧
        queued.applySorted (sortCommands id queued.queuedCommands) = some (.ok (), w) ∧
        w.getComponent (EntityId.new 0 0) 7#128 = some 1 :=
    ⟨_, _, _, rfl, rfl, rfl, rfl, rfl⟩
  let call : Call Nat := .applyCommands (sortCommands id queued.queuedCommands)
  have admissible : call.Admissible queued := sortCommands_sorts id queued.queuedCommands
  have ran : call.run queued = some w := Option.map_eq_some_iff.mpr ⟨_, applied, rfl⟩
  have reachable : Reachable (fun w call => call.Settles w) w :=
    .call (Reachable.queue Call.settles_of_queues (.new created) rfl queueing) admissible settles
      ran
  exact ⟨w, component, reachable.vacuum_keeps⟩

/-- After the error a live entity is in a parked table: fetched, but not iterated over,
and `vacuum` drops its table. -/
theorem applyCommands_leavesParkedRows :
    ∃ w : World Nat, Reachable (fun _ _ => True) w ∧ ¬w.ParkedEmpty ∧
      Query.fetch ⟨.ref 7#128, .unit⟩ w (EntityId.new 1 0) = some (.ref 5) ∧
      Query.iter ⟨.ref 7#128, .With 7#128⟩ w = [.ref 1] ∧
      w.entityIds.read (EntityId.new 1 0) = .ok (1, 0) ∧
      w.vacuum.entityIds.read (EntityId.new 1 0) = .ok (1, 0) ∧ w.vacuum.tables 1 = none := by
  obtain ⟨start, w, made, ticked, parked, holds, fetched, iterated, live, vacuumed, dropped⟩ :
      ∃ start w : World Nat, afterTicks parkedTable = some start ∧
        tick start moveAndFail = some (.error .EntityNotFound, w) ∧
        w.archetypesStaging[7#128]? = some 1 ∧ w.holdsRows 1 = true ∧
        Query.fetch ⟨.ref 7#128, .unit⟩ w (EntityId.new 1 0) = some (.ref 5) ∧
        Query.iter ⟨.ref 7#128, .With 7#128⟩ w = [.ref 1] ∧
        w.entityIds.read (EntityId.new 1 0) = .ok (1, 0) ∧
        w.vacuum.entityIds.read (EntityId.new 1 0) = .ok (1, 0) ∧ w.vacuum.tables 1 = none :=
    ⟨_, _, rfl, rfl, rfl, rfl, rfl, rfl, rfl, rfl, rfl⟩
  have reachable := (reachable_afterTicks rfl made).tick rfl ticked
  refine ⟨w, reachable, ?_, fetched, iterated, live, vacuumed, dropped⟩
  intro empty
  rw [empty _ 1 parked] at holds
  cases holds

end Example

end Cecs

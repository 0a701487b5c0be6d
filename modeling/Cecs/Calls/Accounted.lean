import Cecs.Calls.Housed
import Cecs.Commands.Accounted
import Cecs.Commands.Sort
import Cecs.Foundation.Buckets

/-! # Slots over whole runs

Between the calls of a run, the allocated ids without a row are those of the queued
`Init` commands, and those that an earlier batch has not reached. `apply_commands`
leaves none if it reaches all of them. -/

namespace Cecs

open Foundation

section Condition

variable {Value : Type} [UnitTypeId] [BuiltinValues Value]

/-- The call loses no table with rows and merges within no table. -/
def Call.Tidy (w : World Value) : Call Value → Prop
  | .mergeEntities lhs rhs => w.mergeSafe lhs rhs = true ∧ w.mergeApart lhs rhs = true
  | .applyCommands batch => along CommandPayload.apply CommandPayload.tidy batch w.drained = true
  | .vacuum => w.ParkedEmpty
  | .clone => w.AllListed
  | _ => True

/-- No early id is left behind: a batch reaches each `Init`, and a world is copied while
none is queued. -/
def Call.ReachesInits (w : World Value) : Call Value → Prop
  | .applyCommands batch => reachesInits batch w.drained = true
  | .clone => earlyIds w.queuedCommands = []
  | _ => True

/-- Both hold of the call. -/
def Call.Accounts (w : World Value) : Call Value → Prop
  | .mergeEntities lhs rhs => w.mergeSafe lhs rhs = true ∧ w.mergeApart lhs rhs = true
  | .applyCommands batch =>
      along CommandPayload.apply CommandPayload.tidy batch w.drained = true ∧
        reachesInits batch w.drained = true
  | .vacuum => w.ParkedEmpty
  | .clone => w.AllListed ∧ earlyIds w.queuedCommands = []
  | _ => True

theorem Call.accounts_iff {w : World Value} {call : Call Value} :
    call.Accounts w ↔ call.Tidy w ∧ call.ReachesInits w := by
  cases call <;> simp [Accounts, Tidy, ReachesInits]

end Condition

section Buffers

variable {Value : Type} {w after : World Value} {systemIdx : Nat} {lost : List EntityId}

namespace World

/-- The ids that wait for a row are those of the queued `Init` commands, and `lost`. -/
def QueueAwaits (w : World Value) (lost : List EntityId) : Prop :=
  w.Awaits (earlyIds w.queuedCommands ++ lost)

theorem Awaits.perm {ids others : List EntityId} (awaits : w.Awaits ids) (perm : ids.Perm others) :
    w.Awaits others := by
  have same : {id | id ∈ ids} = {id | id ∈ others} := by
    ext id
    exact perm.mem_iff
  exact ⟨awaits.housed, same ▸ awaits.accounted, perm.nodup_iff.mp awaits.distinct⟩

theorem earlyIds_append (first second : List (CommandPayload Value)) :
    earlyIds (first ++ second) = earlyIds first ++ earlyIds second := List.flatMap_append

/-- What one buffer gets is queued. -/
theorem earlyIds_setBuffer {cmd buffer : List (CommandPayload Value)} (ids : List EntityId)
    (found : w.commands[systemIdx]? = some cmd)
    (more : (earlyIds buffer).Perm (ids ++ earlyIds cmd)) :
    (earlyIds (w.setBuffer systemIdx buffer).queuedCommands).Perm
      (ids ++ earlyIds w.queuedCommands) := by
  have moved : (earlyIds (w.setBuffer systemIdx buffer).queuedCommands ++ earlyIds cmd).Perm
      (earlyIds w.queuedCommands ++ earlyIds buffer) := by
    have replaced := (flatten_set_perm found buffer).flatMap_right CommandPayload.earlyIds
    rw [List.flatMap_append, List.flatMap_append] at replaced
    exact replaced
  rw [List.perm_iff_count] at more moved ⊢
  intro id
  have count := more id
  have total := moved id
  simp only [List.count_append] at count total ⊢
  omega

/-- The last command of a buffer is replaced. -/
theorem earlyIds_setLastCommand {commands changed : EntityCommands Value} (ids : List EntityId)
    (last : w.lastCommand systemIdx = some commands)
    (set : w.setLastCommand systemIdx changed = some after)
    (more : changed.action.earlyIds = ids ++ commands.action.earlyIds) :
    (earlyIds after.queuedCommands).Perm (ids ++ earlyIds w.queuedCommands) := by
  simp only [setLastCommand, Option.bind_eq_bind, Option.bind_eq_some_iff, Option.pure_def,
    Option.some.injEq] at set
  rcases set with ⟨cmd, found, rfl⟩
  simp only [lastCommand, found, Option.bind_eq_bind, Option.bind_some,
    Option.bind_eq_some_iff] at last
  rcases last with ⟨command, lastOf, same⟩
  split at same
  · cases same
    apply earlyIds_setBuffer ids found
    have whole : cmd.dropLast ++ [.Entity commands] = cmd :=
      List.dropLast_append_getLast? _ lastOf
    conv_rhs => rw [← whole]
    have ofLast : earlyIds [.Entity changed] =
        ids ++ earlyIds [CommandPayload.Entity commands] := by
      simpa [earlyIds, CommandPayload.earlyIds] using more
    rw [earlyIds_append, earlyIds_append, ofLast]
    exact List.perm_append_comm_assoc ..
  · cases same

theorem earlyIds_resizeCommands (w : World Value) (len : Nat) :
    earlyIds (w.resizeCommands len).queuedCommands = earlyIds w.queuedCommands := by
  simp [queuedCommands, resizeCommands]

theorem queuedCommands_drained (w : World Value) : w.drained.queuedCommands = [] := by
  simp [queuedCommands, drained]

/-- A command that a method of `Commands` pushes has no early id. -/
theorem earlyIds_of_isFresh {command : CommandPayload Value} (fresh : command.isFresh = true) :
    command.earlyIds = [] := by
  cases command with
  | Entity commands =>
      rcases commands with ⟨action, payload⟩
      cases action with
      | Init id => cases fresh
      | _ => rfl
  | _ => rfl

theorem earlyIds_pushCommand {command : CommandPayload Value} (fresh : command.isFresh = true)
    (pushed : w.pushCommand systemIdx command = some after) :
    (earlyIds after.queuedCommands).Perm (earlyIds w.queuedCommands) := by
  simp only [pushCommand, Option.bind_eq_bind, Option.bind_eq_some_iff, Option.pure_def,
    Option.some.injEq] at pushed
  rcases pushed with ⟨cmd, found, rfl⟩
  apply earlyIds_setBuffer [] found
  rw [earlyIds_append]
  simp [earlyIds, earlyIds_of_isFresh fresh]

theorem earlyIds_extendCommand {command : ComponentCommand Value}
    (extended : w.extendCommand systemIdx command = some after) :
    (earlyIds after.queuedCommands).Perm (earlyIds w.queuedCommands) := by
  simp only [extendCommand, Option.bind_eq_bind, Option.bind_eq_some_iff] at extended
  rcases extended with ⟨commands, last, set⟩
  exact earlyIds_setLastCommand [] last set rfl

theorem SameTables.awaits {ids : List EntityId} (same : SameTables w after)
    (awaits : w.Awaits ids) : after.Awaits ids :=
  awaits.congr (same.housed awaits.housed) same.entityIds same.tables

theorem lastCommand_setIndex (w : World Value) (entityIds : EntityIndex) (systemIdx : Nat) :
    (w.setIndex entityIds).lastCommand systemIdx = w.lastCommand systemIdx := rfl

/-- The buffers are as they were. -/
theorem QueueAwaits.keep (awaits : w.QueueAwaits lost) (housed : after.Housed)
    (kept : after.Accounted {id | id ∈ earlyIds w.queuedCommands ++ lost} ∧
      after.commands = w.commands) : after.QueueAwaits lost := by
  have queued : after.queuedCommands = w.queuedCommands := congrArg List.flatten kept.2
  rw [QueueAwaits, queued]
  exact ⟨housed, kept.1, awaits.distinct⟩

theorem queueAwaits_of_empty (empty : w.queuedCommands = []) :
    w.QueueAwaits lost ↔ w.Awaits lost := by
  rw [QueueAwaits, empty]
  exact Iff.rfl

theorem Accounted.writeCell {pending : Set EntityId} (accounted : w.Accounted pending) (ptr : Ptr)
    (ty : TypeId) (row : Nat) (value : Value) :
    (w.writeCell ptr ty row value).Accounted pending ∧
      (w.writeCell ptr ty row value).commands = w.commands := by
  rw [World.writeCell]
  cases found : w.tables ptr with
  | none => exact ⟨accounted, rfl⟩
  | some table =>
      exact ⟨accounted.write found (EntityTable.writeCell_listed table ty row value), rfl⟩

/-- An id that is handed out early waits, and its `Init` command is queued. -/
theorem QueueAwaits.commandId (awaits : w.QueueAwaits lost)
    {result : Except HandleTableError EntityId}
    (asked : w.commandId systemIdx = some (result, after)) : after.QueueAwaits lost := by
  simp only [World.commandId, Option.bind_eq_bind, Option.bind_eq_some_iff] at asked
  rcases asked with ⟨commands, last, asked⟩
  cases action : commands.action with
  | Insert =>
      simp only [action, Option.bind_eq_some_iff] at asked
      rcases asked with ⟨⟨outcome, entityIds⟩, allocated, asked⟩
      have evolves : Evolves false w (w.setIndex entityIds) :=
        evolves_setIndex (EntityIndex.allocate_fewer allocated)
      have housed := evolves.housed awaits.housed
      cases outcome with
      | error error =>
          cases asked
          rcases awaits.accounted.index.allocateFull allocated with ⟨index, places⟩
          exact ⟨housed, awaits.accounted.setIndex index places, awaits.distinct⟩
      | ok id =>
          simp only [Option.bind_eq_some_iff, Option.pure_def, Option.some.injEq,
            Prod.mk.injEq] at asked
          rcases asked with ⟨_, set, _, rfl⟩
          rcases awaits.accounted.index.allocate allocated with ⟨index, fresh, places, _⟩
          have waiting : insert id {other | other ∈ earlyIds w.queuedCommands ++ lost} =
              {other | other ∈ id :: (earlyIds w.queuedCommands ++ lost)} := by
            ext other
            rw [Set.mem_insert_iff, Set.mem_ofPred_eq, Set.mem_ofPred_eq, List.mem_cons]
          have handed : (w.setIndex entityIds).Awaits
              (id :: (earlyIds w.queuedCommands ++ lost)) :=
            ⟨housed, awaits.accounted.setIndex (waiting ▸ index) places,
              List.nodup_cons.mpr ⟨fresh, awaits.distinct⟩⟩
          have queued := earlyIds_setLastCommand [id]
            ((lastCommand_setIndex w entityIds systemIdx).trans last) set
            (by simp [action, EntityAction.earlyIds])
          exact ((setLastCommand_same set).awaits handed).perm (queued.append_right lost).symm
  | _ =>
      simp only [action, Option.pure_def, Option.some.injEq, Prod.mk.injEq] at asked
      exact asked.2 ▸ awaits

theorem QueueAwaits.pushCommand (awaits : w.QueueAwaits lost) {command : CommandPayload Value}
    (fresh : command.isFresh = true) (pushed : w.pushCommand systemIdx command = some after) :
    after.QueueAwaits lost := by
  have queued := earlyIds_pushCommand fresh pushed
  rcases Option.bind_eq_some_iff.mp pushed with ⟨buffer, _, same⟩
  cases same
  have same : SameTables w (w.setBuffer systemIdx (buffer ++ [command])) :=
    ⟨rfl, rfl, rfl, rfl, rfl⟩
  exact (same.awaits awaits).perm (queued.append_right lost).symm

theorem QueueAwaits.extendCommand (awaits : w.QueueAwaits lost)
    {command : ComponentCommand Value}
    (extended : w.extendCommand systemIdx command = some after) : after.QueueAwaits lost := by
  have queued := earlyIds_extendCommand extended
  rcases Option.bind_eq_some_iff.mp extended with ⟨commands, _, set⟩
  exact ((setLastCommand_same set).awaits awaits).perm (queued.append_right lost).symm

theorem QueueAwaits.resizeCommands (awaits : w.QueueAwaits lost) (len : Nat) :
    (w.resizeCommands len).QueueAwaits lost := by
  rw [QueueAwaits, earlyIds_resizeCommands]
  exact awaits.congr { awaits.housed with } rfl rfl

end World

end Buffers

section Steps

variable {Value : Type} [UnitTypeId] [BuiltinValues Value] {w after : World Value}
  {lost : List EntityId}

namespace World

theorem commands_new {initialCapacity : Nat} (created : World.new initialCapacity = some w) :
    w.commands = [] := by
  simp only [World.new, Option.bind_eq_bind, Option.bind_eq_some_iff, Option.pure_def,
    Option.some.injEq] at created
  rcases created with ⟨entityIds, _, rfl⟩
  rfl

theorem accounted_new {initialCapacity : Nat} (created : World.new initialCapacity = some w) :
    w.Accounted ∅ where
  index := by
    simp only [World.new, Option.bind_eq_bind, Option.bind_eq_some_iff, Option.pure_def,
      Option.some.injEq] at created
    rcases created with ⟨entityIds, createdIds, rfl⟩
    exact EntityIndex.accounts_new createdIds
  counted ptr table found := ((new_spec created).1.aligned ptr table found).entities
  linked := (new_spec created).1.linked

omit [UnitTypeId] [BuiltinValues Value] in
theorem queueAwaits_nil (housed : w.Housed) (accounted : w.Accounted ∅)
    (commands : w.commands = []) : w.QueueAwaits [] := by
  rw [queueAwaits_of_empty (congrArg List.flatten commands), awaits_nil_iff]
  exact ⟨housed, accounted⟩

/-- After a batch those wait whose `Init` was not reached, whether it failed or not. -/
theorem QueueAwaits.applySorted (awaits : w.QueueAwaits lost)
    {batch : List (CommandPayload Value)} {result : WorldResult Unit}
    (sorts : SortCommands id w.queuedCommands batch)
    (tidily : along CommandPayload.apply CommandPayload.tidy batch w.drained = true)
    (ran : w.applySorted batch = some (result, after)) :
    ∃ left, after.QueueAwaits (left ++ lost) ∧ after.queuedCommands = [] ∧
      (reachesInits batch w.drained = true → left = []) := by
  have queued := (sortCommands_iff.mp sorts).perm.flatMap_right CommandPayload.earlyIds
  have drained : w.drained.Awaits (earlyIds batch ++ lost) :=
    (awaits.congr awaits.housed.drained rfl rfl).perm (queued.append_right lost).symm
  rcases applySorted_cases ran with ⟨applied, applying, ending⟩
  rcases applyBatch_awaits drained tidily applying with ⟨left, done, commands, reach⟩
  have empty : applied.queuedCommands = [] :=
    (congrArg List.flatten commands).trans (queuedCommands_drained w)
  rcases ending with ⟨_, moved⟩ | ⟨_, rfl⟩
  · rcases done.housed.moveArchetypes with ⟨_, moving, housedAfter, _⟩
    cases moved.symm.trans moving
    have emptyAfter := (congrArg List.flatten (commands_moveArchetypes moved)).trans empty
    refine ⟨left, (queueAwaits_of_empty emptyAfter).mpr ?_, emptyAfter, reach⟩
    exact ⟨housedAfter, done.accounted.moveArchetypes done.housed moved, done.distinct⟩
  · exact ⟨left, (queueAwaits_of_empty empty).mpr done, empty, reach⟩

end World

/-- Nothing waits in a loaded world. -/
theorem WorldPersister.load_accounted {Version : Type} [TypeName] [VersionReq Version]
    {persister : WorldPersister Version} {payload : Payload Version Value}
    (loaded : persister.load payload = some (.ok w)) :
    w.Unparked ∧ w.Accounted ∅ ∧ w.commands = [] := by
  let Holds (w : World Value) := w.Unparked ∧ w.Accounted ∅ ∧ w.commands = []
  have keeps : LoadKeeps Holds :=
    { insertId := by
        intro w after id holds inserted
        rcases holds.2.1.insertId inserted with ⟨accounted, commands⟩
        exact ⟨holds.1.evolves (World.insertId_evolves inserted), accounted,
          commands.trans holds.2.2⟩
      setComponent := by
        intro w after id ty value holds set
        exact ⟨holds.1.setBundle set,
          holds.2.1.setBundle holds.1.toHoused.tables_nextTable set,
          (World.commands_setBundle set).trans holds.2.2⟩
      insertResource := fun w ty value holds =>
        ⟨{ holds.1 with }, holds.2.1.congr rfl rfl, holds.2.2⟩ }
  exact keeps.load (fun _ _ created => ⟨World.unparked_new created, World.accounted_new created,
    World.commands_new created⟩) loaded

/-- A call leaves those waiting whose `Init` it has not reached. -/
theorem Call.run_awaits (awaits : w.QueueAwaits lost) {call : Call Value}
    (admissible : call.Admissible w) (tidily : call.Tidy w) (ran : call.run w = some after) :
    ∃ left, after.QueueAwaits (left ++ lost) ∧ (call.ReachesInits w → left = []) := by
  have housed := awaits.housed
  have accounted := awaits.accounted
  cases call with
  | insertEntity =>
      rcases Option.map_eq_some_iff.mp ran with ⟨⟨id, _⟩, inserted, rfl⟩
      exact ⟨[], awaits.keep ((World.insertEntity_evolves inserted).housed housed)
        (accounted.insertEntity inserted), fun _ => rfl⟩
  | deleteEntity id =>
      rcases Option.map_eq_some_iff.mp ran with ⟨⟨result, _⟩, deleted, rfl⟩
      exact ⟨[], awaits.keep ((World.deleteEntity_evolves deleted).housed housed)
        (accounted.deleteEntity deleted), fun _ => rfl⟩
  | insertId id =>
      rcases Option.map_eq_some_iff.mp ran with ⟨⟨result, _⟩, inserted, rfl⟩
      exact ⟨[], awaits.keep ((World.insertId_evolves inserted).housed housed)
        (accounted.insertId inserted), fun _ => rfl⟩
  | reserveEntities additional =>
      exact ⟨[], awaits.keep ((World.reserveEntities_evolves ran).housed housed)
        (accounted.reserveEntities ran), fun _ => rfl⟩
  | mergeEntities lhs rhs =>
      rcases Option.map_eq_some_iff.mp ran with ⟨⟨result, _⟩, merged, rfl⟩
      exact ⟨[], awaits.keep (housed.mergeEntities tidily.1 merged).1
        (accounted.mergeEntities housed.tables_nextTable tidily.2 merged), fun _ => rfl⟩
  | insertResource ty value =>
      cases ran
      exact ⟨[], awaits.keep { housed with } ⟨accounted.congr rfl rfl, rfl⟩, fun _ => rfl⟩
  | removeResource ty =>
      cases ran
      exact ⟨[], awaits.keep { housed with } ⟨accounted.congr rfl rfl, rfl⟩, fun _ => rfl⟩
  | writeCell ptr ty row value =>
      cases ran
      exact ⟨[], awaits.keep ((World.writeCell_evolves w ptr ty row value).housed housed)
        (accounted.writeCell ptr ty row value), fun _ => rfl⟩
  | resizeCommands len =>
      cases ran
      exact ⟨[], awaits.resizeCommands len, fun _ => rfl⟩
  | pushCommand systemIdx command =>
      exact ⟨[], awaits.pushCommand admissible ran, fun _ => rfl⟩
  | extendCommand systemIdx command =>
      exact ⟨[], awaits.extendCommand ran, fun _ => rfl⟩
  | commandId systemIdx =>
      rcases Option.map_eq_some_iff.mp ran with ⟨⟨result, _⟩, asked, rfl⟩
      exact ⟨[], awaits.commandId asked, fun _ => rfl⟩
  | applyCommands batch =>
      rcases Option.map_eq_some_iff.mp ran with ⟨⟨result, _⟩, sorted, rfl⟩
      rcases awaits.applySorted admissible tidily sorted with ⟨left, awaitsAfter, _, reach⟩
      exact ⟨left, awaitsAfter, reach⟩
  | vacuum =>
      cases ran
      exact ⟨[], awaits.keep (housed.vacuum tidily).1 ⟨accounted.vacuum housed tidily, rfl⟩,
        fun _ => rfl⟩
  | clone =>
      -- The copy has no buffers, so nobody reaches the queued commands any more.
      rcases accounted.clone housed.toOwned tidily ran with ⟨accountedAfter, commands⟩
      refine ⟨earlyIds w.queuedCommands, ?_, id⟩
      rw [World.queueAwaits_of_empty (congrArg List.flatten commands)]
      exact ⟨(housed.clone tidily ran).1, accountedAfter, awaits.distinct⟩

theorem Reachable.queueAwaits (reachable : Reachable (fun w call => call.Accounts w) w) :
    w.QueueAwaits [] := by
  induction reachable with
  | new created =>
      exact World.queueAwaits_nil (World.unparked_new created).toHoused
        (World.accounted_new created) (World.commands_new created)
  | load loaded =>
      rcases WorldPersister.load_accounted loaded with ⟨unparked, accounted, commands⟩
      exact World.queueAwaits_nil unparked.toHoused accounted commands
  | call reachable admissible accounts ran induction =>
      rcases Call.accounts_iff.mp accounts with ⟨tidily, reaches⟩
      rcases Call.run_awaits induction admissible tidily ran with ⟨left, awaits, reach⟩
      rwa [reach reaches] at awaits

/-- In such a run, whatever `apply_commands` returns, no slot is lost. -/
theorem Reachable.applyCommands_sharesSlots
    (reachable : Reachable (fun w call => call.Accounts w) w)
    {batch : List (CommandPayload Value)} (sorts : SortCommands id w.queuedCommands batch)
    (accounts : (Call.applyCommands batch).Accounts w) {result : WorldResult Unit}
    (ran : w.applySorted batch = some (result, after)) :
    after.SlotsShared ∧ after.numEntities = after.numRows := by
  rcases reachable.queueAwaits.applySorted sorts accounts.1 ran with
    ⟨left, awaits, empty, reach⟩
  rw [reach accounts.2, World.queueAwaits_of_empty empty, List.nil_append,
    World.awaits_nil_iff] at awaits
  exact ⟨awaits.2.slotsShared, awaits.2.numEntities_eq awaits.1.toOwned⟩

theorem Call.accounts_of_queues (w : World Value) (call : Call Value)
    (queues : call.queues = true) : call.Accounts w := by
  cases call with
  | mergeEntities lhs rhs => cases queues
  | applyCommands batch => cases queues
  | vacuum => cases queues
  | clone => cases queues
  | _ => trivial

end Steps

section Example

open Sample

/-- A command for an entity that is not there. -/
def fetchDead : Call Nat := .pushCommand 0 (.Entity ⟨.Fetch (EntityId.new 3 7), []⟩)

def insertEarly : List (Call Nat) := [.pushCommand 0 (.Entity ⟨.Insert, []⟩), .commandId 0]

/-- The batch fails behind the `Init` command. -/
theorem Reachable.applyCommands_sharesSlots_sample :
    ∃ (w after : World Nat) (batch : List (CommandPayload Nat)),
      earlyIds batch = [EntityId.new 0 0] ∧
      w.applySorted batch = some (.error .EntityNotFound, after) ∧
      after.SlotsShared ∧ after.numEntities = after.numRows := by
  obtain ⟨start, w, after, batch, created, queued, sorted, early, tidy, reached, ran⟩ :
      ∃ (start w after : World Nat) (batch : List (CommandPayload Nat)),
        World.new 4 = some start ∧
        (.resizeCommands 1 :: insertEarly ++ [fetchDead]).foldlM Call.run start = some w ∧
        sortCommands id w.queuedCommands = batch ∧ earlyIds batch = [EntityId.new 0 0] ∧
        along CommandPayload.apply CommandPayload.tidy batch w.drained = true ∧
        reachesInits batch w.drained = true ∧
        w.applySorted batch = some (.error .EntityNotFound, after) :=
    ⟨_, _, _, _, rfl, rfl, rfl, rfl, rfl, rfl, rfl⟩
  have reachable : Reachable (fun w call => call.Accounts w) w :=
    Reachable.queue Call.accounts_of_queues (.new created) rfl queued
  have sorts : SortCommands id w.queuedCommands batch := sorted ▸ sortCommands_sorts id _
  have shared := reachable.applyCommands_sharesSlots sorts ⟨tidy, reached⟩ ran
  exact ⟨w, after, batch, early, ran, shared⟩

/-- It fails in front of it: the slot stays allocated, and no entity has it. -/
theorem applyCommands_losesSlot :
    ∃ (w after : World Nat) (batch : List (CommandPayload Nat)),
      Reachable (fun _ _ => True) w ∧ SortCommands id w.queuedCommands batch ∧
      earlyIds batch = [EntityId.new 0 0] ∧
      w.applySorted batch = some (.error .EntityNotFound, after) ∧
      ¬after.SlotsShared ∧ after.numEntities = 1 ∧ after.numRows = 0 := by
  obtain ⟨start, w, after, batch, created, queued, sorted, early, ran, cap, entities, rows,
      nobody⟩ :
      ∃ (start w after : World Nat) (batch : List (CommandPayload Nat)),
        World.new 4 = some start ∧
        (.resizeCommands 1 :: fetchDead :: insertEarly).foldlM Call.run start = some w ∧
        sortCommands id w.queuedCommands = batch ∧ earlyIds batch = [EntityId.new 0 0] ∧
        w.applySorted batch = some (.error .EntityNotFound, after) ∧ after.entityIds.cap = 4 ∧
        after.numEntities = 1 ∧ after.numRows = 0 ∧
        ∀ slot < 4, after.entityIds.arch slot = none :=
    ⟨_, _, _, _, rfl, rfl, rfl, rfl, rfl, rfl, rfl, rfl, by decide⟩
  have reachable : Reachable (fun _ _ => True) w :=
    Reachable.queue (fun _ _ _ => trivial) (.new created) rfl queued
  refine ⟨w, after, batch, reachable, sorted ▸ sortCommands_sorts id _, early, ran, ?_, entities,
    rows⟩
  rintro ⟨slots, sound, shared, _⟩
  -- Nobody has a row, so all four slots would be free.
  have all : List.range 4 ⊆ slots := by
    intro slot member
    have inRange : slot < 4 := List.mem_range.mp member
    rcases shared slot (cap ▸ inRange) with listed | ⟨id, rfl, ptr, row, _, live, _⟩
    · exact listed
    · have pointer := nobody id.index inRange
      rw [EntityIndex.arch_of_read live] at pointer
      cases pointer
  have size := (List.nodup_range.subperm all).length_le
  have counted := sound.counted
  rw [World.numEntities, EntityIndex.len] at entities
  rw [List.length_range] at size
  omega

end Example

end Cecs

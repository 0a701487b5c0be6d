import Cecs.Calls
import Cecs.Serde.Entries
import Cecs.Serde.Housed

/-! # Tables over whole runs

Under which conditions on the calls of a run no entity loses its table. -/

namespace Cecs

open Foundation

section Conditions

variable {Value : Type} [UnitTypeId] [BuiltinValues Value]

/-- No table is put in the place of one with rows, and none with rows is dropped or
left out of a copy. -/
def Call.Safe (w : World Value) : Call Value → Prop
  | .mergeEntities lhs rhs => w.mergeSafe lhs rhs = true
  | .applyCommands batch => along CommandPayload.apply CommandPayload.safe batch w.drained = true
  | .vacuum => w.ParkedEmpty
  | .clone => w.AllListed
  | _ => True

end Conditions

section Steps

variable {Value : Type} {w after : World Value}

namespace World

/-- The same index and tables; resources and buffers may differ. -/
structure SameTables (w after : World Value) : Prop where
  entityIds : after.entityIds = w.entityIds
  tables : after.tables = w.tables
  nextTable : after.nextTable = w.nextTable
  archetypes : after.archetypes = w.archetypes
  staging : after.archetypesStaging = w.archetypesStaging

theorem SameTables.housed (same : SameTables w after) (housed : w.Housed) : after.Housed := by
  rcases w with ⟨_, _, _, _, _, _, _⟩
  rcases after with ⟨_, _, _, _, _, _, _⟩
  rcases same with ⟨rfl, rfl, rfl, rfl, rfl⟩
  exact { housed with }

theorem SameTables.parkedEmpty (same : SameTables w after) (empty : w.ParkedEmpty) :
    after.ParkedEmpty := by
  intro key ptr parked
  rw [same.staging] at parked
  rw [holdsRows_congr (congrFun same.tables ptr)]
  exact empty key ptr parked

theorem setLastCommand_same {systemIdx : Nat} {commands : EntityCommands Value}
    (set : w.setLastCommand systemIdx commands = some after) : SameTables w after := by
  simp only [setLastCommand, Option.bind_eq_bind, Option.bind_eq_some_iff, Option.pure_def,
    Option.some.injEq] at set
  rcases set with ⟨_, _, rfl⟩
  exact ⟨rfl, rfl, rfl, rfl, rfl⟩

/-- An operation that does not look at parked tables, up to resources and buffers. -/
def Plain (w after : World Value) : Prop :=
  ∃ base, Evolves false w base ∧ SameTables base after

theorem Evolves.plain (evolves : Evolves false w after) : Plain w after :=
  ⟨after, evolves, rfl, rfl, rfl, rfl, rfl⟩

theorem SameTables.plain (same : SameTables w after) : Plain w after :=
  ⟨w, .refl w, same⟩

theorem commandId_plain {systemIdx : Nat} {result : Except HandleTableError EntityId}
    (asked : w.commandId systemIdx = some (result, after)) : Plain w after := by
  simp only [commandId, Option.bind_eq_bind, Option.bind_eq_some_iff] at asked
  rcases asked with ⟨commands, _, asked⟩
  cases action : commands.action with
  | Insert =>
      simp only [action, Option.bind_eq_some_iff] at asked
      rcases asked with ⟨⟨outcome, entityIds⟩, allocated, asked⟩
      have evolves : Evolves false w (w.setIndex entityIds) :=
        evolves_setIndex (EntityIndex.allocate_fewer allocated)
      cases outcome with
      | error error =>
          cases asked
          exact evolves.plain
      | ok id =>
          simp only [Option.bind_eq_some_iff, Option.pure_def, Option.some.injEq,
            Prod.mk.injEq] at asked
          rcases asked with ⟨_, set, _, rfl⟩
          exact ⟨_, evolves, setLastCommand_same set⟩
  | _ =>
      simp only [action, Option.pure_def, Option.some.injEq, Prod.mk.injEq] at asked
      exact asked.2 ▸ (Evolves.refl w).plain

end World

open World (Plain SameTables)

variable [UnitTypeId] [BuiltinValues Value]

/-- The calls that need a condition, and the others. -/
theorem Call.run_cases {call : Call Value} (ran : call.run w = some after) :
    (∃ lhs rhs, call = .mergeEntities lhs rhs) ∨ (∃ batch, call = .applyCommands batch) ∨
      call = .vacuum ∨ call = .clone ∨ Plain w after := by
  cases call with
  | mergeEntities lhs rhs => exact Or.inl ⟨lhs, rhs, rfl⟩
  | applyCommands batch => exact Or.inr (Or.inl ⟨batch, rfl⟩)
  | vacuum => exact Or.inr (Or.inr (Or.inl rfl))
  | clone => exact Or.inr (Or.inr (Or.inr (Or.inl rfl)))
  | insertEntity =>
      rcases Option.map_eq_some_iff.mp ran with ⟨⟨id, _⟩, inserted, rfl⟩
      exact Or.inr (Or.inr (Or.inr (Or.inr (World.insertEntity_evolves inserted).plain)))
  | deleteEntity id =>
      rcases Option.map_eq_some_iff.mp ran with ⟨⟨result, _⟩, deleted, rfl⟩
      exact Or.inr (Or.inr (Or.inr (Or.inr (World.deleteEntity_evolves deleted).plain)))
  | insertId id =>
      rcases Option.map_eq_some_iff.mp ran with ⟨⟨result, _⟩, inserted, rfl⟩
      exact Or.inr (Or.inr (Or.inr (Or.inr (World.insertId_evolves inserted).plain)))
  | reserveEntities additional =>
      exact Or.inr (Or.inr (Or.inr (Or.inr (World.reserveEntities_evolves ran).plain)))
  | writeCell ptr ty row value =>
      cases ran
      exact Or.inr (Or.inr (Or.inr (Or.inr (World.writeCell_evolves w ptr ty row value).plain)))
  | commandId systemIdx =>
      rcases Option.map_eq_some_iff.mp ran with ⟨⟨result, _⟩, asked, rfl⟩
      exact Or.inr (Or.inr (Or.inr (Or.inr (World.commandId_plain asked))))
  | extendCommand systemIdx command =>
      rcases Option.bind_eq_some_iff.mp ran with ⟨commands, _, set⟩
      exact Or.inr (Or.inr (Or.inr (Or.inr (World.setLastCommand_same set).plain)))
  | pushCommand systemIdx command =>
      rcases Option.bind_eq_some_iff.mp ran with ⟨buffer, _, pushed⟩
      cases pushed
      exact Or.inr (Or.inr (Or.inr (Or.inr (SameTables.plain ⟨rfl, rfl, rfl, rfl, rfl⟩))))
  | insertResource ty value =>
      cases ran
      exact Or.inr (Or.inr (Or.inr (Or.inr (SameTables.plain ⟨rfl, rfl, rfl, rfl, rfl⟩))))
  | removeResource ty =>
      cases ran
      exact Or.inr (Or.inr (Or.inr (Or.inr (SameTables.plain ⟨rfl, rfl, rfl, rfl, rfl⟩))))
  | resizeCommands len =>
      cases ran
      exact Or.inr (Or.inr (Or.inr (Or.inr (SameTables.plain ⟨rfl, rfl, rfl, rfl, rfl⟩))))

end Steps

section Runs

variable {Value : Type} [UnitTypeId] [BuiltinValues Value] {w after : World Value}

open World (Housed Plain Keeps)

omit [UnitTypeId] [BuiltinValues Value] in
theorem World.Plain.housed (plain : Plain w after) (housed : w.Housed) : after.Housed := by
  rcases plain with ⟨base, evolves, same⟩
  exact same.housed (evolves.housed housed)

omit [UnitTypeId] [BuiltinValues Value] in
theorem World.Plain.parkedEmpty (plain : Plain w after) (housed : w.Housed)
    (empty : w.ParkedEmpty) : after.ParkedEmpty := by
  rcases plain with ⟨base, evolves, same⟩
  exact same.parkedEmpty (evolves.parkedEmpty housed.toOwned empty)

omit [UnitTypeId] [BuiltinValues Value] in
theorem World.Housed.drained (housed : w.Housed) : w.drained.Housed := { housed with }

/-- `apply_commands` ends with the moves of tables, or with the error of a command. -/
theorem World.applySorted_cases {batch : List (CommandPayload Value)}
    {result : WorldResult Unit} (ran : w.applySorted batch = some (result, after)) :
    ∃ applied, applyBatch batch w.drained = some (result, applied) ∧
      ((result = .ok () ∧ applied.moveArchetypes = some after) ∨
        (∃ error, result = .error error) ∧ after = applied) := by
  simp only [World.applySorted, Option.bind_eq_bind, Option.bind_eq_some_iff] at ran
  rcases ran with ⟨⟨outcome, applied⟩, applying, ran⟩
  cases outcome with
  | error error =>
      cases ran
      exact ⟨_, applying, Or.inr ⟨⟨error, rfl⟩, rfl⟩⟩
  | ok done =>
      simp only [Option.bind_eq_some_iff, Option.pure_def, Option.some.injEq,
        Prod.mk.injEq] at ran
      rcases ran with ⟨moved, moving, rfl, rfl⟩
      exact ⟨applied, applying, Or.inl ⟨rfl, moving⟩⟩

theorem World.Housed.applyBatch (housed : w.Housed) {batch : List (CommandPayload Value)}
    {result : WorldResult Unit}
    (safe : along CommandPayload.apply CommandPayload.safe batch w = true)
    (applied : Cecs.applyBatch batch w = some (result, after)) : after.Housed := by
  rcases forEach_invariant World.Housed World.Housed
      (fun _ _ _ housed safe step => CommandPayload.apply_housed housed safe step)
      (fun _ _ _ _ housed safe step => CommandPayload.apply_housed housed safe step)
      housed safe applied with
    ⟨_, housedAfter⟩ | ⟨_, housedAfter⟩
  · exact housedAfter
  · exact housedAfter

theorem Call.run_housed (housed : w.Housed) {call : Call Value} (safe : call.Safe w)
    (ran : call.run w = some after) : after.Housed := by
  rcases Call.run_cases ran with
    ⟨lhs, rhs, rfl⟩ | ⟨batch, rfl⟩ | rfl | rfl | plain
  · rcases Option.map_eq_some_iff.mp ran with ⟨⟨result, _⟩, merged, rfl⟩
    exact (housed.mergeEntities safe merged).1
  · rcases Option.map_eq_some_iff.mp ran with ⟨⟨result, _⟩, sorted, rfl⟩
    rcases World.applySorted_cases sorted with ⟨applied, applying, ⟨_, moved⟩ | ⟨_, rfl⟩⟩
    · rcases (housed.drained.applyBatch safe applying).moveArchetypes with
        ⟨other, moving, housedAfter, _⟩
      rw [moved, Option.some.injEq] at moving
      exact moving ▸ housedAfter
    · exact housed.drained.applyBatch safe applying
  · cases ran
    exact (housed.vacuum safe).1
  · exact (housed.clone safe ran).1
  · exact plain.housed housed

/-- In a run of safe calls every reachable world is housed. -/
theorem Reachable.housed (reachable : Reachable (fun w call => call.Safe w) w) : w.Housed := by
  induction reachable with
  | new created => exact (World.unparked_new created).toHoused
  | load loaded => exact (WorldPersister.load_unparked loaded).toHoused
  | call reachable admissible safe ran induction => exact Call.run_housed induction safe ran

/-- The entity has its place and the same table, which one of the maps owns. -/
def KeepsEntity (w after : World Value) (id : EntityId) : Prop :=
  ∀ ptr index, w.entityIds.read id = .ok (ptr, index) →
    after.entityIds.read id = .ok (ptr, index) ∧
    (∃ table, w.tables ptr = some table ∧ after.tables ptr = some table ∧
      (after.archetypes[table.ty]? = some ptr ∨ after.archetypesStaging[table.ty]? = some ptr)) ∧
    ∀ ty, after.getComponent id ty = w.getComponent id ty

omit [UnitTypeId] [BuiltinValues Value] in
theorem World.Keeps.entity (keeps : Keeps w after) (housed : w.Housed)
    (housedAfter : after.Housed) (id : EntityId) : KeepsEntity w after id := by
  intro ptr index live
  rcases housed.live live with ⟨table, found, positive, _⟩
  have kept := keeps.tables ptr table found positive
  have liveAfter : after.entityIds.read id = .ok (ptr, index) := by
    rw [keeps.entityIds, live]
  refine ⟨liveAfter, ⟨table, found, kept, housedAfter.owner ptr table kept⟩, ?_⟩
  intro ty
  simp [World.getComponent, live, liveAfter, found, kept]

/-- In a run of safe calls, the moves of tables at the end of `apply_commands` succeed
and lose no table with rows, so every live entity keeps its components. -/
theorem Reachable.applyCommands_keeps (reachable : Reachable (fun w call => call.Safe w) w)
    {batch : List (CommandPayload Value)} (sorted : SortCommands id w.queuedCommands batch)
    (safe : along CommandPayload.apply CommandPayload.safe batch w.drained = true)
    {applied : World Value} (applying : applyBatch batch w.drained = some (.ok (), applied)) :
    ∃ after, w.ApplyCommands (.ok ()) after ∧ (∀ id, KeepsEntity applied after id) ∧
      ∀ ptr table, applied.tables ptr = some table → 0 < table.rows →
        after.tables ptr = some table := by
  have housed := reachable.housed.drained.applyBatch safe applying
  rcases housed.moveArchetypes with ⟨after, moved, housedAfter, _, keeps⟩
  refine ⟨after, ⟨batch, sorted, ?_⟩, keeps.entity housed housedAfter, keeps.tables⟩
  rw [World.applySorted, applying]
  simp [moved]

theorem Call.safe_of_queues (w : World Value) (call : Call Value)
    (queues : call.queues = true) : call.Safe w := by
  cases call with
  | mergeEntities lhs rhs => cases queues
  | applyCommands batch => cases queues
  | vacuum => cases queues
  | clone => cases queues
  | _ => trivial

end Runs

section Example

open Sample

/-- An entity with the component `7` comes and goes, so its table is parked. Then there
is one entity with `7` and `8`, and one without components. -/
def parkedTable : List (List (Call Nat)) :=
  [[.resizeCommands 1, .pushCommand 0 (.Entity ⟨.Insert, []⟩),
      .extendCommand 0 (.Insert [(7#128, 1)])],
    [.pushCommand 0 (.Entity ⟨.Delete (EntityId.new 0 0), []⟩)],
    [.pushCommand 0 (.Entity ⟨.Insert, []⟩),
      .extendCommand 0 (.Insert [(7#128, 1), (8#128, 2)]),
      .pushCommand 0 (.Entity ⟨.Insert, []⟩)]]

def afterTicks (ticks : List (List (Call Nat))) : Option (World Nat) :=
  (World.new 4).bind (ticks.foldlM fun w calls => (tick w calls).map Prod.snd)

theorem reachable_afterTicks {ticks : List (List (Call Nat))} {w : World Nat}
    (queueing : ticks.all (fun calls => calls.all Call.queues) = true)
    (ran : afterTicks ticks = some w) : Reachable (fun _ _ => True) w := by
  rcases Option.bind_eq_some_iff.mp ran with ⟨start, created, ran⟩
  exact Reachable.ticks (.new created) queueing ran

/-- The first command moves an entity into the parked table, the second makes a table
of the same type for another one: that table is dropped by the promotion. -/
def moveBoth : List (Call Nat) :=
  [.pushCommand 0 (.Entity ⟨.Fetch (EntityId.new 1 0), []⟩),
    .extendCommand 0 (.Insert [(7#128, 5)]),
    .pushCommand 0 (.Entity ⟨.Fetch (EntityId.new 0 1), []⟩),
    .extendCommand 0 (.Delete 8#128)]

theorem Reachable.applyCommands_keeps_sample :
    ∃ (w applied after : World Nat) (batch : List (CommandPayload Nat)),
      applyBatch batch w.drained = some (.ok (), applied) ∧
      applied.getComponent (EntityId.new 0 0) 7#128 = some 1 ∧
      w.ApplyCommands (.ok ()) after ∧ (∀ id, KeepsEntity applied after id) ∧
      ∀ ptr table, applied.tables ptr = some table → 0 < table.rows →
        after.tables ptr = some table := by
  obtain ⟨start, w, applied, batch, created, queued, sorted, safe, applying, component⟩ :
      ∃ (start w applied : World Nat) (batch : List (CommandPayload Nat)),
        World.new 4 = some start ∧
        ([.resizeCommands 1, .pushCommand 0 (.Entity ⟨.Insert, []⟩),
          .extendCommand 0 (.Insert [(7#128, 1)])] : List (Call Nat)).foldlM Call.run start =
            some w ∧
        sortCommands id w.queuedCommands = batch ∧
        along CommandPayload.apply CommandPayload.safe batch w.drained = true ∧
        applyBatch batch w.drained = some (.ok (), applied) ∧
        applied.getComponent (EntityId.new 0 0) 7#128 = some 1 :=
    ⟨_, _, _, _, rfl, rfl, rfl, rfl, rfl, rfl⟩
  have reachable : Reachable (fun w call => call.Safe w) w :=
    Reachable.queue Call.safe_of_queues (.new created) rfl queued
  have sorts : SortCommands id w.queuedCommands batch := sorted ▸ sortCommands_sorts id _
  rcases reachable.applyCommands_keeps sorts safe applying with ⟨after, ran, keeps, tables⟩
  exact ⟨w, applied, after, batch, applying, component, ran, keeps, tables⟩

/-- All commands succeed, but a live entity is left with a pointer to a dropped table. -/
theorem applyCommands_dropsTable :
    ∃ (w applied after : World Nat) (batch : List (CommandPayload Nat)) (ptr : Ptr),
      Reachable (fun _ _ => True) w ∧ SortCommands id w.queuedCommands batch ∧
      applyBatch batch w.drained = some (.ok (), applied) ∧
      w.applySorted batch = some (.ok (), after) ∧
      applied.getComponent (EntityId.new 0 1) 7#128 = some 1 ∧
      after.entityIds.read (EntityId.new 0 1) = .ok (ptr, 0) ∧
      after.tables ptr = none ∧ ¬KeepsEntity applied after (EntityId.new 0 1) := by
  obtain ⟨start, w, applied, after, made, queued, applying, sorted, component, live, liveAfter,
      dropped⟩ :
      ∃ start w applied after : World Nat, afterTicks parkedTable = some start ∧
        moveBoth.foldlM Call.run start = some w ∧
        applyBatch (sortCommands id w.queuedCommands) w.drained = some (.ok (), applied) ∧
        w.applySorted (sortCommands id w.queuedCommands) = some (.ok (), after) ∧
        applied.getComponent (EntityId.new 0 1) 7#128 = some 1 ∧
        applied.entityIds.read (EntityId.new 0 1) = .ok (3, 0) ∧
        after.entityIds.read (EntityId.new 0 1) = .ok (3, 0) ∧ after.tables 3 = none :=
    ⟨_, _, _, _, rfl, rfl, rfl, rfl, rfl, rfl, rfl, rfl⟩
  have reachable := (reachable_afterTicks rfl made).queue (fun _ _ _ => trivial) rfl queued
  refine ⟨w, applied, after, _, 3, reachable, sortCommands_sorts id _, applying, sorted,
    component, liveAfter, dropped, ?_⟩
  intro keeps
  rcases (keeps 3 0 live).2.1 with ⟨table, _, found, _⟩
  rw [dropped] at found
  cases found

end Example

end Cecs

import Cecs.Commands.Effects
import Cecs.World.Occupancy

/-! # Early ids in a batch

`EntityCommands::id` allocates an id and leaves an `Init` command for it in the
buffer. The id waits for its row until the command is reached, so a batch that fails
leaves the ids of its remaining `Init` commands without one. -/

namespace Cecs

open Foundation

section Ids

variable {Value : Type}

/-- The ids that were handed out before the command is applied. -/
def EntityAction.earlyIds : EntityAction → List EntityId
  | .Init id => [id]
  | _ => []

namespace CommandPayload

def earlyIds : CommandPayload Value → List EntityId
  | .Entity commands => commands.action.earlyIds
  | _ => []

end CommandPayload

def earlyIds (cmd : List (CommandPayload Value)) : List EntityId :=
  cmd.flatMap CommandPayload.earlyIds

end Ids

section Conditions

variable {Value : Type} [UnitTypeId]

namespace CommandPayload

/-- A merge is one of entities in different tables. -/
def mergesApart (w : Cecs.World Value) : CommandPayload Value → Bool
  | .Entity { action := .Merge src dst, .. } => w.mergeApart src dst
  | _ => true

variable [BuiltinValues Value]

/-- The command replaces no table with rows, and merges within no table. -/
def tidy (w : Cecs.World Value) (command : CommandPayload Value) : Bool :=
  command.safe w && command.mergesApart w

end CommandPayload

variable [BuiltinValues Value]

/-- Behind a command that is rejected there is no `Init`. -/
def reachesInits : List (CommandPayload Value) → World Value → Bool
  | [], _ => true
  | command :: rest, w => (!command.rejected w || (earlyIds rest).isEmpty) &&
      match command.apply w with
      | some (.ok (), after) => reachesInits rest after
      | _ => true

end Conditions

section Awaits

variable {Value : Type} {w after : Cecs.World Value} {ids : List EntityId} {id : EntityId}
  {result : WorldResult Unit}

namespace World

/-- Every table has its place, and the ids that wait for a row are those of `ids`. -/
structure Awaits (w : World Value) (ids : List EntityId) : Prop where
  housed : w.Housed
  accounted : w.Accounted {id | id ∈ ids}
  distinct : ids.Nodup

theorem Awaits.evolves {parked : Bool} (awaits : w.Awaits ids) (evolves : Evolves parked w after)
    (accounted : after.Accounted {id | id ∈ ids}) : after.Awaits ids :=
  ⟨evolves.housed awaits.housed, accounted, awaits.distinct⟩

theorem Awaits.congr (awaits : w.Awaits ids) (housed : after.Housed)
    (entityIds : after.entityIds = w.entityIds) (tables : after.tables = w.tables) :
    after.Awaits ids :=
  ⟨housed, awaits.accounted.congr entityIds tables, awaits.distinct⟩

theorem awaits_nil_iff : w.Awaits [] ↔ w.Housed ∧ w.Accounted ∅ := by
  have nobody : {id : EntityId | id ∈ ([] : List EntityId)} = ∅ := by
    ext id
    simp
  constructor
  · rintro ⟨housed, accounted, _⟩
    exact ⟨housed, nobody ▸ accounted⟩
  · rintro ⟨housed, accounted⟩
    exact ⟨housed, nobody.symm ▸ accounted, List.nodup_nil⟩

variable [UnitTypeId] [BuiltinValues Value]

/-- The first id that waits gets its row. -/
theorem Awaits.initId (awaits : w.Awaits (id :: ids)) (init : w.initId id = some after) :
    after.Awaits ids ∧ after.commands = w.commands := by
  rcases awaits.accounted.initId (List.mem_cons_self ..) init with ⟨accounted, commands⟩
  rcases List.nodup_cons.mp awaits.distinct with ⟨absent, distinct⟩
  have others : {other | other ∈ id :: ids} \ {id} = {other | other ∈ ids} := by
    ext other
    simp only [Set.mem_sdiff_singleton, Set.mem_ofPred_eq, List.mem_cons]
    constructor
    · rintro ⟨rfl | waiting, different⟩
      · exact absurd rfl different
      · exact waiting
    · intro waiting
      exact ⟨Or.inr waiting, fun same => absent (same ▸ waiting)⟩
  exact ⟨⟨(initId_evolves init).housed awaits.housed, others ▸ accounted, distinct⟩, commands⟩

end World

open World (Awaits)

variable [UnitTypeId]

namespace ComponentCommand

variable {command : ComponentCommand Value}

theorem apply_awaits (awaits : w.Awaits ids) (safely : command.safe id w = true)
    (applied : command.apply id w = some (result, after)) :
    after.Awaits ids ∧ after.commands = w.commands := by
  have housed := apply_housed awaits.housed safely applied
  have fresh := awaits.housed.tables_nextTable
  cases command with
  | Insert bundle =>
      exact ⟨⟨housed, awaits.accounted.setBundle fresh applied, awaits.distinct⟩,
        World.commands_setBundle applied⟩
  | Delete ty =>
      simp only [apply, Option.bind_eq_bind, Option.bind_eq_some_iff] at applied
      rcases applied with ⟨⟨outcome, middle⟩, removed, applied⟩
      have accounted := awaits.accounted.removeComponent fresh removed
      have commands := World.commands_removeComponent removed
      split at applied
      · rename_i same
        cases same
        cases applied
        exact ⟨⟨housed, accounted, awaits.distinct⟩, commands⟩
      · cases applied
        exact ⟨⟨housed, accounted, awaits.distinct⟩, commands⟩

end ComponentCommand

namespace EntityCommands

variable {payload : List (ComponentCommand Value)}

theorem applyPayload_awaits (awaits : w.Awaits ids)
    (safely : along (fun command => command.apply id) (ComponentCommand.safe id) payload w =
      true) (applied : applyPayload payload id w = some (result, after)) :
    after.Awaits ids ∧ after.commands = w.commands := by
  rw [applyPayload] at applied
  split at applied
  · let Holds (middle : World Value) := middle.Awaits ids ∧ middle.commands = w.commands
    rcases forEach_invariant Holds Holds
        (fun _ _ _ holds safe step =>
          (ComponentCommand.apply_awaits holds.1 safe step).imp_right (·.trans holds.2))
        (fun _ _ _ _ holds safe step =>
          (ComponentCommand.apply_awaits holds.1 safe step).imp_right (·.trans holds.2))
        ⟨awaits, rfl⟩ safely applied with
      ⟨_, holds⟩ | ⟨_, holds⟩
    · exact holds
    · exact holds
  · cases applied
    exact ⟨awaits, rfl⟩

end EntityCommands

variable [BuiltinValues Value]

/-- The action gives the ids that it made, or that were handed out for it, a row. -/
theorem EntityAction.start_awaits {action : EntityAction} {started : World Value}
    (awaits : w.Awaits (action.earlyIds ++ ids)) (starts : action.start w = some (id, started)) :
    started.Awaits ids ∧ started.commands = w.commands := by
  cases action with
  | Fetch target =>
      cases starts
      exact ⟨awaits, rfl⟩
  | Init target =>
      simp only [start, Option.bind_eq_bind, Option.bind_eq_some_iff, Option.pure_def,
        Option.some.injEq, Prod.mk.injEq] at starts
      rcases starts with ⟨middle, init, reserved, reserve, rfl, rfl⟩
      rcases awaits.initId init with ⟨awaitsMiddle, commands⟩
      rcases awaitsMiddle.accounted.reserveEntities reserve with ⟨accounted, same⟩
      exact ⟨awaitsMiddle.evolves (World.reserveEntities_evolves reserve) accounted,
        same.trans commands⟩
  | InsertId target =>
      simp only [start, Option.bind_eq_bind, Option.bind_eq_some_iff] at starts
      rcases starts with ⟨⟨outcome, middle⟩, inserted, starts⟩
      rcases awaits.accounted.insertId inserted with ⟨accounted, commands⟩
      have awaitsMiddle := awaits.evolves (World.insertId_evolves inserted) accounted
      split at starts
      · cases starts
      · rename_i same
        cases same
        cases starts
        exact ⟨awaitsMiddle, commands⟩
  | Insert =>
      rcases awaits.accounted.insertEntity starts with ⟨accounted, commands⟩
      exact ⟨awaits.evolves (World.insertEntity_evolves starts) accounted, commands⟩
  | Delete target => cases starts
  | Merge src dst => cases starts

namespace CommandPayload

variable {command : CommandPayload Value}

theorem apply_awaits (awaits : w.Awaits (command.earlyIds ++ ids))
    (tidily : command.tidy w = true) (applied : command.apply w = some (result, after)) :
    after.Awaits ids ∧ after.commands = w.commands := by
  rw [tidy, Bool.and_eq_true] at tidily
  have housed := apply_housed awaits.housed tidily.1 applied
  cases command with
  | Entity commands =>
      rcases commands with ⟨action, payload⟩
      rcases EntityCommands.apply_cases applied with
        ⟨id, started, starts, applied⟩ | ⟨id, taken, rfl, inserted, _⟩ |
          ⟨id, outcome, rfl, deleted, _⟩ | ⟨src, dst, rfl, merged⟩
      · rcases EntityAction.start_awaits awaits starts with ⟨awaitsStarted, commands⟩
        rw [safe_of_start starts] at tidily
        rcases EntityCommands.applyPayload_awaits awaitsStarted tidily.1 applied with
          ⟨awaitsAfter, same⟩
        exact ⟨awaitsAfter, same.trans commands⟩
      · rcases awaits.accounted.insertId inserted with ⟨accounted, commands⟩
        exact ⟨⟨housed, accounted, awaits.distinct⟩, commands⟩
      · rcases awaits.accounted.deleteEntity deleted with ⟨accounted, commands⟩
        exact ⟨⟨housed, accounted, awaits.distinct⟩, commands⟩
      · rcases awaits.accounted.mergeEntities awaits.housed.tables_nextTable tidily.2 merged with
          ⟨accounted, commands⟩
        exact ⟨⟨housed, accounted, awaits.distinct⟩, commands⟩
  | Resource command =>
      cases command with
      | Insert ty value =>
          cases applied
          exact ⟨awaits.congr housed rfl rfl, rfl⟩
      | Delete ty =>
          cases applied
          exact ⟨awaits.congr housed rfl rfl, rfl⟩
  | World command =>
      rcases command with ⟨additional⟩
      simp only [apply, WorldCommands.apply, Option.bind_eq_bind, Option.bind_eq_some_iff,
        Option.pure_def, Option.some.injEq, Prod.mk.injEq] at applied
      rcases applied with ⟨_, reserved, _, rfl⟩
      rcases awaits.accounted.reserveEntities reserved with ⟨accounted, commands⟩
      exact ⟨⟨housed, accounted, awaits.distinct⟩, commands⟩

end CommandPayload

/-- The early ids of the commands behind one that fails keep waiting. If no `Init` is behind
it, every early id of the batch gets its row. -/
theorem applyBatch_awaits {batch : List (CommandPayload Value)}
    (awaits : w.Awaits (earlyIds batch ++ ids))
    (tidily : along CommandPayload.apply CommandPayload.tidy batch w = true)
    (applied : applyBatch batch w = some (result, after)) :
    ∃ left, after.Awaits (left ++ ids) ∧ after.commands = w.commands ∧
      (reachesInits batch w = true → left = []) := by
  induction batch generalizing w with
  | nil =>
      simp only [applyBatch, forEach, Option.some.injEq, Prod.mk.injEq] at applied
      rcases applied with ⟨rfl, rfl⟩
      exact ⟨[], awaits, rfl, fun _ => rfl⟩
  | cons command rest induction =>
      rw [along, Bool.and_eq_true] at tidily
      rw [earlyIds, List.flatMap_cons, List.append_assoc] at awaits
      rcases forEach_cons applied with ⟨middle, first, applied⟩ | ⟨error, first, rfl⟩
      · rw [first] at tidily
        rcases CommandPayload.apply_awaits awaits tidily.1 first with ⟨awaitsMiddle, commands⟩
        rcases induction awaitsMiddle tidily.2 applied with ⟨left, awaitsAfter, same, reach⟩
        refine ⟨left, awaitsAfter, same.trans commands, ?_⟩
        intro reached
        rw [reachesInits, Bool.and_eq_true, first] at reached
        exact reach reached.2
      · have safely := (Bool.and_eq_true_iff.mp tidily.1).1
        have rejected := (CommandPayload.apply_error awaits.housed safely first).1
        rcases CommandPayload.apply_awaits awaits tidily.1 first with ⟨awaitsRest, commands⟩
        refine ⟨earlyIds rest, awaitsRest, commands, ?_⟩
        intro reached
        rw [reachesInits, Bool.and_eq_true] at reached
        simpa [rejected] using reached.1

end Awaits

end Cecs

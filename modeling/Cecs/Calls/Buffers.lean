import Cecs.Calls
import Cecs.World.Occupancy

/-! # The number of command buffers

No method of the world takes a buffer away, and applying commands empties the buffers
and keeps them. -/

namespace Cecs

open Foundation

/-- Methods of `World`; a system reaches the buffers through `Commands` only. -/
def Call.isMethod {Value : Type} : Call Value → Bool
  | .resizeCommands _ => false
  | .pushCommand _ _ => false
  | .extendCommand _ _ => false
  | .commandId _ => false
  | .clone => false
  | _ => true

namespace World

variable {Value : Type} {w after : World Value} {id : EntityId} {result : WorldResult Unit}

theorem commands_deleteEntity (deleted : w.deleteEntity id = some (result, after)) :
    after.commands = w.commands := by
  rw [deleteEntity] at deleted
  split at deleted
  · cases deleted
    rfl
  · simp only [Option.bind_eq_bind, Option.bind_eq_some_iff, Option.pure_def, Option.some.injEq,
      Prod.mk.injEq] at deleted
    rcases deleted with ⟨_, _, _, _, _, _, _, _, _, _, _, rfl⟩
    rfl

theorem commands_reserveEntities {additional : Nat}
    (reserved : w.reserveEntities additional = some after) : after.commands = w.commands := by
  simp only [reserveEntities, Option.bind_eq_bind, Option.bind_eq_some_iff, Option.pure_def,
    Option.some.injEq] at reserved
  rcases reserved with ⟨_, _, rfl⟩
  rfl

variable [UnitTypeId]

section Lifecycle

variable [BuiltinValues Value]

theorem commands_initId (init : w.initId id = some after) : after.commands = w.commands := by
  rcases initId_eq_some_iff.mp init with ⟨_, _, _, _, _, _, _, _, _, _, _, rfl⟩
  rfl

theorem commands_insertEntity (inserted : w.insertEntity = some (id, after)) :
    after.commands = w.commands := by
  simp only [insertEntity, Option.bind_eq_bind, Option.bind_eq_some_iff, Option.pure_def,
    Option.some.injEq, Prod.mk.injEq] at inserted
  rcases inserted with ⟨_, _, _, init, _, rfl⟩
  have kept := commands_initId init
  exact kept

theorem commands_insertId {outcome : Except InsertError Unit}
    (inserted : w.insertId id = some (outcome, after)) : after.commands = w.commands := by
  rcases insertId_eq_some_iff.mp inserted with ⟨entityIds, _, rest⟩
  cases outcome with
  | error error =>
      cases rest
      rfl
  | ok done =>
      have kept := commands_initId rest
      exact kept

end Lifecycle

section Merge

variable {lhs rhs : EntityId} {lhsArch rhsArch : Ptr} {lhsIndex rhsIndex : Nat}

omit [UnitTypeId] in
theorem commands_mergeSameType
    (merged : w.mergeSameType lhs rhs lhsIndex rhsArch rhsIndex = some (result, after)) :
    after.commands = w.commands := by
  simp only [mergeSameType, Option.bind_eq_bind, Option.bind_eq_some_iff] at merged
  rcases merged with ⟨_, _, _, _, _, _, _, _, deleted⟩
  have kept := commands_deleteEntity deleted
  exact kept

omit [UnitTypeId] in
theorem commands_mergeIntoRhs
    (merged : w.mergeIntoRhs lhs lhsArch lhsIndex rhsArch rhsIndex = some (result, after)) :
    after.commands = w.commands := by
  simp only [mergeIntoRhs, Option.bind_eq_bind, Option.bind_eq_some_iff, Option.pure_def,
    Option.some.injEq, Prod.mk.injEq] at merged
  rcases merged with ⟨_, _, _, _, _, _, _, _, _, _, _, rfl⟩
  rfl

omit [UnitTypeId] in
theorem commands_mergeIntoLhs
    (merged : w.mergeIntoLhs lhs rhs lhsArch lhsIndex rhsArch rhsIndex = some (result, after)) :
    after.commands = w.commands := by
  simp only [mergeIntoLhs, Option.bind_eq_bind, Option.bind_eq_some_iff, Option.pure_def,
    Option.some.injEq, Prod.mk.injEq] at merged
  rcases merged with ⟨_, _, _, _, _, _, _, _, _, _, _, _, _, _, _, rfl⟩
  rfl

omit [UnitTypeId] in
theorem commands_entryOrInsert {key : TypeHash} {table : EntityTable Value} {ptr : Ptr}
    (entered : w.entryOrInsert key table = (ptr, after)) : after.commands = w.commands := by
  rw [entryOrInsert] at entered
  split at entered <;> cases entered <;> rfl

theorem commands_mergeIntoThird {dstHash : TypeHash}
    (merged : w.mergeIntoThird lhs rhs lhsArch lhsIndex rhsArch rhsIndex dstHash =
      some (result, after)) : after.commands = w.commands := by
  simp only [mergeIntoThird, Option.bind_eq_bind, Option.bind_eq_some_iff] at merged
  rcases merged with ⟨left, _, right, _, merged⟩
  rcases entered : w.entryOrInsert dstHash (right.merged left) with ⟨dst, base⟩
  simp only [entered, Option.pure_def, Option.some.injEq, Prod.mk.injEq] at merged
  rcases merged with ⟨⟨row, movedRhs, shifted⟩, move, _, _, _, _, _, _, _, _, _, _, _, _, _, _, _,
    _, _, rfl⟩
  exact (commands_moveEntity move).trans (commands_entryOrInsert entered)

theorem commands_mergeEntities (merged : w.mergeEntities lhs rhs = some (result, after)) :
    after.commands = w.commands := by
  rw [mergeEntities] at merged
  split at merged
  · cases merged
    rfl
  · split at merged
    · simp only [Option.bind_eq_bind, Option.bind_eq_some_iff] at merged
      rcases merged with ⟨left, _, right, _, merged⟩
      split at merged
      · exact commands_mergeSameType merged
      · split at merged
        · exact commands_mergeIntoRhs merged
        · split at merged
          · exact commands_mergeIntoLhs merged
          · exact commands_mergeIntoThird merged
    · cases merged
      rfl

end Merge

end World

section Apply

variable {Value : Type} [UnitTypeId] [BuiltinValues Value] {w after : World Value}
  {result : WorldResult Unit}

omit [UnitTypeId] [BuiltinValues Value] in
theorem commands_forEach {α : Type} {step : α → Effect Value} {items : List α}
    (keeps : ∀ item (w after : World Value) (result : WorldResult Unit),
      step item w = some (result, after) → after.commands = w.commands)
    (ran : forEach step items w = some (result, after)) : after.commands = w.commands := by
  induction items generalizing w with
  | nil =>
      cases ran
      rfl
  | cons item rest induction =>
      simp only [forEach, Option.bind_eq_bind, Option.bind_eq_some_iff] at ran
      rcases ran with ⟨⟨first, middle⟩, stepped, ran⟩
      have kept := keeps item w middle first stepped
      cases first with
      | ok done => exact (induction ran).trans kept
      | error error =>
          cases ran
          exact kept

omit [BuiltinValues Value] in
theorem ComponentCommand.commands_apply {command : ComponentCommand Value} {id : EntityId}
    (applied : command.apply id w = some (result, after)) : after.commands = w.commands := by
  cases command with
  | Insert bundle => exact World.commands_setBundle applied
  | Delete ty =>
      simp only [ComponentCommand.apply, Option.bind_eq_bind, Option.bind_eq_some_iff] at applied
      rcases applied with ⟨⟨outcome, middle⟩, removed, applied⟩
      have kept := World.commands_removeComponent removed
      split at applied
      · rename_i same
        cases same
        cases applied
        exact kept
      · cases applied
        exact kept

omit [BuiltinValues Value] in
theorem EntityCommands.commands_applyPayload {payload : List (ComponentCommand Value)}
    {id : EntityId} (applied : EntityCommands.applyPayload payload id w = some (result, after)) :
    after.commands = w.commands := by
  rw [EntityCommands.applyPayload] at applied
  split at applied
  · exact commands_forEach (fun _ _ _ _ => ComponentCommand.commands_apply) applied
  · cases applied
    rfl

theorem EntityCommands.commands_apply {commands : EntityCommands Value}
    (applied : commands.apply w = some (result, after)) : after.commands = w.commands := by
  rcases commands with ⟨action, payload⟩
  cases action with
  | Fetch id => exact commands_applyPayload applied
  | Init id =>
      simp only [EntityCommands.apply, Option.bind_eq_bind, Option.bind_eq_some_iff] at applied
      rcases applied with ⟨first, init, second, reserved, applied⟩
      rw [commands_applyPayload applied, World.commands_reserveEntities reserved,
        World.commands_initId init]
  | InsertId id =>
      simp only [EntityCommands.apply, Option.bind_eq_bind, Option.bind_eq_some_iff] at applied
      rcases applied with ⟨⟨outcome, middle⟩, inserted, applied⟩
      have kept := World.commands_insertId inserted
      split at applied
      · rename_i same
        cases same
        cases applied
        exact kept
      · rename_i same
        cases same
        exact (commands_applyPayload applied).trans kept
  | Insert =>
      simp only [EntityCommands.apply, Option.bind_eq_bind, Option.bind_eq_some_iff] at applied
      rcases applied with ⟨⟨id, middle⟩, inserted, applied⟩
      exact (commands_applyPayload applied).trans (World.commands_insertEntity inserted)
  | Delete id =>
      simp only [EntityCommands.apply, Option.bind_eq_bind, Option.bind_eq_some_iff,
        Option.pure_def, Option.some.injEq, Prod.mk.injEq] at applied
      rcases applied with ⟨⟨outcome, middle⟩, deleted, _, rfl⟩
      exact World.commands_deleteEntity deleted
  | Merge src dst => exact World.commands_mergeEntities applied

theorem commands_applyCommand {command : CommandPayload Value}
    (applied : command.apply w = some (result, after)) : after.commands = w.commands := by
  cases command with
  | Entity commands => exact EntityCommands.commands_apply applied
  | Resource command =>
      cases command <;> cases applied <;> rfl
  | World command =>
      cases command with
      | Reserve additional =>
          simp only [CommandPayload.apply, WorldCommands.apply, Option.bind_eq_bind,
            Option.bind_eq_some_iff, Option.pure_def, Option.some.injEq, Prod.mk.injEq] at applied
          rcases applied with ⟨_, reserved, _, rfl⟩
          exact World.commands_reserveEntities reserved

/-- The buffers are drained, and none is added or removed. -/
theorem World.commands_applySorted {batch : List (CommandPayload Value)}
    (applied : w.applySorted batch = some (result, after)) :
    after.commands = w.commands.map fun _ => [] := by
  simp only [World.applySorted, Option.bind_eq_bind, Option.bind_eq_some_iff] at applied
  rcases applied with ⟨⟨outcome, middle⟩, ran, applied⟩
  have drained : middle.commands = w.commands.map fun _ => [] :=
    commands_forEach (fun _ _ _ _ => commands_applyCommand) ran
  cases outcome with
  | error error =>
      cases applied
      exact drained
  | ok done =>
      simp only [Option.bind_eq_some_iff, Option.pure_def, Option.some.injEq,
        Prod.mk.injEq] at applied
      rcases applied with ⟨_, moved, _, rfl⟩
      exact (World.commands_moveArchetypes moved).trans drained

/-- A method of the world leaves the number of buffers as it is. -/
theorem Call.length_commands {call : Call Value} (method : call.isMethod = true)
    (ran : call.run w = some after) : after.commands.length = w.commands.length := by
  cases call with
  | insertEntity =>
      rcases Option.map_eq_some_iff.mp ran with ⟨⟨id, _⟩, inserted, rfl⟩
      rw [World.commands_insertEntity inserted]
  | deleteEntity id =>
      rcases Option.map_eq_some_iff.mp ran with ⟨⟨result, _⟩, deleted, rfl⟩
      rw [World.commands_deleteEntity deleted]
  | insertId id =>
      rcases Option.map_eq_some_iff.mp ran with ⟨⟨result, _⟩, inserted, rfl⟩
      rw [World.commands_insertId inserted]
  | reserveEntities additional => rw [World.commands_reserveEntities ran]
  | mergeEntities lhs rhs =>
      rcases Option.map_eq_some_iff.mp ran with ⟨⟨result, _⟩, merged, rfl⟩
      rw [World.commands_mergeEntities merged]
  | insertResource ty value =>
      cases ran
      rfl
  | removeResource ty =>
      cases ran
      rfl
  | writeCell ptr ty row value =>
      cases ran
      rw [World.writeCell]
      split <;> rfl
  | applyCommands batch =>
      rcases Option.map_eq_some_iff.mp ran with ⟨⟨result, _⟩, applied, rfl⟩
      rw [World.commands_applySorted applied, List.length_map]
  | vacuum =>
      cases ran
      rfl
  | _ => cases method

end Apply

section Buffers

variable {Value : Type} {w after : World Value}

theorem World.length_commands_resizeCommands (w : World Value) (len : Nat) :
    (w.resizeCommands len).commands.length = max w.commands.length len := by
  simp only [World.resizeCommands, List.length_append, List.length_replicate]
  omega

theorem World.length_commands_pushCommand {systemIdx : Nat} {command : CommandPayload Value}
    (pushed : w.pushCommand systemIdx command = some after) :
    after.commands.length = w.commands.length := by
  simp only [World.pushCommand, Option.bind_eq_bind, Option.bind_eq_some_iff, Option.pure_def,
    Option.some.injEq] at pushed
  rcases pushed with ⟨_, _, rfl⟩
  exact List.length_set

theorem World.length_commands_setLastCommand {systemIdx : Nat} {commands : EntityCommands Value}
    (set : w.setLastCommand systemIdx commands = some after) :
    after.commands.length = w.commands.length := by
  simp only [World.setLastCommand, Option.bind_eq_bind, Option.bind_eq_some_iff, Option.pure_def,
    Option.some.injEq] at set
  rcases set with ⟨_, _, rfl⟩
  exact List.length_set

theorem World.length_commands_extendCommand {systemIdx : Nat} {command : ComponentCommand Value}
    (extended : w.extendCommand systemIdx command = some after) :
    after.commands.length = w.commands.length := by
  simp only [World.extendCommand, Option.bind_eq_bind, Option.bind_eq_some_iff] at extended
  rcases extended with ⟨_, _, set⟩
  exact World.length_commands_setLastCommand set

theorem World.length_commands_commandId {systemIdx : Nat}
    {result : Except HandleTableError EntityId}
    (took : w.commandId systemIdx = some (result, after)) :
    after.commands.length = w.commands.length := by
  simp only [World.commandId, Option.bind_eq_bind, Option.bind_eq_some_iff] at took
  rcases took with ⟨commands, _, took⟩
  split at took
  any_goals
    cases took
    rfl
  simp only [Option.bind_eq_some_iff] at took
  rcases took with ⟨⟨outcome, entityIds⟩, _, took⟩
  cases outcome with
  | error error =>
      cases took
      rfl
  | ok id =>
      simp only [Option.bind_eq_some_iff, Option.pure_def, Option.some.injEq,
        Prod.mk.injEq] at took
      rcases took with ⟨_, set, _, rfl⟩
      have kept := World.length_commands_setLastCommand set
      exact kept

end Buffers

end Cecs

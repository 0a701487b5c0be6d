import Cecs.Calls.Accounted
import Cecs.Calls.Buffers
import Cecs.Commands.Refinement

/-! # Runs of calls on the abstract state

Every call of the public API is a step on the entity map, the ids that wait and the
resources. So whatever calls are made, in whatever order and whichever batches fail, the
world is one that the abstract steps lead to. -/

namespace Cecs

open Foundation

section Steps

variable {Value : Type}

/-- A method of the world that does what a command without payload does. -/
def Call.command : Call Value → Option (CommandPayload Value)
  | .insertEntity => some (.Entity ⟨.Insert, []⟩)
  | .deleteEntity id => some (.Entity ⟨.Delete id, []⟩)
  | .insertId id => some (.Entity ⟨.InsertId id, []⟩)
  | .reserveEntities additional => some (.World (.Reserve additional))
  | .mergeEntities lhs rhs => some (.Entity ⟨.Merge lhs rhs, []⟩)
  | .insertResource ty value => some (.Resource (.Insert ty value))
  | .removeResource ty => some (.Resource (.Delete ty))
  | _ => none

variable [UnitTypeId] [BuiltinValues Value]

namespace EntityState

/-- What a call does; a reference points to a row, which `place` has for an entity. -/
inductive Does (place : EntityId → Option (Ptr × Nat)) :
    EntityState Value → Call Value → EntityState Value → Prop
  | command {s after : EntityState Value} {call : Call Value} {command : CommandPayload Value}
      {result : WorldResult Unit} (does : call.command = some command)
      (applies : Applies s command result after) : Does place s call after
  | batch {s after : EntityState Value} {batch : List (CommandPayload Value)}
      {result : WorldResult Unit} (applies : AppliesAll s batch result after) :
      Does place s (.applyCommands batch) after
  | write {s : EntityState Value} {id : EntityId} {ptr : Ptr} {index : Nat} {ty : TypeId}
      {row : Row Value} {old value : Value} (placed : place id = some (ptr, index))
      (live : s.entities id = some row) (present : row ty = some old) :
      Does place s (.writeCell ptr ty index value) (s.setEntity id (row.insert ty value))
  | writeNothing {s : EntityState Value} {ptr : Ptr} {index : Nat} {ty : TypeId} {value : Value}
      (nobody : ∀ id row, place id = some (ptr, index) → s.entities id = some row →
        row ty = none) : Does place s (.writeCell ptr ty index value) s
  | queue {s : EntityState Value} {call : Call Value} (queues : call.queues = true) :
      Does place s call s
  | handed {s : EntityState Value} {systemIdx : Nat} {id : EntityId} (free : s.SlotFree id) :
      Does place s (.commandId systemIdx) { s with waiting := insert id s.waiting }
  | vacuum {s : EntityState Value} : Does place s .vacuum s
  | clone {s : EntityState Value} : Does place s .clone s

/-- Calls one after the other on a world, with a step for each; `place` is where the index of
the world has an entity when the call is made. -/
inductive DoesAll : World Value → EntityState Value → List (Call Value) → World Value →
    EntityState Value → Prop
  | done {w : World Value} {s : EntityState Value} : DoesAll w s [] w s
  | next {w v last : World Value} {s middle after : EntityState Value} {call : Call Value}
      {rest : List (Call Value)} (ran : call.run w = some v)
      (first : Does w.entityIds.place s call middle) (others : DoesAll v middle rest last after) :
      DoesAll w s (call :: rest) last after

end EntityState

end Steps

section Write

variable {Value : Type} {w : World Value} {ptr : Ptr} {ty : TypeId} {index : Nat} {value : Value}

theorem EntityTable.writeCell_outside {table : EntityTable Value} {column : Column Value}
    (found : table.components[ty]? = some column) (outside : column.length ≤ index) :
    table.writeCell ty index value = table := by
  have same : table.components.insert ty (column.set index value) = table.components := by
    rw [List.set_eq_of_length_le outside]
    apply Std.ExtTreeMap.ext_getElem?
    intro other
    rw [BTreeMap.getElem?_insert]
    split
    · rename_i isTy
      rw [← isTy, found]
    · rfl
  rw [writeCell, found]
  dsimp only
  rw [same]

variable [UnitTypeId]

/-- An assignment through a reference changes the component of the entity in that row. -/
theorem World.WellFormed.writeCell (wf : w.WellFormed) (ptr : Ptr) (ty : TypeId) (index : Nat)
    (value : Value) :
    (w.writeCell ptr ty index value).WellFormed ∧
    ((∃ id row old, w.entityIds.place id = some (ptr, index) ∧ w.view id = some row ∧
        row ty = some old ∧ (w.writeCell ptr ty index value).view =
          Function.update w.view id (some (row.insert ty value))) ∨
      w.writeCell ptr ty index value = w ∧
        ∀ id row, w.entityIds.place id = some (ptr, index) → w.view id = some row →
          row ty = none) := by
  have nothing : ∀ table, w.tables ptr = some table → table.getComponent ty index = none →
      ∀ id row, w.entityIds.place id = some (ptr, index) → w.view id = some row →
        row ty = none := by
    intro table found absent id row placed live
    rcases wf.toConsistent.table_of_place placed with ⟨other, foundOther, _, _, _, viewed⟩
    cases found.symm.trans foundOther
    rw [live, Option.some.injEq] at viewed
    rw [viewed]
    exact absent
  rw [World.writeCell]
  cases found : w.tables ptr with
  | none =>
      refine ⟨wf, Or.inr ⟨rfl, ?_⟩⟩
      intro id row placed live
      rcases wf.toConsistent.table_of_place placed with ⟨table, foundTable, _⟩
      rw [found] at foundTable
      cases foundTable
  | some table =>
      have aligned := wf.aligned ptr table found
      have unchanged : w.setTable ptr table = w := by
        rw [setTable, ← found, Function.update_eq_self]
      cases column_eq : table.components[ty]? with
      | none =>
          have same : table.writeCell ty index value = table := by
            rw [EntityTable.writeCell, column_eq]
          dsimp only
          rw [same, unchanged]
          exact ⟨wf, Or.inr ⟨rfl, nothing table found (by simp [EntityTable.getComponent,
            column_eq])⟩⟩
      | some column =>
          have length := aligned.columns ty column column_eq
          rcases Nat.lt_or_ge index table.rows with inRange | outside
          · have within : index < table.entities.length := by rwa [aligned.entities]
            have owner := List.getElem?_eq_getElem within
            have present : ty ∈ table.types :=
              EntityTable.mem_types.mpr (EntityTable.containsColumn_iff.mpr ⟨column, column_eq⟩)
            rcases (EntityTable.overwrites_self table index).setComponent aligned inRange present
                value with ⟨result, set, overwritten⟩
            have written : result = table.writeCell ty index value := by
              have notLast : ¬index = column.length := by omega
              rw [EntityTable.setComponent_eq column_eq (by omega) value, if_neg notLast,
                Option.some.injEq] at set
              rw [← set, EntityTable.writeCell, column_eq]
            rw [written] at overwritten
            have full : EntityTable.Fills ((table.row index).insert ty value) table := by
              intro other
              rw [← aligned.fills_row inRange other]
              by_cases same : other = ty
              · have filled := (aligned.fills_row inRange ty).mpr present
                simp [Row.insert, same, filled]
              · simp [Row.insert, same]
            rcases wf.rewrite found owner overwritten full with ⟨_, wfAfter, viewed⟩
            have placed := wf.place_of_entities found owner
            rcases wf.toConsistent.table_of_place placed with ⟨other, foundOther, _, _, _, live⟩
            cases found.symm.trans foundOther
            rcases Option.isSome_iff_exists.mp ((aligned.fills_row inRange ty).mpr present) with
              ⟨old, cell⟩
            exact ⟨wfAfter, Or.inl ⟨_, _, old, placed, live, cell, viewed⟩⟩
          · have same : table.writeCell ty index value = table :=
              EntityTable.writeCell_outside column_eq (length.trans_le outside)
            dsimp only
            rw [same, unchanged]
            refine ⟨wf, Or.inr ⟨rfl, nothing table found ?_⟩⟩
            simp [EntityTable.getComponent, column_eq, length, outside]

end Write

section Conditions

variable {Value : Type} [UnitTypeId]

/-- The call loses no table with rows, merges within no table and queues changes that are
regular. -/
def Call.Regular [BuiltinValues Value] (types : Finset TypeId) (w : World Value) : Call Value → Prop
  | .mergeEntities lhs rhs => w.mergeSafe lhs rhs = true ∧ w.mergeApart lhs rhs = true
  | .extendCommand _ command => command.Regular types
  | .applyCommands batch =>
      along CommandPayload.apply CommandPayload.tidy batch w.drained = true
  | .vacuum => w.ParkedEmpty
  | .clone => w.AllListed
  | _ => True

/-- The ids that wait are those of queued `Init` commands and those that batches have lost. -/
structure World.Ready (types : Finset TypeId) (w : World Value) (lost : List EntityId) :
    Prop where
  orderly : w.Orderly types (earlyIds w.queuedCommands ++ lost)
  regular : ∀ command ∈ w.queuedCommands, command.Regular types

def World.readyState (w : World Value) (lost : List EntityId) : EntityState Value :=
  w.state (earlyIds w.queuedCommands ++ lost)

/-- What the methods of `Commands` push has no payload yet. -/
theorem CommandPayload.regular_of_isFresh {types : Finset TypeId}
    {command : CommandPayload Value} (fresh : command.isFresh = true) :
    command.Regular types := by
  cases command with
  | Entity commands =>
      rcases commands with ⟨action, payload⟩
      have without : payload = [] := by
        cases action <;> first | cases fresh | exact List.isEmpty_iff.mp fresh
      rw [without]
      exact fun _ member => absurd member List.not_mem_nil
  | _ => trivial

end Conditions

section Queue

namespace World

variable {Value : Type} {w after : World Value} {types : Finset TypeId}
  {ids others : List EntityId} {systemIdx : Nat}

theorem state_perm (w : World Value) (perm : ids.Perm others) : w.state others = w.state ids := by
  have same : {id | id ∈ others} = {id | id ∈ ids} := by
    ext id
    exact perm.mem_iff.symm
  rw [state, state, same]

theorem mem_queuedCommands_setBuffer {buffer : List (CommandPayload Value)}
    {command : CommandPayload Value}
    (queued : command ∈ (w.setBuffer systemIdx buffer).queuedCommands) :
    command ∈ w.queuedCommands ∨ command ∈ buffer := by
  rcases List.mem_flatten.mp queued with ⟨cmd, among, member⟩
  rcases List.mem_or_eq_of_mem_set among with before | rfl
  · exact Or.inl (List.mem_flatten.mpr ⟨cmd, before, member⟩)
  · exact Or.inr member

theorem mem_queuedCommands_setLastCommand {commands : EntityCommands Value}
    {command : CommandPayload Value} (set : w.setLastCommand systemIdx commands = some after)
    (queued : command ∈ after.queuedCommands) :
    command ∈ w.queuedCommands ∨ command = .Entity commands := by
  simp only [setLastCommand, Option.bind_eq_bind, Option.bind_eq_some_iff, Option.pure_def,
    Option.some.injEq] at set
  rcases set with ⟨cmd, found, rfl⟩
  rcases mem_queuedCommands_setBuffer queued with before | member
  · exact Or.inl before
  · rcases List.mem_append.mp member with kept | last
    · exact Or.inl (List.mem_flatten.mpr ⟨cmd, List.mem_of_getElem? found,
        List.mem_of_mem_dropLast kept⟩)
    · exact Or.inr (List.mem_singleton.mp last)

theorem lastCommand_queued {commands : EntityCommands Value}
    (last : w.lastCommand systemIdx = some commands) :
    CommandPayload.Entity commands ∈ w.queuedCommands := by
  simp only [lastCommand, Option.bind_eq_bind, Option.bind_eq_some_iff] at last
  rcases last with ⟨cmd, found, command, lastOf, same⟩
  split at same
  · cases same
    exact List.mem_flatten.mpr ⟨cmd, List.mem_of_getElem? found, List.mem_of_getLast? lastOf⟩
  · cases same

theorem resources_setLastCommand {commands : EntityCommands Value}
    (set : w.setLastCommand systemIdx commands = some after) :
    after.resources = w.resources := by
  simp only [setLastCommand, Option.bind_eq_bind, Option.bind_eq_some_iff, Option.pure_def,
    Option.some.injEq] at set
  rcases set with ⟨_, _, rfl⟩
  rfl

variable [UnitTypeId]

/-- What changes the buffers only keeps the world orderly, and its state. -/
theorem Orderly.sameTables (orderly : w.Orderly types ids) (same : SameTables w after)
    (resources : after.resources = w.resources) (perm : ids.Perm others) :
    after.Orderly types others ∧ after.state others = w.state ids := by
  have awaits := (same.awaits orderly.awaits).perm perm
  rw [state_perm after perm]
  rcases w with ⟨_, _, _, _, _, _, _⟩
  rcases after with ⟨_, _, _, _, _, _, _⟩
  rcases same with ⟨rfl, rfl, rfl, rfl, rfl⟩
  cases resources
  exact ⟨⟨{ orderly.toWellFormed with }, orderly.known, awaits⟩, rfl⟩

/-- A command that is pushed or extended is queued, and nothing else changes. -/
theorem Ready.queue {lost : List EntityId} (ready : w.Ready types lost)
    (same : SameTables w after) (resources : after.resources = w.resources)
    (early : (earlyIds after.queuedCommands).Perm (earlyIds w.queuedCommands))
    (regular : ∀ command ∈ after.queuedCommands, command.Regular types) :
    after.Ready types lost ∧ after.readyState lost = w.readyState lost := by
  rcases ready.orderly.sameTables same resources (early.symm.append_right lost) with
    ⟨orderly, states⟩
  exact ⟨⟨orderly, regular⟩, states⟩

/-- An id that is handed out is queued with its command, or none was left. -/
theorem Ready.commandId {lost : List EntityId} (ready : w.Ready types lost)
    {result : Except HandleTableError EntityId}
    (asked : w.commandId systemIdx = some (result, after)) :
    after.Ready types lost ∧ (after.readyState lost = w.readyState lost ∨
      ∃ id, (w.readyState lost).SlotFree id ∧ after.readyState lost =
        { w.readyState lost with waiting := insert id (w.readyState lost).waiting }) := by
  simp only [World.commandId, Option.bind_eq_bind, Option.bind_eq_some_iff] at asked
  rcases asked with ⟨commands, last, asked⟩
  cases action : commands.action with
  | Insert =>
      simp only [action, Option.bind_eq_some_iff] at asked
      rcases asked with ⟨⟨outcome, entityIds⟩, allocated, asked⟩
      have evolves : Evolves false w (w.setIndex entityIds) :=
        evolves_setIndex (EntityIndex.allocate_fewer allocated)
      have housed := evolves.housed ready.orderly.awaits.housed
      cases outcome with
      | error error =>
          cases asked
          rcases ready.orderly.accounts.allocateFull allocated with ⟨index, places⟩
          rcases index.sound with ⟨slots, sound⟩
          rcases ready.orderly.toWellFormed.setIndex sound places with ⟨wf, viewed⟩
          have accounted := ready.orderly.awaits.accounted.setIndex index places
          refine ⟨⟨⟨wf, ready.orderly.known, housed, accounted,
            ready.orderly.awaits.distinct⟩, ready.regular⟩, Or.inl ?_⟩
          rw [readyState, readyState, state, state, viewed]
          rfl
      | ok id =>
          simp only [Option.bind_eq_some_iff, Option.pure_def, Option.some.injEq,
            Prod.mk.injEq] at asked
          rcases asked with ⟨_, set, _, rfl⟩
          rcases ready.orderly.accounts.allocate allocated with ⟨index, fresh, places, _⟩
          rcases index.sound with ⟨slots, sound⟩
          rcases ready.orderly.toWellFormed.setIndex sound places with ⟨wf, viewed⟩
          have waiting : insert id {other | other ∈ earlyIds w.queuedCommands ++ lost} =
              {other | other ∈ id :: (earlyIds w.queuedCommands ++ lost)} := by
            ext other
            rw [Set.mem_insert_iff, Set.mem_ofPred_eq, Set.mem_ofPred_eq, List.mem_cons]
          have accounted := ready.orderly.awaits.accounted.setIndex (waiting ▸ index) places
          have handed : (w.setIndex entityIds).Orderly types
              (id :: (earlyIds w.queuedCommands ++ lost)) :=
            ⟨wf, ready.orderly.known, housed, accounted,
              List.nodup_cons.mpr ⟨fresh, ready.orderly.awaits.distinct⟩⟩
          have queued := earlyIds_setLastCommand [id]
            ((lastCommand_setIndex w entityIds systemIdx).trans last) set
            (by simp [action, EntityAction.earlyIds])
          rcases handed.sameTables (setLastCommand_same set) (resources_setLastCommand set)
              (queued.symm.append_right lost) with ⟨orderly, states⟩
          refine ⟨⟨orderly, ?_⟩, Or.inr ⟨id, ?_, ?_⟩⟩
          · intro command member
            rcases mem_queuedCommands_setLastCommand set member with before | rfl
            · exact ready.regular command before
            · have payload := ready.regular _ (lastCommand_queued last)
              exact payload
          · intro other allocated
            have absent := index.waits id (Set.mem_insert id _)
            rw [readyState, ← ready.orderly.allocated_iff, ← EntityIndex.live_congr places]
              at allocated
            exact index.slotFree fresh absent allocated
          · rw [readyState, states, state, viewed, ← waiting]
            rfl
  | _ =>
      simp only [action, Option.pure_def, Option.some.injEq, Prod.mk.injEq] at asked
      rcases asked with ⟨_, rfl⟩
      exact ⟨ready, Or.inl rfl⟩

end World

end Queue

section Calls

variable {Value : Type} [UnitTypeId] [BuiltinValues Value] {w after : World Value}
  {types : Finset TypeId} {lost : List EntityId}

open World (Ready)
open EntityState (Applies AppliesAll Does)

/-- The method leaves the world that its command leaves. -/
theorem Call.run_command {call : Call Value} {command : CommandPayload Value}
    (does : call.command = some command) : call.run w = (command.apply w).map Prod.snd := by
  have without : ∀ (id : EntityId) (w : World Value), ∃ result,
      EntityCommands.applyPayload [] id w = some (result, w) := by
    intro id w
    rw [EntityCommands.applyPayload]
    split
    · exact ⟨.ok (), rfl⟩
    · exact ⟨.error .EntityNotFound, rfl⟩
  cases call with
  | insertEntity =>
      cases does
      cases inserted : w.insertEntity with
      | none => simp [run, CommandPayload.apply, EntityCommands.apply, inserted]
      | some outcome =>
          rcases without outcome.1 outcome.2 with ⟨result, nothing⟩
          simp [run, CommandPayload.apply, EntityCommands.apply, inserted, nothing]
  | deleteEntity id =>
      cases does
      cases deleted : w.deleteEntity id <;>
        simp [run, CommandPayload.apply, EntityCommands.apply, deleted]
  | insertId id =>
      cases does
      cases inserted : w.insertId id with
      | none => simp [run, CommandPayload.apply, EntityCommands.apply, inserted]
      | some outcome =>
          rcases outcome with ⟨outcome, middle⟩
          rcases without id middle with ⟨result, nothing⟩
          rcases outcome with (error | same) | done <;>
            simp [run, CommandPayload.apply, EntityCommands.apply, inserted, nothing]
  | reserveEntities additional =>
      cases does
      cases reserved : w.reserveEntities additional <;>
        simp [run, CommandPayload.apply, WorldCommands.apply, reserved]
  | mergeEntities lhs rhs =>
      cases does
      rfl
  | insertResource ty value =>
      cases does
      rfl
  | removeResource ty =>
      cases does
      rfl
  | _ => cases does

theorem World.queuedCommands_applySorted {batch : List (CommandPayload Value)}
    {result : WorldResult Unit} (applied : w.applySorted batch = some (result, after)) :
    after.queuedCommands = [] :=
  (congrArg List.flatten (World.commands_applySorted applied)).trans
    (World.queuedCommands_drained w)

omit [BuiltinValues Value] in
/-- The sort of the batch changes nothing for the ids that wait. -/
theorem World.Ready.sorted (ready : w.Ready types lost) {batch : List (CommandPayload Value)}
    (sorts : SortCommands id w.queuedCommands batch) :
    w.Orderly types (earlyIds batch ++ lost) ∧
      (∀ command ∈ batch, command.Regular types) ∧
      w.state (earlyIds batch ++ lost) = w.readyState lost := by
  have perm := (sortCommands_iff.mp sorts).perm
  have early := (perm.flatMap_right CommandPayload.earlyIds).append_right lost
  have same : World.SameTables w w := ⟨rfl, rfl, rfl, rfl, rfl⟩
  rcases ready.orderly.sameTables same rfl early.symm with ⟨orderly, states⟩
  exact ⟨orderly, fun command member => ready.regular command (perm.mem_iff.mp member), states⟩

omit [BuiltinValues Value] in
theorem World.Orderly.ready {waiting : List EntityId} (orderly : w.Orderly types waiting)
    (empty : w.queuedCommands = []) :
    w.Ready types waiting ∧ w.readyState waiting = w.state waiting := by
  have nothing : earlyIds w.queuedCommands ++ waiting = waiting := by
    rw [empty]
    rfl
  refine ⟨⟨nothing.symm ▸ orderly, ?_⟩, by rw [World.readyState, nothing]⟩
  rw [empty]
  exact fun _ member => absurd member List.not_mem_nil

/-- A method that a command stands for is the abstract step. -/
theorem Call.run_refines_command (ready : w.Ready types lost) (apart : HashesApart types)
    {call : Call Value} {command : CommandPayload Value} (does : call.command = some command)
    (regular : call.Regular types w) (ran : call.run w = some after) :
    after.Ready types lost ∧
      Does w.entityIds.place (w.readyState lost) call (after.readyState lost) := by
  have noEarly : command.earlyIds = [] := by
    cases call <;> cases does <;> rfl
  have without : command.Regular types := by
    cases call <;> cases does <;> simp [CommandPayload.Regular]
  have tidily : command.tidy w = true := by
    cases call <;> cases does <;>
      simp_all [CommandPayload.tidy, CommandPayload.safe, CommandPayload.mergesApart, along,
        Call.Regular]
  rw [run_command does] at ran
  rcases Option.map_eq_some_iff.mp ran with ⟨⟨result, done⟩, applied, rfl⟩
  have orderly := ready.orderly
  rw [← List.nil_append (earlyIds _ ++ _), ← noEarly] at orderly
  have commands := (CommandPayload.apply_awaits orderly.awaits tidily applied).2
  rcases CommandPayload.apply_refines orderly apart without tidily with
    ⟨_, stuck⟩ | ⟨_, _, again, orderlyAfter, applies⟩
  · rw [applied] at stuck
    cases stuck
  · cases applied.symm.trans again
    rw [noEarly, List.nil_append] at applies
    have queued : ∀ other : World Value, other.commands = w.commands →
        other.queuedCommands = w.queuedCommands := fun _ same => congrArg List.flatten same
    refine ⟨⟨?_, ?_⟩, ?_⟩
    · rw [queued _ commands]
      exact orderlyAfter
    · rw [queued _ commands]
      exact ready.regular
    · have step : Applies (w.readyState lost) command result (done.readyState lost) := by
        rw [World.readyState, World.readyState, queued _ commands]
        exact applies
      exact .command does step

/-- The world is ready for the state that the call leads to. -/
def Call.Refines (types : Finset TypeId) (lost : List EntityId) (w : World Value)
    (call : Call Value) (after : World Value) : Prop :=
  ∃ lostAfter, after.Ready types lostAfter ∧
    Does w.entityIds.place (w.readyState lost) call (after.readyState lostAfter)

theorem Call.writeCell_refines (ready : w.Ready types lost) (ptr : Ptr) (ty : TypeId)
    (index : Nat) (value : Value) :
    Refines types lost w (.writeCell ptr ty index value) (w.writeCell ptr ty index value) := by
  have kept := ready.orderly.awaits.accounted.writeCell ptr ty index value
  have housed := (World.writeCell_evolves w ptr ty index value).housed
    ready.orderly.awaits.housed
  have known := (World.writeCell_evolves w ptr ty index value).knows ready.orderly.known
  have queued : (w.writeCell ptr ty index value).queuedCommands = w.queuedCommands :=
    congrArg List.flatten kept.2
  rcases ready.orderly.toWellFormed.writeCell ptr ty index value with ⟨wf, changed⟩
  refine ⟨lost, ⟨?_, ?_⟩, ?_⟩
  · rw [queued]
    exact ⟨wf, known, housed, kept.1, ready.orderly.awaits.distinct⟩
  · rw [queued]
    exact ready.regular
  · rcases changed with ⟨id, row, old, placed, live, present, viewed⟩ | ⟨same, nobody⟩
    · have resources := (World.writeCell_evolves w ptr ty index value).resources
      rw [World.readyState, World.readyState, queued, World.state_setEntity viewed resources]
      exact .write placed live present
    · rw [same]
      exact .writeNothing nobody

theorem Call.resizeCommands_refines (ready : w.Ready types lost) (len : Nat) :
    Refines types lost w (.resizeCommands len) (w.resizeCommands len) := by
  have queued : (w.resizeCommands len).queuedCommands = w.queuedCommands := by
    simp [World.queuedCommands, World.resizeCommands]
  have same : World.SameTables w (w.resizeCommands len) := ⟨rfl, rfl, rfl, rfl, rfl⟩
  rcases ready.queue same rfl (queued ▸ .refl _) (queued ▸ ready.regular) with
    ⟨readyAfter, states⟩
  exact ⟨lost, readyAfter, states ▸ .queue rfl⟩

theorem Call.pushCommand_refines (ready : w.Ready types lost) {systemIdx : Nat}
    {command : CommandPayload Value} (fresh : command.isFresh = true)
    (pushed : w.pushCommand systemIdx command = some after) :
    Refines types lost w (.pushCommand systemIdx command) after := by
  have early := World.earlyIds_pushCommand fresh pushed
  rcases Option.bind_eq_some_iff.mp pushed with ⟨buffer, found, same⟩
  cases same
  have same : World.SameTables w (w.setBuffer systemIdx (buffer ++ [command])) :=
    ⟨rfl, rfl, rfl, rfl, rfl⟩
  have queued : ∀ other ∈ (w.setBuffer systemIdx (buffer ++ [command])).queuedCommands,
      other.Regular types := by
    intro other member
    rcases World.mem_queuedCommands_setBuffer member with before | among
    · exact ready.regular other before
    · rcases List.mem_append.mp among with before | pushed
      · exact ready.regular other
          (List.mem_flatten.mpr ⟨buffer, List.mem_of_getElem? found, before⟩)
      · cases List.mem_singleton.mp pushed
        exact CommandPayload.regular_of_isFresh fresh
  rcases ready.queue same rfl early queued with ⟨readyAfter, states⟩
  exact ⟨lost, readyAfter, states ▸ .queue fresh⟩

theorem Call.extendCommand_refines (ready : w.Ready types lost) {systemIdx : Nat}
    {command : ComponentCommand Value} (regular : command.Regular types)
    (extended : w.extendCommand systemIdx command = some after) :
    Refines types lost w (.extendCommand systemIdx command) after := by
  have early := World.earlyIds_extendCommand extended
  rcases Option.bind_eq_some_iff.mp extended with ⟨commands, last, set⟩
  have queued : ∀ other ∈ after.queuedCommands, other.Regular types := by
    intro other member
    rcases World.mem_queuedCommands_setLastCommand set member with before | rfl
    · exact ready.regular other before
    · have payload := ready.regular _ (World.lastCommand_queued last)
      simp only [CommandPayload.Regular, List.mem_append, List.mem_singleton] at payload ⊢
      intro change changes
      rcases changes with before | rfl
      · exact payload change before
      · exact regular
  rcases ready.queue (World.setLastCommand_same set) (World.resources_setLastCommand set)
      early queued with ⟨readyAfter, states⟩
  exact ⟨lost, readyAfter, states ▸ .queue rfl⟩

theorem Call.commandId_refines (ready : w.Ready types lost) {systemIdx : Nat}
    {result : Except HandleTableError EntityId}
    (asked : w.commandId systemIdx = some (result, after)) :
    Refines types lost w (.commandId systemIdx) after := by
  rcases ready.commandId asked with ⟨readyAfter, states | ⟨id, free, states⟩⟩
  · exact ⟨lost, readyAfter, states ▸ .queue rfl⟩
  · exact ⟨lost, readyAfter, states ▸ .handed free⟩

theorem Call.applyCommands_refines (ready : w.Ready types lost) (apart : HashesApart types)
    {batch : List (CommandPayload Value)} (sorts : SortCommands id w.queuedCommands batch)
    (tidily : along CommandPayload.apply CommandPayload.tidy batch w.drained = true)
    {result : WorldResult Unit} (applied : w.applySorted batch = some (result, after)) :
    Refines types lost w (.applyCommands batch) after := by
  rcases ready.sorted sorts with ⟨orderly, batchRegular, states⟩
  rcases orderly.applySorted apart batchRegular tidily with
    ⟨_, _, _, _, _, _, _, stuck⟩ | ⟨_, _, waiting, again, orderlyAfter, _, applies⟩
  · rw [applied] at stuck
    cases stuck
  · cases applied.symm.trans again
    rcases orderlyAfter.ready (World.queuedCommands_applySorted applied) with
      ⟨readyAfter, same⟩
    rw [states, ← same] at applies
    exact ⟨waiting, readyAfter, .batch applies⟩

theorem Call.vacuum_refines (ready : w.Ready types lost) (apart : HashesApart types)
    (parked : w.ParkedEmpty) : Refines types lost w .vacuum w.vacuum := by
  rcases ready.orderly.awaits.housed.vacuum parked with ⟨housed, _, keeps⟩
  have shrinks : ∀ ptr table, w.vacuum.tables ptr = some table →
      w.tables ptr = some table := by
    intro ptr table found
    simp only [World.vacuum] at found
    split at found
    · cases found
    · exact found
  have void : (w.vacuum.archetypes[VOID_TY]?).isSome = true := by
    rcases ready.orderly.void with ⟨ptr, _, owner, _⟩
    exact Option.isSome_iff_exists.mpr ⟨ptr, owner⟩
  rcases ready.orderly.keeps apart housed keeps shrinks void rfl with ⟨orderly, states⟩
  have same : w.vacuum.readyState lost = w.readyState lost := states
  exact ⟨lost, ⟨orderly, ready.regular⟩, same ▸ .vacuum⟩

theorem Call.clone_refines (ready : w.Ready types lost) (listed : w.AllListed)
    (cloned : w.clone = some after) : Refines types lost w .clone after := by
  have wf := ready.orderly.toWellFormed
  have walked := ready.orderly.awaits.accounted.liveWalked listed
  rcases World.clone_copies wf walked with ⟨index, _, copied, _, copies⟩
  cases cloned.symm.trans copied
  rcases ready.orderly.awaits.accounted.clone wf.toOwned listed cloned with ⟨accounted, _⟩
  have states : (w.cloneWith index).readyState (earlyIds w.queuedCommands ++ lost) =
      w.readyState lost := by
    rw [World.readyState, World.readyState, World.state, World.state, copies.view,
      copies.resources]
    rfl
  refine ⟨earlyIds w.queuedCommands ++ lost, ⟨⟨copies.wellFormed, ?_,
    (ready.orderly.awaits.housed.clone listed copied).1, accounted,
    ready.orderly.awaits.distinct⟩, fun _ member => absurd member List.not_mem_nil⟩,
    states ▸ .clone⟩
  intro ptr table found
  rcases World.clonedTables_eq_some.mp found with ⟨before, _, _, foundBefore⟩
  exact ready.orderly.known before table foundBefore

/-- Each call is a step on the abstract state. -/
theorem Call.run_refines (ready : w.Ready types lost) (apart : HashesApart types)
    {call : Call Value} (admissible : call.Admissible w) (regular : call.Regular types w)
    (ran : call.run w = some after) : Refines types lost w call after := by
  cases call with
  | writeCell ptr ty index value =>
      cases ran
      exact writeCell_refines ready ptr ty index value
  | resizeCommands len =>
      cases ran
      exact resizeCommands_refines ready len
  | pushCommand systemIdx command => exact pushCommand_refines ready admissible ran
  | extendCommand systemIdx command => exact extendCommand_refines ready regular ran
  | commandId systemIdx =>
      rcases Option.map_eq_some_iff.mp ran with ⟨⟨result, _⟩, asked, rfl⟩
      exact commandId_refines ready asked
  | applyCommands batch =>
      rcases Option.map_eq_some_iff.mp ran with ⟨⟨result, _⟩, applied, rfl⟩
      exact applyCommands_refines ready apart admissible regular applied
  | vacuum =>
      cases ran
      exact vacuum_refines ready apart regular
  | clone => exact clone_refines ready regular ran
  | insertEntity => exact ⟨lost, run_refines_command ready apart rfl regular ran⟩
  | deleteEntity id => exact ⟨lost, run_refines_command ready apart rfl regular ran⟩
  | insertId id => exact ⟨lost, run_refines_command ready apart rfl regular ran⟩
  | reserveEntities additional => exact ⟨lost, run_refines_command ready apart rfl regular ran⟩
  | mergeEntities lhs rhs => exact ⟨lost, run_refines_command ready apart rfl regular ran⟩
  | insertResource ty value => exact ⟨lost, run_refines_command ready apart rfl regular ran⟩
  | removeResource ty => exact ⟨lost, run_refines_command ready apart rfl regular ran⟩

end Calls

section Runs

variable {Value : Type} [UnitTypeId] [BuiltinValues Value] {w after : World Value}
  {types : Finset TypeId} {lost : List EntityId} {calls : List (Call Value)}

open World (Ready)
open EntityState (AppliesAll DoesAll)

/-- Each call can be made when its turn comes, and is regular then. -/
def Call.RegularAlong (types : Finset TypeId) : World Value → List (Call Value) → Prop
  | _, [] => True
  | w, call :: rest => call.Admissible w ∧ call.Regular types w ∧
      ∀ middle, call.run w = some middle → RegularAlong types middle rest

theorem Call.RegularAlong.concat (call : Call Value) (regular : RegularAlong types w calls)
    (ran : calls.foldlM Call.run w = some after) (admissible : call.Admissible after)
    (last : call.Regular types after) : RegularAlong types w (calls ++ [call]) := by
  induction calls generalizing w with
  | nil =>
      cases ran
      exact ⟨admissible, last, fun _ _ => trivial⟩
  | cons first rest induction =>
      rw [List.foldlM_cons] at ran
      rcases Option.bind_eq_some_iff.mp ran with ⟨middle, head, others⟩
      rcases regular with ⟨able, sensible, along⟩
      refine ⟨able, sensible, ?_⟩
      intro other again
      cases head.symm.trans again
      exact induction (along middle head) others

theorem World.Ready.runs (ready : w.Ready types lost) (apart : HashesApart types)
    (regular : Call.RegularAlong types w calls) (ran : calls.foldlM Call.run w = some after) :
    ∃ lostAfter, after.Ready types lostAfter ∧
      DoesAll w (w.readyState lost) calls after (after.readyState lostAfter) := by
  induction calls generalizing w lost with
  | nil =>
      cases ran
      exact ⟨lost, ready, .done⟩
  | cons call rest induction =>
      rw [List.foldlM_cons] at ran
      rcases Option.bind_eq_some_iff.mp ran with ⟨middle, first, others⟩
      rcases regular with ⟨admissible, sensible, along⟩
      rcases Call.run_refines ready apart admissible sensible first with
        ⟨lostMiddle, readyMiddle, does⟩
      rcases induction readyMiddle (along middle first) others with
        ⟨lostAfter, readyAfter, doesRest⟩
      exact ⟨lostAfter, readyAfter, .next first does doesRest⟩

/-- The state of a new world. -/
def EntityState.first : EntityState Value where
  entities _ := none
  waiting := ∅
  resources ty := (World.firstResources : BTreeMap TypeId Value)[ty]?

/-- Nothing is in a new world, and nobody waits. -/
theorem World.ready_new {initialCapacity : Nat} (created : World.new initialCapacity = some w)
    (unit : unitTypeId ∈ types) :
    w.Ready types [] ∧ w.readyState [] = EntityState.first := by
  have awaits := World.awaits_nil_iff.mpr
    ⟨(World.unparked_new created).toHoused, World.accounted_new created⟩
  have orderly : w.Orderly types [] :=
    ⟨(World.new_spec created).1, World.knows_new created unit, awaits⟩
  have empty : w.queuedCommands = [] := congrArg List.flatten (World.commands_new created)
  rcases orderly.ready empty with ⟨ready, states⟩
  have resources : w.resources = World.firstResources := by
    simp only [World.new, Option.bind_eq_bind, Option.bind_eq_some_iff, Option.pure_def,
      Option.some.injEq] at created
    rcases created with ⟨_, _, rfl⟩
    rfl
  refine ⟨ready, ?_⟩
  rw [states, World.state, (World.new_spec created).2, resources, EntityState.first]
  simp

/-- `apply_commands` stops for lack of room at one of its commands, or it returns, and has done
what the queued commands mean: nothing is lost or doubled by the sort of the tables at its end. -/
theorem World.Ready.applyCommands (ready : w.Ready types lost) (apart : HashesApart types)
    {batch : List (CommandPayload Value)} (sorts : SortCommands id w.queuedCommands batch)
    (tidily : along CommandPayload.apply CommandPayload.tidy batch w.drained = true) :
    (∃ front command back middle, batch = front ++ command :: back ∧
      applyBatch front w.drained = some (.ok (), middle) ∧ command.refused middle ∧
      w.applySorted batch = none) ∨
    ∃ result after waiting, w.applySorted batch = some (result, after) ∧
      after.Ready types waiting ∧ (result = .ok () → waiting = lost ∧ after.ParkedEmpty) ∧
      AppliesAll (w.readyState lost) batch result (after.readyState waiting) := by
  rcases ready.sorted sorts with ⟨orderly, batchRegular, states⟩
  rcases orderly.applySorted apart batchRegular tidily with
    stuck | ⟨result, after, waiting, applied, orderlyAfter, done, applies⟩
  · exact Or.inl stuck
  · right
    rcases orderlyAfter.ready (World.queuedCommands_applySorted applied) with ⟨readyAfter, same⟩
    rw [states, ← same] at applies
    exact ⟨result, after, waiting, applied, readyAfter, done, applies⟩

end Runs

section Example

open Sample
open EntityState (AppliesAll DoesAll)

/-- An entity, and another one with an early id and a component; last, a command for an entity
that is not there. -/
def makeTwo : List (Call Nat) :=
  [.insertEntity, .resizeCommands 1, .pushCommand 0 (.Entity ⟨.Insert, []⟩), .commandId 0,
    .extendCommand 0 (.Insert [(7#128, 5)]), fetchDead]

theorem makeTwo_regular (w : World Nat) :
    Call.RegularAlong ({1#128, 7#128} : Finset TypeId) w makeTwo := by
  have bundle : (ComponentCommand.Insert [(7#128, 5)] : ComponentCommand Nat).Regular
      {1#128, 7#128} := ⟨by simp [Bundle.Distinct], by decide⟩
  exact ⟨trivial, trivial, fun _ _ => ⟨trivial, trivial, fun _ _ => ⟨rfl, trivial, fun _ _ =>
    ⟨trivial, trivial, fun _ _ => ⟨trivial, bundle, fun _ _ => ⟨rfl, trivial, fun _ _ =>
      trivial⟩⟩⟩⟩⟩⟩

theorem World.Ready.applyCommands_sample :
    ∃ (w after : World Nat) (batch : List (CommandPayload Nat)) (lost : List EntityId)
      (s : EntityState Nat), w.applySorted batch = some (.error .EntityNotFound, after) ∧
      AppliesAll (w.readyState lost) batch (.error .EntityNotFound) s ∧
      s.entities = after.view := by
  obtain ⟨start, queued, w, batch, created, made, sorted, tidy, applied⟩ :
      ∃ (start queued w : World Nat) (batch : List (CommandPayload Nat)),
        World.new 4 = some start ∧ makeTwo.foldlM Call.run start = some queued ∧
        sortCommands id queued.queuedCommands = batch ∧
        along CommandPayload.apply CommandPayload.tidy batch queued.drained = true ∧
        queued.applySorted batch = some (.error .EntityNotFound, w) :=
    ⟨_, _, _, _, rfl, rfl, rfl, rfl, rfl⟩
  have hashes : HashesApart ({1#128, 7#128} : Finset TypeId) := by decide
  have sorts : SortCommands id queued.queuedCommands batch := sorted ▸ sortCommands_sorts id _
  have unit : unitTypeId ∈ ({1#128, 7#128} : Finset TypeId) := by decide
  rcases (World.ready_new created unit).1.runs hashes (makeTwo_regular start) made with
    ⟨lost, ready, _⟩
  rcases ready.applyCommands hashes sorts tidy with
    ⟨_, _, _, _, _, _, _, stuck⟩ | ⟨_, _, waiting, again, _, _, applies⟩
  · rw [applied] at stuck
    cases stuck
  · cases applied.symm.trans again
    exact ⟨queued, w, batch, lost, w.readyState waiting, applied, applies, rfl⟩

end Example

end Cecs

import Cecs.Systems.Parts

/-! # The queue of the commands

The buffers and the index that ids are allocated from are one part of the world. What
the methods of `Commands` do depends on nothing else, and no entity moves. -/

namespace Cecs

open Foundation

variable {Value α : Type} {w source : World Value}

/-- An allocation moves nobody. -/
theorem World.Indexed.allocate (indexed : w.Indexed)
    {result : Except HandleTableError EntityId} {entityIds : EntityIndex}
    (allocation : w.entityIds.allocate = some (result, entityIds)) :
    (w.setIndex entityIds).Indexed ∧ entityIds.place = w.entityIds.place := by
  rcases indexed with ⟨slots, sound⟩
  cases result with
  | ok id =>
      rcases sound.allocate_ok allocation with ⟨rest, soundRest, places, _⟩
      exact ⟨⟨rest, soundRest⟩, places⟩
  | error error =>
      have same := sound.allocate_error allocation
      exact ⟨⟨slots, same ▸ sound⟩, by rw [same]⟩

/-- The world with the queue of another one. -/
def World.withQueue (w source : World Value) : World Value :=
  { w with entityIds := source.entityIds, commands := source.commands }

namespace World

variable {systemIdx : Nat}

theorem pushCommand_withQueue (command : CommandPayload Value) :
    (w.withQueue source).pushCommand systemIdx command =
      (source.pushCommand systemIdx command).map w.withQueue := by
  simp only [pushCommand, Option.bind_eq_bind, Option.map_bind]
  rfl

theorem setLastCommand_withQueue (commands : EntityCommands Value) :
    (w.withQueue source).setLastCommand systemIdx commands =
      (source.setLastCommand systemIdx commands).map w.withQueue := by
  simp only [setLastCommand, Option.bind_eq_bind, Option.map_bind]
  rfl

theorem extendCommand_withQueue (command : ComponentCommand Value) :
    (w.withQueue source).extendCommand systemIdx command =
      (source.extendCommand systemIdx command).map w.withQueue := by
  simp only [extendCommand, setLastCommand_withQueue, Option.bind_eq_bind, Option.map_bind]
  rfl

theorem commandId_withQueue :
    (w.withQueue source).commandId systemIdx =
      (source.commandId systemIdx).map fun result => (result.1, w.withQueue result.2) := by
  have same : (w.withQueue source).lastCommand systemIdx = source.lastCommand systemIdx := rfl
  simp only [commandId, same, Option.bind_eq_bind, Option.map_bind]
  apply Option.bind_congr
  rintro ⟨action, payload⟩ _
  cases action with
  | Insert =>
      have index : (w.withQueue source).entityIds = source.entityIds := rfl
      simp only [index]
      cases source.entityIds.allocate with
      | none => rfl
      | some allocation =>
          rcases allocation with ⟨result, entityIds⟩
          cases result with
          | error error => rfl
          | ok id =>
              have moved : (w.withQueue source).setIndex entityIds =
                  w.withQueue (source.setIndex entityIds) := rfl
              simp only [Option.bind_some, moved, setLastCommand_withQueue, Option.bind_map,
                Function.comp_apply, Option.map_bind]
              rfl
  | _ => rfl

theorem index_setLastCommand {after : World Value} {commands : EntityCommands Value}
    (done : w.setLastCommand systemIdx commands = some after) :
    after.entityIds = w.entityIds := by
  simp only [setLastCommand, Option.bind_eq_bind, Option.bind_eq_some_iff, Option.pure_def,
    Option.some.injEq] at done
  rcases done with ⟨_, _, rfl⟩
  rfl

theorem index_extendCommand {after : World Value} {command : ComponentCommand Value}
    (done : w.extendCommand systemIdx command = some after) :
    after.entityIds = w.entityIds := by
  simp only [extendCommand, Option.bind_eq_bind, Option.bind_eq_some_iff] at done
  rcases done with ⟨_, _, done⟩
  exact index_setLastCommand done

theorem Indexed.congr {other : World Value} (indexed : w.Indexed)
    (same : other.entityIds = w.entityIds) : other.Indexed := by
  rw [Indexed, same]
  exact indexed

theorem Indexed.commandId (indexed : w.Indexed) {after : World Value}
    {result : Except HandleTableError EntityId}
    (done : w.commandId systemIdx = some (result, after)) :
    after.Indexed ∧ after.entityIds.place = w.entityIds.place := by
  simp only [World.commandId, Option.bind_eq_bind, Option.bind_eq_some_iff] at done
  rcases done with ⟨⟨action, payload⟩, _, done⟩
  cases action with
  | Insert =>
      simp only [Option.bind_eq_some_iff] at done
      rcases done with ⟨⟨allocated, entityIds⟩, allocation, done⟩
      have kept := indexed.allocate allocation
      cases allocated with
      | error error =>
          cases done
          exact kept
      | ok id =>
          simp only [Option.bind_eq_some_iff, Option.pure_def, Option.some.injEq,
            Prod.mk.injEq] at done
          rcases done with ⟨_, queued, _, rfl⟩
          have same := index_setLastCommand queued
          exact ⟨kept.1.congr same, same ▸ kept.2⟩
  | _ =>
      cases done
      exact ⟨indexed, rfl⟩

end World

/-- What an action does to the queue is what it does at all. -/
def QueueOnly (action : Action (World Value) α) : Prop :=
  ∀ w source : World Value, action (w.withQueue source) =
    (action source).map fun result => (result.1, w.withQueue result.2)

theorem confined_queue {action : Action (World Value) α} (queues : QueueOnly action)
    (places : ∀ {w after : World Value} {answer : α}, w.Indexed →
      action w = some (answer, after) →
        after.Indexed ∧ after.entityIds.place = w.entityIds.place) :
    Confined (World.parts Value) World.Indexed (Footprint.single .queue) action where
  keeps indexed done := (places indexed done).1
  frame := by
    intro w after answer indexed done part unwritten
    have same : after = w.withQueue after := by
      have alone := queues w w
      change action w = _ at alone
      rw [done, Option.map_some, Option.some.injEq, Prod.mk.injEq] at alone
      exact alone.2
    change World.Agree part w after
    cases part with
    | queue => exact absurd rfl unwritten
    | places => exact (places indexed done).2.symm
    | _ =>
        rw [same]
        rfl
  depends := by
    intro w other after answer _ _ agree done
    have queue : w.entityIds = other.entityIds ∧ w.commands = other.commands := agree .queue rfl
    have same : other.withQueue w = other := by
      rw [World.withQueue, queue.1, queue.2]
    refine ⟨other.withQueue after, ?_, ?_⟩
    · rw [← same, queues, done]
      rfl
    · rintro part rfl
      exact ⟨rfl, rfl⟩

end Cecs

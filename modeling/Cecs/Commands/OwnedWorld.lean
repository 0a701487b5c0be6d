import Cecs.Commands.Storage

/-! # The owners of a world's boxes

A world owns the boxes of its resources and those of its queued commands. Each operation
through the pointers is in lockstep with the one on typed values. -/

namespace Cecs

open Foundation

section Owned

variable {Value : Type}

namespace ErasedPayload

variable {heap : Heap Value} {rest : Multiset (Nat × BoxContent Value)}

theorem drop_owned (command : OwnedCommand Value) (owns : heap.Owns (command.boxes + rest)) :
    ∃ after, drop command.erased heap = some after ∧ after.Owns rest := by
  cases command with
  | Entity action payload => exact ErasedComponentCommand.dropAll_owned owns
  | Resource entry => exact dropInner_owned owns
  | World command =>
      rw [OwnedCommand.boxes, zero_add] at owns
      exact ⟨heap, rfl, owns⟩

theorem dropAll_owned {commands : List (OwnedCommand Value)}
    (owns : heap.Owns (OwnedCommand.allBoxes commands + rest)) :
    ∃ after, dropAll (commands.map OwnedCommand.erased) heap = some after ∧ after.Owns rest := by
  rw [dropAll, List.foldlM_map]
  exact Boxes.Owns.foldlM (fun command _ _ => drop_owned command) owns

theorem new_owned {command : CommandPayload Value} (fresh : command.isFresh = true)
    (owns : heap.Owns rest) :
    ∃ (owned : OwnedCommand Value) (after : Heap Value),
      new command heap = some (owned.erased, after) ∧ owned.plain = command ∧
      after.Owns (owned.boxes + rest) := by
  cases command with
  | Entity commands =>
      rcases commands with ⟨action, payload⟩
      have empty : payload = [] := by
        cases action <;> simp_all [CommandPayload.isFresh]
      subst empty
      exact ⟨.Entity action [], heap, rfl, rfl, by simpa [OwnedCommand.boxes, payloadBoxes]⟩
  | Resource command => exact ⟨.Resource (heap.next, command), _, rfl, rfl, owns.leak _⟩
  | World command => exact ⟨.World command, heap, rfl, rfl, by simpa [OwnedCommand.boxes]⟩

end ErasedPayload

theorem ErasedResourceCommand.apply_owned {heap : Heap Value}
    {rest : Multiset (Nat × BoxContent Value)} {resources : OwnedResources Value}
    {entry : Nat × ResourceCommand Value}
    (owns : heap.Owns ({(entry.1, .resourceCommand entry.2)} + (resources.boxes + rest))) :
    ∃ (after : OwnedResources Value) (heap' : Heap Value),
      (ErasedResourceCommand.boxed entry).apply resources.erased heap =
        some (after.erased, heap') ∧ heap'.Owns (after.boxes + rest) ∧
      ∀ (base : World Value) commands, entry.2.apply (base.carrying resources.plain commands) =
        some (.ok (), base.carrying after.plain commands) := by
  rcases owns.fromRaw with ⟨middle, taken, ownsRest⟩
  rcases entry with ⟨address, command⟩
  cases command with
  | Insert ty value =>
      rcases ResourceStorage.insert_owned ty value ownsRest with ⟨after, inserted, ownsAfter⟩
      refine ⟨_, after, ?_, ownsAfter, ?_⟩
      · simp only [apply, boxed, Option.bind_eq_bind, Option.bind_some, taken, inserted]
        rfl
      · intro base commands
        rw [OwnedResources.plain_insert]
        rfl
  | Delete ty =>
      rcases ResourceStorage.remove_owned ty ownsRest with ⟨removed, ownsRemoved⟩
      rcases dropInner_resource ownsRemoved with ⟨after, dropped, ownsAfter⟩
      refine ⟨_, after, ?_, ownsAfter, ?_⟩
      · simp only [apply, boxed, Option.bind_eq_bind, Option.bind_some, taken, removed, dropped]
        rfl
      · intro base commands
        rw [OwnedResources.plain_erase]
        rfl

/-- A world with the addresses of its boxes. The resources and buffers of `base` are not
looked at. -/
structure OwnedWorld (Value : Type) where
  base : World Value
  resources : OwnedResources Value
  commands : List (List (OwnedCommand Value))

namespace OwnedWorld

/-- What the program keeps. -/
def erased (self : OwnedWorld Value) : BoxedWorld Value :=
  { base := self.base
    resources := self.resources.erased
    commands := self.commands.map fun buffer => buffer.map OwnedCommand.erased }

/-- What it stands for. -/
def plain (self : OwnedWorld Value) : World Value :=
  self.base.carrying self.resources.plain
    (self.commands.map fun buffer => buffer.map OwnedCommand.plain)

def boxes (self : OwnedWorld Value) : Multiset (Nat × BoxContent Value) :=
  self.resources.boxes + (self.commands.map OwnedCommand.allBoxes).sum

def setBuffer (self : OwnedWorld Value) (systemIdx : Nat) (buffer : List (OwnedCommand Value)) :
    OwnedWorld Value :=
  { self with commands := self.commands.set systemIdx buffer }

/-- The world of the program stands for `plain`, and owns its boxes but not `rest`. -/
def Behind (rest : Multiset (Nat × BoxContent Value)) (boxed : BoxedWorld Value × Heap Value)
    (plain : World Value) : Prop :=
  ∃ world : OwnedWorld Value, world.erased = boxed.1 ∧ world.plain = plain ∧
    boxed.2.Owns (world.boxes + rest)

/-- With the same result. -/
def Leaves (rest : Multiset (Nat × BoxContent Value))
    (boxed : WorldResult Unit × BoxedWorld Value × Heap Value)
    (plain : WorldResult Unit × World Value) : Prop :=
  boxed.1 = plain.1 ∧ Behind rest boxed.2 plain.2

variable {world : OwnedWorld Value} {heap : Heap Value}
  {rest : Multiset (Nat × BoxContent Value)}

def drained (self : OwnedWorld Value) : OwnedWorld Value :=
  { self with commands := self.commands.map fun _ => [] }

theorem drained_boxes (self : OwnedWorld Value) : self.drained.boxes = self.resources.boxes := by
  rw [boxes, drained, List.map_map]
  simp [OwnedCommand.allBoxes, Function.comp_def]

theorem boxes_drained {batch : List (OwnedCommand Value)}
    (sorted : batch.Perm world.commands.flatten) :
    world.boxes = OwnedCommand.allBoxes batch + world.drained.boxes := by
  have queued : OwnedCommand.allBoxes batch = OwnedCommand.allBoxes world.commands.flatten :=
    (sorted.map _).sum_eq
  rw [drained_boxes, queued, OwnedCommand.allBoxes_flatten, boxes, add_comm]

section Apply

variable [UnitTypeId] [BuiltinValues Value]

theorem apply_owned (command : OwnedCommand Value)
    (owns : heap.Owns (command.boxes + (world.boxes + rest))) :
    Lockstep (Leaves rest) (ErasedPayload.apply command.erased world.erased heap)
      (command.plain.apply world.plain) := by
  cases command with
  | Entity action payload =>
      have both := ErasedComponentCommand.applyEntity_owned (w := world.base) action owns
      simp only [OwnedCommand.plain, CommandPayload.apply, plain, EntityCommands.apply_carrying]
      rw [Option.map_eq_bind]
      refine both.bind ?_
      rintro ⟨result, after, heap'⟩ _ ⟨rfl, ownsRest⟩
      exact .some ⟨rfl, { world with base := after }, rfl, rfl, ownsRest⟩
  | Resource entry =>
      rw [boxes, add_assoc] at owns
      rcases ErasedResourceCommand.apply_owned owns with ⟨after, heap', applied, ownsAfter, typed⟩
      have plainly : (OwnedCommand.plain (.Resource entry)).apply world.plain =
          some (.ok (), { world with resources := after }.plain) := typed _ _
      rw [plainly]
      have boxed : ErasedPayload.apply (OwnedCommand.erased (.Resource entry)) world.erased heap =
          some (.ok (), { world with resources := after }.erased, heap') := by
        simp only [OwnedCommand.erased, QueuedCommand.map, ErasedPayload.apply, erased, applied,
          Option.bind_eq_bind, Option.bind_some]
        rfl
      rw [boxed]
      exact .some ⟨rfl, _, rfl, rfl, by rw [boxes, add_assoc]; exact ownsAfter⟩
  | World command =>
      cases command with
      | Reserve additional =>
          rw [OwnedCommand.boxes, zero_add] at owns
          simp only [OwnedCommand.plain, CommandPayload.apply, WorldCommands.apply, plain,
            World.reserveEntities_carrying, Option.bind_eq_bind, Option.bind_map]
          refine Lockstep.binds _ fun base => ?_
          exact .some ⟨rfl, { world with base }, rfl, rfl, owns⟩

theorem applyBatch_owned {batch : List (OwnedCommand Value)}
    (owns : heap.Owns (OwnedCommand.allBoxes batch + (world.boxes + rest))) :
    Lockstep (Leaves rest)
      (ErasedPayload.applyBatch (batch.map OwnedCommand.erased) world.erased heap)
      (applyBatch (batch.map OwnedCommand.plain) world.plain) := by
  induction batch generalizing world heap with
  | nil =>
      rw [OwnedCommand.allBoxes, List.map_nil, List.sum_nil, zero_add] at owns
      exact .some ⟨rfl, world, rfl, rfl, owns⟩
  | cons command batch induction =>
      rw [OwnedCommand.allBoxes, List.map_cons, List.sum_cons, add_assoc, ← add_assoc _ world.boxes,
        add_comm _ world.boxes, add_assoc] at owns
      rw [List.map_cons, List.map_cons, ErasedPayload.applyBatch, applyBatch, forEach]
      refine (apply_owned command owns).bind ?_
      rintro ⟨result, _, middle⟩ ⟨_, _⟩ ⟨same, after, rfl, rfl, ownsRest⟩
      dsimp only at same ownsRest
      subst same
      cases result with
      | ok done =>
          rw [← add_assoc, add_comm after.boxes, add_assoc] at ownsRest
          exact induction ownsRest
      | error error =>
          rw [← add_assoc, add_comm after.boxes, add_assoc] at ownsRest
          rcases ErasedPayload.dropAll_owned ownsRest with ⟨last, dropped, ownsLast⟩
          simp only [Option.bind_eq_bind, dropped]
          exact .some ⟨rfl, after, rfl, rfl, ownsLast⟩

theorem applyCommands_owned {batch : List (OwnedCommand Value)}
    (sorted : batch.Perm world.commands.flatten) (owns : heap.Owns (world.boxes + rest)) :
    Lockstep (Leaves rest)
      (world.erased.applyCommands (batch.map OwnedCommand.erased) heap)
      (world.plain.applySorted (batch.map OwnedCommand.plain)) := by
  have drainedErased : ({ world.erased with
      commands := world.erased.commands.map fun _ => [] } : BoxedWorld Value) =
        world.drained.erased := by
    simp [erased, drained, Function.comp_def]
  have drainedPlain : world.plain.drained = world.drained.plain := by
    simp [plain, drained, World.drained, World.carrying, Function.comp_def]
  rw [boxes_drained sorted, add_assoc] at owns
  rw [BoxedWorld.applyCommands, World.applySorted, drainedErased, drainedPlain]
  refine (applyBatch_owned owns).bind ?_
  rintro ⟨result, _, middle⟩ ⟨_, _⟩ ⟨same, after, rfl, rfl, ownsRest⟩
  dsimp only at same ownsRest
  subst same
  cases result with
  | ok done =>
      simp only [plain, World.moveArchetypes_carrying, Option.bind_eq_bind, Option.bind_map]
      refine Lockstep.binds _ fun base => ?_
      exact .some ⟨rfl, { after with base }, rfl, rfl, ownsRest⟩
  | error error => exact .some ⟨rfl, after, rfl, rfl, ownsRest⟩

end Apply

section Buffers

/-- One buffer, and the boxes of all the others. -/
theorem boxes_setBuffer {systemIdx : Nat} {cmd : List (OwnedCommand Value)}
    (found : world.commands[systemIdx]? = some cmd) :
    ∃ others, world.boxes = OwnedCommand.allBoxes cmd + others ∧
      ∀ buffer, (world.setBuffer systemIdx buffer).boxes =
        OwnedCommand.allBoxes buffer + others := by
  rcases sum_set OwnedCommand.allBoxes found with ⟨others, before, after⟩
  refine ⟨world.resources.boxes + others, ?_, ?_⟩
  · rw [boxes, before, add_left_comm]
  · intro buffer
    rw [boxes, setBuffer, after, add_left_comm]

theorem erased_setBuffer (systemIdx : Nat) (buffer : List (OwnedCommand Value)) :
    (world.setBuffer systemIdx buffer).erased =
      world.erased.setBuffer systemIdx (buffer.map OwnedCommand.erased) := by
  rw [erased, setBuffer, List.map_set]
  rfl

theorem plain_setBuffer (systemIdx : Nat) (buffer : List (OwnedCommand Value)) :
    (world.setBuffer systemIdx buffer).plain =
      world.plain.setBuffer systemIdx (buffer.map OwnedCommand.plain) := by
  rw [plain, setBuffer, List.map_set]
  rfl

theorem erased_commands_getElem? (systemIdx : Nat) : world.erased.commands[systemIdx]? =
    world.commands[systemIdx]?.map fun buffer => buffer.map OwnedCommand.erased :=
  List.getElem?_map

theorem plain_commands_getElem? (systemIdx : Nat) : world.plain.commands[systemIdx]? =
    world.commands[systemIdx]?.map fun buffer => buffer.map OwnedCommand.plain :=
  List.getElem?_map

theorem pushCommand_owned {command : CommandPayload Value} (fresh : command.isFresh = true)
    (systemIdx : Nat) (owns : heap.Owns (world.boxes + rest)) :
    Lockstep (Behind rest) (world.erased.pushCommand systemIdx command heap)
      (world.plain.pushCommand systemIdx command) := by
  rcases ErasedPayload.new_owned fresh owns with ⟨owned, after, made, rfl, ownsAfter⟩
  rw [BoxedWorld.pushCommand, World.pushCommand, erased_commands_getElem?,
    plain_commands_getElem?]
  cases found : world.commands[systemIdx]? with
  | none => exact .none
  | some cmd =>
      rcases boxes_setBuffer found with ⟨others, before, set⟩
      simp only [Option.map_some, Option.bind_eq_bind, Option.bind_some, made]
      refine .some ⟨world.setBuffer systemIdx (cmd ++ [owned]), ?_, ?_, ?_⟩
      · rw [erased_setBuffer, List.map_append]
        rfl
      · rw [plain_setBuffer, List.map_append]
        rfl
      · rw [set, OwnedCommand.allBoxes_concat]
        rw [before] at ownsAfter
        simpa only [add_assoc] using ownsAfter

/-- `cmd.last_mut().unwrap().entity_mut()` -/
def lastCommand (self : OwnedWorld Value) (systemIdx : Nat) :
    Option (EntityAction × List (Nat × ComponentCommand Value)) := do
  let cmd ← self.commands[systemIdx]?
  match ← cmd.getLast? with
  | .Entity action payload => some (action, payload)
  | _ => none

theorem erased_lastCommand (systemIdx : Nat) : world.erased.lastCommand systemIdx =
    (world.lastCommand systemIdx).map fun last =>
      (last.1, last.2.map ErasedComponentCommand.boxed) := by
  rw [BoxedWorld.lastCommand, lastCommand, erased_commands_getElem?]
  cases world.commands[systemIdx]? with
  | none => rfl
  | some cmd =>
      simp only [Option.map_some, Option.bind_eq_bind, Option.bind_some, List.getLast?_map]
      cases cmd.getLast? with
      | none => rfl
      | some last => cases last <;> rfl

theorem plain_lastCommand (systemIdx : Nat) : world.plain.lastCommand systemIdx =
    (world.lastCommand systemIdx).map fun last =>
      { action := last.1, payload := last.2.map Prod.snd } := by
  rw [World.lastCommand, lastCommand, plain_commands_getElem?]
  cases world.commands[systemIdx]? with
  | none => rfl
  | some cmd =>
      simp only [Option.map_some, Option.bind_eq_bind, Option.bind_some, List.getLast?_map]
      cases cmd.getLast? with
      | none => rfl
      | some last => cases last <;> rfl

/-- The last command of a buffer in the place of the one that `lastCommand` finds. -/
theorem setLastCommand_owned {systemIdx : Nat} {action : EntityAction}
    {payload : List (Nat × ComponentCommand Value)}
    (last : world.lastCommand systemIdx = some (action, payload)) :
    ∃ others, world.boxes = payloadBoxes payload + others ∧ ∀ base action payload,
      ∃ after : OwnedWorld Value,
        { world with base }.erased.setLastCommand systemIdx action
          (payload.map ErasedComponentCommand.boxed) = some after.erased ∧
        { world with base }.plain.setLastCommand systemIdx
          { action, payload := payload.map Prod.snd } = some after.plain ∧
        after.boxes = payloadBoxes payload + others := by
  rw [lastCommand] at last
  rcases Option.bind_eq_some_iff.mp last with ⟨cmd, found, last⟩
  rcases Option.bind_eq_some_iff.mp last with ⟨command, ended, last⟩
  cases command with
  | Resource entry => cases last
  | World command => cases last
  | Entity action payload =>
      cases last
      have split : cmd = cmd.dropLast ++ [.Entity action payload] :=
        (List.dropLast_append_getLast? _ ended).symm
      rcases boxes_setBuffer found with ⟨others, before, set⟩
      refine ⟨OwnedCommand.allBoxes cmd.dropLast + others, ?_, ?_⟩
      · rw [before, split, OwnedCommand.allBoxes_concat, List.dropLast_concat, add_assoc]
        rfl
      · intro base action payload
        let buffer : List (OwnedCommand Value) := cmd.dropLast ++ [.Entity action payload]
        refine ⟨{ world with base }.setBuffer systemIdx buffer, ?_, ?_, ?_⟩
        · rw [erased_setBuffer, BoxedWorld.setLastCommand, erased_commands_getElem?, found]
          simp only [Option.map_some, Option.bind_eq_bind, Option.bind_some, buffer,
            List.map_append, List.map_dropLast]
          rfl
        · rw [plain_setBuffer, World.setLastCommand, plain_commands_getElem?, found]
          simp only [Option.map_some, Option.bind_eq_bind, Option.bind_some, buffer,
            List.map_append, List.map_dropLast]
          rfl
        · have changed := set buffer
          rw [OwnedCommand.allBoxes_concat, add_assoc] at changed
          exact changed

theorem extendCommand_owned (systemIdx : Nat) (command : ComponentCommand Value)
    (owns : heap.Owns (world.boxes + rest)) :
    Lockstep (Behind rest) (world.erased.extendCommand systemIdx command heap)
      (world.plain.extendCommand systemIdx command) := by
  rw [BoxedWorld.extendCommand, World.extendCommand, erased_lastCommand, plain_lastCommand]
  cases last : world.lastCommand systemIdx with
  | none => exact .none
  | some found =>
      rcases found with ⟨action, payload⟩
      rcases setLastCommand_owned last with ⟨others, before, set⟩
      rcases set world.base action (payload ++ [(heap.next, command)]) with
        ⟨after, erased, plain, boxes⟩
      rw [List.map_append] at erased plain
      have extended : world.erased.setLastCommand systemIdx action
          (payload.map ErasedComponentCommand.boxed ++
            [(ErasedComponentCommand.new command heap).1]) = some after.erased := erased
      have typed : world.plain.setLastCommand systemIdx
          { action, payload := payload.map Prod.snd ++ [command] } = some after.plain := plain
      simp only [Option.map_some, Option.bind_eq_bind, Option.bind_some, extended, typed]
      refine .some ⟨after, rfl, rfl, ?_⟩
      rw [boxes, payloadBoxes_concat]
      have made := owns.leak (.componentCommand command)
      rw [before, add_assoc] at made
      rw [add_assoc, add_assoc]
      exact made

theorem commandId_owned (systemIdx : Nat) (owns : heap.Owns (world.boxes + rest)) :
    Lockstep (fun boxed plain => Behind rest (boxed, heap) plain)
      (world.erased.commandId systemIdx) ((world.plain.commandId systemIdx).map Prod.snd) := by
  rw [BoxedWorld.commandId, World.commandId, erased_lastCommand, plain_lastCommand]
  cases last : world.lastCommand systemIdx with
  | none => exact .none
  | some found =>
      rcases found with ⟨action, payload⟩
      simp only [Option.map_some, Option.bind_eq_bind, Option.bind_some]
      cases action with
      | Insert =>
          simp only [Option.map_bind]
          refine Lockstep.binds world.base.entityIds.allocate ?_
          rintro ⟨result, entityIds⟩
          cases result with
          | error error => exact .some ⟨{ world with base := world.base.setIndex entityIds },
              rfl, rfl, owns⟩
          | ok id =>
              rcases setLastCommand_owned last with ⟨others, before, set⟩
              rcases set (world.base.setIndex entityIds) (.Init id) payload with
                ⟨after, erased, plain, boxes⟩
              have typed : (world.plain.setIndex entityIds).setLastCommand systemIdx
                  { action := .Init id, payload := payload.map Prod.snd } = some after.plain :=
                plain
              have allocated : ({ world.erased with
                  base := world.erased.base.setIndex entityIds } :
                    BoxedWorld Value).setLastCommand systemIdx (.Init id)
                      (payload.map ErasedComponentCommand.boxed) = some after.erased := erased
              simp only [Function.comp_apply, typed, allocated, Option.bind_some]
              exact .some ⟨after, rfl, rfl, by rwa [boxes, ← before]⟩
      | Fetch id => exact .some ⟨world, rfl, rfl, owns⟩
      | Init id => exact .some ⟨world, rfl, rfl, owns⟩
      | InsertId id => exact .some ⟨world, rfl, rfl, owns⟩
      | Delete id => exact .some ⟨world, rfl, rfl, owns⟩
      | Merge src dst => exact .some ⟨world, rfl, rfl, owns⟩

theorem resizeCommands_owned (len : Nat) (owns : heap.Owns (world.boxes + rest)) :
    Behind rest (world.erased.resizeCommands len, heap) (world.plain.resizeCommands len) := by
  let more : List (List (OwnedCommand Value)) := List.replicate (len - world.commands.length) []
  refine ⟨{ world with commands := world.commands ++ more }, ?_, ?_, ?_⟩
  · simp [erased, BoxedWorld.resizeCommands, more]
  · simp [plain, World.resizeCommands, World.carrying, more]
  · have same : ({ world with commands := world.commands ++ more } : OwnedWorld Value).boxes =
        world.boxes := by
      simp [boxes, more, OwnedCommand.allBoxes]
    rw [same]
    exact owns

end Buffers

theorem new_owned [UnitTypeId] [BuiltinValues Value] (initialCapacity : Nat)
    (owns : heap.Owns rest) :
    Lockstep (Behind rest)
      (BoxedWorld.new initialCapacity heap) (World.new initialCapacity : Option (World Value)) := by
  have ownsNothing : heap.Owns ((∅ : OwnedResources Value).boxes + rest) := by
    rw [OwnedResources.empty_boxes, zero_add]
    exact owns
  rw [BoxedWorld.new, World.new]
  simp only [Option.bind_eq_bind, Option.bind_assoc]
  refine Lockstep.binds (EntityIndex.new initialCapacity) fun entityIds => ?_
  rw [World.firstResources]
  cases (jobPool : Option (TypeId × Value)) with
  | none =>
      refine .some ⟨⟨_, ∅, []⟩, rfl, rfl, ?_⟩
      simpa [boxes] using ownsNothing
  | some entry =>
      rcases ResourceStorage.insert_owned entry.1 entry.2 ownsNothing with
        ⟨heap', inserted, ownsPool⟩
      let resources : OwnedResources Value :=
        (∅ : OwnedResources Value).insert entry.1 (heap.next, entry.2)
      have made : ResourceStorage.new.insert entry.1 entry.2 heap =
          some (resources.erased, heap') := inserted
      simp only [made, Option.bind_some]
      refine .some ⟨⟨_, resources, []⟩, rfl, ?_, ?_⟩
      · rw [plain, OwnedResources.plain_insert]
        rfl
      · simpa [boxes] using ownsPool

/-- The copy owns boxes of its own. -/
theorem clone_owned (owns : heap.Owns (world.boxes + rest)) :
    Lockstep (Behind (world.boxes + rest)) (world.erased.clone heap) world.plain.clone := by
  rw [boxes, add_assoc] at owns
  rcases ResourceStorage.clone_owned owns with ⟨resources, heap', cloned, ownsCopy, same⟩
  have copied : world.erased.resources.clone heap = some (resources.erased, heap') := cloned
  rw [BoxedWorld.clone, plain, World.clone_carrying, Option.map_eq_bind]
  simp only [Option.bind_eq_bind, copied, Option.bind_some]
  refine Lockstep.binds world.base.clone fun base => ?_
  refine .some ⟨⟨base, resources, []⟩, rfl, ?_, ?_⟩
  · rw [plain, same]
    rfl
  · simpa [boxes, add_assoc] using ownsCopy

theorem drop_owned (owns : heap.Owns (world.boxes + rest)) :
    ∃ after, world.erased.drop heap = some after ∧ after.Owns rest := by
  rw [boxes, add_assoc, ← OwnedCommand.allBoxes_flatten] at owns
  rcases ResourceStorage.drop_owned owns with ⟨middle, dropped, ownsCommands⟩
  rcases ErasedPayload.dropAll_owned ownsCommands with ⟨after, droppedAll, ownsRest⟩
  refine ⟨after, ?_, ownsRest⟩
  have first : world.erased.resources.drop heap = some middle := dropped
  rw [BoxedWorld.drop, first, erased, ← List.map_flatten]
  exact droppedAll

end OwnedWorld

end Owned

end Cecs

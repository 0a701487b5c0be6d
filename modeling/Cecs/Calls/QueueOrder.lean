import Cecs.Calls.Refinement

/-! # Later commands win

Commands of one buffer that contend take effect in the order in which `apply_commands`
reaches them: for a resource the last value stays, and for an entity the changes of the
last update are made to what the earlier ones left. -/

namespace Cecs

open Foundation

section Updates

variable {Value : Type}

/-- The entities that the action names. -/
def EntityAction.named : EntityAction → List EntityId
  | .Fetch id => [id]
  | .Init id => [id]
  | .InsertId id => [id]
  | .Insert => []
  | .Delete id => [id]
  | .Merge src dst => [src, dst]

namespace CommandPayload

def names (id : EntityId) : CommandPayload Value → Bool
  | .Entity commands => decide (id ∈ commands.action.named)
  | _ => false

/-- The command updates the live entity. -/
def fetches (id : EntityId) : CommandPayload Value → Bool
  | .Entity ⟨.Fetch other, _⟩ => decide (other = id)
  | _ => false

/-- The changes that an update makes to the entity. -/
def changes (id : EntityId) : CommandPayload Value → List (ComponentCommand Value)
  | .Entity ⟨.Fetch other, payload⟩ => if other = id then payload else []
  | _ => []

theorem changes_of_not_fetches {id : EntityId} {command : CommandPayload Value}
    (other : command.fetches id = false) : command.changes id = [] := by
  match command with
  | .Entity ⟨.Fetch target, _⟩ => exact if_neg (of_decide_eq_false other)
  | .Entity ⟨.Init _, _⟩ => rfl
  | .Entity ⟨.InsertId _, _⟩ => rfl
  | .Entity ⟨.Insert, _⟩ => rfl
  | .Entity ⟨.Delete _, _⟩ => rfl
  | .Entity ⟨.Merge _ _, _⟩ => rfl
  | .Resource _ => rfl
  | .World _ => rfl

theorem eq_fetch_of_fetches {id : EntityId} {command : CommandPayload Value}
    (fetches : command.fetches id = true) : ∃ payload, command = .Entity ⟨.Fetch id, payload⟩ := by
  match command with
  | .Entity ⟨.Fetch other, payload⟩ => exact ⟨payload, by rw [of_decide_eq_true fetches]⟩
  | .Entity ⟨.Init _, _⟩ => cases fetches
  | .Entity ⟨.InsertId _, _⟩ => cases fetches
  | .Entity ⟨.Insert, _⟩ => cases fetches
  | .Entity ⟨.Delete _, _⟩ => cases fetches
  | .Entity ⟨.Merge _ _, _⟩ => cases fetches
  | .Resource _ => cases fetches
  | .World _ => cases fetches

theorem names_of_fetches {id : EntityId} {command : CommandPayload Value}
    (fetches : command.fetches id = true) : command.names id = true := by
  rcases eq_fetch_of_fetches fetches with ⟨_, rfl⟩
  exact decide_eq_true (List.mem_singleton_self id)

theorem contends_of_fetches {id : EntityId} {x y : CommandPayload Value}
    (first : x.fetches id = true) (second : y.fetches id = true) : x.Contends y := by
  rcases eq_fetch_of_fetches first with ⟨_, rfl⟩
  rcases eq_fetch_of_fetches second with ⟨_, rfl⟩
  exact ⟨id, List.mem_singleton_self id, List.mem_singleton_self id⟩

end CommandPayload

namespace EntityState

variable [UnitTypeId] [BuiltinValues Value] {s after : EntityState Value}
  {result : WorldResult Unit} {id : EntityId} {row : Row Value}

/-- A command that does not name a live entity leaves it. -/
theorem Applies.unnamed {command : CommandPayload Value}
    (applies : Applies s command result after) (live : s.entities id = some row)
    (unnamed : command.names id = false) : after.entities id = some row := by
  have kept : ∀ {entities : EntityMap Value} {other : EntityId} {changed : Option (Row Value)},
      entities id = some row → id ≠ other →
      Function.update entities other changed id = some row :=
    fun live different => (Function.update_of_ne different ..).trans live
  have different : ∀ {action : EntityAction} {payload : List (ComponentCommand Value)},
      CommandPayload.names id (.Entity ⟨action, payload⟩) = false → ∀ other ∈ action.named,
      id ≠ other := by
    rintro action payload unnamed other member rfl
    exact of_decide_eq_false unnamed member
  cases applies with
  | fetch _ => exact kept live (different unnamed _ (List.mem_singleton_self _))
  | init _ => exact kept live (different unnamed _ (List.mem_singleton_self _))
  | insert free =>
      apply kept live
      rintro rfl
      exact free id (Or.inl (by rw [live]; exact Option.some_ne_none row)) rfl
  | insertId _ => exact kept live (different unnamed _ (List.mem_singleton_self _))
  | insertLive _ => exact kept live (different unnamed _ (List.mem_singleton_self _))
  | delete => exact kept live (different unnamed _ (List.mem_singleton_self _))
  | merge _ _ _ =>
      have notDst := different unnamed _ (List.mem_cons_of_mem _ (List.mem_singleton_self _))
      exact kept (kept live notDst) (different unnamed _ List.mem_cons_self)
  | _ => exact live

/-- An update makes its changes to the entity. -/
theorem Applies.fetched {command : CommandPayload Value}
    (applies : Applies s command result after) (live : s.entities id = some row)
    (fetches : command.fetches id = true) :
    after.entities id = some (row.updated (command.changes id)) := by
  cases applies with
  | fetch found =>
      cases of_decide_eq_true fetches
      cases live.symm.trans found
      simp [setEntity, CommandPayload.changes]
  | fetchDead dead =>
      cases of_decide_eq_true fetches
      rw [live] at dead
      cases dead
  | _ => cases fetches

/-- A live entity that is only updated gets the changes of the updates, one after the other. -/
theorem AppliesAll.updated {batch : List (CommandPayload Value)}
    (applies : AppliesAll s batch (.ok ()) after) (live : s.entities id = some row)
    (updates : ∀ command ∈ batch, command.names id = true → command.fetches id = true) :
    after.entities id = some (row.updated (batch.flatMap (CommandPayload.changes id))) := by
  induction batch generalizing s row with
  | nil =>
      cases applies
      exact live
  | cons command rest induction =>
      cases applies with
      | @next _ middle _ _ _ _ first others =>
          rcases List.forall_mem_cons.mp updates with ⟨head, tail⟩
          have step : middle.entities id = some (row.updated (command.changes id)) := by
            cases fetches : command.fetches id with
            | true => exact first.fetched live fetches
            | false =>
                have unnamed : command.names id = false := by
                  rw [← Bool.not_eq_true]
                  intro named
                  rw [head named] at fetches
                  cases fetches
                rw [CommandPayload.changes_of_not_fetches fetches]
                exact first.unnamed live unnamed
          rw [induction others step tail, List.flatMap_cons, Row.updated, Row.updated,
            Row.updated, List.foldl_append]

end EntityState

end Updates

section Batch

variable {Value : Type} [UnitTypeId] [BuiltinValues Value] {sorted : List (Placed Value)}

open EntityState (AppliesAll)

/-- Commands of one buffer that contend take effect in queue order. The last command for a
resource that no other buffer writes wins. Where the hashes of the known types tell sets of
them apart, the batch is the steps of its commands, and an entity that only one buffer
updates gets the changes of its updates as they were queued. -/
structure TakesQueueOrder (w : World Value) (sorted : List (Placed Value)) : Prop where
  inOrder : InQueueOrder sorted
  laterWins : ∀ ty number buffer, w.commands[number]? = some buffer →
    (∀ x ∈ placed w.commands, (x.payload.writes ty).isSome → x.buffer = number) →
    ∀ after, w.applySorted (sorted.map Placed.payload) = some (.ok (), after) →
      after.resources[ty]? =
        (buffer.filterMap (CommandPayload.writes ty)).getLast?.getD w.resources[ty]?
  steps : ∀ types lost, HashesApart types → w.Ready types lost →
    along CommandPayload.apply CommandPayload.tidy (sorted.map Placed.payload) w.drained = true →
    ∀ result after, w.applySorted (sorted.map Placed.payload) = some (result, after) →
      ∃ s, AppliesAll (w.readyState lost) (sorted.map Placed.payload) result s ∧
        s.entities = after.view ∧ s.resources = fun ty => after.resources[ty]?
  laterUpdates : ∀ types lost, HashesApart types → w.Ready types lost →
    along CommandPayload.apply CommandPayload.tidy (sorted.map Placed.payload) w.drained = true →
    ∀ id row number buffer, w.view id = some row → w.commands[number]? = some buffer →
    (∀ x ∈ placed w.commands, x.payload.names id = true →
      x.payload.fetches id = true ∧ x.buffer = number) →
    ∀ after, w.applySorted (sorted.map Placed.payload) = some (.ok (), after) →
      after.view id = some (row.updated (buffer.flatMap (CommandPayload.changes id)))

/-- The batch is applied step by step, whatever its order. -/
theorem appliesAll_of_ready {w : World Value} {types : Finset TypeId} {lost : List EntityId}
    (ready : w.Ready types lost) (apart : HashesApart types)
    (sorts : SortCommands Placed.payload (placed w.commands) sorted)
    (tidily : along CommandPayload.apply CommandPayload.tidy (sorted.map Placed.payload)
      w.drained = true) {result : WorldResult Unit} {after : World Value}
    (applied : w.applySorted (sorted.map Placed.payload) = some (result, after)) :
    ∃ s, AppliesAll (w.readyState lost) (sorted.map Placed.payload) result s ∧
      s.entities = after.view ∧ s.resources = fun ty => after.resources[ty]? := by
  have sortsQueued : SortCommands id w.queuedCommands (sorted.map Placed.payload) :=
    sortCommands_queuedCommands_iff.mpr ⟨_, sorts, rfl⟩
  rcases ready.sorted sortsQueued with ⟨orderly, regular, states⟩
  rcases orderly.applySorted apart regular tidily with
    ⟨_, _, _, _, _, _, _, stuck⟩ | ⟨_, _, waiting, again, _, _, applies⟩
  · rw [applied] at stuck
    cases stuck
  · cases applied.symm.trans again
    rw [states] at applies
    exact ⟨after.state waiting, applies, rfl, rfl⟩

theorem InQueueOrder.laterWins {w after : World Value} (inOrder : InQueueOrder sorted)
    (perm : sorted.Perm (placed w.commands)) {ty : TypeId} {number : Nat}
    {buffer : List (CommandPayload Value)} (found : w.commands[number]? = some buffer)
    (only : ∀ x ∈ placed w.commands, (x.payload.writes ty).isSome → x.buffer = number)
    (applied : w.applySorted (sorted.map Placed.payload) = some (.ok (), after)) :
    after.resources[ty]? =
      (buffer.filterMap (CommandPayload.writes ty)).getLast?.getD w.resources[ty]? := by
  simp only [World.applySorted, Option.bind_eq_bind, Option.bind_eq_some_iff] at applied
  rcases applied with ⟨⟨outcome, applied⟩, applying, ending⟩
  cases outcome with
  | error error => cases ending
  | ok done =>
      simp only [Option.bind_eq_some_iff, Option.pure_def, Option.some.injEq,
        Prod.mk.injEq] at ending
      rcases ending with ⟨_, moved, _, rfl⟩
      rw [resources_moveArchetypes moved, resources_applyBatch ty applying,
        filterMap_writes_sorted inOrder perm found only]
      rfl

omit [UnitTypeId] [BuiltinValues Value] in
/-- The changes to an entity stand in the sorted batch as they do in the buffer. -/
theorem InQueueOrder.changes {buffers : List (List (CommandPayload Value))}
    (inOrder : InQueueOrder sorted) (perm : sorted.Perm (placed buffers)) {id : EntityId}
    {number : Nat} {buffer : List (CommandPayload Value)} (found : buffers[number]? = some buffer)
    (only : ∀ x ∈ placed buffers, x.payload.fetches id = true → x.buffer = number) :
    (sorted.map Placed.payload).flatMap (CommandPayload.changes id) =
      buffer.flatMap (CommandPayload.changes id) := by
  have kept : ∀ commands : List (CommandPayload Value),
      commands.flatMap (CommandPayload.changes id) =
        (commands.filter (CommandPayload.fetches id)).flatMap (CommandPayload.changes id) := by
    intro commands
    induction commands with
    | nil => rfl
    | cons command rest induction =>
        rw [List.flatMap_cons, List.filter_cons, induction]
        cases fetches : command.fetches id with
        | true => rfl
        | false => rw [CommandPayload.changes_of_not_fetches fetches]; rfl
  rw [kept, kept buffer,
    filter_sorted (fun _ _ => CommandPayload.contends_of_fetches) inOrder perm found only]

theorem InQueueOrder.takesQueueOrder {w : World Value} (inOrder : InQueueOrder sorted)
    (sorts : SortCommands Placed.payload (placed w.commands) sorted) :
    TakesQueueOrder w sorted where
  inOrder := inOrder
  laterWins _ _ _ found only _ applied :=
    inOrder.laterWins (sortCommands_iff.mp sorts).perm found only applied
  steps _ _ apart ready tidily _ _ applied :=
    appliesAll_of_ready ready apart sorts tidily applied
  laterUpdates types lost apart ready tidily id row number buffer live found only after
      applied := by
    have perm := (sortCommands_iff.mp sorts).perm
    rcases appliesAll_of_ready ready apart sorts tidily applied with ⟨s, applies, viewed, _⟩
    have sameChanges : (sorted.map Placed.payload).flatMap (CommandPayload.changes id) =
        buffer.flatMap (CommandPayload.changes id) := by
      apply inOrder.changes perm found
      intro x member fetches
      exact (only x member (CommandPayload.names_of_fetches fetches)).2
    rw [← viewed, ← sameChanges]
    apply applies.updated live
    intro command member named
    rcases List.mem_map.mp member with ⟨x, inSorted, rfl⟩
    exact (only x (perm.mem_iff.mp inSorted) named).1

/-- When commands that contend take effect in queue order: whatever the sort does with
commands of one kind, and when it keeps their order. -/
theorem takesQueueOrder_iff (w : World Value) :
    ((∀ sorted, SortCommands Placed.payload (placed w.commands) sorted →
        TakesQueueOrder w sorted) ↔ Uncontended w.commands) ∧
    TakesQueueOrder w (sortCommands Placed.payload (placed w.commands)) := by
  refine ⟨⟨?_, ?_⟩, ?_⟩
  · intro all
    apply uncontended_of_forall_sorted
    exact fun sorted sorts => (all sorted sorts).inOrder
  · intro uncontended sorted sorts
    have perm := (sortCommands_iff.mp sorts).perm
    exact (uncontended.inQueueOrder perm).takesQueueOrder sorts
  · have sorts := sortCommands_sorts Placed.payload (placed w.commands)
    exact (inQueueOrder_sortCommands w.commands).takesQueueOrder sorts

end Batch

section Example

open Sample

/-- One system sets a resource twice, and a component of an entity. -/
def insertTwice : List (CommandPayload Nat) :=
  [.Resource (.Insert 9#128 1), .Resource (.Insert 9#128 2),
    .Entity ⟨.Fetch (EntityId.new 0 0), [.Insert [(7#128, 1)]]⟩,
    .Entity ⟨.Fetch (EntityId.new 0 0), [.Insert [(7#128, 2)]]⟩]

/-- The first of the two values may be the one that stays. -/
theorem insertTwice_firstWins :
    ∃ w after : World Nat,
      ((World.new 1).bind World.insertEntity).map
        (fun entry => { entry.2 with commands := [insertTwice] }) = some w ∧
      w.ApplyCommands (.ok ()) after ∧ after.resources[9#128]? = some 1 ∧
      after.getComponent (EntityId.new 0 0) 7#128 = some 1 ∧
      ¬∀ sorted, SortCommands Placed.payload (placed w.commands) sorted →
        TakesQueueOrder w sorted := by
  obtain ⟨w, after, made, queued, applied, first, component⟩ :
      ∃ w after : World Nat,
        ((World.new 1).bind World.insertEntity).map
          (fun entry => { entry.2 with commands := [insertTwice] }) = some w ∧
        w.commands = [insertTwice] ∧
        w.applySorted insertTwice.reverse = some (.ok (), after) ∧
        after.resources[9#128]? = some 1 ∧
        after.getComponent (EntityId.new 0 0) 7#128 = some 1 :=
    ⟨_, _, rfl, rfl, rfl, rfl, rfl⟩
  have sorts : SortCommands id w.queuedCommands insertTwice.reverse := by
    rw [sortCommands_iff, World.queuedCommands, queued]
    refine ⟨List.reverse_perm _, ?_⟩
    have ordered : (insertTwice.reverse.map CommandPayload.cmdTy).Pairwise (· ≤ ·) := by decide
    exact List.pairwise_map.mp ordered
  refine ⟨w, after, made, ⟨_, sorts, applied⟩, first, component, ?_⟩
  intro all
  rcases sortCommands_queuedCommands_iff.mp sorts with ⟨sorted, sortsPlaced, same⟩
  have written := (all sorted sortsPlaced).laterWins 9#128 0 insertTwice
    (by rw [queued]; rfl) ?_ after (same ▸ applied)
  · rw [first] at written
    change some 1 = some 2 at written
    cases written
  · intro x member _
    rcases mem_placed.mp member with ⟨buffer, found, _⟩
    rw [queued] at found
    have inside := (List.getElem?_eq_some_iff.mp found).1
    exact Nat.lt_one_iff.mp inside

end Example

end Cecs

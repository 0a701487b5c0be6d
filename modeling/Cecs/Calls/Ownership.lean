import Cecs.Calls.Process
import Cecs.Foundation.Reaching

/-! # What a program owns

Every box that lives belongs to a resource or a queued command of one world, or to a box
that the program keeps. -/

namespace Cecs

open Foundation

section Ownership

variable {Value : Type}

/-- The holdings of a program, with the addresses of its boxes. -/
abbrev OwnedHoldings (Value : Type) := Holdings (OwnedWorld Value) (TypeId × (Nat × Value)) Value

abbrev OwnedResult (Value : Type) := CallResult (OwnedWorld Value) (TypeId × (Nat × Value)) Value

def takenBox (entry : TypeId × (Nat × Value)) : Multiset (Nat × BoxContent Value) :=
  resourceBox entry.1 entry.2

def worldBoxes (world : Option (OwnedWorld Value)) : Multiset (Nat × BoxContent Value) :=
  world.elim 0 OwnedWorld.boxes

namespace OwnedResult

def erased (self : OwnedResult Value) : BoxedResult Value :=
  self.map OwnedWorld.erased fun entry => entry.2.1

def plain (self : OwnedResult Value) : TypedResult Value :=
  self.map OwnedWorld.plain fun entry => (entry.1, entry.2.2)

def boxes (self : OwnedResult Value) : Multiset (Nat × BoxContent Value) :=
  worldBoxes self.world + (self.made.map OwnedWorld.boxes).sum + (self.taken.map takenBox).sum

/-- Both sides of a call stand for one owner's, and the rest is not touched. -/
def Behind (rest : Multiset (Nat × BoxContent Value)) (boxed : BoxedResult Value × Heap Value)
    (plain : TypedResult Value) : Prop :=
  ∃ owned : OwnedResult Value, owned.erased = boxed.1 ∧ owned.plain = plain ∧
    boxed.2.Owns (owned.boxes + rest)

variable {heap : Heap Value} {rest : Multiset (Nat × BoxContent Value)}

theorem changed_boxes (world : OwnedWorld Value) :
    boxes (.changed world) = world.boxes := by
  simp [boxes, CallResult.changed, worldBoxes]

/-- A call that only changes its world. -/
theorem behind_changed {boxed : BoxedWorld Value × Heap Value} {plain : World Value}
    (behind : OwnedWorld.Behind rest boxed plain) :
    Behind rest (.changed boxed.1, boxed.2) (.changed plain) := by
  rcases behind with ⟨world, same, rfl, owns⟩
  refine ⟨.changed world, ?_, rfl, ?_⟩
  · rw [← same]
    rfl
  · rw [changed_boxes]
    exact owns

end OwnedResult

/-- The world with other resources. -/
theorem OwnedWorld.behind_resources {world : OwnedWorld Value} {after : OwnedResources Value}
    {heap : Heap Value} {rest : Multiset (Nat × BoxContent Value)}
    (owns : heap.Owns (after.boxes + ((world.commands.map OwnedCommand.allBoxes).sum + rest))) :
    OwnedWorld.Behind rest ({ world.erased with resources := after.erased }, heap)
      { world.plain with resources := after.plain } := by
  refine ⟨{ world with resources := after }, rfl, rfl, ?_⟩
  rw [OwnedWorld.boxes, add_assoc]
  exact owns

section Invoke

variable [UnitTypeId] [BuiltinValues Value]

theorem Call.run_carrying {w : World Value} {resources : BTreeMap TypeId Value}
    {commands : List (List (CommandPayload Value))} {call : Call Value}
    (onTables : call.onTables = true) :
    call.run (w.carrying resources commands) =
      (call.run w).map fun after => after.carrying resources commands := by
  cases call with
  | insertEntity =>
      simp only [run, World.insertEntity_carrying, Option.map_map, Function.comp_def]
  | deleteEntity id =>
      simp only [run, World.deleteEntity_carrying, Option.map_map, Function.comp_def]
  | insertId id => simp only [run, World.insertId_carrying, Option.map_map, Function.comp_def]
  | reserveEntities additional => exact World.reserveEntities_carrying additional
  | mergeEntities lhs rhs =>
      simp only [run, World.mergeEntities_carrying, Option.map_map, Function.comp_def]
  | writeCell ptr ty row value =>
      simp only [run, World.writeCell_carrying, Option.map_some]
  | vacuum => rfl
  | _ => cases onTables

namespace OwnedWorld

variable {world : OwnedWorld Value} {heap : Heap Value} {rest : Multiset (Nat × BoxContent Value)}

omit [UnitTypeId] [BuiltinValues Value] in
theorem owns_resources (owns : heap.Owns (world.boxes + rest)) :
    heap.Owns (world.resources.boxes +
      ((world.commands.map OwnedCommand.allBoxes).sum + rest)) := by
  rwa [boxes, add_assoc] at owns

theorem invoke_tables {call : Call Value} (onTables : call.onTables = true)
    (owns : heap.Owns (world.boxes + rest)) :
    Lockstep (OwnedResult.Behind rest) (world.erased.invoke heap (.tables call onTables))
      (world.plain.invoke (.tables call onTables)) := by
  simp only [BoxedWorld.invoke, World.invoke, plain, Call.run_carrying onTables,
    Option.map_eq_bind, Option.bind_eq_bind, Option.bind_assoc]
  refine Lockstep.binds (call.run world.base) fun base => ?_
  have behind : Behind rest ({ world.erased with base }, heap) { world with base }.plain :=
    ⟨{ world with base }, rfl, rfl, owns⟩
  exact .some (OwnedResult.behind_changed behind)

theorem invoke_insertResource (ty : TypeId) (value : Value)
    (owns : heap.Owns (world.boxes + rest)) :
    Lockstep (OwnedResult.Behind rest) (world.erased.invoke heap (.insertResource ty value))
      (world.plain.invoke (.insertResource ty value)) := by
  rcases ResourceStorage.insert_owned ty value (owns_resources owns) with
    ⟨after, inserted, ownsAfter⟩
  have boxed : world.erased.resources.insert ty value heap = some (_, after) := inserted
  have behind := behind_resources ownsAfter
  rw [OwnedResources.plain_insert] at behind
  simp only [BoxedWorld.invoke, boxed, Option.bind_eq_bind, Option.bind_some]
  exact .some (OwnedResult.behind_changed behind)

theorem invoke_getResource (ty : TypeId) (owns : heap.Owns (world.boxes + rest)) :
    Lockstep (OwnedResult.Behind rest) (world.erased.invoke heap (.getResource ty))
      (world.plain.invoke (.getResource ty)) := by
  have boxed : world.erased.resources.fetch ty heap = some world.resources.plain[ty]? :=
    ResourceStorage.fetch_owned ty (owns_resources owns)
  simp only [BoxedWorld.invoke, boxed, Option.bind_eq_bind, Option.bind_some]
  refine .some ⟨{ (.changed world : OwnedResult Value) with
    answers := [.resource world.resources.plain[ty]?] }, rfl, rfl, ?_⟩
  have same := OwnedResult.changed_boxes world
  rw [← same] at owns
  exact owns

theorem invoke_setResource (ty : TypeId) (value : Value)
    (owns : heap.Owns (world.boxes + rest)) :
    Lockstep (OwnedResult.Behind rest) (world.erased.invoke heap (.setResource ty value))
      (world.plain.invoke (.setResource ty value)) := by
  rcases ResourceStorage.assign_owned ty value (owns_resources owns) with
    ⟨after, heap', assigned, ownsAfter, plain⟩
  have boxed : world.erased.resources.assign ty value heap = some (after.erased, heap') :=
    assigned
  have behind := behind_resources ownsAfter
  rw [plain] at behind
  simp only [BoxedWorld.invoke, boxed, Option.bind_eq_bind, Option.bind_some]
  exact .some (OwnedResult.behind_changed behind)

theorem invoke_getResourceOrDefault (ty : TypeId) (default : Value)
    (owns : heap.Owns (world.boxes + rest)) :
    Lockstep (OwnedResult.Behind rest)
      (world.erased.invoke heap (.getResourceOrDefault ty default))
      (world.plain.invoke (.getResourceOrDefault ty default)) := by
  rcases ResourceStorage.fetchOrDefault_owned ty default (owns_resources owns) with
    ⟨after, heap', fetched, ownsAfter, plain⟩
  have boxed : world.erased.resources.fetchOrDefault ty default heap =
      some (after.erased, heap') := fetched
  have behind := behind_resources ownsAfter
  rw [plain] at behind
  simp only [BoxedWorld.invoke, boxed, Option.bind_eq_bind, Option.bind_some]
  exact .some (OwnedResult.behind_changed behind)

/-- The box that is taken out goes over to the program. -/
theorem invoke_removeResource (ty : TypeId) (owns : heap.Owns (world.boxes + rest)) :
    Lockstep (OwnedResult.Behind rest) (world.erased.invoke heap (.removeResource ty))
      (world.plain.invoke (.removeResource ty)) := by
  rcases ResourceStorage.remove_owned ty (owns_resources owns) with ⟨removed, ownsAfter⟩
  have boxed : world.erased.resources.remove ty heap =
      some (world.resources[ty]?.map Prod.fst,
        OwnedResources.erased (world.resources.erase ty), heap) := removed
  simp only [BoxedWorld.invoke, boxed, Option.bind_eq_bind, Option.bind_some]
  let after : OwnedWorld Value := { world with resources := world.resources.erase ty }
  refine .some ⟨{ (.changed after : OwnedResult Value) with
    taken := world.resources[ty]?.toList.map fun entry => (ty, entry) }, ?_, ?_, ?_⟩
  · cases found : world.resources[ty]? <;> rfl
  · have plainly : world.plain.resources[ty]? = world.resources[ty]?.map Prod.snd :=
      OwnedResources.plain_getElem?
    have left : after.plain = world.plain.removeResource ty := by
      rw [plain, OwnedResources.plain_erase]
      rfl
    simp only [OwnedResult.plain, CallResult.map, CallResult.changed, plainly,
      Option.map_some, left]
    cases world.resources[ty]? <;> rfl
  · have same : OwnedResult.boxes { (.changed after : OwnedResult Value) with
        taken := world.resources[ty]?.toList.map fun entry => (ty, entry) } =
          resourceBox? ty world.resources[ty]? + after.boxes := by
      cases world.resources[ty]? <;>
        simp [OwnedResult.boxes, CallResult.changed, worldBoxes, takenBox, resourceBox?,
          add_comm]
    rw [same, boxes, add_assoc, add_assoc]
    exact ownsAfter

/-- The sort looks at outlines only, so it leaves the boxed and the typed commands in one
order. -/
theorem invoke_applyCommands (sort : CommandSort) (owns : heap.Owns (world.boxes + rest)) :
    Lockstep (OwnedResult.Behind rest) (world.erased.invoke heap (.applyCommands sort))
      (world.plain.invoke (.applyCommands sort)) := by
  let batch := sort.sort (QueuedCommand.outline ∘ OwnedCommand.erased) world.commands.flatten
  have boxed : sort.sort QueuedCommand.outline world.erased.commands.flatten =
      batch.map OwnedCommand.erased := by
    rw [erased, ← List.map_flatten, sort.natural]
  have typed : sort.sort CommandPayload.outline world.plain.queuedCommands =
      batch.map OwnedCommand.plain := by
    have alike : CommandPayload.outline ∘ OwnedCommand.plain =
        QueuedCommand.outline ∘ @OwnedCommand.erased Value := by
      funext command
      cases command <;> rfl
    rw [World.queuedCommands, plain, World.carrying, ← List.map_flatten, sort.natural, alike]
  simp only [BoxedWorld.invoke, World.invoke, boxed, typed]
  refine (applyCommands_owned (sort.perm _ _) owns).bind ?_
  rintro ⟨result, _, after⟩ ⟨_, _⟩ ⟨same, left, rfl, rfl, ownsRest⟩
  dsimp only at same ownsRest
  subst same
  rw [← OwnedResult.changed_boxes left] at ownsRest
  exact .some ⟨{ (.changed left : OwnedResult Value) with answers := [.applied result] }, rfl,
    rfl, ownsRest⟩

theorem invoke_clone (owns : heap.Owns (world.boxes + rest)) :
    Lockstep (OwnedResult.Behind rest) (world.erased.invoke heap .clone)
      (world.plain.invoke .clone) := by
  simp only [BoxedWorld.invoke, World.invoke]
  refine (clone_owned owns).bind ?_
  rintro ⟨_, heap'⟩ _ ⟨copy, rfl, rfl, ownsCopy⟩
  refine .some ⟨{ (.changed world : OwnedResult Value) with made := [copy] }, rfl, rfl, ?_⟩
  rw [← add_assoc, add_comm copy.boxes] at ownsCopy
  simpa [OwnedResult.boxes, CallResult.changed, worldBoxes] using ownsCopy

theorem invoke_drop (owns : heap.Owns (world.boxes + rest)) :
    Lockstep (OwnedResult.Behind rest) (world.erased.invoke heap .drop)
      (world.plain.invoke .drop) := by
  rcases drop_owned owns with ⟨after, dropped, ownsRest⟩
  simp only [BoxedWorld.invoke, dropped, Option.bind_eq_bind, Option.bind_some]
  refine .some ⟨{ (.changed world : OwnedResult Value) with world := none }, rfl, rfl, ?_⟩
  simpa [OwnedResult.boxes, CallResult.changed, worldBoxes] using ownsRest

end OwnedWorld

theorem invoke_owned {world : OwnedWorld Value} {heap : Heap Value}
    {rest : Multiset (Nat × BoxContent Value)} (call : WorldCall Value)
    (owns : heap.Owns (world.boxes + rest)) :
    Lockstep (OwnedResult.Behind rest) (world.erased.invoke heap call)
      (world.plain.invoke call) := by
  cases call with
  | tables call onTables => exact OwnedWorld.invoke_tables onTables owns
  | insertResource ty value => exact OwnedWorld.invoke_insertResource ty value owns
  | getResource ty => exact OwnedWorld.invoke_getResource ty owns
  | setResource ty value => exact OwnedWorld.invoke_setResource ty value owns
  | getResourceOrDefault ty default =>
      exact OwnedWorld.invoke_getResourceOrDefault ty default owns
  | removeResource ty => exact OwnedWorld.invoke_removeResource ty owns
  | resizeCommands len =>
      exact .some (OwnedResult.behind_changed (world.resizeCommands_owned len owns))
  | pushCommand systemIdx command fresh =>
      simp only [BoxedWorld.invoke, World.invoke, Option.map_eq_bind]
      refine (OwnedWorld.pushCommand_owned fresh systemIdx owns).bind fun _ _ behind => ?_
      exact .some (OwnedResult.behind_changed behind)
  | extendCommand systemIdx command =>
      simp only [BoxedWorld.invoke, World.invoke, Option.map_eq_bind]
      refine (OwnedWorld.extendCommand_owned systemIdx command owns).bind fun _ _ behind => ?_
      exact .some (OwnedResult.behind_changed behind)
  | commandId systemIdx =>
      simp only [BoxedWorld.invoke, World.invoke]
      rw [Option.map_eq_bind]
      refine (OwnedWorld.commandId_owned systemIdx owns).bind fun _ _ behind => ?_
      exact .some (OwnedResult.behind_changed behind)
  | applyCommands sort => exact OwnedWorld.invoke_applyCommands sort owns
  | clone => exact OwnedWorld.invoke_clone owns
  | drop => exact OwnedWorld.invoke_drop owns

end Invoke

namespace OwnedHoldings

def erased (self : OwnedHoldings Value) : Holdings (BoxedWorld Value) Nat Value :=
  self.map OwnedWorld.erased fun entry => entry.2.1

def plain (self : OwnedHoldings Value) : TypedProcess Value :=
  self.map OwnedWorld.plain fun entry => (entry.1, entry.2.2)

def boxes (self : OwnedHoldings Value) : Multiset (Nat × BoxContent Value) :=
  (self.worlds.map worldBoxes).sum + (self.taken.map takenBox).sum

variable {owned : OwnedHoldings Value} {place : Nat}

theorem erased_record (outcome : OwnedResult Value) :
    erased (owned.record place outcome) = owned.erased.record place outcome.erased := by
  simp [erased, Holdings.record, Holdings.map, OwnedResult.erased, CallResult.map,
    List.map_set, Function.comp_def]

theorem plain_record (outcome : OwnedResult Value) :
    plain (owned.record place outcome) = owned.plain.record place outcome.plain := by
  simp [plain, Holdings.record, Holdings.map, OwnedResult.plain, CallResult.map,
    List.map_set, Function.comp_def]

/-- The boxes of one world, and all others. -/
theorem boxes_record {world : OwnedWorld Value} (found : owned.worlds[place]? = some (some world)) :
    ∃ others, owned.boxes = world.boxes + others ∧
      ∀ outcome, boxes (owned.record place outcome) = OwnedResult.boxes outcome + others := by
  rcases sum_set worldBoxes found with ⟨others, before, after⟩
  refine ⟨others + (owned.taken.map takenBox).sum, ?_, ?_⟩
  · rw [boxes, before, add_assoc]
    rfl
  · intro outcome
    have made : ((outcome.made.map some).map worldBoxes).sum =
        (outcome.made.map OwnedWorld.boxes).sum := by
      rw [List.map_map]
      rfl
    simp only [boxes, Holdings.record, List.map_append, List.sum_append, after, made,
      OwnedResult.boxes]
    ac_rfl

theorem boxes_dropBox {entry : TypeId × (Nat × Value)} (found : owned.taken[place]? = some entry) :
    owned.boxes = takenBox entry + boxes (owned.dropBox place) := by
  rcases List.getElem?_eq_some_iff.mp found with ⟨bound, rfl⟩
  have kept := ((List.getElem_cons_eraseIdx_perm bound).map takenBox).sum_eq
  rw [List.map_cons, List.sum_cons] at kept
  rw [boxes, ← kept, add_left_comm]
  rfl

theorem erased_dropBox : erased (owned.dropBox place) = owned.erased.dropBox place := by
  simp only [erased, Holdings.map, Holdings.dropBox, List.eraseIdx_map]

theorem plain_dropBox : plain (owned.dropBox place) = owned.plain.dropBox place := by
  simp only [plain, Holdings.map, Holdings.dropBox, List.eraseIdx_map]

theorem boxes_addWorld (world : OwnedWorld Value) :
    boxes (owned.addWorld world) = world.boxes + owned.boxes := by
  simp only [boxes, Holdings.addWorld, List.map_append, List.sum_append, List.map_singleton,
    List.sum_singleton, worldBoxes, Option.elim_some]
  ac_rfl

end OwnedHoldings

/-- The program runs on boxes as on values, and owns every box that lives. -/
def Process.StandsFor (boxed : Process Value) (plain : TypedProcess Value) : Prop :=
  ∃ owned : OwnedHoldings Value, owned.erased = boxed.holdings ∧ owned.plain = plain ∧
    boxed.heap.Owns owned.boxes

/-- Nothing lives once all worlds and boxes are dropped. -/
theorem Process.StandsFor.ended {boxed : Process Value} {plain : TypedProcess Value}
    (stands : boxed.StandsFor plain) (ended : boxed.holdings.Ended) (address : Nat) :
    boxed.heap.cells address = none := by
  rcases boxed with ⟨heap, holdings⟩
  rcases stands with ⟨owned, rfl, _, owns⟩
  have worlds : (owned.worlds.map worldBoxes).sum = 0 := by
    refine List.sum_eq_zero ?_
    intro boxes member
    rcases List.mem_map.mp member with ⟨world, inside, rfl⟩
    have gone := ended.1 _ (List.mem_map.mpr ⟨world, inside, rfl⟩)
    rw [Option.map_eq_none_iff.mp gone]
    rfl
  have taken : owned.taken = [] := List.map_eq_nil_iff.mp ended.2
  rw [OwnedHoldings.boxes, worlds, taken] at owns
  exact owns.none address

section Run

variable [UnitTypeId] [BuiltinValues Value]

theorem Process.StandsFor.step {boxed : Process Value} {plain : TypedProcess Value}
    (stands : boxed.StandsFor plain) (call : ProcessCall Value) :
    Lockstep Process.StandsFor (boxed.step call) (plain.step call) := by
  rcases boxed with ⟨heap, holdings⟩
  rcases stands with ⟨owned, rfl, rfl, owns⟩
  cases call with
  | new initialCapacity =>
      simp only [Process.step, TypedProcess.step]
      refine (OwnedWorld.new_owned initialCapacity owns).bind ?_
      rintro ⟨_, heap'⟩ _ ⟨world, rfl, rfl, ownsNew⟩
      refine .some ⟨owned.addWorld world, ?_, ?_, ?_⟩
      · simp [OwnedHoldings.erased, Holdings.map, Holdings.addWorld]
      · simp [OwnedHoldings.plain, Holdings.map, Holdings.addWorld]
      · rw [OwnedHoldings.boxes_addWorld]
        exact ownsNew
  | call place call =>
      have erased : owned.erased.worlds[place]? =
          owned.worlds[place]?.map fun world => world.map OwnedWorld.erased := List.getElem?_map
      have plain : owned.plain.worlds[place]? =
          owned.worlds[place]?.map fun world => world.map OwnedWorld.plain := List.getElem?_map
      simp only [Process.step, TypedProcess.step, erased, plain]
      cases found : owned.worlds[place]? with
      | none => exact .some ⟨owned, rfl, rfl, owns⟩
      | some slot =>
          cases slot with
          | none => exact .some ⟨owned, rfl, rfl, owns⟩
          | some world =>
              rcases OwnedHoldings.boxes_record found with ⟨others, before, after⟩
              simp only at owns
              rw [before] at owns
              simp only [Option.map_eq_bind]
              refine (invoke_owned call owns).bind ?_
              rintro ⟨_, heap'⟩ _ ⟨outcome, rfl, rfl, ownsAfter⟩
              refine .some ⟨owned.record place outcome, OwnedHoldings.erased_record outcome,
                OwnedHoldings.plain_record outcome, ?_⟩
              rw [after]
              exact ownsAfter
  | dropBox place =>
      have erased : owned.erased.taken[place]? =
          owned.taken[place]?.map fun entry => entry.2.1 := List.getElem?_map
      simp only [Process.step, TypedProcess.step, erased]
      cases found : owned.taken[place]? with
      | none =>
          refine .some ⟨owned, rfl, ?_, owns⟩
          rw [← OwnedHoldings.plain_dropBox, Holdings.dropBox,
            List.eraseIdx_of_length_le (List.getElem?_eq_none_iff.mp found)]
      | some entry =>
          simp only at owns
          rw [OwnedHoldings.boxes_dropBox found] at owns
          rcases dropInner_owned owns with ⟨after, dropped, ownsAfter⟩
          simp only [Option.map_some, dropped]
          exact .some ⟨owned.dropBox place, OwnedHoldings.erased_dropBox,
            OwnedHoldings.plain_dropBox, ownsAfter⟩

theorem Process.run_standsFor (calls : List (ProcessCall Value)) :
    Lockstep Process.StandsFor (calls.foldlM Process.step .start)
      (calls.foldlM TypedProcess.step .none) :=
  Lockstep.foldlM (fun _ _ call stands => Process.StandsFor.step stands call)
    ⟨.none, rfl, rfl, Boxes.owns_empty⟩ calls

/-- What a call leaves and makes is reached by calls. -/
def TypedResult.Reached (outcome : TypedResult Value) : Prop :=
  (∀ after, outcome.world = some after → Reachable (fun _ _ => True) after) ∧
    ∀ copy ∈ outcome.made, Reachable (fun _ _ => True) copy

theorem TypedResult.reached {after : World Value} (reachable : Reachable (fun _ _ => True) after)
    (taken : List (TypeId × Value)) (answers : List (CallAnswer Value)) :
    Reached { (.changed after : TypedResult Value) with taken, answers } := by
  constructor
  · intro left same
    cases same
    exact reachable
  · simp [CallResult.changed]

theorem World.invoke_reached {w : World Value} {call : WorldCall Value}
    {outcome : TypedResult Value} (reachable : Reachable (fun _ _ => True) w)
    (invoked : w.invoke call = some outcome) : TypedResult.Reached outcome := by
  have step : ∀ (call : Call Value) after, call.Admissible w → call.run w = some after →
      Reachable (fun _ _ => True) after :=
    fun _ _ admissible ran => .call reachable admissible trivial ran
  cases call with
  | tables call onTables =>
      rcases Option.map_eq_some_iff.mp invoked with ⟨after, ran, rfl⟩
      refine TypedResult.reached (step call after ?_ ran) [] []
      cases call with
      | pushCommand systemIdx command => cases onTables
      | applyCommands batch => cases onTables
      | _ => trivial
  | insertResource ty value =>
      cases invoked
      exact TypedResult.reached (step (.insertResource ty value) _ trivial rfl) [] []
  | getResource ty =>
      cases invoked
      exact TypedResult.reached reachable _ _
  | setResource ty value =>
      cases invoked
      refine TypedResult.reached ?_ [] []
      split
      · exact step (.insertResource ty value) _ trivial rfl
      · exact reachable
  | getResourceOrDefault ty default =>
      cases invoked
      refine TypedResult.reached ?_ [] []
      split
      · exact reachable
      · exact step (.insertResource ty default) _ trivial rfl
  | removeResource ty =>
      cases invoked
      exact TypedResult.reached (step (.removeResource ty) _ trivial rfl) _ []
  | resizeCommands len =>
      cases invoked
      exact TypedResult.reached (step (.resizeCommands len) _ trivial rfl) [] []
  | pushCommand systemIdx command fresh =>
      rcases Option.map_eq_some_iff.mp invoked with ⟨after, ran, rfl⟩
      exact TypedResult.reached (step (.pushCommand systemIdx command) _ fresh ran) [] []
  | extendCommand systemIdx command =>
      rcases Option.map_eq_some_iff.mp invoked with ⟨after, ran, rfl⟩
      exact TypedResult.reached (step (.extendCommand systemIdx command) _ trivial ran) [] []
  | commandId systemIdx =>
      rcases Option.map_eq_some_iff.mp invoked with ⟨after, ran, rfl⟩
      exact TypedResult.reached (step (.commandId systemIdx) _ trivial ran) [] []
  | applyCommands sort =>
      rcases Option.bind_eq_some_iff.mp invoked with ⟨⟨result, after⟩, ran, same⟩
      cases same
      refine TypedResult.reached (step (.applyCommands _) _ (sort.sorts_payloads _) ?_) [] _
      rw [Call.run, ran]
      rfl
  | clone =>
      rcases Option.bind_eq_some_iff.mp invoked with ⟨copy, ran, same⟩
      cases same
      constructor
      · intro left same
        cases same
        exact reachable
      · intro made member
        rw [List.mem_singleton.mp member]
        exact step .clone copy trivial ran
  | drop =>
      cases invoked
      constructor
      · intro left same
        cases same
      · simp [CallResult.changed]

/-- The worlds of a typed program are those that calls reach. -/
theorem TypedProcess.reachable {calls : List (ProcessCall Value)} {typed : TypedProcess Value}
    (ran : calls.foldlM TypedProcess.step .none = some typed) {w : World Value}
    (member : some w ∈ typed.worlds) : Reachable (fun _ _ => True) w := by
  refine foldlM_preserves (fun typed : TypedProcess Value =>
    ∀ w, some w ∈ typed.worlds → Reachable (fun _ _ => True) w) ?_ (by simp [Holdings.none]) ran
      w member
  intro typed next call reached stepped w member
  cases call with
  | new initialCapacity =>
      rcases Option.bind_eq_some_iff.mp stepped with ⟨made, created, same⟩
      cases same
      rcases List.mem_append.mp member with before | new
      · exact reached w before
      · cases List.mem_singleton.mp new
        exact .new created
  | call place call =>
      simp only [TypedProcess.step] at stepped
      split at stepped
      · rename_i before found
        rcases Option.map_eq_some_iff.mp stepped with ⟨outcome, invoked, rfl⟩
        have there := reached before (List.mem_of_getElem? found)
        rcases World.invoke_reached there invoked with ⟨left, made⟩
        rcases List.mem_append.mp member with kept | new
        · rcases List.mem_or_eq_of_mem_set kept with other | here
          · exact reached w other
          · exact left w here.symm
        · rcases List.mem_map.mp new with ⟨copy, inside, same⟩
          cases same
          exact made w inside
      · cases stepped
        exact reached w member
  | dropBox place =>
      cases stepped
      exact reached w member

/-- Whatever is called, the program with boxes returns when the typed one does, and answers
as it does. What lives then has one owner, so nothing lives when all is dropped. -/
theorem Process.erasure_sound (calls : List (ProcessCall Value)) :
    Lockstep Process.StandsFor (calls.foldlM Process.step .start)
        (calls.foldlM TypedProcess.step .none) ∧
      (∀ typed, calls.foldlM TypedProcess.step .none = some typed →
        ∀ w, some w ∈ typed.worlds → Reachable (fun _ _ => True) w) ∧
      ∀ process, calls.foldlM Process.step .start = some process → process.holdings.Ended →
        ∀ address, process.heap.cells address = none := by
  have both := Process.run_standsFor calls
  refine ⟨both, fun typed ran w member => TypedProcess.reachable ran member, ?_⟩
  intro process ran ended
  rcases both.returns ran with ⟨typed, _, stands⟩
  exact stands.ended ended

end Run

end Ownership

end Cecs

import Cecs.World.Housed

/-! # What commands do to a housed world

A command is safe in a world if no table that it adds to `archetypes` has the hash
of a parked table with rows, and a command that fails leaves the tables as they
were. -/

namespace Cecs

open Foundation

section Loop

variable {Value α : Type} {step : α → Effect Value} {w after : World Value}
  {result : WorldResult Unit}

/-- `safe` holds before every iteration of the loop. -/
def along (step : α → Effect Value) (safe : World Value → α → Bool) :
    List α → World Value → Bool
  | [], _ => true
  | item :: rest, w => safe w item &&
      match step item w with
      | some (.ok (), after) => along step safe rest after
      | _ => true

theorem along_true (step : α → Effect Value) (items : List α) (w : World Value) :
    along step (fun _ _ => true) items w = true := by
  induction items generalizing w with
  | nil => rfl
  | cons item rest induction =>
      rw [along, Bool.true_and]
      split
      · exact induction _
      · rfl

theorem forEach_cons {item : α} {rest : List α}
    (looped : forEach step (item :: rest) w = some (result, after)) :
    (∃ middle, step item w = some (.ok (), middle) ∧
      forEach step rest middle = some (result, after)) ∨
    ∃ error, step item w = some (.error error, after) ∧ result = .error error := by
  simp only [forEach, Option.bind_eq_bind, Option.bind_eq_some_iff] at looped
  rcases looped with ⟨⟨outcome, middle⟩, first, looped⟩
  cases outcome with
  | ok done => exact Or.inl ⟨middle, first, looped⟩
  | error error =>
      simp only [Option.pure_def, Option.some.injEq, Prod.mk.injEq] at looped
      rcases looped with ⟨rfl, rfl⟩
      exact Or.inr ⟨error, first, rfl⟩

/-- A loop keeps what its iterations keep; an iteration that fails ends it. -/
theorem forEach_invariant {safe : World Value → α → Bool} (Holds Fails : World Value → Prop)
    (kept : ∀ item w after, Holds w → safe w item = true →
      step item w = some (.ok (), after) → Holds after)
    (failed : ∀ item w after error, Holds w → safe w item = true →
      step item w = some (.error error, after) → Fails after) {items : List α}
    (holds : Holds w) (safely : along step safe items w = true)
    (looped : forEach step items w = some (result, after)) :
    (result = .ok () ∧ Holds after) ∨ ((∃ error, result = .error error) ∧ Fails after) := by
  induction items generalizing w with
  | nil =>
      simp only [forEach, Option.some.injEq, Prod.mk.injEq] at looped
      rcases looped with ⟨rfl, rfl⟩
      exact Or.inl ⟨rfl, holds⟩
  | cons item rest induction =>
      rw [along, Bool.and_eq_true] at safely
      rcases forEach_cons looped with ⟨middle, first, looped⟩ | ⟨error, first, rfl⟩
      · rw [first] at safely
        exact induction (kept item w middle holds safely.1 first) safely.2 looped
      · exact Or.inr ⟨⟨error, rfl⟩, failed item w after error holds safely.1 first⟩

end Loop

namespace World

variable {Value : Type}

/-- A parked table with rows has this hash, and no table of `archetypes` has it. -/
def shadows (w : World Value) (key : TypeHash) : Bool :=
  w.archetypes[key]?.isNone && w.archetypesStaging[key]?.any w.holdsRows

variable [UnitTypeId]

/-- `remove_component` does not add a table over a parked one with rows. -/
def removeSafe (w : World Value) (id : EntityId) (ty : TypeId) : Bool :=
  (w.entityTable id).all fun table =>
    !table.containsColumn ty || !w.shadows (table.extendedHash ty)

/-- Nor does `merge_entities`, on its general path. -/
def mergeSafe (w : World Value) (lhs rhs : EntityId) : Bool :=
  match w.entityTable lhs, w.entityTable rhs with
  | some lhsTable, some rhsTable =>
      let dstHash := mergedHash lhsTable rhsTable
      lhsTable.ty == rhsTable.ty || dstHash == rhsTable.ty || dstHash == lhsTable.ty ||
        !w.shadows dstHash
  | _, _ => true

end World

section Safety

variable {Value : Type} [UnitTypeId]

namespace ComponentCommand

def safe (id : EntityId) (w : World Value) (command : ComponentCommand Value) : Bool :=
  match command with
  | .Insert _ => true
  | .Delete ty => w.removeSafe id ty

end ComponentCommand

variable [BuiltinValues Value]

/-- The id of the action and the world that the payload is applied to. -/
def EntityAction.start (action : EntityAction) (w : World Value) :
    Option (EntityId × World Value) :=
  match action with
  | .Fetch id => some (id, w)
  | .Init id => do return (id, ← (← w.initId id).reserveEntities 1)
  | .InsertId id => do
      match ← w.insertId id with
      | (.error (.Taken _), _) => none
      | (_, w) => return (id, w)
  | .Insert => w.insertEntity
  | .Delete _ => none
  | .Merge _ _ => none

namespace CommandPayload

/-- No table with rows is replaced because of the command. -/
def safe (w : Cecs.World Value) (command : CommandPayload Value) : Bool :=
  match command with
  | .Entity { action := .Merge src dst, .. } => w.mergeSafe src dst
  | .Entity { action, payload } => (action.start w).all fun (id, started) =>
      along (fun command => command.apply id) (ComponentCommand.safe id) payload started
  | _ => true

/-- The command fails. -/
def rejected (w : Cecs.World Value) (command : CommandPayload Value) : Bool :=
  match command with
  | .Entity { action := .Merge src dst, .. } =>
      src ≠ dst && !(w.isIdValid src && w.isIdValid dst)
  | .Entity { action := .InsertId id, .. } =>
      match w.insertId id with
      | some (.error (.Taken _), _) => true
      | some (_, inserted) => !inserted.isIdValid id
      | none => false
  | .Entity { action := .Fetch id, .. } => !w.isIdValid id
  | _ => false

end CommandPayload

end Safety

section Housed

variable {Value : Type} [UnitTypeId]

namespace World

variable {w after : World Value} {id : EntityId}
  {result : WorldResult Unit}

omit [UnitTypeId] in
theorem shadows_eq_false {key : TypeHash} (safe : w.shadows key = false)
    (absent : w.archetypes[key]? = none) {ptr : Ptr}
    (parked : w.archetypesStaging[key]? = some ptr) : w.holdsRows ptr = false := by
  simpa [shadows, absent, parked] using safe

theorem Housed.setBundle (housed : w.Housed) {bundle : Bundle Value}
    (set : w.setBundle id bundle = some (result, after)) : after.Housed := by
  rcases setBundle_relocated set with rfl | ⟨_, _, table, base, _, relocated, added⟩
  · exact housed
  · rcases added with rfl | ⟨absent, rfl⟩
    · exact relocated.evolves.housed housed
    · rw [getArchetypeByKey, Option.or_eq_none_iff] at absent
      apply relocated.evolves.housed
      apply housed.addTable absent.1 (EntityTable.blank_extend bundle table).rows
      intro ptr parked
      rw [absent.2] at parked
      cases parked

theorem Housed.removeComponent (housed : w.Housed) {ty : TypeId}
    (safe : w.removeSafe id ty = true)
    (removed : w.removeComponent id ty = some (result, after)) : after.Housed := by
  rcases removeComponent_relocated removed with
    rfl | ⟨_, _, table, base, found, column, relocated, added⟩
  · exact housed
  · rcases added with rfl | ⟨absent, rfl⟩
    · exact relocated.evolves.housed housed
    · have reduced := EntityTable.ty_reduceWithColumn_cloneEmpty column
      simp only [removeSafe, found, Option.all_some, column, Bool.not_true, Bool.false_or,
        Bool.not_eq_true'] at safe
      apply relocated.evolves.housed
      rw [← reduced] at absent safe
      exact housed.addTable absent (EntityTable.blank_reduce table ty).rows
        fun ptr => shadows_eq_false safe absent

theorem Housed.mergeEntities (housed : w.Housed) {lhs rhs : EntityId}
    (safe : w.mergeSafe lhs rhs = true)
    (merged : w.mergeEntities lhs rhs = some (result, after)) :
    after.Housed ∧ (w.ParkedEmpty → after.ParkedEmpty) := by
  rcases mergeEntities_evolves housed.tables_nextTable merged with
    evolves | ⟨lhsTable, rhsTable, foundLhs, foundRhs, different, notRhs, notLhs, absent,
      evolves⟩
  · exact ⟨evolves.housed housed, evolves.parkedEmpty housed.toOwned⟩
  · have shape := merged_shape lhsTable rhsTable
    simp only [mergeSafe, foundLhs, foundRhs, beq_iff_eq, Bool.or_eq_true, different, notRhs,
      notLhs, false_or, Bool.not_eq_true'] at safe
    rw [← shape.2] at absent safe
    have housedBase := housed.addTable absent shape.1 fun ptr => shadows_eq_false safe absent
    exact ⟨evolves.housed housedBase, fun empty => evolves.parkedEmpty housedBase.toOwned
      (housed.parkedEmpty_addTable absent empty)⟩

/-- A bundle is set on every valid id, which stays valid. -/
theorem setBundle_of_isValid {bundle : Bundle Value} (valid : w.isIdValid id = true)
    (set : w.setBundle id bundle = some (result, after)) :
    result = .ok () ∧ after.isIdValid id = true := by
  rcases EntityIndex.read_of_isValid valid with ⟨ptr, row, live⟩
  simp only [World.setBundle, live, Option.bind_eq_bind, Option.bind_eq_some_iff,
    Option.pure_def, Option.some.injEq, Prod.mk.injEq] at set
  rcases set with ⟨_, _, _, _, _, _, _, updated, rfl, rfl⟩
  exact ⟨rfl, EntityIndex.isValid_update updated⟩

theorem removeComponent_of_isValid {ty : TypeId} (valid : w.isIdValid id = true)
    (removed : w.removeComponent id ty = some (result, after)) :
    (result = .ok () ∨ result = .error .ComponentNotFound) ∧ after.isIdValid id = true := by
  rcases EntityIndex.read_of_isValid valid with ⟨ptr, row, live⟩
  simp only [World.removeComponent, live, Option.bind_eq_bind, Option.bind_eq_some_iff]
    at removed
  rcases removed with ⟨table, _, removed⟩
  split at removed
  · simp only [Option.bind_eq_some_iff, Option.pure_def, Option.some.injEq,
      Prod.mk.injEq] at removed
    rcases removed with ⟨_, _, _, updated, rfl, rfl⟩
    exact ⟨Or.inl rfl, EntityIndex.isValid_update updated⟩
  · cases removed
    exact ⟨Or.inr rfl, valid⟩

theorem isIdValid_initId [BuiltinValues Value] (init : w.initId id = some after) :
    after.isIdValid id = true := by
  rcases initId_eq_some_iff.mp init with ⟨_, _, _, _, _, _, _, _, _, _, updated, rfl⟩
  exact EntityIndex.isValid_update updated

theorem isIdValid_insertEntity [BuiltinValues Value]
    (inserted : w.insertEntity = some (id, after)) : after.isIdValid id = true := by
  simp only [World.insertEntity, Option.bind_eq_bind, Option.bind_eq_some_iff, Option.pure_def,
    Option.some.injEq, Prod.mk.injEq] at inserted
  rcases inserted with ⟨_, _, _, init, rfl, rfl⟩
  exact isIdValid_initId init

omit [UnitTypeId] in
theorem isIdValid_reserveEntities {additional : Nat} (valid : w.isIdValid id = true)
    (reserved : w.reserveEntities additional = some after) : after.isIdValid id = true := by
  simp only [World.reserveEntities, Option.bind_eq_bind, Option.bind_eq_some_iff,
    Option.pure_def, Option.some.injEq] at reserved
  rcases reserved with ⟨_, grown, rfl⟩
  exact EntityIndex.isValid_reserve valid grown

/-- A merge fails on a dead id only. -/
theorem mergeEntities_error {lhs rhs : EntityId} {error : WorldError}
    (merged : w.mergeEntities lhs rhs = some (.error error, after)) :
    lhs ≠ rhs ∧ (w.isIdValid lhs && w.isIdValid rhs) = false := by
  rw [World.mergeEntities] at merged
  split at merged
  · cases merged
  · rename_i different
    refine ⟨different, ?_⟩
    rw [← Bool.not_eq_true]
    intro valid
    rw [Bool.and_eq_true] at valid
    rcases EntityIndex.read_of_isValid valid.1 with ⟨lhsArch, lhsIndex, liveLhs⟩
    rcases EntityIndex.read_of_isValid valid.2 with ⟨rhsArch, rhsIndex, liveRhs⟩
    simp only [liveLhs, liveRhs, Option.bind_eq_bind, Option.bind_eq_some_iff] at merged
    rcases merged with ⟨lhsTable, _, rhsTable, _, merged⟩
    split at merged
    · simp only [mergeSameType, Option.bind_eq_bind, Option.bind_eq_some_iff] at merged
      rcases merged with ⟨_, _, _, _, first, updatedLhs, second, updatedRhs, deleted⟩
      have validLhs : second.isValid lhs = true := EntityIndex.isValid_updateRowIndex
        (EntityIndex.isValid_updateRowIndex valid.1 updatedLhs) updatedRhs
      rcases EntityIndex.read_of_isValid validLhs with ⟨ptr, row, live⟩
      simp [deleteEntity, setIndex, live, Option.bind_eq_some_iff] at deleted
    · split at merged
      · simp only [mergeIntoRhs, Option.pure_def, Option.bind_eq_bind, Option.bind_eq_some_iff,
          Option.some.injEq, Prod.mk.injEq, reduceCtorEq, false_and, and_false,
          exists_false] at merged
      · split at merged
        · simp only [mergeIntoLhs, Option.pure_def, Option.bind_eq_bind,
            Option.bind_eq_some_iff, Option.some.injEq, Prod.mk.injEq, reduceCtorEq, false_and,
            and_false, exists_false] at merged
        · simp only [mergeIntoThird, Option.pure_def, Option.bind_eq_bind,
            Option.bind_eq_some_iff, Option.some.injEq, Prod.mk.injEq, reduceCtorEq, false_and,
            and_false, exists_false] at merged

end World

namespace ComponentCommand

variable {w after : World Value} {id : EntityId} {result : WorldResult Unit}
  {command : ComponentCommand Value}

theorem apply_housed (housed : w.Housed) (safely : command.safe id w = true)
    (applied : command.apply id w = some (result, after)) : after.Housed := by
  cases command with
  | Insert bundle => exact housed.setBundle applied
  | Delete ty =>
      simp only [apply, Option.bind_eq_bind, Option.bind_eq_some_iff] at applied
      rcases applied with ⟨⟨outcome, middle⟩, removed, applied⟩
      have housedMiddle := housed.removeComponent safely removed
      split at applied
      · rename_i same
        cases same
        cases applied
        exact housedMiddle
      · cases applied
        exact housedMiddle

theorem apply_of_isValid (valid : w.isIdValid id = true)
    (applied : command.apply id w = some (result, after)) :
    result = .ok () ∧ after.isIdValid id = true := by
  cases command with
  | Insert bundle => exact World.setBundle_of_isValid valid applied
  | Delete ty =>
      simp only [apply, Option.bind_eq_bind, Option.bind_eq_some_iff] at applied
      rcases applied with ⟨⟨outcome, middle⟩, removed, applied⟩
      rcases World.removeComponent_of_isValid valid removed with ⟨rfl | rfl, validMiddle⟩
      · cases applied
        exact ⟨rfl, validMiddle⟩
      · cases applied
        exact ⟨rfl, validMiddle⟩

end ComponentCommand

namespace EntityCommands

variable {w after : World Value} {id : EntityId} {result : WorldResult Unit}
  {payload : List (ComponentCommand Value)}

theorem applyPayload_housed (housed : w.Housed)
    (safely : along (fun command => command.apply id) (ComponentCommand.safe id) payload w =
      true) (applied : applyPayload payload id w = some (result, after)) : after.Housed := by
  rw [applyPayload] at applied
  split at applied
  · rcases forEach_invariant World.Housed World.Housed
        (fun _ _ _ housed safe step => ComponentCommand.apply_housed housed safe step)
        (fun _ _ _ _ housed safe step => ComponentCommand.apply_housed housed safe step)
        housed safely applied with
      ⟨_, housedAfter⟩ | ⟨_, housedAfter⟩
    · exact housedAfter
    · exact housedAfter
  · cases applied
    exact housed

/-- Once the id is valid no command of the payload fails. -/
theorem applyPayload_error {error : WorldError}
    (applied : applyPayload payload id w = some (.error error, after)) :
    w.isIdValid id = false ∧ after = w := by
  rw [applyPayload] at applied
  split at applied
  · rename_i valid
    rcases forEach_invariant (fun middle => middle.isIdValid id = true) (fun _ => False)
        (fun _ _ _ valid _ step => (ComponentCommand.apply_of_isValid valid step).2)
        (fun _ _ _ _ valid _ step => nomatch (ComponentCommand.apply_of_isValid valid step).1)
        valid (along_true ..) applied with
      ⟨no, _⟩ | ⟨_, no⟩
    · cases no
    · cases no
  · rename_i invalid
    cases applied
    exact ⟨Bool.not_eq_true _ ▸ invalid, rfl⟩

end EntityCommands

variable [BuiltinValues Value]

namespace EntityAction

variable {w started : World Value} {id : EntityId} {action : EntityAction}

theorem start_evolves (starts : action.start w = some (id, started)) :
    World.Evolves false w started := by
  cases action with
  | Fetch target =>
      cases starts
      exact .refl w
  | Init target =>
      simp only [start, Option.bind_eq_bind, Option.bind_eq_some_iff, Option.pure_def,
        Option.some.injEq, Prod.mk.injEq] at starts
      rcases starts with ⟨middle, init, reserved, reserve, rfl, rfl⟩
      exact (World.initId_evolves init).trans (World.reserveEntities_evolves reserve)
  | InsertId target =>
      simp only [start, Option.bind_eq_bind, Option.bind_eq_some_iff] at starts
      rcases starts with ⟨⟨outcome, middle⟩, inserted, starts⟩
      split at starts
      · cases starts
      · rename_i same
        cases same
        cases starts
        exact World.insertId_evolves inserted
  | Insert => exact World.insertEntity_evolves starts
  | Delete target => cases starts
  | Merge src dst => cases starts

end EntityAction

namespace EntityCommands

variable {w after : World Value} {result : WorldResult Unit} {commands : EntityCommands Value}

/-- A command starts with its payload, or it has none. -/
theorem apply_cases (applied : commands.apply w = some (result, after)) :
    (∃ id started, commands.action.start w = some (id, started) ∧
      applyPayload commands.payload id started = some (result, after)) ∨
    (∃ id taken, commands.action = .InsertId id ∧
      w.insertId id = some (.error (.Taken taken), after) ∧
      result = .error (.InsertInvalidId id)) ∨
    (∃ id outcome, commands.action = .Delete id ∧
      w.deleteEntity id = some (outcome, after) ∧ result = .ok ()) ∨
    ∃ src dst, commands.action = .Merge src dst ∧
      w.mergeEntities src dst = some (result, after) := by
  rcases commands with ⟨action, payload⟩
  cases action with
  | Fetch id => exact Or.inl ⟨id, w, rfl, applied⟩
  | Init id =>
      simp only [apply, Option.bind_eq_bind, Option.bind_eq_some_iff] at applied
      rcases applied with ⟨middle, init, reserved, reserve, applied⟩
      exact Or.inl ⟨id, reserved, by simp [EntityAction.start, init, reserve], applied⟩
  | InsertId id =>
      simp only [apply, Option.bind_eq_bind, Option.bind_eq_some_iff] at applied
      rcases applied with ⟨⟨outcome, middle⟩, inserted, applied⟩
      split at applied
      · rename_i same
        cases same
        simp only [Option.pure_def, Option.some.injEq, Prod.mk.injEq] at applied
        rcases applied with ⟨rfl, rfl⟩
        exact Or.inr (Or.inl ⟨id, _, rfl, inserted, rfl⟩)
      · rename_i untaken same
        cases same
        refine Or.inl ⟨id, middle, ?_, applied⟩
        simp only [EntityAction.start, inserted, Option.bind_eq_bind, Option.bind_some]
        rfl
  | Insert =>
      simp only [apply, Option.bind_eq_bind, Option.bind_eq_some_iff] at applied
      rcases applied with ⟨⟨id, started⟩, inserted, applied⟩
      exact Or.inl ⟨id, started, inserted, applied⟩
  | Delete id =>
      simp only [apply, Option.bind_eq_bind, Option.bind_eq_some_iff, Option.pure_def,
        Option.some.injEq, Prod.mk.injEq] at applied
      rcases applied with ⟨⟨outcome, middle⟩, deleted, rfl, rfl⟩
      exact Or.inr (Or.inr (Or.inl ⟨id, outcome, rfl, deleted, rfl⟩))
  | Merge src dst => exact Or.inr (Or.inr (Or.inr ⟨src, dst, rfl, applied⟩))

end EntityCommands

namespace CommandPayload

variable {w after : Cecs.World Value} {result : WorldResult Unit} {command : CommandPayload Value}

theorem safe_of_start {action : EntityAction} {payload : List (ComponentCommand Value)}
    {id : EntityId} {started : Cecs.World Value} (starts : action.start w = some (id, started)) :
    safe w (.Entity ⟨action, payload⟩) =
      along (fun command => command.apply id) (ComponentCommand.safe id) payload started := by
  cases action with
  | Merge src dst => cases starts
  | _ => simp [safe, starts]

/-- An id that the action made is valid. -/
theorem rejected_of_start {action : EntityAction} {payload : List (ComponentCommand Value)}
    {id : EntityId} {started : Cecs.World Value} (starts : action.start w = some (id, started))
    (invalid : started.isIdValid id = false) : rejected w (.Entity ⟨action, payload⟩) = true := by
  cases action with
  | Fetch target =>
      cases starts
      simp [rejected, invalid]
  | Init target =>
      simp only [EntityAction.start, Option.bind_eq_bind, Option.bind_eq_some_iff,
        Option.pure_def, Option.some.injEq, Prod.mk.injEq] at starts
      rcases starts with ⟨middle, init, reserved, reserve, rfl, rfl⟩
      rw [World.isIdValid_reserveEntities (World.isIdValid_initId init) reserve] at invalid
      cases invalid
  | InsertId target =>
      simp only [EntityAction.start, Option.bind_eq_bind, Option.bind_eq_some_iff] at starts
      rcases starts with ⟨⟨outcome, middle⟩, inserted, starts⟩
      split at starts
      · cases starts
      · rename_i untaken same
        cases same
        cases starts
        simp only [rejected, inserted, invalid, Bool.not_false]
  | Insert =>
      rw [World.isIdValid_insertEntity starts] at invalid
      cases invalid
  | Delete target => cases starts
  | Merge src dst => cases starts

theorem apply_housed (housed : w.Housed) (safely : command.safe w = true)
    (applied : command.apply w = some (result, after)) : after.Housed := by
  cases command with
  | Entity commands =>
      rcases commands with ⟨action, payload⟩
      rcases EntityCommands.apply_cases applied with
        ⟨id, started, starts, applied⟩ | ⟨id, taken, rfl, inserted, _⟩ |
          ⟨id, outcome, rfl, deleted, _⟩ | ⟨src, dst, rfl, merged⟩
      · have housedStarted := (EntityAction.start_evolves starts).housed housed
        rw [safe_of_start starts] at safely
        exact EntityCommands.applyPayload_housed housedStarted safely applied
      · exact (World.insertId_evolves inserted).housed housed
      · exact (World.deleteEntity_evolves deleted).housed housed
      · exact (housed.mergeEntities safely merged).1
  | Resource command =>
      cases command with
      | Insert ty value =>
          cases applied
          exact { housed with }
      | Delete ty =>
          cases applied
          exact { housed with }
  | World command =>
      rcases command with ⟨additional⟩
      simp only [apply, WorldCommands.apply, Option.bind_eq_bind, Option.bind_eq_some_iff,
        Option.pure_def, Option.some.injEq, Prod.mk.injEq] at applied
      rcases applied with ⟨_, reserved, _, rfl⟩
      exact (World.reserveEntities_evolves reserved).housed housed

/-- Only what `rejected` says fails, and parked tables get no rows by it. -/
theorem apply_error (housed : w.Housed) (safely : command.safe w = true) {error : WorldError}
    (applied : command.apply w = some (.error error, after)) :
    command.rejected w = true ∧ (w.ParkedEmpty → after.ParkedEmpty) := by
  cases command with
  | Entity commands =>
      rcases commands with ⟨action, payload⟩
      rcases EntityCommands.apply_cases applied with
        ⟨id, started, starts, applied⟩ | ⟨id, taken, rfl, inserted, _⟩ |
          ⟨id, outcome, rfl, deleted, failed⟩ | ⟨src, dst, rfl, merged⟩
      · rcases EntityCommands.applyPayload_error applied with ⟨invalid, rfl⟩
        exact ⟨rejected_of_start starts invalid,
          (EntityAction.start_evolves starts).parkedEmpty housed.toOwned⟩
      · refine ⟨by simp [rejected, inserted], ?_⟩
        exact (World.insertId_evolves inserted).parkedEmpty housed.toOwned
      · cases failed
      · rcases World.mergeEntities_error merged with ⟨different, dead⟩
        exact ⟨by simp [rejected, different, dead], (housed.mergeEntities safely merged).2⟩
  | Resource command =>
      cases command with
      | Insert ty value => cases applied
      | Delete ty => cases applied
  | World command =>
      rcases command with ⟨additional⟩
      simp [apply, WorldCommands.apply, Option.bind_eq_some_iff] at applied

end CommandPayload

end Housed

end Cecs

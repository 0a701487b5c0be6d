import Cecs.Commands.Effects
import Cecs.Serde
import Cecs.World.Refinement

/-! # New and loaded worlds

They are housed, and neither has parked tables: a table is parked by the end of
`apply_commands` only. -/

namespace Cecs

open Foundation

variable {Value : Type} [UnitTypeId] [BuiltinValues Value] {w after : World Value}

namespace World

/-- A housed world without parked tables. -/
structure Unparked (w : World Value) : Prop extends Housed w where
  unparked : ∀ key : TypeHash, w.archetypesStaging[key]? = none

omit [UnitTypeId] [BuiltinValues Value] in
theorem Unparked.parkedEmpty (unparked : w.Unparked) : w.ParkedEmpty := by
  intro key ptr parked
  rw [unparked.unparked] at parked
  cases parked

omit [UnitTypeId] [BuiltinValues Value] in
theorem Unparked.evolves {parked : Bool} (unparked : w.Unparked)
    (evolves : Evolves parked w after) : after.Unparked where
  toHoused := evolves.housed unparked.toHoused
  unparked key := by rw [evolves.staging, unparked.unparked]

omit [BuiltinValues Value] in
theorem Unparked.setBundle (unparked : w.Unparked) {id : EntityId} {bundle : Bundle Value}
    {result : WorldResult Unit} (set : w.setBundle id bundle = some (result, after)) :
    after.Unparked where
  toHoused := unparked.toHoused.setBundle set
  unparked key := by
    rcases setBundle_relocated set with rfl | ⟨_, _, _, base, _, relocated, added⟩
    · exact unparked.unparked key
    · rw [relocated.shifts.staging]
      rcases added with rfl | ⟨_, rfl⟩
      · exact unparked.unparked key
      · exact unparked.unparked key

theorem unparked_new {initialCapacity : Nat} (created : World.new initialCapacity = some w) :
    w.Unparked := by
  have owned := (new_spec created).1.toOwned
  simp only [World.new, Option.bind_eq_bind, Option.bind_eq_some_iff, Option.pure_def,
    Option.some.injEq] at created
  rcases created with ⟨entityIds, createdIds, rfl⟩
  have unpointed := EntityIndex.arch_new createdIds
  refine { owned with pointers := ?_, covered := ?_, twins := ?_, unparked := ?_ }
  · intro slot ptr pointer
    rw [unpointed] at pointer
    cases pointer
  · intro ptr table _
    have none : entityIds.population ptr = 0 := by
      rw [EntityIndex.population_eq_zero]
      intro slot pointer
      rw [unpointed] at pointer
      cases pointer
    exact Nat.le_trans (Nat.le_of_eq none) (Nat.zero_le _)
  · intro key ptr other _ parked
    simp at parked
  · exact fun key => Std.ExtTreeMap.getElem?_empty

end World

namespace WorldPersister

variable {Version : Type} {component : TypeId}

omit [BuiltinValues Value] in
/-- A result that was unwrapped was not an error. -/
theorem setComponent_of_unwrapped {id : EntityId} {value : Value}
    (unwrapped : ((w.setComponent id component value).bind fun
      | (.ok (), set) => some set
      | (.error _, _) => none) = some after) :
    w.setComponent id component value = some (.ok (), after) := by
  rcases Option.bind_eq_some_iff.mp unwrapped with ⟨⟨outcome, set⟩, setting, last⟩
  cases outcome with
  | error error => cases last
  | ok done =>
      cases last
      exact setting

theorem loadComponent_cases {entry : EntityId × Value}
    (loaded : loadComponent component w entry = some after) :
    ∃ middle, (middle = w ∨ w.insertId entry.1 = some (.ok (), middle)) ∧
      middle.setComponent entry.1 component entry.2 = some (.ok (), after) := by
  simp only [loadComponent, Option.bind_eq_bind] at loaded
  split at loaded
  · exact ⟨w, Or.inl rfl, setComponent_of_unwrapped loaded⟩
  · rcases Option.bind_eq_some_iff.mp loaded with ⟨⟨outcome, inserted⟩, insertion, unwrapped⟩
    cases outcome with
    | error error => cases unwrapped
    | ok done => exact ⟨inserted, Or.inr insertion, setComponent_of_unwrapped unwrapped⟩

/-- Loading does nothing else to a world: given ids and components are inserted, and
resources. -/
structure LoadKeeps (Holds : World Value → Prop) : Prop where
  insertId : ∀ w after id, Holds w → w.insertId id = some (.ok (), after) → Holds after
  setComponent : ∀ w after id ty value, Holds w →
    w.setComponent id ty value = some (.ok (), after) → Holds after
  insertResource : ∀ w ty value, Holds w → Holds (w.insertResource ty value)

variable {Holds : World Value → Prop}

theorem LoadKeeps.loadComponents (keeps : LoadKeeps Holds) (holds : Holds w)
    {values : List (EntityId × Value)}
    (loaded : values.foldlM (loadComponent component) w = some after) : Holds after := by
  induction values generalizing w with
  | nil =>
      cases loaded
      exact holds
  | cons entry values induction =>
      rw [List.foldlM_cons] at loaded
      rcases Option.bind_eq_some_iff.mp loaded with ⟨next, first, rest⟩
      apply induction _ rest
      rcases loadComponent_cases first with ⟨middle, rfl | inserted, set⟩
      · exact keeps.setComponent _ _ _ _ _ holds set
      · exact keeps.setComponent _ _ _ _ _ (keeps.insertId _ _ _ holds inserted) set

theorem LoadKeeps.visitMapValueImpl (keeps : LoadKeeps Holds) {ty : SerTy}
    {map rest : MapAccess Version Value} (holds : Holds w)
    (visited : WorldPersister.visitMapValueImpl ty component map w = some (.ok (rest, after))) :
    Holds after := by
  cases ty with
  | Component =>
      simp only [WorldPersister.visitMapValueImpl] at visited
      split at visited
      · simp only [Option.bind_eq_bind, Option.bind_eq_some_iff, Option.pure_def,
          Option.some.injEq, Except.ok.injEq, Prod.mk.injEq] at visited
        rcases visited with ⟨loaded, loading, _, rfl⟩
        exact keeps.loadComponents holds loading
      · cases visited
  | Resource =>
      simp only [WorldPersister.visitMapValueImpl] at visited
      split at visited
      · cases visited
        exact keeps.insertResource _ _ _ holds
      · cases visited
  | Noop =>
      cases visited
      exact holds

variable [TypeName]

theorem LoadKeeps.visitMapValue (keeps : LoadKeeps Holds) {persister : WorldPersister Version}
    {key : String} {map rest : MapAccess Version Value} (holds : Holds w)
    (visited : persister.visitMapValue key map w = some (.ok (rest, after))) : Holds after := by
  induction persister with
  | nil version =>
      rw [WorldPersister.visitMapValue] at visited
      split at visited
      · cases visited
        exact holds
      · exact keeps.visitMapValueImpl holds visited
  | cons ty component version next induction =>
      rw [WorldPersister.visitMapValue] at visited
      split at visited
      · exact induction visited
      · exact keeps.visitMapValueImpl holds visited

variable [VersionReq Version]

theorem LoadKeeps.visitMap (keeps : LoadKeeps Holds) {persister : WorldPersister Version}
    {fuel : Nat} {map : MapAccess Version Value} (holds : Holds w)
    (visited : persister.visitMap fuel map w = some (.ok after)) : Holds after := by
  induction fuel generalizing map w with
  | zero => cases visited
  | succ fuel induction =>
      rw [WorldPersister.visitMap] at visited
      split at visited
      · cases visited
      · cases visited
        exact holds
      · split at visited
        · split at visited
          · cases visited
          · exact induction holds visited
        · simp only [Option.bind_eq_bind, Option.bind_eq_some_iff] at visited
          rcases visited with ⟨outcome, value, visited⟩
          split at visited
          · cases visited
          · exact induction (keeps.visitMapValue holds value) visited

/-- What a new world has and loading keeps, a loaded world has. -/
theorem LoadKeeps.load (keeps : LoadKeeps Holds) {persister : WorldPersister Version}
    {payload : Payload Version Value}
    (new : ∀ capacity w, World.new capacity = some w → Holds w)
    (loaded : persister.load payload = some (.ok after)) : Holds after := by
  simp only [WorldPersister.load, Option.bind_eq_bind, Option.bind_eq_some_iff] at loaded
  rcases loaded with ⟨world, created, visited⟩
  exact keeps.visitMap (new _ world created) visited

theorem load_unparked {persister : WorldPersister Version} {payload : Payload Version Value}
    (loaded : persister.load payload = some (.ok after)) : after.Unparked := by
  have keeps : LoadKeeps (fun w : World Value => w.Unparked) :=
    { insertId := fun _ _ _ unparked inserted =>
        unparked.evolves (World.insertId_evolves inserted)
      setComponent := fun _ _ _ _ _ unparked set => unparked.setBundle set
      insertResource := fun _ _ _ unparked => { unparked with } }
  exact keeps.load (fun _ _ => World.unparked_new) loaded

end WorldPersister

end Cecs

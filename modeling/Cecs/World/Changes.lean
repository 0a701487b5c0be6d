import Cecs.World.Known

/-! # The same changes to two worlds

Two worlds with the same entities whose indexes hand out the same ids return the
same answers to a sequence of changes, whatever tables they are in. -/

namespace Cecs

open Foundation

/-- The operations on entities, `insert_id` among them. -/
inductive Change (Value : Type) where
  | operation (operation : Operation Value)
  | insertId (id : EntityId)

inductive Answer where
  | outcome (outcome : Outcome)
  | inserted (result : Except InsertError Unit)

namespace Change

variable {Value : Type}

/-- The component types that a change may add to an entity. -/
def types : Change Value → Finset TypeId
  | .operation (.setBundle _ bundle) => bundle.types
  | _ => ∅

/-- A bundle names every type once, and the unit component stays. -/
def Permitted [UnitTypeId] : Change Value → Prop
  | .operation (.setBundle _ bundle) => bundle.Distinct
  | .operation (.removeComponent _ ty) => ty ≠ unitTypeId
  | _ => True

end Change

namespace World

variable {Value : Type} [UnitTypeId]

section Run

variable [BuiltinValues Value]

def change (w : World Value) : Change Value → Option (Answer × World Value)
  | .operation operation =>
      (w.perform operation).map fun (outcome, after) => (.outcome outcome, after)
  | .insertId id => (w.insertId id).map fun (result, after) => (.inserted result, after)

/-- The answers to all changes; `none` if one of them panics. -/
def changes (w : World Value) : List (Change Value) → Option (List Answer × World Value)
  | [] => some ([], w)
  | first :: rest => do
      let (answer, middle) ← w.change first
      let (answers, after) ← middle.changes rest
      return (answer :: answers, after)

end Run

/-- The same entities, and the same ids to come. -/
structure Twins (types : Finset TypeId) (w other : World Value) : Prop where
  left : w.WellFormed
  right : other.WellFormed
  knownLeft : w.Knows types
  knownRight : other.Knows types
  index : ∃ slots, w.entityIds.Alike slots other.entityIds
  view : other.view = w.view

variable {types : Finset TypeId} {w other : World Value} {id : EntityId}

theorem Twins.refl (wf : w.WellFormed) (known : w.Knows types) : Twins types w w := by
  rcases wf.index with ⟨slots, sound⟩
  exact ⟨wf, wf, known, known, ⟨slots, .refl sound⟩, rfl⟩

theorem Twins.dead (twins : Twins types w other) (dead : w.view id = none) :
    w.entityIds.place id = none ∧ other.entityIds.place id = none := by
  rw [← view_eq_none_iff twins.left.toConsistent, ← view_eq_none_iff twins.right.toConsistent,
    twins.view]
  exact ⟨dead, dead⟩

theorem Twins.deleteEntity (twins : Twins types w other) (id : EntityId) :
    ∃ result first second, w.deleteEntity id = some (result, first) ∧
      other.deleteEntity id = some (result, second) ∧ Twins types first second := by
  cases live : w.view id with
  | none =>
      rcases twins.dead live with ⟨absent, absentOther⟩
      exact ⟨_, w, other, deleteEntity_dead absent, deleteEntity_dead absentOther, twins⟩
  | some row =>
      rcases twins.index with ⟨slots, alike⟩
      rcases deleteEntity_live twins.left alike.left live with
        ⟨first, renamed, deleted, wf, viewed, same, claimed, free⟩
      rcases deleteEntity_live twins.right alike.right ((congrFun twins.view id).trans live) with
        ⟨second, renamedOther, deletedOther, wfOther, viewedOther, sameOther, _, freeOther⟩
      refine ⟨_, first, second, deleted, deletedOther, wf, wfOther,
        (deleteEntity_evolves deleted).knows twins.knownLeft,
        (deleteEntity_evolves deletedOther).knows twins.knownRight, ⟨id.index :: slots, ?_⟩, ?_⟩
      · exact ((same.symm.trans alike).trans sameOther).free claimed free freeOther
      · rw [viewed, viewedOther, twins.view]

theorem Twins.setBundle (twins : Twins types w other) (apart : HashesApart types)
    (id : EntityId) {bundle : Bundle Value} (distinct : bundle.Distinct)
    (within : bundle.types ⊆ types) :
    ∃ result first second, w.setBundle id bundle = some (result, first) ∧
      other.setBundle id bundle = some (result, second) ∧ Twins types first second := by
  cases live : w.view id with
  | none =>
      rcases twins.dead live with ⟨absent, absentOther⟩
      exact ⟨_, w, other, setBundle_dead absent bundle, setBundle_dead absentOther bundle, twins⟩
  | some row =>
      rcases twins.index with ⟨slots, alike⟩
      have determined : ∀ side : World Value, side.WellFormed → side.Knows types →
          ∀ table, side.entityTable id = some table →
            side.HashDetermines (table.types ∪ bundle.types) := by
        intro side wf known table found
        rcases known.union wf.toFormed within found with ⟨subset, unit⟩
        exact known.hashDetermines wf.toFormed apart subset unit
      rcases setBundle_live twins.left alike.left live distinct
          (determined w twins.left twins.knownLeft) with
        ⟨first, set, wf, viewed, same⟩
      rcases setBundle_live twins.right alike.right ((congrFun twins.view id).trans live) distinct
          (determined other twins.right twins.knownRight) with
        ⟨second, setOther, wfOther, viewedOther, sameOther⟩
      refine ⟨_, first, second, set, setOther, wf, wfOther,
        setBundle_knows twins.left.toFormed twins.knownLeft within set,
        setBundle_knows twins.right.toFormed twins.knownRight within setOther,
        ⟨slots, (same.symm.trans alike).trans sameOther⟩, ?_⟩
      rw [viewed, viewedOther, twins.view]

theorem Twins.removeComponent (twins : Twins types w other) (apart : HashesApart types)
    (id : EntityId) {ty : TypeId} (notUnit : ty ≠ unitTypeId) :
    ∃ result first second, w.removeComponent id ty = some (result, first) ∧
      other.removeComponent id ty = some (result, second) ∧ Twins types first second := by
  cases live : w.view id with
  | none =>
      rcases twins.dead live with ⟨absent, absentOther⟩
      exact ⟨_, w, other, removeComponent_dead absent ty, removeComponent_dead absentOther ty,
        twins⟩
  | some row =>
      have liveOther : other.view id = some row := (congrFun twins.view id).trans live
      cases present : row ty with
      | none =>
          exact ⟨_, w, other, removeComponent_missing twins.left live present,
            removeComponent_missing twins.right liveOther present, twins⟩
      | some value =>
          rcases twins.index with ⟨slots, alike⟩
          have determined : ∀ side : World Value, side.WellFormed → side.Knows types →
              ∀ table, side.entityTable id = some table →
                side.HashDetermines (table.types.erase ty) := by
            intro side wf known table found
            rcases known.erase wf.toFormed notUnit found with ⟨subset, unit⟩
            exact known.hashDetermines wf.toFormed apart subset unit
          rcases removeComponent_live twins.left alike.left live notUnit present
              (determined w twins.left twins.knownLeft) with
            ⟨first, removed, wf, viewed, same⟩
          rcases removeComponent_live twins.right alike.right liveOther notUnit present
              (determined other twins.right twins.knownRight) with
            ⟨second, removedOther, wfOther, viewedOther, sameOther⟩
          refine ⟨_, first, second, removed, removedOther, wf, wfOther,
            removeComponent_knows twins.left.toFormed twins.knownLeft notUnit removed,
            removeComponent_knows twins.right.toFormed twins.knownRight notUnit removedOther,
            ⟨slots, (same.symm.trans alike).trans sameOther⟩, ?_⟩
          rw [viewed, viewedOther, twins.view]

section Insertion

variable [BuiltinValues Value]

/-- Both initialise an id that both handed out. -/
theorem Twins.initId (twins : Twins types w other) {first second : EntityIndex}
    {slots : List Nat} (alike : first.Alike slots second) (claimed : first.Claimed slots id)
    (places : first.place = w.entityIds.place) (placesOther : second.place = other.entityIds.place)
    (absent : w.entityIds.place id = none) :
    ∃ left right, (w.setIndex first).initId id = some left ∧
      (other.setIndex second).initId id = some right ∧ Twins types left right := by
  have dead := (view_eq_none_iff twins.left.toConsistent).mpr absent
  rcases initId_spec twins.left alike.left claimed places absent with
    ⟨left, init, wf, viewed, same⟩
  rcases initId_spec twins.right alike.right (alike.claimed claimed) placesOther
      (twins.dead dead).2 with
    ⟨right, initOther, wfOther, viewedOther, sameOther⟩
  refine ⟨left, right, init, initOther, wf, wfOther, ?_, ?_,
    ⟨slots, (same.symm.trans alike).trans sameOther⟩, ?_⟩
  · exact (initId_evolves init).knows twins.knownLeft
  · exact (initId_evolves initOther).knows twins.knownRight
  · rw [viewed, viewedOther, twins.view]

theorem Twins.insertEntity (twins : Twins types w other) :
    (w.entityIds.allocateWithResize = none ∧ other.entityIds.allocateWithResize = none) ∨
    ∃ id first second, w.insertEntity = some (id, first) ∧
      other.insertEntity = some (id, second) ∧ Twins types first second := by
  rcases twins.index with ⟨slots, alike⟩
  rcases alike.allocateWithResize with
    full | ⟨id, first, second, rest, allocated, allocatedOther, agree, claimed, places,
      placesOther, absent⟩
  · exact Or.inl full
  · rcases twins.initId agree claimed places placesOther absent with
      ⟨left, right, init, initOther, after⟩
    exact Or.inr ⟨id, left, right, by simp [World.insertEntity, allocated, init],
      by simp [World.insertEntity, allocatedOther, initOther], after⟩

theorem Twins.insertId (twins : Twins types w other) (id : EntityId) :
    (w.entityIds.insertId id = none ∧ other.entityIds.insertId id = none) ∨
    ∃ result first second, w.insertId id = some (result, first) ∧
      other.insertId id = some (result, second) ∧ Twins types first second := by
  rcases twins.index with ⟨slots, alike⟩
  rcases alike.insertId id with
    beyond | ⟨error, refused, refusedOther⟩ | ⟨first, second, rest, inserted, insertedOther,
      agree, claimed, places, placesOther, absent⟩
  · exact Or.inl beyond
  · exact Or.inr ⟨.error error, w, other, by simp [World.insertId, refused, setIndex],
      by simp [World.insertId, refusedOther, setIndex], twins⟩
  · rcases twins.initId agree claimed places placesOther absent with
      ⟨left, right, init, initOther, after⟩
    exact Or.inr ⟨.ok (), left, right, by simp [World.insertId, inserted, init],
      by simp [World.insertId, insertedOther, initOther], after⟩

/-- A change that panics found no room for an id. -/
def NoRoom (w : World Value) : Change Value → Prop
  | .operation .insertEntity => w.entityIds.allocateWithResize = none
  | .insertId id => w.entityIds.insertId id = none
  | _ => False

theorem NoRoom.change_eq_none {change : Change Value} (full : w.NoRoom change) :
    w.change change = none := by
  cases change with
  | insertId id =>
      simp [World.change, World.insertId, show w.entityIds.insertId id = none from full]
  | operation operation =>
      cases operation with
      | insertEntity =>
          simp [World.change, perform, World.insertEntity,
            show w.entityIds.allocateWithResize = none from full]
      | deleteEntity => exact full.elim
      | setBundle => exact full.elim
      | removeComponent => exact full.elim

theorem Twins.change (twins : Twins types w other) (apart : HashesApart types)
    {change : Change Value} (permitted : change.Permitted) (within : change.types ⊆ types) :
    (w.NoRoom change ∧ other.NoRoom change) ∨
    ∃ answer first second, w.change change = some (answer, first) ∧
      other.change change = some (answer, second) ∧ Twins types first second := by
  cases change with
  | insertId id =>
      rcases twins.insertId id with beyond | ⟨result, first, second, inserted, insertedOther, after⟩
      · exact Or.inl beyond
      · exact Or.inr ⟨.inserted result, first, second, by simp [World.change, inserted],
          by simp [World.change, insertedOther], after⟩
  | operation operation =>
      cases operation with
      | insertEntity =>
          rcases twins.insertEntity with full | ⟨id, first, second, inserted, insertedOther, after⟩
          · exact Or.inl full
          · exact Or.inr ⟨.outcome (.inserted id), first, second,
              by simp [World.change, perform, inserted],
              by simp [World.change, perform, insertedOther], after⟩
      | deleteEntity id =>
          rcases twins.deleteEntity id with ⟨result, first, second, deleted, deletedOther, after⟩
          exact Or.inr ⟨.outcome (.answer result), first, second,
            by simp [World.change, perform, deleted],
            by simp [World.change, perform, deletedOther], after⟩
      | setBundle id bundle =>
          rcases twins.setBundle apart id permitted within with
            ⟨result, first, second, set, setOther, after⟩
          exact Or.inr ⟨.outcome (.answer result), first, second,
            by simp [World.change, perform, set], by simp [World.change, perform, setOther],
            after⟩
      | removeComponent id ty =>
          rcases twins.removeComponent apart id permitted with
            ⟨result, first, second, removed, removedOther, after⟩
          exact Or.inr ⟨.outcome (.answer result), first, second,
            by simp [World.change, perform, removed],
            by simp [World.change, perform, removedOther], after⟩

/-- Twins stay twins, and give the same answers, as long as neither panics. -/
theorem Twins.changes (twins : Twins types w other) (apart : HashesApart types)
    {list : List (Change Value)}
    (permitted : ∀ change ∈ list, change.Permitted ∧ change.types ⊆ types) :
    (w.changes list = none ∧ other.changes list = none) ∨
    ∃ answers first second, w.changes list = some (answers, first) ∧
      other.changes list = some (answers, second) ∧ Twins types first second := by
  induction list generalizing w other with
  | nil => exact Or.inr ⟨[], w, other, rfl, rfl, twins⟩
  | cons change rest induction =>
      rcases permitted change List.mem_cons_self with ⟨allowed, within⟩
      rcases twins.change apart allowed within with
        ⟨full, fullOther⟩ | ⟨answer, left, right, changed, changedOther, middle⟩
      · left
        simp [World.changes, full.change_eq_none, fullOther.change_eq_none]
      · rcases induction middle (fun later member => permitted later
            (List.mem_cons_of_mem _ member)) with
          ⟨stuck, stuckOther⟩ | ⟨answers, first, second, ran, ranOther, after⟩
        · left
          simp [World.changes, changed, changedOther, stuck, stuckOther]
        · right
          exact ⟨answer :: answers, first, second, by simp [World.changes, changed, ran],
            by simp [World.changes, changedOther, ranOther], after⟩

end Insertion

end World

end Cecs

import Cecs.Commands
import Cecs.EntityMap
import Cecs.Table.Merge

/-! # What commands mean

Behind the world is the map of its live entities, with the ids that were handed out
and wait for a row, and the resources. Each command is one step on it, and a batch is
the steps of its commands up to the first that fails. -/

namespace Cecs

open Foundation

structure EntityState (Value : Type) where
  entities : EntityMap Value
  waiting : Set EntityId
  resources : TypeId → Option Value

section State

variable {Value : Type}

/-- What a queued change makes of the components of a live entity. -/
def ComponentCommand.update (row : Row Value) : ComponentCommand Value → Row Value
  | .Insert bundle => row.insertBundle bundle
  | .Delete ty => row.remove ty

/-- The changes of a payload, one after the other. -/
def Row.updated (row : Row Value) (payload : List (ComponentCommand Value)) : Row Value :=
  payload.foldl ComponentCommand.update row

/-- The entities have different components. -/
def Row.DifferentTypes (left right : Row Value) : Prop :=
  ∃ ty, (left ty).isSome ≠ (right ty).isSome

namespace EntityState

def Allocated (s : EntityState Value) (id : EntityId) : Prop :=
  s.entities id ≠ none ∨ id ∈ s.waiting

/-- No id with the slot is allocated, whatever its generation. -/
def SlotFree (s : EntityState Value) (id : EntityId) : Prop :=
  ∀ other, s.Allocated other → other.index ≠ id.index

def setEntity (s : EntityState Value) (id : EntityId) (row : Option (Row Value)) :
    EntityState Value :=
  { s with entities := Function.update s.entities id row }

variable [UnitTypeId] [BuiltinValues Value]

/-- A command, its result and what it leaves. -/
inductive Applies : EntityState Value → CommandPayload Value → WorldResult Unit →
    EntityState Value → Prop
  | fetch {s : EntityState Value} {id : EntityId} {row : Row Value}
      {payload : List (ComponentCommand Value)} (live : s.entities id = some row) :
      Applies s (.Entity ⟨.Fetch id, payload⟩) (.ok ()) (s.setEntity id (row.updated payload))
  | fetchDead {s : EntityState Value} {id : EntityId}
      {payload : List (ComponentCommand Value)} (dead : s.entities id = none) :
      Applies s (.Entity ⟨.Fetch id, payload⟩) (.error .EntityNotFound) s
  | init {s : EntityState Value} {id : EntityId} {payload : List (ComponentCommand Value)}
      (waits : id ∈ s.waiting) :
      Applies s (.Entity ⟨.Init id, payload⟩) (.ok ())
        ({ s with waiting := s.waiting \ {id} }.setEntity id (Row.marker.updated payload))
  | insert {s : EntityState Value} {id : EntityId} {payload : List (ComponentCommand Value)}
      (free : s.SlotFree id) :
      Applies s (.Entity ⟨.Insert, payload⟩) (.ok ())
        (s.setEntity id (Row.marker.updated payload))
  | insertId {s : EntityState Value} {id : EntityId} {payload : List (ComponentCommand Value)}
      (free : s.SlotFree id) :
      Applies s (.Entity ⟨.InsertId id, payload⟩) (.ok ())
        (s.setEntity id (Row.marker.updated payload))
  | insertLive {s : EntityState Value} {id : EntityId} {row : Row Value}
      {payload : List (ComponentCommand Value)} (live : s.entities id = some row) :
      Applies s (.Entity ⟨.InsertId id, payload⟩) (.ok ())
        (s.setEntity id (row.updated payload))
  | insertWaiting {s : EntityState Value} {id : EntityId}
      {payload : List (ComponentCommand Value)} (waits : id ∈ s.waiting) :
      Applies s (.Entity ⟨.InsertId id, payload⟩) (.error .EntityNotFound) s
  | insertTaken {s : EntityState Value} {id other : EntityId}
      {payload : List (ComponentCommand Value)} (taken : s.Allocated other)
      (sameSlot : other.index = id.index) (different : other ≠ id) :
      Applies s (.Entity ⟨.InsertId id, payload⟩) (.error (.InsertInvalidId id)) s
  | delete {s : EntityState Value} {id : EntityId} {payload : List (ComponentCommand Value)} :
      Applies s (.Entity ⟨.Delete id, payload⟩) (.ok ()) (s.setEntity id none)
  | mergeSelf {s : EntityState Value} {id : EntityId}
      {payload : List (ComponentCommand Value)} :
      Applies s (.Entity ⟨.Merge id id, payload⟩) (.ok ()) s
  | merge {s : EntityState Value} {src dst : EntityId} {left right : Row Value}
      {payload : List (ComponentCommand Value)} (liveSrc : s.entities src = some left)
      (liveDst : s.entities dst = some right) (different : left.DifferentTypes right) :
      Applies s (.Entity ⟨.Merge src dst, payload⟩) (.ok ())
        ((s.setEntity dst (right.overriddenBy left)).setEntity src none)
  | mergeDead {s : EntityState Value} {src dst : EntityId}
      {payload : List (ComponentCommand Value)} (different : src ≠ dst)
      (dead : s.entities src = none ∨ s.entities dst = none) :
      Applies s (.Entity ⟨.Merge src dst, payload⟩) (.error .EntityNotFound) s
  | insertResource {s : EntityState Value} {ty : TypeId} {value : Value} :
      Applies s (.Resource (.Insert ty value)) (.ok ())
        { s with resources := Function.update s.resources ty (some value) }
  | removeResource {s : EntityState Value} {ty : TypeId} :
      Applies s (.Resource (.Delete ty)) (.ok ())
        { s with resources := Function.update s.resources ty none }
  | reserve {s : EntityState Value} {additional : Nat} :
      Applies s (.World (.Reserve additional)) (.ok ()) s

/-- Commands one after the other, up to the first that fails. -/
inductive AppliesAll : EntityState Value → List (CommandPayload Value) → WorldResult Unit →
    EntityState Value → Prop
  | done {s : EntityState Value} : AppliesAll s [] (.ok ()) s
  | next {s middle after : EntityState Value} {command : CommandPayload Value}
      {rest : List (CommandPayload Value)} {result : WorldResult Unit}
      (first : Applies s command (.ok ()) middle) (others : AppliesAll middle rest result after) :
      AppliesAll s (command :: rest) result after
  | failed {s after : EntityState Value} {command : CommandPayload Value}
      {rest : List (CommandPayload Value)} {error : WorldError}
      (first : Applies s command (.error error) after) :
      AppliesAll s (command :: rest) (.error error) after

end EntityState

end State

end Cecs

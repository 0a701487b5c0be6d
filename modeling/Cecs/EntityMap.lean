import Cecs.World

/-! # The abstract entity map

What the world is for: a map from live entities to their components, and what
each operation does to it. A new entity has the unit component only. -/

namespace Cecs

abbrev EntityMap (Value : Type) := EntityId → Option (Row Value)

inductive Operation (Value : Type) where
  | insertEntity
  | deleteEntity (id : EntityId)
  | setBundle (id : EntityId) (bundle : Bundle Value)
  | removeComponent (id : EntityId) (ty : TypeId)

/-- What an operation returns: a new id, or a result. -/
inductive Outcome where
  | inserted (id : EntityId)
  | answer (result : WorldResult Unit)

namespace Operation

/-- The entity that an operation is about; an insertion picks its own. -/
def entity {Value : Type} : Operation Value → Option EntityId
  | .insertEntity => none
  | .deleteEntity id => some id
  | .setBundle id _ => some id
  | .removeComponent id _ => some id

end Operation

namespace EntityMap

variable {Value : Type} [UnitTypeId] [BuiltinValues Value]

inductive Step : EntityMap Value → Operation Value → Outcome → EntityMap Value → Prop
  | insert {before : EntityMap Value} {id : EntityId} (fresh : before id = none) :
      Step before .insertEntity (.inserted id) (Function.update before id (some Row.marker))
  | delete {before : EntityMap Value} {id : EntityId} {row : Row Value}
      (live : before id = some row) :
      Step before (.deleteEntity id) (.answer (.ok ())) (Function.update before id none)
  | set {before : EntityMap Value} {id : EntityId} {row : Row Value} {bundle : Bundle Value}
      (live : before id = some row) :
      Step before (.setBundle id bundle) (.answer (.ok ()))
        (Function.update before id (some (row.insertBundle bundle)))
  | remove {before : EntityMap Value} {id : EntityId} {row : Row Value} {ty : TypeId}
      {value : Value} (live : before id = some row) (present : row ty = some value) :
      Step before (.removeComponent id ty) (.answer (.ok ()))
        (Function.update before id (some (row.remove ty)))
  | missing {before : EntityMap Value} {id : EntityId} {row : Row Value} {ty : TypeId}
      (live : before id = some row) (absent : row ty = none) :
      Step before (.removeComponent id ty) (.answer (.error .ComponentNotFound)) before
  | dead {before : EntityMap Value} {operation : Operation Value} {id : EntityId}
      (about : operation.entity = some id) (dead : before id = none) :
      Step before operation (.answer (.error .EntityNotFound)) before

end EntityMap

end Cecs

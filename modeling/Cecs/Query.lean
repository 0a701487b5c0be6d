import Cecs.World

/-! # Queries and system parameters

A query fragment says what a row contributes to an item, a filter which tables
are walked, and the parameters of a system which component and resource types
it borrows. A tuple is its first element and the rest. `none` stands for a failed
debug assertion. -/

namespace Cecs

open Foundation

inductive QueryFragment where
  | ref (ty : TypeId)
  | refMut (ty : TypeId)
  | optionRef (ty : TypeId)
  | optionRefMut (ty : TypeId)
  | has (ty : TypeId)
  | entityId
  | archetypeHash
  | pair (first rest : QueryFragment)
  deriving DecidableEq, Repr

/-- What a row yields. A reference is the value it points to. -/
inductive Item (Value : Type) where
  | ref (value : Value)
  | option (value : Option Value)
  | bool (flag : Bool)
  | entityId (id : EntityId)
  | archetypeHash (hash : TypeHash)
  | pair (first rest : Item Value)

inductive Filter where
  | With (ty : TypeId)
  | WithOut (ty : TypeId)
  | Or (x y : Filter)
  | unit
  | pair (first rest : Filter)
  deriving DecidableEq, Repr

namespace QueryFragment

section Rows

variable {Value : Type}

def iter (self : QueryFragment) (archetype : EntityTable Value) : List (Item Value) :=
  match self with
  | .ref ty => ((archetype.components[ty]?).getD []).map .ref
  | .refMut ty => ((archetype.components[ty]?).getD []).map .ref
  | .optionRef ty =>
      match archetype.components[ty]? with
      | some column => column.map fun value => .option (some value)
      | none => List.replicate archetype.rows (.option none)
  | .optionRefMut ty =>
      match archetype.components[ty]? with
      | some column => column.map fun value => .option (some value)
      | none => List.replicate archetype.rows (.option none)
  | .has ty => List.replicate archetype.rows (.bool (archetype.containsColumn ty))
  | .entityId => archetype.entities.map .entityId
  | .archetypeHash => List.replicate archetype.rows (.archetypeHash archetype.ty)
  | .pair first rest => List.zipWith .pair (first.iter archetype) (rest.iter archetype)

def fetch (self : QueryFragment) (archetype : EntityTable Value) (index : Nat) :
    Option (Item Value) :=
  match self with
  | .ref ty => (archetype.getComponent ty index).map .ref
  | .refMut ty => (archetype.getComponent ty index).map .ref
  | .optionRef ty => some (.option (archetype.getComponent ty index))
  | .optionRefMut ty => some (.option (archetype.getComponent ty index))
  | .has ty => some (.bool (archetype.containsColumn ty))
  | .entityId => archetype.entities[index]?.map .entityId
  | .archetypeHash => archetype.entities[index]?.map fun _ => .archetypeHash archetype.ty
  | .pair first rest => do
      return .pair (← first.fetch archetype index) (← rest.fetch archetype index)

def contains (self : QueryFragment) (archetype : EntityTable Value) : Bool :=
  match self with
  | .ref ty => archetype.containsColumn ty
  | .refMut ty => archetype.containsColumn ty
  | .pair first rest => first.contains archetype && rest.contains archetype
  | _ => true

end Rows

/-- `&mut T` asserts that the type is not in the set yet. -/
def typesMut (self : QueryFragment) (set : Finset TypeId) : Option (Finset TypeId) :=
  match self with
  | .refMut ty => if ty ∈ set then none else some (insert ty set)
  | .optionRefMut ty => some (insert ty set)
  | .pair first rest => do rest.typesMut (← first.typesMut set)
  | _ => some set

def typesConst (self : QueryFragment) (set : Finset TypeId) : Finset TypeId :=
  match self with
  | .ref ty => insert ty set
  | .optionRef ty => insert ty set
  | .pair first rest => rest.typesConst (first.typesConst set)
  | _ => set

end QueryFragment

namespace Filter

def filter {Value : Type} (self : Filter) (archetype : EntityTable Value) : Bool :=
  match self with
  | .With ty => archetype.containsColumn ty
  | .WithOut ty => !archetype.containsColumn ty
  | .Or x y => x.filter archetype || y.filter archetype
  | .unit => true
  | .pair first rest => first.filter archetype && rest.filter archetype

end Filter

structure Query where
  fragment : QueryFragment
  filter : Filter
  deriving DecidableEq, Repr

namespace World

/-- The tables that queries walk, in the order of their keys. -/
def walked {Value : Type} (w : World Value) : List (Ptr × EntityTable Value) :=
  w.archetypes.toList.filterMap fun entry =>
    (w.tables entry.2).map fun table => (entry.2, table)

end World

namespace Query

variable {Value : Type}

/-- The walked tables that pass the filter. -/
def archetypes (self : Query) (w : World Value) : List (Ptr × EntityTable Value) :=
  w.walked.filter fun entry => self.filter.filter entry.2

def iter (self : Query) (w : World Value) : List (Item Value) :=
  (self.archetypes w).flatMap fun entry => self.fragment.iter entry.2

/-- The archetypes of `count`, `is_empty` and `any`. -/
def matching (self : Query) (w : World Value) : List (EntityTable Value) :=
  ((self.archetypes w).map Prod.snd).filter self.fragment.contains

def count (self : Query) (w : World Value) : Nat :=
  ((self.matching w).map EntityTable.rows).sum

def isEmpty (self : Query) (w : World Value) : Bool :=
  (self.matching w).all EntityTable.isEmpty

def any (self : Query) (w : World Value) : Bool :=
  (self.matching w).any fun archetype => !archetype.isEmpty

/-- The table of `id`, if it passes the filter, and its row there. -/
def lookup (self : Query) (w : World Value) (id : EntityId) :
    Option (Ptr × Nat × EntityTable Value) := do
  let (ptr, index) ← (w.entityIds.read id).toOption
  let archetype ← w.tables ptr
  guard (self.filter.filter archetype)
  return (ptr, index, archetype)

def fetch (self : Query) (w : World Value) (id : EntityId) : Option (Item Value) := do
  let (_, index, archetype) ← self.lookup w id
  self.fragment.fetch archetype index

def contains (self : Query) (w : World Value) (id : EntityId) : Bool :=
  (self.lookup w id).any fun (_, _, archetype) => self.fragment.contains archetype

end Query

/-- The type of the marker that keeps two `Commands` from running together. -/
class CommandSentinelTypeId where
  commandSentinel : TypeId

export CommandSentinelTypeId (commandSentinel)

/-- The parameters of systems. -/
inductive Param where
  | unit
  | query (query : Query)
  | querySet (queries : List Query)
  | res (ty : TypeId)
  | resMut (ty : TypeId)
  | optionRes (ty : TypeId)
  | optionResMut (ty : TypeId)
  | commands
  | worldAccess
  | pair (first rest : Param)

namespace Param

def componentsMut (self : Param) (set : Finset TypeId) : Option (Finset TypeId) :=
  match self with
  | .query q => q.fragment.typesMut set
  | .querySet queries => do
      let sets ← queries.mapM fun query => query.fragment.typesMut set
      return sets.foldl (· ∪ ·) set
  | .pair first rest => do rest.componentsMut (← first.componentsMut set)
  | _ => some set

/-- A query set takes the types that it borrows mutably out of the whole set. -/
def componentsConst (self : Param) (set : Finset TypeId) : Option (Finset TypeId) :=
  match self with
  | .query q => some (q.fragment.typesConst set)
  | .querySet queries => do
      let types := queries.foldl (fun set query => query.fragment.typesConst set) set
      let mutable ← queries.mapM fun query => query.fragment.typesMut ∅
      return types \ mutable.foldl (· ∪ ·) ∅
  | .pair first rest => do rest.componentsConst (← first.componentsConst set)
  | _ => some set

def resourcesMut [CommandSentinelTypeId] (self : Param) (set : Finset TypeId) :
    Finset TypeId :=
  match self with
  | .resMut ty => insert ty set
  | .optionResMut ty => insert ty set
  | .commands => insert commandSentinel set
  | .pair first rest => rest.resourcesMut (first.resourcesMut set)
  | _ => set

def resourcesConst (self : Param) (set : Finset TypeId) : Finset TypeId :=
  match self with
  | .res ty => insert ty set
  | .resMut ty => insert ty set
  | .optionRes ty => insert ty set
  | .optionResMut ty => insert ty set
  | .pair first rest => rest.resourcesConst (first.resourcesConst set)
  | _ => set

def exclusive : Param → Bool
  | .worldAccess => true
  | .pair first rest => first.exclusive || rest.exclusive
  | _ => false

end Param

structure QueryProperties where
  exclusive : Bool
  compMut : Finset TypeId
  compConst : Finset TypeId
  resMut : Finset TypeId
  resConst : Finset TypeId

namespace QueryProperties

def isDisjoint (self other : QueryProperties) : Bool :=
  !self.exclusive
    && !other.exclusive
    && decide (Disjoint self.compMut other.compConst)
    && decide (Disjoint self.resMut other.resConst)
    && decide (Disjoint self.compMut other.compMut)
    && decide (Disjoint self.resMut other.resMut)
    && decide (Disjoint self.compConst other.compMut)
    && decide (Disjoint self.resConst other.resMut)

end QueryProperties

/-- The part of `ensure_query_valid` about components, for a query. -/
def ensureQueryValid (query : Query) : Option (Finset TypeId × Finset TypeId) := do
  let compMut ← query.fragment.typesMut ∅
  let compConst := query.fragment.typesConst ∅
  guard (Disjoint compMut compConst)
  return (compMut, compConst)

namespace Query

/-- The assertions of `subset::<T1>`: the new fragment borrows no more. -/
def subsetAllowed (self : Query) (fragment : QueryFragment) : Bool :=
  (do
    let (compMut, compConst) ← ensureQueryValid { self with fragment }
    let rhs ← self.fragment.typesMut ∅
    guard (compMut ⊆ rhs)
    guard (compConst ⊆ self.fragment.typesConst rhs)).isSome

end Query

end Cecs

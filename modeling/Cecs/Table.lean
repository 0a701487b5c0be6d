import Cecs.Component
import Cecs.EntityId
import Cecs.Foundation.SwapRemove

/-! # Entity tables

A table holds the entities of one shape: their ids, the number of rows and one
column for each component type. `none` stands for a failed assertion or an
access out of bounds. -/

namespace Cecs

open Foundation

/-- A column is the vector of its values; its buffer is not modelled. -/
abbrev Column (Value : Type) := List Value

structure EntityTable (Value : Type) where
  ty : TypeHash
  rows : Nat
  entities : List EntityId
  components : BTreeMap TypeId (Column Value)

namespace EntityTable

variable {Value : Type}

def isEmpty (self : EntityTable Value) : Bool := self.rows == 0

/-- The entity that the last row was swapped in for, if there is one. -/
def movedInto (self : EntityTable Value) (rowIndex : Nat) : Option (Option EntityId) :=
  if rowIndex < self.rows then do
    let id ← self.entities[rowIndex]?
    return some id
  else
    return none

/-- Every column has the row. -/
def columnsHold (self : EntityTable Value) (rowIndex : Nat) : Bool :=
  self.components.allEntries fun _ column => decide (rowIndex < column.length)

/-- The table without a row; in every vector the last element takes its place. -/
def dropRow (self : EntityTable Value) (rowIndex : Nat) : EntityTable Value := { self with
  components := self.components.map fun _ column => swapRemove column rowIndex
  entities := swapRemove self.entities rowIndex
  rows := self.rows - 1 }

def remove (self : EntityTable Value) (rowIndex : Nat) :
    Option (Option EntityId × EntityTable Value) := do
  guard (self.columnsHold rowIndex)
  guard (rowIndex < self.entities.length)
  guard (0 < self.rows)
  let removed := self.dropRow rowIndex
  return (← removed.movedInto rowIndex, removed)

def insertEntity (self : EntityTable Value) (id : EntityId) :
    Option (Nat × EntityTable Value) := do
  let inserted := { self with entities := self.entities ++ [id], rows := self.rows + 1 }
  guard (inserted.rows = inserted.entities.length)
  return (self.rows, inserted)

/-- The columns of `dst` with row `index` of the columns that `src` has as well. -/
def pushRow (dst src : BTreeMap TypeId (Column Value)) (index : Nat) :
    BTreeMap TypeId (Column Value) :=
  dst.map fun ty column =>
    match src[ty]? with
    | some source => column ++ source[index]?.toList
    | none => column

/-- The new index in `dst`, the entity moved to the old place, and both tables. -/
def moveEntity (self dst : EntityTable Value) (index : Nat) :
    Option (Nat × Option EntityId × EntityTable Value × EntityTable Value) := do
  guard (self.rows = self.entities.length)
  guard (0 < self.rows)
  guard (index < self.rows)
  guard (self.columnsHold index)
  let entityId ← self.entities[index]?
  let (res, inserted) ← dst.insertEntity entityId
  let removed := self.dropRow index
  let moved ← removed.movedInto index
  return (res, moved, removed,
    { inserted with components := pushRow inserted.components self.components index })

/-- The columns of `dst` with row `srcIndex` of `src` written over row `dstIndex`. -/
def overwriteRow (dst src : BTreeMap TypeId (Column Value)) (srcIndex dstIndex : Nat) :
    BTreeMap TypeId (Column Value) :=
  dst.map fun ty column =>
    match src[ty]? with
    | some source => (source[srcIndex]?.map fun value => column.set dstIndex value).getD column
    | none => column

/-- Every column of `dst` that `src` has as well holds the row. -/
def sharedColumnsHold (dst src : BTreeMap TypeId (Column Value)) (dstIndex : Nat) : Bool :=
  dst.allEntries fun ty column => !src.contains ty || decide (dstIndex < column.length)

/-- The entity moved to the old place, and both tables. -/
def moveEntityInto (self : EntityTable Value) (srcIndex : Nat) (dst : EntityTable Value)
    (dstIndex : Nat) : Option (Option EntityId × EntityTable Value × EntityTable Value) := do
  guard (srcIndex < self.entities.length)
  guard (0 < self.rows)
  guard (self.columnsHold srcIndex)
  guard (sharedColumnsHold dst.components self.components dstIndex)
  let removed := self.dropRow srcIndex
  let moved ← removed.movedInto srcIndex
  return (moved, removed,
    { dst with
      components := overwriteRow dst.components self.components srcIndex dstIndex })

/-- The columns of the merged entity: `dst` holds its row with the components of
`rhs`; components of `self` are written over them or, where `rhs` has no such
column, appended. -/
def mergeRow (dst src : BTreeMap TypeId (Column Value)) (rhs : EntityTable Value)
    (srcIndex dstIndex : Nat) : BTreeMap TypeId (Column Value) :=
  dst.map fun ty column =>
    match src[ty]? with
    | some source =>
        if rhs.components.contains ty then
          (source[srcIndex]?.map fun value => column.set dstIndex value).getD column
        else
          column ++ source[srcIndex]?.toList
    | none => column

/-- The loop of the general path of `merge_entities` over the columns of `self`. -/
def mergeInto (self : EntityTable Value) (srcIndex : Nat) (rhs dst : EntityTable Value)
    (dstIndex : Nat) : Option (EntityTable Value × EntityTable Value) := do
  guard (self.columnsHold srcIndex)
  guard (self.components.keys.all fun ty => dst.components.contains ty)
  guard (dst.components.allEntries fun ty column =>
    !(self.components.contains ty && rhs.components.contains ty) ||
      decide (dstIndex < column.length))
  guard (srcIndex < self.entities.length)
  guard (0 < self.rows)
  return (self.dropRow srcIndex,
    { dst with
      components := mergeRow dst.components self.components rhs srcIndex dstIndex })

def setComponent (self : EntityTable Value) (rowIndex : Nat) (ty : TypeId) (val : Value) :
    Option (EntityTable Value) := do
  let column ← self.components[ty]?
  guard (rowIndex ≤ column.length)
  return { self with
    components := self.components.insert ty
      (if rowIndex = column.length then column ++ [val] else column.set rowIndex val) }

def containsColumn (self : EntityTable Value) (ty : TypeId) : Bool :=
  self.components.contains ty

def cloneEmpty (self : EntityTable Value) : EntityTable Value where
  ty := self.ty
  rows := 0
  entities := []
  components := self.components.map fun _ _ => []

/-- Swap all components of two entities. -/
def swapComponents (self : EntityTable Value) (a b : Nat) : Option (EntityTable Value) := do
  guard (self.columnsHold a)
  guard (self.columnsHold b)
  return { self with
    components := self.components.map fun _ column =>
      match column[a]?, column[b]? with
      | some atA, some atB => (column.set a atB).set b atA
      | _, _ => column }

def getComponent (self : EntityTable Value) (ty : TypeId) (row : Nat) : Option Value :=
  (self.components[ty]?).bind fun column => column[row]?

/-- An assignment through a reference to a cell. -/
def writeCell (self : EntityTable Value) (ty : TypeId) (row : Nat) (value : Value) :
    EntityTable Value :=
  match self.components[ty]? with
  | some column => { self with components := self.components.insert ty (column.set row value) }
  | none => self

variable [UnitTypeId]

def empty : EntityTable Value where
  ty := hashTypeId unitTypeId
  rows := 0
  entities := []
  components := (∅ : BTreeMap TypeId (Column Value)).insert unitTypeId []

def extendedHash (self : EntityTable Value) (ty : TypeId) : TypeHash :=
  self.ty ^^^ hashTypeId ty

def extendWithColumn (self : EntityTable Value) (ty : TypeId) : EntityTable Value :=
  if self.containsColumn ty then self
  else { self with
    ty := self.extendedHash ty
    components := self.components.insert ty [] }

/-- A new table with the columns of both tables. -/
def merged (self rhs : EntityTable Value) : EntityTable Value :=
  rhs.components.keys.foldl
    (fun result ty =>
      if self.containsColumn ty then result
      else { result with
        ty := result.extendedHash ty
        components := result.components.insert ty [] })
    self.cloneEmpty

def reduceWithColumn (self : EntityTable Value) (ty : TypeId) : EntityTable Value :=
  if self.containsColumn ty then { self with
    ty := self.extendedHash ty
    components := self.components.erase ty }
  else self

end EntityTable

namespace Bundle

variable {Value : Type}

def computeHashFromTable [UnitTypeId] (bundle : Bundle Value)
    (archetype : EntityTable Value) : TypeHash :=
  bundle.foldl
    (fun ty entry =>
      if archetype.containsColumn entry.1 then ty else ty ^^^ hashTypeId entry.1)
    archetype.ty

def canInsert (bundle : Bundle Value) (archetype : EntityTable Value) : Bool :=
  bundle.all fun entry => archetype.containsColumn entry.1

def insertInto (bundle : Bundle Value) (archetype : EntityTable Value) (index : Nat) :
    Option (EntityTable Value) :=
  bundle.foldlM (fun archetype entry => archetype.setComponent index entry.1 entry.2)
    archetype

def extend [UnitTypeId] (bundle : Bundle Value) (archetype : EntityTable Value) :
    EntityTable Value :=
  bundle.foldl (fun result entry => result.extendWithColumn entry.1) archetype.cloneEmpty

end Bundle

end Cecs

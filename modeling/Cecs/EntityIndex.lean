import Cecs.EntityId
import Cecs.Foundation.Chain
import Cecs.Foundation.Float32

/-! # The entity index

One entry per slot: the generation of the slot and, while an entity lives in
it, the table and row of the entity. Unused slots are linked through their row
field. Raw memory is a list, a table pointer is the number of its allocation,
and `none` stands for a failed assertion or an access out of bounds. -/

namespace Cecs

open Foundation

abbrev Ptr := Nat

inductive HandleTableError where
  | OutOfCapacity
  | NotFound
  | Uninitialized
  deriving DecidableEq, Repr

inductive InsertError where
  | Taken (id : EntityId)
  | AlreadyInserted (id : EntityId)
  deriving DecidableEq, Repr

structure Entry where
  generation : Nat
  arch : Option Ptr
  rowIndex : Nat
  deriving DecidableEq, Repr

def SENTINEL : Nat := 2 ^ 32 - 1

structure EntityIndex where
  entries : List Entry
  count : Nat
  freeList : Nat
  deriving DecidableEq, Repr

namespace EntityIndex

def cap (self : EntityIndex) : Nat := self.entries.length

/-- Unused entries for the slots from `start` to `stop`, each linked to the next
and the last one to `last`. -/
def freshEntries (start stop last : Nat) : List Entry :=
  (List.range' start (stop - start)).map fun i =>
    { generation := 0, arch := none, rowIndex := if i + 1 = stop then last else i + 1 }

def new (initialCapacity : Nat) : Option EntityIndex := do
  guard (initialCapacity < ENTITY_INDEX_MASK)
  let cap := max initialCapacity 1
  return { entries := freshEntries 0 cap SENTINEL, count := 0, freeList := 0 }

/-- The copy has the capacity that `new` gives it. -/
def clone (self : EntityIndex) : Option EntityIndex := do
  let result ← new self.cap
  guard (result.cap = self.cap)
  return { result with
    entries := self.entries
    freeList := self.freeList
    count := self.count }

def freeListPush (self : EntityIndex) (index : Nat) : Option EntityIndex := do
  let entry ← self.entries[index]?
  return { self with
    entries := self.entries.set index { entry with rowIndex := self.freeList }
    freeList := index }

def freeListPop (self : EntityIndex) : Option (Option Nat × EntityIndex) :=
  if self.freeList = SENTINEL then
    some (none, self)
  else do
    let entry ← self.entries[self.freeList]?
    return (some self.freeList, { self with freeList := entry.rowIndex })

/-- The index after `grow`, when its assertions hold. -/
def grown (self : EntityIndex) (newCap : Nat) : EntityIndex := { self with
  entries := self.entries ++ freshEntries self.cap newCap self.freeList
  freeList := self.cap }

def grow (self : EntityIndex) (newCap : Nat) : Option EntityIndex := do
  guard (newCap < ENTITY_INDEX_MASK)
  guard (self.cap < newCap)
  guard (2 ≤ newCap)
  return self.grown newCap

def len (self : EntityIndex) : Nat := self.count

/-- `(cap as f32 * 3.0 / 2.0).ceil() as u32`: the product is rounded, halving it
is exact. -/
def resizedCapacity (cap : Nat) : Nat := (asFloat32 (asFloat32 cap * 3) + 1) / 2

def initAllocatedId (self : EntityIndex) (index : Nat) : Option (EntityId × EntityIndex) := do
  let entry ← self.entries[index]?
  guard (EntityId.Packable index entry.generation)
  return (EntityId.new index entry.generation,
    { self with
      count := self.count + 1
      entries := self.entries.set index { entry with arch := none, rowIndex := SENTINEL } })

def allocate (self : EntityIndex) :
    Option (Except HandleTableError EntityId × EntityIndex) := do
  match ← self.freeListPop with
  | (some index, popped) =>
      let (id, result) ← popped.initAllocatedId index
      return (.ok id, result)
  | (none, _) =>
      if self.count = self.cap then
        return (.error .OutOfCapacity, self)
      else
        let (id, result) ← self.initAllocatedId self.count
        return (.ok id, result)

/-- The first step of `allocate_with_resize`. -/
def growIfFull (self : EntityIndex) : Option EntityIndex :=
  if self.freeList = SENTINEL ∧ self.count = self.cap then
    self.grow (resizedCapacity self.cap)
  else
    some self

def allocateWithResize (self : EntityIndex) : Option (EntityId × EntityIndex) := do
  let resized ← self.growIfFull
  match ← resized.allocate with
  | (.ok id, result) => return (id, result)
  | (.error _, _) => none

/-- A place that holds a link of the free list: the head, or an entry. -/
inductive FreeListLink where
  | head
  | entry (index : Nat)
  deriving DecidableEq, Repr

def readLink (self : EntityIndex) : FreeListLink → Option Nat
  | .head => some self.freeList
  | .entry index => self.entries[index]?.map Entry.rowIndex

def writeLink (self : EntityIndex) (link : FreeListLink) (target : Nat) :
    Option EntityIndex :=
  match link with
  | .head => some { self with freeList := target }
  | .entry index => do
      let entry ← self.entries[index]?
      return { self with entries := self.entries.set index { entry with rowIndex := target } }

/-- The walk of `insert_id`: the link that leads to `needle`, if the list has one.
A list of `n` slots is walked in `n + 1` steps. -/
def findLink (self : EntityIndex) (needle : Nat) :
    Nat → FreeListLink → Option (Option FreeListLink)
  | 0, _ => none
  | fuel + 1, link => do
      let target ← self.readLink link
      if target = SENTINEL then
        return none
      else if target = needle then
        return some link
      else
        self.findLink needle fuel (.entry target)

/-- Makes `needle` a slot of the index. -/
def growToHold (self : EntityIndex) (needle : Nat) : Option EntityIndex :=
  if self.cap ≤ needle then self.grow (needle + 1) else some self

/-- The error for a slot that is in use. -/
def insertErrorFor (self : EntityIndex) (id : EntityId) : Option InsertError := do
  let entry ← self.entries[id.index]?
  return if entry.generation = id.generation then .AlreadyInserted id else .Taken id

def insertId (self : EntityIndex) (id : EntityId) :
    Option (Except InsertError Unit × EntityIndex) := do
  let needle := id.index
  if (self.entries[needle]?.map fun entry => entry.arch.isSome).getD false then
    return (.error (← self.insertErrorFor id), self)
  else
    let grown ← self.growToHold needle
    match ← grown.findLink needle (grown.cap + 1) .head with
    | some link =>
        let row ← grown.readLink (.entry needle)
        let unlinked ← grown.writeLink link row
        let (_, allocated) ← unlinked.initAllocatedId needle
        let entry ← allocated.entries[needle]?
        return (.ok (), { allocated with
          entries := allocated.entries.set needle
            { entry with generation := id.generation } })
    | none => return (.error (← grown.insertErrorFor id), grown)

/-- The sum is a `u32`. -/
def reserve (self : EntityIndex) (additional : Nat) : Option EntityIndex :=
  let newCap := (self.count + additional) % 2 ^ 32
  if self.cap < newCap then self.grow newCap else some self

def update (self : EntityIndex) (id : EntityId) (arch : Ptr) (row : Nat) :
    Option EntityIndex := do
  let entry ← self.entries[id.index]?
  guard (id.generation = entry.generation)
  return { self with
    entries := self.entries.set id.index { entry with arch := some arch, rowIndex := row } }

def updateRowIndex (self : EntityIndex) (id : EntityId) (row : Nat) :
    Option EntityIndex := do
  let entry ← self.entries[id.index]?
  guard (id.generation = entry.generation)
  return { self with entries := self.entries.set id.index { entry with rowIndex := row } }

/-- `update_row_index` of the entity that was swapped into row `row`, if any. -/
def updateMoved (self : EntityIndex) (moved : Option EntityId) (row : Nat) :
    Option EntityIndex :=
  match moved with
  | some id => self.updateRowIndex id row
  | none => some self

def isValid (self : EntityIndex) (id : EntityId) : Bool :=
  match self.entries[id.index]? with
  | some entry => entry.generation = id.generation ∧ entry.arch ≠ none
  | none => false

def get (self : EntityIndex) (id : EntityId) : Option Entry :=
  if self.isValid id then self.entries[id.index]? else none

def read (self : EntityIndex) (id : EntityId) : Except HandleTableError (Ptr × Nat) :=
  match self.get id with
  | none => .error .NotFound
  | some entry =>
      match entry.arch with
      | none => .error .Uninitialized
      | some arch => .ok (arch, entry.rowIndex)

def free (self : EntityIndex) (id : EntityId) : Option EntityIndex := do
  guard (0 < self.count)
  let entry ← self.entries[id.index]?
  guard (id.generation = entry.generation)
  let freed : EntityIndex := { self with
    count := self.count - 1
    entries := self.entries.set id.index
      { generation := (entry.generation + 1) &&& ENTITY_GEN_MASK
        arch := none
        rowIndex := SENTINEL } }
  freed.freeListPush id.index

end EntityIndex

end Cecs

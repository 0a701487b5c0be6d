import Cecs.Query

/-! # Systems and stages

A stage is built from systems in the order in which they were added; `build`
puts them in an order in which a system comes after those it names in `after`. -/

namespace Cecs

/-- The closures of a descriptor are functions of the parameters. `after` is the
order in which its set happens to iterate, `factory` what the system does. -/
structure SystemDescriptor (Body : Type) where
  id : TypeId
  params : List Param
  factory : Body
  after : List TypeId

namespace SystemDescriptor

variable {Body : Type}

def componentsMut (self : SystemDescriptor Body) : Option (Finset TypeId) :=
  self.params.foldlM (fun set param => param.componentsMut set) ∅

def componentsConst (self : SystemDescriptor Body) : Option (Finset TypeId) :=
  self.params.foldlM (fun set param => param.componentsConst set) ∅

def resourcesMut [CommandSentinelTypeId] (self : SystemDescriptor Body) : Finset TypeId :=
  self.params.foldl (fun set param => param.resourcesMut set) ∅

def resourcesConst (self : SystemDescriptor Body) : Finset TypeId :=
  self.params.foldl (fun set param => param.resourcesConst set) ∅

def exclusive (self : SystemDescriptor Body) : Bool := self.params.any Param.exclusive

end SystemDescriptor

namespace QueryProperties

def fromSystem {Body : Type} [CommandSentinelTypeId] (desc : SystemDescriptor Body) :
    Option QueryProperties := do
  return { exclusive := desc.exclusive
           compMut := ← desc.componentsMut
           compConst := ← desc.componentsConst
           resMut := desc.resourcesMut
           resConst := desc.resourcesConst }

end QueryProperties

structure ErasedSystem (Body : Type) where
  systemIdx : Nat
  descriptor : SystemDescriptor Body

namespace ErasedSystem

variable {Body : Type}

def id (self : ErasedSystem Body) : TypeId := self.descriptor.id

end ErasedSystem

/-- The systems still to be sorted, by id, and the sorted ones. -/
structure SortState (Body : Type) where
  systems : List (ErasedSystem Body)
  out : List (ErasedSystem Body)

section Sorting

variable {Body : Type}

/-- The recursion is as deep as `pending` is long, and every pending system has
left `systems`. -/
def extendSortedSystems :
    Nat → TypeId → List TypeId → SortState Body → Option (SortState Body)
  | 0, _, _, _ => none
  | fuel + 1, id, pending, state => do
      guard (id ∉ pending)
      match state.systems.find? fun sys => sys.id == id with
      | none => return state
      | some sys =>
          let removed := { state with
            systems := state.systems.filter fun sys => sys.id != id }
          let extended ← sys.descriptor.after.foldlM
            (fun state id' => extendSortedSystems fuel id' (pending ++ [id]) state) removed
          return { extended with out := extended.out ++ [sys] }

def sortedSystems (sys : List (ErasedSystem Body)) : Option (List (ErasedSystem Body)) := do
  guard (sys.map ErasedSystem.id).Nodup
  let sorted ← (sys.map ErasedSystem.id).foldlM
    (fun state id => extendSortedSystems (sys.length + 1) id [] state)
    { systems := sys, out := [] }
  return sorted.out

end Sorting

structure SystemStageBuilder (Body : Type) where
  systems : List (ErasedSystem Body)

namespace SystemStageBuilder

variable {Body : Type}

def new : SystemStageBuilder Body := ⟨[]⟩

/-- Under the `parallel` feature the buffer is fixed here, by registration. -/
def addSystem (parallel : Bool) (self : SystemStageBuilder Body)
    (descriptor : SystemDescriptor Body) : SystemStageBuilder Body :=
  let systemIdx := if parallel then self.systems.length else 0
  ⟨self.systems ++ [⟨systemIdx, descriptor⟩]⟩

/-- A builder after systems were added one by one. -/
def withSystems (parallel : Bool) (descriptors : List (SystemDescriptor Body)) :
    SystemStageBuilder Body :=
  descriptors.foldl (addSystem parallel) new

end SystemStageBuilder

structure SystemStage (Body : Type) where
  systems : List (ErasedSystem Body)

namespace SystemStageBuilder

def build {Body : Type} (self : SystemStageBuilder Body) : Option (SystemStage Body) := do
  return ⟨← sortedSystems self.systems⟩

end SystemStageBuilder

end Cecs

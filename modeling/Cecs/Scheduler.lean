import Cecs.JobSystem.Pool
import Cecs.Systems

/-! # The schedule of a stage

The parents of a system are the earlier systems that it conflicts with and the
ones that it names in `after`. -/

namespace Cecs

structure Schedule where
  parents : List (List Nat)

namespace Schedule

variable {Body : Type}

/-- The map of the ids to the positions; a later entry takes the place of an earlier one. -/
def indices (systems : List (ErasedSystem Body)) : TypeId → Option Nat :=
  systems.zipIdx.foldl (fun map entry => Function.update map entry.1.id (some entry.2))
    fun _ => none

/-- The parents of the system at position `i`. -/
def parentsOf (indices : TypeId → Option Nat) (history : List QueryProperties)
    (props : QueryProperties) (sys : ErasedSystem Body) (i : Nat) : List Nat :=
  (((history.zipIdx.take i).filter fun entry => !props.isDisjoint entry.1).map Prod.snd) ++
    sys.descriptor.after.filterMap indices

/-- One round of the loop over the systems after the first one. -/
def extend [CommandSentinelTypeId] (indices : TypeId → Option Nat)
    (state : List QueryProperties × Schedule) (entry : ErasedSystem Body × Nat) :
    Option (List QueryProperties × Schedule) := do
  let (history, res) := state
  let (sys, i) := entry
  let props ← QueryProperties.fromSystem sys.descriptor
  return (history ++ [props], ⟨res.parents ++ [parentsOf indices history props sys i]⟩)

def fromStage [CommandSentinelTypeId] (stage : SystemStage Body) : Option Schedule :=
  match stage.systems with
  | [] => some ⟨[]⟩
  | first :: rest => do
      let props ← QueryProperties.fromSystem first.descriptor
      guard (first.descriptor.after = [])
      let (_, res) ← (rest.zipIdx 1).foldlM (extend (indices stage.systems)) ([props], ⟨[[]]⟩)
      return res

/-- The jobs of a stage, each a reference to its system, and an edge for each parent. -/
def jobs (self : Schedule) (stage : List (ErasedSystem Body)) :
    Option (JobSystem.HomogeneousJobGraph (ErasedSystem Body)) := do
  guard (stage.length = self.parents.length)
  return self.parents.zipIdx.foldl
    (fun graph entry => entry.1.foldl (fun graph j => graph.addDependency j entry.2) graph)
    (JobSystem.HomogeneousJobGraph.new stage)

end Schedule

end Cecs

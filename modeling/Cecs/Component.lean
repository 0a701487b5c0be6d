import Cecs.Foundation.BTreeMap
import Cecs.Foundation.XorSum
import Mathlib.Logic.Function.Basic

/-! # Component types and their hashes

A `TypeId` is 128 bits, which `hash_type_id` takes as they are: the hash of a
type is its id, except that the unit type has hash zero. Columns are type
erased, so the values of all component types share one type `Value`. -/

namespace Cecs

open Foundation

abbrev TypeId := BitVec 128

abbrev TypeHash := BitVec 128

instance instTransOrdTypeId : Std.TransOrd TypeId := inferInstance

instance instLawfulEqOrdTypeId : Std.LawfulEqOrd TypeId := inferInstance

/-- The id the compiler gave to the unit type. -/
class UnitTypeId where
  unitTypeId : TypeId

/-- The values that the crate makes itself, among the erased ones: the unit value, and with the
`parallel` feature the `JobPool` that a new world has as a resource, with the id of its type. -/
class BuiltinValues (Value : Type) where
  unitValue : Value
  jobPool : Option (TypeId × Value)

export UnitTypeId (unitTypeId)
export BuiltinValues (unitValue jobPool)

def VOID_TY : TypeHash := 0#128

section Hash

variable [UnitTypeId]

def hashTypeId (ty : TypeId) : TypeHash := if ty = unitTypeId then 0#128 else ty

@[simp] theorem hashTypeId_unitTypeId : hashTypeId unitTypeId = VOID_TY := by
  simp [hashTypeId, VOID_TY]

/-- The hash of a set of component types. -/
def hashTypes (types : Finset TypeId) : TypeHash := xorSum hashTypeId types

end Hash

/-- The components of one entity. -/
abbrev Row (Value : Type) := TypeId → Option Value

/-- A bundle is a tuple; only the types and values of its members matter. -/
abbrev Bundle (Value : Type) := List (TypeId × Value)

namespace Bundle

variable {Value : Type}

/-- The component types of the members. -/
def types (bundle : Bundle Value) : Finset TypeId := (bundle.map Prod.fst).toFinset

/-- No component type occurs twice. -/
def Distinct (bundle : Bundle Value) : Prop := (bundle.map Prod.fst).Nodup

instance (bundle : Bundle Value) : Decidable bundle.Distinct :=
  inferInstanceAs (Decidable (List.Nodup _))

@[simp] theorem types_nil : types ([] : Bundle Value) = ∅ := rfl

@[simp] theorem types_cons (entry : TypeId × Value) (bundle : Bundle Value) :
    types (entry :: bundle) = insert entry.1 (types bundle) := by
  simp [types]

theorem mem_types_of_mem {bundle : Bundle Value} {entry : TypeId × Value}
    (member : entry ∈ bundle) : entry.1 ∈ types bundle :=
  List.mem_toFinset.mpr (List.mem_map_of_mem member)

end Bundle

namespace Row

variable {Value : Type}

/-- An entity without components still has the unit component. -/
def marker [UnitTypeId] [BuiltinValues Value] : Row Value :=
  Function.update (fun _ => none) unitTypeId (some unitValue)

def insert (row : Row Value) (ty : TypeId) (value : Value) : Row Value :=
  Function.update row ty (some value)

def remove (row : Row Value) (ty : TypeId) : Row Value :=
  Function.update row ty none

def insertBundle (row : Row Value) (bundle : Bundle Value) : Row Value :=
  bundle.foldl (fun row entry => insert row entry.1 entry.2) row

@[simp] theorem insertBundle_nil (row : Row Value) : insertBundle row [] = row := rfl

@[simp] theorem insertBundle_cons (row : Row Value) (entry : TypeId × Value)
    (bundle : Bundle Value) :
    insertBundle row (entry :: bundle) =
      insertBundle (insert row entry.1 entry.2) bundle := rfl

theorem insertBundle_isSome {row : Row Value} {bundle : Bundle Value} {ty : TypeId} :
    (insertBundle row bundle ty).isSome = true ↔
      (row ty).isSome = true ∨ ty ∈ bundle.types := by
  induction bundle generalizing row with
  | nil => simp
  | cons entry bundle induction =>
      rw [insertBundle_cons, induction, Bundle.types_cons, Finset.mem_insert]
      by_cases same : ty = entry.1
      · simp [insert, same]
      · simp [insert, same]

end Row

/-! Instances to evaluate the model with: values are numbers. -/
namespace Sample

scoped instance : UnitTypeId := ⟨1#128⟩

scoped instance : BuiltinValues Nat := ⟨0, some (42#128, 0)⟩

end Sample

end Cecs

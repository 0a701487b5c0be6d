import Cecs.World.Evolution
import Cecs.World.Refinement
import Mathlib.Data.Finset.Powerset

/-! # Worlds over a set of component types

As long as all tables have columns of known types only, hashes that tell the sets
of known types apart tell the tables apart. -/

namespace Cecs

open Foundation

section Hashes

variable [UnitTypeId]

/-- Sets of types with the unit type in them have different hashes. -/
def HashesApart (types : Finset TypeId) : Prop :=
  ∀ left ⊆ types, ∀ right ⊆ types, unitTypeId ∈ left → unitTypeId ∈ right →
    hashTypes left = hashTypes right → left = right

instance (types : Finset TypeId) : Decidable (HashesApart types) :=
  inferInstanceAs (Decidable (∀ left ⊆ types, ∀ right ⊆ types, unitTypeId ∈ left →
    unitTypeId ∈ right → hashTypes left = hashTypes right → left = right))

end Hashes

namespace World

variable {Value : Type} {w after : World Value} {id : EntityId} {types : Finset TypeId}

def Knows (types : Finset TypeId) (w : World Value) : Prop :=
  ∀ ptr table, w.tables ptr = some table → table.types ⊆ types

/-- The columns of the tables that an operation leaves. -/
theorem Evolves.knows {parked : Bool} (evolves : Evolves parked w after)
    (known : w.Knows types) : after.Knows types := by
  intro ptr table found
  cases before : w.tables ptr with
  | none =>
      rw [evolves.absent ptr before] at found
      cases found
  | some old =>
      rcases evolves.tables ptr old before with ⟨changed, foundChanged, persists⟩
      rw [found] at foundChanged
      cases foundChanged
      rw [persists.types]
      exact known ptr old before

theorem Knows.addTable (known : w.Knows types) {table : EntityTable Value}
    (absent : w.archetypes[table.ty]? = none) (within : table.types ⊆ types) :
    (w.addTable table).Knows types := by
  intro ptr other found
  rw [tables_addTable _ absent, Function.update_apply] at found
  split at found
  · cases found
    exact within
  · exact known ptr other found

theorem Knows.entityTable (known : w.Knows types) {table : EntityTable Value}
    (found : w.entityTable id = some table) : ∃ ptr, w.tables ptr = some table ∧
      table.types ⊆ types := by
  rw [World.entityTable] at found
  split at found
  · cases found
  · exact ⟨_, found, known _ table found⟩

variable [UnitTypeId]

theorem Knows.hashDetermines (known : w.Knows types) (formed : w.Formed)
    (apart : HashesApart types) {target : Finset TypeId} (within : target ⊆ types)
    (unit : unitTypeId ∈ target) : w.HashDetermines target := by
  intro ptr table found ty
  have shaped := formed.shaped ptr table found
  rw [shaped.hashed] at ty
  exact apart _ (known ptr table found) _ within shaped.unitColumn unit ty

/-- A first world has the unit column only. -/
theorem knows_new [BuiltinValues Value] {initialCapacity : Nat}
    (created : new initialCapacity = some w) (unit : unitTypeId ∈ types) : w.Knows types := by
  simp only [new, Option.bind_eq_bind, Option.bind_eq_some_iff, Option.pure_def,
    Option.some.injEq] at created
  rcases created with ⟨entityIds, _, rfl⟩
  intro ptr table found
  simp only [Function.update_apply] at found
  split at found
  · cases found
    rw [EntityTable.types_empty, Finset.singleton_subset_iff]
    exact unit
  · cases found

/-- The table that a bundle asks for has known columns. -/
theorem Knows.union (known : w.Knows types) (formed : w.Formed) {bundle : Bundle Value}
    (within : bundle.types ⊆ types) {table : EntityTable Value}
    (found : w.entityTable id = some table) :
    table.types ∪ bundle.types ⊆ types ∧ unitTypeId ∈ table.types ∪ bundle.types := by
  rcases known.entityTable found with ⟨ptr, inMemory, subset⟩
  exact ⟨Finset.union_subset subset within,
    Finset.mem_union_left _ (formed.shaped ptr table inMemory).unitColumn⟩

theorem setBundle_knows (formed : w.Formed) (known : w.Knows types) {bundle : Bundle Value}
    (within : bundle.types ⊆ types) {result : WorldResult Unit}
    (set : w.setBundle id bundle = some (result, after)) : after.Knows types := by
  rcases setBundle_relocated set with same | ⟨src, dst, table, base, found, relocated, added⟩
  · exact same ▸ known
  · apply relocated.evolves.knows
    rcases added with rfl | ⟨absent, rfl⟩
    · exact known
    · rw [getArchetypeByKey, Option.or_eq_none_iff] at absent
      rcases known.entityTable found with ⟨ptr, inMemory, _⟩
      apply known.addTable absent.1
      rw [((formed.shaped ptr table inMemory).extend bundle).2.2]
      exact (known.union formed within found).1

/-- Without the type, the other columns are left. -/
theorem Knows.erase (known : w.Knows types) (formed : w.Formed) {ty : TypeId}
    (notUnit : ty ≠ unitTypeId) {table : EntityTable Value}
    (found : w.entityTable id = some table) :
    table.types.erase ty ⊆ types ∧ unitTypeId ∈ table.types.erase ty := by
  rcases known.entityTable found with ⟨ptr, inMemory, subset⟩
  exact ⟨(Finset.erase_subset _ _).trans subset,
    Finset.mem_erase.mpr ⟨notUnit.symm, (formed.shaped ptr table inMemory).unitColumn⟩⟩

theorem removeComponent_knows (formed : w.Formed) (known : w.Knows types) {ty : TypeId}
    (notUnit : ty ≠ unitTypeId) {result : WorldResult Unit}
    (removed : w.removeComponent id ty = some (result, after)) : after.Knows types := by
  rcases removeComponent_relocated removed with
    same | ⟨src, dst, table, base, found, column, relocated, added⟩
  · exact same ▸ known
  · apply relocated.evolves.knows
    rcases added with rfl | ⟨absent, rfl⟩
    · exact known
    · rcases known.entityTable found with ⟨ptr, inMemory, _⟩
      rcases (formed.shaped ptr table inMemory).reduce notUnit
          (EntityTable.mem_types.mpr column) with ⟨_, _, reduced, newTy⟩
      rw [← newTy] at absent
      apply known.addTable absent
      rw [reduced]
      exact (known.erase formed notUnit found).1

end World

end Cecs

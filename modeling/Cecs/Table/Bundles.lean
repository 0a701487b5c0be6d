import Cecs.Table.Shape
import Mathlib.Data.Finset.Powerset

/-! # Bundles that name a type more than once

`compute_hash_from_table` hashes a lacking type as often as the bundle names it,
`extend` adds its column once, and an even number of hashes cancels. -/

namespace Cecs

open Foundation

section Hashes

variable [UnitTypeId] {types : Finset TypeId}

/-- A set of types, none of which is the unit type, does not have hash zero. -/
def NonzeroHashes (types : Finset TypeId) : Prop :=
  ∀ set ⊆ types, set.Nonempty → unitTypeId ∉ set → hashTypes set ≠ VOID_TY

instance (types : Finset TypeId) : Decidable (NonzeroHashes types) :=
  inferInstanceAs (Decidable (∀ set ⊆ types, set.Nonempty → unitTypeId ∉ set →
    hashTypes set ≠ VOID_TY))

theorem hashTypes_symmDiff (left right : Finset TypeId) :
    hashTypes (symmDiff left right) = hashTypes left ^^^ hashTypes right :=
  xorSum_symmDiff hashTypeId left right

theorem hashTypes_erase_unit (set : Finset TypeId) :
    hashTypes (set.erase unitTypeId) = hashTypes set := by
  by_cases member : unitTypeId ∈ set
  · rw [hashTypes, xorSum_erase hashTypeId member, hashTypeId_unitTypeId]
    exact BitVec.xor_zero
  · rw [Finset.erase_eq_of_notMem member]

theorem NonzeroHashes.eq_void_iff (nonzero : NonzeroHashes types) {set : Finset TypeId}
    (within : set ⊆ types) : hashTypes set = VOID_TY ↔ set ⊆ {unitTypeId} := by
  rw [← hashTypes_erase_unit set, Finset.subset_singleton_iff, ← Finset.erase_eq_empty_iff]
  constructor
  · intro void
    by_contra filled
    exact nonzero _ ((Finset.erase_subset _ set).trans within)
      (Finset.nonempty_iff_ne_empty.mpr filled) (Finset.notMem_erase _ set) void
  · intro empty
    rw [empty]
    rfl

/-- Sets with one hash differ in the unit type at most. -/
theorem NonzeroHashes.eq_iff (nonzero : NonzeroHashes types) {left right : Finset TypeId}
    (left_within : left ⊆ types) (right_within : right ⊆ types) :
    hashTypes left = hashTypes right ↔ symmDiff left right ⊆ {unitTypeId} := by
  have within : symmDiff left right ⊆ types :=
    (Finset.symmDiff_subset_union).trans (Finset.union_subset left_within right_within)
  rw [← nonzero.eq_void_iff within, hashTypes_symmDiff]
  exact BitVec.xor_eq_zero_iff.symm

end Hashes

namespace Bundle

variable {Value : Type}

/-- The types whose column the table lacks, each as often as the bundle names it. -/
def lacking (bundle : Bundle Value) (archetype : EntityTable Value) : List TypeId :=
  (bundle.map Prod.fst).filter fun ty => !archetype.containsColumn ty

variable {bundle : Bundle Value} {archetype : EntityTable Value}

theorem mem_lacking {ty : TypeId} :
    ty ∈ bundle.lacking archetype ↔ ty ∈ bundle.types ∧ ty ∉ archetype.types := by
  simp [lacking, types, EntityTable.mem_types]

theorem toFinset_lacking :
    (bundle.lacking archetype).toFinset = bundle.types \ archetype.types := by
  ext ty
  rw [List.mem_toFinset, mem_lacking, Finset.mem_sdiff]

theorem canInsert_iff_lacking :
    bundle.canInsert archetype = true ↔ bundle.lacking archetype = [] := by
  rw [EntityTable.canInsert_iff, List.eq_nil_iff_forall_not_mem, Finset.subset_iff]
  apply forall_congr'
  intro ty
  rw [mem_lacking, not_and_not_right]

theorem count_lacking {ty : TypeId} (lacks : ty ∈ bundle.lacking archetype) :
    (bundle.lacking archetype).count ty = (bundle.map Prod.fst).count ty :=
  List.count_filter (List.mem_filter.mp lacks).2

variable [UnitTypeId]

theorem computeHashFromTable_eq (bundle : Bundle Value) (archetype : EntityTable Value) :
    bundle.computeHashFromTable archetype =
      archetype.ty ^^^ hashTypes (oddMembers (bundle.lacking archetype)) := by
  rw [hashTypes, ← foldl_xor, lacking, List.foldl_filter, List.foldl_map, computeHashFromTable]
  congr 1
  funext hash entry
  cases archetype.containsColumn entry.1 <;> rfl

theorem ty_extend (bundle : Bundle Value) (archetype : EntityTable Value) :
    (bundle.extend archetype).ty =
      archetype.ty ^^^ hashTypes (bundle.types \ archetype.types) := by
  have along : ∀ table : EntityTable Value,
      (bundle.foldl (fun result entry => result.extendWithColumn entry.1) table).ty =
        table.ty ^^^ hashTypes (bundle.types \ table.types) := by
    induction bundle with
    | nil =>
        intro table
        rw [List.foldl_nil, types_nil, Finset.empty_sdiff]
        exact (BitVec.xor_zero).symm
    | cons entry rest induction =>
        intro table
        rw [List.foldl_cons, induction, EntityTable.types_extendWithColumn, types_cons,
          EntityTable.extendWithColumn]
        by_cases present : table.containsColumn entry.1 = true
        · have member := EntityTable.mem_types.mpr present
          rw [if_pos present, Finset.insert_eq_of_mem member,
            Finset.insert_sdiff_of_mem _ member]
        · have absent := mt EntityTable.mem_types.mp present
          have split : insert entry.1 (types rest) \ table.types =
              insert entry.1 (types rest \ insert entry.1 table.types) := by
            rw [Finset.insert_sdiff_of_notMem _ absent]
            ext ty
            by_cases same : ty = entry.1 <;> simp [same]
          have fresh : entry.1 ∉ types rest \ insert entry.1 table.types := by simp
          rw [if_neg present, split, EntityTable.hashTypes_insert fresh,
            BitVec.xor_comm (hashTypes _), ← BitVec.xor_assoc]
          rfl
  have extended := along archetype.cloneEmpty
  rw [EntityTable.types_cloneEmpty] at extended
  exact extended

/-- The hash is that of the extended table, and not the old one if a type is lacking. -/
structure HashesExtension (bundle : Bundle Value) (archetype : EntityTable Value) : Prop where
  extension : bundle.computeHashFromTable archetype = (bundle.extend archetype).ty
  moves : bundle.canInsert archetype = false →
    bundle.computeHashFromTable archetype ≠ archetype.ty

/-- The bundle names the types that the table lacks an odd number of times. The
hash of the unit type does not count, so it must not be the only one. -/
structure OddlyLacking (bundle : Bundle Value) (archetype : EntityTable Value) : Prop where
  odd : ∀ ty ∈ bundle.lacking archetype, ty ≠ unitTypeId →
    Odd ((bundle.map Prod.fst).count ty)
  notOnlyUnit : bundle.canInsert archetype = false →
    ∃ ty ∈ bundle.lacking archetype, ty ≠ unitTypeId

/-- The two hashes agree when only hashes of the unit type cancel. -/
theorem computeHash_eq_iff (nonzero : NonzeroHashes bundle.types) :
    bundle.computeHashFromTable archetype = (bundle.extend archetype).ty ↔
      ∀ ty ∈ bundle.lacking archetype, ty ≠ unitTypeId →
        Odd ((bundle.map Prod.fst).count ty) := by
  have named : bundle.types \ archetype.types ⊆ bundle.types := Finset.sdiff_subset
  have counted : oddMembers (bundle.lacking archetype) ⊆ bundle.types \ archetype.types :=
    toFinset_lacking ▸ Finset.filter_subset _ _
  rw [computeHashFromTable_eq, ty_extend, BitVec.xor_right_inj,
    nonzero.eq_iff (counted.trans named) named, Finset.subset_singleton_iff']
  constructor
  · intro only ty lacks notUnit
    by_contra even
    apply notUnit (only ty _)
    rw [Finset.mem_symmDiff, mem_oddMembers, count_lacking lacks, ← toFinset_lacking,
      List.mem_toFinset]
    exact Or.inr ⟨lacks, even⟩
  · intro odd ty differs
    rw [Finset.mem_symmDiff, mem_oddMembers, ← toFinset_lacking, List.mem_toFinset] at differs
    rcases differs with ⟨counts, absent⟩ | ⟨lacks, even⟩
    · rw [← toFinset_lacking] at counted
      exact absurd (List.mem_toFinset.mp (counted (mem_oddMembers.mpr counts))) absent
    · by_contra notUnit
      rw [count_lacking lacks] at even
      exact even (odd ty lacks notUnit)

theorem hashesExtension_iff (nonzero : NonzeroHashes bundle.types) :
    bundle.HashesExtension archetype ↔ bundle.OddlyLacking archetype := by
  have named : (bundle.lacking archetype).toFinset ⊆ bundle.types :=
    toFinset_lacking ▸ Finset.sdiff_subset
  have counted : oddMembers (bundle.lacking archetype) ⊆ bundle.types :=
    (Finset.filter_subset _ _).trans named
  have same : bundle.computeHashFromTable archetype = archetype.ty ↔
      oddMembers (bundle.lacking archetype) ⊆ {unitTypeId} := by
    have cancels := BitVec.xor_right_inj (y := VOID_TY) archetype.ty
      (x := hashTypes (oddMembers (bundle.lacking archetype)))
    rw [computeHashFromTable_eq, ← nonzero.eq_void_iff counted, ← cancels]
    exact Eq.congr_right BitVec.xor_zero.symm
  constructor
  · rintro ⟨extension, moves⟩
    refine ⟨(computeHash_eq_iff nonzero).mp extension, ?_⟩
    intro grows
    have differs := mt same.mpr (moves grows)
    rw [Finset.subset_singleton_iff'] at differs
    push Not at differs
    rcases differs with ⟨ty, member, notUnit⟩
    exact ⟨ty, List.mem_toFinset.mp (Finset.mem_of_mem_filter ty member), notUnit⟩
  · rintro ⟨odd, notOnlyUnit⟩
    refine ⟨(computeHash_eq_iff nonzero).mpr odd, ?_⟩
    intro grows unchanged
    rcases notOnlyUnit grows with ⟨ty, lacks, notUnit⟩
    have member : ty ∈ oddMembers (bundle.lacking archetype) := by
      rw [mem_oddMembers, count_lacking lacks]
      exact odd ty lacks notUnit
    exact notUnit (Finset.mem_singleton.mp (same.mp unchanged member))

end Bundle

end Cecs

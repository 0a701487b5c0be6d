import Mathlib.Data.Nat.Bitwise
import Mathlib.Tactic.Ring

/-! # Entity ids

A handle packs a 24-bit slot index and an 8-bit generation into a `u32`, the
index in the more significant bits. -/

namespace Cecs

def INDEX_BITS : Nat := 24

def GEN_BITS : Nat := 32 - INDEX_BITS

def ENTITY_INDEX_MASK : Nat := 2 ^ INDEX_BITS - 1

def ENTITY_GEN_MASK : Nat := 2 ^ GEN_BITS - 1

structure EntityId where
  raw : BitVec 32
  deriving DecidableEq, Repr

namespace EntityId

/-- The assertions of `EntityId::new` on its arguments. -/
def Packable (index generation : Nat) : Prop :=
  index ≤ ENTITY_INDEX_MASK ∧ generation ≤ ENTITY_GEN_MASK

instance (index generation : Nat) : Decidable (Packable index generation) :=
  inferInstanceAs (Decidable (_ ∧ _))

/-- The packing of `EntityId::new`; its assertions are `Packable`. -/
def new (index generation : Nat) : EntityId :=
  ⟨BitVec.ofNat 32 generation ||| (BitVec.ofNat 32 index <<< GEN_BITS)⟩

def index (id : EntityId) : Nat := (id.raw >>> GEN_BITS).toNat

def generation (id : EntityId) : Nat :=
  (id.raw &&& BitVec.ofNat 32 ENTITY_GEN_MASK).toNat

theorem index_eq_div (id : EntityId) : id.index = id.raw.toNat / 256 := by
  simp [index, GEN_BITS, INDEX_BITS, Nat.shiftRight_eq_div_pow]

theorem generation_eq_mod (id : EntityId) : id.generation = id.raw.toNat % 256 := by
  have mask : (255 : Nat) = 2 ^ 8 - 1 := rfl
  simp [generation, ENTITY_GEN_MASK, GEN_BITS, INDEX_BITS]
  rw [mask, Nat.and_two_pow_sub_one_eq_mod]

theorem index_le (id : EntityId) : id.index ≤ ENTITY_INDEX_MASK := by
  have bound := id.raw.isLt
  rw [index_eq_div]
  simp only [ENTITY_INDEX_MASK, INDEX_BITS]
  omega

theorem generation_le (id : EntityId) : id.generation ≤ ENTITY_GEN_MASK := by
  rw [generation_eq_mod]
  simp only [ENTITY_GEN_MASK, GEN_BITS, INDEX_BITS]
  omega

/-- The packed value, as the sum of the two fields in their places. -/
theorem raw_new {index generation : Nat} (packable : Packable index generation) :
    (new index generation).raw.toNat = index * 256 + generation := by
  rcases packable with ⟨indexLe, generationLe⟩
  simp only [ENTITY_INDEX_MASK, ENTITY_GEN_MASK, GEN_BITS, INDEX_BITS] at indexLe generationLe
  have generationLt : generation < 2 ^ 8 := by omega
  have together := Nat.shiftLeft_add_eq_or_of_lt generationLt index
  simp only [new, GEN_BITS, INDEX_BITS, BitVec.toNat_or, BitVec.toNat_ofNat,
    BitVec.toNat_shiftLeft]
  rw [Nat.mod_eq_of_lt (by omega : generation < 2 ^ 32),
    Nat.mod_eq_of_lt (by omega : index < 2 ^ 32),
    Nat.mod_eq_of_lt (by rw [Nat.shiftLeft_eq]; omega), Nat.or_comm, ← together,
    Nat.shiftLeft_eq]

theorem index_new {index generation : Nat} (packable : Packable index generation) :
    (new index generation).index = index := by
  have generationLe := packable.2
  simp only [ENTITY_GEN_MASK, GEN_BITS, INDEX_BITS] at generationLe
  rw [index_eq_div, raw_new packable]
  omega

theorem generation_new {index generation : Nat} (packable : Packable index generation) :
    (new index generation).generation = generation := by
  have generationLe := packable.2
  simp only [ENTITY_GEN_MASK, GEN_BITS, INDEX_BITS] at generationLe
  rw [generation_eq_mod, raw_new packable]
  omega

/-- A handle is its slot and its generation. -/
theorem eq_of_pair {left right : EntityId} (sameIndex : left.index = right.index)
    (sameGeneration : left.generation = right.generation) : left = right := by
  rw [index_eq_div, index_eq_div] at sameIndex
  rw [generation_eq_mod, generation_eq_mod] at sameGeneration
  have sameRaw : left.raw.toNat = right.raw.toNat := by omega
  cases left
  cases right
  exact congrArg EntityId.mk (BitVec.eq_of_toNat_eq sameRaw)

theorem packable (id : EntityId) : Packable id.index id.generation :=
  ⟨id.index_le, id.generation_le⟩

@[simp] theorem new_index_generation (id : EntityId) :
    new id.index id.generation = id :=
  eq_of_pair (index_new id.packable) (generation_new id.packable)

end EntityId

end Cecs

import Mathlib.Algebra.Ring.Parity
import Mathlib.Data.BitVec
import Mathlib.Data.Finset.Fold
import Mathlib.Data.Finset.SymmDiff

/-! # Exclusive-or over finite sets

The exclusive or of the codes of the members of a set: a digest of the set that
changes by one code when one member comes or goes. -/

namespace Cecs.Foundation

variable {α : Type u} [DecidableEq α] {width : Nat} (code : α → BitVec width)

def xorSum (members : Finset α) : BitVec width :=
  members.fold (fun left right => left ^^^ right) (BitVec.ofNat width 0) code

omit [DecidableEq α] in
@[simp] theorem xorSum_empty : xorSum code ∅ = BitVec.ofNat width 0 := rfl

theorem xorSum_insert {member : α} {members : Finset α} (fresh : member ∉ members) :
    xorSum code (insert member members) = code member ^^^ xorSum code members := by
  rw [xorSum, Finset.fold_insert fresh]
  rfl

/-- Adding a member to a set without it and removing it again cancel. -/
theorem xorSum_erase {member : α} {members : Finset α} (present : member ∈ members) :
    xorSum code (members.erase member) = xorSum code members ^^^ code member := by
  have split := xorSum_insert code (Finset.notMem_erase member members)
  rw [Finset.insert_erase present] at split
  rw [split, BitVec.xor_comm (code member), BitVec.xor_assoc, BitVec.xor_self,
    BitVec.xor_zero]

/-- A member comes if it was absent and goes if it was there. -/
theorem xorSum_toggle (members : Finset α) (member : α) :
    xorSum code (symmDiff members {member}) = xorSum code members ^^^ code member := by
  by_cases present : member ∈ members
  · have erased : symmDiff members {member} = members.erase member := by
      ext other
      by_cases same : other = member <;> simp [Finset.mem_symmDiff, same, present]
    rw [erased, xorSum_erase code present]
  · have inserted : symmDiff members {member} = insert member members := by
      ext other
      by_cases same : other = member <;> simp [Finset.mem_symmDiff, same, present]
    rw [inserted, xorSum_insert code present, BitVec.xor_comm]

/-- Two sets have one digest when their difference has digest zero. -/
theorem xorSum_symmDiff (left right : Finset α) :
    xorSum code (symmDiff left right) = xorSum code left ^^^ xorSum code right := by
  induction right using Finset.induction_on with
  | empty =>
      rw [← Finset.bot_eq_empty, symmDiff_bot, Finset.bot_eq_empty, xorSum_empty,
        BitVec.xor_zero]
  | insert member members fresh induction =>
      have split : insert member members = symmDiff members {member} := by
        ext other
        by_cases same : other = member <;> simp [Finset.mem_symmDiff, same, fresh]
      rw [split, ← symmDiff_assoc, xorSum_toggle, xorSum_toggle, induction, BitVec.xor_assoc]

section Lists

/-- The members that a list has an odd number of times. -/
def oddMembers (list : List α) : Finset α :=
  list.toFinset.filter fun member => Odd (list.count member)

theorem mem_oddMembers {list : List α} {member : α} :
    member ∈ oddMembers list ↔ Odd (list.count member) := by
  rw [oddMembers, Finset.mem_filter, List.mem_toFinset, and_iff_right_iff_imp]
  rintro ⟨half, count⟩
  exact List.count_pos_iff.mp (by omega)

theorem oddMembers_cons (head : α) (tail : List α) :
    oddMembers (head :: tail) = symmDiff (oddMembers tail) {head} := by
  ext member
  rw [mem_oddMembers, Finset.mem_symmDiff, mem_oddMembers, Finset.mem_singleton]
  by_cases same : member = head
  · subst same
    simp [Nat.odd_add_one]
  · simp [same, List.count_cons_of_ne (Ne.symm same)]

/-- Members that occur twice cancel in a running digest. -/
theorem foldl_xor (list : List α) (start : BitVec width) :
    list.foldl (fun digest member => digest ^^^ code member) start =
      start ^^^ xorSum code (oddMembers list) := by
  induction list generalizing start with
  | nil => simp [oddMembers]
  | cons head tail induction =>
      rw [List.foldl_cons, induction, oddMembers_cons, xorSum_toggle, BitVec.xor_assoc,
        BitVec.xor_comm (code head)]

end Lists

end Cecs.Foundation

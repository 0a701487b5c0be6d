import Mathlib.Data.Multiset.MapFold
import Mathlib.Logic.Function.Basic

/-! # Boxes behind raw pointers

A leaked box lives at an address of its own until it is taken back from there. To take it
back twice, or to read it afterwards, is a fault. -/

namespace Cecs

namespace Foundation

/-- The boxes that live. No address is used twice. -/
structure Boxes (α : Type) where
  cells : Nat → Option α
  next : Nat

namespace Boxes

variable {α : Type}

def empty : Boxes α := { cells := fun _ => none, next := 0 }

/-- `Box::leak(Box::new(value))` -/
def leak (self : Boxes α) (value : α) : Nat × Boxes α :=
  (self.next, { cells := Function.update self.cells self.next (some value)
                next := self.next + 1 })

/-- `Box::from_raw` -/
def fromRaw (self : Boxes α) (address : Nat) : Option (α × Boxes α) := do
  return (← self.cells address, { self with cells := Function.update self.cells address none })

/-- An assignment through the pointer. -/
def write (self : Boxes α) (address : Nat) (value : α) : Option (Boxes α) := do
  let _ ← self.cells address
  return { self with cells := Function.update self.cells address (some value) }

/-- These boxes live and no others: who holds the bag owns them all. -/
structure Owns (boxes : Boxes α) (owned : Multiset (Nat × α)) : Prop where
  distinct : (owned.map Prod.fst).Nodup
  cells : ∀ address value, boxes.cells address = some value ↔ (address, value) ∈ owned
  used : ∀ entry ∈ owned, entry.1 < boxes.next

variable {boxes : Boxes α} {owned : Multiset (Nat × α)} {address : Nat} {value : α}

theorem owns_empty : (empty : Boxes α).Owns 0 where
  distinct := Multiset.nodup_zero
  cells := by simp [empty]
  used := by simp

theorem Owns.read (owns : boxes.Owns owned) (member : (address, value) ∈ owned) :
    boxes.cells address = some value :=
  (owns.cells address value).mpr member

theorem Owns.leak (owns : boxes.Owns owned) (value : α) :
    (boxes.leak value).2.Owns ({(boxes.next, value)} + owned) where
  distinct := by
    rw [Multiset.singleton_add, Multiset.map_cons, Multiset.nodup_cons]
    refine ⟨?_, owns.distinct⟩
    intro taken
    rcases Multiset.mem_map.mp taken with ⟨entry, member, same⟩
    exact Nat.ne_of_lt (owns.used entry member) same
  cells := by
    intro address other
    have fresh : ∀ other, (boxes.next, other) ∉ owned := fun other member =>
      Nat.lt_irrefl _ (owns.used _ member)
    simp only [Boxes.leak, Function.update_apply, Multiset.singleton_add, Multiset.mem_cons,
      Prod.mk.injEq]
    by_cases same : address = boxes.next
    · subst same
      simp only [if_true, Option.some.injEq, true_and, fresh other, or_false]
      exact eq_comm
    · rw [if_neg same, owns.cells]
      simp only [same, false_and, false_or]
  used := by
    intro entry member
    rw [Multiset.singleton_add, Multiset.mem_cons] at member
    rcases member with rfl | before
    · exact Nat.lt_succ_self _
    · exact Nat.lt_succ_of_lt (owns.used entry before)

theorem Owns.notMem (owns : boxes.Owns ({(address, value)} + owned)) (other : α) :
    (address, other) ∉ owned := by
  intro member
  have distinct := owns.distinct
  rw [Multiset.singleton_add, Multiset.map_cons, Multiset.nodup_cons] at distinct
  exact distinct.1 (Multiset.mem_map.mpr ⟨_, member, rfl⟩)

theorem Owns.head (owns : boxes.Owns ({(address, value)} + owned)) :
    boxes.cells address = some value :=
  owns.read (Multiset.mem_add.mpr (Or.inl (Multiset.mem_singleton_self _)))

/-- Who owns a box can take it back, and owns the others. -/
theorem Owns.fromRaw (owns : boxes.Owns ({(address, value)} + owned)) :
    ∃ after, boxes.fromRaw address = some (value, after) ∧ after.Owns owned := by
  refine ⟨_, by rw [Boxes.fromRaw, owns.head]; rfl, ?_, ?_, ?_⟩
  · have distinct := owns.distinct
    rw [Multiset.singleton_add, Multiset.map_cons, Multiset.nodup_cons] at distinct
    exact distinct.2
  · intro other content
    simp only [Function.update_apply]
    by_cases same : other = address
    · subst same
      rw [if_pos rfl]
      simp [owns.notMem content]
    · rw [if_neg same, owns.cells]
      simp [same]
  · exact fun entry member => owns.used entry (Multiset.mem_add.mpr (Or.inr member))

theorem Owns.write (owns : boxes.Owns ({(address, value)} + owned)) (other : α) :
    ∃ after, boxes.write address other = some after ∧
      after.Owns ({(address, other)} + owned) := by
  refine ⟨_, by rw [Boxes.write, owns.head]; rfl, ?_, ?_, ?_⟩
  · have distinct := owns.distinct
    rw [Multiset.singleton_add, Multiset.map_cons] at distinct ⊢
    exact distinct
  · intro place content
    simp only [Function.update_apply, Multiset.singleton_add, Multiset.mem_cons, Prod.mk.injEq]
    by_cases same : place = address
    · subst same
      simp only [if_true, Option.some.injEq, true_and, owns.notMem content, or_false]
      exact eq_comm
    · rw [if_neg same, owns.cells]
      simp [same]
  · intro entry member
    have usedHere : address < boxes.next :=
      owns.used (address, value) (Multiset.mem_add.mpr (Or.inl (Multiset.mem_singleton_self _)))
    rw [Multiset.singleton_add, Multiset.mem_cons] at member
    rcases member with rfl | before
    · exact usedHere
    · exact owns.used entry (Multiset.mem_add.mpr (Or.inr before))

/-- A loop that gives up the boxes of each item gives up all of them. -/
theorem Owns.foldlM {ι : Type} {item : ι → Multiset (Nat × α)}
    {drop : ι → Boxes α → Option (Boxes α)}
    (each : ∀ i boxes rest, Owns boxes (item i + rest) →
      ∃ after, drop i boxes = some after ∧ after.Owns rest) {items : List ι}
    (owns : boxes.Owns ((items.map item).sum + owned)) :
    ∃ after, items.foldlM (fun boxes i => drop i boxes) boxes = some after ∧
      after.Owns owned := by
  induction items generalizing boxes with
  | nil =>
      rw [List.map_nil, List.sum_nil, Multiset.zero_add] at owns
      exact ⟨boxes, rfl, owns⟩
  | cons i items induction =>
      rw [List.map_cons, List.sum_cons, Multiset.add_assoc] at owns
      rcases each i boxes _ owns with ⟨middle, dropped, ownsRest⟩
      rcases induction ownsRest with ⟨after, droppedRest, ownsAfter⟩
      refine ⟨after, ?_, ownsAfter⟩
      rw [List.foldlM_cons, dropped]
      exact droppedRest

/-- Nothing is owned, so nothing has leaked. -/
theorem Owns.none (owns : boxes.Owns 0) (address : Nat) : boxes.cells address = none := by
  rw [Option.eq_none_iff_forall_ne_some]
  intro value found
  exact Multiset.notMem_zero _ ((owns.cells address value).mp found)

end Boxes

end Foundation

end Cecs

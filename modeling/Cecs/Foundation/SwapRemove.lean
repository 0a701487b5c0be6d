import Mathlib.Data.List.Basic
import Mathlib.Data.List.Nodup
import Mathlib.Data.List.Perm.Basic

/-! # Removal by swapping with the last element

The operation dense tables use to delete a row in constant time: the last
element takes the place of the removed one and the list gets one shorter. -/

namespace Cecs.Foundation

/-- `Vec::swap_remove` without the returned element. An index outside the list
only drops the last element; callers check the index first. -/
def swapRemove (values : List α) (index : Nat) : List α :=
  match values.getLast? with
  | none => []
  | some last => (values.set index last).dropLast

@[simp] theorem length_swapRemove (values : List α) (index : Nat) :
    (swapRemove values index).length = values.length - 1 := by
  unfold swapRemove
  cases last : values.getLast? with
  | none =>
      have empty : values = [] := List.getLast?_eq_none_iff.mp last
      simp [empty]
  | some value => simp

/-- Position by position: the removed place holds what was last, every earlier
or later place keeps its element, and the last place is gone. -/
theorem getElem?_swapRemove (values : List α) (index position : Nat) :
    (swapRemove values index)[position]? =
      if position < values.length - 1 then
        if position = index then values[values.length - 1]? else values[position]?
      else none := by
  unfold swapRemove
  cases last : values.getLast? with
  | none =>
      have empty : values = [] := List.getLast?_eq_none_iff.mp last
      simp [empty]
  | some value =>
      have lastAt : values[values.length - 1]? = some value := by
        rw [← List.getLast?_eq_getElem?, last]
      simp only [List.getElem?_dropLast, List.length_set, List.getElem?_set]
      by_cases within : position < values.length - 1
      · by_cases same : position = index
        · subst same
          have inside : position < values.length := by omega
          simp [within, inside, lastAt]
        · have other : ¬index = position := fun equal => same equal.symm
          simp [within, same, other]
      · simp [within]

/-- What remains was there before. -/
theorem mem_of_mem_swapRemove {values : List α} {index : Nat} {value : α}
    (member : value ∈ swapRemove values index) : value ∈ values := by
  rcases List.mem_iff_getElem?.mp member with ⟨position, found⟩
  rw [getElem?_swapRemove] at found
  split at found
  · split at found
    · exact List.mem_of_getElem? found
    · exact List.mem_of_getElem? found
  · cases found

/-- An element at another place than the removed one remains. -/
theorem mem_swapRemove_of_getElem? {values : List α} {index position : Nat}
    {value : α} (inRange : index < values.length) (different : position ≠ index)
    (found : values[position]? = some value) : value ∈ swapRemove values index := by
  have inside : position < values.length := (List.getElem?_eq_some_iff.mp found).1
  by_cases within : position < values.length - 1
  · have kept : (swapRemove values index)[position]? = some value := by
      rw [getElem?_swapRemove, if_pos within, if_neg different, found]
    exact List.mem_of_getElem? kept
  · have isLast : values.length - 1 = position := by omega
    have moved : (swapRemove values index)[index]? = some value := by
      rw [getElem?_swapRemove, if_pos (by omega), if_pos rfl, isLast, found]
    exact List.mem_of_getElem? moved

/-- Only the removed element is missing. -/
theorem perm_swapRemove {values : List α} {index : Nat} {removed : α}
    (found : values[index]? = some removed) : (removed :: swapRemove values index).Perm values := by
  rcases List.getElem?_eq_some_iff.mp found with ⟨inRange, rfl⟩
  cases last : values.getLast? with
  | none =>
      rw [List.getLast?_eq_none_iff] at last
      subst last
      exact absurd inRange (Nat.not_lt_zero index)
  | some value =>
      have replaced := List.set_perm_cons_eraseIdx inRange value
      have lastOf : (values.set index value).getLast? = some value := by
        rw [List.getLast?_eq_getElem?, List.length_set, List.getElem?_set]
        split
        · rfl
        · rw [← List.getLast?_eq_getElem?, last]
      rw [swapRemove, last, ← List.perm_cons value]
      -- The last element of the changed list is the one that was moved.
      have whole := List.dropLast_append_getLast? value lastOf
      calc
        (value :: values[index] :: (values.set index value).dropLast).Perm
            (values[index] :: ((values.set index value).dropLast ++ [value])) :=
          (List.Perm.swap ..).trans ((List.perm_append_singleton ..).symm.cons _)
        _ = values[index] :: values.set index value := by rw [whole]
        List.Perm _ (values[index] :: value :: values.eraseIdx index) := replaced.cons _
        List.Perm _ (value :: values[index] :: values.eraseIdx index) := List.Perm.swap ..
        List.Perm _ (value :: values) := (List.getElem_cons_eraseIdx_perm inRange).cons _

theorem swapRemove_map (transform : α → β) (values : List α) (index : Nat) :
    swapRemove (values.map transform) index =
      (swapRemove values index).map transform := by
  apply List.ext_getElem?
  intro position
  simp only [getElem?_swapRemove, List.getElem?_map, List.length_map]
  split
  · split <;> simp
  · simp

/-- In a list without duplicates the removed element is nowhere, the element
swapped into its place is there only, and every other element keeps its place. -/
theorem getElem?_swapRemove_eq_some_iff [DecidableEq α] {values : List α}
    (nodup : values.Nodup) {index : Nat} {removed : α} (own : values[index]? = some removed)
    (position : Nat) (value : α) :
    (swapRemove values index)[position]? = some value ↔
      value ≠ removed ∧
        if (swapRemove values index)[index]? = some value then position = index
        else values[position]? = some value := by
  have inRange : index < values.length := (List.getElem?_eq_some_iff.mp own).1
  have unique : ∀ {left right : Nat} {element : α}, values[left]? = some element →
      values[right]? = some element → left = right := by
    intro left right element atLeft atRight
    exact (List.getElem?_inj (List.getElem?_eq_some_iff.mp atLeft).1 nodup).mp
      (atLeft.trans atRight.symm)
  have bound : ∀ {place : Nat} {element : α}, values[place]? = some element →
      place < values.length := fun found => (List.getElem?_eq_some_iff.mp found).1
  simp only [getElem?_swapRemove]
  grind

theorem mem_swapRemove_iff {values : List α} (nodup : values.Nodup) {index : Nat}
    {removed : α} (own : values[index]? = some removed) {value : α} :
    value ∈ swapRemove values index ↔ value ∈ values ∧ value ≠ removed := by
  have inRange : index < values.length := (List.getElem?_eq_some_iff.mp own).1
  constructor
  · intro member
    refine ⟨mem_of_mem_swapRemove member, ?_⟩
    classical
    rcases List.mem_iff_getElem?.mp member with ⟨position, found⟩
    exact ((getElem?_swapRemove_eq_some_iff nodup own position value).mp found).1
  · rintro ⟨member, different⟩
    rcases List.mem_iff_getElem?.mp member with ⟨position, found⟩
    apply mem_swapRemove_of_getElem? inRange ?_ found
    rintro rfl
    rw [own] at found
    exact different (Option.some.inj found).symm

end Cecs.Foundation

import Mathlib.Data.List.Perm.Basic

/-! # Lists of buckets

What changes in the union of the buckets when one of them is replaced, and the
orders in which the buckets can be emptied from their fronts. -/

namespace Cecs

namespace Foundation

variable {α : Type} {buckets : List (List α)} {bucket : List α} {position : Nat}

/-- The new bucket takes the place of the old one. -/
theorem flatten_set_perm (found : buckets[position]? = some bucket) (other : List α) :
    ((buckets.set position other).flatten ++ bucket).Perm (buckets.flatten ++ other) := by
  induction buckets generalizing position with
  | nil => cases found
  | cons head tail induction =>
      cases position with
      | zero =>
          rw [List.getElem?_cons_zero, Option.some.injEq] at found
          subst found
          classical
          rw [List.perm_iff_count]
          intro value
          simp only [List.set_cons_zero, List.flatten_cons, List.count_append]
          omega
      | succ position =>
          rw [List.getElem?_cons_succ] at found
          rw [List.set_cons_succ, List.flatten_cons, List.flatten_cons, List.append_assoc,
            List.append_assoc]
          exact (induction found).append_left head

/-- The other buckets stay as they are. -/
theorem exists_others (found : buckets[position]? = some bucket) :
    ∃ others, (bucket ++ others).Perm buckets.flatten ∧
      ∀ other, (buckets.set position other).flatten.Perm (other ++ others) := by
  rcases List.getElem?_eq_some_iff.mp found with ⟨inRange, _⟩
  have removed := flatten_set_perm found []
  rw [List.append_nil] at removed
  refine ⟨(buckets.set position []).flatten, List.perm_append_comm.trans removed, ?_⟩
  intro other
  have foundEmpty : (buckets.set position [])[position]? = some [] := by simp [inRange]
  have replaced := flatten_set_perm foundEmpty other
  rw [List.set_set, List.append_nil] at replaced
  exact replaced.trans List.perm_append_comm

theorem count_map_flatten_set {β : Type} [DecidableEq β] (transform : α → β)
    (found : buckets[position]? = some bucket) (other : List α) (value : β) :
    ((buckets.set position other).flatten.map transform).count value +
        (bucket.map transform).count value =
      (buckets.flatten.map transform).count value + (other.map transform).count value := by
  have moved := ((flatten_set_perm found other).map transform).count_eq value
  rwa [List.map_append, List.map_append, List.count_append, List.count_append] at moved

/-- Elements go from one bucket to another. -/
theorem flatten_transfer_perm {start goal : Nat} {source target : List α} (different : goal ≠ start)
    (foundSource : buckets[start]? = some source) (foundTarget : buckets[goal]? = some target)
    (count : Nat) :
    ((buckets.set start (source.drop count)).set goal
      (target ++ source.take count)).flatten.Perm buckets.flatten := by
  classical
  have foundNext : (buckets.set start (source.drop count))[goal]? = some target := by
    rw [List.getElem?_set_ne (Ne.symm different), foundTarget]
  rw [List.perm_iff_count]
  intro value
  have dropped := (flatten_set_perm foundSource (source.drop count)).count_eq value
  have pushed := (flatten_set_perm foundNext (target ++ source.take count)).count_eq value
  have parts := congrArg (List.count value) (List.take_append_drop count source)
  simp only [List.count_append] at dropped pushed parts
  omega

/-- The values of all lists in an order that takes each list from its front. -/
inductive Interleaving : List (List α) → List α → Prop where
  | nil {lists : List (List α)} (empty : ∀ list ∈ lists, list = []) : Interleaving lists []
  | cons {lists : List (List α)} {position : Nat} {head : α} {tail rest : List α}
      (found : lists[position]? = some (head :: tail))
      (remaining : Interleaving (lists.set position tail) rest) :
      Interleaving lists (head :: rest)

theorem Interleaving.perm {values : List α} (interleaving : Interleaving buckets values) :
    values.Perm buckets.flatten := by
  induction interleaving with
  | nil empty => rw [List.flatten_eq_nil_iff.mpr empty]
  | @cons lists position head tail rest found remaining induction =>
      have moved := flatten_set_perm found tail
      have swapped : (lists.flatten ++ tail).Perm
          (head :: (lists.set position tail).flatten ++ tail) :=
        moved.symm.trans List.perm_middle
      exact (induction.cons head).trans ((List.perm_append_right_iff tail).mp swapped).symm

end Foundation

end Cecs

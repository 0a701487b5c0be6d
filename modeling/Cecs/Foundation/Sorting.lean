import Mathlib.Data.List.Sort
import Mathlib.Order.Basic

/-! # Sorting by a key

An unstable sort may leave elements of one key in any order, a stable one keeps
their order. The first chunk of a list is its longest front part in which
neighbours are alike. -/

namespace Cecs.Foundation

variable {α κ : Type}

instance instLEUnit : LE Unit := PUnit.instLinearOrder.toPartialOrder.toPreorder.toLE

/-- What a sort by a key promises. -/
structure SortsBy [LE κ] (key : α → κ) (values sorted : List α) : Prop where
  perm : sorted.Perm values
  ordered : sorted.Pairwise fun a b => key a ≤ key b

/-- The sort that keeps the order of elements of one key. -/
def stableSortBy [LE κ] [DecidableLE κ] (key : α → κ) (values : List α) : List α :=
  values.insertionSort fun a b => key a ≤ key b

/-- The first chunk and the rest. -/
def firstChunk (same : α → α → Bool) : List α → List α × List α
  | [] => ([], [])
  | [only] => ([only], [])
  | first :: second :: rest =>
      if same first second then
        let (chunk, others) := firstChunk same (second :: rest)
        (first :: chunk, others)
      else
        ([first], second :: rest)

section Stable

variable [LinearOrder κ] {key : α → κ} {values : List α}

instance instTotalKey : Std.Total fun a b : α => key a ≤ key b :=
  ⟨fun _ _ => le_total _ _⟩

instance instTransKey : IsTrans α fun a b : α => key a ≤ key b :=
  ⟨fun _ _ _ => le_trans⟩

theorem stableSortBy_sortsBy (key : α → κ) (values : List α) :
    SortsBy key values (stableSortBy key values) where
  perm := List.perm_insertionSort _ values
  ordered := List.pairwise_insertionSort _ values

/-- A list in order is not changed. -/
theorem stableSortBy_of_ordered (ordered : values.Pairwise fun a b => key a ≤ key b) :
    stableSortBy key values = values :=
  ordered.insertionSort_eq

/-- Elements of one key keep their order. -/
theorem filter_stableSortBy {keep : α → Bool}
    (alike : ∀ a b, keep a = true → keep b = true → key a = key b) :
    (stableSortBy key values).filter keep = values.filter keep := by
  have ordered : (values.filter keep).Pairwise fun a b => key a ≤ key b := by
    apply List.pairwise_of_forall_mem_list
    intro a memberA b memberB
    exact le_of_eq (alike a b (List.mem_filter.mp memberA).2 (List.mem_filter.mp memberB).2)
  have inside : (values.filter keep).Sublist (stableSortBy key values) :=
    List.sublist_insertionSort ordered List.filter_sublist
  have filtered := inside.filter keep
  rw [List.filter_filter] at filtered
  simp only [Bool.and_self] at filtered
  refine (filtered.eq_of_length ?_).symm
  exact ((stableSortBy_sortsBy key values).perm.filter keep).length_eq.symm

theorem pairwise_alike_iff {related : α → α → Prop} (values : List α) :
    (values.Pairwise fun a b => key a = key b → related a b) ↔
      ∀ k, (values.filter fun a => key a = k).Pairwise related := by
  simp only [List.pairwise_filter, decide_eq_true_eq]
  simp only [List.pairwise_iff_forall_sublist]
  constructor
  · intro alike k a b inside keyA keyB
    exact alike inside (keyA.trans keyB.symm)
  · intro each a b inside same
    exact each (key b) inside same rfl

/-- A relation between elements of one key is not disturbed. -/
theorem pairwise_stableSortBy_iff {related : α → α → Prop} :
    ((stableSortBy key values).Pairwise fun a b => key a = key b → related a b) ↔
      values.Pairwise fun a b => key a = key b → related a b := by
  rw [pairwise_alike_iff, pairwise_alike_iff]
  refine forall_congr' fun k => ?_
  rw [filter_stableSortBy]
  intro a b keyA keyB
  exact (of_decide_eq_true keyA).trans (of_decide_eq_true keyB).symm

end Stable

section FirstChunk

theorem firstChunk_append (same : α → α → Bool) (values : List α) :
    (firstChunk same values).1 ++ (firstChunk same values).2 = values := by
  fun_induction firstChunk same values with
  | case1 => rfl
  | case2 => rfl
  | case3 first second rest alike chunk others eq induction => simpa [eq] using induction
  | case4 => rfl

variable [LinearOrder κ] {key : α → κ}

/-- In a list in order of its keys, the first chunk by key is the least key. -/
theorem firstChunk_of_ordered {first : α} {rest : List α}
    (ordered : (first :: rest).Pairwise fun a b => key a ≤ key b) :
    (∀ a ∈ (firstChunk (fun a b => key a == key b) (first :: rest)).1, key a = key first) ∧
      ∀ b ∈ (firstChunk (fun a b => key a == key b) (first :: rest)).2, key first < key b := by
  induction rest generalizing first with
  | nil => simp [firstChunk]
  | cons second rest induction =>
      rcases List.pairwise_cons.mp ordered with ⟨least, tail⟩
      rw [firstChunk]
      split
      · rename_i alike
        have sameKey : key first = key second := by simpa using alike
        rcases induction tail with ⟨inChunk, others⟩
        rw [sameKey]
        refine ⟨?_, others⟩
        intro a member
        rcases List.mem_cons.mp member with rfl | member
        · exact sameKey
        · exact inChunk a member
      · rename_i different
        have below : key first < key second :=
          lt_of_le_of_ne (least second List.mem_cons_self) (by simpa using different)
        refine ⟨by simp, ?_⟩
        intro b member
        rcases List.mem_cons.mp member with rfl | member
        · exact below
        · exact lt_of_lt_of_le below ((List.pairwise_cons.mp tail).1 b member)

end FirstChunk

end Cecs.Foundation

import Cecs.Foundation.SwapRemove
import Mathlib.Order.Lattice

/-! # Elements that move between lists

Lists under keys exchange elements: one that leaves is replaced by the last of its list, one
that arrives is appended. When all elements move in stages, what becomes of each list depends
on where the elements are before and after a stage. Ordered by their keys, lists are determined
by their elements of each key. -/

namespace Cecs.Foundation

variable {α κ : Type}

section Stages

variable [DecidableEq α] [DecidableEq κ]

/-- The last element takes the place of the one that leaves. -/
def swapOut (rows : List α) (element : α) : List α := swapRemove rows (rows.idxOf element)

/-- One element moves to the list `dst`, from the list `src` or from outside. -/
def transfer (lists : κ → List α) (src : Option κ) (dst : κ) (element : α) : κ → List α :=
  fun key =>
    if src = some dst then lists key
    else if src = some key then swapOut (lists key) element
    else if dst = key then lists key ++ [element]
    else lists key

/-- What becomes of the list of a key when the elements move in order: some leave, then others
arrive. -/
def stage (order : List α) (key : κ) (before after : α → Option κ) (rows : List α) : List α :=
  (order.filter fun element => before element = some key ∧ after element ≠ some key).foldl
      swapOut rows ++
    order.filter fun element => before element ≠ some key ∧ after element = some key

/-- Elements that stay where they are do not count. -/
theorem stage_filter {order : List α} {key : κ} {before after : α → Option κ} {moves : α → Bool}
    (still : ∀ element ∈ order, moves element = false → before element = after element)
    (rows : List α) :
    stage (order.filter moves) key before after rows = stage order key before after rows := by
  have moved : ∀ keep : α → Bool,
      (∀ element, before element = after element → keep element = false) →
        (order.filter moves).filter keep = order.filter keep := by
    intro keep idle
    rw [List.filter_filter]
    apply List.filter_congr
    intro element member
    cases stays : moves element with
    | true => simp
    | false => simp [idle element (still element member stays)]
  rw [stage, stage, moved, moved]
  · intro element same
    simp [same]
  · intro element same
    simp [same]

theorem length_foldl_swapOut (order rows : List α) :
    (order.foldl swapOut rows).length = rows.length - order.length := by
  induction order generalizing rows with
  | nil => rfl
  | cons element order induction =>
      rw [List.foldl_cons, induction, swapOut, length_swapRemove, List.length_cons]
      omega

omit [DecidableEq α] in
theorem filter_together {order : List α} {keep : α → Bool} {all : Prop} [Decidable all]
    (same : ∀ element ∈ order, keep element = decide all) :
    order.filter keep = if all then order else [] := by
  rw [List.filter_congr same]
  by_cases holds : all
  · simp [holds]
  · simp [holds]

/-- Elements that are all in one list move together. -/
theorem stage_together {order : List α} {key : κ} {before after : α → Option κ}
    {src dst : Option κ} (here : ∀ element ∈ order, before element = src)
    (there : ∀ element ∈ order, after element = dst) :
    stage order key before after (if src = some key then order else []) =
      if dst = some key then order else [] := by
  have leavers : (order.filter fun element => before element = some key ∧
      after element ≠ some key) = if src = some key ∧ dst ≠ some key then order else [] := by
    apply filter_together
    intro element member
    rw [here element member, there element member]
  have arrivals : (order.filter fun element => before element ≠ some key ∧
      after element = some key) = if src ≠ some key ∧ dst = some key then order else [] := by
    apply filter_together
    intro element member
    rw [here element member, there element member]
  have gone : order.foldl swapOut order = [] := by
    rw [← List.length_eq_zero_iff, length_foldl_swapOut, Nat.sub_self]
  rw [stage, leavers, arrivals]
  by_cases source : src = some key
  · by_cases target : dst = some key
    · simp [source, target]
    · simp [source, target, gone]
  · by_cases target : dst = some key
    · simp [source, target]
    · simp [source, target]

/-- The moves of a stage, one after another, where no list loses and gains elements. -/
theorem foldl_transfer {order : List α} {before : α → Option κ} {dst : α → κ}
    {after : α → Option κ} (target : ∀ element ∈ order, after element = some (dst element))
    {key : κ}
    (apart : (∀ element ∈ order, before element = some key → after element = some key) ∨
      ∀ element ∈ order, after element = some key → before element = some key)
    (lists : κ → List α) :
    (order.foldl (fun lists element => transfer lists (before element) (dst element) element)
      lists) key = stage order key before after (lists key) := by
  induction order generalizing lists with
  | nil => simp [stage]
  | cons element order induction =>
      have targetHere := target element List.mem_cons_self
      have apartRest : (∀ element ∈ order, before element = some key → after element = some key) ∨
          ∀ element ∈ order, after element = some key → before element = some key :=
        apart.imp (fun stay other member => stay other (List.mem_cons_of_mem _ member))
          fun stay other member => stay other (List.mem_cons_of_mem _ member)
      rw [List.foldl_cons,
        induction (fun other member => target other (List.mem_cons_of_mem _ member)) apartRest]
      by_cases leaves : before element = some key ∧ after element ≠ some key
      · have arrives : ¬(before element ≠ some key ∧ after element = some key) :=
          fun both => both.1 leaves.1
        have different : before element ≠ some (dst element) := by
          rw [← targetHere, leaves.1]
          exact leaves.2.symm
        rw [stage, stage, List.filter_cons, if_pos (by simpa using leaves), List.filter_cons,
          if_neg (by simpa using arrives), List.foldl_cons, transfer, if_neg different,
          if_pos leaves.1]
      · by_cases arrives : before element ≠ some key ∧ after element = some key
        · -- Nothing leaves this list in the stage.
          have stay : ∀ other ∈ order,
              ¬(before other = some key ∧ after other ≠ some key) := by
            intro other member both
            rcases apart with keeps | keeps
            · exact both.2 (keeps other (List.mem_cons_of_mem _ member) both.1)
            · exact arrives.1 (keeps element List.mem_cons_self arrives.2)
          have none : order.filter
              (fun other => before other = some key ∧ after other ≠ some key) = [] := by
            rw [List.filter_eq_nil_iff]
            intro other member
            simpa using stay other member
          have here : dst element = key := Option.some.inj (targetHere.symm.trans arrives.2)
          have different : before element ≠ some (dst element) := here ▸ arrives.1
          rw [stage, stage, List.filter_cons, if_neg (by simpa using leaves), List.filter_cons,
            if_pos (by simpa using arrives), none, transfer, if_neg different,
            if_neg arrives.1, if_pos here]
          simp
        · have same : transfer lists (before element) (dst element) element key = lists key := by
            rw [transfer]
            split
            · rfl
            · rename_i different
              have elsewhere : before element ≠ some key := fun here =>
                leaves ⟨here, fun stays => different (here.trans (stays.symm.trans targetHere))⟩
              have notHere : dst element ≠ key := fun here =>
                arrives ⟨elsewhere, targetHere.trans (congrArg some here)⟩
              rw [if_neg elsewhere, if_neg notHere]
          rw [stage, stage, List.filter_cons, if_neg (by simpa using leaves), List.filter_cons,
            if_neg (by simpa using arrives), same]

/-- An element from outside may pass through a list that it is not in. -/
theorem transfer_through {lists : κ → List α} {middle dst : κ} {element : α}
    (absent : element ∉ lists middle) :
    transfer (transfer lists none middle element) (some middle) dst element =
      transfer lists none dst element := by
  have gone : swapOut (lists middle ++ [element]) element = lists middle := by
    have place : (lists middle ++ [element]).idxOf element = (lists middle).length := by
      rw [List.idxOf_append, if_neg absent]
      simp
    apply List.ext_getElem?
    intro position
    rw [swapOut, place, getElem?_swapRemove]
    by_cases within : position < (lists middle).length
    · have other : position ≠ (lists middle).length := Nat.ne_of_lt within
      simp [within, other, List.getElem?_append_left within]
    · simp [within]
  funext key
  by_cases same : middle = dst
  · subst same
    simp [transfer]
  · by_cases here : middle = key
    · subst here
      simp [transfer, same, gone, Ne.symm same]
    · simp [transfer, same, here]

end Stages

section Ordered

variable {ι : Type} [DecidableEq ι] [LinearOrder κ] {place : α → ι} {rank : ι → κ}

/-- The head of an ordered list is in a first place. -/
theorem rank_head_le {head : α} {tail other : List α}
    (ordered : (head :: tail).Pairwise fun a b => rank (place a) ≤ rank (place b))
    (same : ∀ k, (head :: tail).filter (fun a => place a = k) = other.filter fun a => place a = k)
    {a : α} (member : a ∈ other) : rank (place head) ≤ rank (place a) := by
  have own : a ∈ (head :: tail).filter fun b => place b = place a := by
    rw [same]
    simpa using member
  rcases List.mem_cons.mp (List.mem_filter.mp own).1 with rfl | later
  · exact le_refl _
  · exact List.rel_of_pairwise_cons ordered later

/-- A list ordered by places is determined by its elements in each place. -/
theorem eq_of_ordered (injective : Function.Injective rank) {left right : List α}
    (orderedLeft : left.Pairwise fun a b => rank (place a) ≤ rank (place b))
    (orderedRight : right.Pairwise fun a b => rank (place a) ≤ rank (place b))
    (same : ∀ k, left.filter (fun a => place a = k) = right.filter fun a => place a = k) :
    left = right := by
  induction left generalizing right with
  | nil =>
      cases right with
      | nil => rfl
      | cons head tail => simpa using same (place head)
  | cons head tail induction =>
      cases right with
      | nil => simpa using same (place head)
      | cons other rest =>
          have samePlace : place head = place other :=
            injective (le_antisymm (rank_head_le orderedLeft same List.mem_cons_self)
              (rank_head_le orderedRight (fun k => (same k).symm) List.mem_cons_self))
          have heads := same (place other)
          rw [List.filter_cons_of_pos (by simpa using samePlace),
            List.filter_cons_of_pos (by simp), List.cons.injEq] at heads
          rcases heads with ⟨rfl, _⟩
          rw [List.cons.injEq]
          refine ⟨rfl, induction orderedLeft.tail orderedRight.tail ?_⟩
          intro k
          have whole := same k
          simp only [List.filter_cons] at whole
          split at whole
          · exact (List.cons.inj whole).2
          · exact whole

variable {places : List ι} {lists : ι → List α}

omit [DecidableEq ι] in
/-- Lists under increasing places, one after another, are ordered. -/
theorem pairwise_flatMap (increasing : places.Pairwise fun k l => rank k < rank l)
    (own : ∀ k, ∀ a ∈ lists k, place a = k) :
    (places.flatMap lists).Pairwise fun a b => rank (place a) ≤ rank (place b) := by
  induction places with
  | nil => exact List.Pairwise.nil
  | cons first places induction =>
      rcases List.pairwise_cons.mp increasing with ⟨least, rest⟩
      rw [List.flatMap_cons, List.pairwise_append]
      refine ⟨?_, induction rest, ?_⟩
      · apply List.pairwise_of_forall_mem_list
        intro a memberA b memberB
        rw [own first a memberA, own first b memberB]
      · intro a memberA b memberB
        rcases List.mem_flatMap.mp memberB with ⟨k, later, here⟩
        rw [own first a memberA, own k b here]
        exact le_of_lt (least k later)

/-- Each list is found again by its place. -/
theorem filter_flatMap (distinct : places.Nodup) (own : ∀ k, ∀ a ∈ lists k, place a = k) {k : ι}
    (absent : k ∉ places → lists k = []) :
    (places.flatMap lists).filter (fun a => place a = k) = lists k := by
  have each : ∀ other, (lists other).filter (fun a => place a = k) =
      if other = k then lists other else [] := by
    intro other
    split
    · rename_i same
      rw [List.filter_eq_self]
      intro a member
      simpa using (own other a member).trans same
    · rename_i different
      rw [List.filter_eq_nil_iff]
      intro a member
      rw [own other a member]
      simpa using different
  induction places with
  | nil => simp [absent]
  | cons first places induction =>
      rcases List.nodup_cons.mp distinct with ⟨fresh, distinctRest⟩
      rw [List.flatMap_cons, List.filter_append, each]
      split
      · rename_i same
        subst same
        have none : (places.flatMap lists).filter (fun a => place a = first) = [] := ?_
        · rw [none, List.append_nil]
        rw [List.filter_eq_nil_iff]
        intro a member samePlace
        rcases List.mem_flatMap.mp member with ⟨other, later, here⟩
        rw [own other a here, decide_eq_true_eq] at samePlace
        exact fresh (samePlace ▸ later)
      · rename_i different
        rw [List.nil_append]
        apply induction distinctRest
        intro missing
        exact absent (by simp [missing, Ne.symm different])

end Ordered

end Cecs.Foundation

import Mathlib.Data.Finset.Dedup
import Mathlib.Order.Compare

/-! # Ordered maps

`BTreeMap` is the standard library's extensional tree map under the order of
its keys: it iterates in key order and two maps with the same lookups are
equal. The lemmas restate lookup with equality of keys in place of `compare`. -/

namespace Cecs.Foundation

abbrev BTreeMap (κ : Type u) (ν : Type v) [Ord κ] :=
  Std.ExtTreeMap κ ν compare

namespace BTreeMap

variable {κ : Type u} {ν : Type v} [Ord κ] [Std.TransOrd κ] [Std.LawfulEqOrd κ]

theorem getElem?_insert [DecidableEq κ] (map : BTreeMap κ ν) (key : κ) (value : ν)
    (other : κ) :
    (map.insert key value)[other]? = if key = other then some value else map[other]? := by
  rw [Std.ExtTreeMap.getElem?_insert]
  simp only [Std.LawfulEqOrd.compare_eq_iff_eq]

theorem getElem?_erase [DecidableEq κ] (map : BTreeMap κ ν) (key other : κ) :
    (map.erase key)[other]? = if key = other then none else map[other]? := by
  rw [Std.ExtTreeMap.getElem?_erase]
  simp only [Std.LawfulEqOrd.compare_eq_iff_eq]

theorem mem_toList {map : BTreeMap κ ν} {key : κ} {value : ν} :
    (key, value) ∈ map.toList ↔ map[key]? = some value :=
  Std.ExtTreeMap.mem_toList_iff_getElem?_eq_some

omit [Std.LawfulEqOrd κ] in
theorem mem_iff {map : BTreeMap κ ν} {key : κ} :
    key ∈ map ↔ ∃ value, map[key]? = some value := by
  rw [Std.ExtTreeMap.mem_iff_isSome_getElem?, Option.isSome_iff_exists]

omit [Std.LawfulEqOrd κ] in
theorem not_mem_iff {map : BTreeMap κ ν} {key : κ} :
    key ∉ map ↔ map[key]? = none := by
  rw [mem_iff]
  cases map[key]? <;> simp

omit [Std.LawfulEqOrd κ] in
theorem contains_eq_true {map : BTreeMap κ ν} {key : κ} :
    map.contains key = true ↔ ∃ value, map[key]? = some value := by
  rw [Std.ExtTreeMap.contains_iff_mem, mem_iff]

omit [Std.LawfulEqOrd κ] in
theorem contains_eq_false {map : BTreeMap κ ν} {key : κ} :
    map.contains key = false ↔ map[key]? = none := by
  rw [← Bool.not_eq_true, contains_eq_true]
  cases map[key]? <;> simp

/-- The keys, as a set. -/
def keySet [DecidableEq κ] (map : BTreeMap κ ν) : Finset κ := map.keys.toFinset

theorem mem_keySet [DecidableEq κ] {map : BTreeMap κ ν} {key : κ} :
    key ∈ map.keySet ↔ ∃ value, map[key]? = some value := by
  rw [keySet, List.mem_toFinset, Std.ExtTreeMap.mem_keys, mem_iff]

theorem keySet_map [DecidableEq κ] (map : BTreeMap κ ν) (f : κ → ν → ν) :
    keySet (map.map f) = map.keySet := by
  ext key
  simp only [mem_keySet, Std.ExtTreeMap.getElem?_map, Option.map_eq_some_iff]
  constructor
  · intro found
    rcases found with ⟨_, before, foundBefore, _⟩
    exact ⟨before, foundBefore⟩
  · intro found
    rcases found with ⟨before, foundBefore⟩
    exact ⟨_, before, foundBefore, rfl⟩

theorem keySet_insert_of_present [DecidableEq κ] {map : BTreeMap κ ν} {key : κ} {before : ν}
    (present : map[key]? = some before) (after : ν) :
    keySet (map.insert key after) = map.keySet := by
  ext other
  rw [mem_keySet, mem_keySet, getElem?_insert]
  by_cases same : key = other
  · subst same
    simp [present]
  · simp [same]

/-- The predicate holds of every entry. -/
def allEntries (map : BTreeMap κ ν) (test : κ → ν → Bool) : Bool :=
  map.toList.all fun entry => test entry.1 entry.2

theorem allEntries_eq_true {map : BTreeMap κ ν} {test : κ → ν → Bool} :
    map.allEntries test = true ↔
      ∀ key value, map[key]? = some value → test key value = true := by
  rw [allEntries, List.all_eq_true]
  constructor
  · intro all key value found
    exact all (key, value) (mem_toList.mpr found)
  · rintro all ⟨key, value⟩ member
    exact all key value (mem_toList.mp member)

/-- No key occurs twice in the iteration. -/
theorem toList_map_fst_nodup (map : BTreeMap κ ν) :
    (map.toList.map Prod.fst).Nodup := by
  rw [List.Nodup, List.pairwise_map]
  refine Std.ExtTreeMap.distinct_keys_toList.imp ?_
  intro left right different equal
  exact different (Std.LawfulEqOrd.compare_eq_iff_eq.mpr equal)

theorem erase_insert [DecidableEq κ] (map : BTreeMap κ ν) (key : κ) (value : ν) :
    (map.insert key value).erase key = map.erase key := by
  apply Std.ExtTreeMap.ext_getElem?
  intro other
  rw [getElem?_erase, getElem?_erase, getElem?_insert]
  split <;> rfl

theorem erase_of_absent [DecidableEq κ] {map : BTreeMap κ ν} {key : κ}
    (absent : map[key]? = none) : map.erase key = map := by
  apply Std.ExtTreeMap.ext_getElem?
  intro other
  rw [getElem?_erase]
  split
  · rename_i same
    rw [← same, absent]
  · rfl

theorem map_insert [DecidableEq κ] {μ : Type v} (map : BTreeMap κ ν) (f : κ → ν → μ) (key : κ)
    (value : ν) : (map.insert key value).map f = (map.map f).insert key (f key value) := by
  apply Std.ExtTreeMap.ext_getElem?
  intro other
  rw [getElem?_insert, Std.ExtTreeMap.getElem?_map, Std.ExtTreeMap.getElem?_map, getElem?_insert]
  split
  · rename_i same
    rw [same, Option.map_some]
  · rfl

theorem map_erase [DecidableEq κ] {μ : Type v} (map : BTreeMap κ ν) (f : κ → ν → μ) (key : κ) :
    (map.erase key).map f = (map.map f).erase key := by
  apply Std.ExtTreeMap.ext_getElem?
  intro other
  rw [getElem?_erase, Std.ExtTreeMap.getElem?_map, Std.ExtTreeMap.getElem?_map, getElem?_erase]
  split <;> rfl

/-- An entry comes first in some order of the iteration. -/
theorem toList_perm [DecidableEq κ] {map : BTreeMap κ ν} {key : κ} {value : ν}
    (present : map[key]? = some value) :
    map.toList.Perm ((key, value) :: (map.erase key).toList) := by
  have absent : (key, value) ∉ (map.erase key).toList := by
    rw [mem_toList, getElem?_erase, if_pos rfl]
    simp
  refine (List.perm_ext_iff_of_nodup (toList_map_fst_nodup map).of_map
    (List.nodup_cons.mpr ⟨absent, (toList_map_fst_nodup _).of_map⟩)).mpr ?_
  rintro ⟨other, content⟩
  rw [List.mem_cons, mem_toList, mem_toList, getElem?_erase, Prod.mk.injEq]
  by_cases same : key = other
  · subst same
    simp [present, eq_comm]
  · simp [same, Ne.symm same]

theorem getElem?_foldl_insert [DecidableEq κ] {map : BTreeMap κ ν} (entries : List (κ × ν))
    (listed : ∀ entry ∈ entries, map[entry.1]? = some entry.2) (copy : BTreeMap κ ν) (key : κ) :
    (entries.foldl (fun copy entry => copy.insert entry.1 entry.2) copy)[key]? =
      if key ∈ entries.map Prod.fst then map[key]? else copy[key]? := by
  induction entries generalizing copy with
  | nil => simp
  | cons entry entries induction =>
      rw [List.foldl_cons, induction (fun other member => listed other (by simp [member])),
        getElem?_insert]
      simp only [List.map_cons, List.mem_cons]
      by_cases same : key = entry.1
      · rw [if_pos same.symm, if_pos (Or.inl same), same, listed entry (by simp), ite_self]
      · rw [if_neg (Ne.symm same)]
        simp only [same, false_or]

/-- To insert what is iterated over makes the map again. -/
theorem foldl_insert_toList [DecidableEq κ] (map : BTreeMap κ ν) :
    map.toList.foldl (fun copy entry => copy.insert entry.1 entry.2) (∅ : BTreeMap κ ν) = map := by
  apply Std.ExtTreeMap.ext_getElem?
  intro key
  rw [getElem?_foldl_insert _ (fun _ member => mem_toList.mp member)]
  split
  · rfl
  · rename_i absent
    rw [Std.ExtTreeMap.getElem?_empty]
    cases found : map[key]? with
    | none => rfl
    | some value => exact absurd (List.mem_map.mpr ⟨_, mem_toList.mpr found, rfl⟩) absent

end BTreeMap

end Cecs.Foundation

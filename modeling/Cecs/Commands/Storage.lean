import Cecs.Commands.Owners

/-! # The owners of resources

The storage owns a box for each resource. -/

namespace Cecs

open Foundation

/-- The resources, each with the address of its box. -/
abbrev OwnedResources (Value : Type) := BTreeMap TypeId (Nat × Value)

section Storage

variable {Value : Type}

def resourceBox (ty : TypeId) (entry : Nat × Value) : Multiset (Nat × BoxContent Value) :=
  {(entry.1, .resource ty entry.2)}

/-- The box of a resource that may be there. -/
def resourceBox? (ty : TypeId) (entry : Option (Nat × Value)) : Multiset (Nat × BoxContent Value) :=
  entry.elim 0 (resourceBox ty)

def ErasedResource.boxed (entry : Nat × Value) : ErasedResource := { inner := some entry.1 }

namespace OwnedResources

/-- What the program keeps. -/
def erased (self : OwnedResources Value) : ResourceStorage :=
  { resources := self.map fun _ entry => ErasedResource.boxed entry }

/-- What it stands for. -/
def plain (self : OwnedResources Value) : BTreeMap TypeId Value := self.map fun _ entry => entry.2

def boxes (self : OwnedResources Value) : Multiset (Nat × BoxContent Value) :=
  (self.toList.map fun entry => resourceBox entry.1 entry.2).sum

variable {resources : OwnedResources Value} {ty : TypeId}

theorem erased_getElem? : resources.erased.resources[ty]? =
    resources[ty]?.map ErasedResource.boxed := Std.ExtTreeMap.getElem?_map

theorem plain_getElem? : resources.plain[ty]? = resources[ty]?.map Prod.snd :=
  Std.ExtTreeMap.getElem?_map

theorem plain_toList : resources.plain.toList =
    resources.toList.map fun entry => (entry.1, entry.2.2) := Std.ExtTreeMap.toList_map

theorem erased_insert (entry : Nat × Value) : erased (resources.insert ty entry) =
    { resources := resources.erased.resources.insert ty (ErasedResource.boxed entry) } := by
  rw [erased, BTreeMap.map_insert, erased]

/-- A value in the same box. -/
theorem erased_insert_present {entry : Nat × Value} {value : Value}
    (found : resources[ty]? = some entry) :
    erased (resources.insert ty (entry.1, value)) = resources.erased := by
  rw [erased_insert, erased]
  congr 1
  apply Std.ExtTreeMap.ext_getElem?
  intro other
  rw [BTreeMap.getElem?_insert, Std.ExtTreeMap.getElem?_map]
  split
  · rename_i here
    rw [← here, found]
    rfl
  · rfl

theorem plain_insert (entry : Nat × Value) :
    plain (resources.insert ty entry) = resources.plain.insert ty entry.2 :=
  BTreeMap.map_insert resources _ ty entry

theorem erased_erase : erased (resources.erase ty) =
    { resources := resources.erased.resources.erase ty } := by
  rw [erased, BTreeMap.map_erase, erased]

theorem plain_erase : plain (resources.erase ty) = resources.plain.erase ty :=
  BTreeMap.map_erase resources _ ty

theorem boxes_erase (resources : OwnedResources Value) (ty : TypeId) :
    resources.boxes = resourceBox? ty resources[ty]? + boxes (resources.erase ty) := by
  cases found : resources[ty]? with
  | none => rw [BTreeMap.erase_of_absent found, resourceBox?, Option.elim_none, zero_add]
  | some entry =>
      rw [boxes, ((BTreeMap.toList_perm found).map _).sum_eq, List.map_cons, List.sum_cons]
      rfl

theorem boxes_insert (entry : Nat × Value) :
    boxes (resources.insert ty entry) = resourceBox ty entry + boxes (resources.erase ty) := by
  rw [boxes_erase (resources.insert ty entry) ty, Std.ExtTreeMap.getElem?_insert_self,
    BTreeMap.erase_insert]
  rfl

theorem empty_boxes : boxes (∅ : OwnedResources Value) = 0 := rfl

end OwnedResources

open OwnedResources

variable {heap : Heap Value} {rest : Multiset (Nat × BoxContent Value)}
  {resources : OwnedResources Value} {ty : TypeId}

/-- The box that `remove` returns can be dropped. -/
theorem dropInner_resource {entry : Option (Nat × Value)}
    (owns : heap.Owns (resourceBox? ty entry + rest)) :
    ∃ after, dropInner (entry.map Prod.fst) heap = some after ∧ after.Owns rest := by
  cases entry with
  | none =>
      rw [resourceBox?, Option.elim_none, zero_add] at owns
      exact ⟨heap, rfl, owns⟩
  | some entry => exact dropInner_owned owns

theorem ErasedResource.asInner_owned {entry : Nat × Value}
    (owns : heap.Owns (resourceBox ty entry + rest)) :
    (ErasedResource.boxed entry).asInner ty heap = some entry.2 := by
  have held := owns.head
  simp only [asInner, boxed, Option.bind_eq_bind, Option.bind_some, held, if_true]

namespace ResourceStorage

theorem insert_owned (ty : TypeId) (value : Value) (owns : heap.Owns (resources.boxes + rest)) :
    ∃ after, resources.erased.insert ty value heap =
        some (erased (resources.insert ty (heap.next, value)), after) ∧
      after.Owns (boxes (resources.insert ty (heap.next, value)) + rest) := by
  have made := owns.leak (.resource ty value)
  rw [boxes_erase resources ty, add_assoc, add_left_comm] at made
  rcases dropInner_resource made with ⟨after, dropped, ownsAfter⟩
  refine ⟨after, ?_, ?_⟩
  · rw [insert, erased_insert, erased_getElem?]
    cases found : resources[ty]? with
    | none =>
        rw [found] at dropped
        cases dropped
        rfl
    | some entry =>
        rw [found] at dropped
        have old : (ErasedResource.boxed entry).drop (heap.leak (.resource ty value)).2 =
          some after := dropped
        simp only [Option.map_some, ErasedResource.new, old]
        rfl
  · rw [boxes_insert, add_assoc]
    exact ownsAfter

theorem fetch_owned (ty : TypeId) (owns : heap.Owns (resources.boxes + rest)) :
    resources.erased.fetch ty heap = some resources.plain[ty]? := by
  rw [boxes_erase resources ty, add_assoc] at owns
  rw [fetch, erased_getElem?, plain_getElem?]
  cases found : resources[ty]? with
  | none => rfl
  | some entry =>
      rw [found] at owns
      simp only [Option.map_some, ErasedResource.asInner_owned owns]

/-- The box stays where it is. -/
theorem assign_owned (ty : TypeId) (value : Value) (owns : heap.Owns (resources.boxes + rest)) :
    ∃ (after : OwnedResources Value) (heap' : Heap Value),
      resources.erased.assign ty value heap = some (after.erased, heap') ∧
      heap'.Owns (after.boxes + rest) ∧ after.plain =
        if (resources.plain[ty]?).isSome then resources.plain.insert ty value
        else resources.plain := by
  cases found : resources[ty]? with
  | none =>
      refine ⟨resources, heap, ?_, owns, ?_⟩
      · rw [assign, erased_getElem?, found]
        rfl
      · rw [plain_getElem?, found]
        rfl
  | some entry =>
      rw [boxes_erase resources ty, add_assoc, found] at owns
      rcases owns.write (.resource ty value) with ⟨heap', written, ownsAfter⟩
      refine ⟨resources.insert ty (entry.1, value), heap', ?_, ?_, ?_⟩
      · have assigned : (ErasedResource.boxed entry).assign ty value heap = some heap' := by
          rw [ErasedResource.assign, ErasedResource.asInner_owned owns]
          exact written
        rw [assign, erased_getElem?, found, erased_insert_present found]
        simp only [Option.map_some, assigned]
      · rw [boxes_insert, add_assoc]
        exact ownsAfter
      · rw [plain_getElem?, found, plain_insert]
        rfl

theorem fetchOrDefault_owned (ty : TypeId) (default : Value)
    (owns : heap.Owns (resources.boxes + rest)) :
    ∃ (after : OwnedResources Value) (heap' : Heap Value),
      resources.erased.fetchOrDefault ty default heap =
        some (after.erased, heap') ∧
      heap'.Owns (after.boxes + rest) ∧ after.plain =
        if (resources.plain[ty]?).isSome then resources.plain
        else resources.plain.insert ty default := by
  cases found : resources[ty]? with
  | none =>
      refine ⟨resources.insert ty (heap.next, default), (heap.leak (.resource ty default)).2,
        ?_, ?_, ?_⟩
      · rw [fetchOrDefault, erased_getElem?, found, erased_insert]
        rfl
      · rw [boxes_insert, BTreeMap.erase_of_absent found, add_assoc]
        exact owns.leak (.resource ty default)
      · rw [plain_getElem?, found, plain_insert]
        rfl
  | some entry =>
      refine ⟨resources, heap, ?_, owns, ?_⟩
      · rw [boxes_erase resources ty, add_assoc, found] at owns
        rw [fetchOrDefault, erased_getElem?, found]
        simp only [Option.map_some, ErasedResource.asInner_owned owns]
      · rw [plain_getElem?, found]
        rfl

/-- The box is not freed, its owner is the caller now. -/
theorem remove_owned (ty : TypeId) (owns : heap.Owns (resources.boxes + rest)) :
    resources.erased.remove ty heap =
        some (resources[ty]?.map Prod.fst, erased (resources.erase ty), heap) ∧
      heap.Owns (resourceBox? ty resources[ty]? + (boxes (resources.erase ty) + rest)) := by
  rw [boxes_erase resources ty, add_assoc] at owns
  refine ⟨?_, owns⟩
  rw [remove, erased_getElem?]
  cases found : resources[ty]? with
  | none =>
      rw [BTreeMap.erase_of_absent found]
      rfl
  | some entry =>
      rw [found] at owns
      have inside : (ErasedResource.boxed entry).intoInner ty heap = some (entry.1, heap) := by
        rw [ErasedResource.intoInner, ErasedResource.asInner_owned owns]
        rfl
      simp only [Option.map_some, inside, erased_erase]

theorem drop_owned (owns : heap.Owns (resources.boxes + rest)) :
    ∃ after, resources.erased.drop heap = some after ∧ after.Owns rest := by
  rw [drop, OwnedResources.erased, Std.ExtTreeMap.toList_map, List.foldlM_map]
  exact Boxes.Owns.foldlM (fun _ _ _ => dropInner_owned) owns

/-- One entry of the copy. -/
theorem cloneEntry_owned {copy : OwnedResources Value} {entry : Nat × Value}
    (owns : heap.Owns (copy.boxes + rest)) (held : (entry.1, .resource ty entry.2) ∈ rest)
    (fresh : copy[ty]? = none) :
    (ErasedResource.boxed entry).clone heap =
        some (ErasedResource.boxed (heap.next, entry.2), (heap.leak (.resource ty entry.2)).2) ∧
      (heap.leak (.resource ty entry.2)).2.Owns
        (boxes (copy.insert ty (heap.next, entry.2)) + rest) := by
  have found := owns.read (Multiset.mem_add.mpr (Or.inr held))
  constructor
  · simp only [ErasedResource.clone, ErasedResource.boxed, Option.bind_eq_bind, Option.bind_some,
      found]
    rfl
  · rw [boxes_insert, BTreeMap.erase_of_absent fresh, add_assoc]
    exact owns.leak _

theorem cloneEntries_owned {entries : List (TypeId × (Nat × Value))}
    {copy : OwnedResources Value} (owns : heap.Owns (copy.boxes + rest))
    (held : ∀ entry ∈ entries, (entry.2.1, .resource entry.1 entry.2.2) ∈ rest)
    (distinct : (entries.map Prod.fst).Nodup) (fresh : ∀ entry ∈ entries, copy[entry.1]? = none) :
    ∃ (after : OwnedResources Value) (heap' : Heap Value),
      entries.foldlM (fun (copy, heap) entry => do
        let (made, heap) ← (ErasedResource.boxed entry.2).clone heap
        return (({ resources := copy.resources.insert entry.1 made } : ResourceStorage), heap))
        (copy.erased, heap) = some (after.erased, heap') ∧
      heap'.Owns (after.boxes + rest) ∧ after.plain =
        entries.foldl (fun plain entry => plain.insert entry.1 entry.2.2) copy.plain := by
  induction entries generalizing copy heap with
  | nil => exact ⟨copy, heap, rfl, owns, rfl⟩
  | cons entry entries induction =>
      rw [List.map_cons, List.nodup_cons] at distinct
      rcases cloneEntry_owned owns (held entry (by simp)) (fresh entry (by simp)) with
        ⟨cloned, ownsCopy⟩
      have freshRest : ∀ other ∈ entries,
          (copy.insert entry.1 (heap.next, entry.2.2))[other.1]? = none := by
        intro other member
        rw [BTreeMap.getElem?_insert, if_neg, fresh other (by simp [member])]
        intro same
        exact distinct.1 (same ▸ List.mem_map.mpr ⟨other, member, rfl⟩)
      rcases induction ownsCopy (fun other member => held other (by simp [member])) distinct.2
        freshRest with ⟨after, heap', folded, ownsAfter, plain⟩
      refine ⟨after, heap', ?_, ownsAfter, ?_⟩
      · rw [erased_insert] at folded
        simp only [List.foldlM_cons, cloned, Option.bind_eq_bind, Option.bind_some]
        exact folded
      · rw [plain, plain_insert, List.foldl_cons]

theorem clone_owned (owns : heap.Owns (resources.boxes + rest)) :
    ∃ (after : OwnedResources Value) (heap' : Heap Value),
      resources.erased.clone heap = some (after.erased, heap') ∧
      heap'.Owns (after.boxes + (resources.boxes + rest)) ∧ after.plain = resources.plain := by
  have held : ∀ entry ∈ resources.toList,
      (entry.2.1, BoxContent.resource entry.1 entry.2.2) ∈ resources.boxes + rest := by
    intro entry member
    rw [boxes_erase resources entry.1, BTreeMap.mem_toList.mp member]
    simp [resourceBox?, resourceBox]
  have started : heap.Owns (boxes (∅ : OwnedResources Value) + (resources.boxes + rest)) := by
    rw [empty_boxes, zero_add]
    exact owns
  rcases cloneEntries_owned started held (BTreeMap.toList_map_fst_nodup resources) (by simp) with
    ⟨after, heap', folded, ownsAfter, plain⟩
  refine ⟨after, heap', ?_, ownsAfter, ?_⟩
  · rw [clone, OwnedResources.erased, Std.ExtTreeMap.toList_map, List.foldlM_map]
    exact folded
  · rw [plain, ← BTreeMap.foldl_insert_toList resources.plain, plain_toList, List.foldl_map]
    rfl

end ResourceStorage

end Storage

end Cecs

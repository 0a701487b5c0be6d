import Cecs.Serde
import Cecs.World.WellFormed
import Mathlib.Data.Set.Basic

/-! # What a persister saves

The names of entries tell kinds and types apart, the values of a type are those
of the entities in the tables that queries walk, and the length that a save
announces is the number of entries it writes. -/

namespace Cecs

open Foundation

section Names

variable [TypeName]

theorem toList_entryName (ty : SerTy) (component : TypeId) :
    (entryName ty component).toList =
      ty.debug.toList ++ ('_' :: (typeName component).toList) := by
  simp [entryName, String.toList_append]

theorem entryName_injective (names : Function.Injective (typeName : TypeId → String))
    {ty other : SerTy} {component otherComponent : TypeId}
    (same : entryName ty component = entryName other otherComponent) :
    ty = other ∧ component = otherComponent := by
  have lists := congrArg String.toList same
  rw [toList_entryName, toList_entryName] at lists
  cases ty <;> cases other <;> simp [SerTy.debug] at lists
  all_goals exact ⟨rfl, names (String.toList_inj.mp lists)⟩

theorem entryName_ne_version (ty : SerTy) (component : TypeId) :
    entryName ty component ≠ VERSION_KEY := by
  intro same
  have lists := congrArg String.toList same
  rw [toList_entryName] at lists
  cases ty <;> simp [SerTy.debug, VERSION_KEY] at lists

end Names

namespace World

variable {Value : Type} {w : World Value}

theorem mem_walked {ptr : Ptr} {table : EntityTable Value} :
    (ptr, table) ∈ w.walked ↔
      (∃ key : TypeHash, w.archetypes[key]? = some ptr) ∧ w.tables ptr = some table := by
  simp only [walked, List.mem_filterMap, Option.map_eq_some_iff, Prod.mk.injEq]
  constructor
  · intro found
    rcases found with ⟨⟨key, owner⟩, member, other, foundOther, rfl, rfl⟩
    exact ⟨⟨key, BTreeMap.mem_toList.mp member⟩, foundOther⟩
  · intro found
    rcases found with ⟨⟨key, owner⟩, foundTable⟩
    exact ⟨(key, ptr), BTreeMap.mem_toList.mpr owner, table, foundTable, rfl, rfl⟩

/-- The entity is in a table that queries walk. -/
def Walks (w : World Value) (id : EntityId) : Prop :=
  ∃ ptr table, (ptr, table) ∈ w.walked ∧ id ∈ table.entities

/-- Without parked tables every entity is walked. -/
theorem WellFormed.walks [UnitTypeId] (wf : w.WellFormed)
    (unparked : ∀ key : TypeHash, w.archetypesStaging[key]? = none) {id : EntityId}
    {spot : Ptr × Nat} (placed : w.entityIds.place id = some spot) : w.Walks id := by
  rcases spot with ⟨ptr, index⟩
  rcases wf.table_of_place placed with ⟨table, found, _, _, owner, _⟩
  refine ⟨ptr, table, mem_walked.mpr ⟨?_, found⟩, List.mem_of_getElem? owner⟩
  rcases wf.owner ptr table found with inArchetypes | inStaging
  · exact ⟨table.ty, inArchetypes⟩
  · rw [unparked] at inStaging
    cases inStaging

end World

namespace WorldPersister

variable {Version Value : Type} {w : World Value}

theorem filterMap_entityValue (ids : List EntityId) (column : Column Value) :
    (List.zipWith Item.pair (ids.map Item.entityId) (column.map Item.ref)).filterMap
      entityValue = ids.zip column := by
  induction ids generalizing column with
  | nil => rfl
  | cons id ids induction =>
      cases column with
      | nil => rfl
      | cons value column =>
          simp only [List.map_cons, List.zipWith_cons_cons, List.zip_cons_cons]
          rw [List.filterMap_cons_some (by rfl), induction]

theorem componentValues_eq (w : World Value) (component : TypeId) :
    componentValues w component = w.walked.flatMap fun entry =>
      entry.2.entities.zip ((entry.2.components[component]?).getD []) := by
  rw [componentValues, Query.iter, Query.archetypes, List.filterMap_flatMap]
  have all : (w.walked.filter fun entry => Filter.unit.filter entry.2) = w.walked :=
    List.filter_eq_self.mpr fun _ _ => rfl
  rw [all]
  congr 1
  funext entry
  exact filterMap_entityValue _ _

/-- The value that the save finds for an entity. -/
theorem mem_componentValues (consistent : w.Consistent) {component : TypeId} {id : EntityId}
    {value : Value} :
    (id, value) ∈ componentValues w component ↔
      w.Walks id ∧ ∃ row, w.view id = some row ∧ row component = some value := by
  rw [componentValues_eq, List.mem_flatMap]
  constructor
  · intro found
    rcases found with ⟨⟨ptr, table⟩, walked, member⟩
    rcases List.mem_iff_getElem?.mp member with ⟨index, pair⟩
    rw [List.getElem?_zip_eq_some] at pair
    rcases pair with ⟨owner, cell⟩
    have foundTable := (World.mem_walked.mp walked).2
    have placed := consistent.place_of_entities foundTable owner
    rcases consistent.table_of_place placed with ⟨other, foundOther, _, _, _, viewed⟩
    rw [foundTable] at foundOther
    cases foundOther
    refine ⟨⟨ptr, table, walked, List.mem_of_getElem? owner⟩, _, viewed, ?_⟩
    rw [EntityTable.row, EntityTable.getComponent]
    cases column : table.components[component]? with
    | none => simp [column] at cell
    | some values => simpa [column] using cell
  · intro live
    rcases live with ⟨⟨ptr, table, walked, listed⟩, row, viewed, cell⟩
    rcases List.mem_iff_getElem?.mp listed with ⟨index, owner⟩
    have foundTable := (World.mem_walked.mp walked).2
    have placed := consistent.place_of_entities foundTable owner
    rcases consistent.table_of_place placed with ⟨other, foundOther, _, _, _, viewedOther⟩
    rw [foundTable] at foundOther
    cases foundOther
    rw [viewed, Option.some.injEq] at viewedOther
    subst viewedOther
    refine ⟨(ptr, table), walked, List.mem_of_getElem? (i := index) ?_⟩
    rw [EntityTable.row, EntityTable.getComponent] at cell
    rw [List.getElem?_zip_eq_some]
    refine ⟨owner, ?_⟩
    cases column : table.components[component]? with
    | none => simp [column] at cell
    | some values => simpa [column] using cell

/-- `is_empty` of `Query::<&T>` agrees with what is collected. -/
theorem countsEntry_component (consistent : w.Consistent) (component : TypeId) :
    countsEntry w .Component component = !(componentValues w component).isEmpty := by
  rw [countsEntry, Query.isEmpty, Query.matching, Query.archetypes]
  congr 1
  rw [Bool.eq_iff_iff, List.all_eq_true, List.isEmpty_iff, componentValues_eq,
    List.flatMap_eq_nil_iff]
  simp only [List.mem_filter, List.mem_map, Prod.exists, exists_eq_right]
  constructor
  · intro empty entry walked
    rcases entry with ⟨ptr, table⟩
    cases column : table.components[component]? with
    | none => simp
    | some values =>
        have aligned := consistent.aligned ptr table (World.mem_walked.mp walked).2
        have noRows := empty table ⟨⟨ptr, walked, rfl⟩,
          EntityTable.containsColumn_iff.mpr ⟨values, column⟩⟩
        rw [aligned.isEmpty_iff, ← List.length_eq_zero_iff, EntityTable.length_rowList,
          List.length_eq_zero_iff] at noRows
        simp [noRows]
  · intro empty table found
    rcases found with ⟨⟨ptr, walked, _⟩, present⟩
    rcases EntityTable.containsColumn_iff.mp present with ⟨values, column⟩
    have aligned := consistent.aligned ptr table (World.mem_walked.mp walked).2
    have nothing := congrArg List.length (empty (ptr, table) walked)
    simp only [column, Option.getD_some, List.length_zip, aligned.entities,
      aligned.columns component values column, Nat.min_self, List.length_nil] at nothing
    rw [EntityTable.isEmpty, beq_iff_eq]
    exact nothing

variable [TypeName]

theorem length_saveImpl (consistent : w.Consistent) (ty : SerTy) (component : TypeId) :
    (saveImpl ty component w : Entries Version Value).length =
      (countsEntry w ty component).toNat := by
  cases ty with
  | Component =>
      rw [countsEntry_component consistent, saveImpl]
      cases componentValues w component <;> rfl
  | Resource =>
      rw [saveImpl, countsEntry]
      cases found : w.resources[component]? with
      | none => rw [BTreeMap.contains_eq_false.mpr found]; rfl
      | some value => rw [BTreeMap.contains_eq_true.mpr ⟨value, found⟩]; rfl
  | Noop => rfl

/-- `count_entries` counts what `save_entry` writes. -/
theorem countEntries_eq (consistent : w.Consistent) (self : WorldPersister Version) :
    self.countEntries w = (self.saveEntry w : Entries Version Value).length := by
  induction self with
  | nil version => rfl
  | cons ty component version next induction =>
      rw [countEntries, saveEntry, List.length_append, length_saveImpl consistent, induction]

theorem announced_save (consistent : w.Consistent) (self : WorldPersister Version) :
    (self.save w).announced = (self.save w).entries.length := by
  simp only [save, List.length_append, List.length_map, countEntries_eq consistent]
  cases self.version <;> simp [Nat.add_comm]

theorem mem_saveEntry {self : WorldPersister Version}
    {entry : String × Content Version Value} :
    entry ∈ self.saveEntry w ↔
      ∃ ty component, (ty, component) ∈ self.entries ∧ entry ∈ saveImpl ty component w := by
  induction self with
  | nil version => simp [saveEntry, entries]
  | cons ty component version next induction =>
      simp only [saveEntry, entries, List.mem_append, List.mem_cons, Prod.mk.injEq, induction]
      constructor
      · intro found
        rcases found with here | ⟨other, otherComponent, member, written⟩
        · exact ⟨ty, component, Or.inl ⟨rfl, rfl⟩, here⟩
        · exact ⟨other, otherComponent, Or.inr member, written⟩
      · intro found
        rcases found with ⟨other, otherComponent, ⟨rfl, rfl⟩ | member, written⟩
        · exact Or.inl written
        · exact Or.inr ⟨other, otherComponent, member, written⟩

/-- An entry of a registered type is written if there are values of the type. -/
theorem saveImpl_eq_nil_iff (consistent : w.Consistent) {ty : SerTy} {component : TypeId} :
    (saveImpl ty component w : Entries Version Value) = [] ↔
      countsEntry w ty component = false := by
  rw [← List.length_eq_zero_iff, length_saveImpl consistent]
  cases countsEntry w ty component <;> simp

/-- An entry that a world writes. -/
inductive Saved (w : World Value) : String × Content Version Value → Prop where
  | version (version : Version) : Saved w (VERSION_KEY, .version version)
  | components (component : TypeId) :
      Saved w (entryName .Component component, .components (componentValues w component))
  | resource {component : TypeId} {value : Value}
      (found : w.resources[component]? = some value) :
      Saved w (entryName .Resource component, .resource value)

theorem saved_of_mem_saveImpl {ty : SerTy} {component : TypeId}
    {entry : String × Content Version Value} (member : entry ∈ saveImpl ty component w) :
    Saved w entry ∧ entry.1 = entryName ty component ∧ ty ≠ .Noop := by
  cases ty with
  | Component =>
      rw [saveImpl] at member
      split at member
      · cases member
      · rw [List.mem_singleton.mp member]
        exact ⟨.components component, rfl, by decide⟩
  | Resource =>
      rw [saveImpl] at member
      split at member
      · rename_i found
        rw [List.mem_singleton.mp member]
        exact ⟨.resource found, rfl, by decide⟩
      · cases member
  | Noop => cases member

theorem saved_of_mem_save {self : WorldPersister Version}
    {entry : String × Content Version Value} (member : entry ∈ (self.save w).entries) :
    Saved w entry := by
  simp only [save, List.mem_append, List.mem_map] at member
  rcases member with ⟨version, _, rfl⟩ | written
  · exact .version version
  · rcases mem_saveEntry.mp written with ⟨_, _, _, here⟩
    exact (saved_of_mem_saveImpl here).1

section Types

/-- The types that have an entry of a kind. -/
def typesOf (ty : SerTy) (entries : Entries Version Value) : Set TypeId :=
  { component | ∃ content, (entryName ty component, content) ∈ entries }

theorem typesOf_nil (ty : SerTy) : typesOf ty ([] : Entries Version Value) = ∅ := by
  ext component
  simp [typesOf]

theorem typesOf_version (ty : SerTy) (content : Content Version Value)
    (rest : Entries Version Value) :
    typesOf ty ((VERSION_KEY, content) :: rest) = typesOf ty rest := by
  ext component
  simp [typesOf, entryName_ne_version]

theorem typesOf_same (names : Function.Injective (typeName : TypeId → String)) (ty : SerTy)
    (component : TypeId) (content : Content Version Value) (rest : Entries Version Value) :
    typesOf ty ((entryName ty component, content) :: rest) =
      insert component (typesOf ty rest) := by
  ext other
  simp only [typesOf, List.mem_cons, Prod.mk.injEq, Set.mem_ofPred_eq, Set.mem_insert_iff]
  constructor
  · intro found
    rcases found with ⟨found, ⟨same, _⟩ | inRest⟩
    · exact Or.inl (entryName_injective names same).2
    · exact Or.inr ⟨found, inRest⟩
  · intro found
    rcases found with rfl | ⟨found, inRest⟩
    · exact ⟨content, Or.inl ⟨rfl, rfl⟩⟩
    · exact ⟨found, Or.inr inRest⟩

theorem typesOf_other (names : Function.Injective (typeName : TypeId → String))
    {ty other : SerTy} (different : ty ≠ other) (component : TypeId)
    (content : Content Version Value) (rest : Entries Version Value) :
    typesOf ty ((entryName other component, content) :: rest) = typesOf ty rest := by
  ext here
  have notHere : entryName ty here ≠ entryName other component := fun same =>
    different (entryName_injective names same).1
  simp [typesOf, notHere]

end Types

end WorldPersister

end Cecs

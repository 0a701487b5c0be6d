import Cecs.Serde.Load

/-! # Visiting a saved map

A visit of entries that a world wrote rebuilds the cells of their component
types and copies their resources, when every key is known. -/

namespace Cecs

open Foundation

namespace WorldPersister

section Rebuilt

variable {Value : Type} [UnitTypeId] [BuiltinValues Value]

/-- The entities with the cells `done`; an entity without the unit type gets it. -/
def rebuilt (cells : EntityId → Row Value) (done : List (EntityId × TypeId)) :
    EntityMap Value := fun id =>
  if id ∈ done.map Prod.fst then
    some fun ty => if (id, ty) ∈ done then cells id ty else Row.marker ty
  else none

theorem rebuilt_cons {cells : EntityId → Row Value} {done : List (EntityId × TypeId)}
    {id : EntityId} {ty : TypeId} {value : Value} (cell : cells id ty = some value) :
    rebuilt cells ((id, ty) :: done) =
      Function.update (rebuilt cells done) id
        (some (((rebuilt cells done id).getD Row.marker).insert ty value)) := by
  funext other
  by_cases same : other = id
  · subst same
    rw [Function.update_self, rebuilt, if_pos (by simp)]
    congr 1
    funext column
    by_cases sameColumn : column = ty
    · subst sameColumn
      simp [Row.insert, cell]
    · simp only [Row.insert, Function.update_of_ne sameColumn, rebuilt, List.mem_cons,
        Prod.mk.injEq, sameColumn, and_false, false_or]
      by_cases listed : other ∈ done.map Prod.fst
      · rw [if_pos listed]
        rfl
      · have absent : (other, column) ∉ done := fun member =>
          listed (List.mem_map_of_mem (f := Prod.fst) member)
        rw [if_neg listed, if_neg absent]
        rfl
  · rw [Function.update_of_ne same]
    simp [rebuilt, same]

end Rebuilt

end WorldPersister

namespace World

variable {Value : Type}

/-- The cells of the saved world. -/
def cells (w : World Value) : EntityId → Row Value :=
  fun id ty => (w.view id).bind fun row => row ty

theorem Consistent.getComponent_eq {w : World Value} (consistent : w.Consistent) (id : EntityId)
    (ty : TypeId) : w.getComponent id ty = w.cells id ty := by
  rw [cells]
  cases live : w.view id with
  | none =>
      rcases EntityIndex.read_of_place_none ((view_eq_none_iff consistent).mp live) with
        ⟨error, outcome⟩
      simp [getComponent, outcome]
  | some row =>
      rcases consistent.table_of_view live with
        ⟨ptr, index, table, outcome, found, _, _, _, rfl⟩
      simp [getComponent, outcome, found, EntityTable.row]

/-- Live entities are in slots of their own. -/
theorem Consistent.eq_of_index {w : World Value} (consistent : w.Consistent)
    {left right : EntityId} (liveLeft : w.view left ≠ none) (liveRight : w.view right ≠ none)
    (sameIndex : left.index = right.index) : left = right := by
  rw [ne_eq, view_eq_none_iff consistent, ← ne_eq, Option.ne_none_iff_exists'] at liveLeft liveRight
  rcases liveLeft with ⟨spot, placed⟩
  rcases liveRight with ⟨spotRight, placedRight⟩
  exact EntityIndex.eq_of_placed placed placedRight sameIndex

/-- The slot of a live entity is below the limit. -/
theorem Consistent.index_lt {w : World Value} (consistent : w.Consistent) {id : EntityId}
    (live : w.view id ≠ none) : id.index + 1 < ENTITY_INDEX_MASK := by
  rw [ne_eq, view_eq_none_iff consistent, ← ne_eq, Option.ne_none_iff_exists'] at live
  rcases live with ⟨spot, placed⟩
  rcases consistent.index with ⟨slots, sound⟩
  exact sound.slot_lt placed

end World

namespace WorldPersister

section Loop

variable {Value : Type} [UnitTypeId] [BuiltinValues Value] {source w : World Value}
  {types : Finset TypeId} {done : List (EntityId × TypeId)}

/-- A world being loaded that has the cells `done` of the world `source`. -/
structure Rebuilding (source : World Value) (types : Finset TypeId)
    (done : List (EntityId × TypeId)) (w : World Value) : Prop extends w.Loading types where
  viewed : w.view = rebuilt source.cells done
  live : ∀ id ty, (id, ty) ∈ done → source.view id ≠ none

omit [UnitTypeId] [BuiltinValues Value] in
theorem live_of_cell {id : EntityId} {ty : TypeId} {value : Value}
    (cell : source.cells id ty = some value) : source.view id ≠ none := by
  intro dead
  simp [World.cells, dead] at cell

/-- Nobody else was loaded into the slot of an entity of the saved world. -/
theorem Rebuilding.alone (consistent : source.Consistent)
    (rebuilding : Rebuilding source types done w) {id : EntityId}
    (live : source.view id ≠ none) : w.Alone id := by
  intro other liveOther sameIndex
  rw [rebuilding.viewed, rebuilt] at liveOther
  split at liveOther
  · rename_i listed
    rcases List.mem_map.mp listed with ⟨⟨_, ty⟩, member, rfl⟩
    exact consistent.eq_of_index (rebuilding.live _ ty member) live sameIndex
  · exact absurd rfl liveOther

theorem Rebuilding.loadComponent (consistent : source.Consistent)
    (rebuilding : Rebuilding source types done w) (apart : HashesApart types)
    {component : TypeId} (registered : component ∈ types) {id : EntityId} {value : Value}
    (cell : source.cells id component = some value) :
    ∃ after, loadComponent component w (id, value) = some after ∧
      Rebuilding source types ((id, component) :: done) after ∧
      after.resources = w.resources := by
  have live := live_of_cell cell
  rcases rebuilding.toLoading.loadComponent apart registered (rebuilding.alone consistent live)
      (consistent.index_lt live) value with
    ⟨after, loaded, loading, viewed, resources⟩
  refine ⟨after, loaded, { loading with viewed := ?_, live := ?_ }, resources⟩
  · rw [viewed, rebuilding.viewed, rebuilt_cons cell]
  · intro other ty member
    rcases List.mem_cons.mp member with same | before
    · cases same
      exact live
    · exact rebuilding.live other ty before

/-- The loop over the values of one component type. -/
theorem Rebuilding.loadComponents (consistent : source.Consistent)
    (rebuilding : Rebuilding source types done w) (apart : HashesApart types)
    {component : TypeId} (registered : component ∈ types) {values : List (EntityId × Value)}
    (cells : ∀ entry ∈ values, source.cells entry.1 component = some entry.2) :
    ∃ after doneAfter, values.foldlM (WorldPersister.loadComponent component) w = some after ∧
      Rebuilding source types doneAfter after ∧ after.resources = w.resources ∧
      ∀ id ty, (id, ty) ∈ doneAfter ↔
        (id, ty) ∈ done ∨ ty = component ∧ id ∈ values.map Prod.fst := by
  induction values generalizing w done with
  | nil => exact ⟨w, done, rfl, rebuilding, rfl, by simp⟩
  | cons entry values induction =>
      rcases rebuilding.loadComponent consistent apart registered
          (cells entry List.mem_cons_self) with
        ⟨middle, loaded, rebuildingMiddle, resourcesMiddle⟩
      rcases induction rebuildingMiddle fun other member =>
          cells other (List.mem_cons_of_mem _ member) with
        ⟨after, doneAfter, rest, rebuildingAfter, resources, listed⟩
      refine ⟨after, doneAfter, ?_, rebuildingAfter, resources.trans resourcesMiddle, ?_⟩
      · rw [List.foldlM_cons, loaded]
        exact rest
      · intro id ty
        rw [listed, List.mem_cons, List.map_cons, List.mem_cons, Prod.mk.injEq]
        tauto

end Loop

section Chain

variable {Version Value : Type} [UnitTypeId] [BuiltinValues Value] [TypeName]
  {self : WorldPersister Version} {ty : SerTy} {component : TypeId}

/-- The persister reads the value of an entry with this key. -/
def Knows (self : WorldPersister Version) (key : String) : Prop :=
  key = VERSION_KEY ∧ self.version.isSome = true ∨
    ∃ entry ∈ self.entries, entryName entry.1 entry.2 = key

theorem visitMapValue_of_mem (names : Function.Injective (typeName : TypeId → String))
    (registered : (ty, component) ∈ self.entries) (map : MapAccess Version Value)
    (world : World Value) :
    self.visitMapValue (entryName ty component) map world =
      visitMapValueImpl ty component map world := by
  induction self with
  | nil version => cases registered
  | cons here hereComponent version next induction =>
      rw [visitMapValue]
      by_cases same : entryName here hereComponent = entryName ty component
      · rcases entryName_injective names same with ⟨rfl, rfl⟩
        simp
      · rw [if_pos same]
        apply induction
        rcases List.mem_cons.mp registered with atHead | inTail
        · cases atHead
          exact absurd rfl same
        · exact inTail

/-- Falling off the end of the chain leaves the value unread. -/
theorem visitMapValue_of_not_mem (names : Function.Injective (typeName : TypeId → String))
    (saved : ty ≠ .Noop) (absent : (ty, component) ∉ self.entries)
    (map : MapAccess Version Value) (world : World Value) :
    self.visitMapValue (entryName ty component) map world = some (.ok (map, world)) := by
  induction self with
  | nil version =>
      rw [visitMapValue, if_pos]
      intro same
      exact saved (entryName_injective names same).1.symm
  | cons here hereComponent version next induction =>
      rw [entries, List.mem_cons, not_or] at absent
      rw [visitMapValue, if_pos]
      · exact induction absent.2
      · intro same
        rcases entryName_injective names same with ⟨rfl, rfl⟩
        exact absent.1 rfl

omit [UnitTypeId] in
theorem knows_entryName (names : Function.Injective (typeName : TypeId → String)) :
    self.Knows (entryName ty component) ↔ (ty, component) ∈ self.entries := by
  constructor
  · intro known
    rcases known with ⟨same, _⟩ | ⟨entry, member, same⟩
    · exact absurd same (entryName_ne_version ty component)
    · rcases entryName_injective names same with ⟨sameTy, sameComponent⟩
      rw [← sameTy, ← sameComponent]
      exact member
  · exact fun member => Or.inr ⟨_, member, rfl⟩

omit [UnitTypeId] in
theorem knows_version : self.Knows VERSION_KEY ↔ self.version.isSome = true := by
  constructor
  · intro known
    rcases known with ⟨_, versioned⟩ | ⟨entry, _, same⟩
    · exact versioned
    · exact absurd same (entryName_ne_version _ _)
  · exact fun versioned => Or.inl ⟨rfl, versioned⟩

end Chain

section Visit

variable {Version Value : Type} [UnitTypeId] [BuiltinValues Value] [TypeName] [VersionReq Version]
  {self : WorldPersister Version} {source w after : World Value} {types : Finset TypeId}

/-- No key is available while a value is unread. -/
theorem visitMap_pending {fuel : Nat} {content : Content Version Value}
    {rest : Entries Version Value} :
    self.visitMap fuel { pending := some content, rest } w ≠ some (.ok after) := by
  cases fuel with
  | zero => simp [visitMap]
  | succ fuel => simp [visitMap, MapAccess.nextKey]

section Round

variable {fuel : Nat} {rest : Entries Version Value} {component : TypeId}

/-- The entries up to an unknown key are the end of the visit. -/
theorem visitMap_unknown (names : Function.Injective (typeName : TypeId → String))
    {entry : String × Content Version Value} (saved : Saved source entry)
    (unknown : ¬self.Knows entry.1) :
    self.visitMap (fuel + 1) { pending := none, rest := entry :: rest } w =
      self.visitMap fuel { pending := some entry.2, rest } w := by
  cases saved with
  | version version =>
      have noVersion : self.version = none := by
        simpa [knows_version] using unknown
      simp [visitMap, MapAccess.nextKey, visitVersion, noVersion]
  | components component =>
      rw [knows_entryName names] at unknown
      simp [visitMap, MapAccess.nextKey, entryName_ne_version,
        visitMapValue_of_not_mem names (by decide) unknown]
  | resource found =>
      rw [knows_entryName names] at unknown
      simp [visitMap, MapAccess.nextKey, entryName_ne_version,
        visitMapValue_of_not_mem names (by decide) unknown]

theorem visitMap_version {expected version : Version} (versioned : self.version = some expected) :
    self.visitMap (fuel + 1)
      { pending := none, rest := (VERSION_KEY, .version version) :: rest } w =
      if VersionReq.accepts expected version then
        self.visitMap fuel { pending := none, rest } w
      else some (.error .VersionMismatch) := by
  simp only [visitMap, MapAccess.nextKey, visitVersion, versioned, MapAccess.nextValue,
    Content.asVersion, if_pos]
  cases VersionReq.accepts expected version <;> rfl

theorem visitMap_components (names : Function.Injective (typeName : TypeId → String))
    (registered : (SerTy.Component, component) ∈ self.entries)
    (values : List (EntityId × Value)) :
    self.visitMap (fuel + 1)
      { pending := none
        rest := (entryName .Component component, .components values) :: rest } w =
      (values.foldlM (loadComponent component) w).bind fun world =>
        self.visitMap fuel { pending := none, rest } world := by
  simp only [visitMap, MapAccess.nextKey, entryName_ne_version, if_false,
    visitMapValue_of_mem names registered, visitMapValueImpl, MapAccess.nextValue,
    Content.asComponents, Option.bind_eq_bind]
  cases values.foldlM (loadComponent component) w <;> rfl

theorem visitMap_resource (names : Function.Injective (typeName : TypeId → String))
    (registered : (SerTy.Resource, component) ∈ self.entries) (value : Value) :
    self.visitMap (fuel + 1)
      { pending := none
        rest := (entryName .Resource component, .resource value) :: rest } w =
      self.visitMap fuel { pending := none, rest } (w.insertResource component value) := by
  simp only [visitMap, MapAccess.nextKey, entryName_ne_version, if_false,
    visitMapValue_of_mem names registered, visitMapValueImpl, MapAccess.nextValue,
    Content.asResource]
  rfl

end Round

/-- A load that succeeds knew every key. -/
theorem knows_of_visitMap (names : Function.Injective (typeName : TypeId → String))
    {entries : Entries Version Value} (saved : ∀ entry ∈ entries, Saved source entry)
    {fuel : Nat}
    (visited : self.visitMap fuel { pending := none, rest := entries } w = some (.ok after)) :
    ∀ entry ∈ entries, self.Knows entry.1 := by
  induction entries generalizing fuel w with
  | nil => simp
  | cons entry rest induction =>
      cases fuel with
      | zero => simp [visitMap] at visited
      | succ fuel =>
          have savedEntry := saved entry List.mem_cons_self
          have known : self.Knows entry.1 := by
            by_contra unknown
            rw [visitMap_unknown names savedEntry unknown] at visited
            exact visitMap_pending visited
          obtain ⟨world, visitedRest⟩ : ∃ world,
              self.visitMap fuel { pending := none, rest } world = some (.ok after) := by
            cases savedEntry with
            | version version =>
                rcases Option.isSome_iff_exists.mp (knows_version.mp known) with
                  ⟨expected, versioned⟩
                rw [visitMap_version versioned] at visited
                split at visited
                · exact ⟨w, visited⟩
                · simp at visited
            | components component =>
                rw [visitMap_components names ((knows_entryName names).mp known)] at visited
                rcases Option.bind_eq_some_iff.mp visited with ⟨world, _, visitedRest⟩
                exact ⟨world, visitedRest⟩
            | resource found =>
                rw [visitMap_resource names ((knows_entryName names).mp known)] at visited
                exact ⟨_, visited⟩
          intro other member
          rcases List.mem_cons.mp member with rfl | member
          · exact known
          · exact induction (fun other member => saved other (List.mem_cons_of_mem _ member))
              visitedRest other member

/-- A world that has the components and resources of `source` of the given types, and else
the resources of a new world. -/
structure Visited (source : World Value) (types : Finset TypeId) (components resources : Set TypeId)
    (w : World Value) : Prop where
  rebuilding : ∃ done, Rebuilding source types done w ∧ ∀ id ty,
    (id, ty) ∈ done ↔ ty ∈ components ∧ id ∈ (componentValues source ty).map Prod.fst
  copied : ∀ ty ∈ resources, w.resources[ty]? = source.resources[ty]?
  others : ∀ ty, ty ∉ resources →
    w.resources[ty]? = (World.firstResources : BTreeMap TypeId Value)[ty]?

omit [TypeName] [VersionReq Version] in
theorem Visited.insertComponents {components resources : Set TypeId}
    (visited : Visited source types components resources w) (consistent : source.Consistent)
    (apart : HashesApart types) {component : TypeId} (registered : component ∈ types) :
    ∃ after, (componentValues source component).foldlM (loadComponent component) w =
        some after ∧ Visited source types (insert component components) resources after := by
  rcases visited.rebuilding with ⟨done, rebuilding, listed⟩
  have cells : ∀ entry ∈ componentValues source component,
      source.cells entry.1 component = some entry.2 := by
    intro entry member
    rcases (mem_componentValues consistent).mp member with ⟨_, row, viewed, cell⟩
    simp [World.cells, viewed, cell]
  rcases rebuilding.loadComponents consistent apart registered cells with
    ⟨after, doneAfter, loaded, rebuildingAfter, sameResources, listedAfter⟩
  refine ⟨after, loaded, ⟨doneAfter, rebuildingAfter, ?_⟩, ?_, ?_⟩
  · intro id ty
    rw [listedAfter, listed, Set.mem_insert_iff]
    constructor
    · intro either
      rcases either with before | ⟨rfl, member⟩
      · exact ⟨Or.inr before.1, before.2⟩
      · exact ⟨Or.inl rfl, member⟩
    · intro both
      rcases both with ⟨rfl | before, member⟩
      · exact Or.inr ⟨rfl, member⟩
      · exact Or.inl ⟨before, member⟩
  · rw [sameResources]
    exact visited.copied
  · rw [sameResources]
    exact visited.others

omit [TypeName] [VersionReq Version] in
theorem Visited.insertResource {components resources : Set TypeId}
    (visited : Visited source types components resources w) {resource : TypeId} {value : Value}
    (found : source.resources[resource]? = some value) :
    Visited source types components (insert resource resources)
      (w.insertResource resource value) := by
  rcases visited.rebuilding with ⟨done, rebuilding, listed⟩
  have same : Rebuilding source types done (w.insertResource resource value) :=
    { rebuilding with }
  refine ⟨⟨done, same, listed⟩, ?_, ?_⟩
  · intro ty member
    rw [World.insertResource, BTreeMap.getElem?_insert]
    by_cases here : resource = ty
    · rw [if_pos here, ← here, found]
    · rw [if_neg here]
      rcases Set.mem_insert_iff.mp member with this | before
      · exact absurd this.symm here
      · exact visited.copied ty before
  · intro ty absent
    rw [Set.mem_insert_iff, not_or] at absent
    rw [World.insertResource, BTreeMap.getElem?_insert, if_neg (Ne.symm absent.1)]
    exact visited.others ty absent.2

/-- A visit of known entries succeeds, and adds what the entries hold. -/
theorem visitMap_known (names : Function.Injective (typeName : TypeId → String))
    (consistent : source.Consistent) (apart : HashesApart types)
    {entries : Entries Version Value} (saved : ∀ entry ∈ entries, Saved source entry)
    (known : ∀ entry ∈ entries, self.Knows entry.1)
    (registered : ∀ component ∈ typesOf .Component entries, component ∈ types)
    (accepted : ∀ expected version, self.version = some expected →
      (VERSION_KEY, .version version) ∈ entries → VersionReq.accepts expected version = true)
    {components resources : Set TypeId} (visited : Visited source types components resources w)
    {fuel : Nat} (enough : entries.length < fuel) :
    ∃ after, self.visitMap fuel { pending := none, rest := entries } w = some (.ok after) ∧
      Visited source types (components ∪ typesOf .Component entries)
        (resources ∪ typesOf .Resource entries) after := by
  induction entries generalizing fuel w components resources with
  | nil =>
      cases fuel with
      | zero => simp at enough
      | succ fuel =>
          refine ⟨w, rfl, ?_⟩
          rw [typesOf_nil, typesOf_nil, Set.union_empty, Set.union_empty]
          exact visited
  | cons entry rest induction =>
      cases fuel with
      | zero => simp at enough
      | succ fuel =>
          have tail : ∀ {components resources : Set TypeId} {world : World Value},
              Visited source types components resources world →
              (∀ component ∈ typesOf .Component rest, component ∈ types) →
              ∃ after, self.visitMap fuel { pending := none, rest } world = some (.ok after) ∧
                Visited source types (components ∪ typesOf .Component rest)
                  (resources ∪ typesOf .Resource rest) after := fun visited registered =>
            induction (fun other member => saved other (List.mem_cons_of_mem _ member))
              (fun other member => known other (List.mem_cons_of_mem _ member)) registered
              (fun expected version versioned member =>
                accepted expected version versioned (List.mem_cons_of_mem _ member))
              visited (by simpa using enough)
          have knownEntry := known entry List.mem_cons_self
          cases saved entry List.mem_cons_self with
          | version version =>
              rcases Option.isSome_iff_exists.mp (knows_version.mp knownEntry) with
                ⟨expected, versioned⟩
              rw [visitMap_version versioned,
                if_pos (accepted expected version versioned List.mem_cons_self),
                typesOf_version, typesOf_version]
              rw [typesOf_version] at registered
              exact tail visited registered
          | components component =>
              have inChain := (knows_entryName names).mp knownEntry
              rw [typesOf_same names] at registered
              rcases visited.insertComponents consistent apart
                  (registered component (Set.mem_insert component _)) with
                ⟨middle, loaded, visitedMiddle⟩
              rw [visitMap_components names inChain, loaded, Option.bind_some,
                typesOf_same names, typesOf_other names (by decide), Set.union_insert,
                ← Set.insert_union]
              exact tail visitedMiddle fun other member =>
                registered other (Set.mem_insert_of_mem _ member)
          | resource found =>
              have inChain := (knows_entryName names).mp knownEntry
              rw [typesOf_other names (by decide)] at registered
              rw [visitMap_resource names inChain, typesOf_same names,
                typesOf_other names (by decide), Set.union_insert, ← Set.insert_union]
              exact tail (visited.insertResource found) registered

end Visit

end WorldPersister

end Cecs

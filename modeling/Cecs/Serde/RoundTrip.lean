import Cecs.Serde.Visit
import Cecs.World.Allocation

/-! # Loading what another persister saved

A load succeeds exactly when the persister knows every key of the payload. Then
the loaded world has the registered components of the entities that queries
walk, and the registered resources. -/

namespace Cecs

open Foundation

namespace WorldPersister

section Registered

variable {Version : Type}

/-- The types registered as components. -/
def components (self : WorldPersister Version) : Finset TypeId :=
  ((self.entries.filter fun entry => entry.1 = .Component).map Prod.snd).toFinset

/-- The types registered as resources. -/
def resources (self : WorldPersister Version) : Finset TypeId :=
  ((self.entries.filter fun entry => entry.1 = .Resource).map Prod.snd).toFinset

theorem mem_components {self : WorldPersister Version} {component : TypeId} :
    component ∈ self.components ↔ (SerTy.Component, component) ∈ self.entries := by
  simp [components]

theorem mem_resources {self : WorldPersister Version} {resource : TypeId} :
    resource ∈ self.resources ↔ (SerTy.Resource, resource) ∈ self.entries := by
  simp [resources]

/-- `with_resource` takes types that have `Serialize`, so not the pool of a new world. -/
def SkipsPool (self : WorldPersister Version) (Value : Type) [BuiltinValues Value] : Prop :=
  ∀ ty ∈ self.resources, (World.firstResources : BTreeMap TypeId Value)[ty]? = none

end Registered

end WorldPersister

namespace World

variable {Value : Type} [UnitTypeId] [BuiltinValues Value]

/-- The components of the given types, and the unit component. -/
def restrictedRow (types : Finset TypeId) (row : Row Value) : Row Value := fun ty =>
  if ty ∈ types ∧ (row ty).isSome = true then row ty else Row.marker ty

/-- The entities that have a component of the given types, with these components. -/
def restricted (w : World Value) (types : Finset TypeId) : EntityMap Value := fun id =>
  (w.view id).bind fun row =>
    if ∃ ty ∈ types, (row ty).isSome = true then some (restrictedRow types row) else none

end World

namespace WorldPersister

section Load

variable {Version Value : Type} [UnitTypeId] [BuiltinValues Value] [TypeName] [VersionReq Version]
  {P Q : WorldPersister Version} {w : World Value} {types : Finset TypeId}

omit [UnitTypeId] [BuiltinValues Value] [VersionReq Version] in
/-- A type has an entry if it is registered and the world has values of it. -/
theorem mem_typesOf_save (names : Function.Injective (typeName : TypeId → String))
    (consistent : w.Consistent) {ty : SerTy} {component : TypeId} :
    component ∈ typesOf ty (P.save w : Payload Version Value).entries ↔
      (ty, component) ∈ P.entries ∧ countsEntry w ty component = true := by
  constructor
  · intro found
    rcases found with ⟨content, member⟩
    simp only [save, List.mem_append, List.mem_map, Prod.mk.injEq] at member
    rcases member with ⟨_, _, same, _⟩ | written
    · exact absurd same.symm (entryName_ne_version ty component)
    · rcases mem_saveEntry.mp written with ⟨other, otherComponent, registered, here⟩
      have sameName := (saved_of_mem_saveImpl here).2.1
      rcases entryName_injective names sameName with ⟨rfl, rfl⟩
      refine ⟨registered, ?_⟩
      rw [← Bool.not_eq_false, ← saveImpl_eq_nil_iff consistent]
      exact List.ne_nil_of_mem here
  · intro both
    rcases both with ⟨registered, counted⟩
    have written : (saveImpl ty component w : Entries Version Value) ≠ [] := by
      rw [ne_eq, saveImpl_eq_nil_iff consistent, counted]
      decide
    rcases List.exists_mem_of_ne_nil _ written with ⟨⟨key, content⟩, here⟩
    have sameName : key = entryName ty component := (saved_of_mem_saveImpl here).2.1
    subst sameName
    refine ⟨content, ?_⟩
    simp only [save, List.mem_append]
    exact Or.inr (mem_saveEntry.mpr ⟨ty, component, registered, here⟩)

omit [UnitTypeId] [BuiltinValues Value] [VersionReq Version] in
/-- Which entries a persister has to know. -/
theorem knows_save_iff (names : Function.Injective (typeName : TypeId → String))
    (consistent : w.Consistent) :
    (∀ entry ∈ (P.save w : Payload Version Value).entries, Q.Knows entry.1) ↔
      (P.version.isSome = true → Q.version.isSome = true) ∧
      ∀ ty component, (ty, component) ∈ P.entries → countsEntry w ty component = true →
        (ty, component) ∈ Q.entries := by
  constructor
  · intro known
    constructor
    · intro versioned
      rcases Option.isSome_iff_exists.mp versioned with ⟨version, found⟩
      refine knows_version.mp (known (VERSION_KEY, .version version) ?_)
      simp [save, found]
    · intro ty component registered counted
      rcases (mem_typesOf_save names consistent).mpr ⟨registered, counted⟩ with
        ⟨content, member⟩
      exact (knows_entryName names).mp (known _ member)
  · intro conditions entry member
    simp only [save, List.mem_append, List.mem_map] at member
    rcases member with ⟨version, versioned, rfl⟩ | written
    · apply knows_version.mpr
      apply conditions.1
      simp only [Option.mem_toList] at versioned
      rw [versioned]
      rfl
    · rcases mem_saveEntry.mp written with ⟨ty, component, registered, here⟩
      have sameName := (saved_of_mem_saveImpl here).2.1
      rw [sameName, knows_entryName names]
      apply conditions.2 ty component registered
      rw [← Bool.not_eq_false, ← saveImpl_eq_nil_iff consistent]
      exact List.ne_nil_of_mem here

/-- The versions accept each other, where both have one. -/
def Accepts (Q P : WorldPersister Version) : Prop :=
  ∀ expected version, Q.version = some expected → P.version = some version →
    VersionReq.accepts expected version = true

/-- A payload with known keys is loaded completely. -/
theorem load_known (names : Function.Injective (typeName : TypeId → String))
    (consistent : w.Consistent) (apart : HashesApart types) (unit : unitTypeId ∈ types)
    (accepts : Q.Accepts P)
    (known : ∀ entry ∈ (P.save w : Payload Version Value).entries, Q.Knows entry.1)
    (registered : ∀ component ∈ P.components, countsEntry w .Component component = true →
      component ∈ types) :
    ∃ after, Q.load (P.save w) = some (.ok after) ∧
      Visited w types (typesOf .Component (P.save w : Payload Version Value).entries)
        (typesOf .Resource (P.save w : Payload Version Value).entries) after := by
  obtain ⟨start, created⟩ : ∃ start : World Value, World.new 0 = some start := ⟨_, rfl⟩
  rcases World.loading_new created unit with ⟨loading, viewed, noResources⟩
  have visitedStart : Visited w types ∅ ∅ start := by
    refine ⟨⟨[], { loading with viewed := ?_, live := ?_ }, ?_⟩, ?_, ?_⟩
    · rw [viewed]
      rfl
    · exact fun _ _ member => absurd member List.not_mem_nil
    · intro id ty
      simp
    · exact fun _ member => absurd member (Set.notMem_empty _)
    · intro ty _
      rw [noResources]
  have accepted : ∀ expected version, Q.version = some expected →
      (VERSION_KEY, Content.version version) ∈ (P.save w : Payload Version Value).entries →
      VersionReq.accepts expected version = true := by
    intro expected version versioned member
    simp only [save, List.mem_append, List.mem_map, Option.mem_toList] at member
    rcases member with ⟨saved, found, same⟩ | written
    · cases same
      exact accepts expected version versioned found
    · rcases mem_saveEntry.mp written with ⟨ty, component, _, here⟩
      have sameName := (saved_of_mem_saveImpl here).2.1
      exact absurd sameName.symm (entryName_ne_version ty component)
  rcases visitMap_known names consistent apart (fun entry member => saved_of_mem_save member)
      known (fun component member => by
        rcases (mem_typesOf_save names consistent).mp member with ⟨inChain, counted⟩
        exact registered component (mem_components.mpr inChain) counted)
      accepted visitedStart (Nat.lt_succ_self _) with
    ⟨after, visited, visitedAfter⟩
  rw [Set.empty_union, Set.empty_union] at visitedAfter
  exact ⟨after, by rw [load, created]; exact visited, visitedAfter⟩

omit [TypeName] [VersionReq Version] in
/-- The view of a loaded world: the components of the entities that were walked. -/
theorem Visited.view_eq {after : World Value} {components resources : Set TypeId}
    (visited : Visited w types components resources after) (consistent : w.Consistent)
    {loaded : Finset TypeId}
    (same : ∀ ty, (ty ∈ components ∧ componentValues w ty ≠ []) ↔
      ty ∈ loaded ∧ componentValues w ty ≠ []) (id : EntityId) :
    (w.Walks id → after.view id = w.restricted loaded id) ∧
      (¬w.Walks id → after.view id = none) := by
  rcases visited.rebuilding with ⟨done, rebuilding, listed⟩
  have cell : ∀ ty, (id, ty) ∈ done ↔
      ty ∈ loaded ∧ w.Walks id ∧ ∃ row, w.view id = some row ∧ (row ty).isSome = true := by
    intro ty
    have member : id ∈ (componentValues w ty).map Prod.fst ↔
        w.Walks id ∧ ∃ row, w.view id = some row ∧ (row ty).isSome = true := by
      simp only [List.mem_map, Prod.exists, exists_and_right, exists_eq_right,
        mem_componentValues consistent, Option.isSome_iff_exists]
      constructor
      · intro found
        rcases found with ⟨value, walks, row, viewed, present⟩
        exact ⟨walks, row, viewed, value, present⟩
      · intro found
        rcases found with ⟨walks, row, viewed, value, present⟩
        exact ⟨value, walks, row, viewed, present⟩
    rw [listed, member]
    constructor
    · intro both
      have values : componentValues w ty ≠ [] := by
        intro empty
        rw [empty] at member
        exact List.not_mem_nil (member.mpr both.2)
      exact ⟨((same ty).mp ⟨both.1, values⟩).1, both.2⟩
    · intro both
      have values : componentValues w ty ≠ [] := by
        intro empty
        rw [empty] at member
        exact List.not_mem_nil (member.mpr both.2)
      exact ⟨((same ty).mpr ⟨both.1, values⟩).1, both.2⟩
  rw [rebuilding.viewed, rebuilt]
  have any : id ∈ done.map Prod.fst ↔ ∃ ty, (id, ty) ∈ done := by simp
  constructor
  · intro walks
    rw [World.restricted]
    cases viewed : w.view id with
    | none =>
        rw [if_neg]
        · rfl
        · rw [any]
          simp [cell, viewed]
    | some row =>
        simp only [any, cell, walks, viewed, true_and, Option.some.injEq, exists_eq_left',
          Option.bind_some, World.cells]
        rfl
  · intro notWalks
    rw [if_neg]
    rw [any]
    simp [cell, notWalks]

/-- A load yields the components and resources registered in both persisters, besides what
every new world has. -/
def LoadsCommon (P Q : WorldPersister Version) (w : World Value) : Prop :=
  ∃ after, Q.load (P.save w) = some (.ok after) ∧
    after.view = w.restricted (P.components ∩ Q.components) ∧
    ∀ ty, after.resources[ty]? =
      if ty ∈ P.resources ∩ Q.resources then w.resources[ty]?
      else (World.firstResources : BTreeMap TypeId Value)[ty]?

omit [UnitTypeId] [BuiltinValues Value] [TypeName] [VersionReq Version] in
theorem countsEntry_iff (consistent : w.Consistent) (component : TypeId) :
    countsEntry w .Component component = true ↔ componentValues w component ≠ [] := by
  rw [countsEntry_component consistent, Bool.not_eq_true', ← Bool.not_eq_true,
    List.isEmpty_iff]

/-- What a load with known keys yields, in terms of the saved world. -/
theorem load_known_eq (names : Function.Injective (typeName : TypeId → String))
    (consistent : w.Consistent)
    (apart : HashesApart (insert unitTypeId (P.components ∩ Q.components)))
    (accepts : Q.Accepts P) (skips : P.SkipsPool Value)
    (known : ∀ ty component, (ty, component) ∈ P.entries →
      countsEntry w ty component = true → (ty, component) ∈ Q.entries)
    (versions : P.version.isSome = true → Q.version.isSome = true) :
    ∃ after, Q.load (P.save w) = some (.ok after) ∧ after.WellFormed ∧
      (∀ id, (w.Walks id → after.view id = w.restricted (P.components ∩ Q.components) id) ∧
        (¬w.Walks id → after.view id = none)) ∧
      ∀ ty, after.resources[ty]? =
        if ty ∈ P.resources ∩ Q.resources then w.resources[ty]?
        else (World.firstResources : BTreeMap TypeId Value)[ty]? := by
  have registered : ∀ component ∈ P.components, countsEntry w .Component component = true →
      component ∈ insert unitTypeId (P.components ∩ Q.components) := by
    intro component member counted
    have inQ := known .Component component (mem_components.mp member) counted
    exact Finset.mem_insert_of_mem (Finset.mem_inter.mpr ⟨member, mem_components.mpr inQ⟩)
  rcases load_known names consistent apart (Finset.mem_insert_self _ _) accepts
      ((knows_save_iff names consistent).mpr ⟨versions, known⟩) registered with
    ⟨after, loaded, visited⟩
  refine ⟨after, loaded, ?_, ?_, ?_⟩
  · rcases visited.rebuilding with ⟨_, rebuilding, _⟩
    exact rebuilding.toWellFormed
  · apply visited.view_eq consistent
    intro ty
    rw [mem_typesOf_save names consistent, Finset.mem_inter, mem_components, mem_components,
      ← countsEntry_iff consistent]
    constructor
    · intro both
      exact ⟨⟨both.1.1, known _ _ both.1.1 both.2⟩, both.2⟩
    · intro both
      exact ⟨⟨both.1.1, both.2⟩, both.2⟩
  · intro ty
    have written : ty ∈ typesOf .Resource (P.save w : Payload Version Value).entries ↔
        ty ∈ P.resources ∧ ∃ value, w.resources[ty]? = some value := by
      rw [mem_typesOf_save names consistent, mem_resources, countsEntry,
        BTreeMap.contains_eq_true]
    split
    · rename_i member
      rw [Finset.mem_inter] at member
      cases found : w.resources[ty]? with
      | none =>
          rw [← skips ty member.1]
          apply visited.others
          rw [written, found]
          simp
      | some value =>
          rw [← found]
          exact visited.copied ty (written.mpr ⟨member.1, value, found⟩)
    · rename_i notMember
      apply visited.others
      intro member
      apply notMember
      have counted := (mem_typesOf_save names consistent).mp member
      exact Finset.mem_inter.mpr ⟨mem_resources.mpr counted.1,
        mem_resources.mpr (known _ _ counted.1 counted.2)⟩

/-- A load that succeeds says which entries the loading persister knows. -/
theorem LoadsCommon.registered (loads : LoadsCommon P Q w) (consistent : w.Consistent)
    (names : Function.Injective (typeName : TypeId → String)) :
    (P.version.isSome = true → Q.version.isSome = true) ∧
      ∀ ty component, (ty, component) ∈ P.entries → countsEntry w ty component = true →
        (ty, component) ∈ Q.entries := by
  rcases loads with ⟨after, loaded, _⟩
  simp only [load, Option.bind_eq_bind, Option.bind_eq_some_iff] at loaded
  rcases loaded with ⟨start, _, visited⟩
  apply (knows_save_iff names consistent).mp
  exact knows_of_visitMap names (fun entry member => saved_of_mem_save member) visited

/-- Loading what another persister saved works exactly when the loading one knows
every entry, and when the entities with common components are walked. -/
theorem loadsCommon_iff (P Q : WorldPersister Version) (w : World Value)
    (consistent : w.Consistent) (names : Function.Injective (typeName : TypeId → String))
    (apart : HashesApart (insert unitTypeId (P.components ∩ Q.components)))
    (accepts : Q.Accepts P) (skips : P.SkipsPool Value) :
    LoadsCommon P Q w ↔
      (P.version.isSome = true → Q.version.isSome = true) ∧
      (∀ ty component, (ty, component) ∈ P.entries → countsEntry w ty component = true →
        (ty, component) ∈ Q.entries) ∧
      ∀ id row, w.view id = some row →
        (∃ ty ∈ P.components ∩ Q.components, (row ty).isSome = true) → w.Walks id := by
  constructor
  · intro loads
    rcases loads.registered consistent names with ⟨versions, registered⟩
    refine ⟨versions, registered, ?_⟩
    intro id row live common
    rcases load_known_eq names consistent apart accepts skips registered versions with
      ⟨other, loadedOther, _, views, _⟩
    rcases loads with ⟨after, loaded, viewed, _⟩
    rw [loaded, Option.some.injEq, Except.ok.injEq] at loadedOther
    subst loadedOther
    by_contra notWalks
    have gone := (views id).2 notWalks
    rw [viewed, World.restricted, live, Option.bind_some, if_pos common] at gone
    cases gone
  · intro conditions
    rcases conditions with ⟨versions, registered, walked⟩
    rcases load_known_eq names consistent apart accepts skips registered versions with
      ⟨after, loaded, _, views, resources⟩
    refine ⟨after, loaded, ?_, resources⟩
    funext id
    by_cases walks : w.Walks id
    · exact (views id).1 walks
    · rw [(views id).2 walks, World.restricted]
      cases live : w.view id with
      | none => rfl
      | some row =>
          rw [Option.bind_some, if_neg]
          exact fun common => walks (walked id row live common)

/-- A persister loads what it saved: the same ids with their registered components. -/
theorem load_save (P : WorldPersister Version) (w : World Value) (consistent : w.Consistent)
    (walked : ∀ id, w.isIdValid id = true → w.Walks id)
    (names : Function.Injective (typeName : TypeId → String))
    (apart : HashesApart (insert unitTypeId P.components)) (accepts : P.Accepts P)
    (skips : P.SkipsPool Value) :
    (P.save w : Payload Version Value).announced =
        (P.save w : Payload Version Value).entries.length ∧
      ∃ after, P.load (P.save w) = some (.ok after) ∧
        (∀ id, after.isIdValid id = true ↔ w.isIdValid id = true ∧
          ∃ ty ∈ P.components, (w.getComponent id ty).isSome = true) ∧
        (∀ id, after.isIdValid id = true → ∀ ty, after.getComponent id ty =
          if ty ∈ P.components ∧ (w.getComponent id ty).isSome = true then
            w.getComponent id ty
          else Row.marker ty) ∧
        (∀ ty, after.resources[ty]? =
          if ty ∈ P.resources then w.resources[ty]?
          else (World.firstResources : BTreeMap TypeId Value)[ty]?) ∧
        ∀ ids later, after.Allocates ids later → ∀ id ∈ ids, ¬after.isIdValid id = true := by
  have both : P.components ∩ P.components = P.components := Finset.inter_self _
  refine ⟨announced_save consistent P, ?_⟩
  rcases load_known_eq names consistent (both.symm ▸ apart) accepts
      skips (fun _ _ member _ => member) id with
    ⟨after, loaded, wf, views, resources⟩
  have viewed : ∀ id, after.view id = w.restricted P.components id := by
    intro id
    rw [both] at views
    by_cases walks : w.Walks id
    · exact (views id).1 walks
    · rw [(views id).2 walks, World.restricted]
      cases live : w.view id with
      | none => rfl
      | some row =>
          have valid : w.isIdValid id = true := by
            rw [World.isIdValid_iff consistent, live]
            simp
          exact absurd (walked id valid) walks
  refine ⟨after, loaded, ?_, ?_, ?_, ?_⟩
  · intro id
    rw [World.isIdValid_iff wf.toConsistent, World.isIdValid_iff consistent, viewed,
      World.restricted]
    simp only [consistent.getComponent_eq, World.cells]
    cases w.view id with
    | none => simp
    | some row => simp [Option.isSome_iff_ne_none]
  · intro id valid ty
    rw [World.isIdValid_iff wf.toConsistent, viewed, World.restricted] at valid
    rw [wf.toConsistent.getComponent_eq, World.cells, viewed, World.restricted]
    simp only [consistent.getComponent_eq, World.cells]
    cases live : w.view id with
    | none => simp [live] at valid
    | some row =>
        simp only [live, Option.bind_some] at valid ⊢
        split at valid
        · rename_i registered
          rw [if_pos registered]
          rfl
        · exact absurd rfl valid
  · intro ty
    rw [resources, Finset.inter_self]
  · intro ids later allocates id member valid
    rw [World.isIdValid_iff wf.toConsistent] at valid
    exact valid (allocates.fresh wf id member)

end Load

open Sample

/-- The value of an entry that nobody registered stays unread. -/
theorem load_unknownComponent :
    ∃ w : World Nat, w.WellFormed ∧
      (new : WorldPersister Nat).Accepts (new.withComponent 7#128) ∧
      ¬LoadsCommon (new.withComponent 7#128 : WorldPersister Nat) new w := by
  obtain ⟨first, w, created, ran, counted⟩ : ∃ first w : World Nat, World.new 1 = some first ∧
      first.runOperations [.insertEntity, .setBundle (EntityId.new 0 0) [(7#128, 5)]] = some w ∧
      countsEntry w .Component 7#128 = true := ⟨_, _, rfl, rfl, rfl⟩
  have wf := World.runOperations_wellFormed (World.new_spec created).1 ran
  refine ⟨w, wf, ?_, ?_⟩
  · intro expected version versioned
    cases versioned
  · intro loads
    have registered := (loads.registered wf.toConsistent typeName_injective).2
    exact List.not_mem_nil (registered .Component 7#128 List.mem_cons_self counted)

/-- Three entities in three tables, and a resource. -/
def savedWorld : Option (World Nat) := do
  let first ← World.new 2
  let w ← first.runOperations [.insertEntity, .insertEntity, .insertEntity,
    .setBundle (EntityId.new 0 0) [(7#128, 5)],
    .setBundle (EntityId.new 1 0) [(7#128, 6), (8#128, 3)]]
  return w.insertResource 9#128 4

theorem savedWorld_spec {w : World Nat} (built : savedWorld = some w) :
    w.Consistent ∧ ((∀ key : TypeHash, w.archetypesStaging[key]? = none) →
      ∀ id, w.isIdValid id = true → w.Walks id) := by
  simp only [savedWorld, Option.bind_eq_bind, Option.bind_eq_some_iff, Option.pure_def,
    Option.some.injEq] at built
  rcases built with ⟨first, created, before, ran, rfl⟩
  have wf := World.runOperations_wellFormed (World.new_spec created).1 ran
  have wfAfter : (before.insertResource 9#128 4).WellFormed := { wf with }
  refine ⟨wfAfter.toConsistent, fun unparked id valid => ?_⟩
  rcases EntityIndex.isValid_iff_place.mp valid with ⟨spot, placed⟩
  exact wfAfter.walks unparked placed

/-- Two component types and a resource. -/
def twoComponents : WorldPersister Nat :=
  ((new.withComponent 7#128).withResource 9#128).withComponent 8#128

/-- The same types in another order, and one more. -/
def threeComponents : WorldPersister Nat :=
  (((new.withComponent 6#128).withComponent 8#128).withComponent 7#128).withResource 9#128

theorem twoComponents_skipsPool : twoComponents.SkipsPool Nat := by
  intro ty member
  have only : twoComponents.resources = {9#128} := by decide
  rw [only, Finset.mem_singleton] at member
  rw [member]
  rfl

theorem loadsCommon_iff_sample :
    ∃ w : World Nat, savedWorld = some w ∧ LoadsCommon twoComponents threeComponents w := by
  obtain ⟨w, built, unparked⟩ : ∃ w : World Nat, savedWorld = some w ∧
      w.archetypesStaging = ∅ := ⟨_, rfl, rfl⟩
  rcases savedWorld_spec built with ⟨consistent, walks⟩
  refine ⟨w, built, ?_⟩
  have known : ∀ entry ∈ twoComponents.entries, entry ∈ threeComponents.entries := by decide
  rw [loadsCommon_iff _ _ w consistent typeName_injective (by decide)
    (fun _ _ versioned => by cases versioned) twoComponents_skipsPool]
  refine ⟨by decide, fun ty component member _ => known _ member, ?_⟩
  · intro id row live _
    refine walks ?_ id ((World.isIdValid_iff consistent).mpr (by rw [live]; simp))
    intro key
    rw [unparked]
    rfl

theorem load_save_sample :
    ∃ w after : World Nat, savedWorld = some w ∧
      twoComponents.load (twoComponents.save w) = some (.ok after) ∧
      after.getComponent (EntityId.new 0 0) 7#128 = some 5 ∧
      after.getComponent (EntityId.new 1 0) 8#128 = some 3 ∧
      after.isIdValid (EntityId.new 2 0) = false ∧ after.resources[9#128]? = some 4 := by
  obtain ⟨w, built, unparked, valid, values, bare, resource⟩ : ∃ w : World Nat,
      savedWorld = some w ∧ w.archetypesStaging = ∅ ∧
      (w.isIdValid (EntityId.new 0 0) = true ∧ w.isIdValid (EntityId.new 1 0) = true) ∧
      (w.getComponent (EntityId.new 0 0) 7#128 = some 5 ∧
        w.getComponent (EntityId.new 1 0) 8#128 = some 3) ∧
      (w.getComponent (EntityId.new 2 0) 7#128 = none ∧
        w.getComponent (EntityId.new 2 0) 8#128 = none) ∧
      w.resources[9#128]? = some 4 :=
    ⟨_, rfl, rfl, ⟨rfl, rfl⟩, ⟨rfl, rfl⟩, ⟨rfl, rfl⟩, rfl⟩
  rcases savedWorld_spec built with ⟨consistent, walks⟩
  have walked := walks fun key => by rw [unparked]; rfl
  rcases (load_save twoComponents w consistent walked typeName_injective (by decide)
      (fun _ _ versioned => by cases versioned) twoComponents_skipsPool).2 with
    ⟨after, loaded, ids, cells, resources, _⟩
  have validFirst := (ids (EntityId.new 0 0)).mpr
    ⟨valid.1, 7#128, by decide, by rw [values.1]; rfl⟩
  have validSecond := (ids (EntityId.new 1 0)).mpr
    ⟨valid.2, 8#128, by decide, by rw [values.2]; rfl⟩
  refine ⟨w, after, built, loaded, ?_, ?_, ?_, ?_⟩
  · rw [cells _ validFirst, if_pos ⟨by decide, by rw [values.1]; rfl⟩, values.1]
  · rw [cells _ validSecond, if_pos ⟨by decide, by rw [values.2]; rfl⟩, values.2]
  · rw [Bool.eq_false_iff, ne_eq, ids]
    rintro ⟨_, ty, member, present⟩
    have types : twoComponents.components = {7#128, 8#128} := by decide
    rw [types, Finset.mem_insert, Finset.mem_singleton] at member
    rcases member with rfl | rfl
    · rw [bare.1] at present
      cases present
    · rw [bare.2] at present
      cases present
  · rw [resources, if_pos (by decide), resource]

end WorldPersister

end Cecs

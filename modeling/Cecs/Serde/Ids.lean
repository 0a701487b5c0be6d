import Cecs.Calls.Accounted
import Cecs.Serde.RoundTrip

/-! # The ids of a payload

A load takes the ids of a payload as they are and unwraps what `insert_id`
answers, so whether it returns depends on the ids that it reads. -/

namespace Cecs

open Foundation

/-- Each id has a slot that an index can have, and no slot has two ids. -/
structure FitTogether (ids : List EntityId) : Prop where
  below : ∀ id ∈ ids, id.index + 1 < ENTITY_INDEX_MASK
  apart : ∀ left ∈ ids, ∀ right ∈ ids, left.index = right.index → left = right

theorem FitTogether.sublist {ids others : List EntityId} (fit : FitTogether ids)
    (subset : others ⊆ ids) : FitTogether others where
  below id member := fit.below id (subset member)
  apart left memberLeft right memberRight :=
    fit.apart left (subset memberLeft) right (subset memberRight)

namespace EntityIndex

variable {index result : EntityIndex} {id other : EntityId}

theorem isValid_update_of_isValid {ptr : Ptr} {row : Nat} (valid : index.isValid id = true)
    (updated : index.update other ptr row = some result) : result.isValid id = true := by
  simp only [update, Option.bind_eq_bind, Option.bind_eq_some_iff, Option.guard_eq_some',
    Option.pure_def, Option.some.injEq, exists_const] at updated
  rcases updated with ⟨entry, found, current, rfl⟩
  let after : Entry := { entry with arch := some ptr, rowIndex := row }
  have places := @place_set_current index other entry after found current.symm rfl
  rw [isValid_iff_place] at valid ⊢
  rw [places, Function.update_apply]
  split
  · exact ⟨(ptr, row), rfl⟩
  · exact valid

theorem isValid_updateMoved {moved : Option EntityId} {row : Nat}
    (valid : index.isValid id = true) (updated : index.updateMoved moved row = some result) :
    result.isValid id = true := by
  cases moved with
  | none =>
      cases updated
      exact valid
  | some other => exact isValid_updateRowIndex valid updated

end EntityIndex

namespace World

variable {Value : Type} {w after : World Value} {id other : EntityId}

theorem insertArchetype_isIdValid {src ptr : Ptr} {index : Nat} {table : EntityTable Value}
    (valid : w.isIdValid id = true)
    (inserted : w.insertArchetype src index table = some (ptr, after)) :
    after.isIdValid id = true := by
  simp only [insertArchetype, Option.bind_eq_bind, Option.bind_eq_some_iff] at inserted
  rcases inserted with ⟨⟨row, moved, shifted⟩, move, rest⟩
  simp only [Option.guard_eq_some', exists_const, Option.pure_def, Option.some.injEq,
    Prod.mk.injEq] at rest
  rcases rest with ⟨_, _, entityIds, updated, _, rfl⟩
  apply EntityIndex.isValid_updateMoved _ updated
  rcases moveEntity_shifts move with ⟨_, _, sameIndex⟩
  change shifted.entityIds.isValid id = true
  rw [sameIndex]
  exact valid

variable [UnitTypeId]

theorem placeForBundle_isIdValid {src dst : Ptr} {index row : Nat} {bundle : Bundle Value}
    (valid : w.isIdValid id = true)
    (place : w.placeForBundle src index bundle = some (after, dst, row)) :
    after.isIdValid id = true := by
  simp only [placeForBundle, Option.bind_eq_bind, Option.bind_eq_some_iff] at place
  rcases place with ⟨table, found, place⟩
  split at place
  · cases place
    exact valid
  · split at place
    · simp only [Option.bind_eq_some_iff, Option.pure_def, Option.some.injEq,
        Prod.mk.injEq] at place
      rcases place with ⟨⟨_, moved, shifted⟩, move, entityIds, updated, rfl, rfl, rfl⟩
      apply EntityIndex.isValid_updateMoved _ updated
      rcases moveEntity_shifts move with ⟨_, _, sameIndex⟩
      rw [sameIndex]
      exact valid
    · simp only [Option.bind_eq_some_iff, Option.guard_eq_some', Option.pure_def,
        Option.some.injEq, Prod.mk.injEq, exists_const] at place
      rcases place with ⟨_, ⟨ptr, inserted⟩, insertion, rfl, rfl, rfl⟩
      exact insertArchetype_isIdValid valid insertion

/-- Setting components invalidates no id, whatever the hashes of the tables. -/
theorem setBundle_isIdValid {bundle : Bundle Value} {result : WorldResult Unit}
    (valid : w.isIdValid id = true) (set : w.setBundle other bundle = some (result, after)) :
    after.isIdValid id = true := by
  rw [setBundle] at set
  split at set
  · cases set
    exact valid
  · simp only [Option.bind_eq_bind, Option.bind_eq_some_iff, Option.pure_def, Option.some.injEq,
      Prod.mk.injEq] at set
    rcases set with ⟨⟨placed, ptr, row⟩, place, _, _, _, _, entityIds, updated, _, rfl⟩
    exact EntityIndex.isValid_update_of_isValid (placeForBundle_isIdValid valid place) updated

variable [BuiltinValues Value]

theorem initId_isIdValid (valid : w.isIdValid id = true)
    (init : w.initId other = some after) : after.isIdValid id = true := by
  rcases initId_eq_some_iff.mp init with ⟨_, _, _, _, _, entityIds, _, _, _, _, updated, rfl⟩
  exact EntityIndex.isValid_update_of_isValid valid updated

/-- The ids that were loaded so far have slots of their own. -/
structure Occupied (seen : List EntityId) (w : World Value) : Prop extends Unparked w where
  accounted : w.Accounted ∅
  valid : ∀ id ∈ seen, w.isIdValid id = true

variable {seen : List EntityId}

omit [UnitTypeId] [BuiltinValues Value] in
theorem Occupied.fitTogether (occupied : w.Occupied seen) : FitTogether seen := by
  rcases occupied.accounted.index.sound with ⟨slots, sound⟩
  have placed : ∀ id ∈ seen, ∃ spot, w.entityIds.place id = some spot := fun id member =>
    EntityIndex.isValid_iff_place.mp (occupied.valid id member)
  constructor
  · intro id member
    rcases placed id member with ⟨spot, place⟩
    exact sound.slot_lt place
  · intro left memberLeft right memberRight sameIndex
    rcases placed left memberLeft with ⟨spot, place⟩
    rcases placed right memberRight with ⟨spotRight, placeRight⟩
    exact EntityIndex.eq_of_placed place placeRight sameIndex

omit [BuiltinValues Value] in
/-- The entity that a component was set on is one more. -/
theorem Occupied.setComponent (occupied : w.Occupied seen) {component : TypeId} {value : Value}
    (set : w.setComponent id component value = some (.ok (), after)) :
    after.Occupied (id :: seen) where
  toUnparked := occupied.toUnparked.setBundle set
  accounted := occupied.accounted.setBundle occupied.toHoused.tables_nextTable set
  valid := by
    intro other member
    rcases List.mem_cons.mp member with rfl | member
    · rw [World.setComponent, setBundle] at set
      split at set
      · cases set
      · simp only [Option.bind_eq_bind, Option.bind_eq_some_iff, Option.pure_def,
          Option.some.injEq, Prod.mk.injEq] at set
        rcases set with ⟨_, _, _, _, _, _, entityIds, updated, _, rfl⟩
        exact EntityIndex.isValid_update updated
    · exact setBundle_isIdValid (occupied.valid other member) set

theorem Occupied.insertId (occupied : w.Occupied seen)
    (inserted : w.insertId id = some (.ok (), after)) : after.Occupied seen where
  toUnparked := occupied.toUnparked.evolves (insertId_evolves inserted)
  accounted := (occupied.accounted.insertId inserted).1
  valid := by
    intro other member
    rcases insertId_eq_some_iff.mp inserted with ⟨entityIds, insertion, init⟩
    apply initId_isIdValid _ init
    change entityIds.isValid other = true
    rw [EntityIndex.isValid_iff_place, (occupied.accounted.index.insertId insertion).1,
      ← EntityIndex.isValid_iff_place]
    exact occupied.valid other member

omit [UnitTypeId] [BuiltinValues Value] in
theorem Occupied.insertResource (occupied : w.Occupied seen) (resource : TypeId) (value : Value) :
    (w.insertResource resource value).Occupied seen :=
  { occupied with accounted := occupied.accounted.congr rfl rfl }

end World

namespace WorldPersister

variable {Version Value : Type}

section Reading

variable [TypeName] [VersionReq Version]

/-- What a visit does with an entry. -/
inductive Reading (Value : Type) where
  | version
  | components (component : TypeId) (values : List (EntityId × Value))
  | resource (resource : TypeId) (value : Value)
  /-- The visit fails here, or at the next key because the value was not read. -/
  | last

/-- The first registered type that the entry has the name of. -/
def registration (self : WorldPersister Version) (key : String) : Option (SerTy × TypeId) :=
  self.entries.find? fun entry => entryName entry.1 entry.2 = key

def reading (self : WorldPersister Version) (entry : String × Content Version Value) :
    Reading Value :=
  if entry.1 = VERSION_KEY then
    match self.version, entry.2 with
    | some expected, .version version =>
        if VersionReq.accepts expected version then .version else .last
    | _, _ => .last
  else
    match self.registration entry.1, entry.2 with
    | some (.Component, component), .components values => .components component values
    | some (.Resource, resource), .resource value => .resource resource value
    | _, _ => .last

/-- The ids of the component values that a visit reads before it ends. -/
def readIds (self : WorldPersister Version) : Entries Version Value → List EntityId
  | [] => []
  | entry :: rest =>
      match self.reading entry with
      | .version => self.readIds rest
      | .components _ values => values.map Prod.fst ++ self.readIds rest
      | .resource _ _ => self.readIds rest
      | .last => []

end Reading

section Round

variable [UnitTypeId] [BuiltinValues Value] [TypeName] {self : WorldPersister Version}
  {w : World Value} {fuel : Nat} {rest : Entries Version Value}

theorem visitMapValue_eq (key : String) (map : MapAccess Version Value) (world : World Value) :
    self.visitMapValue key map world =
      match self.registration key with
      | some (ty, component) => visitMapValueImpl ty component map world
      | none => some (.ok (map, world)) := by
  induction self with
  | nil version =>
      rw [visitMapValue]
      split <;> rfl
  | cons ty component version next induction =>
      rw [visitMapValue, registration, entries, List.find?_cons]
      by_cases same : entryName ty component = key
      · simp [same]
      · rw [if_pos same, induction]
        simp [same, registration]

variable [VersionReq Version]

section Entry

variable {entry : String × Content Version Value}

theorem visitMap_of_version (read : self.reading entry = .version) :
    self.visitMap (fuel + 1) { pending := none, rest := entry :: rest } w =
      self.visitMap fuel { pending := none, rest } w := by
  rcases entry with ⟨key, content⟩
  rw [reading] at read
  split at read
  · rename_i same
    split at read
    · rename_i expected version versioned isVersion
      dsimp only at same isVersion
      subst same isVersion
      split at read
      · rename_i accepted
        rw [visitMap_version versioned, if_pos accepted]
      · cases read
    · cases read
  · split at read <;> cases read

omit [UnitTypeId] [BuiltinValues Value] in
theorem registered_of_components {component : TypeId} {values : List (EntityId × Value)}
    (read : self.reading entry = .components component values) :
    (SerTy.Component, component) ∈ self.entries := by
  rcases entry with ⟨key, content⟩
  rw [reading] at read
  split at read
  · split at read
    · split at read <;> cases read
    · cases read
  · split at read
    · rename_i found _
      cases read
      exact List.mem_of_find?_eq_some found
    · cases read
    · cases read

theorem visitMap_of_components {component : TypeId} {values : List (EntityId × Value)}
    (read : self.reading entry = .components component values) :
    self.visitMap (fuel + 1) { pending := none, rest := entry :: rest } w =
      (values.foldlM (loadComponent component) w).bind
        (self.visitMap fuel { pending := none, rest }) := by
  rcases entry with ⟨key, content⟩
  rw [reading] at read
  split at read
  · split at read
    · split at read <;> cases read
    · cases read
  · rename_i other
    split at read
    · rename_i found isComponents
      dsimp only at other found isComponents
      subst isComponents
      cases read
      simp only [visitMap, MapAccess.nextKey, if_neg other, visitMapValue_eq, found,
        visitMapValueImpl, MapAccess.nextValue, Content.asComponents, Option.bind_eq_bind]
      cases values.foldlM (loadComponent component) w <;> rfl
    · cases read
    · cases read

theorem visitMap_of_resource {resource : TypeId} {value : Value}
    (read : self.reading entry = .resource resource value) :
    self.visitMap (fuel + 1) { pending := none, rest := entry :: rest } w =
      self.visitMap fuel { pending := none, rest } (w.insertResource resource value) := by
  rcases entry with ⟨key, content⟩
  rw [reading] at read
  split at read
  · split at read
    · split at read <;> cases read
    · cases read
  · rename_i other
    split at read
    · cases read
    · rename_i found isResource
      dsimp only at other found isResource
      subst isResource
      cases read
      simp only [visitMap, MapAccess.nextKey, if_neg other, visitMapValue_eq, found,
        visitMapValueImpl, MapAccess.nextValue, Content.asResource]
      rfl
    · cases read

/-- A failed visit is an error, and so is the key after an unread value. -/
theorem visitMap_of_last (read : self.reading entry = .last) :
    (self.visitMap (fuel + 2) { pending := none, rest := entry :: rest } w).isSome = true := by
  rcases entry with ⟨key, content⟩
  rw [reading] at read
  split at read
  · rename_i same
    dsimp only at same
    subst same
    cases versioned : self.version with
    | none => simp [visitMap, MapAccess.nextKey, visitVersion, versioned]
    | some expected =>
        cases content with
        | version version =>
            simp only [versioned] at read
            split at read
            · cases read
            · rename_i refused
              rw [visitMap_version versioned, if_neg refused]
              rfl
        | components values =>
            simp [visitMap, MapAccess.nextKey, visitVersion, versioned, MapAccess.nextValue,
              Content.asVersion]
        | resource value =>
            simp [visitMap, MapAccess.nextKey, visitVersion, versioned, MapAccess.nextValue,
              Content.asVersion]
  · rename_i other
    dsimp only at other read
    rw [visitMap]
    simp only [MapAccess.nextKey, if_neg other, visitMapValue_eq]
    cases found : self.registration key with
    | none => simp [visitMap, MapAccess.nextKey]
    | some registered =>
        rcases registered with ⟨_ | _ | _, ty⟩
        · cases content <;> simp [found] at read <;>
            simp [visitMapValueImpl, MapAccess.nextValue, Content.asComponents]
        · cases content <;> simp [found] at read <;>
            simp [visitMapValueImpl, MapAccess.nextValue, Content.asResource]
        · simp [visitMapValueImpl, visitMap, MapAccess.nextKey]

end Entry

end Round

section Returns

variable [UnitTypeId] [BuiltinValues Value] {w after : World Value} {seen : List EntityId}
  {component : TypeId}

theorem loadComponent_occupied {entry : EntityId × Value} (occupied : w.Occupied seen)
    (loaded : loadComponent component w entry = some after) :
    after.Occupied (entry.1 :: seen) := by
  rcases loadComponent_cases loaded with ⟨middle, rfl | inserted, set⟩
  · exact occupied.setComponent set
  · exact (occupied.insertId inserted).setComponent set

theorem loadComponents_occupied {values : List (EntityId × Value)} (occupied : w.Occupied seen)
    (loaded : values.foldlM (loadComponent component) w = some after) :
    after.Occupied (values.map Prod.fst ++ seen) := by
  induction values generalizing w seen with
  | nil =>
      cases loaded
      exact occupied
  | cons entry values induction =>
      rw [List.foldlM_cons] at loaded
      rcases Option.bind_eq_some_iff.mp loaded with ⟨next, first, rest⟩
      have both := induction (loadComponent_occupied occupied first) rest
      exact { both with
        valid := fun id member => both.valid id (by
          simp only [List.map_cons, List.mem_append, List.mem_cons] at member ⊢
          tauto) }

variable [TypeName] [VersionReq Version] {self : WorldPersister Version}

/-- A visit that does not panic has read ids that fit together. -/
theorem fitTogether_of_visitMap {entries : Entries Version Value} (occupied : w.Occupied seen)
    {fuel : Nat}
    (returned : (self.visitMap fuel { pending := none, rest := entries } w).isSome = true) :
    FitTogether (seen ++ self.readIds entries) := by
  induction entries generalizing fuel w seen with
  | nil =>
      rw [readIds, List.append_nil]
      exact occupied.fitTogether
  | cons entry rest induction =>
      cases fuel with
      | zero => cases returned
      | succ fuel =>
          rw [readIds]
          cases read : self.reading entry with
          | version =>
              rw [visitMap_of_version read] at returned
              exact induction occupied returned
          | components component values =>
              rw [visitMap_of_components read] at returned
              cases loaded : values.foldlM (loadComponent component) w with
              | none => simp [loaded] at returned
              | some next =>
                  rw [loaded, Option.bind_some] at returned
                  apply (induction (loadComponents_occupied occupied loaded) returned).sublist
                  intro id member
                  simp only [List.mem_append] at member ⊢
                  tauto
          | resource resource value =>
              rw [visitMap_of_resource read] at returned
              exact induction (occupied.insertResource resource value) returned
          | last =>
              rw [List.append_nil]
              exact occupied.fitTogether

/-- A world being loaded whose entities are among those seen. -/
structure Filling (types : Finset TypeId) (seen : List EntityId) (w : World Value) : Prop
    extends w.Loading types where
  among : ∀ id, w.view id ≠ none → id ∈ seen

omit [TypeName] [VersionReq Version] in
theorem Filling.loadComponents {types : Finset TypeId} {values : List (EntityId × Value)}
    (filling : Filling types seen w) (apart : HashesApart types) (registered : component ∈ types)
    (fit : FitTogether (seen ++ values.map Prod.fst)) :
    ∃ after, values.foldlM (loadComponent component) w = some after ∧
      Filling types (seen ++ values.map Prod.fst) after := by
  induction values generalizing w seen with
  | nil =>
      rw [List.map_nil, List.append_nil]
      exact ⟨w, rfl, filling⟩
  | cons entry values induction =>
      rcases entry with ⟨id, value⟩
      have listed : id ∈ seen ++ ((id, value) :: values).map Prod.fst := by simp
      have alone : w.Alone id := fun other live sameIndex =>
        fit.apart other (List.mem_append_left _ (filling.among other live)) id listed sameIndex
      rcases filling.toLoading.loadComponent apart registered alone (fit.below id listed) value with
        ⟨next, first, loading, viewed, _⟩
      have fillingNext : Filling types (seen ++ [id]) next := { loading with
        among := by
          intro other live
          rw [viewed, Function.update_apply] at live
          split at live
          · rename_i same
            simp [same]
          · exact List.mem_append_left _ (filling.among other live) }
      rw [List.map_cons, List.append_cons] at fit ⊢
      rcases induction fillingNext fit with ⟨after, rest, fillingAfter⟩
      refine ⟨after, ?_, fillingAfter⟩
      rw [List.foldlM_cons, first]
      exact rest

omit [BuiltinValues Value] [TypeName] [VersionReq Version] in
theorem Filling.insertResource {types : Finset TypeId} (filling : Filling types seen w)
    (resource : TypeId) (value : Value) : Filling types seen (w.insertResource resource value) :=
  { filling with }

/-- A visit that reads ids that fit together does not panic. -/
theorem visitMap_of_fitTogether (apart : HashesApart (insert unitTypeId self.components))
    {entries : Entries Version Value}
    (filling : Filling (insert unitTypeId self.components) seen w)
    (fit : FitTogether (seen ++ self.readIds entries)) {fuel : Nat}
    (enough : entries.length < fuel) :
    (self.visitMap fuel { pending := none, rest := entries } w).isSome = true := by
  induction entries generalizing fuel w seen with
  | nil =>
      cases fuel with
      | zero => simp at enough
      | succ fuel => rfl
  | cons entry rest induction =>
      cases fuel with
      | zero => simp at enough
      | succ fuel =>
          have enoughRest : rest.length < fuel := by simpa using enough
          rw [readIds] at fit
          cases read : self.reading entry with
          | version =>
              rw [read] at fit
              rw [visitMap_of_version read]
              exact induction filling fit enoughRest
          | components component values =>
              rw [read, ← List.append_assoc] at fit
              have registered := registered_of_components read
              have inTypes : component ∈ insert unitTypeId self.components :=
                Finset.mem_insert_of_mem (mem_components.mpr registered)
              rcases filling.loadComponents apart inTypes
                  (fit.sublist (List.subset_append_left _ _)) with ⟨next, loaded, fillingNext⟩
              rw [visitMap_of_components read, loaded]
              exact induction fillingNext fit enoughRest
          | resource resource value =>
              rw [read] at fit
              rw [visitMap_of_resource read]
              exact induction (filling.insertResource resource value) fit enoughRest
          | last =>
              rcases Nat.exists_eq_succ_of_ne_zero (Nat.ne_zero_of_lt enoughRest) with ⟨more, rfl⟩
              exact visitMap_of_last read

/-- A load that returns has read ids that fit together, and when the hashes of sets of
registered types are apart, a load that reads such ids returns. -/
theorem load_returns_iff (P : WorldPersister Version) (payload : Payload Version Value) :
    ((P.load payload).isSome = true → FitTogether (P.readIds payload.entries)) ∧
      (HashesApart (insert unitTypeId P.components) →
        ((P.load payload).isSome = true ↔ FitTogether (P.readIds payload.entries))) := by
  obtain ⟨start, created⟩ : ∃ start : World Value, World.new 0 = some start := ⟨_, rfl⟩
  have load : P.load payload = P.visitMap (payload.entries.length + 1)
      { pending := none, rest := payload.entries } start := by
    rw [WorldPersister.load, created]
    rfl
  have occupied : start.Occupied [] :=
    { World.unparked_new created with
      accounted := World.accounted_new created
      valid := List.forall_mem_nil _ }
  have reads : (P.load payload).isSome = true → FitTogether (P.readIds payload.entries) := by
    intro returned
    rw [load] at returned
    exact fitTogether_of_visitMap occupied returned
  refine ⟨reads, fun apart => ⟨reads, fun fit => ?_⟩⟩
  rcases World.loading_new created (Finset.mem_insert_self unitTypeId P.components) with
    ⟨loading, viewed, _⟩
  have filling : Filling (insert unitTypeId P.components) [] start := { loading with
    among := fun id live => absurd (congrFun viewed id) live }
  rw [load]
  exact visitMap_of_fitTogether apart filling fit (Nat.lt_succ_self _)

end Returns

section Examples

open Sample

/-- One entry of a registered component type. -/
def numbers (values : List (EntityId × Nat)) : Payload Nat Nat :=
  { announced := 1, entries := [(entryName .Component 7#128, .components values)] }

theorem load_sharedSlot :
    ((new.withComponent 7#128).load
        (numbers [(EntityId.new 0 0, 5), (EntityId.new 0 1, 6)])).isSome = false ∧
      ((new.withComponent 7#128).load
        (numbers [(EntityId.new (2 ^ 24 - 2) 0, 5)])).isSome = false := by
  decide

theorem load_returns_iff_sample :
    ((new.withComponent 7#128).load
      (numbers [(EntityId.new 2 9, 5), (EntityId.new 0 1, 6), (EntityId.new 2 9, 7)])).isSome =
        true := by
  have apart : HashesApart (insert unitTypeId
    (new.withComponent 7#128 : WorldPersister Nat).components) := by decide
  refine ((load_returns_iff _ _).2 apart).mpr ⟨by decide, by decide⟩

end Examples

end WorldPersister

end Cecs

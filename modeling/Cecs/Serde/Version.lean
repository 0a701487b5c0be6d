import Cecs.Serde.RoundTrip

/-! # Reading the version of a payload

The visitor asks for keys until it finds the version. It never reads the value of
another entry, and it returns without asking for the entries behind the version, so
it has an answer only where there is no other entry. -/

namespace Cecs

open Foundation

inductive VersionError where
  | access (error : LoadError)
  /-- The visitor returned before the end of the map. -/
  | EntriesLeft
  deriving DecidableEq, Repr

namespace MapAccess

variable {Version Value : Type}

/-- `VersionVisitor::visit_map`. A map of `n` entries is done in `n + 1` rounds. -/
def visitVersions : Nat → MapAccess Version Value →
    Option (Except VersionError (Option Version × MapAccess Version Value))
  | 0, _ => none
  | fuel + 1, map =>
      match map.nextKey with
      | .error error => some (.error (.access error))
      | .ok (none, map) => some (.ok (none, map))
      | .ok (some key, map) =>
          if key = VERSION_KEY then
            match map.nextValue Content.asVersion with
            | .error error => some (.error (.access error))
            | .ok (version, map) => some (.ok (some version, map))
          else map.visitVersions fuel

/-- What the data format does when the visitor has returned. -/
def finish {α : Type} (map : MapAccess Version Value) (value : α) : Except VersionError α :=
  match map.pending, map.rest with
  | none, [] => .ok value
  | _, _ => .error .EntriesLeft

end MapAccess

namespace WorldPersister

variable {Version Value : Type}

/-- The persister itself is not asked. -/
def loadVersion (_self : WorldPersister Version) (payload : Payload Version Value) :
    Option (Except VersionError (Option Version)) := do
  match ← MapAccess.visitVersions (payload.entries.length + 1)
      { pending := none, rest := payload.entries } with
  | .error error => return .error error
  | .ok (version, map) => return map.finish version

section Streams

variable {self : WorldPersister Version} {announced : Nat} {content : Content Version Value}
  {rest : Entries Version Value}

theorem loadVersion_nil :
    self.loadVersion ({ announced, entries := [] } : Payload Version Value) =
      some (.ok none) := rfl

/-- Entries behind the version are an error of the format. -/
theorem loadVersion_version (version : Version) :
    self.loadVersion { announced, entries := (VERSION_KEY, .version version) :: rest } =
      some (if rest.isEmpty then .ok (some version) else .error .EntriesLeft) := by
  cases rest with
  | nil => rfl
  | cons entry rest => rfl

/-- The value of another entry is still unread when the next key is asked for. -/
theorem loadVersion_other {key : String} (other : key ≠ VERSION_KEY) :
    self.loadVersion { announced, entries := (key, content) :: rest } =
      some (.error (.access .ValueUnread)) := by
  simp [loadVersion, MapAccess.visitVersions, MapAccess.nextKey, other]

end Streams

section Save

variable [TypeName] {P Q : WorldPersister Version} {w : World Value}
  {payload : Payload Version Value}

/-- Nothing but the version is written if no registered type has values. -/
theorem saveEntry_eq_nil_iff :
    (P.saveEntry w : Entries Version Value) = [] ↔
      (∀ component ∈ P.components, componentValues w component = []) ∧
        ∀ resource ∈ P.resources, w.resources[resource]? = none := by
  have written : ∀ ty component, (saveImpl ty component w : Entries Version Value) = [] ↔
      (ty = .Component → componentValues w component = []) ∧
        (ty = .Resource → w.resources[component]? = none) := by
    intro ty component
    cases ty with
    | Component => simp [saveImpl]
    | Resource => cases found : w.resources[component]? <;> simp [saveImpl, found]
    | Noop => simp [saveImpl]
  simp only [mem_components, mem_resources]
  rw [List.eq_nil_iff_forall_not_mem]
  simp only [mem_saveEntry, not_exists, not_and]
  constructor
  · intro nothing
    have empty : ∀ ty component, (ty, component) ∈ P.entries →
        (saveImpl ty component w : Entries Version Value) = [] := by
      intro ty component registered
      rw [List.eq_nil_iff_forall_not_mem]
      exact fun entry => nothing entry ty component registered
    constructor
    · exact fun component registered => ((written _ _).mp (empty _ _ registered)).1 rfl
    · exact fun resource registered => ((written _ _).mp (empty _ _ registered)).2 rfl
  · intro absent entry ty component registered
    have empty : (saveImpl ty component w : Entries Version Value) = [] := by
      rw [written]
      constructor
      · intro same
        exact absent.1 component (same ▸ registered)
      · intro same
        exact absent.2 component (same ▸ registered)
    rw [empty]
    exact List.not_mem_nil

/-- Entries of types come with names that are not the version's. -/
theorem ne_version_of_mem_saveEntry {entry : String × Content Version Value}
    (written : entry ∈ P.saveEntry w) : entry.1 ≠ VERSION_KEY := by
  rcases mem_saveEntry.mp written with ⟨ty, component, _, here⟩
  rw [(saved_of_mem_saveImpl here).2.1]
  exact entryName_ne_version ty component

/-- The version of a saved world is read, in any order of the entries, exactly when it is
the only entry. -/
theorem loadVersion_save_iff (P Q : WorldPersister Version) (w : World Value)
    (payload : Payload Version Value) (saved : payload.entries.Perm (P.save w).entries) :
    Q.loadVersion payload = some (.ok P.version) ↔
      (∀ component ∈ P.components, componentValues w component = []) ∧
        ∀ resource ∈ P.resources, w.resources[resource]? = none := by
  have nothing : (P.saveEntry w : Entries Version Value) = [] ↔ _ := saveEntry_eq_nil_iff
  rw [← nothing]
  rcases payload with ⟨announced, entries⟩
  simp only [save] at saved
  constructor
  · intro read
    cases entries with
    | nil => exact (List.append_eq_nil_iff.mp saved.nil_eq.symm).2
    | cons entry rest =>
        rcases entry with ⟨key, content⟩
        by_cases other : key = VERSION_KEY
        · subst other
          rcases List.mem_append.mp (saved.subset List.mem_cons_self) with versionEntry | written
          · simp only [List.mem_map, Option.mem_toList, Prod.mk.injEq, true_and]
              at versionEntry
            rcases versionEntry with ⟨version, versioned, rfl⟩
            rw [loadVersion_version, Option.some.injEq] at read
            split at read
            · rename_i alone
              have lengths := saved.length_eq
              rw [List.isEmpty_iff] at alone
              simp only [alone, versioned, Option.toList_some, List.map_cons, List.map_nil,
                List.length_append, List.length_cons, List.length_nil] at lengths
              exact List.length_eq_zero_iff.mp (by omega)
            · cases read
          · exact absurd rfl (ne_version_of_mem_saveEntry written)
        · rw [loadVersion_other other] at read
          cases read
  · intro alone
    rw [alone, List.append_nil] at saved
    cases versioned : P.version with
    | none =>
        simp only [versioned, Option.toList_none, List.map_nil] at saved
        rw [saved.eq_nil]
        exact loadVersion_nil
    | some version =>
        simp only [versioned, Option.toList_some, List.map_cons, List.map_nil] at saved
        rw [saved.eq_singleton]
        exact loadVersion_version version

end Save

open Sample

theorem loadVersion_save_iff_sample :
    ∃ w : World Nat, World.new 1 = some w ∧
      (new.withVersion 1 : WorldPersister Nat).loadVersion
        ((new.withVersion 1 : WorldPersister Nat).save w) = some (.ok (some 1)) := by
  obtain ⟨w, created⟩ : ∃ w : World Nat, World.new 1 = some w := ⟨_, rfl⟩
  refine ⟨w, created, ?_⟩
  apply (loadVersion_save_iff (new.withVersion 1) _ w _ (List.Perm.refl _)).mpr
  constructor
  · intro component registered
    exact absurd registered (Finset.notMem_empty component)
  · intro resource registered
    exact absurd registered (Finset.notMem_empty resource)

/-- The version is there, and one entity with a registered component is behind it. -/
theorem loadVersion_behindVersion :
    ∃ w : World Nat, w.WellFormed ∧
      ((new.withComponent 7#128).withVersion 1 : WorldPersister Nat).version = some 1 ∧
      ((new.withComponent 7#128).withVersion 1 : WorldPersister Nat).loadVersion
          (((new.withComponent 7#128).withVersion 1 : WorldPersister Nat).save w) ≠
        some (.ok (some 1)) := by
  obtain ⟨first, w, created, ran, read⟩ : ∃ first w : World Nat, World.new 1 = some first ∧
      first.runOperations [.insertEntity, .setBundle (EntityId.new 0 0) [(7#128, 5)]] = some w ∧
      ((new.withComponent 7#128).withVersion 1 : WorldPersister Nat).loadVersion
          (((new.withComponent 7#128).withVersion 1 : WorldPersister Nat).save w) =
        some (.error .EntriesLeft) := ⟨_, _, rfl, rfl, rfl⟩
  refine ⟨w, World.runOperations_wellFormed (World.new_spec created).1 ran, rfl, ?_⟩
  rw [read]
  intro same
  cases same

end WorldPersister

end Cecs

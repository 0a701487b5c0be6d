import Cecs.EntityIndex.InsertId
import Cecs.Serde.Entries
import Cecs.World.Known

/-! # Loading the entries of a payload

While a world is loaded, its tables have registered columns only, and its view is
rebuilt cell by cell from the world that was saved. -/

namespace Cecs

open Foundation

namespace World

variable {Value : Type} {w after : World Value} {id : EntityId}

/-- Nobody else is in the slot of the entity. -/
def Alone (w : World Value) (id : EntityId) : Prop :=
  ∀ other, w.view other ≠ none → other.index = id.index → other = id

theorem Consistent.arch_eq_none (consistent : w.Consistent) (alone : w.Alone id)
    (dead : w.view id = none) : w.entityIds.arch id.index = none := by
  cases pointer : w.entityIds.arch id.index with
  | none => rfl
  | some ptr =>
      rcases consistent.index with ⟨slots, sound⟩
      rcases sound.place_of_arch pointer with ⟨other, row, sameIndex, placed⟩
      have live : w.view other ≠ none := by
        rw [ne_eq, view_eq_none_iff consistent, placed]
        simp
      rw [alone _ live sameIndex] at live
      exact absurd dead live

theorem isIdValid_iff (consistent : w.Consistent) :
    w.isIdValid id = true ↔ w.view id ≠ none := by
  rw [isIdValid, EntityIndex.isValid_iff_place, ne_eq, view_eq_none_iff consistent,
    ← ne_eq, Option.ne_none_iff_exists']

/-- An entity that moved keeps its slot in use. -/
theorem Relocated.settled {src dst : Ptr} (relocated : Relocated w after id src dst)
    (settled : w.entityIds.Settled) : after.entityIds.Settled := by
  have sameSlots : after.entityIds.inUse = w.entityIds.inUse := by
    rw [EntityIndex.inUse_of_repoints relocated.index, Finset.insert_eq_of_mem]
    rw [EntityIndex.mem_inUse, relocated.live]
    rfl
  rw [EntityIndex.Settled, sameSlots, relocated.count]
  exact settled

variable [UnitTypeId]

/-- A world that is being loaded. -/
structure Loading (types : Finset TypeId) (w : World Value) : Prop extends WellFormed w where
  settled : w.entityIds.Settled
  known : ∀ ptr table, w.tables ptr = some table → table.types ⊆ types

variable {types : Finset TypeId}

theorem Loading.hashDetermines (loading : w.Loading types) (apart : HashesApart types)
    {target : Finset TypeId} (within : target ⊆ types) (unit : unitTypeId ∈ target) :
    w.HashDetermines target :=
  Knows.hashDetermines loading.known loading.toFormed apart within unit

theorem loading_new [BuiltinValues Value] {initialCapacity : Nat}
    (created : new initialCapacity = some w) (unit : unitTypeId ∈ types) :
    w.Loading types ∧ (w.view = fun _ => none) ∧ w.resources = firstResources := by
  rcases new_spec created with ⟨wf, viewed⟩
  have known := knows_new created unit
  simp only [new, Option.bind_eq_bind, Option.bind_eq_some_iff, Option.pure_def,
    Option.some.injEq] at created
  rcases created with ⟨entityIds, createdIds, rfl⟩
  exact ⟨{ wf with settled := EntityIndex.settled_new createdIds, known := known }, viewed, rfl⟩

/-- A component is set on a live entity. -/
theorem Loading.setComponent (loading : w.Loading types) (apart : HashesApart types)
    {component : TypeId} (registered : component ∈ types) {row : Row Value}
    (live : w.view id = some row) (value : Value) :
    ∃ after, w.setComponent id component value = some (.ok (), after) ∧ after.Loading types ∧
      after.view = Function.update w.view id (some (row.insert component value)) ∧
      after.resources = w.resources := by
  have within : Bundle.types [(component, value)] ⊆ types := by
    simpa [Bundle.types] using registered
  have determined : ∀ table, w.entityTable id = some table →
      w.HashDetermines (table.types ∪ Bundle.types [(component, value)]) := by
    intro table found
    rcases Knows.union loading.known loading.toFormed within found with ⟨subset, unit⟩
    exact loading.hashDetermines apart subset unit
  have distinct : Bundle.Distinct [(component, value)] := List.nodup_singleton component
  rcases loading.index with ⟨slots, sound⟩
  rcases setBundle_live loading.toWellFormed sound live distinct determined with
    ⟨after, set, wf, viewed, _⟩
  have known := setBundle_knows loading.toFormed loading.known within set
  rcases setBundle_relocated set with same | ⟨src, dst, table, base, found, relocated, added⟩
  · exact ⟨after, set, same ▸ loading, viewed, by rw [same]⟩
  · refine ⟨after, set, { wf with settled := relocated.settled ?_, known := known }, viewed, ?_⟩
    · rcases added with rfl | ⟨_, rfl⟩ <;> exact loading.settled
    · rw [relocated.shifts.resources]
      rcases added with rfl | ⟨_, rfl⟩ <;> rfl

variable [BuiltinValues Value]

/-- A given id is inserted into a slot that nobody is in. -/
theorem Loading.insertId (loading : w.Loading types) (alone : w.Alone id)
    (dead : w.view id = none) (below : id.index + 1 < ENTITY_INDEX_MASK) :
    ∃ after, w.insertId id = some (.ok (), after) ∧ after.Loading types ∧
      after.view = Function.update w.view id (some Row.marker) ∧
      after.resources = w.resources := by
  rcases loading.index with ⟨slots, sound⟩
  have unused := loading.toConsistent.arch_eq_none alone dead
  rcases EntityIndex.insertId_spec sound loading.settled unused below with
    ⟨entityIds, rest, inserted, soundRest, claimed, places, arch, count⟩
  rcases initId_spec loading.toWellFormed soundRest claimed places
      ((view_eq_none_iff loading.toConsistent).mp dead) with
    ⟨after, init, wf, viewed, _⟩
  have insertion : w.insertId id = some (.ok (), after) := by
    simp [World.insertId, inserted, init]
  have evolves := insertId_evolves insertion
  rcases initId_index init with ⟨⟨ptr, repoints⟩, counted⟩
  refine ⟨after, insertion, { wf with settled := ?_, known := evolves.knows loading.known },
    viewed, evolves.resources⟩
  have sameSlots : entityIds.inUse = w.entityIds.inUse :=
    EntityIndex.inUse_congr fun slot => by rw [arch]
  have fresh : id.index ∉ w.entityIds.inUse := by
    rw [EntityIndex.mem_inUse, unused]
    simp
  rw [EntityIndex.Settled, EntityIndex.inUse_of_repoints repoints, counted]
  change (insert id.index entityIds.inUse).card = entityIds.count
  rw [sameSlots, Finset.card_insert_of_notMem fresh, count, loading.settled]

/-- One value of a component entry is loaded. -/
theorem Loading.loadComponent (loading : w.Loading types) (apart : HashesApart types)
    {component : TypeId} (registered : component ∈ types) (alone : w.Alone id)
    (below : id.index + 1 < ENTITY_INDEX_MASK) (value : Value) :
    ∃ after, WorldPersister.loadComponent component w (id, value) = some after ∧
      after.Loading types ∧
      after.view = Function.update w.view id
        (some (((w.view id).getD Row.marker).insert component value)) ∧
      after.resources = w.resources := by
  cases live : w.view id with
  | some row =>
      have valid : w.isIdValid id = true := by
        rw [isIdValid_iff loading.toConsistent, live]
        simp
      rcases loading.setComponent apart registered live value with
        ⟨after, set, loadingAfter, viewed, resources⟩
      refine ⟨after, ?_, loadingAfter, viewed, resources⟩
      simp [WorldPersister.loadComponent, valid, set]
  | none =>
      have invalid : ¬w.isIdValid id = true := by
        rw [isIdValid_iff loading.toConsistent, live]
        simp
      rcases loading.insertId alone live below with
        ⟨middle, inserted, loadingMiddle, viewedMiddle, resourcesMiddle⟩
      have liveMiddle : middle.view id = some Row.marker := by
        rw [viewedMiddle, Function.update_self]
      rcases loadingMiddle.setComponent apart registered liveMiddle value with
        ⟨after, set, loadingAfter, viewed, resources⟩
      refine ⟨after, ?_, loadingAfter, ?_, resources.trans resourcesMiddle⟩
      · simp [WorldPersister.loadComponent, invalid, inserted, set]
      · rw [viewed, viewedMiddle, Function.update_idem]
        rfl

end World

end Cecs

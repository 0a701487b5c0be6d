import Cecs.EntityIndex.Population
import Cecs.Table.Effects
import Cecs.World.Operations

/-! # What the operations do to the tables of a world

No operation drops a table or changes its columns. Where a table loses a row, an
entry of the index stops pointing to it, and the tables that gain rows are those
a lookup by hash finds. None of this needs a well-formed world. -/

namespace Cecs

open Foundation

namespace World

variable {Value : Type} {w middle after : World Value}

open EntityIndex (pointsTo)

/-- The same tables, but for rows lost and gained; the index may differ. -/
structure Shifts (w after : World Value) (lost gained : Ptr → Nat) : Prop where
  archetypes : after.archetypes = w.archetypes
  staging : after.archetypesStaging = w.archetypesStaging
  nextTable : after.nextTable = w.nextTable
  resources : after.resources = w.resources
  absent : ∀ ptr, w.tables ptr = none → after.tables ptr = none
  tables : ∀ ptr table, w.tables ptr = some table →
    ∃ changed, after.tables ptr = some changed ∧ table.Counts changed (lost ptr) (gained ptr)

/-- No rows. -/
def noRows : Ptr → Nat := fun _ => 0

theorem Shifts.refl (w : World Value) (rows : Ptr → Nat) : Shifts w w rows rows :=
  ⟨rfl, rfl, rfl, rfl, fun _ absent => absent,
    fun ptr table found => ⟨table, found, .refl table (rows ptr)⟩⟩

theorem Shifts.trans {lost gained lostNext gainedNext : Ptr → Nat}
    (first : Shifts w middle lost gained) (second : Shifts middle after lostNext gainedNext) :
    Shifts w after (fun ptr => lost ptr + lostNext ptr)
      (fun ptr => gained ptr + gainedNext ptr) where
  archetypes := second.archetypes.trans first.archetypes
  staging := second.staging.trans first.staging
  nextTable := second.nextTable.trans first.nextTable
  resources := second.resources.trans first.resources
  absent ptr missing := second.absent ptr (first.absent ptr missing)
  tables ptr table found := by
    rcases first.tables ptr table found with ⟨between, foundBetween, counts⟩
    rcases second.tables ptr between foundBetween with ⟨changed, foundChanged, countsNext⟩
    exact ⟨changed, foundChanged, counts.trans countsNext⟩

theorem Shifts.congr {lost gained lostSame gainedSame : Ptr → Nat}
    (shifts : Shifts w after lost gained) (sameLost : lostSame = lost)
    (sameGained : gainedSame = gained) : Shifts w after lostSame gainedSame :=
  sameLost ▸ sameGained ▸ shifts

theorem Shifts.setIndex {lost gained : Ptr → Nat} (shifts : Shifts w after lost gained)
    (entityIds : EntityIndex) : Shifts w (after.setIndex entityIds) lost gained :=
  { shifts with }

/-- `rows` in the table at `ptr`, none elsewhere. -/
def rowsAt (ptr : Ptr) (rows : Nat) : Ptr → Nat := fun other => if ptr = other then rows else 0

theorem pointsTo_some (ptr : Ptr) : pointsTo (some ptr) = rowsAt ptr 1 := by
  funext other
  simp [pointsTo, rowsAt]

theorem rowsAt_zero (ptr : Ptr) : rowsAt ptr 0 = noRows := by
  funext other
  simp [rowsAt, noRows]

theorem tables_setTable (w : World Value) (ptr : Ptr) (table : EntityTable Value) :
    (w.setTable ptr table).tables = Function.update w.tables ptr (some table) := rfl

theorem shifts_setTable {ptr : Ptr} {table changed : EntityTable Value} {lost gained : Nat}
    (found : w.tables ptr = some table) (counts : table.Counts changed lost gained) :
    Shifts w (w.setTable ptr changed) (rowsAt ptr lost) (rowsAt ptr gained) where
  archetypes := rfl
  staging := rfl
  nextTable := rfl
  resources := rfl
  absent other missing := by
    have different : other ≠ ptr := by
      intro same
      rw [same, found] at missing
      cases missing
    rw [tables_setTable, Function.update_of_ne different, missing]
  tables other before foundBefore := by
    rw [tables_setTable, Function.update_apply, rowsAt, rowsAt]
    by_cases same : other = ptr
    · subst same
      rw [found] at foundBefore
      cases foundBefore
      exact ⟨changed, if_pos rfl, by simpa using counts⟩
    · refine ⟨before, (if_neg same).trans foundBefore, ?_⟩
      rw [if_neg (Ne.symm same), if_neg (Ne.symm same)]
      exact .refl before 0

/-- A new key of `archetypes` does not touch the tables. -/
theorem Shifts.insertArchetypes {lost gained : Ptr → Nat} (shifts : Shifts w after lost gained)
    {key : TypeHash} (absent : w.archetypes[key]? = none) (ptr : Ptr) :
    Shifts (w.insertArchetypes key ptr) (after.insertArchetypes key ptr) lost gained := by
  have absentAfter : after.archetypes[key]? = none := by rw [shifts.archetypes, absent]
  refine ⟨?_, shifts.staging, shifts.nextTable, shifts.resources, ?_, ?_⟩
  · simp only [World.insertArchetypes, shifts.archetypes]
  · simpa only [World.insertArchetypes, absent, absentAfter, dropTable] using shifts.absent
  · simpa only [World.insertArchetypes, absent, absentAfter, dropTable] using shifts.tables

theorem moveEntity_shifts {src dst : Ptr} {index row : Nat} {moved : Option EntityId}
    (move : w.moveEntity src dst index = some (row, moved, after)) :
    Shifts w after (pointsTo (some src)) (pointsTo (some dst)) ∧
      (∃ table, w.tables dst = some table) ∧ after.entityIds = w.entityIds := by
  simp only [moveEntity, Option.bind_eq_bind, Option.bind_eq_some_iff, Option.guard_eq_some',
    Option.pure_def, Option.some.injEq, Prod.mk.injEq, exists_and_left, exists_const] at move
  rcases move with ⟨different, source, foundSource, target, foundTarget,
    ⟨_, _, removed, extended⟩, moves, _, _, rfl⟩
  rcases EntityTable.moveEntity_counts moves with ⟨drops, gains⟩
  have foundNext : (w.setTable src removed).tables dst = some target := by
    rw [tables_setTable, Function.update_of_ne (Ne.symm different), foundTarget]
  have shifts := (shifts_setTable foundSource drops).trans (shifts_setTable foundNext gains)
  refine ⟨shifts.congr ?_ ?_, ⟨target, foundTarget⟩, rfl⟩
  · rw [pointsTo_some, rowsAt_zero]
    rfl
  · rw [pointsTo_some, rowsAt_zero]
    funext ptr
    exact (Nat.zero_add _).symm

/-- A move touches two tables only. -/
theorem tables_moveEntity_of_ne {src dst ptr : Ptr} {index row : Nat} {moved : Option EntityId}
    (move : w.moveEntity src dst index = some (row, moved, after)) (notSrc : ptr ≠ src)
    (notDst : ptr ≠ dst) : after.tables ptr = w.tables ptr := by
  simp only [moveEntity, Option.bind_eq_bind, Option.bind_eq_some_iff, Option.pure_def,
    Option.some.injEq, Prod.mk.injEq] at move
  rcases move with ⟨_, _, _, _, _, _, _, _, _, _, rfl⟩
  rw [tables_setTable, Function.update_of_ne notDst, tables_setTable,
    Function.update_of_ne notSrc]

section Evolves

/-- A lookup by hash finds the table: one in `archetypes`, or in both maps. -/
def Reaches (w : World Value) (parked : Bool) (ptr : Ptr) : Prop :=
  (∃ key : TypeHash, w.archetypes[key]? = some ptr) ∨
    parked = true ∧ ∃ key, w.getArchetypeByKey key = some ptr

/-- A table that stays: no fewer rows are left than entries that point to it, and
it grows only if a lookup finds it. -/
structure Persists (parked : Bool) (w after : World Value) (ptr : Ptr)
    (table changed : EntityTable Value) : Prop where
  ty : changed.ty = table.ty
  types : changed.types = table.types
  covered : table.rows + after.entityIds.population ptr ≤
    changed.rows + w.entityIds.population ptr
  found : changed.rows ≤ table.rows ∨ w.Reaches parked ptr

/-- What every operation does to the tables and to the index; `parked` says if it
looks at parked tables. -/
structure Evolves (parked : Bool) (w after : World Value) : Prop where
  archetypes : after.archetypes = w.archetypes
  staging : after.archetypesStaging = w.archetypesStaging
  nextTable : after.nextTable = w.nextTable
  resources : after.resources = w.resources
  absent : ∀ ptr, w.tables ptr = none → after.tables ptr = none
  tables : ∀ ptr table, w.tables ptr = some table →
    ∃ changed, after.tables ptr = some changed ∧ Persists parked w after ptr table changed
  pointers : ∀ slot ptr, after.entityIds.arch slot = some ptr →
    (∃ before, w.entityIds.arch before = some ptr) ∨ ∃ table, w.tables ptr = some table

variable {parked : Bool}

theorem Evolves.trans (first : Evolves parked w middle) (second : Evolves parked middle after) :
    Evolves parked w after where
  archetypes := second.archetypes.trans first.archetypes
  staging := second.staging.trans first.staging
  nextTable := second.nextTable.trans first.nextTable
  resources := second.resources.trans first.resources
  absent ptr missing := second.absent ptr (first.absent ptr missing)
  tables ptr table found := by
    rcases first.tables ptr table found with ⟨between, foundBetween, persists⟩
    rcases second.tables ptr between foundBetween with ⟨changed, foundChanged, persistsNext⟩
    have covered := persists.covered
    have coveredNext := persistsNext.covered
    refine ⟨changed, foundChanged, persistsNext.ty.trans persists.ty,
      persistsNext.types.trans persists.types, by omega, ?_⟩
    rcases persists.found with fewer | reached
    · rcases persistsNext.found with fewerNext | reachedNext
      · exact Or.inl (Nat.le_trans fewerNext fewer)
      · simp only [Reaches, getArchetypeByKey, first.archetypes, first.staging] at reachedNext
        exact Or.inr reachedNext
    · exact Or.inr reached
  pointers slot ptr pointer := by
    rcases second.pointers slot ptr pointer with before | present
    · rcases before with ⟨before, pointerBefore⟩
      exact first.pointers before ptr pointerBefore
    · rcases present with ⟨table, found⟩
      right
      rw [← Option.ne_none_iff_exists']
      intro missing
      rw [first.absent ptr missing] at found
      cases found

/-- Rows are lost where entries are, and gained where a lookup leads. -/
theorem Shifts.evolves {lost gained : Ptr → Nat} {entityIds : EntityIndex}
    (shifts : Shifts w middle lost gained)
    (balanced : ∀ ptr, entityIds.population ptr + lost ptr ≤
      w.entityIds.population ptr + gained ptr)
    (reached : ∀ ptr, gained ptr ≤ lost ptr ∨ w.Reaches parked ptr)
    (pointers : ∀ slot ptr, entityIds.arch slot = some ptr →
      (∃ before, w.entityIds.arch before = some ptr) ∨ ∃ table, w.tables ptr = some table) :
    Evolves parked w (middle.setIndex entityIds) where
  archetypes := shifts.archetypes
  staging := shifts.staging
  nextTable := shifts.nextTable
  resources := shifts.resources
  absent := shifts.absent
  pointers := pointers
  tables ptr table found := by
    rcases shifts.tables ptr table found with ⟨changed, foundChanged, counts⟩
    have rows := counts.rows
    have balance := balanced ptr
    refine ⟨changed, foundChanged, counts.ty, counts.types, ?_, ?_⟩
    · change table.rows + entityIds.population ptr ≤ _
      omega
    · rcases reached ptr with fewer | found
      · exact Or.inl (by omega)
      · exact Or.inr found

/-- No entry gets a table and no table gains rows. -/
theorem Shifts.evolves_fewer {lost gained : Ptr → Nat} {entityIds : EntityIndex}
    (shifts : Shifts w middle lost gained)
    (balanced : ∀ ptr, entityIds.population ptr + lost ptr ≤
      w.entityIds.population ptr + gained ptr)
    (shrunk : ∀ ptr, gained ptr ≤ lost ptr)
    (pointers : ∀ slot ptr, entityIds.arch slot = some ptr →
      ∃ before, w.entityIds.arch before = some ptr) :
    Evolves parked w (middle.setIndex entityIds) :=
  shifts.evolves balanced (fun ptr => Or.inl (shrunk ptr))
    fun slot ptr pointer => Or.inl (pointers slot ptr pointer)

/-- What does not look at parked tables may as well. -/
theorem Evolves.weaken (evolves : Evolves false w after) : Evolves true w after :=
  { evolves with
    tables := by
      intro ptr table found
      rcases evolves.tables ptr table found with ⟨changed, foundChanged, persists⟩
      refine ⟨changed, foundChanged, persists.ty, persists.types, persists.covered, ?_⟩
      rcases persists.found with fewer | reached | ⟨no, _⟩
      · exact Or.inl fewer
      · exact Or.inr (Or.inl reached)
      · cases no }

/-- Only the index changes, and no entry gets a table. -/
theorem evolves_setIndex {entityIds : EntityIndex} (fewer : w.entityIds.Fewer entityIds) :
    Evolves parked w (w.setIndex entityIds) :=
  (Shifts.refl w noRows).evolves_fewer fewer.population (fun _ => Nat.le_refl _)
    fun slot ptr pointer => ⟨slot, fewer.arch slot ptr pointer⟩

theorem Evolves.refl (w : World Value) : Evolves parked w w :=
  evolves_setIndex ⟨fun _ _ pointer => pointer, fun _ => Nat.le_refl _⟩

end Evolves

section Relocated

/-- The row of an entity went from the table `src` to `dst`, or stayed; the tables
are those of `base`, which is `w` or has one more. -/
structure Placed (w base placed : World Value) (src dst : Ptr) : Prop where
  shifts : Shifts base placed (pointsTo (some src)) (pointsTo (some dst))
  sameIndex : base.entityIds = w.entityIds
  same : w.entityIds.SamePointers placed.entityIds
  reached : dst = src ∨ ∃ key, base.getArchetypeByKey key = some dst
  present : ∃ table, base.tables dst = some table

theorem Placed.stay {src : Ptr} {table : EntityTable Value} (found : w.tables src = some table) :
    Placed w w w src src :=
  ⟨Shifts.refl w _, rfl, ⟨rfl, rfl, rfl, rfl⟩, Or.inl rfl, table, found⟩

theorem Placed.move {src dst : Ptr} {index row : Nat} {moved : Option EntityId}
    {entityIds : EntityIndex} {key : TypeHash}
    (move : w.moveEntity src dst index = some (row, moved, middle))
    (updated : middle.entityIds.updateMoved moved index = some entityIds)
    (lookup : w.getArchetypeByKey key = some dst) :
    Placed w w (middle.setIndex entityIds) src dst := by
  rcases moveEntity_shifts move with ⟨shifts, present, sameIndex⟩
  refine ⟨shifts.setIndex entityIds, rfl, ?_, Or.inr ⟨key, lookup⟩, present⟩
  rw [← sameIndex]
  exact EntityIndex.updateMoved_same updated

theorem archetypes_addTable (w : World Value) (table : EntityTable Value) :
    (w.addTable table).archetypes[table.ty]? = some w.nextTable := by
  refine (BTreeMap.getElem?_insert w.archetypes table.ty w.nextTable table.ty).trans ?_
  rw [if_pos rfl]

theorem getArchetypeByKey_addTable (w : World Value) (table : EntityTable Value) :
    (w.addTable table).getArchetypeByKey table.ty = some w.nextTable := by
  rw [getArchetypeByKey, archetypes_addTable]
  rfl

/-- `insert_archetype`: the entity's row goes into the table that was added. -/
theorem Placed.insert {src dst : Ptr} {row : Nat} {table : EntityTable Value}
    (inserted : w.insertArchetype src row table = some (dst, after)) :
    w.archetypes[table.ty]? = none ∧ Placed w (w.addTable table) after src dst := by
  simp only [insertArchetype, Option.bind_eq_bind, Option.bind_eq_some_iff,
    Option.guard_eq_some', Option.pure_def, Option.some.injEq, Prod.mk.injEq,
    exists_and_left, exists_const] at inserted
  rcases inserted with ⟨⟨index, moved, shifted⟩, move, _, absent, renamed, update, rfl, rfl⟩
  rcases moveEntity_shifts move with ⟨shifts, _, sameIndex⟩
  have absentBefore : w.archetypes[table.ty]? = none := by
    rw [shifts.archetypes] at absent
    exact absent
  refine ⟨absentBefore, ?_, rfl, ?_, Or.inr ⟨_, getArchetypeByKey_addTable w table⟩, table, ?_⟩
  · exact (shifts.insertArchetypes absentBefore w.nextTable).setIndex renamed
  · have updated := EntityIndex.updateMoved_same update
    change shifted.entityIds.SamePointers renamed at updated
    rw [sameIndex] at updated
    exact updated
  · exact congrFun (tables_addTable table absentBefore) w.nextTable |>.trans
      (Function.update_self ..)

/-- Cells of the row are written. -/
theorem Placed.write {base : World Value} {src dst ptr : Ptr} {table written : EntityTable Value}
    (placed : Placed w base middle src dst) (found : middle.tables ptr = some table)
    (counts : table.Counts written 0 0) : Placed w base (middle.setTable ptr written) src dst :=
  { placed with
    shifts := by
      have both := placed.shifts.trans (shifts_setTable found counts)
      rw [rowsAt_zero] at both
      exact both }

/-- An entity went from the table `src` to `dst`, or its row was rewritten. -/
structure Relocated (w after : World Value) (id : EntityId) (src dst : Ptr) : Prop where
  live : w.entityIds.arch id.index = some src
  shifts : Shifts w after (pointsTo (some src)) (pointsTo (some dst))
  count : after.entityIds.count = w.entityIds.count
  index : w.entityIds.Repoints after.entityIds id.index (some dst)
  reached : dst = src ∨ ∃ key, w.getArchetypeByKey key = some dst
  present : ∃ table, w.tables dst = some table

/-- The index is told the new place. -/
theorem Placed.relocated {base : World Value} {src dst : Ptr} {id : EntityId} {row : Nat}
    {entityIds : EntityIndex} (placed : Placed w base middle src dst)
    (live : w.entityIds.arch id.index = some src)
    (updated : middle.entityIds.update id dst row = some entityIds) :
    Relocated base (middle.setIndex entityIds) id src dst where
  live := by rw [placed.sameIndex, live]
  shifts := placed.shifts.setIndex entityIds
  count := by
    rw [placed.sameIndex, ← placed.same.count]
    exact EntityIndex.update_count updated
  index := by
    rw [placed.sameIndex]
    exact placed.same.repoints (EntityIndex.update_repoints updated)
  reached := placed.reached
  present := placed.present

theorem Relocated.evolves {id : EntityId} {src dst : Ptr}
    (relocated : Relocated w after id src dst) : Evolves true w after := by
  change Evolves true w (after.setIndex after.entityIds)
  apply relocated.shifts.evolves
  · intro ptr
    have counted := relocated.index.population ptr
    rw [relocated.live] at counted
    omega
  · intro ptr
    rcases relocated.reached with same | reached
    · rw [same]
      exact Or.inl (Nat.le_refl _)
    · by_cases atDst : dst = ptr
      · exact Or.inr (atDst ▸ Or.inr ⟨rfl, reached⟩)
      · left
        simp [pointsTo, atDst]
  · intro slot ptr pointer
    rw [relocated.index.arch, Function.update_apply] at pointer
    split at pointer
    · cases pointer
      exact Or.inr relocated.present
    · exact Or.inl ⟨slot, pointer⟩

end Relocated

section Components

variable [UnitTypeId] {id : EntityId}

theorem placeForBundle_placed {placed : World Value} {src dst : Ptr} {index row : Nat}
    {bundle : Bundle Value}
    (place : w.placeForBundle src index bundle = some (placed, dst, row)) :
    ∃ table base, w.tables src = some table ∧ Placed w base placed src dst ∧
      (base = w ∨ w.getArchetypeByKey (bundle.extend table).ty = none ∧
        base = w.addTable (bundle.extend table)) := by
  simp only [placeForBundle, Option.bind_eq_bind, Option.bind_eq_some_iff] at place
  rcases place with ⟨table, found, place⟩
  refine ⟨table, ?_⟩
  split at place
  · cases place
    exact ⟨w, found, Placed.stay found, Or.inl rfl⟩
  · split at place
    · rename_i lookup
      simp only [Option.bind_eq_some_iff, Option.pure_def, Option.some.injEq,
        Prod.mk.injEq] at place
      rcases place with ⟨⟨_, moved, shifted⟩, move, entityIds, updated, rfl, rfl, rfl⟩
      exact ⟨w, found, Placed.move move updated lookup, Or.inl rfl⟩
    · rename_i lookup
      simp only [Option.bind_eq_some_iff, Option.guard_eq_some', Option.pure_def,
        Option.some.injEq, Prod.mk.injEq, exists_and_left, exists_const] at place
      rcases place with ⟨sameHash, ⟨ptr, inserted⟩, insertion, rfl, rfl, rfl⟩
      rw [sameHash] at lookup
      exact ⟨_, found, (Placed.insert insertion).2, Or.inr ⟨lookup, rfl⟩⟩

/-- `set_bundle` relocates the entity, if need be into a table that it adds. -/
theorem setBundle_relocated {bundle : Bundle Value} {result : WorldResult Unit}
    (set : w.setBundle id bundle = some (result, after)) :
    after = w ∨ ∃ src dst table base, w.entityTable id = some table ∧
      Relocated base after id src dst ∧
      (base = w ∨ w.getArchetypeByKey (bundle.extend table).ty = none ∧
        base = w.addTable (bundle.extend table)) := by
  rw [setBundle] at set
  cases outcome : w.entityIds.read id with
  | error error =>
      simp only [outcome, Option.some.injEq, Prod.mk.injEq] at set
      exact Or.inl set.2.symm
  | ok spot =>
      rcases spot with ⟨src, index⟩
      have live := EntityIndex.arch_of_read outcome
      simp only [outcome, Option.bind_eq_bind, Option.bind_eq_some_iff, Option.pure_def,
        Option.some.injEq, Prod.mk.injEq] at set
      rcases set with ⟨⟨placed, dst, row⟩, place, target, foundTarget, written, inserted,
        entityIds, updated, _, rfl⟩
      rcases placeForBundle_placed place with ⟨table, base, found, placing, added⟩
      have writing := placing.write foundTarget (EntityTable.insertInto_counts inserted)
      have table_eq : w.entityTable id = some table := by simp [entityTable, outcome, found]
      exact Or.inr ⟨src, dst, table, base, table_eq, writing.relocated live updated, added⟩

theorem placeWithout_placed {placed : World Value} {src dst : Ptr} {index row : Nat}
    {table : EntityTable Value} {ty : TypeId}
    (place : w.placeWithout id src index table ty = some (placed, dst, row)) :
    ∃ base, Placed w base placed src dst ∧
      (base = w ∨ w.archetypes[table.extendedHash ty]? = none ∧
        base = w.addTable (table.cloneEmpty.reduceWithColumn ty)) := by
  rw [placeWithout] at place
  split at place
  · rename_i newArch lookup
    simp only [Option.bind_eq_bind, Option.bind_eq_some_iff, Option.guard_eq_some',
      Option.pure_def, Option.some.injEq, Prod.mk.injEq, exists_and_left, exists_const] at place
    rcases place with ⟨⟨_, moved, shifted⟩, move, _, entityIds, updated, rfl, rfl, rfl⟩
    have reached : w.getArchetypeByKey (table.extendedHash ty) = some newArch := by
      rw [getArchetypeByKey, lookup]
      rfl
    exact ⟨w, Placed.move move updated reached, Or.inl rfl⟩
  · rename_i lookup
    simp only [Option.bind_eq_bind, Option.bind_eq_some_iff, Option.pure_def,
      Option.some.injEq, Prod.mk.injEq] at place
    rcases place with ⟨⟨ptr, inserted⟩, insertion, rfl, rfl, rfl⟩
    exact ⟨_, (Placed.insert insertion).2, Or.inr ⟨lookup, rfl⟩⟩

/-- `remove_component` does so as well, but looks for the table in `archetypes` only. -/
theorem removeComponent_relocated {ty : TypeId} {result : WorldResult Unit}
    (removed : w.removeComponent id ty = some (result, after)) :
    after = w ∨ ∃ src dst table base, w.entityTable id = some table ∧
      table.containsColumn ty = true ∧ Relocated base after id src dst ∧
      (base = w ∨ w.archetypes[table.extendedHash ty]? = none ∧
        base = w.addTable (table.cloneEmpty.reduceWithColumn ty)) := by
  rw [removeComponent] at removed
  cases outcome : w.entityIds.read id with
  | error error =>
      simp only [outcome, Option.some.injEq, Prod.mk.injEq] at removed
      exact Or.inl removed.2.symm
  | ok spot =>
      rcases spot with ⟨src, index⟩
      have live := EntityIndex.arch_of_read outcome
      simp only [outcome, Option.bind_eq_bind, Option.bind_eq_some_iff] at removed
      rcases removed with ⟨table, found, removed⟩
      split at removed
      · rename_i column
        simp only [Option.bind_eq_some_iff, Option.pure_def, Option.some.injEq,
          Prod.mk.injEq] at removed
        rcases removed with ⟨⟨placed, dst, row⟩, place, entityIds, updated, _, rfl⟩
        rcases placeWithout_placed place with ⟨base, placing, added⟩
        have table_eq : w.entityTable id = some table := by simp [entityTable, outcome, found]
        exact Or.inr ⟨src, dst, table, base, table_eq, column, placing.relocated live updated,
          added⟩
      · cases removed
        exact Or.inl rfl

end Components

end World

end Cecs

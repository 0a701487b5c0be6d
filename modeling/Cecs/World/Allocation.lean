import Cecs.World.Refinement

/-! # Ids allocated one after another

An id that a world hands out, for a new entity or to a queued command, names no
live entity. -/

namespace Cecs

namespace World

variable {Value : Type} [UnitTypeId] [BuiltinValues Value]

/-- Ids handed out one after another: by `insert_entity`, or by `allocate` to an
entity command that was asked for its `id`. -/
inductive Allocates : World Value → List EntityId → World Value → Prop where
  | nil (w : World Value) : Allocates w [] w
  | insertEntity {w middle after : World Value} {id : EntityId} {ids : List EntityId}
      (inserted : w.insertEntity = some (id, middle)) (rest : Allocates middle ids after) :
      Allocates w (id :: ids) after
  | allocate {w after : World Value} {id : EntityId} {ids : List EntityId}
      {entityIds : EntityIndex} (allocated : w.entityIds.allocate = some (.ok id, entityIds))
      (rest : Allocates (w.setIndex entityIds) ids after) : Allocates w (id :: ids) after

variable {w after : World Value}

theorem insertEntity_fresh (wf : w.WellFormed) {id : EntityId}
    (inserted : w.insertEntity = some (id, after)) :
    after.WellFormed ∧ w.view id = none ∧
      after.view = Function.update w.view id (some Row.marker) := by
  have room : w.entityIds.HasRoom := by
    rcases wf.index with ⟨slots, sound⟩
    simp only [insertEntity, Option.bind_eq_bind, Option.bind_eq_some_iff] at inserted
    rcases inserted with ⟨_, allocated, _⟩
    exact sound.hasRoom allocated
  rcases insertEntity_spec wf room with ⟨other, result, same, wfAfter, fresh, viewed⟩
  rw [inserted, Option.some.injEq, Prod.mk.injEq] at same
  rcases same with ⟨rfl, rfl⟩
  exact ⟨wfAfter, fresh, viewed⟩

omit [BuiltinValues Value] in
theorem allocate_fresh (wf : w.WellFormed) {id : EntityId} {entityIds : EntityIndex}
    (allocated : w.entityIds.allocate = some (.ok id, entityIds)) :
    (w.setIndex entityIds).WellFormed ∧ w.view id = none ∧
      (w.setIndex entityIds).view = w.view := by
  rcases wf.index with ⟨slots, sound⟩
  rcases sound.allocate_ok allocated with ⟨rest, soundRest, places, absent⟩
  have edit : (w.setIndex entityIds).store = w.store :=
    Foundation.RowStore.ext places rfl
  refine ⟨wf.toFormed.wellFormed soundRest ?_, (view_eq_none_iff wf.toConsistent).mpr absent, ?_⟩
  · rw [edit]
    exact wf.linked
  · rw [view, edit]
    rfl

/-- No id of the run names an entity that was there before. -/
theorem Allocates.fresh {ids : List EntityId} (allocates : Allocates w ids after)
    (wf : w.WellFormed) : ∀ id ∈ ids, w.view id = none := by
  induction allocates with
  | nil w => simp
  | insertEntity inserted rest induction =>
      rcases insertEntity_fresh wf inserted with ⟨wfMiddle, fresh, viewed⟩
      intro other member
      rcases List.mem_cons.mp member with rfl | member
      · exact fresh
      · have absent := induction wfMiddle other member
        rw [viewed, Function.update_apply] at absent
        split at absent
        · cases absent
        · exact absent
  | allocate allocated rest induction =>
      rcases allocate_fresh wf allocated with ⟨wfMiddle, fresh, viewed⟩
      intro other member
      rcases List.mem_cons.mp member with rfl | member
      · exact fresh
      · rw [← viewed]
        exact induction wfMiddle other member

end World

end Cecs

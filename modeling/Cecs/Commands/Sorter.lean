import Cecs.Commands.Sort

/-! # The sorts that `sort_commands` may be

The standard sort is unstable, but it sees only the keys of what it sorts: erased commands
and typed ones go through it alike. -/

namespace Cecs

open Foundation

/-- The command without its payload and its values. -/
def CommandPayload.outline {Value : Type} : CommandPayload Value → CommandPayload Unit
  | .Entity commands => .Entity { action := commands.action, payload := [] }
  | .Resource _ => .Resource (.Delete 0)
  | .World command => .World command

/-- A sort that `sort_commands` may be. It sees of an element what `outline` shows. -/
structure CommandSort where
  sort : {α : Type} → (outline : α → CommandPayload Unit) → List α → List α
  sorts : ∀ {α : Type} (outline : α → CommandPayload Unit) (cmd : List α),
    SortCommands outline cmd (sort outline cmd)
  natural : ∀ {α β : Type} (outline : β → CommandPayload Unit) (f : α → β) (cmd : List α),
    sort outline (cmd.map f) = (sort (outline ∘ f) cmd).map f

namespace CommandSort

theorem perm (self : CommandSort) {α : Type} (outline : α → CommandPayload Unit)
    (cmd : List α) : (self.sort outline cmd).Perm cmd :=
  (sortCommands_iff.mp (self.sorts outline cmd)).perm

/-- Typed commands in the order that the sort leaves their outlines in. -/
theorem sorts_payloads (self : CommandSort) {Value : Type} (cmd : List (CommandPayload Value)) :
    SortCommands id cmd (self.sort CommandPayload.outline cmd) := by
  have kinds : ∀ command : CommandPayload Value, command.outline.cmdTy = command.cmdTy := by
    intro command
    cases command <;> rfl
  have sorted := sortCommands_iff.mp (self.sorts CommandPayload.outline cmd)
  simp only [kinds] at sorted
  exact sortCommands_iff.mpr sorted

section Orders

variable {α : Type} {outline : α → CommandPayload Unit} {cmd sorted : List α}

theorem map_range_getElem? (cmd : List α) :
    (List.range cmd.length).map (fun place => cmd[place]?) = cmd.map some := by
  apply List.ext_getElem
  · simp
  · simp

theorem filterMap_range_getElem? (cmd : List α) :
    (List.range cmd.length).filterMap (fun place => cmd[place]?) = cmd := by
  have places := congrArg (List.filterMap id) (map_range_getElem? cmd)
  simpa [List.filterMap_map, Function.comp_def] using places

/-- Where the elements of a reordered list come from. -/
theorem exists_order (permuted : sorted.Perm cmd) :
    ∃ order : List Nat, order.Perm (List.range cmd.length) ∧
      order.filterMap (fun place => cmd[place]?) = sorted := by
  have somes : (sorted.map some).Perm
      ((List.range cmd.length).map fun place => cmd[place]?) := by
    rw [map_range_getElem?]
    exact permuted.map some
  rcases (congrFun₂ (List.eq_map_comp_perm fun place => cmd[place]?) _ _).mpr somes with
    ⟨order, places, perm⟩
  refine ⟨order, perm, ?_⟩
  have picked := congrArg (List.filterMap id) places
  simpa [List.filterMap_map, Function.comp_def] using picked.symm

theorem sortCommands_map {β : Type} (outline : β → CommandPayload Unit) (f : α → β)
    (cmd : List α) :
    sortCommands outline (cmd.map f) = (sortCommands (outline ∘ f) cmd).map f := by
  rw [sortCommands_eq, sortCommands_eq, stableSortBy, stableSortBy]
  exact (List.map_insertionSort _ _ f cmd fun _ _ _ _ => Iff.rfl).symm

open Classical in
/-- Elements with these outlines are put in this order, others sorted in some way. -/
noncomputable def ofOrder (outlines : List (CommandPayload Unit)) (order : List Nat)
    (permuted : order.Perm (List.range outlines.length))
    (ordered : (order.filterMap fun place => outlines[place]?).Pairwise fun a b =>
      a.cmdTy ≤ b.cmdTy) : CommandSort where
  sort outline cmd :=
    if cmd.map outline = outlines then order.filterMap fun place => cmd[place]?
    else sortCommands outline cmd
  sorts := by
    intro α outline cmd
    split
    · rename_i same
      subst same
      rw [List.length_map] at permuted
      simp only [List.getElem?_map] at ordered
      rw [← List.map_filterMap, List.pairwise_map] at ordered
      refine sortCommands_iff.mpr ⟨?_, ordered⟩
      have picked := permuted.filterMap fun place => cmd[place]?
      rwa [filterMap_range_getElem?] at picked
    · exact sortCommands_sorts outline cmd
  natural := by
    intro α β outline f cmd
    rw [List.map_map]
    split
    · simp only [List.getElem?_map, List.map_filterMap]
    · exact sortCommands_map outline f cmd

/-- Every order that a sort may leave is the one of some `CommandSort`. -/
theorem covers (sorts : SortCommands outline cmd sorted) :
    ∃ self : CommandSort, self.sort outline cmd = sorted := by
  rcases sortCommands_iff.mp sorts with ⟨permuted, ordered⟩
  rcases exists_order permuted with ⟨order, perm, rfl⟩
  rw [← List.length_map outline] at perm
  refine ⟨ofOrder (cmd.map outline) order perm ?_, if_pos rfl⟩
  simp only [List.getElem?_map]
  rw [← List.map_filterMap, List.pairwise_map]
  exact ordered

end Orders

end CommandSort

end Cecs

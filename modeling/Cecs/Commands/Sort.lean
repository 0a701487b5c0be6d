import Cecs.Commands
import Cecs.World.Refinement

/-! # The order of a batch

`sort_commands` orders the kinds of commands. The key of its inner sort is the
same for all commands, so the actions of entity commands are left as they are. -/

namespace Cecs

open Foundation

section Kinds

variable {Value α : Type} {payload : α → CommandPayload Value} {cmd sorted : List α}

theorem innerKey_sortsBy_iff :
    SortsBy (fun a => innerKey (payload a)) cmd sorted ↔ sorted.Perm cmd :=
  ⟨SortsBy.perm, fun perm => ⟨perm, List.pairwise_of_forall fun _ _ => le_rfl⟩⟩

/-- The inner sort adds nothing: a batch is sorted by the kinds of its commands. -/
theorem sortCommands_iff :
    SortCommands payload cmd sorted ↔ SortsBy (fun a => (payload a).cmdTy) cmd sorted := by
  constructor
  · rintro ⟨byKind, chunk, sorts, inner, rfl⟩
    have permuted := innerKey_sortsBy_iff.mp inner
    have parts := firstChunk_append
      (fun a b => (payload a).cmdTy == (payload b).cmdTy) byKind
    cases byKind with
    | nil =>
        rw [kindChunk, firstChunk] at permuted ⊢
        rw [List.Perm.eq_nil permuted]
        exact sorts
    | cons first rest =>
        rcases firstChunk_of_ordered sorts.ordered with ⟨inChunk, others⟩
        have arranged : (chunk ++ (kindChunk payload (first :: rest)).2).Perm
            (first :: rest) := by
          refine (permuted.append_right _).trans ?_
          rw [kindChunk, parts]
        have tail := sorts.ordered
        rw [← parts, List.pairwise_append] at tail
        refine ⟨arranged.trans sorts.perm, List.pairwise_append.mpr ⟨?_, tail.2.1, ?_⟩⟩
        · apply List.pairwise_of_forall_mem_list
          intro a memberA b memberB
          rw [inChunk a (permuted.mem_iff.mp memberA), inChunk b (permuted.mem_iff.mp memberB)]
        · intro a memberA b memberB
          exact tail.2.2 a (permuted.mem_iff.mp memberA) b memberB
  · intro sorts
    refine ⟨sorted, _, sorts, innerKey_sortsBy_iff.mpr (List.Perm.refl _), ?_⟩
    exact (firstChunk_append _ sorted).symm

theorem sortCommands_eq (payload : α → CommandPayload Value) (cmd : List α) :
    sortCommands payload cmd = stableSortBy (fun a => (payload a).cmdTy) cmd := by
  have inner : ∀ chunk : List α, stableSortBy (fun a => innerKey (payload a)) chunk = chunk :=
    fun chunk => stableSortBy_of_ordered (List.pairwise_of_forall fun _ _ => le_rfl)
  simp only [sortCommands, inner, kindChunk]
  exact firstChunk_append _ _

/-- An unstable sort may leave two commands of one kind in either order. -/
theorem exists_sortCommands_before (payload : α → CommandPayload Value) {a b : α} {rest : List α}
    (parts : cmd.Perm (b :: a :: rest)) (alike : (payload b).cmdTy = (payload a).cmdTy) :
    ∃ sorted, SortCommands payload cmd sorted ∧ [b, a].Sublist sorted := by
  have sorts := stableSortBy_sortsBy (fun a => (payload a).cmdTy) (b :: a :: rest)
  refine ⟨_, sortCommands_iff.mpr ⟨sorts.perm.trans parts.symm, sorts.ordered⟩, ?_⟩
  have front : [b, a].Sublist (b :: a :: rest) :=
    List.Sublist.cons_cons b (List.Sublist.cons_cons a (List.nil_sublist rest))
  exact List.pair_sublist_insertionSort (r := fun a b => (payload a).cmdTy ≤ (payload b).cmdTy)
    (le_of_eq alike) front

/-- Two members that differ can be put in front. -/
theorem perm_of_two_members {a b : α} (memberA : a ∈ cmd) (memberB : b ∈ cmd)
    (different : a ≠ b) : ∃ rest, cmd.Perm (b :: a :: rest) := by
  rcases List.append_of_mem memberB with ⟨front, back, rfl⟩
  have others : a ∈ front ++ back := by simpa [different] using memberA
  rcases List.append_of_mem others with ⟨before, after, eq⟩
  refine ⟨before ++ after, List.perm_middle.trans (List.Perm.cons b ?_)⟩
  rw [eq]
  exact List.perm_middle

end Kinds

section Actions

variable {Value : Type}

namespace CommandPayload

/-- The action type of an entity command. -/
def actionTy? : CommandPayload Value → Option Nat
  | .Entity commands => some commands.action.actionTy
  | _ => none

def isMerge : CommandPayload Value → Bool
  | .Entity ⟨.Merge _ _, _⟩ => true
  | _ => false

/-- Inserts come before updates, and updates before deletions. -/
def ActionLe (a b : CommandPayload Value) : Prop :=
  ∀ x ∈ a.actionTy?, ∀ y ∈ b.actionTy?, x ≤ y

theorem cmdTy_of_actionTy? {a : CommandPayload Value} {x : Nat} (action : x ∈ a.actionTy?) :
    a.cmdTy = 0 := by
  cases a with
  | Entity commands => rfl
  | Resource command => cases action
  | World command => cases action

end CommandPayload

open CommandPayload

/-- The entity commands of the batch have one action type. -/
def OneAction (cmd : List (CommandPayload Value)) : Prop :=
  ∀ a ∈ cmd, ∀ b ∈ cmd, ∀ x ∈ a.actionTy?, ∀ y ∈ b.actionTy?, x = y

variable [UnitTypeId] [BuiltinValues Value]

/-- A fetch of `id` fails because the batch deleted `id` before. -/
def FailsAfterDelete (w : World Value) (batch : List (CommandPayload Value)) (id : EntityId) :
    Prop :=
  ∃ front payload back ignored middle after,
    batch = front ++ .Entity ⟨.Fetch id, payload⟩ :: back ∧
    .Entity ⟨.Delete id, ignored⟩ ∈ front ∧
    applyBatch front w = some (.ok (), middle) ∧
    CommandPayload.apply (.Entity ⟨.Fetch id, payload⟩) middle =
      some (.error .EntityNotFound, after)

/-- What the documentation of `sort_commands` promises of the sorted batch. -/
structure SortedByAction (cmd sorted : List (CommandPayload Value)) : Prop where
  perm : sorted.Perm cmd
  kinds : sorted.Pairwise fun a b => a.cmdTy ≤ b.cmdTy
  actions : sorted.Pairwise ActionLe
  updateFirst : (∀ command ∈ cmd, command.isMerge = false) →
    ∀ (w : World Value) (id : EntityId), w.isIdValid id = true → ¬FailsAfterDelete w sorted id

variable {cmd sorted : List (CommandPayload Value)}

theorem not_failsAfterDelete (actions : sorted.Pairwise ActionLe) (w : World Value)
    (id : EntityId) : ¬FailsAfterDelete w sorted id := by
  rintro ⟨front, payload, back, ignored, _, _, rfl, deleted, _, _⟩
  have order := (List.pairwise_append.mp actions).2.2 _ deleted _ List.mem_cons_self
  have impossible : (2 : Nat) ≤ 1 := order 2 rfl 1 rfl
  omega

theorem sortedByAction_iff (sorts : SortCommands id cmd sorted) :
    SortedByAction cmd sorted ↔ sorted.Pairwise ActionLe := by
  rw [sortCommands_iff] at sorts
  constructor
  · exact SortedByAction.actions
  · intro actions
    exact ⟨sorts.perm, sorts.ordered, actions, fun _ w id _ => not_failsAfterDelete actions w id⟩

omit [UnitTypeId] [BuiltinValues Value] in
theorem oneAction_of_forall_sorted
    (ordered : ∀ sorted, SortCommands id cmd sorted → sorted.Pairwise ActionLe) :
    OneAction cmd := by
  have notBelow : ∀ a ∈ cmd, ∀ b ∈ cmd, ∀ x ∈ a.actionTy?, ∀ y ∈ b.actionTy?, ¬x < y := by
    intro a memberA b memberB x actionA y actionB below
    have different : a ≠ b := by
      rintro rfl
      rw [Option.mem_unique actionA actionB] at below
      exact Nat.lt_irrefl y below
    rcases perm_of_two_members memberA memberB different with ⟨rest, parts⟩
    have alike : b.cmdTy = a.cmdTy :=
      (cmdTy_of_actionTy? actionB).trans (cmdTy_of_actionTy? actionA).symm
    rcases exists_sortCommands_before id parts alike with ⟨sorted, sorts, before⟩
    have order := List.pairwise_iff_forall_sublist.mp (ordered sorted sorts) before
    exact Nat.not_lt_of_le (order y actionB x actionA) below
  intro a memberA b memberB x actionA y actionB
  have first := notBelow a memberA b memberB x actionA y actionB
  have second := notBelow b memberB a memberA y actionB x actionA
  omega

omit [UnitTypeId] [BuiltinValues Value] in
theorem actionLe_iff_alike (a b : CommandPayload Value) :
    ActionLe a b ↔ (a.cmdTy = b.cmdTy → ActionLe a b) := by
  refine ⟨fun order _ => order, fun alike x actionA y actionB => ?_⟩
  have kinds := (cmdTy_of_actionTy? actionA).trans (cmdTy_of_actionTy? actionB).symm
  exact alike kinds x actionA y actionB

omit [UnitTypeId] [BuiltinValues Value] in
/-- The sort that keeps the order leaves the entity commands as they were queued. -/
theorem pairwise_sortCommands_iff :
    (sortCommands id cmd).Pairwise ActionLe ↔ cmd.Pairwise ActionLe := by
  rw [List.Pairwise.iff actionLe_iff_alike, List.Pairwise.iff actionLe_iff_alike,
    sortCommands_eq]
  exact pairwise_stableSortBy_iff

/-- When batches are sorted as documented: whatever the sort does with commands of
one kind, and when it keeps their order. -/
theorem sortCommands_sortedByAction_iff (cmd : List (CommandPayload Value)) :
    ((∀ sorted, SortCommands id cmd sorted → SortedByAction cmd sorted) ↔ OneAction cmd) ∧
    (SortedByAction cmd (sortCommands id cmd) ↔ cmd.Pairwise ActionLe) := by
  refine ⟨⟨?_, ?_⟩, ?_⟩
  · intro all
    apply oneAction_of_forall_sorted
    exact fun sorted sorts => (all sorted sorts).actions
  · intro one sorted sorts
    have perm := (sortCommands_iff.mp sorts).perm
    apply (sortedByAction_iff sorts).mpr
    apply List.pairwise_of_forall_mem_list
    intro a memberA b memberB x actionA y actionB
    exact le_of_eq
      (one a (perm.mem_iff.mp memberA) b (perm.mem_iff.mp memberB) x actionA y actionB)
  · rw [sortedByAction_iff (sortCommands_sorts id cmd), pairwise_sortCommands_iff]

end Actions

section Example

open Sample

/-- A deletion queued before an update of the same entity. -/
def deleteThenFetch : List (CommandPayload Nat) :=
  [.Entity ⟨.Delete (EntityId.new 0 0), []⟩,
    .Entity ⟨.Fetch (EntityId.new 0 0), [.Insert [(7#128, 1)]]⟩]

/-- The batch stays as it is, and the update of the live entity fails. -/
theorem sortCommands_deleteThenFetch :
    ∃ w : World Nat, (World.new 1).bind (World.runOperations · [.insertEntity]) = some w ∧
      w.isIdValid (EntityId.new 0 0) = true ∧
      SortCommands id deleteThenFetch (sortCommands id deleteThenFetch) ∧
      FailsAfterDelete w (sortCommands id deleteThenFetch) (EntityId.new 0 0) ∧
      ¬∀ sorted, SortCommands id deleteThenFetch sorted →
        SortedByAction deleteThenFetch sorted := by
  obtain ⟨w, middle, after, made, live, kept, deleted, fetched⟩ :
      ∃ w middle after : World Nat,
        (World.new 1).bind (World.runOperations · [.insertEntity]) = some w ∧
        w.isIdValid (EntityId.new 0 0) = true ∧
        sortCommands id deleteThenFetch = deleteThenFetch ∧
        applyBatch [.Entity ⟨.Delete (EntityId.new 0 0), []⟩] w = some (.ok (), middle) ∧
        CommandPayload.apply
            (.Entity ⟨.Fetch (EntityId.new 0 0), [.Insert [(7#128, 1)]]⟩) middle =
          some (.error .EntityNotFound, after) :=
    ⟨_, _, _, rfl, rfl, rfl, rfl, rfl⟩
  have fails : FailsAfterDelete w deleteThenFetch (EntityId.new 0 0) :=
    ⟨[.Entity ⟨.Delete (EntityId.new 0 0), []⟩], [.Insert [(7#128, 1)]], [], [], middle, after,
      rfl, List.mem_singleton_self _, deleted, fetched⟩
  have sorts : SortCommands id deleteThenFetch deleteThenFetch := by
    rw [← kept]
    exact sortCommands_sorts id deleteThenFetch
  refine ⟨w, made, live, sortCommands_sorts _ _, kept.symm ▸ fails, ?_⟩
  intro all
  have noMerge : ∀ command ∈ deleteThenFetch, command.isMerge = false := by
    simp [deleteThenFetch, CommandPayload.isMerge]
  exact (all _ sorts).updateFirst noMerge w (EntityId.new 0 0) live fails

end Example

end Cecs

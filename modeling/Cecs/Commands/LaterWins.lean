import Cecs.Commands.Effects
import Cecs.Commands.Sort

/-! # Commands that contend

Two commands of one buffer contend if they write the same resource or update the same
entity. These are the orders in which `apply_commands` reaches them, and what is left of
the writes of a resource. -/

namespace Cecs

open Foundation

section Placed

variable {Value : Type}

/-- The resource that a command writes. -/
def ResourceCommand.ty : ResourceCommand Value → TypeId
  | .Insert ty _ => ty
  | .Delete ty => ty

/-- The entities that an update action changes. -/
def EntityAction.updated : EntityAction → List EntityId
  | .Fetch id => [id]
  | .Merge src dst => [src, dst]
  | _ => []

/-- The commands are of one class and have a target in common. -/
def CommandPayload.Contends : CommandPayload Value → CommandPayload Value → Prop
  | .Resource first, .Resource second => first.ty = second.ty
  | .Entity first, .Entity second =>
      ∃ id, id ∈ first.action.updated ∧ id ∈ second.action.updated
  | _, _ => False

/-- What a command leaves in a resource that it writes. -/
def CommandPayload.writes (ty : TypeId) : CommandPayload Value → Option (Option Value)
  | .Resource (.Insert other value) => if other = ty then some (some value) else none
  | .Resource (.Delete other) => if other = ty then some none else none
  | _ => none

/-- A queued command with its buffer and its place there. -/
structure Placed (Value : Type) where
  buffer : Nat
  place : Nat
  payload : CommandPayload Value

def placedIn (number : Nat) (buffer : List (CommandPayload Value)) : List (Placed Value) :=
  buffer.zipIdx.map fun (payload, place) => ⟨number, place, payload⟩

/-- The queued commands, buffer by buffer, as `apply_commands` drains them. -/
def placed (buffers : List (List (CommandPayload Value))) : List (Placed Value) :=
  buffers.zipIdx.flatMap fun (buffer, number) => placedIn number buffer

/-- Commands of one buffer that contend stand in the order they were queued in. -/
def InQueueOrder (sorted : List (Placed Value)) : Prop :=
  sorted.Pairwise fun x y =>
    x.buffer = y.buffer → x.payload.Contends y.payload → x.place < y.place

/-- No two commands of one buffer contend. -/
def Uncontended (buffers : List (List (CommandPayload Value))) : Prop :=
  ∀ buffer ∈ buffers, buffer.Pairwise fun x y => ¬x.Contends y

variable {buffers : List (List (CommandPayload Value))} {sorted : List (Placed Value)}

theorem CommandPayload.Contends.symm {x y : CommandPayload Value} (contends : x.Contends y) :
    y.Contends x := by
  cases x <;> cases y <;> first
    | exact Eq.symm contends
    | exact contends.imp fun _ both => both.symm
    | cases contends

theorem CommandPayload.Contends.sameKind {x y : CommandPayload Value}
    (contends : x.Contends y) : x.cmdTy = y.cmdTy := by
  cases x <;> cases y <;> first
    | rfl
    | cases contends

theorem map_payload_placedIn (number : Nat) (buffer : List (CommandPayload Value)) :
    (placedIn number buffer).map Placed.payload = buffer := by
  simp only [placedIn, List.map_map, Function.comp_def, List.zipIdx_map_fst]

theorem map_payload_placed (buffers : List (List (CommandPayload Value))) :
    (placed buffers).map Placed.payload = buffers.flatten := by
  calc (placed buffers).map Placed.payload
      = buffers.zipIdx.flatMap Prod.fst := by
        simp only [placed, List.map_flatMap, map_payload_placedIn]
    _ = (buffers.zipIdx.map Prod.fst).flatten := List.flatMap_def
    _ = buffers.flatten := by rw [List.zipIdx_map_fst]

theorem mem_placedIn {number : Nat} {buffer : List (CommandPayload Value)} {x : Placed Value} :
    x ∈ placedIn number buffer ↔ number = x.buffer ∧ buffer[x.place]? = some x.payload := by
  simp only [placedIn, List.mem_map, Prod.exists, List.mem_zipIdx_iff_getElem?]
  constructor
  · rintro ⟨payload, place, found, rfl⟩
    exact ⟨rfl, found⟩
  · rintro ⟨rfl, found⟩
    exact ⟨x.payload, x.place, found, rfl⟩

theorem mem_placed {x : Placed Value} :
    x ∈ placed buffers ↔
      ∃ buffer, buffers[x.buffer]? = some buffer ∧ buffer[x.place]? = some x.payload := by
  simp only [placed, List.mem_flatMap, Prod.exists, List.mem_zipIdx_iff_getElem?, mem_placedIn]
  constructor
  · rintro ⟨buffer, _, found, rfl, foundPayload⟩
    exact ⟨buffer, found, foundPayload⟩
  · rintro ⟨buffer, found, foundPayload⟩
    exact ⟨buffer, x.buffer, found, rfl, foundPayload⟩

theorem pairwise_zipIdx {α : Type} (values : List α) :
    values.zipIdx.Pairwise fun x y => x.2 < y.2 := by
  rw [← List.pairwise_map, List.zipIdx_map_snd]
  exact List.pairwise_lt_range'

theorem pairwise_placedIn (number : Nat) (buffer : List (CommandPayload Value)) :
    (placedIn number buffer).Pairwise fun x y => x.place < y.place := by
  rw [placedIn, List.pairwise_map]
  exact pairwise_zipIdx buffer

/-- Buffer by buffer, each in its order. -/
theorem pairwise_placed (buffers : List (List (CommandPayload Value))) :
    (placed buffers).Pairwise fun x y =>
      x.buffer < y.buffer ∨ x.buffer = y.buffer ∧ x.place < y.place := by
  rw [placed, List.pairwise_flatMap]
  constructor
  · rintro ⟨buffer, number⟩ _
    apply (pairwise_placedIn number buffer).imp_of_mem
    intro x y memberX memberY before
    exact Or.inr ⟨(mem_placedIn.mp memberX).1.symm.trans (mem_placedIn.mp memberY).1, before⟩
  · apply (pairwise_zipIdx buffers).imp
    intro first second before x memberX y memberY
    rw [← (mem_placedIn.mp memberX).1, ← (mem_placedIn.mp memberY).1]
    exact Or.inl before

theorem nodup_placed (buffers : List (List (CommandPayload Value))) : (placed buffers).Nodup := by
  refine (pairwise_placed buffers).imp ?_
  rintro x _ before rfl
  omega

theorem inQueueOrder_placed (buffers : List (List (CommandPayload Value))) :
    InQueueOrder (placed buffers) := by
  refine (pairwise_placed buffers).imp ?_
  intro x y before same _
  omega

theorem Uncontended.inQueueOrder (uncontended : Uncontended buffers)
    (perm : sorted.Perm (placed buffers)) : InQueueOrder sorted := by
  apply (perm.nodup_iff.mpr (nodup_placed buffers)).pairwise_of_forall_ne
  intro x memberX y memberY different same contends
  rcases mem_placed.mp (perm.mem_iff.mp memberX) with ⟨buffer, found, foundX⟩
  rcases mem_placed.mp (perm.mem_iff.mp memberY) with ⟨other, foundOther, foundY⟩
  rw [← same, found, Option.some.injEq] at foundOther
  subst foundOther
  rcases List.getElem?_eq_some_iff.mp foundX with ⟨insideX, valueX⟩
  rcases List.getElem?_eq_some_iff.mp foundY with ⟨insideY, valueY⟩
  have none := List.pairwise_iff_getElem.mp (uncontended buffer (List.mem_of_getElem? found))
  rcases Nat.lt_trichotomy x.place y.place with before | samePlace | after
  · exact before
  · have payloads := foundX
    rw [samePlace, foundY, Option.some.injEq] at payloads
    cases x
    cases y
    cases same
    cases samePlace
    cases payloads
    exact absurd rfl different
  · have apart := none y.place x.place insideY insideX after
    rw [valueX, valueY] at apart
    exact absurd contends.symm apart

/-- An unstable sort may reverse two commands that contend. -/
theorem uncontended_of_forall_sorted
    (ordered : ∀ sorted, SortCommands Placed.payload (placed buffers) sorted →
      InQueueOrder sorted) : Uncontended buffers := by
  intro buffer member
  rcases List.mem_iff_getElem?.mp member with ⟨number, found⟩
  rw [List.pairwise_iff_getElem]
  intro i j insideI insideJ before contends
  let x : Placed Value := ⟨number, i, buffer[i]⟩
  let y : Placed Value := ⟨number, j, buffer[j]⟩
  have memberX : x ∈ placed buffers :=
    mem_placed.mpr ⟨buffer, found, List.getElem?_eq_getElem insideI⟩
  have memberY : y ∈ placed buffers :=
    mem_placed.mpr ⟨buffer, found, List.getElem?_eq_getElem insideJ⟩
  have different : x ≠ y := by
    intro same
    exact Nat.ne_of_lt before (congrArg Placed.place same)
  rcases perm_of_two_members memberX memberY different with ⟨rest, parts⟩
  rcases exists_sortCommands_before Placed.payload parts contends.sameKind.symm with
    ⟨sorted, sorts, reversed⟩
  have after : j < i :=
    List.pairwise_iff_forall_sublist.mp (ordered sorted sorts) reversed rfl contends.symm
  omega

/-- A sort that keeps the order of one kind keeps that of commands that contend. -/
theorem inQueueOrder_sortCommands (buffers : List (List (CommandPayload Value))) :
    InQueueOrder (sortCommands Placed.payload (placed buffers)) := by
  have ofOneKind : ∀ x y : Placed Value,
      (x.buffer = y.buffer → x.payload.Contends y.payload → x.place < y.place) ↔
        (x.payload.cmdTy = y.payload.cmdTy → x.buffer = y.buffer →
          x.payload.Contends y.payload → x.place < y.place) := by
    intro x y
    constructor
    · exact fun ordered _ => ordered
    · exact fun ordered same contends => ordered contends.sameKind same contends
  rw [InQueueOrder, List.Pairwise.iff ofOneKind, sortCommands_eq, pairwise_stableSortBy_iff,
    ← List.Pairwise.iff ofOneKind]
  exact inQueueOrder_placed buffers

end Placed

section Resources

variable {Value : Type} [UnitTypeId] {w after : World Value} {id : EntityId}
  {result : WorldResult Unit}

namespace World

theorem resources_setBundle {bundle : Bundle Value}
    (set : w.setBundle id bundle = some (result, after)) : after.resources = w.resources := by
  rcases setBundle_relocated set with rfl | ⟨_, _, _, base, _, relocated, rfl | ⟨_, rfl⟩⟩
  · rfl
  · exact relocated.shifts.resources
  · exact relocated.shifts.resources

theorem resources_removeComponent {ty : TypeId}
    (removed : w.removeComponent id ty = some (result, after)) :
    after.resources = w.resources := by
  rcases removeComponent_relocated removed with
    rfl | ⟨_, _, _, base, _, _, relocated, rfl | ⟨_, rfl⟩⟩
  · rfl
  · exact relocated.shifts.resources
  · exact relocated.shifts.resources

omit [UnitTypeId] in
theorem resources_entryOrInsert (w : World Value) (key : TypeHash) (table : EntityTable Value) :
    (w.entryOrInsert key table).2.resources = w.resources := by
  rw [entryOrInsert]
  split <;> rfl

theorem resources_mergeEntities {lhs rhs : EntityId}
    (merged : w.mergeEntities lhs rhs = some (result, after)) :
    after.resources = w.resources := by
  rw [mergeEntities] at merged
  split at merged
  · cases merged
    rfl
  · rename_i different
    split at merged
    · rename_i lhsArch lhsIndex rhsArch rhsIndex liveLhs liveRhs
      simp only [Option.bind_eq_bind, Option.bind_eq_some_iff] at merged
      rcases merged with ⟨lhsTable, foundLhs, rhsTable, foundRhs, merged⟩
      split at merged
      · exact (mergeSameType_evolves merged).resources
      · rename_i differentTy
        have differentArch : lhsArch ≠ rhsArch := by
          rintro rfl
          rw [foundRhs, Option.some.injEq] at foundLhs
          exact differentTy (congrArg EntityTable.ty foundLhs.symm)
        split at merged
        · exact (mergeIntoRhs_evolves liveLhs differentArch merged).resources
        · split at merged
          · exact (mergeIntoLhs_evolves different differentArch liveLhs liveRhs merged).resources
          · simp only [mergeIntoThird, Option.bind_eq_bind, Option.bind_eq_some_iff,
              Option.pure_def, Option.some.injEq, Prod.mk.injEq] at merged
            rcases merged with ⟨_, _, _, _, ⟨_, _, shifted⟩, move, _, _, _, _, _, _, _, _, _, _,
              _, _, _, _, _, _, _, rfl⟩
            exact (moveEntity_shifts move).1.resources.trans (resources_entryOrInsert ..)
    · cases merged
      rfl

end World

omit [UnitTypeId] in
theorem forEach_resources {α : Type} {step : α → Effect Value}
    (kept : ∀ item w after result, step item w = some (result, after) →
      after.resources = w.resources) {items : List α}
    (looped : forEach step items w = some (result, after)) :
    after.resources = w.resources := by
  have same : ∀ item middle next result, middle.resources = w.resources →
      step item middle = some (result, next) → next.resources = w.resources :=
    fun item middle next result before applied =>
      (kept item middle next result applied).trans before
  have safely : along step (fun _ _ => true) items w = true := along_true step items w
  rcases forEach_invariant
    (fun middle => middle.resources = w.resources) (fun middle => middle.resources = w.resources)
    (fun item middle next before _ => same item middle next _ before)
    (fun item middle next error before _ => same item middle next _ before)
    rfl safely looped with ⟨_, kept⟩ | ⟨_, kept⟩
  · exact kept
  · exact kept

theorem ComponentCommand.resources_apply {command : ComponentCommand Value}
    (applied : command.apply id w = some (result, after)) : after.resources = w.resources := by
  cases command with
  | Insert bundle => exact World.resources_setBundle applied
  | Delete ty =>
      simp only [apply, Option.bind_eq_bind, Option.bind_eq_some_iff] at applied
      rcases applied with ⟨⟨outcome, middle⟩, removed, applied⟩
      have kept := World.resources_removeComponent removed
      split at applied
      · rename_i same
        cases same
        cases applied
        exact kept
      · cases applied
        exact kept

theorem EntityCommands.resources_applyPayload {payload : List (ComponentCommand Value)}
    (applied : applyPayload payload id w = some (result, after)) :
    after.resources = w.resources := by
  rw [applyPayload] at applied
  split at applied
  · exact forEach_resources (fun _ _ _ _ => ComponentCommand.resources_apply) applied
  · cases applied
    rfl

variable [BuiltinValues Value]

theorem EntityCommands.resources_apply {commands : EntityCommands Value}
    (applied : commands.apply w = some (result, after)) : after.resources = w.resources := by
  rcases commands with ⟨action, payload⟩
  cases action with
  | Fetch id => exact resources_applyPayload applied
  | Init id =>
      simp only [apply, Option.bind_eq_bind, Option.bind_eq_some_iff] at applied
      rcases applied with ⟨first, init, second, reserve, applied⟩
      rw [resources_applyPayload applied, (World.reserveEntities_evolves reserve).resources,
        (World.initId_evolves init).resources]
  | InsertId id =>
      simp only [apply, Option.bind_eq_bind, Option.bind_eq_some_iff] at applied
      rcases applied with ⟨⟨outcome, middle⟩, inserted, applied⟩
      have kept := (World.insertId_evolves inserted).resources
      split at applied
      · rename_i same
        cases same
        cases applied
        exact kept
      · rename_i same
        cases same
        rw [resources_applyPayload applied, kept]
  | Insert =>
      simp only [apply, Option.bind_eq_bind, Option.bind_eq_some_iff] at applied
      rcases applied with ⟨⟨id, middle⟩, inserted, applied⟩
      rw [resources_applyPayload applied, (World.insertEntity_evolves inserted).resources]
  | Delete id =>
      simp only [apply, Option.bind_eq_bind, Option.bind_eq_some_iff, Option.pure_def,
        Option.some.injEq, Prod.mk.injEq] at applied
      rcases applied with ⟨⟨outcome, middle⟩, deleted, _, rfl⟩
      exact (World.deleteEntity_evolves deleted).resources
  | Merge src dst => exact World.resources_mergeEntities applied

theorem resources_apply {command : CommandPayload Value} (ty : TypeId)
    (applied : command.apply w = some (result, after)) :
    after.resources[ty]? = (command.writes ty).getD w.resources[ty]? := by
  cases command with
  | Entity commands =>
      rw [EntityCommands.resources_apply applied]
      rfl
  | Resource command =>
      cases command with
      | Insert other value =>
          cases applied
          simp only [World.insertResource, BTreeMap.getElem?_insert, CommandPayload.writes]
          split <;> rfl
      | Delete other =>
          cases applied
          simp only [World.removeResource, BTreeMap.getElem?_erase, CommandPayload.writes]
          split <;> rfl
  | World command =>
      cases command
      simp only [CommandPayload.apply, WorldCommands.apply, Option.bind_eq_bind,
        Option.bind_eq_some_iff, Option.pure_def, Option.some.injEq, Prod.mk.injEq] at applied
      rcases applied with ⟨middle, reserved, _, rfl⟩
      rw [(World.reserveEntities_evolves reserved).resources]
      rfl

/-- Of the commands of the batch that write a resource, the last one counts. -/
theorem resources_applyBatch {batch : List (CommandPayload Value)} (ty : TypeId)
    (applied : applyBatch batch w = some (.ok (), after)) :
    after.resources[ty]? =
      (batch.filterMap (CommandPayload.writes ty)).getLast?.getD w.resources[ty]? := by
  induction batch generalizing w with
  | nil =>
      cases applied
      rfl
  | cons command rest induction =>
      rcases forEach_cons applied with ⟨middle, first, looped⟩ | ⟨error, _, same⟩
      · rw [induction looped, resources_apply ty first, List.filterMap_cons]
        cases command.writes ty with
        | none => rfl
        | some written =>
            rw [Option.getD_some, List.getLast?_cons]
            cases (rest.filterMap (CommandPayload.writes ty)).getLast? <;> rfl
      · cases same

end Resources

section Batch

variable {Value : Type} {buffers : List (List (CommandPayload Value))}
  {sorted : List (Placed Value)} {ty : TypeId}

theorem contends_of_writes {x y : CommandPayload Value} (first : (x.writes ty).isSome)
    (second : (y.writes ty).isSome) : x.Contends y := by
  have target : ∀ {command : CommandPayload Value}, (command.writes ty).isSome →
      ∃ resource, command = .Resource resource ∧ resource.ty = ty := by
    intro command writes
    match command with
    | .Resource (.Insert other value) =>
        by_cases same : other = ty
        · exact ⟨_, rfl, same⟩
        · simp [CommandPayload.writes, same] at writes
    | .Resource (.Delete other) =>
        by_cases same : other = ty
        · exact ⟨_, rfl, same⟩
        · simp [CommandPayload.writes, same] at writes
    | .Entity _ => cases writes
    | .World _ => cases writes
  rcases target first with ⟨_, rfl, rfl⟩
  rcases target second with ⟨_, rfl, same⟩
  exact same.symm

/-- Commands of one buffer that all contend stand in the sorted batch as they do in the
buffer. -/
theorem filter_sorted {picks : CommandPayload Value → Bool}
    (contend : ∀ x y : CommandPayload Value, picks x = true → picks y = true → x.Contends y)
    (inOrder : InQueueOrder sorted) (perm : sorted.Perm (placed buffers)) {number : Nat}
    {buffer : List (CommandPayload Value)} (found : buffers[number]? = some buffer)
    (only : ∀ x ∈ placed buffers, picks x.payload = true → x.buffer = number) :
    (sorted.map Placed.payload).filter picks = buffer.filter picks := by
  let picked : Placed Value → Bool := fun x => picks x.payload
  have kept : ∀ values : List (Placed Value),
      (values.map Placed.payload).filter picks = (values.filter picked).map Placed.payload :=
    fun values => List.filter_map
  have samePicks : (sorted.filter picked).Perm ((placedIn number buffer).filter picked) := by
    have nodupSorted := perm.nodup_iff.mpr (nodup_placed buffers)
    have nodupIn : (placedIn number buffer).Nodup := by
      apply (pairwise_placedIn number buffer).imp
      rintro x _ before rfl
      omega
    rw [List.perm_ext_iff_of_nodup (nodupSorted.filter _) (nodupIn.filter _)]
    intro x
    simp only [List.mem_filter, perm.mem_iff, mem_placedIn]
    apply and_congr_left
    intro picksX
    constructor
    · intro member
      rcases mem_placed.mp member with ⟨other, foundOther, foundPayload⟩
      have same := only x member picksX
      rw [same, found, Option.some.injEq] at foundOther
      exact ⟨same.symm, foundOther ▸ foundPayload⟩
    · rintro ⟨rfl, foundPayload⟩
      exact mem_placed.mpr ⟨buffer, found, foundPayload⟩
  have sortedPlaces : (sorted.filter picked).Pairwise fun x y => x.place < y.place := by
    apply (inOrder.filter picked).imp_of_mem
    intro x y memberX memberY ordered
    rcases List.mem_filter.mp memberX with ⟨inSortedX, picksX⟩
    rcases List.mem_filter.mp memberY with ⟨inSortedY, picksY⟩
    have sameBuffer : x.buffer = y.buffer :=
      (only x (perm.mem_iff.mp inSortedX) picksX).trans
        (only y (perm.mem_iff.mp inSortedY) picksY).symm
    exact ordered sameBuffer (contend _ _ picksX picksY)
  have equal : sorted.filter picked = (placedIn number buffer).filter picked := by
    apply samePicks.eq_of_pairwise _ sortedPlaces ((pairwise_placedIn number buffer).filter _)
    intro x y _ _ before after
    omega
  rw [kept, equal, ← kept, map_payload_placedIn]

/-- The writes of a resource stand in the sorted batch as they do in the buffer. -/
theorem filterMap_writes_sorted (inOrder : InQueueOrder sorted)
    (perm : sorted.Perm (placed buffers)) {number : Nat} {buffer : List (CommandPayload Value)}
    (found : buffers[number]? = some buffer)
    (only : ∀ x ∈ placed buffers, (x.payload.writes ty).isSome → x.buffer = number) :
    (sorted.map Placed.payload).filterMap (CommandPayload.writes ty) =
      buffer.filterMap (CommandPayload.writes ty) := by
  have kept : ∀ commands : List (CommandPayload Value),
      commands.filterMap (CommandPayload.writes ty) =
        (commands.filter fun command => (command.writes ty).isSome).filterMap
          (CommandPayload.writes ty) := by
    intro commands
    rw [List.filterMap_filter]
    congr 1
    funext command
    cases writes : command.writes ty <;> simp
  rw [kept, kept buffer,
    filter_sorted (fun _ _ => contends_of_writes) inOrder perm found only]

/-- The orders of the batch are those of the queued commands with their places. -/
theorem sortCommands_queuedCommands_iff {w : World Value} {batch : List (CommandPayload Value)} :
    SortCommands id w.queuedCommands batch ↔
      ∃ sorted, SortCommands Placed.payload (placed w.commands) sorted ∧
        sorted.map Placed.payload = batch := by
  simp only [sortCommands_iff, World.queuedCommands, ← map_payload_placed]
  constructor
  · intro sorts
    have lifted := congrFun (congrFun (List.eq_map_comp_perm Placed.payload) batch)
      (placed w.commands)
    rcases lifted.mpr sorts.perm with ⟨sorted, rfl, perm⟩
    have ordered := sorts.ordered
    rw [List.pairwise_map] at ordered
    exact ⟨sorted, ⟨perm, ordered⟩, rfl⟩
  · rintro ⟨sorted, sorts, rfl⟩
    exact ⟨sorts.perm.map _, List.pairwise_map.mpr sorts.ordered⟩

theorem resources_moveArchetypes {w after : World Value}
    (moved : w.moveArchetypes = some after) : after.resources = w.resources := by
  have along : ∀ (move : World Value → TypeHash → Option (World Value)),
      (∀ w key after, move w key = some after → after.resources = w.resources) →
      ∀ (keys : List TypeHash) (w after : World Value), keys.foldlM move w = some after →
        after.resources = w.resources := by
    intro move kept keys
    induction keys with
    | nil =>
        intro w after moved
        cases moved
        rfl
    | cons key keys induction =>
        intro w after moved
        rw [List.foldlM_cons, Option.bind_eq_bind, Option.bind_eq_some_iff] at moved
        rcases moved with ⟨middle, first, rest⟩
        exact (induction middle after rest).trans (kept w key middle first)
  simp only [World.moveArchetypes, Option.bind_eq_bind, Option.bind_eq_some_iff] at moved
  rcases moved with ⟨promoted, promotion, demotion⟩
  rw [along World.demote _ _ _ _ demotion, along World.promote _ _ _ _ promotion]
  · intro w key after promoted
    simp only [World.promote, Option.bind_eq_bind, Option.bind_eq_some_iff, Option.pure_def,
      Option.some.injEq] at promoted
    rcases promoted with ⟨_, _, rfl⟩
    rfl
  · intro w key after demoted
    simp only [World.demote, Option.bind_eq_bind, Option.bind_eq_some_iff, Option.pure_def,
      Option.some.injEq] at demoted
    rcases demoted with ⟨_, _, rfl⟩
    rfl

end Batch

end Cecs

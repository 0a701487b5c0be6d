import Cecs.Systems.Queue
import Cecs.Systems.References

/-! # Systems keep to what they declare

The types that a descriptor collects say which parts of the world its system may read
and write. Whatever the system does with its parameters stays within these parts. -/

namespace Cecs

open Foundation

namespace QueryProperties

variable [CommandSentinelTypeId]

/-- Commands are queued, and ids allocated for them, under the marker. -/
def Writes (self : QueryProperties) : Part → Prop
  | .column _ ty => ty ∈ self.compMut
  | .resource ty => ty ∈ self.resMut
  | .queue => commandSentinel ∈ self.resMut
  | _ => False

def Reads (self : QueryProperties) : Part → Prop
  | .column _ ty => ty ∈ self.compMut ∨ ty ∈ self.compConst
  | .resource ty => ty ∈ self.resMut ∨ ty ∈ self.resConst
  | .queue => commandSentinel ∈ self.resMut
  | _ => True

def footprint (self : QueryProperties) : Footprint Part where
  reads := {part | self.Reads part}
  writes := {part | self.Writes part}
  covered := by
    intro part writes
    cases part with
    | column ptr ty => exact Or.inl writes
    | resource ty => exact Or.inl writes
    | queue => exact writes
    | _ => trivial

variable {self other : QueryProperties}

theorem not_reads_of_writes
    (components : ∀ ty ∈ self.compMut, ty ∉ other.compMut ∧ ty ∉ other.compConst)
    (resources : ∀ ty ∈ self.resMut, ty ∉ other.resMut ∧ ty ∉ other.resConst) {part : Part}
    (writes : self.Writes part) : ¬other.Reads part := by
  intro reads
  cases part with
  | column ptr ty =>
      rcases reads with mutable | const
      · exact (components ty writes).1 mutable
      · exact (components ty writes).2 const
  | resource ty =>
      rcases reads with mutable | const
      · exact (resources ty writes).1 mutable
      · exact (resources ty writes).2 const
  | queue => exact (resources commandSentinel writes).1 reads
  | _ => exact writes

/-- What `is_disjoint` compares is enough. -/
theorem apart_of_isDisjoint (disjoint : self.isDisjoint other = true) :
    self.footprint.Apart other.footprint := by
  simp only [isDisjoint, Bool.and_eq_true, Bool.not_eq_true', decide_eq_true_eq,
    Finset.disjoint_left] at disjoint
  rcases disjoint with
    ⟨⟨⟨⟨⟨⟨_, mutConst⟩, resMutConst⟩, mutMut⟩, resMutMut⟩, constMut⟩, resConstMut⟩
  constructor
  · exact fun part => not_reads_of_writes
      (fun ty mutable => ⟨mutMut mutable, mutConst mutable⟩)
      (fun ty mutable => ⟨resMutMut mutable, resMutConst mutable⟩)
  · exact fun part => not_reads_of_writes
      (fun ty mutable => ⟨fun also => mutMut also mutable, fun also => constMut also mutable⟩)
      (fun ty mutable => ⟨fun also => resMutMut also mutable, fun also => resConstMut also mutable⟩)

end QueryProperties

/-- The footprint covers what the reference can be used for. -/
def Reference.Within (reference : Reference) (footprint : Footprint Part) : Prop :=
  .column reference.archetype reference.ty ∈ footprint.reads ∧
    (reference.access = .exclusive →
      .column reference.archetype reference.ty ∈ footprint.writes)

/-- The footprint covers what the handles can be used for. -/
structure Handles.Within (handles : Handles) (footprint : Footprint Part) : Prop where
  outline : .outline ∈ footprint.reads
  places : .places ∈ footprint.reads
  shared : ∀ leaf ∈ handles.leaves, ∀ access, ∀ ty ∈ leaf.borrowed access, ∀ ptr,
    .column ptr ty ∈ footprint.reads
  mutable : ∀ leaf ∈ handles.leaves, ∀ ty ∈ leaf.borrowed .exclusive, ∀ ptr,
    .column ptr ty ∈ footprint.writes
  resource : ∀ leaf ∈ handles.leaves, ∀ ty access, leaf.resource = some (ty, access) →
    .resource ty ∈ footprint.reads
  resourceMut : ∀ leaf ∈ handles.leaves, ∀ ty, leaf.resource = some (ty, .exclusive) →
    .resource ty ∈ footprint.writes
  commands : .commands ∈ handles.leaves → .queue ∈ footprint.writes
  worldAccess : .worldAccess ∉ handles.leaves
  references : ∀ reference ∈ handles.references, reference.Within footprint

section Instructions

variable {Value : Type} {handles : Handles} {footprint : Footprint Part} {ty : TypeId}

/-- The footprint of a query that a leaf hands out covers the queries derived from it. -/
theorem Handles.Within.derived (within : handles.Within footprint) {source derived : Query}
    (member : source ∈ handles.leaves.flatMap Param.queries) {derivations : List Derivation}
    (derives : derivations.foldlM (fun query derivation => derivation.derive query) source =
      some derived) (ptr : Ptr) :
    (∀ access, ∀ ty ∈ derived.fragment.borrowed access, .column ptr ty ∈ footprint.reads) ∧
      ∀ ty ∈ derived.fragment.borrowed .exclusive, .column ptr ty ∈ footprint.writes := by
  rcases List.mem_flatMap.mp member with ⟨leaf, inLeaves, inLeaf⟩
  have hands : source.fragment ∈ leaf.fragments := by
    cases leaf with
    | query q =>
        rw [List.mem_singleton.mp inLeaf]
        exact List.mem_cons_self
    | querySet queries => exact List.mem_map_of_mem inLeaf
    | _ => cases inLeaf
  have grants : ∀ access, source.fragment.borrowed access ⊆ leaf.borrowed access :=
    fun access ty borrows => Param.mem_borrowed.mpr ⟨_, hands, borrows⟩
  rcases derivations_borrowed derives with ⟨mutable, shared⟩
  have writes : ∀ ty ∈ derived.fragment.borrowed .exclusive, .column ptr ty ∈ footprint.writes :=
    fun ty borrows => within.mutable leaf inLeaves ty (grants .exclusive (mutable borrows)) ptr
  refine ⟨?_, writes⟩
  intro access ty borrows
  rcases QueryFragment.access_of_borrowed borrows with rfl | rfl
  · rcases Finset.mem_union.mp (shared borrows) with inMutable | inShared
    · exact within.shared leaf inLeaves .exclusive ty (grants .exclusive inMutable) ptr
    · exact within.shared leaf inLeaves .shared ty (grants .shared inShared) ptr
  · exact footprint.covered (writes ty borrows)

namespace Instruction

theorem query_confined (within : handles.Within footprint) (source : Query)
    (derivations : List Derivation) (method : QueryMethod) :
    Confined (World.parts Value) World.Indexed footprint
      ((Instruction.query source derivations method).run handles) := by
  apply confined_reading
  intro w other _ _ agree
  by_cases member : source ∈ handles.leaves.flatMap Param.queries
  · simp only [guard, if_pos member]
    cases derives : derivations.foldlM (fun query derivation => derivation.derive query) source with
    | none => rfl
    | some query =>
        let types := query.fragment.borrowed .shared ∪ query.fragment.borrowed .exclusive
        have borrows : query.fragment.Within types := by
          intro access ty borrowed
          rcases QueryFragment.access_of_borrowed borrowed with rfl | rfl
          · exact Finset.mem_union_left _ borrowed
          · exact Finset.mem_union_right _ borrowed
        have columns : ∀ ptr, ∀ ty ∈ types, w.column ptr ty = other.column ptr ty := by
          intro ptr ty listed
          have reads := (within.derived member derives ptr).1
          rcases Finset.mem_union.mp listed with shared | mutable
          · exact agree _ (reads .shared ty shared)
          · exact agree _ (reads .exclusive ty mutable)
        have same := method.answer_congr borrows (agree .outline within.outline) columns
          (agree .places within.places)
        exact congrArg some same
  · simp only [guard, if_neg member]
    rfl

theorem read_confined (within : handles.Within footprint) (reference : Reference) :
    Confined (World.parts Value) World.Indexed footprint
      ((Instruction.read reference).run handles) := by
  apply confined_reading
  intro w other _ _ agree
  by_cases member : reference ∈ handles.references
  · have column : w.column reference.archetype reference.ty =
        other.column reference.archetype reference.ty :=
      agree _ (within.references reference member).1
    rw [World.deref_eq, World.deref_eq, column]
  · simp only [guard, if_neg member]
    rfl

theorem write_confined (within : handles.Within footprint) (reference : Reference)
    (value : Value) :
    Confined (World.parts Value) World.Indexed footprint
      ((Instruction.write reference value).run handles) := by
  apply confined_guarded
  intro member
  apply confined_guarded
  intro exclusive
  apply Confined.of_single _ ((within.references reference member).2 exclusive)
  apply confined_change
  · intro w indexed
    exact indexed.congr World.same_writeCell.1
  · intro w part unwritten
    let after := w.writeCell reference.archetype reference.ty reference.row value
    have same : after.entityIds = w.entityIds ∧ after.resources = w.resources ∧
      after.commands = w.commands := World.same_writeCell
    rcases same with ⟨entityIds, resources, commands⟩
    change World.Agree part w after
    cases part with
    | column ptr ty =>
        have elsewhere : ¬(ptr = reference.archetype ∧ ty = reference.ty) := by
          rintro ⟨rfl, rfl⟩
          exact unwritten rfl
        exact ((World.column_writeCell ptr ty).trans (if_neg elsewhere)).symm
    | resource ty => exact congrArg (fun resources => resources[ty]?) resources.symm
    | outline => exact World.outline_writeCell.symm
    | places => exact congrArg EntityIndex.place entityIds.symm
    | queue => exact ⟨entityIds.symm, commands.symm⟩
  · rintro w other agree part rfl
    have same : w.column reference.archetype reference.ty =
        other.column reference.archetype reference.ty := agree _ rfl
    change _ = _
    rw [World.column_writeCell, World.column_writeCell, same]

theorem resource_confined (within : handles.Within footprint) (ty : TypeId) :
    Confined (World.parts Value) World.Indexed footprint
      ((Instruction.resource ty).run handles) := by
  apply confined_reading
  intro w other _ _ agree
  by_cases granted : ∃ leaf ∈ handles.leaves, leaf.resource.map Prod.fst = some ty
  · have same : w.resources[ty]? = other.resources[ty]? := by
      rcases granted with ⟨leaf, inLeaves, grants⟩
      rcases Option.map_eq_some_iff.mp grants with ⟨⟨_, access⟩, resource, rfl⟩
      exact agree (.resource _) (within.resource leaf inLeaves _ access resource)
    rw [same]
  · simp only [guard, if_neg granted]
    rfl

theorem insertResource_confined (ty : TypeId) (value : Value) :
    Confined (World.parts Value) World.Indexed (Footprint.single (.resource ty)) fun w =>
      some ((Response.done : Response Value), w.insertResource ty value) := by
  apply confined_change
  · exact fun w indexed => indexed.congr rfl
  · intro w part unwritten
    change World.Agree part w _
    cases part with
    | resource key =>
        have other : ¬ty = key := by
          rintro rfl
          exact unwritten rfl
        change _ = _
        rw [World.insertResource, BTreeMap.getElem?_insert, if_neg other]
    | queue => exact ⟨rfl, rfl⟩
    | _ => rfl
  · rintro w other _ part rfl
    change _ = _
    rw [World.insertResource, World.insertResource, BTreeMap.getElem?_insert,
      BTreeMap.getElem?_insert, if_pos rfl, if_pos rfl]

theorem setResource_confined (within : handles.Within footprint) (ty : TypeId) (value : Value) :
    Confined (World.parts Value) World.Indexed footprint
      ((Instruction.setResource ty value).run handles) := by
  apply confined_guarded
  rintro ⟨leaf, inLeaves, grants⟩
  apply Confined.of_single _ (within.resourceMut leaf inLeaves ty grants)
  have present : Confined (World.parts Value) World.Indexed (Footprint.single (.resource ty))
      (Action.reading fun w : World Value => guard (w.resources.contains ty = true)) := by
    apply confined_reading
    intro w other _ _ agree
    have same : w.resources[ty]? = other.resources[ty]? := agree (.resource ty) rfl
    rw [Std.ExtTreeMap.contains_eq_isSome_getElem?, Std.ExtTreeMap.contains_eq_isSome_getElem?,
      same]
  have both := present.andThen fun _ _ _ _ _ => insertResource_confined ty value
  convert both using 2 with w
  simp only [Action.andThen, Action.reading, Option.bind_map]
  rfl

theorem pushCommand_confined (within : handles.Within footprint)
    (command : CommandPayload Value) :
    Confined (World.parts Value) World.Indexed footprint
      ((Instruction.pushCommand command).run handles) := by
  apply confined_guarded
  intro member
  apply confined_guarded
  intro _
  apply Confined.of_single _ (within.commands member)
  apply confined_queue
  · intro w source
    simp only [World.pushCommand_withQueue, Option.bind_eq_bind, Option.bind_map,
      Option.map_bind]
    rfl
  · intro w after answer indexed done
    simp only [World.pushCommand, Option.bind_eq_bind, Option.bind_eq_some_iff, Option.pure_def,
      Option.some.injEq, Prod.mk.injEq] at done
    rcases done with ⟨_, ⟨_, _, rfl⟩, _, rfl⟩
    exact ⟨indexed.congr rfl, rfl⟩

theorem extendCommand_confined (within : handles.Within footprint)
    (command : ComponentCommand Value) :
    Confined (World.parts Value) World.Indexed footprint
      ((Instruction.extendCommand command).run handles) := by
  apply confined_guarded
  intro member
  apply Confined.of_single _ (within.commands member)
  apply confined_queue
  · intro w source
    simp only [World.extendCommand_withQueue, Option.bind_eq_bind, Option.bind_map,
      Option.map_bind]
    rfl
  · intro w after answer indexed done
    simp only [Option.bind_eq_bind, Option.bind_eq_some_iff, Option.pure_def,
      Option.some.injEq, Prod.mk.injEq] at done
    rcases done with ⟨_, extended, _, rfl⟩
    have same := World.index_extendCommand extended
    exact ⟨indexed.congr same, by rw [same]⟩

theorem commandId_confined (within : handles.Within footprint) :
    Confined (World.parts Value) World.Indexed footprint
      (Instruction.commandId.run handles) := by
  apply confined_guarded
  intro member
  apply confined_guarded
  intro _
  apply Confined.of_single _ (within.commands member)
  apply confined_queue
  · intro w source
    simp only [World.commandId_withQueue, Option.bind_eq_bind, Option.bind_map,
      Option.map_bind]
    rfl
  · intro w after answer indexed done
    simp only [Option.bind_eq_bind, Option.bind_eq_some_iff, Option.pure_def,
      Option.some.injEq, Prod.mk.injEq] at done
    rcases done with ⟨_, handed, _, rfl⟩
    exact indexed.commandId handed

theorem worldMut_confined (within : handles.Within footprint)
    (change : World Value → Option (World Value)) :
    Confined (World.parts Value) World.Indexed footprint
      ((Instruction.worldMut change).run handles) :=
  confined_guarded fun member => absurd member within.worldAccess

/-- One instruction stays within the footprint of the handles. -/
theorem run_confined (within : handles.Within footprint) (instruction : Instruction Value) :
    Confined (World.parts Value) World.Indexed footprint (instruction.run handles) := by
  cases instruction with
  | query source derivations method => exact query_confined within source derivations method
  | read reference => exact read_confined within reference
  | write reference value => exact write_confined within reference value
  | resource ty => exact resource_confined within ty
  | setResource ty value => exact setResource_confined within ty value
  | pushCommand command => exact pushCommand_confined within command
  | extendCommand command => exact extendCommand_confined within command
  | commandId => exact commandId_confined within
  | worldMut change => exact worldMut_confined within change

/-- What an instruction hands out can be used within the footprint. -/
theorem references_within (within : handles.Within footprint) {instruction : Instruction Value}
    {w after : World Value} {answer : Response Value}
    (done : instruction.run handles w = some (answer, after)) :
    ∀ reference ∈ answer.references, reference.Within footprint := by
  cases instruction with
  | query source derivations method =>
      simp only [run, Action.reading_eq_some, Option.bind_eq_bind, Option.bind_eq_some_iff,
        Option.guard_eq_some', Option.pure_def, Option.some.injEq] at done
      rcases done with ⟨⟨_, member, query, derives, rfl⟩, rfl⟩
      have cells : ∀ mutable ptr (table : EntityTable Value), query.fragment.Cells
          (QueryFragment.refColumns .shared mutable ptr table)
          fun reference => reference.Within footprint := by
        intro mutable ptr table ty access borrows cells found cell inCells
        rcases Option.map_eq_some_iff.mp found with ⟨column, _, rfl⟩
        rcases List.mem_map.mp inCells with ⟨row, _, rfl⟩
        rcases within.derived member derives ptr with ⟨reads, writes⟩
        refine ⟨reads access ty borrows, fun exclusive => ?_⟩
        by_cases isExclusive : access = .exclusive
        · exact writes ty (isExclusive ▸ borrows)
        · simp [isExclusive] at exclusive
      exact method.references_answer cells
  | read reference =>
      simp only [run, Action.reading_eq_some, Option.bind_eq_bind, Option.bind_eq_some_iff,
        Option.pure_def, Option.some.injEq] at done
      rcases done with ⟨⟨_, _, _, _, rfl⟩, _⟩
      exact List.forall_mem_nil _
  | resource ty =>
      simp only [run, Action.reading_eq_some, Option.bind_eq_bind, Option.bind_eq_some_iff,
        Option.pure_def, Option.some.injEq] at done
      rcases done with ⟨⟨_, _, rfl⟩, _⟩
      exact List.forall_mem_nil _
  | _ =>
      simp only [run, Option.bind_eq_bind, Option.bind_eq_some_iff, Option.pure_def,
        Option.some.injEq, Prod.mk.injEq] at done
      have nothing : answer.references = [] := by
        grind [Response.references]
      rw [nothing]
      exact List.forall_mem_nil _

end Instruction

theorem Handles.Within.receive (within : handles.Within footprint) {answer : Response Value}
    (covered : ∀ reference ∈ answer.references, reference.Within footprint) :
    (handles.receive answer).Within footprint :=
  { within with
    references := by
      intro reference member
      rcases List.mem_append.mp member with held | received
      · exact within.references reference held
      · exact covered reference received }

theorem Program.run_confined (program : Program Value) (within : handles.Within footprint) :
    Confined (World.parts Value) World.Indexed footprint (program.run handles) := by
  induction program generalizing handles with
  | finish =>
      have quiet : Confined (World.parts Value) World.Indexed footprint
          (Action.reading fun _ => some ()) := confined_reading fun _ _ _ _ _ => rfl
      exact quiet
  | panic => exact confined_none
  | step instruction next induction =>
      apply (instruction.run_confined within).andThen
      intro w after answer _ done
      exact induction answer (within.receive (Instruction.references_within within done))

end Instructions

namespace Param

/-- The parameters of a system as one. -/
def tuple (params : List Param) : Param := params.foldr .pair .unit

theorem leaves_tuple (params : List Param) : (tuple params).leaves = params.flatMap leaves := by
  induction params with
  | nil => rfl
  | cons param params induction => exact congrArg (param.leaves ++ ·) induction

theorem componentsMut_tuple (params : List Param) (set : Finset TypeId) :
    (tuple params).componentsMut set =
      params.foldlM (fun set param => param.componentsMut set) set := by
  induction params generalizing set with
  | nil => rfl
  | cons param params induction => exact bind_congr fun middle => induction middle

theorem componentsConst_tuple (params : List Param) (set : Finset TypeId) :
    (tuple params).componentsConst set =
      params.foldlM (fun set param => param.componentsConst set) set := by
  induction params generalizing set with
  | nil => rfl
  | cons param params induction => exact bind_congr fun middle => induction middle

theorem resourcesMut_tuple [CommandSentinelTypeId] (params : List Param) (set : Finset TypeId) :
    (tuple params).resourcesMut set =
      params.foldl (fun set param => param.resourcesMut set) set := by
  induction params generalizing set with
  | nil => rfl
  | cons param params induction => exact induction (param.resourcesMut set)

theorem resourcesConst_tuple (params : List Param) (set : Finset TypeId) :
    (tuple params).resourcesConst set =
      params.foldl (fun set param => param.resourcesConst set) set := by
  induction params generalizing set with
  | nil => rfl
  | cons param params induction => exact induction (param.resourcesConst set)

theorem exclusive_tuple (params : List Param) :
    (tuple params).exclusive = params.any exclusive := by
  induction params with
  | nil => rfl
  | cons param params induction => exact congrArg (param.exclusive || ·) induction

end Param

section Execution

variable [CommandSentinelTypeId] {Body Value : Type} {props : QueryProperties}

/-- The descriptor of a system declares what its parameters give access to. -/
theorem declares_of_fromSystem {desc : SystemDescriptor Body}
    (collected : QueryProperties.fromSystem desc = some props) :
    (Param.tuple desc.params).Declares props := by
  simp only [QueryProperties.fromSystem, Option.bind_eq_bind, Option.bind_eq_some_iff,
    Option.pure_def, Option.some.injEq] at collected
  rcases collected with ⟨compMut, mutable, compConst, shared, rfl⟩
  have declares := Param.declares_of_components
    ((Param.componentsMut_tuple _ _).trans mutable) ((Param.componentsConst_tuple _ _).trans shared)
  rw [Param.exclusive_tuple, Param.resourcesMut_tuple, Param.resourcesConst_tuple] at declares
  exact declares

theorem exclusive_of_fromSystem {desc : SystemDescriptor Body}
    (collected : QueryProperties.fromSystem desc = some props) :
    props.exclusive = desc.exclusive := by
  simp only [QueryProperties.fromSystem, Option.bind_eq_bind, Option.bind_eq_some_iff,
    Option.pure_def, Option.some.injEq] at collected
  rcases collected with ⟨_, _, _, _, rfl⟩
  rfl

theorem Param.Declares.within {param : Param} (declares : param.Declares props)
    (shared : props.exclusive = false) (systemIdx : Nat) :
    Handles.Within { leaves := param.leaves, systemIdx, references := [] } props.footprint where
  outline := trivial
  places := trivial
  shared leaf member access ty borrows ptr := (declares.borrowed member borrows).symm
  mutable leaf member ty borrows ptr := declares.compMut leaf member ty borrows
  resource leaf member ty access grants := Or.inr (declares.resConst leaf member ty access grants)
  resourceMut leaf member ty grants := declares.resMut leaf member ty grants
  commands member := declares.commands member
  worldAccess member := by
    rw [declares.exclusive member] at shared
    cases shared
  references := List.forall_mem_nil _

/-- Whether the parameters can be made does not depend on the rest of the world. -/
theorem ErasedSystem.isReady_congr (system : ErasedSystem (Program Value))
    (collected : QueryProperties.fromSystem system.descriptor = some props)
    (shared : props.exclusive = false) {w other : World Value}
    (agree : ∀ part ∈ props.footprint.reads, (World.parts Value).Agree part w other) :
    (∀ leaf ∈ system.descriptor.params.flatMap Param.leaves,
        leaf.isReady system.systemIdx w = true) ↔
      ∀ leaf ∈ system.descriptor.params.flatMap Param.leaves,
        leaf.isReady system.systemIdx other = true := by
  have within := (declares_of_fromSystem collected).within shared system.systemIdx
  rw [Param.leaves_tuple] at within
  have ready : ∀ leaf ∈ system.descriptor.params.flatMap Param.leaves,
      leaf.isReady system.systemIdx w = leaf.isReady system.systemIdx other := by
    intro leaf member
    have resource : ∀ ty access, leaf.resource = some (ty, access) →
        w.resources.contains ty = other.resources.contains ty := by
      intro ty access grants
      have same : w.resources[ty]? = other.resources[ty]? :=
        agree _ (within.resource leaf member ty access grants)
      rw [Std.ExtTreeMap.contains_eq_isSome_getElem?, Std.ExtTreeMap.contains_eq_isSome_getElem?,
        same]
    cases leaf with
    | res ty => exact resource ty .shared rfl
    | resMut ty => exact resource ty .exclusive rfl
    | commands =>
        have reads : Part.queue ∈ props.footprint.reads :=
          props.footprint.covered (within.commands member)
        have queue : World.Agree .queue w other := agree .queue reads
        exact congrArg (fun buffers : List (List (CommandPayload Value)) =>
          decide (system.systemIdx < buffers.length)) queue.2
    | _ => rfl
  exact forall₂_congr fun leaf member => by rw [ready leaf member]

theorem ErasedSystem.execute_confined (system : ErasedSystem (Program Value))
    (collected : QueryProperties.fromSystem system.descriptor = some props)
    (shared : props.exclusive = false) :
    Confined (World.parts Value) World.Indexed props.footprint system.execute := by
  have within := (declares_of_fromSystem collected).within shared system.systemIdx
  rw [Param.leaves_tuple] at within
  refine Confined.andThen ?_ fun _ _ _ _ _ => system.descriptor.factory.run_confined within
  apply confined_reading
  intro w other _ _ agree
  have all := system.isReady_congr collected shared agree
  apply bind_congr
  intro _
  by_cases isReady : ∀ leaf ∈ system.descriptor.params.flatMap Param.leaves,
      leaf.isReady system.systemIdx other = true
  · simp only [guard]
    rw [if_pos isReady, if_pos (all.mpr isReady)]
  · simp only [guard]
    rw [if_neg isReady, if_neg fun here => isReady (all.mp here)]

end Execution

end Cecs

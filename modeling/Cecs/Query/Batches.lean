import Mathlib.Data.PNat.Basic
import Cecs.Query.Rows
import Cecs.Foundation.Buckets

/-! # Queries in batches

`par_for_each` cuts every table into ranges of rows and leaves each range to a
job. The ranges cover a table without overlap, and the slices that a fragment
takes of its columns meet at the same rows. -/

namespace Cecs

open Foundation

/-- A half-open range of indices. -/
structure Range where
  start : Nat
  stop : Nat
  deriving DecidableEq, Repr

namespace Range

def len (self : Range) : Nat := self.stop - self.start

def indices (self : Range) : List Nat := List.range' self.start self.len

/-- The part of the list in the range. -/
def slice {α : Type} (self : Range) (values : List α) : List α :=
  (values.drop self.start).take self.len

/-- Each range starts where the one before it stops. -/
def Tiles (start stop : Nat) : List Range → Prop
  | [] => start = stop
  | head :: tail => head.start = start ∧ head.start ≤ head.stop ∧ Tiles head.stop stop tail

variable {α : Type} {start middle stop : Nat} {left right : List Range}

theorem Tiles.le (tiles : Tiles start stop left) : start ≤ stop := by
  induction left generalizing start with
  | nil => exact le_of_eq tiles
  | cons head tail induction =>
      rcases tiles with ⟨rfl, ordered, tiles⟩
      exact ordered.trans (induction tiles)

theorem Tiles.append (first : Tiles start middle left) (second : Tiles middle stop right) :
    Tiles start stop (left ++ right) := by
  induction left generalizing start with
  | nil =>
      rw [Tiles] at first
      rwa [List.nil_append, first]
  | cons head tail induction => exact ⟨first.1, first.2.1, induction first.2.2⟩

theorem Tiles.within (tiles : Tiles start stop left) {range : Range} (member : range ∈ left) :
    start ≤ range.start ∧ range.start ≤ range.stop ∧ range.stop ≤ stop := by
  induction left generalizing start with
  | nil => cases member
  | cons head tail induction =>
      rcases tiles with ⟨rfl, ordered, tiles⟩
      rcases List.mem_cons.mp member with rfl | member
      · exact ⟨le_rfl, ordered, tiles.le⟩
      · rcases induction tiles member with ⟨after, rest⟩
        exact ⟨ordered.trans after, rest⟩

/-- Slicing a list along the ranges and joining the slices takes it as a whole. -/
theorem Tiles.flatMap_slice (tiles : Tiles start stop left) (values : List α) :
    left.flatMap (slice · values) = slice ⟨start, stop⟩ values := by
  induction left generalizing start with
  | nil =>
      rw [Tiles] at tiles
      simp [slice, len, tiles]
  | cons head tail induction =>
      rcases tiles with ⟨rfl, ordered, tiles⟩
      have further := tiles.le
      have split : stop - head.start = (head.stop - head.start) + (stop - head.stop) := by omega
      have shift : values.drop head.stop =
          (values.drop head.start).drop (head.stop - head.start) := by
        rw [List.drop_drop, Nat.add_sub_cancel' ordered]
      rw [List.flatMap_cons, induction tiles]
      simp only [slice, len]
      rw [split, List.take_add, shift]

theorem Tiles.flatMap_indices (tiles : Tiles start stop left) :
    left.flatMap indices = List.range' start (stop - start) := by
  induction left generalizing start with
  | nil =>
      rw [Tiles] at tiles
      simp [tiles]
  | cons head tail induction =>
      rcases tiles with ⟨rfl, ordered, tiles⟩
      have further := tiles.le
      have split : stop - head.start = head.len + (stop - head.stop) := by
        rw [len]
        omega
      have meets : head.stop = head.start + head.len := (Nat.add_sub_cancel' ordered).symm
      rw [List.flatMap_cons, induction tiles, indices, split, ← List.range'_append_1, ← meets]

theorem Tiles.disjoint (tiles : Tiles start stop left) :
    left.Pairwise fun first second => first.stop ≤ second.start := by
  induction left generalizing start with
  | nil => exact List.Pairwise.nil
  | cons head tail induction =>
      exact List.pairwise_cons.mpr
        ⟨fun second member => (tiles.2.2.within member).1, induction tiles.2.2⟩

end Range

/-- `slice::range`, `none` if it panics. -/
def sliceRange (range : Range) (len : Nat) : Option Range :=
  if range.start ≤ range.stop ∧ range.stop ≤ len then some range else none

/-- The slice `values[range]`, `none` if it panics. -/
def index {α : Type} (values : List α) (range : Range) : Option (List α) :=
  (sliceRange range values.length).map fun range => range.slice values

/-- The last range is empty if `batchSize` divides `len`. -/
def batches (len : Nat) (batchSize : ℕ+) : List Range :=
  ((List.range (len / batchSize)).map fun i =>
    { start := i * batchSize, stop := i * batchSize + batchSize }) ++
    [{ start := len - len % batchSize, stop := len }]

theorem batches_tiles (len : Nat) (batchSize : ℕ+) :
    Range.Tiles 0 len (batches len batchSize) := by
  have whole : ∀ count, Range.Tiles 0 (count * batchSize) ((List.range count).map fun i =>
      { start := i * batchSize, stop := i * batchSize + batchSize }) := by
    intro count
    induction count with
    | zero => simp [Range.Tiles]
    | succ count induction =>
        rw [List.range_succ, List.map_append, Nat.succ_mul]
        exact induction.append ⟨rfl, Nat.le_add_right _ _, rfl⟩
  have division := Nat.div_add_mod' len (batchSize : Nat)
  apply (whole (len / batchSize)).append
  exact ⟨by dsimp only; omega, by dsimp only; omega, rfl⟩

theorem mapM_eq_some_map {β γ : Type} {values : List β} {step : β → Option γ} {result : β → γ}
    (each : ∀ value ∈ values, step value = some (result value)) :
    values.mapM step = some (values.map result) := by
  induction values with
  | nil => rfl
  | cons head tail induction =>
      rw [List.forall_mem_cons] at each
      rw [List.mapM_cons, each.1, induction each.2]
      rfl

theorem flatMap_filter_of_nil {β γ : Type} {values : List β} {keep : β → Bool}
    {result : β → List γ} (skipped : ∀ value ∈ values, keep value = false → result value = []) :
    (values.filter keep).flatMap result = values.flatMap result := by
  induction values with
  | nil => rfl
  | cons head tail induction =>
      rw [List.forall_mem_cons] at skipped
      rw [List.filter_cons, List.flatMap_cons, ← induction skipped.2]
      split
      · rw [List.flatMap_cons]
      · rename_i dropped
        rw [skipped.1 (Bool.not_eq_true _ ▸ dropped), List.nil_append]

namespace QueryFragment

variable {Value α : Type}

/-- The items of a slice of an optional column. -/
def optionItemsRange (rows : Nat) (column : Option (List α)) (range : Range) :
    Option (List (Item α)) := do
  let range ← sliceRange range rows
  match column with
  | some column => return (← index column range).map fun cell => .option (some cell)
  | none => return List.replicate range.len (.option none)

/-- The items of a slice of a column. -/
def refItemsRange (column : Option (List α)) (range : Range) : Option (List (Item α)) :=
  match column with
  | some column => do
      let range ← sliceRange range column.length
      return (← index column range).map .ref
  | none => some []

/-- `iter_range`, over columns that are read through `columns`. -/
def iterRangeColumns (self : QueryFragment) (columns : Bool → TypeId → Option (List α))
    (archetype : EntityTable Value) (range : Range) : Option (List (Item α)) :=
  match self with
  | .ref ty => refItemsRange (columns false ty) range
  | .refMut ty => refItemsRange (columns true ty) range
  | .optionRef ty => optionItemsRange archetype.rows (columns false ty) range
  | .optionRefMut ty => optionItemsRange archetype.rows (columns true ty) range
  | .has ty => do
      let range ← sliceRange range archetype.entities.length
      return List.replicate range.len (.bool (archetype.containsColumn ty))
  | .entityId => do
      let range ← sliceRange range archetype.entities.length
      return (← index archetype.entities range).map .entityId
  | .archetypeHash => do
      let range ← sliceRange range archetype.entities.length
      return (← index archetype.entities range).map fun _ => .archetypeHash archetype.ty
  | .pair first rest => do
      return List.zipWith .pair (← first.iterRangeColumns columns archetype range)
        (← rest.iterRangeColumns columns archetype range)

def iterRange (self : QueryFragment) (archetype : EntityTable Value) (range : Range) :
    Option (List (Item Value)) :=
  self.iterRangeColumns (valueColumns archetype) archetype range

def iterRangeMut (self : QueryFragment) (ptr : Ptr) (archetype : EntityTable Value)
    (range : Range) : Option (List (Item Reference)) :=
  self.iterRangeColumns (refColumns .shared .exclusive ptr archetype) archetype range

section Tables

variable {table : EntityTable Value} {columns : Bool → TypeId → Option (List α)} {range : Range}

theorem sliceRange_eq {len : Nat} (ordered : range.start ≤ range.stop) (inside : range.stop ≤ len) :
    sliceRange range len = some range := if_pos ⟨ordered, inside⟩

theorem index_eq {values : List α} (ordered : range.start ≤ range.stop)
    (inside : range.stop ≤ values.length) : index values range = some (range.slice values) := by
  rw [index, sliceRange_eq ordered inside, Option.map_some]

/-- A range of a table yields that part of what the table yields. -/
theorem iterRangeColumns_eq (aligned : table.Aligned) (covers : Covers columns table)
    (self : QueryFragment) (ordered : range.start ≤ range.stop) (inside : range.stop ≤ table.rows) :
    self.iterRangeColumns columns table range =
      some (range.slice (self.iterColumns columns table)) := by
  have listed : range.stop ≤ table.entities.length := aligned.entities ▸ inside
  have replicated : ∀ item : Item α,
      List.replicate range.len item = range.slice (List.replicate table.rows item) := by
    intro item
    rw [Range.slice, List.drop_replicate, List.take_replicate, Range.len]
    congr 1
    omega
  have slices : ∀ (β : Type) (values : List α) (transform : α → β),
      (range.slice values).map transform = range.slice (values.map transform) := by
    intro β values transform
    rw [Range.slice, Range.slice, List.map_take, List.map_drop]
  have reference : ∀ writes ty, refItemsRange (columns writes ty) range =
      some (range.slice (((columns writes ty).getD []).map .ref)) := by
    intro writes ty
    cases found : columns writes ty with
    | none => simp [refItemsRange, Range.slice]
    | some column =>
        have within : range.stop ≤ column.length := covers.length writes ty column found ▸ inside
        simp [refItemsRange, sliceRange_eq ordered within, index_eq ordered within, slices]
  have optional : ∀ writes ty, optionItemsRange table.rows (columns writes ty) range =
      some (range.slice (optionItems table.rows (columns writes ty))) := by
    intro writes ty
    cases found : columns writes ty with
    | none => simp [optionItemsRange, optionItems, sliceRange_eq ordered inside, replicated]
    | some column =>
        have within : range.stop ≤ column.length := covers.length writes ty column found ▸ inside
        simp [optionItemsRange, optionItems, sliceRange_eq ordered inside,
          index_eq ordered within, slices]
  induction self with
  | ref ty => exact reference false ty
  | refMut ty => exact reference true ty
  | optionRef ty => exact optional false ty
  | optionRefMut ty => exact optional true ty
  | has ty => simp [iterRangeColumns, iterColumns, sliceRange_eq ordered listed, replicated]
  | entityId =>
      simp [iterRangeColumns, iterColumns, sliceRange_eq ordered listed, index_eq ordered listed,
        Range.slice]
  | archetypeHash =>
      have length : (range.slice table.entities).length = range.len := by
        rw [Range.slice, List.length_take, List.length_drop, Range.len]
        omega
      simp [iterRangeColumns, iterColumns, sliceRange_eq ordered listed, index_eq ordered listed,
        length, replicated]
  | pair first rest inductionFirst inductionRest =>
      rw [iterRangeColumns, inductionFirst, inductionRest, iterColumns, Range.slice, Range.slice,
        Range.slice, List.drop_zipWith, List.take_zipWith]
      rfl

theorem flatMap_slice_iterColumns (aligned : table.Aligned) (covers : Covers columns table)
    (self : QueryFragment) {ranges : List Range} (tiles : Range.Tiles 0 table.rows ranges) :
    ranges.flatMap (Range.slice · (self.iterColumns columns table)) =
      self.iterColumns columns table := by
  have visits := length_iterColumns aligned covers self
  rw [tiles.flatMap_slice, Range.slice, List.drop_zero, Range.len, Nat.sub_zero]
  apply List.take_of_length_le
  rw [visits]
  split
  · exact le_rfl
  · exact Nat.zero_le _

/-- Joining what the ranges yield gives what the table yields. -/
theorem iterRangeColumns_tiles (aligned : table.Aligned) (covers : Covers columns table)
    (self : QueryFragment) {ranges : List Range} (tiles : Range.Tiles 0 table.rows ranges) :
    ∃ items, ranges.mapM (self.iterRangeColumns columns table) = some items ∧
      items.flatten = self.iterColumns columns table := by
  have each : ∀ range ∈ ranges, self.iterRangeColumns columns table range =
      some (range.slice (self.iterColumns columns table)) := by
    intro range member
    rcases tiles.within member with ⟨_, ordered, inside⟩
    exact iterRangeColumns_eq aligned covers self ordered inside
  refine ⟨ranges.map fun range => range.slice (self.iterColumns columns table), ?_, ?_⟩
  · exact mapM_eq_some_map each
  · rw [← List.flatMap_def, flatMap_slice_iterColumns aligned covers self tiles]

end Tables

end QueryFragment

namespace Query

variable {Value : Type}

def batchSize (len : Nat) (parallelism : ℕ+) : ℕ+ := (len / parallelism).succPNat

/-- The table and the range of each job that is spawned. -/
def jobs (self : Query) (w : World Value) (parallelism : ℕ+) :
    List ((Ptr × EntityTable Value) × Range) :=
  (w.walked.filter fun entry => !entry.2.isEmpty && self.filter.filter entry.2).flatMap
    fun entry =>
      (batches entry.2.rows (batchSize entry.2.rows parallelism)).map fun range => (entry, range)

/-- What each job calls the function with, `none` if a job panics. -/
def parForEach (self : Query) (w : World Value) (parallelism : ℕ+) :
    Option (List (List (Item Value))) :=
  (self.jobs w parallelism).mapM fun job => self.fragment.iterRange job.1.2 job.2

def parForEachMut (self : Query) (w : World Value) (parallelism : ℕ+) :
    Option (List (List (Item Reference))) :=
  (self.jobs w parallelism).mapM fun job =>
    self.fragment.iterRangeMut job.1.1 job.1.2 job.2

/-- The jobs together visit what the query visits, in order. -/
theorem mapM_jobs {α : Type} {w : World Value} (self : Query)
    (aligned : ∀ ptr table, (ptr, table) ∈ w.walked → table.Aligned)
    (columns : Ptr → EntityTable Value → Bool → TypeId → Option (List α))
    (covers : ∀ ptr table, table.Aligned → QueryFragment.Covers (columns ptr table) table)
    (parallelism : ℕ+) :
    ∃ calls, (self.jobs w parallelism).mapM (fun job =>
        self.fragment.iterRangeColumns (columns job.1.1 job.1.2) job.1.2 job.2) = some calls ∧
      calls.flatten = (self.archetypes w).flatMap fun entry =>
        self.fragment.iterColumns (columns entry.1 entry.2) entry.2 := by
  have each : ∀ job ∈ self.jobs w parallelism,
      self.fragment.iterRangeColumns (columns job.1.1 job.1.2) job.1.2 job.2 =
        some (job.2.slice (self.fragment.iterColumns (columns job.1.1 job.1.2) job.1.2)) := by
    intro job member
    rcases List.mem_flatMap.mp member with ⟨⟨ptr, table⟩, selected, member⟩
    rcases List.mem_map.mp member with ⟨range, cut, rfl⟩
    have whole := aligned ptr table (List.mem_filter.mp selected).1
    rcases (batches_tiles table.rows (batchSize table.rows parallelism)).within cut with
      ⟨_, ordered, inside⟩
    exact QueryFragment.iterRangeColumns_eq whole (covers ptr table whole) self.fragment
      ordered inside
  refine ⟨_, mapM_eq_some_map each, ?_⟩
  rw [← List.flatMap_def, jobs, List.flatMap_assoc, archetypes]
  have table : ∀ entry ∈ self.archetypes w, entry.2.Aligned := fun entry selected =>
    aligned entry.1 entry.2 (List.mem_filter.mp selected).1
  have skipped : ∀ entry ∈ self.archetypes w, (!entry.2.isEmpty) = false →
      self.fragment.iterColumns (columns entry.1 entry.2) entry.2 = [] := by
    intro entry selected empty
    have visits := QueryFragment.length_iterColumns (table entry selected)
      (covers entry.1 entry.2 (table entry selected)) self.fragment
    have rows : entry.2.rows = 0 := by simpa [EntityTable.isEmpty] using empty
    rw [rows, ite_self] at visits
    exact List.length_eq_zero_iff.mp visits
  rw [← List.filter_filter, ← archetypes, ← flatMap_filter_of_nil skipped]
  apply List.flatMap_congr
  intro entry selected
  have whole := table entry (List.mem_filter.mp selected).1
  rw [List.flatMap_map]
  exact QueryFragment.flatMap_slice_iterColumns whole (covers entry.1 entry.2 whole)
    self.fragment (batches_tiles _ _)

/-- The ranges of `batches` cover the rows without overlap, joining the slices of
a table gives the whole table, and whichever job is ahead, the function is called
with the items of the query. -/
theorem parForEach_perm_iter {w : World Value}
    (aligned : ∀ ptr table, w.tables ptr = some table → table.Aligned) (self : Query)
    (parallelism : ℕ+) :
    (∀ len batchSize, Range.Tiles 0 len (batches len batchSize) ∧
      (batches len batchSize).Pairwise (fun first second => first.stop ≤ second.start) ∧
      (batches len batchSize).flatMap Range.indices = List.range len) ∧
    (∀ ptr table, w.tables ptr = some table → ∀ (fragment : QueryFragment) batchSize,
      (∃ items, (batches table.rows batchSize).mapM (fragment.iterRange table) = some items ∧
        items.flatten = fragment.iter table) ∧
      ∃ items, (batches table.rows batchSize).mapM (fragment.iterRangeMut ptr table) =
        some items ∧ items.flatten = fragment.iterMut ptr table) ∧
    (∃ calls, self.parForEach w parallelism = some calls ∧
      ∀ order, Interleaving calls order → order.Perm (self.iter w)) ∧
    ∃ calls, self.parForEachMut w parallelism = some calls ∧
      ∀ order, Interleaving calls order → order.Perm (self.iterMut w) := by
  have walked : ∀ ptr table, (ptr, table) ∈ w.walked → table.Aligned :=
    fun ptr table member => aligned ptr table (World.mem_walked.mp member).2
  have refs : ∀ ptr (table : EntityTable Value), table.Aligned →
      QueryFragment.Covers (QueryFragment.refColumns .shared .exclusive ptr table) table :=
    fun ptr table whole => QueryFragment.covers_refColumns whole .shared .exclusive ptr
  refine ⟨?_, ?_, ?_, ?_⟩
  · intro len batchSize
    have tiles := batches_tiles len batchSize
    exact ⟨tiles, tiles.disjoint, tiles.flatMap_indices.trans List.range_eq_range'.symm⟩
  · intro ptr table found fragment batchSize
    have whole := aligned ptr table found
    have tiles := batches_tiles table.rows batchSize
    rw [QueryFragment.iter_eq]
    exact ⟨QueryFragment.iterRangeColumns_tiles whole (QueryFragment.covers_valueColumns whole)
        fragment tiles,
      QueryFragment.iterRangeColumns_tiles whole (refs ptr table whole) fragment tiles⟩
  · rcases mapM_jobs self walked (fun _ => QueryFragment.valueColumns)
      (fun _ _ => QueryFragment.covers_valueColumns) parallelism with ⟨calls, ran, joined⟩
    simp only [← QueryFragment.iter_eq] at joined
    exact ⟨calls, ran, fun order interleaving => interleaving.perm.trans (.of_eq joined)⟩
  · rcases mapM_jobs self walked (QueryFragment.refColumns .shared .exclusive) refs parallelism with
      ⟨calls, ran, joined⟩
    exact ⟨calls, ran, fun order interleaving => interleaving.perm.trans (.of_eq joined)⟩

/-- What makes a table of five rows and one of two. -/
def sevenEntities : List (Operation Nat) :=
  List.replicate 7 .insertEntity ++
    [.setBundle (EntityId.new 0 0) [(7#128, 5)], .setBundle (EntityId.new 1 0) [(7#128, 6)]]

/-- The component 7 where there is one, and the id. -/
def maybeSeven : Query where
  fragment := .pair (.optionRef 7#128) .entityId
  filter := .unit

open Sample in
theorem parForEach_perm_iter_sample :
    ∃ (w : World Nat) (calls : List (List (Item Nat))),
      (World.new 1).bind (World.runOperations · sevenEntities) = some w ∧
      maybeSeven.parForEach w 3 = some calls ∧ calls.map List.length = [2, 2, 1, 1, 1, 0] ∧
      ∀ order, Interleaving calls order → order.Perm (maybeSeven.iter w) := by
  obtain ⟨start, w, calls, created, ran, called, lengths⟩ :
      ∃ (start w : World Nat) (calls : List (List (Item Nat))), World.new 1 = some start ∧
        start.runOperations sevenEntities = some w ∧ maybeSeven.parForEach w 3 = some calls ∧
        calls.map List.length = [2, 2, 1, 1, 1, 0] := ⟨_, _, _, rfl, rfl, rfl, rfl⟩
  have wf := World.runOperations_wellFormed (World.new_spec created).1 ran
  rcases (parForEach_perm_iter wf.aligned maybeSeven 3).2.2.1 with ⟨again, same, permuted⟩
  cases called.symm.trans same
  exact ⟨w, calls, by rw [created]; exact ran, called, lengths, permuted⟩

end Query

end Cecs

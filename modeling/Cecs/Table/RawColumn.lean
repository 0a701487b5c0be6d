import Cecs.Foundation.Vectors
import Mathlib.Algebra.Ring.Nat
import Mathlib.Data.Option.Basic
import Mathlib.Logic.Function.Basic

/-! # The buffer of a column

The erased vector of a column over raw memory: places that were never written or hold a
stale copy, and the number of places that hold a value. `none` stands for a panic or for
undefined behaviour: an access outside the buffer or not aligned, or a value read where there
is none. The allocator always has memory. Arithmetic wraps. -/

namespace Cecs

open Foundation

/-- Size and alignment in bytes, of an element type or of a buffer. -/
structure Layout where
  size : Nat
  align : Nat

namespace Layout

/-- `Layout::array` succeeds: the padded size does not overflow `isize`. -/
def fitsArray (self : Layout) (count : Nat) : Bool :=
  decide (self.size * count ≤ 2 ^ 63 - self.align)

theorem fitsArray_mono {layout : Layout} {count other : Nat}
    (fits : layout.fitsArray count) (fewer : other ≤ count) : layout.fitsArray other :=
  decide_eq_true (Nat.le_trans (Nat.mul_le_mul_left _ fewer) (of_decide_eq_true fits))

/-- `Column::layout`: never without a size, and then of alignment 1. -/
def ofCapacity (self : Layout) (capacity : Nat) : Option Layout := do
  guard (self.fitsArray capacity)
  if self.size * capacity ≠ 0 then return { self with size := self.size * capacity }
  else return { size := 1, align := 1 }

/-- A buffer of this layout has an aligned place for such an element. -/
def hasPlace (self element : Layout) (index : Nat) : Bool :=
  decide (element.align ∣ self.align ∧ element.size * (index + 1) ≤ self.size)

/-- Elements without a size are aligned in any buffer. -/
def Plain (self : Layout) : Prop := self.size = 0 → self.align = 1

theorem ofCapacity_isSome {element : Layout} {capacity : Nat}
    (fits : element.fitsArray capacity) : ∃ buffer, element.ofCapacity capacity = some buffer := by
  by_cases sized : element.size * capacity ≠ 0
  · exact ⟨_, by simp [ofCapacity, fits, sized]; rfl⟩
  · exact ⟨_, by simp [ofCapacity, fits, sized]; rfl⟩

theorem fits_of_ofCapacity {element buffer : Layout} {capacity : Nat}
    (made : element.ofCapacity capacity = some buffer) : element.fitsArray capacity := by
  simp only [ofCapacity, Option.bind_eq_bind, Option.bind_eq_some_iff, Option.guard_eq_some',
    exists_const] at made
  exact made.1

theorem hasPlace_of_lt {element buffer : Layout} {capacity index : Nat}
    (made : element.ofCapacity capacity = some buffer) (inRange : index < capacity)
    (plain : element.Plain) : buffer.hasPlace element index = true := by
  simp only [ofCapacity, Option.bind_eq_bind, Option.bind_eq_some_iff, Option.guard_eq_some',
    exists_const] at made
  rcases made with ⟨_, made⟩
  split at made
  · cases made
    exact decide_eq_true ⟨Nat.dvd_refl _, Nat.mul_le_mul_left _ inRange⟩
  · rename_i empty
    cases made
    have noSize : element.size = 0 := by
      rcases Nat.mul_eq_zero.mp (not_not.mp empty) with noSize | noCapacity
      · exact noSize
      · omega
    refine decide_eq_true ⟨Nat.dvd_one.mpr (plain noSize), ?_⟩
    rw [noSize, Nat.zero_mul]
    exact Nat.zero_le 1

end Layout

structure RawColumn (Value : Type) where
  /-- What was last written at a place of the buffer. -/
  data : Nat → Option Value
  /-- `end` -/
  endIndex : Nat
  capacity : Nat
  /-- Of the buffer. -/
  layout : Layout

namespace RawColumn

variable {Value : Type} (element : Layout)

/-- `ptr::read` -/
def read (buffer : Layout) (data : Nat → Option Value) (index : Nat) : Option Value := do
  guard (buffer.hasPlace element index)
  data index

/-- `ptr::write` -/
def write (buffer : Layout) (data : Nat → Option Value) (index : Nat) (val : Value) :
    Option (Nat → Option Value) := do
  guard (buffer.hasPlace element index)
  return Function.update data index (some val)

/-- A new buffer with the first values of an old one. -/
def copyRows (old new : Layout) (data : Nat → Option Value) : Nat → Option (Nat → Option Value)
  | 0 => some fun _ => none
  | count + 1 => do
      let copied ← copyRows old new data count
      let val ← read element old data count
      write element new copied count val

/-- A new buffer with clones of the first values, up to one whose clone panics. -/
def cloneRows (old new : Layout) (transfer : Value → Option Value) (data : Nat → Option Value) :
    Nat → Option (Except (Nat → Option Value) (Nat → Option Value))
  | 0 => some (.ok fun _ => none)
  | count + 1 => do
      match ← cloneRows old new transfer data count with
      | .error cloned => return .error cloned
      | .ok cloned =>
          match transfer (← read element old data count) with
          | none => return .error cloned
          | some val => return .ok (← write element new cloned count val)

/-- The first values of a buffer. -/
def readRows (buffer : Layout) (data : Nat → Option Value) : Nat → Option (List Value)
  | 0 => some []
  | count + 1 => do
      let vals ← readRows buffer data count
      let val ← read element buffer data count
      return vals ++ [val]

def new (capacity : Nat) : Option (RawColumn Value) := do
  let layout ← element.ofCapacity capacity
  return { data := fun _ => none, endIndex := 0, capacity := capacity % 2 ^ 32, layout }

/-- `new_cap` -/
def grownCapacity (capacity : Nat) : Nat := max (capacity * 3 % 2 ^ 32 / 2) 2

/-- The reallocation in `push`. -/
def reallocate (self : RawColumn Value) : Option (RawColumn Value) := do
  let newCap := grownCapacity self.capacity
  let newLayout ← element.ofCapacity newCap
  let newData ← copyRows element self.layout newLayout self.data self.endIndex
  return { self with capacity := newCap, data := newData, layout := newLayout }

def push (self : RawColumn Value) (val : Value) : Option (RawColumn Value) := do
  guard (self.endIndex ≤ self.capacity)
  let grown ← if self.endIndex = self.capacity then self.reallocate element else some self
  let data ← write element grown.layout grown.data grown.endIndex val
  return { grown with data, endIndex := (grown.endIndex + 1) % 2 ^ 32 }

def swapRemove (self : RawColumn Value) (i : Nat) : Option (Value × RawColumn Value) := do
  guard (i < self.endIndex)
  let res ← read element self.layout self.data i
  if i + 1 = self.endIndex then
    -- last item
    return (res, { self with endIndex := self.endIndex - 1 })
  else
    let last ← read element self.layout self.data (self.endIndex - 1)
    let data ← write element self.layout self.data i last
    return (res, { self with data, endIndex := self.endIndex - 1 })

/-- The removed value is dropped. -/
def remove (self : RawColumn Value) (id : Nat) : Option (Value × RawColumn Value) :=
  self.swapRemove element id

/-- The values that the places up to `end` hold. -/
def contents (self : RawColumn Value) : Option (List Value) :=
  readRows element self.layout self.data self.endIndex

/-- `as_slice_mut()[i] = val`, with the value that was dropped for it. -/
def overwrite (self : RawColumn Value) (i : Nat) (val : Value) :
    Option (Value × RawColumn Value) := do
  guard (i < self.endIndex)
  let old ← read element self.layout self.data i
  let data ← write element self.layout self.data i val
  return (old, { self with data })

def moveRow (src dst : RawColumn Value) (index : Nat) :
    Option (RawColumn Value × RawColumn Value) := do
  let (val, src) ← src.swapRemove element index
  let dst ← dst.push element val
  return (src, dst)

/-- With the value that was dropped for the moved one. -/
def moveRowInto (srcT : RawColumn Value) (src : Nat) (dstT : RawColumn Value) (dst : Nat) :
    Option (Value × RawColumn Value × RawColumn Value) := do
  let (val, srcT) ← srcT.swapRemove element src
  let (old, dstT) ← dstT.overwrite element dst val
  return (old, srcT, dstT)

/-- `as_slice_mut().swap(src, dst)` -/
def swapRows (self : RawColumn Value) (src dst : Nat) : Option (RawColumn Value) := do
  guard (src < self.endIndex ∧ dst < self.endIndex)
  let atSrc ← read element self.layout self.data src
  let atDst ← read element self.layout self.data dst
  let data ← write element self.layout self.data src atDst
  let data ← write element self.layout data dst atSrc
  return { self with data }

/-- The values up to the first whose destructor panics. -/
def droppedOf (panics : Value → Bool) : List Value → List Value
  | [] => []
  | val :: rest => val :: if panics val then [] else droppedOf panics rest

/-- The dropped values; a panic ends the loop. -/
def finalize (self : RawColumn Value) (panics : Value → Bool) : Option (List Value) :=
  (self.contents element).map (droppedOf panics)

/-- `end` is set before any place is written, and a panic of a clone drops the new column. -/
def clone (self : RawColumn Value) (transfer : Value → Option Value) :
    Option (Except (List Value) (RawColumn Value)) := do
  let res : RawColumn Value ← new element self.capacity
  let res := { res with endIndex := self.endIndex }
  match ← cloneRows element self.layout res.layout transfer self.data self.endIndex with
  | .ok data => return .ok { res with data }
  | .error data => return .error (← { res with data }.finalize element fun _ => false)

/-! ## What a column holds -/

/-- The live places hold these values, within the capacity. -/
structure Holds (element : Layout) (column : RawColumn Value) (values : List Value) : Prop where
  length : column.endIndex = values.length
  data : ∀ row < values.length, column.data row = values[row]?
  withinCapacity : column.endIndex ≤ column.capacity
  withinWord : column.capacity < 2 ^ 32
  buffer : ∃ slots, column.capacity ≤ slots ∧ element.ofCapacity slots = some column.layout
  plain : values ≠ [] → element.Plain

/-- A value can be pushed: an element without a size is aligned anywhere, and where the column
is full three times its capacity does not wrap and the layout of the new buffer is valid. -/
def Room (element : Layout) (column : RawColumn Value) : Prop :=
  element.Plain ∧ (column.endIndex = column.capacity →
    column.capacity * 3 < 2 ^ 32 ∧ element.fitsArray (max (column.capacity * 3 / 2) 2))

/-- No clone of a live value panics. -/
def Clones (column : RawColumn Value) (transfer : Value → Option Value) : Prop :=
  ∀ row < column.endIndex, ∀ val, column.data row = some val → (transfer val).isSome

/-- No destructor of a live value panics but the last. -/
def Drops (column : RawColumn Value) (panics : Value → Bool) : Prop :=
  ∀ row, row + 1 < column.endIndex → ∀ val, column.data row = some val → panics val = false

variable {element : Layout} {column : RawColumn Value} {values : List Value}

theorem read_eq {buffer : Layout} {data : Nat → Option Value} {index : Nat}
    (place : buffer.hasPlace element index = true) :
    read element buffer data index = data index := by
  simp [read, place]

theorem write_eq {buffer : Layout} {data : Nat → Option Value} {index : Nat} {val : Value}
    (place : buffer.hasPlace element index = true) :
    write element buffer data index val = some (Function.update data index (some val)) := by
  simp [write, place]

theorem update_length (val : Value) :
    Function.update (fun row => values[row]?) values.length (some val) =
      fun row => (values ++ [val])[row]? := by
  funext row
  by_cases last : row = values.length
  · subst last
    simp
  · rw [Function.update_of_ne last, List.getElem?_append]
    split
    · rfl
    · rw [List.getElem?_eq_none (by omega), List.getElem?_eq_none]
      simp only [List.length_singleton]
      omega

theorem take_succ_getElem? {count : Nat} (present : count < values.length) :
    (fun row => (values.take (count + 1))[row]?) =
      Function.update (fun row => (values.take count)[row]?) count (some values[count]) := by
  have length : (values.take count).length = count := by
    rw [List.length_take, Nat.min_eq_left (Nat.le_of_lt present)]
  rw [List.take_add_one, List.getElem?_eq_getElem present, Option.toList_some]
  have extended : Function.update (fun row => (values.take count)[row]?)
      (values.take count).length (some values[count]) =
        fun row => (values.take count ++ [values[count]])[row]? := update_length values[count]
  rw [length] at extended
  exact extended.symm

section Rows

variable {old new : Layout} {data : Nat → Option Value} {count : Nat}

theorem copyRows_eq
    (readable : ∀ row < count, read element old data row = values[row]?)
    (places : ∀ row < count, new.hasPlace element row = true) (present : count ≤ values.length) :
    copyRows element old new data count = some fun row => (values.take count)[row]? := by
  induction count with
  | zero => simp [copyRows]
  | succ count induction =>
      have last : read element old data count = some values[count] := by
        rw [readable count (Nat.lt_succ_self _), List.getElem?_eq_getElem present]
      have before := induction (fun row inRange => readable row (Nat.lt_succ_of_lt inRange))
        (fun row inRange => places row (Nat.lt_succ_of_lt inRange)) (Nat.le_of_succ_le present)
      simp only [copyRows, before, last, Option.bind_eq_bind, Option.bind_some]
      rw [write_eq (places count (Nat.lt_succ_self _)), take_succ_getElem? present]

theorem readRows_eq
    (readable : ∀ row < count, read element old data row = values[row]?)
    (present : count ≤ values.length) :
    readRows element old data count = some (values.take count) := by
  induction count with
  | zero => rfl
  | succ count induction =>
      have last : read element old data count = some values[count] := by
        rw [readable count (Nat.lt_succ_self _), List.getElem?_eq_getElem present]
      have before := induction (fun row inRange => readable row (Nat.lt_succ_of_lt inRange))
        (Nat.le_of_succ_le present)
      rw [readRows, before, last, List.take_add_one, List.getElem?_eq_getElem present]
      rfl

/-- A place that was never written is read. -/
theorem readRows_eq_none {place : Nat} (inRange : place < count) (unwritten : data place = none) :
    readRows element old data count = none := by
  induction count with
  | zero => cases inRange
  | succ count induction =>
      rw [readRows]
      by_cases last : place = count
      · subst last
        cases readRows element old data place <;> simp [read, unwritten]
      · rw [induction (by omega)]
        rfl

/-- The clones are made in order, up to one that panics. -/
theorem cloneRows_eq (transfer : Value → Option Value)
    (readable : ∀ row < count, read element old data row = values[row]?)
    (places : ∀ row < count, new.hasPlace element row = true) (present : count ≤ values.length) :
    cloneRows element old new transfer data count = some
      (match cloneList transfer (values.take count) with
        | .ok copies => .ok fun row => copies[row]?
        | .error made => .error fun row => made[row]?) := by
  induction count with
  | zero => simp [cloneRows, cloneList]
  | succ count induction =>
      have last : read element old data count = some values[count] := by
        rw [readable count (Nat.lt_succ_self _), List.getElem?_eq_getElem present]
      have before := induction (fun row inRange => readable row (Nat.lt_succ_of_lt inRange))
        (fun row inRange => places row (Nat.lt_succ_of_lt inRange)) (Nat.le_of_succ_le present)
      rw [List.take_add_one, List.getElem?_eq_getElem present, Option.toList_some,
        cloneList_append_singleton, cloneRows, before]
      cases cloned : cloneList transfer (values.take count) with
      | error made => rfl
      | ok copies =>
          have length : copies.length = count := by
            rw [length_of_cloneList_ok cloned, List.length_take, Nat.min_eq_left]
            exact Nat.le_of_succ_le present
          simp only [Option.bind_eq_bind, Option.bind_some, last]
          cases transfer values[count] with
          | none => rfl
          | some copy =>
              dsimp only
              rw [write_eq (places count (Nat.lt_succ_self _)), ← length, update_length]
              rfl

end Rows

namespace Holds

theorem hasPlace (holds : column.Holds element values) {row : Nat} (inRange : row < column.capacity)
    (plain : element.Plain) : column.layout.hasPlace element row = true := by
  rcases holds.buffer with ⟨slots, room, made⟩
  exact Layout.hasPlace_of_lt made (Nat.lt_of_lt_of_le inRange room) plain

/-- Live places are aligned and in the buffer. -/
theorem place (holds : column.Holds element values) {row : Nat} (inRange : row < values.length) :
    column.layout.hasPlace element row = true := by
  refine holds.hasPlace ?_ (holds.plain (List.ne_nil_of_length_pos (Nat.zero_lt_of_lt inRange)))
  exact Nat.lt_of_lt_of_le (holds.length ▸ inRange) holds.withinCapacity

theorem readable (holds : column.Holds element values) {row : Nat}
    (inRange : row < values.length) :
    read element column.layout column.data row = values[row]? := by
  rw [read_eq (holds.place inRange), holds.data row inRange]

theorem read (holds : column.Holds element values) {row : Nat} (inRange : row < values.length) :
    read element column.layout column.data row = some values[row] := by
  rw [holds.readable inRange, List.getElem?_eq_getElem inRange]

/-- A write over a live place. -/
theorem update (holds : column.Holds element values) (row : Nat) (val : Value) :
    Holds element { column with data := Function.update column.data row (some val) }
      (values.set row val) where
  length := by rw [List.length_set, holds.length]
  data := by
    intro place inRange
    rw [List.length_set] at inRange
    by_cases same : place = row
    · subst same
      simp [inRange]
    · have other : Function.update column.data row (some val) place = column.data place :=
        Function.update_of_ne same ..
      rw [List.getElem?_set_ne (Ne.symm same), ← holds.data place inRange]
      exact other
  withinCapacity := holds.withinCapacity
  withinWord := holds.withinWord
  buffer := holds.buffer
  plain := by
    intro live
    apply holds.plain
    rintro rfl
    exact live rfl

/-- Only the last place is given up. -/
theorem dropLast (holds : column.Holds element values) :
    Holds element { column with endIndex := column.endIndex - 1 } values.dropLast where
  length := by rw [List.length_dropLast, holds.length]
  data := by
    intro row inRange
    rw [List.length_dropLast] at inRange
    rw [List.getElem?_dropLast, if_pos inRange]
    exact holds.data row (by omega)
  withinCapacity := Nat.le_trans (Nat.sub_le ..) holds.withinCapacity
  withinWord := holds.withinWord
  buffer := holds.buffer
  plain := by
    intro live
    apply holds.plain
    rintro rfl
    exact live rfl

theorem contents (holds : column.Holds element values) : column.contents element = some values := by
  rw [RawColumn.contents, readRows_eq
    (fun row inRange => holds.readable (holds.length ▸ inRange)) (Nat.le_of_eq holds.length),
    holds.length, List.take_length]

/-- A write past the live places, where the buffer has room. -/
theorem append (holds : column.Holds element values) (val : Value)
    (room : column.endIndex < column.capacity) (plain : element.Plain) :
    Holds element { column with
        data := Function.update column.data column.endIndex (some val)
        endIndex := (column.endIndex + 1) % 2 ^ 32 } (values ++ [val]) := by
  have word := holds.withinWord
  have wrapped : (column.endIndex + 1) % 2 ^ 32 = column.endIndex + 1 :=
    Nat.mod_eq_of_lt (by omega)
  simp only [wrapped]
  exact
    { length := by
        simp only [List.length_append, List.length_cons, List.length_nil, holds.length]
      data := by
        intro row inRange
        rw [List.length_append] at inRange
        by_cases last : row = column.endIndex
        · subst last
          simp [holds.length]
        · have before : row < values.length := by
            rw [holds.length] at last
            simp only [List.length_cons, List.length_nil] at inRange
            omega
          rw [List.getElem?_append_left before, ← holds.data row before]
          exact Function.update_of_ne last ..
      withinCapacity := room
      withinWord := word
      buffer := holds.buffer
      plain := fun _ => plain }

end Holds

/-! ## One operation -/

theorem new_iff {capacity : Nat} :
    (∃ column : RawColumn Value, new element capacity = some column ∧ column.Holds element []) ↔
      element.fitsArray capacity := by
  constructor
  · intro made
    rcases made with ⟨column, made, _⟩
    simp only [new, Option.bind_eq_bind, Option.bind_eq_some_iff] at made
    rcases made with ⟨layout, made, _⟩
    exact Layout.fits_of_ofCapacity made
  · intro fits
    rcases Layout.ofCapacity_isSome fits with ⟨layout, made⟩
    refine ⟨_, by simp [new, made]; rfl, ?_⟩
    exact
      { length := rfl
        data := by
          intro row inRange
          cases inRange
        withinCapacity := Nat.zero_le _
        withinWord := Nat.mod_lt _ (by decide)
        buffer := ⟨capacity, Nat.mod_le .., made⟩
        plain := fun live => absurd rfl live }

/-- Growth that does not wrap makes room. -/
theorem grownCapacity_eq {capacity : Nat} (small : capacity * 3 < 2 ^ 32) :
    grownCapacity capacity = max (capacity * 3 / 2) 2 := by
  rw [grownCapacity, Nat.mod_eq_of_lt small]

/-- Growth that wraps makes none. -/
theorem grownCapacity_le {capacity : Nat} (word : capacity < 2 ^ 32)
    (large : 2 ^ 32 ≤ capacity * 3) : grownCapacity capacity ≤ capacity := by
  have wraps : 1 ≤ capacity * 3 / 2 ^ 32 := by omega
  unfold grownCapacity
  omega

/-- The values move to the new buffer, and there is room behind them. -/
theorem Holds.reallocate (holds : column.Holds element values) (plain : element.Plain)
    (small : column.capacity * 3 < 2 ^ 32)
    (fits : element.fitsArray (max (column.capacity * 3 / 2) 2)) :
    ∃ grown, column.reallocate element = some grown ∧ grown.Holds element values ∧
      grown.endIndex < grown.capacity := by
  have capacity := grownCapacity_eq small
  have length := holds.length
  have within := holds.withinCapacity
  rw [← capacity] at fits
  rcases Layout.ofCapacity_isSome fits with ⟨newLayout, made⟩
  have room : column.endIndex < grownCapacity column.capacity := by omega
  have copied : copyRows element column.layout newLayout column.data column.endIndex = _ :=
    copyRows_eq (fun row inRange => holds.readable (length ▸ inRange))
      (fun row inRange => Layout.hasPlace_of_lt made (Nat.lt_trans inRange room) plain)
      (Nat.le_of_eq length)
  rw [length, List.take_length, ← length] at copied
  refine ⟨_, by simp [RawColumn.reallocate, copied, made]; rfl, ?_, room⟩
  exact
    { length
      data := fun row inRange => rfl
      withinCapacity := Nat.le_of_lt room
      withinWord := by simp only; omega
      buffer := ⟨_, Nat.le_refl _, made⟩
      plain := fun _ => plain }

theorem reallocate_inv {grown : RawColumn Value} (done : column.reallocate element = some grown) :
    element.fitsArray (grownCapacity column.capacity) ∧
      grown.capacity = grownCapacity column.capacity ∧ grown.endIndex = column.endIndex := by
  simp only [reallocate, Option.bind_eq_bind, Option.bind_eq_some_iff, Option.pure_def,
    Option.some.injEq] at done
  rcases done with ⟨layout, made, data, _, rfl⟩
  exact ⟨Layout.fits_of_ofCapacity made, rfl, rfl⟩

/-- A push keeps the column in order exactly if there is room. -/
theorem Holds.push_iff (holds : column.Holds element values) (val : Value) :
    (∃ pushed, column.push element val = some pushed ∧ pushed.Holds element (values ++ [val])) ↔
      column.Room element := by
  have within := holds.withinCapacity
  have word := holds.withinWord
  constructor
  · intro done
    rcases done with ⟨pushed, done, holdsPushed⟩
    refine ⟨holdsPushed.plain (List.concat_ne_nil _ _), ?_⟩
    intro full
    simp only [push, full, if_true, Option.bind_eq_bind, Option.bind_eq_some_iff] at done
    rcases done with ⟨_, _, grown, reallocated, data, _, made⟩
    rcases reallocate_inv reallocated with ⟨fits, capacity, same⟩
    cases made
    have lengthPushed := holdsPushed.length
    have withinPushed := holdsPushed.withinCapacity
    have length := holds.length
    simp only [List.length_append, List.length_cons, List.length_nil] at lengthPushed withinPushed
    -- Room behind the old values: the growth did not wrap.
    have small : column.capacity * 3 < 2 ^ 32 := by
      by_contra large
      have shrunk := grownCapacity_le word (Nat.le_of_not_lt large)
      omega
    rw [grownCapacity_eq small] at fits
    exact ⟨small, fits⟩
  · intro room
    rcases room with ⟨plain, room⟩
    by_cases full : column.endIndex = column.capacity
    · rcases holds.reallocate plain (room full).1 (room full).2 with
        ⟨grown, reallocated, holdsGrown, space⟩
      refine ⟨_, ?_, holdsGrown.append val space plain⟩
      simp [push, full, reallocated, write_eq (holdsGrown.hasPlace space plain)]
    · have space : column.endIndex < column.capacity := by omega
      refine ⟨_, ?_, holds.append val space plain⟩
      simp [push, full, within, write_eq (holds.hasPlace space plain)]

theorem swapRemove_eq_set {row : Nat} {last : Value}
    (found : values[values.length - 1]? = some last) :
    Foundation.swapRemove values row = (values.set row last).dropLast := by
  rw [Foundation.swapRemove, List.getLast?_eq_getElem?, found]

theorem Holds.swapRemove (holds : column.Holds element values) {row : Nat}
    (inRange : row < values.length) :
    ∃ result, column.swapRemove element row = some (values[row], result) ∧
      result.Holds element (Foundation.swapRemove values row) := by
  have length := holds.length
  have live : row < column.endIndex := by omega
  have lastInRange : column.endIndex - 1 < values.length := by omega
  rw [swapRemove_eq_set
    (by rw [← length, List.getElem?_eq_getElem lastInRange])]
  by_cases isLast : row + 1 = column.endIndex
  · refine ⟨_, by simp [RawColumn.swapRemove, live, holds.read inRange, isLast]; rfl, ?_⟩
    have place : column.endIndex - 1 = row := by omega
    simp only [place, List.set_getElem_self]
    simpa only [place] using holds.dropLast
  · refine ⟨_, ?_, (holds.update row values[column.endIndex - 1]).dropLast⟩
    simp [RawColumn.swapRemove, live, holds.read inRange, isLast, holds.read lastInRange,
      write_eq (holds.place inRange)]

theorem Holds.overwrite (holds : column.Holds element values) {row : Nat}
    (inRange : row < values.length) (val : Value) :
    ∃ result, column.overwrite element row val = some (values[row], result) ∧
      result.Holds element (values.set row val) := by
  have live : row < column.endIndex := by rw [holds.length]; exact inRange
  refine ⟨_, ?_, holds.update row val⟩
  simp [RawColumn.overwrite, live, holds.read inRange, write_eq (holds.place inRange)]

theorem Holds.swapRows (holds : column.Holds element values) {src dst : Nat}
    (srcInRange : src < values.length) (dstInRange : dst < values.length) :
    ∃ result, column.swapRows element src dst = some result ∧
      result.Holds element ((values.set src values[dst]).set dst values[src]) := by
  have length := holds.length
  have srcLive : src < column.endIndex := by omega
  have dstLive : dst < column.endIndex := by omega
  refine ⟨_, ?_, (holds.update src values[dst]).update dst values[src]⟩
  simp [RawColumn.swapRows, srcLive, dstLive, holds.read srcInRange, holds.read dstInRange,
    write_eq (holds.place srcInRange), write_eq (holds.place dstInRange)]

/-- A property of what live places hold is one of the values. -/
theorem Holds.forall_data_iff (holds : column.Holds element values) (property : Value → Prop) :
    (∀ row < column.endIndex, ∀ val, column.data row = some val → property val) ↔
      ∀ val ∈ values, property val := by
  rw [holds.length, List.forall_mem_iff_getElem]
  constructor
  · intro all row inRange
    exact all row inRange _ (by rw [holds.data row inRange, List.getElem?_eq_getElem inRange])
  · intro all row inRange val found
    rw [holds.data row inRange, List.getElem?_eq_getElem inRange] at found
    exact Option.some.inj found ▸ all row inRange

/-- The new column has the places of the old one, also when a clone panics. -/
theorem Holds.clone_eq (holds : column.Holds element values) (transfer : Value → Option Value) :
    ∃ res : RawColumn Value, res.Holds element [] ∧ column.endIndex ≤ res.capacity ∧
      column.clone element transfer = match cloneList transfer values with
        | .ok copies => some (.ok { res with
            data := fun row => copies[row]?, endIndex := column.endIndex })
        | .error _ => none := by
  have length := holds.length
  have within := holds.withinCapacity
  have wrapped := Nat.mod_eq_of_lt holds.withinWord
  rcases holds.buffer with ⟨slots, room, made⟩
  have fits := Layout.fitsArray_mono (Layout.fits_of_ofCapacity made) room
  rcases Layout.ofCapacity_isSome fits with ⟨layout, copied⟩
  let res : RawColumn Value :=
    { data := fun _ => none, endIndex := 0, capacity := column.capacity % 2 ^ 32, layout }
  have created : new element column.capacity = some res := by simp [new, copied, res]
  have holdsRes : res.Holds element [] :=
    { length := rfl
      data := by
        intro row inRange
        cases inRange
      withinCapacity := Nat.zero_le _
      withinWord := Nat.mod_lt _ (by decide)
      buffer := ⟨column.capacity, Nat.mod_le .., copied⟩
      plain := fun live => absurd rfl live }
  refine ⟨res, holdsRes, Nat.le_trans within (Nat.le_of_eq wrapped.symm), ?_⟩
  have places : ∀ row < column.endIndex, res.layout.hasPlace element row = true := by
    intro row inRange
    have live : row < values.length := length ▸ inRange
    have plain := holds.plain (List.ne_nil_of_length_pos (Nat.zero_lt_of_lt live))
    exact Layout.hasPlace_of_lt copied (Nat.lt_of_lt_of_le inRange within) plain
  have cloned := cloneRows_eq transfer
    (fun row inRange => holds.readable (length ▸ inRange)) places (Nat.le_of_eq length)
  rw [length, List.take_length, ← length] at cloned
  rw [RawColumn.clone, created]
  simp only [Option.bind_eq_bind, Option.bind_some, cloned]
  cases result : cloneList transfer values with
  | ok copies => rfl
  | error made =>
      -- The place of the value whose clone panicked was never written.
      have unwritten : made.length < column.endIndex := length ▸ length_of_cloneList_error result
      have unread : readRows element res.layout (fun row => made[row]?) column.endIndex = none :=
        readRows_eq_none unwritten (List.getElem?_eq_none (Nat.le_refl made.length))
      simp only [RawColumn.finalize, RawColumn.contents, unread]
      rfl

/-- A column is cloned exactly if no clone of a value panics. -/
theorem Holds.clone_iff (holds : column.Holds element values) (transfer : Value → Option Value) :
    (∃ result, column.clone element transfer = some result ∧
      VectorOps.Cloned (Holds element) result (cloneList transfer values)) ↔
        column.Clones transfer := by
  rcases holds.clone_eq transfer with ⟨res, holdsRes, within, clone⟩
  rw [Clones, holds.forall_data_iff, ← exists_cloneList_ok_iff, clone]
  cases cloned : cloneList transfer values with
  | error made => simp
  | ok copies =>
      have length := length_of_cloneList_ok cloned
      refine iff_of_true ⟨_, rfl, .copy ?_⟩ ⟨copies, rfl⟩
      exact
        { length := holds.length.trans length.symm
          data := fun row inRange => rfl
          withinCapacity := within
          withinWord := holdsRes.withinWord
          buffer := holdsRes.buffer
          plain := by
            intro live
            apply holds.plain
            rintro rfl
            exact live (List.length_eq_zero_iff.mp length) }

theorem droppedOf_eq_self_iff {panics : Value → Bool} :
    droppedOf panics values = values ↔ ∀ val ∈ values.dropLast, panics val = false := by
  induction values with
  | nil => simp [droppedOf]
  | cons head rest induction =>
      rw [droppedOf, List.cons_inj_right]
      cases rest with
      | nil => simp [droppedOf]
      | cons next rest =>
          rw [List.dropLast_cons_cons, List.forall_mem_cons, ← induction]
          cases panics head with
          | false => simp
          | true => simp

/-- All live values are dropped exactly if no destructor but the last panics. -/
theorem Holds.finalize_iff (holds : column.Holds element values) (panics : Value → Bool) :
    column.finalize element panics = some values ↔ column.Drops panics := by
  have butLast := holds.dropLast.forall_data_iff fun val => panics val = false
  rw [RawColumn.finalize, holds.contents, Option.map_some, Option.some.injEq,
    droppedOf_eq_self_iff, ← butLast, Drops]
  simp only [Nat.lt_sub_iff_add_lt]

end RawColumn

end Cecs

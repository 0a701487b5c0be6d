import Cecs.Foundation.Vectors
import Cecs.Table.RawColumn

/-! # Columns behave as lists

Over any run of the operations of columns the buffers hold what the lists of the table model
hold, and no value is lost or dropped twice, as long as a full column can grow, values
without a size need no alignment, and neither a clone nor a destructor panics. -/

namespace Cecs

open Foundation

namespace RawColumn

variable {Value : Type}

/-- The operations of columns of one element type. -/
def columnOps (Value : Type) (element : Layout) : VectorOps (RawColumn Value) Value where
  new := new element
  push := push element
  swapRemove := swapRemove element
  remove := remove element
  overwrite := overwrite element
  moveRow := moveRow element
  moveRowInto := moveRowInto element
  swapRows := swapRows element
  clone := clone element
  values := contents element
  finalize := finalize element

/-- What they need besides rows in range. -/
def columnNeeds (Value : Type) (element : Layout) : VectorNeeds (RawColumn Value) Value where
  fits capacity := element.fitsArray capacity
  room := Room element
  clones := Clones
  drops := Drops

variable {element : Layout} {column src dst : RawColumn Value}
  {values srcValues dstValues : List Value}

theorem Holds.moveRow_iff (holdsSrc : src.Holds element srcValues)
    (holdsDst : dst.Holds element dstValues) {row : Nat} (inRange : row < srcValues.length) :
    (∃ restSrc restDst, src.moveRow element dst row = some (restSrc, restDst) ∧
      restSrc.Holds element (Foundation.swapRemove srcValues row) ∧
      restDst.Holds element (dstValues ++ [srcValues[row]])) ↔ dst.Room element := by
  rcases holdsSrc.swapRemove inRange with ⟨rest, removed, holdsRest⟩
  rw [← holdsDst.push_iff srcValues[row]]
  constructor
  · intro moved
    rcases moved with ⟨restSrc, restDst, moved, _, holdsPushed⟩
    simp only [moveRow, removed, Option.bind_eq_bind, Option.bind_some, Option.pure_def,
      Option.bind_eq_some_iff, Option.some.injEq, Prod.mk.injEq] at moved
    rcases moved with ⟨pushed, push, rfl, rfl⟩
    exact ⟨pushed, push, holdsPushed⟩
  · intro pushed
    rcases pushed with ⟨pushed, push, holdsPushed⟩
    exact ⟨rest, pushed, by simp [moveRow, removed, push], holdsRest, holdsPushed⟩

theorem Holds.moveRowInto (holdsSrc : src.Holds element srcValues)
    (holdsDst : dst.Holds element dstValues) {srcRow dstRow : Nat}
    (srcInRange : srcRow < srcValues.length) (dstInRange : dstRow < dstValues.length) :
    ∃ restSrc restDst,
      src.moveRowInto element srcRow dst dstRow = some (dstValues[dstRow], restSrc, restDst) ∧
        restSrc.Holds element (Foundation.swapRemove srcValues srcRow) ∧
        restDst.Holds element (dstValues.set dstRow srcValues[srcRow]) := by
  rcases holdsSrc.swapRemove srcInRange with ⟨rest, removed, holdsRest⟩
  rcases holdsDst.overwrite dstInRange srcValues[srcRow] with ⟨written, overwritten, holdsWritten⟩
  exact ⟨rest, written, by simp [RawColumn.moveRowInto, removed, overwritten], holdsRest,
    holdsWritten⟩

/-- Columns do what lists do, where their needs are met. -/
theorem columnOps_refines (Value : Type) (element : Layout) :
    (columnOps Value element).Refines (Holds element) (columnNeeds Value element) where
  new _ := new_iff
  push holds value := holds.push_iff value
  swapRemove := by
    intro current values row value holds found
    rcases List.getElem?_eq_some_iff.mp found with ⟨inRange, rfl⟩
    exact holds.swapRemove inRange
  remove := by
    intro current values row value holds found
    rcases List.getElem?_eq_some_iff.mp found with ⟨inRange, rfl⟩
    exact holds.swapRemove inRange
  overwrite := by
    intro current values row old holds found value
    rcases List.getElem?_eq_some_iff.mp found with ⟨inRange, rfl⟩
    exact holds.overwrite inRange value
  moveRow := by
    intro src dst srcValues dstValues row value holdsSrc holdsDst found
    rcases List.getElem?_eq_some_iff.mp found with ⟨inRange, rfl⟩
    exact holdsSrc.moveRow_iff holdsDst inRange
  moveRowInto := by
    intro src dst srcValues dstValues srcRow dstRow value old holdsSrc holdsDst foundSrc foundDst
    rcases List.getElem?_eq_some_iff.mp foundSrc with ⟨srcInRange, rfl⟩
    rcases List.getElem?_eq_some_iff.mp foundDst with ⟨dstInRange, rfl⟩
    exact holdsSrc.moveRowInto holdsDst srcInRange dstInRange
  swapRows := by
    intro current values src dst atSrc atDst holds foundSrc foundDst
    rcases List.getElem?_eq_some_iff.mp foundSrc with ⟨srcInRange, rfl⟩
    rcases List.getElem?_eq_some_iff.mp foundDst with ⟨dstInRange, rfl⟩
    exact holds.swapRows srcInRange dstInRange
  clone holds transfer := holds.clone_iff transfer
  values holds := holds.contents
  finalize holds panics := holds.finalize_iff panics

/-- After each operation of a run the columns hold what the lists hold, within their capacity,
and every value ever created is in one live place of one column or was returned or dropped
once. -/
def Behaves (element : Layout) (operations : List (VectorOp Value)) : Prop :=
  ∀ done, done <+: operations → ∃ columns lists,
    (columnOps Value element).run .empty done = some columns ∧
      (listOps Value).run .empty done = some lists ∧
      columns.Represents (Holds element) lists ∧ (columnOps Value element).Accounted columns

/-- In a run: new columns are of a valid layout; whenever a value is pushed onto a column, also
from another one, it needs no more alignment than there is, and a full column can grow; no
clone panics, and at the end of a column at most the last destructor does. -/
def NeedsMet (element : Layout) (operations : List (VectorOp Value)) : Prop :=
  ∀ done op, done ++ [op] <+: operations → ∀ columns,
    (columnOps Value element).run .empty done = some columns →
      (columnNeeds Value element).Admits columns op

theorem Behaves.needsMet {operations : List (VectorOp Value)}
    (inRange : ((listOps Value).run .empty operations).isSome)
    (behaves : Behaves element operations) : NeedsMet element operations := by
  rw [NeedsMet, ← (columnOps_refines Value element).run_iff inRange]
  intro done within
  rcases behaves done within with ⟨columns, lists, ran, listed, represents, _⟩
  exact ⟨columns, lists, ran, listed, represents⟩

theorem NeedsMet.behaves {operations : List (VectorOp Value)}
    (inRange : ((listOps Value).run .empty operations).isSome)
    (needsMet : NeedsMet element operations) : Behaves element operations := by
  have refines := columnOps_refines Value element
  rw [NeedsMet, ← refines.run_iff inRange] at needsMet
  intro done within
  rcases needsMet done within with ⟨columns, lists, ran, listed, represents⟩
  have accounted := VectorOps.accounted_run listed
  rw [VectorOps.Accounted, ← represents.live refines.values, ← represents.returned,
    ← represents.dropped, ← represents.created] at accounted
  exact ⟨columns, lists, ran, listed, represents, accounted⟩

theorem behaves_iff (element : Layout) {operations : List (VectorOp Value)}
    (inRange : ((listOps Value).run .empty operations).isSome) :
    Behaves element operations ↔ NeedsMet element operations :=
  ⟨fun behaves => behaves.needsMet inRange, fun needsMet => needsMet.behaves inRange⟩

/-- A column that starts empty is reallocated, gives rows away and is cloned; the destructor of
the last value of the clone panics. -/
theorem behaves_iff_sample :
    let element : Layout := { size := 8, align := 8 }
    let operations : List (VectorOp Nat) :=
      [.new 0, .push 0 5, .push 0 6, .push 0 7, .new 1, .moveRow 0 1 0, .clone 0 (some <| · + 10),
        .overwrite 1 0 8, .remove 0 1, .finalize 2 (· == 16)]
    ((columnOps Nat element).run .empty operations).map (fun columns =>
      ((columnOps Nat element).live columns, columns.dropped)) = some ([7, 8], [5, 6, 17, 16]) ∧
      (Behaves element operations ↔ NeedsMet element operations) :=
  ⟨rfl, behaves_iff _ rfl⟩

/-- Pushes within the capacity keep the capacity. -/
theorem run_pushes (plain : element.Plain) (times : Nat) (val : Value)
    (created returned dropped : List Value) (holds : column.Holds element values)
    (enough : column.endIndex + times ≤ column.capacity) :
    ∃ columns filled, (columnOps Value element).run
        { vectors := [some column], created, returned, dropped }
        (List.replicate times (.push 0 val)) = some columns ∧
      columns.vector 0 = some filled ∧ filled.endIndex = column.endIndex + times ∧
      filled.capacity = column.capacity := by
  induction times generalizing column values created with
  | zero => exact ⟨_, column, rfl, rfl, rfl, rfl⟩
  | succ times induction =>
      have partly : column.endIndex ≠ column.capacity := by omega
      have room : column.endIndex < column.capacity := by omega
      have word := holds.withinWord
      have wrapped : (column.endIndex + 1) % 2 ^ 32 = column.endIndex + 1 :=
        Nat.mod_eq_of_lt (by omega)
      have next := holds.append val room plain
      rw [wrapped] at next
      have pushed : column.push element val = some { column with
          data := Function.update column.data column.endIndex (some val)
          endIndex := column.endIndex + 1 } := by
        rw [← wrapped]
        simp [push, partly, holds.withinCapacity, write_eq (holds.hasPlace room plain)]
      rcases induction (created ++ [val]) next (by simp only; omega) with
        ⟨columns, filled, ran, own, count, capacity⟩
      refine ⟨columns, filled, ?_, own, ?_, capacity⟩
      · rw [List.replicate_succ, VectorOps.run]
        simp only [VectorOps.step, Holdings.vector, List.getElem?_cons_zero, Option.join_some,
          columnOps, pushed, Option.bind_eq_bind, Option.bind_some, Option.pure_def]
        exact ran
      · simp only [count]
        omega

/-- Lists take any number of pushes. -/
theorem isSome_run_pushes (capacity times : Nat) (val : Value) : ((listOps Value).run .empty
    (.new capacity :: List.replicate times (.push 0 val))).isSome := by
  have pushes : ∀ values created : List Value, ((listOps Value).run
      { vectors := [some values], created, returned := [], dropped := [] }
      (List.replicate times (.push 0 val))).isSome := by
    induction times with
    | zero => exact fun _ _ => rfl
    | succ times induction =>
        intro values created
        rw [List.replicate_succ]
        exact induction (values ++ [val]) (created ++ [val])
  exact pushes [] []

/-- A column whose capacity cannot be grown any more gets full and is pushed onto again. -/
theorem not_needsMet (plain : element.Plain) {capacity : Nat} (val : Value)
    (fits : element.fitsArray capacity) (word : capacity < 2 ^ 32)
    (large : 2 ^ 32 ≤ capacity * 3) :
    ¬NeedsMet element (.new capacity :: List.replicate (capacity + 1) (.push 0 val)) := by
  intro needs
  obtain ⟨column, made, holds⟩ : ∃ column : RawColumn Value,
      new element capacity = some column ∧ column.Holds element [] := new_iff.mpr fits
  have start : column.endIndex = 0 := holds.length
  have same : column.capacity = capacity := by
    simp only [new, Option.bind_eq_bind, Option.bind_eq_some_iff, Option.pure_def,
      Option.some.injEq] at made
    rcases made with ⟨_, _, rfl⟩
    exact Nat.mod_eq_of_lt word
  rcases run_pushes plain capacity val [] [] [] holds (by omega) with
    ⟨columns, filled, ran, own, count, kept⟩
  have first : (columnOps Value element).run .empty
      (.new capacity :: List.replicate capacity (.push 0 val)) = some columns := by
    rw [VectorOps.run]
    simp only [VectorOps.step, columnOps, made, Option.bind_eq_bind, Option.bind_some,
      Option.pure_def]
    exact ran
  have room := needs _ (.push 0 val) ⟨[], by simp [List.replicate_succ']⟩ columns first filled own
  have small := (room.2 (by omega)).1
  omega

/-- 1431655766 pushes fill a column, and the next one leaves no room for its value. The drop of
a clone that panicked reads a place that was never written. A value without a size may need
more alignment than its place has. The values behind one whose destructor panics are not
dropped. -/
theorem behaves_fails :
    (((listOps Nat).run .empty
        (.new 1431655766 :: List.replicate 1431655767 (.push 0 7))).isSome ∧
      ¬Behaves { size := 1, align := 1 }
        (.new 1431655766 :: List.replicate 1431655767 (.push 0 7))) ∧
    (((listOps Nat).run .empty [.new 1, .push 0 5, .clone 0 fun _ => none]).isSome ∧
      ¬Behaves { size := 8, align := 8 } [.new 1, .push 0 5, .clone 0 fun _ => none]) ∧
    (((listOps Nat).run .empty [.new 1, .push 0 5]).isSome ∧
      ¬Behaves { size := 0, align := 8 } [.new 1, .push 0 5]) ∧
    (((listOps Nat).run .empty
        [.new 2, .push 0 5, .push 0 6, .finalize 0 fun _ => true]).isSome ∧
      ¬Behaves { size := 8, align := 8 }
        [.new 2, .push 0 5, .push 0 6, .finalize 0 fun _ => true]) := by
  have sized : ({ size := 1, align := 1 } : Layout).Plain := by simp [Layout.Plain]
  have inRange := isSome_run_pushes 1431655766 (1431655766 + 1) 7
  refine ⟨⟨inRange, ?_⟩, ⟨rfl, ?_⟩, ⟨rfl, ?_⟩, ⟨rfl, ?_⟩⟩
  · intro behaves
    exact not_needsMet sized 7 (by decide) (by decide) (by decide) (behaves.needsMet inRange)
  · intro behaves
    have clones := behaves.needsMet rfl [.new 1, .push 0 5] _ (List.prefix_refl _) _ rfl _ rfl
    cases clones 0 (by decide) 5 rfl
  · intro behaves
    have room := behaves.needsMet rfl [.new 1] _ (List.prefix_refl _) _ rfl _ rfl
    cases room.1 rfl
  · intro behaves
    have drops := behaves.needsMet rfl [.new 2, .push 0 5, .push 0 6] _ (List.prefix_refl _) _
      rfl _ rfl
    cases drops 0 (by decide) 5 rfl

end RawColumn

end Cecs

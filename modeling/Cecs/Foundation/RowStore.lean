import Cecs.Foundation.SwapRemove
import Mathlib.Logic.Function.Basic

/-! # Dense tables with back pointers

Keys own rows, rows lie densely in tables, and a directory says for every key
in which table and at which position its row lies. A row is removed by swapping
the last row of its table into its place, so the directory entry of the key
that was moved has to follow. -/

namespace Cecs.Foundation

@[ext]
structure RowStore (Table Key Row : Type) where
  place : Key → Option (Table × Nat)
  rows : Table → List (Key × Row)

namespace RowStore

variable {Table Key Row : Type}

def keys (store : RowStore Table Key Row) (table : Table) : List Key :=
  (store.rows table).map Prod.fst

/-- Directory and tables name each other. -/
def Linked (store : RowStore Table Key Row) : Prop :=
  ∀ key table position, store.place key = some (table, position) ↔
    (store.keys table)[position]? = some key

/-- The row of a key, looked up through the directory. -/
def view (store : RowStore Table Key Row) (key : Key) : Option Row :=
  (store.place key).bind fun spot => ((store.rows spot.1)[spot.2]?).map Prod.snd

section Lookup

variable {store : RowStore Table Key Row}

theorem Linked.keys_nodup (linked : store.Linked) (table : Table) :
    (store.keys table).Nodup := by
  rw [List.nodup_iff_getElem?_ne_getElem?]
  intro left right before inRange equal
  have atLeft := List.getElem?_eq_getElem (Nat.lt_trans before inRange)
  have placedLeft := (linked _ table left).mpr atLeft
  have placedRight := (linked _ table right).mpr (equal.symm.trans atLeft)
  rw [placedLeft] at placedRight
  have same : left = right := congrArg Prod.snd (Option.some.inj placedRight)
  omega

/-- Two keys are in different rows. -/
theorem Linked.eq_of_place (linked : store.Linked) {key other : Key} {table : Table}
    {position : Nat} (placed : store.place key = some (table, position))
    (otherPlaced : store.place other = some (table, position)) : other = key := by
  have here := (linked other table position).mp otherPlaced
  rw [(linked key table position).mp placed] at here
  exact (Option.some.inj here).symm

theorem Linked.rows_nodup (linked : store.Linked) (table : Table) :
    (store.rows table).Nodup :=
  (linked.keys_nodup table).of_map

theorem Linked.getElem?_rows (linked : store.Linked) {key : Key} {table : Table}
    {position : Nat} (placed : store.place key = some (table, position)) :
    ∃ row, (store.rows table)[position]? = some (key, row) ∧
      store.view key = some row := by
  have keyAt := (linked key table position).mp placed
  rw [keys, List.getElem?_map, Option.map_eq_some_iff] at keyAt
  rcases keyAt with ⟨⟨owner, row⟩, found, rfl⟩
  exact ⟨row, found, by simp [view, placed, found]⟩

theorem Linked.place_of_getElem? (linked : store.Linked) {key : Key} {row : Row}
    {table : Table} {position : Nat}
    (found : (store.rows table)[position]? = some (key, row)) :
    store.place key = some (table, position) := by
  apply (linked key table position).mpr
  rw [keys, List.getElem?_map, found]
  rfl

/-- The view is what lies in the tables. -/
theorem Linked.view_eq_some_iff (linked : store.Linked) {key : Key} {row : Row} :
    store.view key = some row ↔ ∃ table, (key, row) ∈ store.rows table := by
  constructor
  · intro viewed
    cases placed : store.place key with
    | none => simp [view, placed] at viewed
    | some spot =>
        rcases spot with ⟨table, position⟩
        rcases linked.getElem?_rows placed with ⟨found, atPlace, viewedFound⟩
        rw [viewed] at viewedFound
        cases viewedFound
        exact ⟨table, List.mem_of_getElem? atPlace⟩
  · rintro ⟨table, member⟩
    rcases List.mem_iff_getElem?.mp member with ⟨position, found⟩
    have placed := linked.place_of_getElem? found
    simp [view, placed, found]

theorem Linked.view_eq_none_iff (linked : store.Linked) {key : Key} :
    store.view key = none ↔ store.place key = none := by
  cases placed : store.place key with
  | none => simp [view, placed]
  | some spot =>
      rcases linked.getElem?_rows placed with ⟨row, _, viewed⟩
      simp [viewed]

/-- What the rows hold besides the keys does not matter. -/
theorem Linked.congr {Other : Type} {other : RowStore Table Key Other} (linked : store.Linked)
    (place : other.place = store.place) (keys : other.keys = store.keys) : other.Linked := by
  intro key table position
  rw [place, keys]
  exact linked key table position

end Lookup

section Edit

variable [DecidableEq Table] [DecidableEq Key]

/-- Remove the row of a key; the row swapped into its place takes the position. -/
def detach (store : RowStore Table Key Row) (key : Key) (table : Table)
    (position : Nat) : RowStore Table Key Row where
  place other :=
    if other = key then none
    else if ((swapRemove (store.rows table) position)[position]?).map Prod.fst =
        some other then
      some (table, position)
    else store.place other
  rows := Function.update store.rows table (swapRemove (store.rows table) position)

/-- Append a row for a key. -/
def attach (store : RowStore Table Key Row) (key : Key) (table : Table) (row : Row) :
    RowStore Table Key Row where
  place := Function.update store.place key (some (table, (store.rows table).length))
  rows := Function.update store.rows table (store.rows table ++ [(key, row)])

/-- Replace the row of a key where it lies. -/
def overwrite (store : RowStore Table Key Row) (key : Key) (table : Table)
    (position : Nat) (row : Row) : RowStore Table Key Row where
  place := store.place
  rows := Function.update store.rows table
    ((store.rows table).set position (key, row))

variable {store : RowStore Table Key Row}

theorem rows_detach (key : Key) (table : Table) (position : Nat) :
    (store.detach key table position).rows =
      Function.update store.rows table (swapRemove (store.rows table) position) := rfl

@[simp] theorem place_detach_self (key : Key) (table : Table) (position : Nat) :
    (store.detach key table position).place key = none := by
  simp [detach]

theorem rows_attach (key : Key) (table : Table) (row : Row) :
    (store.attach key table row).rows =
      Function.update store.rows table (store.rows table ++ [(key, row)]) := rfl

theorem place_attach (key : Key) (table : Table) (row : Row) :
    (store.attach key table row).place =
      Function.update store.place key (some (table, (store.rows table).length)) := rfl

theorem keys_detach (key : Key) (table : Table) (position : Nat) (target : Table) :
    (store.detach key table position).keys target =
      if target = table then swapRemove (store.keys table) position
      else store.keys target := by
  by_cases sameTable : target = table
  · subst sameTable
    simp [keys, detach, swapRemove_map]
  · simp [keys, detach, sameTable]

theorem keys_attach (key : Key) (table : Table) (row : Row) (target : Table) :
    (store.attach key table row).keys target =
      if target = table then store.keys table ++ [key] else store.keys target := by
  by_cases sameTable : target = table
  · subst sameTable
    simp [keys, attach]
  · simp [keys, attach, sameTable]

omit [DecidableEq Key] in
theorem Linked.keys_overwrite (linked : store.Linked) {key : Key} {table : Table}
    {position : Nat} (placed : store.place key = some (table, position)) (row : Row)
    (target : Table) :
    (store.overwrite key table position row).keys target = store.keys target := by
  by_cases sameTable : target = table
  · subst sameTable
    rcases List.getElem?_eq_some_iff.mp ((linked key target position).mp placed) with
      ⟨within, own⟩
    simp only [keys, overwrite, Function.update_self, List.map_set]
    change (store.keys target).set position key = store.keys target
    rw [← own, List.set_getElem_self]
  · simp [keys, overwrite, sameTable]

/-- The directory after a removal, with the moved key read off the key list. -/
theorem place_detach (key : Key) (table : Table) (position : Nat) (other : Key) :
    (store.detach key table position).place other =
      if other = key then none
      else if (swapRemove (store.keys table) position)[position]? = some other then
        some (table, position)
      else store.place other := by
  simp only [detach, keys, swapRemove_map, List.getElem?_map]

theorem Linked.detach (linked : store.Linked) {key : Key} {table : Table}
    {position : Nat} (placed : store.place key = some (table, position)) :
    (store.detach key table position).Linked := by
  have own := (linked key table position).mp placed
  intro other target spot
  rw [place_detach, keys_detach]
  by_cases sameTable : target = table
  · subst sameTable
    have spots := getElem?_swapRemove_eq_some_iff (linked.keys_nodup target) own spot other
    rw [if_pos rfl]
    refine Iff.trans ?_ spots.symm
    by_cases isKey : other = key
    · simp [isKey]
    · by_cases moved :
          (swapRemove (store.keys target) position)[position]? = some other
      · simp [moved, isKey, eq_comm]
      · simp [moved, isKey, linked other target spot]
  · rw [if_neg sameTable, ← linked other target spot]
    by_cases isKey : other = key
    · subst isKey
      simp [placed, Ne.symm sameTable]
    · by_cases moved :
          (swapRemove (store.keys table) position)[position]? = some other
      · -- The moved key was in `table` before, so it is not in another table.
        have member := mem_of_mem_swapRemove (List.mem_of_getElem? moved)
        rcases List.mem_iff_getElem?.mp member with ⟨before, found⟩
        have placedOther := (linked other table before).mpr found
        simp [moved, placedOther, Ne.symm sameTable, isKey]
      · simp [moved, isKey]

theorem Linked.view_detach (linked : store.Linked) {key : Key} {table : Table}
    {position : Nat} (placed : store.place key = some (table, position)) :
    (store.detach key table position).view = Function.update store.view key none := by
  rcases linked.getElem?_rows placed with ⟨ownRow, own, viewed⟩
  funext other
  apply Option.ext
  intro row
  rw [(linked.detach placed).view_eq_some_iff]
  by_cases isKey : other = key
  · subst isKey
    rw [Function.update_self]
    simp only [reduceCtorEq, iff_false, not_exists]
    intro target member
    rcases List.mem_iff_getElem?.mp member with ⟨spot, found⟩
    have placedAfter := (linked.detach placed).place_of_getElem? found
    simp [RowStore.detach] at placedAfter
  · rw [Function.update_of_ne isKey, linked.view_eq_some_iff]
    apply exists_congr
    intro target
    by_cases sameTable : target = table
    · subst sameTable
      simp only [RowStore.detach, Function.update_self]
      rw [mem_swapRemove_iff (linked.rows_nodup target) own]
      simp [isKey]
    · simp only [RowStore.detach, Function.update_of_ne sameTable]

theorem Linked.attach (linked : store.Linked) {key : Key} (absent : store.place key = none)
    (table : Table) (row : Row) : (store.attach key table row).Linked := by
  have nowhere : ∀ (target : Table) (spot : Nat), (store.keys target)[spot]? ≠ some key := by
    intro target spot found
    have placed := (linked key target spot).mpr found
    simp [absent] at placed
  have sameLength : (store.rows table).length = (store.keys table).length := by
    simp [keys]
  intro other target spot
  rw [keys_attach]
  simp only [RowStore.attach, sameLength]
  by_cases isKey : other = key
  · subst isKey
    rw [Function.update_self]
    by_cases sameTable : target = table
    · subst sameTable
      have absentBefore := nowhere target spot
      grind
    · simp [sameTable, Ne.symm sameTable, nowhere target spot]
  · rw [Function.update_of_ne isKey, linked other target spot]
    by_cases sameTable : target = table
    · subst sameTable
      grind
    · rw [if_neg sameTable]

theorem Linked.view_attach (linked : store.Linked) {key : Key}
    (absent : store.place key = none) (table : Table) (row : Row) :
    (store.attach key table row).view = Function.update store.view key (some row) := by
  funext other
  by_cases isKey : other = key
  · subst isKey
    simp [view, RowStore.attach]
  · rw [Function.update_of_ne isKey]
    apply Option.ext
    intro found
    rw [(linked.attach absent table row).view_eq_some_iff, linked.view_eq_some_iff]
    apply exists_congr
    intro target
    by_cases sameTable : target = table
    · subst sameTable
      simp [RowStore.attach, isKey]
    · simp [RowStore.attach, sameTable]

omit [DecidableEq Key] in
theorem Linked.overwrite (linked : store.Linked) {key : Key} {table : Table}
    {position : Nat} (placed : store.place key = some (table, position)) (row : Row) :
    (store.overwrite key table position row).Linked := by
  intro other target spot
  rw [linked.keys_overwrite placed]
  exact linked other target spot

theorem Linked.view_overwrite (linked : store.Linked) {key : Key} {table : Table}
    {position : Nat} (placed : store.place key = some (table, position)) (row : Row) :
    (store.overwrite key table position row).view =
      Function.update store.view key (some row) := by
  rcases linked.getElem?_rows placed with ⟨ownRow, own, _⟩
  have within : position < (store.rows table).length :=
    (List.getElem?_eq_some_iff.mp own).1
  funext other
  by_cases isKey : other = key
  · subst isKey
    simp [view, RowStore.overwrite, placed, within]
  · rw [Function.update_of_ne isKey]
    simp only [view, RowStore.overwrite]
    cases otherPlaced : store.place other with
    | none => rfl
    | some spot =>
        rcases spot with ⟨target, before⟩
        by_cases sameTable : target = table
        · subst sameTable
          have different : position ≠ before := fun same =>
            isKey (linked.eq_of_place placed (same ▸ otherPlaced))
          simp [different]
        · simp [sameTable]

/-- The row of a key passes to another key that has none. -/
def handOver (store : RowStore Table Key Row) (key heir : Key) (table : Table)
    (position : Nat) (row : Row) : RowStore Table Key Row where
  place := Function.update (Function.update store.place key none) heir (some (table, position))
  rows := Function.update store.rows table ((store.rows table).set position (heir, row))

theorem keys_handOver (key heir : Key) (table : Table) (position : Nat) (row : Row)
    (target : Table) :
    (store.handOver key heir table position row).keys target =
      if target = table then (store.keys table).set position heir else store.keys target := by
  by_cases sameTable : target = table
  · subst sameTable
    simp [keys, handOver]
  · simp [keys, handOver, sameTable]

theorem Linked.handOver (linked : store.Linked) {key heir : Key} {table : Table}
    {position : Nat} (placed : store.place key = some (table, position))
    (absent : store.place heir = none) (row : Row) :
    (store.handOver key heir table position row).Linked := by
  have own := (linked key table position).mp placed
  have inRange := (List.getElem?_eq_some_iff.mp own).1
  have nowhere : ∀ (target : Table) (spot : Nat), (store.keys target)[spot]? ≠ some heir := by
    intro target spot found
    have elsewhere := (linked heir target spot).mpr found
    rw [absent] at elsewhere
    cases elsewhere
  intro other target spot
  rw [keys_handOver]
  simp only [RowStore.handOver, Function.update_apply]
  by_cases isHeir : other = heir
  · subst isHeir
    rw [if_pos rfl]
    by_cases sameTable : target = table
    · subst sameTable
      rw [if_pos rfl, List.getElem?_set]
      by_cases samePosition : position = spot
      · simp [samePosition, samePosition ▸ inRange]
      · simp [samePosition, nowhere target spot]
    · simp [sameTable, Ne.symm sameTable, nowhere target spot]
  · rw [if_neg isHeir]
    by_cases isKey : other = key
    · subst isKey
      rw [if_pos rfl]
      by_cases sameTable : target = table
      · subst sameTable
        rw [if_pos rfl, List.getElem?_set]
        by_cases samePosition : position = spot
        · simp [samePosition, samePosition ▸ inRange, Ne.symm isHeir]
        · simp [samePosition, ← linked other target spot, placed]
      · simp [sameTable, ← linked other target spot, placed, Ne.symm sameTable]
    · rw [if_neg isKey, linked other target spot]
      by_cases sameTable : target = table
      · subst sameTable
        rw [if_pos rfl, List.getElem?_set]
        by_cases samePosition : position = spot
        · subst samePosition
          rw [if_pos rfl, if_pos inRange, own]
          simp [Ne.symm isKey, Ne.symm isHeir]
        · simp [samePosition]
      · simp [sameTable]

theorem Linked.view_handOver (linked : store.Linked) {key heir : Key} {table : Table}
    {position : Nat} (placed : store.place key = some (table, position))
    (absent : store.place heir = none) (row : Row) :
    (store.handOver key heir table position row).view =
      Function.update (Function.update store.view key none) heir (some row) := by
  rcases linked.getElem?_rows placed with ⟨ownRow, own, _⟩
  have within := (List.getElem?_eq_some_iff.mp own).1
  funext other
  by_cases isHeir : other = heir
  · subst isHeir
    simp [view, RowStore.handOver, within]
  · rw [Function.update_of_ne isHeir]
    by_cases isKey : other = key
    · subst isKey
      simp [view, RowStore.handOver, isHeir]
    · rw [Function.update_of_ne isKey]
      simp only [view, RowStore.handOver, Function.update_of_ne isHeir,
        Function.update_of_ne isKey]
      cases otherPlaced : store.place other with
      | none => rfl
      | some spot =>
          rcases spot with ⟨target, before⟩
          by_cases sameTable : target = table
          · subst sameTable
            have different : position ≠ before := fun same =>
              isKey (linked.eq_of_place placed (same ▸ otherPlaced))
            simp [different]
          · simp [sameTable]

end Edit

end RowStore

end Cecs.Foundation

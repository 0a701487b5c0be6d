import Cecs.Foundation.SwapRemove
import Mathlib.Data.List.Induction
import Mathlib.Data.Option.Basic

/-! # Vectors that hand values around

The operations of a growable vector over any representation of it, runs of them over several
vectors with the values created, returned and dropped on the way, and what it takes for a
representation to behave as lists do. A clone and a destructor of a value may panic. -/

namespace Cecs.Foundation

/-- The operations of a growable vector. `none` stands for a failure. -/
structure VectorOps (Vector Value : Type) where
  new : Nat → Option Vector
  push : Vector → Value → Option Vector
  /-- The last value takes the place of the removed one. -/
  swapRemove : Vector → Nat → Option (Value × Vector)
  /-- The removed value is dropped. -/
  remove : Vector → Nat → Option (Value × Vector)
  /-- The value that was there before is dropped. -/
  overwrite : Vector → Nat → Value → Option (Value × Vector)
  moveRow : Vector → Vector → Nat → Option (Vector × Vector)
  /-- The value that was there before is dropped. -/
  moveRowInto : Vector → Nat → Vector → Nat → Option (Value × Vector × Vector)
  swapRows : Vector → Nat → Nat → Option Vector
  /-- The values are cloned in order, up to one whose clone is `none` and panics. What was made
  until then is dropped. -/
  clone : Vector → (Value → Option Value) → Option (Except (List Value) Vector)
  values : Vector → Option (List Value)
  /-- The values that are dropped at the end of the vector, when these destructors panic. -/
  finalize : Vector → (Value → Bool) → Option (List Value)

/-- An operation on vectors, which are named by the order of their creation. -/
inductive VectorOp (Value : Type) where
  | new (capacity : Nat)
  | push (vector : Nat) (value : Value)
  | swapRemove (vector row : Nat)
  | remove (vector row : Nat)
  | overwrite (vector row : Nat) (value : Value)
  | moveRow (src dst row : Nat)
  | moveRowInto (src srcRow dst dstRow : Nat)
  | swapRows (vector src dst : Nat)
  | clone (vector : Nat) (transfer : Value → Option Value)
  | finalize (vector : Nat) (panics : Value → Bool)

/-- Vectors, `none` after their end, and what became of the values. -/
structure Holdings (Vector Value : Type) where
  vectors : List (Option Vector)
  created : List Value
  returned : List Value
  dropped : List Value

namespace Holdings

variable {Vector Value : Type}

def empty : Holdings Vector Value := { vectors := [], created := [], returned := [], dropped := [] }

def vector (self : Holdings Vector Value) (index : Nat) : Option Vector :=
  self.vectors[index]?.join

def set (self : Holdings Vector Value) (index : Nat) (vector : Option Vector) :
    Holdings Vector Value := { self with vectors := self.vectors.set index vector }

theorem vector_set_ne {self : Holdings Vector Value} {index other : Nat} {next : Option Vector}
    (different : index ≠ other) : (self.set index next).vector other = self.vector other := by
  rw [vector, vector, set, List.getElem?_set_ne different]

end Holdings

namespace VectorOps

variable {Vector Value : Type}

def step (ops : VectorOps Vector Value) (self : Holdings Vector Value) :
    VectorOp Value → Option (Holdings Vector Value)
  | .new capacity => do
      let made ← ops.new capacity
      return { self with vectors := self.vectors ++ [some made] }
  | .push vector value => do
      let current ← self.vector vector
      let pushed ← ops.push current value
      return { self.set vector pushed with created := self.created ++ [value] }
  | .swapRemove vector row => do
      let current ← self.vector vector
      let (value, rest) ← ops.swapRemove current row
      return { self.set vector rest with returned := self.returned ++ [value] }
  | .remove vector row => do
      let current ← self.vector vector
      let (value, rest) ← ops.remove current row
      return { self.set vector rest with dropped := self.dropped ++ [value] }
  | .overwrite vector row value => do
      let current ← self.vector vector
      let (old, rest) ← ops.overwrite current row value
      return { self.set vector rest with
        created := self.created ++ [value], dropped := self.dropped ++ [old] }
  | .moveRow src dst row => do
      guard (src ≠ dst)
      let currentSrc ← self.vector src
      let currentDst ← self.vector dst
      let (restSrc, restDst) ← ops.moveRow currentSrc currentDst row
      return (self.set src restSrc).set dst restDst
  | .moveRowInto src srcRow dst dstRow => do
      guard (src ≠ dst)
      let currentSrc ← self.vector src
      let currentDst ← self.vector dst
      let (old, restSrc, restDst) ← ops.moveRowInto currentSrc srcRow currentDst dstRow
      return { (self.set src restSrc).set dst restDst with dropped := self.dropped ++ [old] }
  | .swapRows vector src dst => do
      let current ← self.vector vector
      let swapped ← ops.swapRows current src dst
      return self.set vector swapped
  | .clone vector transfer => do
      let current ← self.vector vector
      match ← ops.clone current transfer with
      | .ok copy =>
          let values ← ops.values copy
          return { self with
            vectors := self.vectors ++ [some copy], created := self.created ++ values }
      | .error made =>
          return { self with created := self.created ++ made, dropped := self.dropped ++ made }
  | .finalize vector panics => do
      let current ← self.vector vector
      let values ← ops.finalize current panics
      return { self.set vector none with dropped := self.dropped ++ values }

def run (ops : VectorOps Vector Value) (self : Holdings Vector Value) :
    List (VectorOp Value) → Option (Holdings Vector Value)
  | [] => some self
  | op :: rest => do
      let next ← ops.step self op
      ops.run next rest

theorem run_append (ops : VectorOps Vector Value) (self : Holdings Vector Value)
    (first second : List (VectorOp Value)) :
    ops.run self (first ++ second) = (ops.run self first).bind fun next => ops.run next second := by
  induction first generalizing self with
  | nil => rfl
  | cons op first induction =>
      cases stepped : ops.step self op with
      | none => simp [run, stepped]
      | some next => simp [run, stepped, induction]

theorem run_snoc (ops : VectorOps Vector Value) (self : Holdings Vector Value)
    (first : List (VectorOp Value)) (op : VectorOp Value) :
    ops.run self (first ++ [op]) = (ops.run self first).bind fun next => ops.step next op := by
  rw [run_append]
  congr 1
  funext next
  simp [run]

/-- The values in live places, vector by vector. -/
def live (ops : VectorOps Vector Value) (self : Holdings Vector Value) : List Value :=
  self.vectors.flatMap fun vector => (vector.bind ops.values).getD []

/-- Every created value is in one live place, or was returned or dropped once. -/
def Accounted (ops : VectorOps Vector Value) (self : Holdings Vector Value) : Prop :=
  (ops.live self ++ self.returned ++ self.dropped).Perm self.created

end VectorOps

/-! ## Lists -/

/-- The copies of a list, or those made before a clone panics. -/
def cloneList {Value : Type} (transfer : Value → Option Value) :
    List Value → Except (List Value) (List Value)
  | [] => .ok []
  | value :: rest =>
      match transfer value with
      | none => .error []
      | some copy =>
          match cloneList transfer rest with
          | .ok copies => .ok (copy :: copies)
          | .error made => .error (copy :: made)

section Clones

variable {Value : Type} {transfer : Value → Option Value} {values : List Value}

theorem length_of_cloneList_ok {copies : List Value}
    (cloned : cloneList transfer values = .ok copies) : copies.length = values.length := by
  induction values generalizing copies with
  | nil =>
      cases cloned
      rfl
  | cons value rest induction =>
      rw [cloneList] at cloned
      split at cloned
      · cases cloned
      · split at cloned
        · rename_i same
          cases cloned
          rw [List.length_cons, List.length_cons, induction same]
        · cases cloned

theorem length_of_cloneList_error {made : List Value}
    (panicked : cloneList transfer values = .error made) : made.length < values.length := by
  induction values generalizing made with
  | nil => cases panicked
  | cons value rest induction =>
      rw [cloneList] at panicked
      split at panicked
      · cases panicked
        exact Nat.zero_lt_succ _
      · split at panicked
        · cases panicked
        · rename_i same
          cases panicked
          exact Nat.succ_lt_succ (induction same)

/-- The last value is cloned last. -/
theorem cloneList_append_singleton (value : Value) :
    cloneList transfer (values ++ [value]) =
      match cloneList transfer values with
      | .error made => .error made
      | .ok copies =>
          match transfer value with
          | none => .error copies
          | some copy => .ok (copies ++ [copy]) := by
  induction values with
  | nil =>
      simp only [List.nil_append, cloneList]
  | cons head rest induction =>
      rw [List.cons_append, cloneList, cloneList, induction]
      cases transfer head with
      | none => rfl
      | some copy =>
          cases cloneList transfer rest with
          | error made => rfl
          | ok copies => cases transfer value <;> rfl

theorem exists_cloneList_ok_iff :
    (∃ copies, cloneList transfer values = .ok copies) ↔
      ∀ value ∈ values, (transfer value).isSome := by
  induction values with
  | nil => simp [cloneList]
  | cons value rest induction =>
      rw [List.forall_mem_cons, ← induction, cloneList]
      cases transfer value with
      | none => simp
      | some copy =>
          cases cloneList transfer rest with
          | error made => simp
          | ok copies => simp

end Clones

/-- Lists as growable vectors. -/
def listOps (Value : Type) : VectorOps (List Value) Value where
  new _ := some []
  push values value := some (values ++ [value])
  swapRemove values row := do
    let value ← values[row]?
    return (value, swapRemove values row)
  remove values row := do
    let value ← values[row]?
    return (value, swapRemove values row)
  overwrite values row value := do
    let old ← values[row]?
    return (old, values.set row value)
  moveRow src dst row := do
    let value ← src[row]?
    return (swapRemove src row, dst ++ [value])
  moveRowInto src srcRow dst dstRow := do
    let value ← src[srcRow]?
    let old ← dst[dstRow]?
    return (old, swapRemove src srcRow, dst.set dstRow value)
  swapRows values src dst := do
    let atSrc ← values[src]?
    let atDst ← values[dst]?
    return (values.set src atDst).set dst atSrc
  clone values transfer := some (cloneList transfer values)
  values := some
  finalize values _ := some values

section Lists

variable {Value : Type} {holdings after : Holdings (List Value) Value}

/-- What one element of a list contributes, apart from the others. -/
theorem flatMap_set_perm {Element : Type} (values : Element → List Value) {elements : List Element}
    {index : Nat} {element : Element} (found : elements[index]? = some element) :
    ∃ others, (elements.flatMap values).Perm (values element ++ others) ∧
      ∀ next, ((elements.set index next).flatMap values).Perm (values next ++ others) := by
  induction elements generalizing index with
  | nil => cases found
  | cons head tail induction =>
      cases index with
      | zero =>
          cases found
          refine ⟨tail.flatMap values, ?_, ?_⟩
          · rw [List.flatMap_cons]
          · intro next
            rw [List.set_cons_zero, List.flatMap_cons]
      | succ index =>
          rcases induction found with ⟨others, before, after⟩
          refine ⟨values head ++ others, ?_, ?_⟩
          · rw [List.flatMap_cons]
            exact (before.append_left _).trans (List.perm_append_comm_assoc ..)
          · intro next
            rw [List.set_cons_succ, List.flatMap_cons]
            exact ((after next).append_left _).trans (List.perm_append_comm_assoc ..)

theorem live_set {index : Nat} {values : List Value}
    (found : holdings.vector index = some values) :
    ∃ others, ((listOps Value).live holdings).Perm (values ++ others) ∧
      ∀ next : Option (List Value),
        ((listOps Value).live (holdings.set index next)).Perm (next.getD [] ++ others) := by
  rw [Holdings.vector, Option.join_eq_some_iff] at found
  rcases flatMap_set_perm (fun vector => (vector.bind (listOps Value).values).getD []) found with
    ⟨others, before, after⟩
  refine ⟨others, before, ?_⟩
  intro next
  have same : next.bind (listOps Value).values = next := by cases next <;> rfl
  have permuted := after next
  rw [same] at permuted
  exact permuted

/-- Values that come in and go out are counted on both sides. -/
theorem VectorOps.Accounted.step {Vector : Type} {ops : VectorOps Vector Value}
    {self next : Holdings Vector Value} (accounted : ops.Accounted self)
    (made gone lost : List Value)
    (moved : (ops.live next ++ gone ++ lost).Perm (ops.live self ++ made))
    (created : next.created = self.created ++ made)
    (returned : next.returned = self.returned ++ gone)
    (dropped : next.dropped = self.dropped ++ lost) : ops.Accounted next := by
  classical
  rw [VectorOps.Accounted, List.perm_iff_count] at *
  intro value
  have before := accounted value
  have change := moved value
  simp only [created, returned, dropped, List.count_append] at *
  omega

theorem perm_set {values : List Value} {row : Nat} {old : Value} (found : values[row]? = some old)
    (value : Value) : (old :: values.set row value).Perm (value :: values) := by
  rcases List.getElem?_eq_some_iff.mp found with ⟨inRange, rfl⟩
  calc
    (values[row] :: values.set row value).Perm (values[row] :: value :: values.eraseIdx row) :=
      (List.set_perm_cons_eraseIdx inRange value).cons _
    List.Perm _ (value :: values[row] :: values.eraseIdx row) := List.Perm.swap ..
    List.Perm _ (value :: values) := (List.getElem_cons_eraseIdx_perm inRange).cons _

theorem perm_swap {values : List Value} {src dst : Nat} {atSrc atDst : Value}
    (foundSrc : values[src]? = some atSrc) (foundDst : values[dst]? = some atDst) :
    ((values.set src atDst).set dst atSrc).Perm values := by
  have between : (values.set src atDst)[dst]? = some atDst := by
    rw [List.getElem?_set]
    split
    · have inRange := (List.getElem?_eq_some_iff.mp foundSrc).1
      rw [if_pos inRange]
    · exact foundDst
  exact ((perm_set between atSrc).trans (perm_set foundSrc atDst)).cons_inv

/-- A value is moved behind the values of another list. -/
theorem perm_move {src dst : List Value} {row : Nat} {value : Value}
    (found : src[row]? = some value) :
    (swapRemove src row ++ (dst ++ [value])).Perm (src ++ dst) := by
  rw [← List.append_assoc]
  refine (List.perm_append_singleton ..).trans ?_
  exact (perm_swapRemove found).append_right dst

/-- A value is moved over a value of another list. -/
theorem perm_moveOver {src dst : List Value} {srcRow dstRow : Nat} {value old : Value}
    (found : src[srcRow]? = some value) (foundOld : dst[dstRow]? = some old) :
    (swapRemove src srcRow ++ dst.set dstRow value ++ [old]).Perm (src ++ dst) := by
  rw [List.append_assoc]
  calc
    (swapRemove src srcRow ++ (dst.set dstRow value ++ [old])).Perm
        (swapRemove src srcRow ++ (value :: dst)) :=
      ((List.perm_append_singleton ..).trans (perm_set foundOld value)).append_left _
    List.Perm _ (value :: swapRemove src srcRow ++ dst) := List.perm_middle
    List.Perm _ (src ++ dst) := (perm_swapRemove found).append_right dst

/-- One vector exchanges values with the outside. -/
theorem live_exchange {index : Nat} {values : List Value} {next : Option (List Value)}
    {made gone lost : List Value} (found : holdings.vector index = some values)
    (moved : (next.getD [] ++ gone ++ lost).Perm (values ++ made)) :
    ((listOps Value).live (holdings.set index next) ++ gone ++ lost).Perm
      ((listOps Value).live holdings ++ made) := by
  classical
  rcases live_set found with ⟨others, before, after⟩
  rw [List.perm_iff_count] at *
  intro value
  have whole := before value
  have changed := List.perm_iff_count.mp (after next) value
  have balance := moved value
  simp only [List.count_append] at *
  omega

/-- Two vectors exchange values with one another and with the outside. -/
theorem live_exchange_two {src dst : Nat} {valuesSrc valuesDst restSrc restDst : List Value}
    (gone lost : List Value) (different : src ≠ dst)
    (foundSrc : holdings.vector src = some valuesSrc)
    (foundDst : holdings.vector dst = some valuesDst)
    (moved : (restSrc ++ restDst ++ gone ++ lost).Perm (valuesSrc ++ valuesDst)) :
    ((listOps Value).live ((holdings.set src (some restSrc)).set dst (some restDst)) ++
      gone ++ lost).Perm ((listOps Value).live holdings) := by
  classical
  have kept : (holdings.set src (some restSrc)).vector dst = some valuesDst :=
    (Holdings.vector_set_ne different).trans foundDst
  rcases live_set foundSrc with ⟨othersSrc, beforeSrc, afterSrc⟩
  rcases live_set kept with ⟨othersDst, beforeDst, afterDst⟩
  rw [List.perm_iff_count] at *
  intro value
  have whole := beforeSrc value
  have between := beforeDst value
  have changedSrc := List.perm_iff_count.mp (afterSrc restSrc) value
  have changedDst := List.perm_iff_count.mp (afterDst restDst) value
  have balance := moved value
  simp only [List.count_append, Option.getD_some] at *
  omega

/-- What a list operation gives out and takes in is accounted for. -/
theorem accounted_step {op : VectorOp Value}
    (accounted : (listOps Value).Accounted holdings)
    (stepped : (listOps Value).step holdings op = some after) :
    (listOps Value).Accounted after := by
  cases op with
  | new capacity =>
      cases stepped
      apply accounted.step [] [] []
      · simp [VectorOps.live, listOps]
      all_goals simp
  | push vector value =>
      simp only [VectorOps.step, listOps, Option.bind_eq_bind, Option.bind_some,
        Option.pure_def, Option.bind_eq_some_iff, Option.some.injEq] at stepped
      rcases stepped with ⟨current, found, rfl⟩
      apply accounted.step [value] [] []
      · exact live_exchange found (by simp)
      all_goals simp [Holdings.set]
  | swapRemove vector row =>
      simp only [VectorOps.step, listOps, Option.bind_eq_bind,
        Option.pure_def, Option.bind_eq_some_iff, Option.some.injEq] at stepped
      rcases stepped with ⟨current, found, ⟨value, rest⟩, ⟨_, own, taken⟩, rfl⟩
      cases taken
      apply accounted.step [] [value] []
      · refine live_exchange found ?_
        simpa using (List.perm_append_singleton ..).trans (perm_swapRemove own)
      all_goals simp [Holdings.set]
  | remove vector row =>
      simp only [VectorOps.step, listOps, Option.bind_eq_bind,
        Option.pure_def, Option.bind_eq_some_iff, Option.some.injEq] at stepped
      rcases stepped with ⟨current, found, ⟨value, rest⟩, ⟨_, own, taken⟩, rfl⟩
      cases taken
      apply accounted.step [] [] [value]
      · refine live_exchange found ?_
        simpa using (List.perm_append_singleton ..).trans (perm_swapRemove own)
      all_goals simp [Holdings.set]
  | overwrite vector row value =>
      simp only [VectorOps.step, listOps, Option.bind_eq_bind,
        Option.pure_def, Option.bind_eq_some_iff, Option.some.injEq] at stepped
      rcases stepped with ⟨current, found, ⟨old, rest⟩, ⟨_, own, taken⟩, rfl⟩
      cases taken
      apply accounted.step [value] [] [old]
      · refine live_exchange found ?_
        simpa using (List.perm_append_singleton ..).trans
          ((perm_set own value).trans (List.perm_append_singleton ..).symm)
      all_goals simp [Holdings.set]
  | moveRow src dst row =>
      simp only [VectorOps.step, listOps, Option.bind_eq_bind,
        Option.pure_def, Option.bind_eq_some_iff, Option.some.injEq, Option.guard_eq_some',
        exists_const] at stepped
      rcases stepped with
        ⟨different, currentSrc, foundSrc, currentDst, foundDst, ⟨restSrc, restDst⟩,
          ⟨value, own, taken⟩, rfl⟩
      cases taken
      apply accounted.step [] [] []
      · have exchanged := live_exchange_two [] [] different foundSrc foundDst
          (by simpa only [List.append_nil] using perm_move own)
        simpa only [List.append_nil] using exchanged
      all_goals simp [Holdings.set]
  | moveRowInto src srcRow dst dstRow =>
      simp only [VectorOps.step, listOps, Option.bind_eq_bind,
        Option.pure_def, Option.bind_eq_some_iff, Option.some.injEq, Option.guard_eq_some',
        exists_const] at stepped
      rcases stepped with
        ⟨different, currentSrc, foundSrc, currentDst, foundDst, ⟨old, restSrc, restDst⟩,
          ⟨value, own, _, ownDst, taken⟩, rfl⟩
      cases taken
      apply accounted.step [] [] [old]
      · have exchanged := live_exchange_two [] [old] different foundSrc foundDst
          (by simpa only [List.append_nil] using perm_moveOver own ownDst)
        simp only [List.append_nil] at exchanged ⊢
        exact exchanged
      all_goals simp [Holdings.set]
  | swapRows vector src dst =>
      simp only [VectorOps.step, listOps, Option.bind_eq_bind,
        Option.pure_def, Option.bind_eq_some_iff, Option.some.injEq] at stepped
      rcases stepped with ⟨current, found, swapped, ⟨atSrc, ownSrc, atDst, ownDst, rfl⟩, rfl⟩
      apply accounted.step [] [] []
      · refine live_exchange found ?_
        simpa using perm_swap ownSrc ownDst
      all_goals simp [Holdings.set]
  | clone vector transfer =>
      simp only [VectorOps.step, listOps, Option.bind_eq_bind, Option.bind_some,
        Option.pure_def, Option.bind_eq_some_iff] at stepped
      rcases stepped with ⟨current, found, stepped⟩
      split at stepped
      · rename_i copies cloned
        cases stepped
        apply accounted.step copies [] []
        · simp [VectorOps.live, listOps]
        all_goals simp
      · rename_i made cloned
        cases stepped
        apply accounted.step made [] made
        · simp [VectorOps.live]
        all_goals simp
  | finalize vector panics =>
      simp only [VectorOps.step, listOps, Option.bind_eq_bind, Option.bind_some,
        Option.pure_def, Option.bind_eq_some_iff, Option.some.injEq] at stepped
      rcases stepped with ⟨current, found, rfl⟩
      apply accounted.step [] [] current
      · exact live_exchange found (by simp)
      all_goals simp [Holdings.set]

end Lists

/-! ## Representations of lists -/

namespace Holdings

variable {Vector Value : Type} {holdings : Holdings Vector Value}

theorem vector_set {index other : Nat} {current : Vector} {next : Option Vector}
    (found : holdings.vector index = some current) :
    (holdings.set index next).vector other =
      if index = other then next else holdings.vector other := by
  rw [vector, Option.join_eq_some_iff] at found
  have inRange := (List.getElem?_eq_some_iff.mp found).1
  simp only [vector, set, List.getElem?_set]
  split
  · rfl
  · rfl

theorem vector_of_set {index : Nat} {current : Vector} {next : Option Vector}
    {after : Holdings Vector Value} (found : holdings.vector index = some current)
    (set : after.vectors = (holdings.set index next).vectors) : after.vector index = next := by
  have placed : (holdings.set index next).vector index = next := by
    rw [vector_set found, if_pos rfl]
  rw [vector, set]
  exact placed

theorem vector_append (holdings : Holdings Vector Value) {other : Nat} {next : Option Vector}
    {after : Holdings Vector Value} (appended : after.vectors = holdings.vectors ++ [next]) :
    after.vector other =
      if other = holdings.vectors.length then next else holdings.vector other := by
  rw [vector, vector, appended]
  split
  · subst other
    simp
  · by_cases before : other < holdings.vectors.length
    · rw [List.getElem?_append_left before]
    · rw [List.getElem?_eq_none (by simp; omega), List.getElem?_eq_none (by omega)]

/-- The same vectors in another representation, and the same fate of the values. -/
structure Represents (relation : Vector → List Value → Prop) (holdings : Holdings Vector Value)
    (lists : Holdings (List Value) Value) : Prop where
  length : holdings.vectors.length = lists.vectors.length
  vector : ∀ index, Option.Rel relation (holdings.vector index) (lists.vector index)
  created : holdings.created = lists.created
  returned : holdings.returned = lists.returned
  dropped : holdings.dropped = lists.dropped

namespace Represents

variable {relation : Vector → List Value → Prop} {lists : Holdings (List Value) Value}

theorem empty : Represents relation (Holdings.empty : Holdings Vector Value) .empty where
  length := rfl
  vector _ := .none
  created := rfl
  returned := rfl
  dropped := rfl

theorem found (represents : holdings.Represents relation lists) {index : Nat} {values : List Value}
    (found : lists.vector index = some values) :
    ∃ current, holdings.vector index = some current ∧ relation current values := by
  have related := represents.vector index
  rw [found] at related
  cases own : holdings.vector index with
  | none =>
      rw [own] at related
      cases related
  | some current =>
      rw [own] at related
      cases related with
      | some held => exact ⟨current, rfl, held⟩

theorem related (represents : holdings.Represents relation lists) {index : Nat} {current : Vector}
    {values : List Value} (own : holdings.vector index = some current)
    (found : lists.vector index = some values) : relation current values := by
  rcases represents.found found with ⟨same, own', held⟩
  rw [own] at own'
  cases own'
  exact held

theorem set (represents : holdings.Represents relation lists) {index : Nat} {current : Vector}
    {values : List Value} {next : Option Vector} {rest : Option (List Value)}
    (own : holdings.vector index = some current) (found : lists.vector index = some values)
    (held : Option.Rel relation next rest) :
    (holdings.set index next).Represents relation (lists.set index rest) where
  length := by simp [Holdings.set, represents.length]
  vector := by
    intro other
    rw [vector_set own, vector_set found]
    split
    · exact held
    · exact represents.vector other
  created := represents.created
  returned := represents.returned
  dropped := represents.dropped

theorem append (represents : holdings.Represents relation lists) {next : Vector}
    {values : List Value} (held : relation next values) (made : List Value) :
    Represents relation
      { holdings with vectors := holdings.vectors ++ [some next]
                      created := holdings.created ++ made }
      { lists with vectors := lists.vectors ++ [some values]
                   created := lists.created ++ made } where
  length := by simp [represents.length]
  vector := by
    intro other
    rw [vector_append holdings rfl, vector_append lists rfl, represents.length]
    split
    · exact .some held
    · exact represents.vector other
  created := by simp only [represents.created]
  returned := represents.returned
  dropped := represents.dropped

/-- The live values are those of the lists. -/
theorem live {ops : VectorOps Vector Value} (represents : holdings.Represents relation lists)
    (values : ∀ {current listed}, relation current listed → ops.values current = some listed) :
    ops.live holdings = (listOps Value).live lists := by
  rw [VectorOps.live, VectorOps.live, List.flatMap_def, List.flatMap_def]
  congr 1
  apply List.ext_getElem (by simp [represents.length])
  intro index inHoldings inLists
  rw [List.length_map] at inHoldings inLists
  have related := represents.vector index
  simp only [Holdings.vector, List.getElem?_eq_getElem inHoldings,
    List.getElem?_eq_getElem inLists, Option.join_some] at related
  rw [List.getElem_map, List.getElem_map]
  generalize holdings.vectors[index] = left at related
  generalize lists.vectors[index] = right at related
  cases related with
  | none => rfl
  | some held =>
      simp only [Option.bind_some, values held]
      rfl

end Represents

end Holdings

/-- What the operations need besides rows in range. -/
structure VectorNeeds (Vector Value : Type) where
  /-- A vector of this capacity can be made. -/
  fits : Nat → Prop
  /-- A value can be appended. -/
  room : Vector → Prop
  clones : Vector → (Value → Option Value) → Prop
  drops : Vector → (Value → Bool) → Prop

/-- What an operation needs of the state before it. -/
def VectorNeeds.Admits {Vector Value : Type} (needs : VectorNeeds Vector Value)
    (holdings : Holdings Vector Value) : VectorOp Value → Prop
  | .new capacity => needs.fits capacity
  | .push vector _ => ∀ current, holdings.vector vector = some current → needs.room current
  | .moveRow _ dst _ => ∀ current, holdings.vector dst = some current → needs.room current
  | .clone vector transfer =>
      ∀ current, holdings.vector vector = some current → needs.clones current transfer
  | .finalize vector panics =>
      ∀ current, holdings.vector vector = some current → needs.drops current panics
  | _ => True

namespace VectorOps

variable {Vector Value : Type}

/-- Both are copies, or the same values were made before a clone panicked. -/
inductive Cloned (relation : Vector → List Value → Prop) :
    Except (List Value) Vector → Except (List Value) (List Value) → Prop where
  | copy {made : Vector} {copies : List Value} (held : relation made copies) :
      Cloned relation (.ok made) (.ok copies)
  | panicked (made : List Value) : Cloned relation (.error made) (.error made)

/-- Each operation does to the represented lists what the list operation does, some of them
exactly where what they need is given. -/
structure Refines (ops : VectorOps Vector Value) (relation : Vector → List Value → Prop)
    (needs : VectorNeeds Vector Value) : Prop where
  new : ∀ capacity, (∃ made, ops.new capacity = some made ∧ relation made []) ↔
    needs.fits capacity
  push : ∀ {current values}, relation current values → ∀ value,
    (∃ pushed, ops.push current value = some pushed ∧ relation pushed (values ++ [value])) ↔
      needs.room current
  swapRemove : ∀ {current values row value}, relation current values →
    values[row]? = some value → ∃ rest, ops.swapRemove current row = some (value, rest) ∧
      relation rest (Foundation.swapRemove values row)
  remove : ∀ {current values row value}, relation current values →
    values[row]? = some value → ∃ rest, ops.remove current row = some (value, rest) ∧
      relation rest (Foundation.swapRemove values row)
  overwrite : ∀ {current values row old}, relation current values → values[row]? = some old →
    ∀ value, ∃ rest, ops.overwrite current row value = some (old, rest) ∧
      relation rest (values.set row value)
  moveRow : ∀ {src dst srcValues dstValues row value}, relation src srcValues →
    relation dst dstValues → srcValues[row]? = some value →
    ((∃ restSrc restDst, ops.moveRow src dst row = some (restSrc, restDst) ∧
      relation restSrc (Foundation.swapRemove srcValues row) ∧
      relation restDst (dstValues ++ [value])) ↔ needs.room dst)
  moveRowInto : ∀ {src dst srcValues dstValues srcRow dstRow value old},
    relation src srcValues → relation dst dstValues → srcValues[srcRow]? = some value →
    dstValues[dstRow]? = some old →
    ∃ restSrc restDst, ops.moveRowInto src srcRow dst dstRow = some (old, restSrc, restDst) ∧
      relation restSrc (Foundation.swapRemove srcValues srcRow) ∧
      relation restDst (dstValues.set dstRow value)
  swapRows : ∀ {current values src dst atSrc atDst}, relation current values →
    values[src]? = some atSrc → values[dst]? = some atDst →
    ∃ swapped, ops.swapRows current src dst = some swapped ∧
      relation swapped ((values.set src atDst).set dst atSrc)
  clone : ∀ {current values}, relation current values → ∀ transfer,
    (∃ result, ops.clone current transfer = some result ∧
      Cloned relation result (cloneList transfer values)) ↔ needs.clones current transfer
  values : ∀ {current values}, relation current values → ops.values current = some values
  finalize : ∀ {current values}, relation current values → ∀ panics,
    ops.finalize current panics = some values ↔ needs.drops current panics

section Steps

variable {ops : VectorOps Vector Value} {relation : Vector → List Value → Prop}
  {needs : VectorNeeds Vector Value} {holdings : Holdings Vector Value}
  {lists after : Holdings (List Value) Value}

/-! ### One operation

A step that the lists take is taken alike exactly if it is admitted. -/

theorem Refines.new_iff (refines : ops.Refines relation needs)
    (represents : holdings.Represents relation lists) {capacity : Nat}
    (stepped : (listOps Value).step lists (.new capacity) = some after) :
    (∃ next, ops.step holdings (.new capacity) = some next ∧ next.Represents relation after) ↔
      needs.Admits holdings (.new capacity) := by
  cases stepped
  rw [VectorNeeds.Admits, ← refines.new]
  constructor
  · intro done
    rcases done with ⟨next, done, same⟩
    simp only [step, Option.bind_eq_bind, Option.pure_def, Option.bind_eq_some_iff,
      Option.some.injEq] at done
    rcases done with ⟨made, new, rfl⟩
    have last := same.vector holdings.vectors.length
    rw [Holdings.vector_append holdings rfl, if_pos rfl,
      Holdings.vector_append lists rfl, if_pos represents.length] at last
    cases last with
    | some held => exact ⟨made, new, held⟩
  · intro made
    rcases made with ⟨made, new, held⟩
    have next := represents.append held []
    simp only [List.append_nil] at next
    exact ⟨_, by simp [step, new], next⟩

theorem Refines.push_iff (refines : ops.Refines relation needs)
    (represents : holdings.Represents relation lists) {vector : Nat} {value : Value}
    (stepped : (listOps Value).step lists (.push vector value) = some after) :
    (∃ next, ops.step holdings (.push vector value) = some next ∧
      next.Represents relation after) ↔ needs.Admits holdings (.push vector value) := by
  simp only [step, listOps, Option.bind_eq_bind, Option.bind_some, Option.pure_def,
    Option.bind_eq_some_iff, Option.some.injEq] at stepped
  rcases stepped with ⟨values, found, rfl⟩
  rcases represents.found found with ⟨current, own, held⟩
  have admits : needs.Admits holdings (.push vector value) ↔ needs.room current := by
    simp only [VectorNeeds.Admits, own, Option.some.injEq, forall_eq']
  rw [admits, ← refines.push held value]
  constructor
  · intro done
    rcases done with ⟨next, done, same⟩
    simp only [step, own, Option.bind_eq_bind, Option.bind_some, Option.pure_def,
      Option.bind_eq_some_iff, Option.some.injEq] at done
    rcases done with ⟨pushed, push, rfl⟩
    have kept := same.related (Holdings.vector_of_set own rfl)
      (Holdings.vector_of_set found rfl)
    exact ⟨pushed, push, kept⟩
  · intro made
    rcases made with ⟨pushed, push, kept⟩
    have next := represents.set own found (.some kept)
    refine ⟨_, by simp [step, own, push]; rfl, ?_⟩
    exact { next with created := by simp only [represents.created] }

theorem Refines.swapRemove_step (refines : ops.Refines relation needs)
    (represents : holdings.Represents relation lists) {vector row : Nat}
    (stepped : (listOps Value).step lists (.swapRemove vector row) = some after) :
    ∃ next, ops.step holdings (.swapRemove vector row) = some next ∧
      next.Represents relation after := by
  simp only [step, listOps, Option.bind_eq_bind, Option.pure_def, Option.bind_eq_some_iff,
    Option.some.injEq] at stepped
  rcases stepped with ⟨values, found, ⟨value, rest⟩, ⟨_, listed, taken⟩, rfl⟩
  cases taken
  rcases represents.found found with ⟨current, own, held⟩
  rcases refines.swapRemove held listed with ⟨rest, removed, kept⟩
  have next := represents.set own found (.some kept)
  refine ⟨_, by simp [step, own, removed]; rfl, ?_⟩
  exact { next with returned := by simp only [represents.returned] }

theorem Refines.remove_step (refines : ops.Refines relation needs)
    (represents : holdings.Represents relation lists) {vector row : Nat}
    (stepped : (listOps Value).step lists (.remove vector row) = some after) :
    ∃ next, ops.step holdings (.remove vector row) = some next ∧
      next.Represents relation after := by
  simp only [step, listOps, Option.bind_eq_bind, Option.pure_def, Option.bind_eq_some_iff,
    Option.some.injEq] at stepped
  rcases stepped with ⟨values, found, ⟨value, rest⟩, ⟨_, listed, taken⟩, rfl⟩
  cases taken
  rcases represents.found found with ⟨current, own, held⟩
  rcases refines.remove held listed with ⟨rest, removed, kept⟩
  have next := represents.set own found (.some kept)
  refine ⟨_, by simp [step, own, removed]; rfl, ?_⟩
  exact { next with dropped := by simp only [represents.dropped] }

theorem Refines.overwrite_step (refines : ops.Refines relation needs)
    (represents : holdings.Represents relation lists) {vector row : Nat} {value : Value}
    (stepped : (listOps Value).step lists (.overwrite vector row value) = some after) :
    ∃ next, ops.step holdings (.overwrite vector row value) = some next ∧
      next.Represents relation after := by
  simp only [step, listOps, Option.bind_eq_bind, Option.pure_def, Option.bind_eq_some_iff,
    Option.some.injEq] at stepped
  rcases stepped with ⟨values, found, ⟨old, rest⟩, ⟨_, listed, taken⟩, rfl⟩
  cases taken
  rcases represents.found found with ⟨current, own, held⟩
  rcases refines.overwrite held listed value with ⟨rest, written, kept⟩
  have next := represents.set own found (.some kept)
  refine ⟨_, by simp [step, own, written]; rfl, ?_⟩
  exact { next with
    created := by simp only [represents.created]
    dropped := by simp only [represents.dropped] }

theorem Refines.moveRow_iff (refines : ops.Refines relation needs)
    (represents : holdings.Represents relation lists) {src dst row : Nat}
    (stepped : (listOps Value).step lists (.moveRow src dst row) = some after) :
    (∃ next, ops.step holdings (.moveRow src dst row) = some next ∧
      next.Represents relation after) ↔ needs.Admits holdings (.moveRow src dst row) := by
  simp only [step, listOps, Option.bind_eq_bind, Option.pure_def, Option.bind_eq_some_iff,
    Option.some.injEq, Option.guard_eq_some', exists_const] at stepped
  rcases stepped with
    ⟨different, srcValues, foundSrc, dstValues, foundDst, ⟨restSrc, restDst⟩,
      ⟨value, listed, taken⟩, rfl⟩
  cases taken
  rcases represents.found foundSrc with ⟨currentSrc, ownSrc, heldSrc⟩
  rcases represents.found foundDst with ⟨currentDst, ownDst, heldDst⟩
  have admits : needs.Admits holdings (.moveRow src dst row) ↔ needs.room currentDst := by
    simp only [VectorNeeds.Admits, ownDst, Option.some.injEq, forall_eq']
  rw [admits, ← refines.moveRow heldSrc heldDst listed]
  -- The second vector is the same after the first one has changed.
  have keptDst (next : Option Vector) :
      (holdings.set src next).vector dst = some currentDst :=
    (Holdings.vector_set_ne different).trans ownDst
  have keptLists (next : Option (List Value)) :
      (lists.set src next).vector dst = some dstValues :=
    (Holdings.vector_set_ne different).trans foundDst
  constructor
  · intro done
    rcases done with ⟨next, done, same⟩
    simp only [step, ownSrc, ownDst, Option.bind_eq_bind, Option.bind_some, Option.pure_def,
      Option.bind_eq_some_iff, Option.some.injEq, Option.guard_eq_some', exists_const] at done
    rcases done with ⟨_, ⟨restSrc, restDst⟩, moved, rfl⟩
    have atSrc := same.vector src
    rw [Holdings.vector_set_ne different.symm, Holdings.vector_of_set ownSrc rfl,
      Holdings.vector_set_ne different.symm, Holdings.vector_of_set foundSrc rfl] at atSrc
    have atDst := same.related (Holdings.vector_of_set (keptDst _) rfl)
      (Holdings.vector_of_set (keptLists _) rfl)
    cases atSrc with
    | some kept => exact ⟨restSrc, restDst, moved, kept, atDst⟩
  · intro moved
    rcases moved with ⟨restSrc, restDst, moved, kept, placed⟩
    have next := represents.set ownSrc foundSrc (.some kept)
    exact ⟨_, by simp [step, different, ownSrc, ownDst, moved],
      next.set (keptDst _) (keptLists _) (.some placed)⟩

theorem Refines.moveRowInto_step (refines : ops.Refines relation needs)
    (represents : holdings.Represents relation lists) {src srcRow dst dstRow : Nat}
    (stepped : (listOps Value).step lists (.moveRowInto src srcRow dst dstRow) = some after) :
    ∃ next, ops.step holdings (.moveRowInto src srcRow dst dstRow) = some next ∧
      next.Represents relation after := by
  simp only [step, listOps, Option.bind_eq_bind, Option.pure_def, Option.bind_eq_some_iff,
    Option.some.injEq, Option.guard_eq_some', exists_const] at stepped
  rcases stepped with
    ⟨different, srcValues, foundSrc, dstValues, foundDst, ⟨old, restSrc, restDst⟩,
      ⟨value, listedSrc, _, listedDst, taken⟩, rfl⟩
  cases taken
  rcases represents.found foundSrc with ⟨currentSrc, ownSrc, heldSrc⟩
  rcases represents.found foundDst with ⟨currentDst, ownDst, heldDst⟩
  rcases refines.moveRowInto heldSrc heldDst listedSrc listedDst with
    ⟨restSrc, restDst, moved, keptSrc, keptDst⟩
  have next := represents.set ownSrc foundSrc (.some keptSrc)
  have laterDst : (holdings.set src (some restSrc)).vector dst = some currentDst :=
    (Holdings.vector_set_ne different).trans ownDst
  have laterLists : (lists.set src (some (Foundation.swapRemove srcValues srcRow))).vector dst =
      some dstValues := (Holdings.vector_set_ne different).trans foundDst
  have both := next.set laterDst laterLists (.some keptDst)
  refine ⟨_, by simp [step, different, ownSrc, ownDst, moved]; rfl, ?_⟩
  exact { both with dropped := by simp only [represents.dropped] }

theorem Refines.swapRows_step (refines : ops.Refines relation needs)
    (represents : holdings.Represents relation lists) {vector src dst : Nat}
    (stepped : (listOps Value).step lists (.swapRows vector src dst) = some after) :
    ∃ next, ops.step holdings (.swapRows vector src dst) = some next ∧
      next.Represents relation after := by
  simp only [step, listOps, Option.bind_eq_bind, Option.pure_def, Option.bind_eq_some_iff,
    Option.some.injEq] at stepped
  rcases stepped with ⟨values, found, _, ⟨atSrc, listedSrc, atDst, listedDst, rfl⟩, rfl⟩
  rcases represents.found found with ⟨current, own, held⟩
  rcases refines.swapRows held listedSrc listedDst with ⟨swapped, done, kept⟩
  exact ⟨_, by simp [step, own, done], represents.set own found (.some kept)⟩

theorem Refines.clone_iff (refines : ops.Refines relation needs)
    (represents : holdings.Represents relation lists) {vector : Nat}
    {transfer : Value → Option Value}
    (stepped : (listOps Value).step lists (.clone vector transfer) = some after) :
    (∃ next, ops.step holdings (.clone vector transfer) = some next ∧
      next.Represents relation after) ↔ needs.Admits holdings (.clone vector transfer) := by
  simp only [step, listOps, Option.bind_eq_bind, Option.bind_some, Option.pure_def,
    Option.bind_eq_some_iff] at stepped
  rcases stepped with ⟨values, found, stepped⟩
  rcases represents.found found with ⟨current, own, held⟩
  have admits : needs.Admits holdings (.clone vector transfer) ↔
      needs.clones current transfer := by
    simp only [VectorNeeds.Admits, own, Option.some.injEq, forall_eq']
  rw [admits, ← refines.clone held transfer]
  constructor
  · intro done
    rcases done with ⟨next, done, same⟩
    simp only [step, own, Option.bind_eq_bind, Option.bind_some, Option.pure_def,
      Option.bind_eq_some_iff] at done
    rcases done with ⟨result, cloned, done⟩
    refine ⟨result, cloned, ?_⟩
    have lengths := same.length
    have before := represents.length
    cases result with
    | ok copy =>
        simp only [Option.bind_eq_some_iff, Option.some.injEq] at done
        rcases done with ⟨listed, _, rfl⟩
        split at stepped
        · rename_i copies cloned
          cases stepped
          have last := same.vector holdings.vectors.length
          rw [Holdings.vector_append holdings rfl, if_pos rfl,
            Holdings.vector_append lists rfl, if_pos represents.length] at last
          rw [cloned]
          cases last with
          | some held => exact .copy held
        · cases stepped
          simp only [List.length_append, List.length_singleton] at lengths
          omega
    | error made =>
        cases done
        split at stepped
        · cases stepped
          simp only [List.length_append, List.length_singleton] at lengths
          omega
        · rename_i others cloned
          cases stepped
          have equal := same.created
          simp only [represents.created] at equal
          rw [cloned, List.append_cancel_left equal]
          exact .panicked others
  · intro done
    rcases done with ⟨result, cloned, same⟩
    split at stepped
    · rename_i copies listed
      cases stepped
      rw [listed] at same
      cases same with
      | copy held =>
          exact ⟨_, by simp [step, own, cloned, refines.values held], represents.append held copies⟩
    · rename_i made listed
      cases stepped
      rw [listed] at same
      cases same with
      | panicked =>
          refine ⟨_, by simp [step, own, cloned]; rfl, ?_⟩
          exact { represents with
            created := by simp only [represents.created]
            dropped := by simp only [represents.dropped] }

theorem Refines.finalize_iff (refines : ops.Refines relation needs)
    (represents : holdings.Represents relation lists) {vector : Nat} {panics : Value → Bool}
    (stepped : (listOps Value).step lists (.finalize vector panics) = some after) :
    (∃ next, ops.step holdings (.finalize vector panics) = some next ∧
      next.Represents relation after) ↔ needs.Admits holdings (.finalize vector panics) := by
  simp only [step, listOps, Option.bind_eq_bind, Option.bind_some, Option.pure_def,
    Option.bind_eq_some_iff, Option.some.injEq] at stepped
  rcases stepped with ⟨values, found, rfl⟩
  rcases represents.found found with ⟨current, own, held⟩
  have admits : needs.Admits holdings (.finalize vector panics) ↔ needs.drops current panics := by
    simp only [VectorNeeds.Admits, own, Option.some.injEq, forall_eq']
  rw [admits, ← refines.finalize held panics]
  constructor
  · intro done
    rcases done with ⟨next, done, same⟩
    simp only [step, own, Option.bind_eq_bind, Option.bind_some, Option.pure_def,
      Option.bind_eq_some_iff, Option.some.injEq] at done
    rcases done with ⟨gone, dropped, rfl⟩
    have equal := same.dropped
    simp only [represents.dropped] at equal
    rw [dropped, List.append_cancel_left equal]
  · intro dropped
    have next := represents.set own found .none
    refine ⟨_, by simp [step, own, dropped]; rfl, ?_⟩
    exact { next with dropped := by simp only [represents.dropped] }

theorem Refines.step_iff (refines : ops.Refines relation needs)
    (represents : holdings.Represents relation lists) {op : VectorOp Value}
    (stepped : (listOps Value).step lists op = some after) :
    (∃ next, ops.step holdings op = some next ∧ next.Represents relation after) ↔
      needs.Admits holdings op := by
  cases op with
  | new capacity => exact refines.new_iff represents stepped
  | push vector value => exact refines.push_iff represents stepped
  | swapRemove vector row => exact iff_of_true (refines.swapRemove_step represents stepped) trivial
  | remove vector row => exact iff_of_true (refines.remove_step represents stepped) trivial
  | overwrite vector row value =>
      exact iff_of_true (refines.overwrite_step represents stepped) trivial
  | moveRow src dst row => exact refines.moveRow_iff represents stepped
  | moveRowInto src srcRow dst dstRow =>
      exact iff_of_true (refines.moveRowInto_step represents stepped) trivial
  | swapRows vector src dst =>
      exact iff_of_true (refines.swapRows_step represents stepped) trivial
  | clone vector transfer => exact refines.clone_iff represents stepped
  | finalize vector panics => exact refines.finalize_iff represents stepped

/-- A run that the lists take is taken alike, after each of its operations, exactly if every
operation is admitted. -/
theorem Refines.run_iff (refines : ops.Refines relation needs)
    {operations : List (VectorOp Value)}
    (inRange : ((listOps Value).run .empty operations).isSome) :
    (∀ done, done <+: operations → ∃ reached lists, ops.run .empty done = some reached ∧
      (listOps Value).run .empty done = some lists ∧ reached.Represents relation lists) ↔
      ∀ done op, done ++ [op] <+: operations → ∀ reached, ops.run .empty done = some reached →
        needs.Admits reached op := by
  constructor
  · intro behaves done op within reached ran
    rcases behaves (done ++ [op]) within with ⟨next, after, ranNext, listedNext, same⟩
    rcases behaves done ((List.prefix_append ..).trans within) with
      ⟨reached', lists, ran', listed, represents⟩
    rw [ran] at ran'
    cases ran'
    rw [run_snoc, ran, Option.bind_some] at ranNext
    rw [run_snoc, listed, Option.bind_some] at listedNext
    exact (refines.step_iff represents listedNext).mp ⟨next, ranNext, same⟩
  · intro admitted done
    induction done using List.reverseRecOn with
    | nil => exact fun _ => ⟨.empty, .empty, rfl, rfl, .empty⟩
    | append_singleton done op induction =>
        intro within
        rcases induction ((List.prefix_append ..).trans within) with
          ⟨reached, lists, ran, listed, represents⟩
        rcases within with ⟨rest, rfl⟩
        rw [run_append, run_snoc, listed, Option.bind_some] at inRange
        cases stepped : (listOps Value).step lists op with
        | none =>
            rw [stepped] at inRange
            cases inRange
        | some after =>
            rcases (refines.step_iff represents stepped).mpr
              (admitted done op (List.prefix_append ..) reached ran) with ⟨next, took, same⟩
            refine ⟨next, after, ?_, ?_, same⟩
            · rw [run_snoc, ran, Option.bind_some, took]
            · rw [run_snoc, listed, Option.bind_some, stepped]

end Steps

/-- In every run of the lists each value is accounted for. -/
theorem accounted_run {Value : Type} {operations : List (VectorOp Value)}
    {lists : Holdings (List Value) Value}
    (ran : (listOps Value).run .empty operations = some lists) :
    (listOps Value).Accounted lists := by
  induction operations using List.reverseRecOn generalizing lists with
  | nil =>
      cases ran
      exact List.Perm.refl _
  | append_singleton operations op induction =>
      rw [run_snoc, Option.bind_eq_some_iff] at ran
      rcases ran with ⟨before, ran, stepped⟩
      exact accounted_step (induction ran) stepped

end VectorOps

end Cecs.Foundation

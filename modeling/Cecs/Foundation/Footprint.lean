import Mathlib.Data.List.Nodup
import Mathlib.Data.Set.Insert

/-! # Footprints of actions

A state has parts, and an action reads some of them and writes others. Actions whose
footprints are apart commute, and a sequence may be reordered as long as the actions
that do not commute keep their order. -/

namespace Cecs

namespace Foundation

/-- A step that answers and leaves a state, or fails. -/
abbrev Action (σ α : Type) := σ → Option (α × σ)

namespace Action

variable {σ α β κ : Type}

def andThen (first : Action σ α) (next : α → Action σ β) : Action σ β := fun state =>
  (first state).bind fun result => next result.1 result.2

/-- The state stays as it is. -/
def reading (answer : σ → Option α) : Action σ α := fun state =>
  (answer state).map fun value => (value, state)

def sequence (step : κ → Action σ Unit) : List κ → Action σ Unit
  | [] => fun state => some ((), state)
  | first :: rest => (step first).andThen fun _ => sequence step rest

theorem andThen_eq_some {first : Action σ α} {next : α → Action σ β} {state after : σ}
    {answer : β} :
    first.andThen next state = some (answer, after) ↔
      ∃ value middle, first state = some (value, middle) ∧
        next value middle = some (answer, after) := by
  simp [andThen, Option.bind_eq_some_iff]

theorem reading_eq_some {answer : σ → Option α} {state after : σ} {value : α} :
    reading answer state = some (value, after) ↔ answer state = some value ∧ state = after := by
  simp [reading]

end Action

/-- When states agree on a part. Those that agree on every part are equal. -/
structure Parts (σ ι : Type) where
  Agree : ι → σ → σ → Prop
  equivalence : ∀ part, Equivalence (Agree part)
  ext : ∀ {state other : σ}, (∀ part, Agree part state other) → state = other

/-- The parts that an action may read and write. -/
structure Footprint (ι : Type) where
  reads : Set ι
  writes : Set ι
  covered : writes ⊆ reads

/-- One part is read and written. -/
def Footprint.single {ι : Type} (part : ι) : Footprint ι where
  reads := {part}
  writes := {part}
  covered := subset_rfl

/-- Neither writes what the other reads. -/
structure Footprint.Apart {ι : Type} (left right : Footprint ι) : Prop where
  leftWrites : ∀ part ∈ left.writes, part ∉ right.reads
  rightWrites : ∀ part ∈ right.writes, part ∉ left.reads

/-- Valid states stay valid. -/
def Preserves {σ α : Type} (valid : σ → Prop) (action : Action σ α) : Prop :=
  ∀ {state after : σ} {answer : α}, valid state → action state = some (answer, after) →
    valid after

/-- From a valid state, the action changes what it writes, in a way that what it reads decides. -/
structure Confined {σ ι α : Type} (parts : Parts σ ι) (valid : σ → Prop)
    (footprint : Footprint ι) (action : Action σ α) : Prop where
  keeps : Preserves valid action
  frame : ∀ {state after : σ} {answer : α}, valid state → action state = some (answer, after) →
    ∀ part ∉ footprint.writes, parts.Agree part state after
  depends : ∀ {state other after : σ} {answer : α}, valid state → valid other →
    (∀ part ∈ footprint.reads, parts.Agree part state other) →
    action state = some (answer, after) → ∃ afterOther, action other = some (answer, afterOther) ∧
      ∀ part ∈ footprint.writes, parts.Agree part after afterOther

section Confined

variable {σ ι α β : Type} {parts : Parts σ ι} {valid : σ → Prop} {footprint : Footprint ι}

theorem confined_none : Confined parts valid footprint fun _ : σ => (none : Option (α × σ)) where
  keeps _ failed := by cases failed
  frame _ failed := by cases failed
  depends _ _ _ failed := by cases failed

/-- What guards the action does not depend on the state. -/
theorem confined_guarded {condition : Prop} [Decidable condition] {action : Action σ α}
    (confined : condition → Confined parts valid footprint action) :
    Confined parts valid footprint fun state => guard condition >>= fun _ => action state := by
  by_cases holds : condition
  · simp only [guard, if_pos holds]
    exact confined holds
  · simp only [guard, if_neg holds]
    exact confined_none

/-- A change that is made in every state. -/
theorem confined_change {change : σ → σ} {value : α} (keeps : ∀ state, valid state →
      valid (change state))
    (frame : ∀ state, ∀ part ∉ footprint.writes, parts.Agree part state (change state))
    (decided : ∀ state other, (∀ part ∈ footprint.reads, parts.Agree part state other) →
      ∀ part ∈ footprint.writes, parts.Agree part (change state) (change other)) :
    Confined parts valid footprint fun state => some (value, change state) where
  keeps := by
    intro state after answer isValid done
    cases done
    exact keeps state isValid
  frame := by
    intro state after answer _ done
    cases done
    exact frame state
  depends := by
    intro state other after answer _ _ agree done
    cases done
    exact ⟨change other, rfl, decided state other agree⟩

theorem confined_reading {answer : σ → Option α}
    (decided : ∀ state other, valid state → valid other →
      (∀ part ∈ footprint.reads, parts.Agree part state other) → answer state = answer other) :
    Confined parts valid footprint (Action.reading answer) where
  keeps := by
    intro state after value isValid done
    exact (Action.reading_eq_some.mp done).2 ▸ isValid
  frame := by
    intro state after value _ done part _
    rw [← (Action.reading_eq_some.mp done).2]
    exact (parts.equivalence part).refl state
  depends := by
    intro state other after value isValid isValidOther agree done
    rcases Action.reading_eq_some.mp done with ⟨answered, rfl⟩
    refine ⟨other, ?_, fun part written => agree part (footprint.covered written)⟩
    rw [Action.reading_eq_some, ← decided state other isValid isValidOther agree]
    exact ⟨answered, rfl⟩

/-- What agreed on the parts that are read still agrees there. -/
theorem Confined.agree {action : Action σ α} (confined : Confined parts valid footprint action)
    {state other after afterOther : σ} {answer : α} (isValid : valid state)
    (isValidOther : valid other) (done : action state = some (answer, after))
    (doneOther : action other = some (answer, afterOther)) {part : ι}
    (agree : parts.Agree part state other)
    (written : part ∈ footprint.writes → parts.Agree part after afterOther) :
    parts.Agree part after afterOther := by
  by_cases writes : part ∈ footprint.writes
  · exact written writes
  · have unchanged := confined.frame isValid done part writes
    have unchangedOther := confined.frame isValidOther doneOther part writes
    have relation := parts.equivalence part
    exact relation.trans (relation.symm unchanged) (relation.trans agree unchangedOther)

theorem Confined.mono {large : Footprint ι} {action : Action σ α}
    (confined : Confined parts valid footprint action) (reads : footprint.reads ⊆ large.reads)
    (writes : footprint.writes ⊆ large.writes) : Confined parts valid large action where
  keeps := confined.keeps
  frame isValid done part unwritten :=
    confined.frame isValid done part fun written => unwritten (writes written)
  depends := by
    intro state other after answer isValid isValidOther agree done
    rcases confined.depends isValid isValidOther (fun part member => agree part (reads member))
      done with ⟨afterOther, doneOther, written⟩
    refine ⟨afterOther, doneOther, fun part member => ?_⟩
    exact confined.agree isValid isValidOther done doneOther (agree part (large.covered member))
      (written part)

theorem Confined.of_single {action : Action σ α} {part : ι}
    (confined : Confined parts valid (Footprint.single part) action)
    (member : part ∈ footprint.writes) : Confined parts valid footprint action :=
  confined.mono (Set.singleton_subset_iff.mpr (footprint.covered member))
    (Set.singleton_subset_iff.mpr member)

theorem Confined.andThen {first : Action σ α} {next : α → Action σ β}
    (confined : Confined parts valid footprint first)
    (later : ∀ state after answer, valid state → first state = some (answer, after) →
      Confined parts valid footprint (next answer)) :
    Confined parts valid footprint (first.andThen next) where
  keeps := by
    intro state after answer isValid done
    rcases Action.andThen_eq_some.mp done with ⟨value, middle, begun, ended⟩
    exact (later state middle value isValid begun).keeps (confined.keeps isValid begun) ended
  frame := by
    intro state after answer isValid done part unwritten
    rcases Action.andThen_eq_some.mp done with ⟨value, middle, begun, ended⟩
    exact (parts.equivalence part).trans (confined.frame isValid begun part unwritten)
      ((later state middle value isValid begun).frame (confined.keeps isValid begun) ended part
        unwritten)
  depends := by
    intro state other after answer isValid isValidOther agree done
    rcases Action.andThen_eq_some.mp done with ⟨value, middle, begun, ended⟩
    rcases confined.depends isValid isValidOther agree begun with
      ⟨middleOther, begunOther, written⟩
    have agreeMiddle : ∀ part ∈ footprint.reads, parts.Agree part middle middleOther :=
      fun part reads => confined.agree isValid isValidOther begun begunOther (agree part reads)
        (written part)
    rcases (later state middle value isValid begun).depends (confined.keeps isValid begun)
      (confined.keeps isValidOther begunOther) agreeMiddle ended with
      ⟨afterOther, endedOther, writtenAfter⟩
    exact ⟨afterOther, Action.andThen_eq_some.mpr ⟨value, middleOther, begunOther, endedOther⟩,
      writtenAfter⟩

end Confined

/-- The actions can be run in either order. -/
def Commutes {σ : Type} (valid : σ → Prop) (first second : Action σ Unit) : Prop :=
  ∀ state, valid state →
    (first.andThen fun _ => second) state = (second.andThen fun _ => first) state

section Commuting

variable {σ ι : Type} {parts : Parts σ ι} {valid : σ → Prop} {left right : Footprint ι}
  {first second : Action σ Unit}

theorem Footprint.Apart.symm (apart : left.Apart right) : right.Apart left :=
  ⟨apart.rightWrites, apart.leftWrites⟩

/-- The first action is moved behind the second one, and both answer as before. -/
theorem Confined.exchange {α β : Type} {first : Action σ α} {second : Action σ β}
    (apart : left.Apart right) (confined : Confined parts valid left first)
    (confinedSecond : Confined parts valid right second) {state middle after : σ} {answer : α}
    {answerSecond : β} (isValid : valid state) (begun : first state = some (answer, middle))
    (ended : second middle = some (answerSecond, after)) :
    ∃ middleOther, second state = some (answerSecond, middleOther) ∧
      first middleOther = some (answer, after) := by
  have isValidMiddle := confined.keeps isValid begun
  have back : ∀ part ∈ right.reads, parts.Agree part middle state := fun part reads =>
    (parts.equivalence part).symm (confined.frame isValid begun part
      fun writes => apart.leftWrites part writes reads)
  rcases confinedSecond.depends isValidMiddle isValid back ended with
    ⟨middleOther, begunOther, written⟩
  have forth : ∀ part ∈ left.reads, parts.Agree part state middleOther := fun part reads =>
    confinedSecond.frame isValid begunOther part fun writes => apart.rightWrites part writes reads
  rcases confined.depends isValid (confinedSecond.keeps isValid begunOther) forth begun with
    ⟨afterOther, endedOther, writtenOther⟩
  -- Each part has been written by one of the two at most.
  have same : afterOther = after := by
    apply parts.ext
    intro part
    have relation := parts.equivalence part
    by_cases writes : part ∈ left.writes
    · have unwritten : part ∉ right.writes := fun also =>
        apart.leftWrites part writes (right.covered also)
      exact relation.trans (relation.symm (writtenOther part writes))
        (confinedSecond.frame isValidMiddle ended part unwritten)
    · have unchanged := confined.frame (confinedSecond.keeps isValid begunOther) endedOther part
        writes
      refine relation.trans (relation.symm unchanged) (relation.symm ?_)
      apply confinedSecond.agree isValidMiddle isValid ended begunOther
      · exact relation.symm (confined.frame isValid begun part writes)
      · exact written part
  exact ⟨middleOther, begunOther, same ▸ endedOther⟩

theorem Confined.swap (apart : left.Apart right) (confined : Confined parts valid left first)
    (confinedSecond : Confined parts valid right second) {state after : σ}
    (isValid : valid state) (done : (first.andThen fun _ => second) state = some ((), after)) :
    (second.andThen fun _ => first) state = some ((), after) := by
  rcases Action.andThen_eq_some.mp done with ⟨_, middle, begun, ended⟩
  rcases confined.exchange apart confinedSecond isValid begun ended with
    ⟨middleOther, begunOther, endedOther⟩
  exact Action.andThen_eq_some.mpr ⟨(), middleOther, begunOther, endedOther⟩

theorem Confined.commutes (apart : left.Apart right) (confined : Confined parts valid left first)
    (confinedSecond : Confined parts valid right second) : Commutes valid first second := by
  intro state isValid
  ext result
  rcases result with ⟨_, after⟩
  exact ⟨confined.swap apart confinedSecond isValid,
    confinedSecond.swap apart.symm confined isValid⟩

end Commuting

section Reordering

variable {σ κ : Type} {valid : σ → Prop} {step : κ → Action σ Unit} {label : κ}

theorem sequence_append (front back : List κ) :
    Action.sequence step (front ++ back) =
      (Action.sequence step front).andThen fun _ => Action.sequence step back := by
  induction front with
  | nil => rfl
  | cons head front induction =>
      funext state
      simp only [List.cons_append, Action.sequence, Action.andThen, induction, Option.bind_assoc]

/-- The second action can be run before the first one, which keeps states valid. -/
structure Swaps (valid : σ → Prop) (first second : Action σ Unit) : Prop where
  keeps : Preserves valid first
  commutes : Commutes valid first second

/-- An action that swaps with those before it can come first. -/
theorem sequence_toFront {front : List κ}
    (swaps : ∀ other ∈ front, Swaps valid (step other) (step label)) (back : List κ)
    {state : σ} (isValid : valid state) :
    Action.sequence step (front ++ label :: back) state =
      Action.sequence step (label :: (front ++ back)) state := by
  induction front generalizing state with
  | nil => rfl
  | cons head front induction =>
      rw [List.forall_mem_cons] at swaps
      have swapped : ((step head).andThen fun _ => (step label).andThen fun _ =>
          Action.sequence step (front ++ back)) state =
          ((step label).andThen fun _ => (step head).andThen fun _ =>
            Action.sequence step (front ++ back)) state := by
        have both := congrArg (Option.bind · fun result =>
          Action.sequence step (front ++ back) result.2) (swaps.1.commutes state isValid)
        simpa only [Action.andThen, Option.bind_assoc] using both
      refine Eq.trans ?_ swapped
      rw [List.cons_append, Action.sequence, Action.andThen, Action.andThen]
      cases done : step head state with
      | none => rfl
      | some result => exact induction swaps.2 (swaps.1.keeps isValid done)

variable [DecidableEq κ]

/-- Taking an element out does not change how the others stand. -/
theorem idxOf_lt_of_removed {front back : List κ} {first second : κ} (notFirst : first ≠ label)
    (notSecond : second ≠ label)
    (before : (front ++ label :: back).idxOf first < (front ++ label :: back).idxOf second) :
    (front ++ back).idxOf first < (front ++ back).idxOf second := by
  simp only [List.idxOf_append, List.idxOf_cons_ne _ (Ne.symm notFirst),
    List.idxOf_cons_ne _ (Ne.symm notSecond)] at before ⊢
  by_cases inFront : first ∈ front
  · have inside := List.idxOf_lt_length_iff.mpr inFront
    by_cases alsoFront : second ∈ front
    · rw [if_pos inFront, if_pos alsoFront] at before ⊢
      exact before
    · rw [if_pos inFront, if_neg alsoFront]
      omega
  · by_cases alsoFront : second ∈ front
    · have inside := List.idxOf_lt_length_iff.mpr alsoFront
      rw [if_neg inFront, if_pos alsoFront] at before
      omega
    · rw [if_neg inFront, if_neg alsoFront] at before ⊢
      omega

/-- Actions that do not swap stay in order, so the outcome stays the same. Only the
sorted sequence has to go through valid states. -/
theorem sequence_reorder {order sorted : List κ} {state : σ}
    (perm : order.Perm sorted) (unique : sorted.Nodup)
    (ordered : sorted.Pairwise fun first second =>
      order.idxOf first < order.idxOf second ∨ Swaps valid (step second) (step first))
    (intact : ∀ front back after, sorted = front ++ back →
      Action.sequence step front state = some ((), after) → valid after) :
    Action.sequence step order state = Action.sequence step sorted state := by
  induction sorted generalizing order state with
  | nil => rw [perm.eq_nil]
  | cons head sorted induction =>
      rcases List.append_of_mem (perm.mem_iff.mpr List.mem_cons_self) with ⟨front, back, rfl⟩
      have notBefore : head ∉ front := fun inFront =>
        (List.nodup_append.mp (perm.nodup_iff.mpr unique)).2.2 head inFront head
          List.mem_cons_self rfl
      rw [List.nodup_cons] at unique
      rcases List.pairwise_cons.mp ordered with ⟨first, rest⟩
      have permRest : (front ++ back).Perm sorted :=
        (List.perm_middle.symm.trans perm).cons_inv
      have swaps : ∀ other ∈ front, Swaps valid (step other) (step head) := by
        intro other inFront
        rcases first other (permRest.mem_iff.mp (List.mem_append_left _ inFront)) with
          before | swaps
        · have inside := List.idxOf_lt_length_iff.mpr inFront
          rw [List.idxOf_append, List.idxOf_append, if_neg notBefore, if_pos inFront] at before
          omega
        · exact swaps
      rw [sequence_toFront swaps back (intact [] _ state rfl rfl), Action.sequence,
        Action.sequence, Action.andThen, Action.andThen]
      cases done : step head state with
      | none => rfl
      | some result =>
          refine induction permRest unique.2 ?_ ?_
          · refine rest.imp_of_mem ?_
            intro one other member memberOther relation
            rcases relation with before | swaps
            · have different : one ≠ head := fun same => unique.1 (same ▸ member)
              have differentOther : other ≠ head := fun same => unique.1 (same ▸ memberOther)
              exact Or.inl (idxOf_lt_of_removed different differentOther before)
            · exact Or.inr swaps
          · intro later others after split ran
            apply intact (head :: later) others after (by rw [split, List.cons_append])
            rw [Action.sequence, Action.andThen, done]
            exact ran

end Reordering

end Foundation

end Cecs

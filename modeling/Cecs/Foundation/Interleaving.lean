import Cecs.Foundation.Footprint
import Mathlib.Data.List.Perm.Basic

/-! # Interleaved tasks

Tasks share a state and take their actions in turn. Tasks that are under way at the same
time keep to footprints that are apart, so each of them could have acted in one go. -/

namespace Cecs

namespace Foundation

namespace Action

variable {σ α β γ : Type}

theorem andThen_assoc (first : Action σ α) (second : α → Action σ β) (third : β → Action σ γ) :
    (first.andThen second).andThen third =
      first.andThen fun value => (second value).andThen third := by
  funext state
  exact Option.bind_assoc ..

theorem andThen_pure (first : Action σ α) :
    (first.andThen fun value state => some (value, state)) = first := by
  funext state
  cases done : first state with
  | none => simp [andThen, done]
  | some result => simp [andThen, done]

end Action

/-- How tasks begin and go on. `rest` is what is left of one, in one go. -/
structure Tasks (σ κ τ : Type) where
  start : κ → Action σ τ
  act : τ → Action σ τ
  rest : τ → Action σ Unit
  Over : τ → Prop
  rest_of_over : ∀ {task}, Over task → ∀ state, rest task state = some ((), state)
  rest_of_act : ∀ {task next : τ} {state after : σ}, act task state = some (next, after) →
    rest task state = rest next after
  rest_of_stuck : ∀ {task : τ} {state : σ}, ¬Over task → act task state = none →
    rest task state = none

namespace Tasks

variable {σ κ τ ι : Type}

def steps (tasks : Tasks σ κ τ) : Nat → τ → Action σ τ
  | 0, task => fun state => some (task, state)
  | count + 1, task => (tasks.act task).andThen (tasks.steps count)

/-- The task begins and takes so many steps. -/
def upTo (tasks : Tasks σ κ τ) (label : κ) (count : Nat) : Action σ τ :=
  (tasks.start label).andThen (tasks.steps count)

def execute (tasks : Tasks σ κ τ) (label : κ) : Action σ Unit :=
  (tasks.start label).andThen tasks.rest

/-- The tasks of the list, one after the other, have come to where they are. -/
inductive Under (tasks : Tasks σ κ τ) (locals : κ → Option τ) : List κ → σ → σ → Prop
  | nil {state : σ} : Under tasks locals [] state state
  | cons {label : κ} {others : List κ} {count : Nat} {task : τ} {state middle last : σ}
      (came : tasks.upTo label count state = some (task, middle))
      (here : locals label = some task) (rest : Under tasks locals others middle last) :
      Under tasks locals (label :: others) state last

section Steps

variable (tasks : Tasks σ κ τ)

theorem steps_succ (count : Nat) (task : τ) :
    tasks.steps (count + 1) task = (tasks.steps count task).andThen tasks.act := by
  induction count generalizing task with
  | zero =>
      funext state
      exact congrFun (Action.andThen_pure (tasks.act task)) state
  | succ count induction =>
      rw [steps, steps, Action.andThen_assoc]
      exact congrArg _ (funext induction)

theorem upTo_zero (label : κ) : tasks.upTo label 0 = tasks.start label :=
  Action.andThen_pure _

theorem upTo_succ (label : κ) (count : Nat) :
    tasks.upTo label (count + 1) = (tasks.upTo label count).andThen tasks.act := by
  rw [upTo, upTo, Action.andThen_assoc]
  exact congrArg _ (funext (tasks.steps_succ count))

variable {tasks}

theorem rest_of_steps {count : Nat} {task next : τ} {state after : σ}
    (stepped : tasks.steps count task state = some (next, after)) :
    tasks.rest task state = tasks.rest next after := by
  induction count generalizing task state with
  | zero =>
      cases stepped
      rfl
  | succ count induction =>
      rcases Action.andThen_eq_some.mp stepped with ⟨middle, between, acted, onwards⟩
      rw [tasks.rest_of_act acted]
      exact induction onwards

/-- What a task does is decided by what is left of it. -/
theorem execute_of_upTo {label : κ} {count : Nat} {task : τ} {state after : σ}
    (came : tasks.upTo label count state = some (task, after)) :
    tasks.execute label state = tasks.rest task after := by
  rcases Action.andThen_eq_some.mp came with ⟨first, middle, began, stepped⟩
  rw [execute, Action.andThen, began, ← rest_of_steps stepped]
  rfl

end Steps

section Footprints

variable {tasks : Tasks σ κ τ} {parts : Parts σ ι} {valid : σ → Prop}
  {footprint : κ → Footprint ι} {label other : κ}

/-- The task keeps to its footprint, from its beginning and however far it has come. -/
structure Keeps (tasks : Tasks σ κ τ) (parts : Parts σ ι) (valid : σ → Prop)
    (footprint : κ → Footprint ι) (label : κ) : Prop where
  start : Confined parts valid (footprint label) (tasks.start label)
  act : ∀ {count : Nat} {task : τ} {state after : σ}, valid state →
    tasks.upTo label count state = some (task, after) →
    Confined parts valid (footprint label) (tasks.act task)

theorem Keeps.upTo (keeps : tasks.Keeps parts valid footprint label) (count : Nat) :
    Confined parts valid (footprint label) (tasks.upTo label count) := by
  induction count with
  | zero =>
      rw [upTo_zero]
      exact keeps.start
  | succ count induction =>
      rw [upTo_succ]
      exact induction.andThen fun _ _ _ isValid came => keeps.act isValid came

/-- Both tasks keep to their footprints, which are apart. -/
structure Apart (tasks : Tasks σ κ τ) (parts : Parts σ ι) (valid : σ → Prop)
    (footprint : κ → Footprint ι) (label other : κ) : Prop where
  first : tasks.Keeps parts valid footprint label
  second : tasks.Keeps parts valid footprint other
  apart : (footprint label).Apart (footprint other)

theorem Apart.symm (apart : tasks.Apart parts valid footprint label other) :
    tasks.Apart parts valid footprint other label :=
  ⟨apart.second, apart.first, apart.apart.symm⟩

end Footprints

section Locals

variable {tasks : Tasks σ κ τ} {locals more : κ → Option τ} {labels others : List κ}
  {label : κ} {task next : τ} {state middle last after : σ}

theorem Under.trans (under : tasks.Under locals labels state middle)
    (onwards : tasks.Under locals others middle last) :
    tasks.Under locals (labels ++ others) state last := by
  induction under with
  | nil => exact onwards
  | cons came here _ induction => exact .cons came here (induction onwards)

theorem Under.split (under : tasks.Under locals (labels ++ others) state last) :
    ∃ middle, tasks.Under locals labels state middle ∧ tasks.Under locals others middle last := by
  induction labels generalizing state with
  | nil => exact ⟨state, .nil, under⟩
  | cons head labels induction =>
      cases under with
      | cons came here rest =>
          rcases induction rest with ⟨middle, first, second⟩
          exact ⟨middle, .cons came here first, second⟩

theorem Under.congr (under : tasks.Under locals labels state last)
    (same : ∀ label ∈ labels, more label = locals label) :
    tasks.Under more labels state last := by
  induction under with
  | nil => exact .nil
  | cons came here _ induction =>
      rw [List.forall_mem_cons] at same
      exact .cons came (same.1.trans here) (induction same.2)

theorem Under.ne_none (under : tasks.Under locals labels state last) (member : label ∈ labels) :
    locals label ≠ none := by
  induction under with
  | nil => cases member
  | cons came here _ induction =>
      rcases List.mem_cons.mp member with rfl | inRest
      · rw [here]
        exact Option.some_ne_none _
      · exact induction inRest

theorem Under.came (under : tasks.Under locals labels state last) (member : label ∈ labels)
    (here : locals label = some task) :
    ∃ count start after, tasks.upTo label count start = some (task, after) := by
  induction under with
  | nil => cases member
  | cons came found _ induction =>
      rcases List.mem_cons.mp member with rfl | inRest
      · rw [here] at found
        cases found
        exact ⟨_, _, _, came⟩
      · exact induction inRest

variable [DecidableEq κ]

/-- A task that is not on the list has nothing to do with it. -/
theorem Under.update (under : tasks.Under locals labels state last) (absent : label ∉ labels)
    (value : Option τ) : tasks.Under (Function.update locals label value) labels state last := by
  apply under.congr
  intro other member
  exact Function.update_of_ne (ne_of_mem_of_not_mem member absent) ..

theorem Under.begin (under : tasks.Under locals labels state last) (absent : label ∉ labels)
    (began : tasks.start label last = some (task, after)) :
    tasks.Under (Function.update locals label (some task)) (labels ++ [label]) state after := by
  apply (under.update absent (some task)).trans
  rw [← upTo_zero] at began
  exact .cons began (Function.update_self ..) .nil

end Locals

section Exchange

variable {tasks : Tasks σ κ τ} {parts : Parts σ ι} {valid : σ → Prop}
  {footprint : κ → Footprint ι} {locals : κ → Option τ} {labels others : List κ} {label : κ}
  {task next : τ} {state last after : σ}

/-- The tasks of the list change nothing that the footprint reads. -/
theorem Under.frame (under : tasks.Under locals labels state last)
    (apart : ∀ other ∈ labels, tasks.Apart parts valid footprint label other)
    (isValid : valid state) :
    valid last ∧ ∀ part ∈ (footprint label).reads, parts.Agree part state last := by
  induction under with
  | nil => exact ⟨isValid, fun part _ => (parts.equivalence part).refl _⟩
  | @cons _ _ count _ _ _ _ came here rest induction =>
      rw [List.forall_mem_cons] at apart
      have confined := apart.1.second.upTo count
      rcases induction apart.2 (confined.keeps isValid came) with ⟨isValidLast, agree⟩
      refine ⟨isValidLast, fun part reads => ?_⟩
      have unwritten : part ∉ (footprint _).writes := fun writes =>
        apart.1.apart.rightWrites part writes reads
      exact (parts.equivalence part).trans (confined.frame isValid came part unwritten)
        (agree part reads)

/-- Tasks that are apart may have come there in any order. -/
theorem Under.perm (under : tasks.Under locals labels state last)
    (apart : labels.Pairwise (tasks.Apart parts valid footprint)) (isValid : valid state)
    (perm : labels.Perm others) : tasks.Under locals others state last := by
  induction perm generalizing state with
  | nil => exact under
  | cons head perm induction =>
      rcases List.pairwise_cons.mp apart with ⟨fromHead, among⟩
      cases under with
      | cons came here rest =>
          refine .cons came here ?_
          cases rest with
          | nil =>
              rw [← perm.nil_eq]
              exact .nil
          | cons cameNext hereNext rest =>
              have keeps := (fromHead _ List.mem_cons_self).first
              exact induction (.cons cameNext hereNext rest) among
                ((keeps.upTo _).keeps isValid came)
  | swap first second tail =>
      have between := (List.pairwise_cons.mp apart).1 first List.mem_cons_self
      cases under with
      | cons came here rest =>
          cases rest with
          | cons cameNext hereNext rest =>
              rcases (between.first.upTo _).exchange between.apart (between.second.upTo _) isValid
                came cameNext with ⟨middle, cameFirst, cameSecond⟩
              exact .cons cameFirst hereNext (.cons cameSecond here rest)
  | trans first _ inductionFirst inductionSecond =>
      have apartMiddle := (first.pairwise_iff fun apart => apart.symm).mp apart
      exact inductionSecond (inductionFirst under apart isValid) apartMiddle isValid

/-- A task that runs through before the others can begin after them. -/
theorem Under.canBegin (under : tasks.Under locals labels state last)
    (apart : ∀ other ∈ labels, tasks.Apart parts valid footprint label other)
    (isValid : valid state) (runs : (tasks.execute label state).isSome = true) :
    (tasks.start label last).isSome = true := by
  rcases Option.isSome_iff_exists.mp runs with ⟨⟨_, after⟩, ran⟩
  rcases Action.andThen_eq_some.mp ran with ⟨task, middle, began, _⟩
  cases labels with
  | nil =>
      cases under
      rw [began]
      rfl
  | cons other tail =>
      rcases under.frame apart isValid with ⟨isValidLast, agree⟩
      have keeps := (apart other List.mem_cons_self).first
      rcases keeps.start.depends isValid isValidLast agree began with ⟨afterLast, beganLast, _⟩
      rw [beganLast]
      rfl

variable [DecidableEq κ]

/-- The task could have come there before the others did anything. -/
theorem Under.first (under : tasks.Under locals labels state last)
    (apart : labels.Pairwise (tasks.Apart parts valid footprint)) (isValid : valid state)
    (member : label ∈ labels) (here : locals label = some task) :
    ∃ count middle, tasks.upTo label count state = some (task, middle) ∧
      tasks.Under locals (labels.erase label) middle last := by
  have moved := under.perm apart isValid (List.perm_cons_erase member)
  cases moved with
  | cons came found rest =>
      rw [here] at found
      cases found
      exact ⟨_, _, came, rest⟩

/-- It takes another action now. -/
theorem Under.act (under : tasks.Under locals labels state last) (unique : labels.Nodup)
    (apart : labels.Pairwise (tasks.Apart parts valid footprint)) (isValid : valid state)
    (member : label ∈ labels) (here : locals label = some task)
    (acted : tasks.act task last = some (next, after)) :
    tasks.Under (Function.update locals label (some next)) labels state after := by
  have toLast : labels.Perm (labels.erase label ++ [label]) :=
    (List.perm_cons_erase member).trans (List.perm_append_singleton ..).symm
  have absent : label ∉ labels.erase label := fun inRest =>
    (List.Nodup.mem_erase_iff unique).mp inRest |>.1 rfl
  rcases (under.perm apart isValid toLast).split with ⟨middle, before, mine⟩
  have advanced : tasks.Under (Function.update locals label (some next)) [label] middle after := by
    cases mine with
    | @cons _ _ count _ _ _ _ came found rest =>
        cases rest
        rw [here] at found
        cases found
        have cameOn : tasks.upTo label (count + 1) middle = some (next, after) := by
          rw [upTo_succ, Action.andThen_eq_some]
          exact ⟨_, _, came, acted⟩
        exact .cons cameOn (Function.update_self ..) .nil
  have apartMoved := (toLast.pairwise_iff fun apart => apart.symm).mp apart
  exact ((before.update absent (some next)).trans advanced).perm apartMoved isValid toLast.symm

/-- A task that is over could have run before the others did anything. -/
theorem Under.finish (under : tasks.Under locals labels state last) (unique : labels.Nodup)
    (apart : labels.Pairwise (tasks.Apart parts valid footprint)) (isValid : valid state)
    (member : label ∈ labels) (here : locals label = some task) (ended : tasks.Over task) :
    ∃ middle, tasks.execute label state = some ((), middle) ∧
      tasks.Under (Function.update locals label none) (labels.erase label) middle last := by
  rcases under.first apart isValid member here with ⟨count, middle, came, rest⟩
  have absent : label ∉ labels.erase label := fun inRest =>
    (List.Nodup.mem_erase_iff unique).mp inRest |>.1 rfl
  refine ⟨middle, ?_, rest.update absent none⟩
  rw [execute_of_upTo came]
  exact tasks.rest_of_over ended middle

/-- A task that runs through before the others can go on among them. -/
theorem Under.canAct (under : tasks.Under locals labels state last)
    (apart : labels.Pairwise (tasks.Apart parts valid footprint)) (isValid : valid state)
    (member : label ∈ labels) (here : locals label = some task) (goesOn : ¬tasks.Over task)
    (runs : (tasks.execute label state).isSome = true) :
    (tasks.act task last).isSome = true := by
  rcases under.first apart isValid member here with ⟨count, middle, came, rest⟩
  have acts : ∃ result, tasks.act task middle = some result := by
    rw [← Option.isSome_iff_exists]
    by_contra stuck
    rw [Option.not_isSome_iff_eq_none] at stuck
    rw [execute_of_upTo came, tasks.rest_of_stuck goesOn stuck] at runs
    cases runs
  rcases acts with ⟨⟨next, after⟩, acted⟩
  cases others : labels.erase label with
  | nil =>
      rw [others] at rest
      cases rest
      rw [acted]
      rfl
  | cons other tail =>
      have between : ∀ other ∈ labels.erase label,
          tasks.Apart parts valid footprint label other := by
        intro other inRest
        have moved := ((List.perm_cons_erase member).pairwise_iff fun apart => apart.symm).mp apart
        exact (List.pairwise_cons.mp moved).1 other inRest
      have keeps := (between other (others ▸ List.mem_cons_self)).first
      have isValidMiddle := (keeps.upTo count).keeps isValid came
      rcases rest.frame between isValidMiddle with ⟨isValidLast, agree⟩
      rcases (keeps.act isValid came).depends isValidMiddle isValidLast agree acted with
        ⟨afterLast, actedLast, _⟩
      rw [actedLast]
      rfl

end Exchange

end Tasks

end Foundation

end Cecs

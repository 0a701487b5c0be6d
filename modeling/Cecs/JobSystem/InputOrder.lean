import Cecs.JobSystem.MapReduce
import Mathlib.Data.List.Nodup

/-! # What a parallel reduction returns

Each call of `reduce_recursive` is owed the results of its slice, in order, and
nobody else takes them. So a reduction with an associative operation returns the
results folded in the order of the inputs, whichever half is ahead. -/

namespace Cecs

namespace JobSystem

section Fold

variable {Res : Type}

/-- The results folded from the left, if there are any. -/
def fold (reduce : Res → Res → Res) : List Res → Option Res
  | [] => none
  | first :: rest => some (rest.foldl reduce first)

theorem fold_append (reduce : Res → Res → Res) [Std.Associative reduce] {left right : List Res}
    (leftSome : left ≠ []) (rightSome : right ≠ []) :
    fold reduce (left ++ right) = do return reduce (← fold reduce left) (← fold reduce right) := by
  cases left with
  | nil => exact absurd rfl leftSome
  | cons first left =>
      cases right with
      | nil => exact absurd rfl rightSome
      | cons second right =>
          simp only [fold, List.cons_append, List.foldl_append, List.foldl_cons,
            Option.bind_eq_bind, Option.bind_some, Option.pure_def, Option.some.injEq]
          exact List.foldl_assoc

/-- The values of a slice. -/
def slice (values : List Res) (start len : Nat) : List Res := (values.drop start).take len

theorem slice_succ {values : List Res} {start : Nat} {value : Res}
    (found : values[start]? = some value) (len : Nat) :
    slice values start (len + 1) = value :: slice values (start + 1) len := by
  rcases List.getElem?_eq_some_iff.mp found with ⟨inRange, rfl⟩
  rw [slice, List.drop_eq_getElem_cons inRange, List.take_succ_cons, slice]

theorem slice_add (values : List Res) (start first second : Nat) :
    slice values start (first + second) =
      slice values start first ++ slice values (start + first) second := by
  rw [slice, List.take_add, List.drop_drop, slice, slice]

theorem slice_ne_nil {values : List Res} {start len : Nat} (inRange : start < values.length)
    (positive : 0 < len) : slice values start len ≠ [] := by
  rw [slice, ne_eq, List.take_eq_nil_iff, List.drop_eq_nil_iff, not_or]
  omega

end Fold

namespace Reduction

variable {T Res : Type}

/-- The positions that are still to be taken. -/
def claims : Reduction Res → List Nat
  | .call start len _ => List.range' start len
  | .loop _ position stop => List.range' position (stop - position)
  | .split lhs rhs => lhs.claims ++ rhs.claims
  | .returned _ => []
  | .panicked => []

/-- What the reduction is to return, when the jobs have these values. -/
def answer (init : Unit → Res) (reduce : Res → Res → Res) (values : List Res) :
    Reduction Res → Option Res
  | .call start len _ => if len = 0 then some (init ()) else fold reduce (slice values start len)
  | .loop result position stop =>
      some ((slice values position (stop - position)).foldl reduce result)
  | .split lhs rhs => do
      return reduce (← lhs.answer init reduce values) (← rhs.answer init reduce values)
  | .returned result => some result
  | .panicked => none

/-- No call panicked. -/
def Unharmed : Reduction Res → Prop
  | .split lhs rhs => lhs.Unharmed ∧ rhs.Unharmed
  | .panicked => False
  | _ => True

/-- A bound on the steps that are left. -/
def remaining : Reduction Res → Nat
  | .call _ len _ => max 1 (4 * len - 2)
  | .loop _ position stop => stop - position + 1
  | .split lhs rhs => lhs.remaining + rhs.remaining + 1
  | .returned _ => 0
  | .panicked => 0

end Reduction

/-- The result at this position is there to be taken. -/
def Results.Holds {T Res : Type} (results : Results T Res) (values : List Res) (position : Nat) :
    Prop :=
  ∃ job value, results.jobs[position]? = some job ∧ job.result = .Done value ∧
    values[position]? = some value

/-- A step takes some results that were claimed, and nothing else changes. -/
structure Reduction.Progress {T Res : Type} (init : Unit → Res) (reduce : Res → Res → Res)
    (values : List Res) (before : Results T Res) (reduction : Reduction Res)
    (after : Results T Res) (next : Reduction Res) (now : List Nat) : Prop where
  answer : next.answer init reduce values = reduction.answer init reduce values
  taken : after.taken = before.taken ++ now
  claims : (now ++ next.claims).Perm reduction.claims
  frame : ∀ position ∉ now, after.jobs[position]? = before.jobs[position]?
  remaining : next.remaining < reduction.remaining

section Step

variable {T Res : Type} {init : Unit → Res} {reduce : Res → Res → Res} {values : List Res}
  {results after : Results T Res} {reduction next : Reduction Res}

/-- A result that is held is taken, and not there a second time. -/
theorem Results.Holds.taking {position : Nat} (holds : results.Holds values position)
    (goesOn : Res → Reduction Res) :
    ∃ value left, values[position]? = some value ∧
      results.taking position goesOn = (left, goesOn value) ∧
      left.taken = results.taken ++ [position] ∧
      ∀ other ∉ [position], left.jobs[other]? = results.jobs[other]? := by
  rcases holds with ⟨job, value, found, done, valued⟩
  refine ⟨value, { jobs := results.jobs.set position { job with result := .Pending },
                   taken := results.taken ++ [position] }, valued, ?_, rfl, ?_⟩
  · simp [Results.taking, Results.take, found, done, JobResult.take, JobResult.unwrap]
  · intro other different
    rw [List.mem_singleton] at different
    exact List.getElem?_set_ne (Ne.symm different)

variable [Std.Associative reduce]

/-- The call is entered: it is split, or starts to take results. -/
theorem Reduction.enter_progress {start len maxDepth : Nat}
    (holds : ∀ position ∈ (Reduction.call start len maxDepth : Reduction Res).claims,
      results.Holds values position) :
    ∃ now, Progress init reduce values results (.call start len maxDepth)
      (enter init results start len maxDepth).1 (enter init results start len maxDepth).2 now := by
  have held : ∀ position, start ≤ position → position < start + len →
      results.Holds values position := fun position first last =>
    holds position (List.mem_range'_1.mpr ⟨first, last⟩)
  have inRange : ∀ position, start ≤ position → position < start + len →
      position < values.length := by
    intro position first last
    rcases held position first last with ⟨_, _, _, _, valued⟩
    exact (List.getElem?_eq_some_iff.mp valued).1
  match len with
  | 0 => exact ⟨[], ⟨rfl, (List.append_nil _).symm, .refl _, fun _ _ => rfl, Nat.one_pos⟩⟩
  | 1 =>
      rcases (held start (Nat.le_refl _) (Nat.lt_succ_self _)).taking Reduction.returned with
        ⟨value, left, valued, step, taken, frame⟩
      have single : slice values start 1 = [value] := by
        rw [slice_succ valued 0, slice, List.take_zero]
      refine ⟨[start], ?_⟩
      rw [enter, step]
      exact ⟨by simp [answer, single, fold], taken, .refl _, frame, by simp [remaining]⟩
  | len + 2 =>
      simp only [enter]
      split
      · have halves : len + 2 = (len + 2) / 2 + (len + 2 - (len + 2) / 2) := by omega
        have inLeft : start < values.length := inRange start (Nat.le_refl _) (by omega)
        have inRight : start + (len + 2) / 2 < values.length :=
          inRange _ (Nat.le_add_right _ _) (by omega)
        refine ⟨[], ⟨?_, (List.append_nil _).symm, ?_, fun _ _ => rfl, ?_⟩⟩
        · have parts := fold_append reduce (slice_ne_nil inLeft (by omega : 0 < (len + 2) / 2))
            (slice_ne_nil inRight (by omega : 0 < len + 2 - (len + 2) / 2))
          rw [← slice_add, ← halves] at parts
          rw [answer, answer, answer, answer, if_neg (by omega), if_neg (by omega),
            if_neg (by omega), parts]
        · rw [List.nil_append, claims, claims, claims, claims, List.range'_append_1, ← halves]
        · simp only [remaining]
          omega
      · rcases (held start (Nat.le_refl _) (by omega)).taking
            (fun result => Reduction.loop result (start + 1) (start + (len + 2))) with
          ⟨value, left, valued, step, taken, frame⟩
        have others : start + (len + 2) - (start + 1) = len + 1 := by omega
        rw [step]
        refine ⟨[start], ⟨?_, taken, ?_, frame, ?_⟩⟩
        · rw [answer, answer, if_neg (by omega), slice_succ valued, fold, others]
        · rw [claims, claims, others, List.range'_succ]
          rfl
        · simp only [remaining]
          omega

omit [Std.Associative reduce] in
/-- The loop takes the next result, or returns. -/
theorem Reduction.loop_progress {result : Res} {position stop : Nat} {path : List Half}
    (holds : ∀ other ∈ (Reduction.loop result position stop).claims, results.Holds values other)
    (stepped : step init reduce results path (.loop result position stop) = some (after, next)) :
    ∃ now, Progress init reduce values results (.loop result position stop) after next now := by
  cases path with
  | cons half path => cases half <;> cases stepped
  | nil =>
      rw [step] at stepped
      split at stepped
      · rename_i before
        have more : stop - position = stop - (position + 1) + 1 := by omega
        have member : position ∈ (Reduction.loop result position stop).claims :=
          List.mem_range'_1.mpr ⟨Nat.le_refl _, by omega⟩
        rcases (holds position member).taking
            (fun res => Reduction.loop (reduce result res) (position + 1) stop) with
          ⟨value, left, valued, took, taken, frame⟩
        rw [took] at stepped
        cases stepped
        refine ⟨[position], ⟨?_, taken, ?_, frame, ?_⟩⟩
        · rw [answer, answer, more, slice_succ valued, List.foldl_cons]
        · rw [claims, claims, more, List.range'_succ]
          rfl
        · simp only [remaining]
          omega
      · rename_i atEnd
        have nothing : stop - position = 0 := by omega
        cases stepped
        refine ⟨[], ⟨?_, (List.append_nil _).symm, ?_, fun _ _ => rfl, ?_⟩⟩
        · rw [answer, answer, nothing, slice, List.take_zero, List.foldl_nil]
        · rw [claims, claims, nothing]
          exact .refl _
        · simp [remaining]

omit [Std.Associative reduce] in
theorem Reduction.answer_split {lhs rhs : Reduction Res} {result : Res} :
    (Reduction.split lhs rhs).answer init reduce values = some result ↔
      ∃ left, lhs.answer init reduce values = some left ∧
        ∃ right, rhs.answer init reduce values = some right ∧ reduce left right = result := by
  simp [answer, Option.bind_eq_some_iff]

omit [Std.Associative reduce] in
/-- The caller has waited for the left half and takes its result. -/
theorem Reduction.join_progress {lhs rhs : Reduction Res} {result : Res}
    (answered : (Reduction.split lhs rhs).answer init reduce values = some result)
    (joined : join reduce lhs rhs = some next) :
    Progress init reduce values results (.split lhs rhs) results next [] := by
  rcases answer_split.mp answered with ⟨left, answerLeft, right, answerRight, rfl⟩
  rw [join.eq_def] at joined
  cases rhs with
  | returned other =>
      cases lhs with
      | returned mine =>
          cases joined
          cases answerLeft
          cases answerRight
          exact ⟨by rw [answered, answer], (List.append_nil _).symm, .refl _, fun _ _ => rfl,
            by simp [remaining]⟩
      | panicked => cases answerLeft
      | call => cases joined
      | loop => cases joined
      | split => cases joined
  | panicked => cases answerRight
  | call => cases joined
  | loop => cases joined
  | split => cases joined

/-- A step of any of the calls that run. -/
theorem Reduction.step_progress {path : List Half} {result : Res}
    (holds : ∀ position ∈ reduction.claims, results.Holds values position)
    (answered : reduction.answer init reduce values = some result)
    (stepped : step init reduce results path reduction = some (after, next)) :
    ∃ now, Progress init reduce values results reduction after next now := by
  induction reduction generalizing path results after next result with
  | call start len maxDepth =>
      cases path with
      | nil =>
          rw [step, Option.some.injEq] at stepped
          have entered : ∃ now, Progress init reduce values results (.call start len maxDepth)
              (enter init results start len maxDepth).1
              (enter init results start len maxDepth).2 now := enter_progress holds
          rwa [stepped] at entered
      | cons half path => cases half <;> cases stepped
  | loop start position stop => exact loop_progress holds stepped
  | returned other => cases path with
    | nil => cases stepped
    | cons half path => cases half <;> cases stepped
  | panicked => cases answered
  | split lhs rhs inductionLeft inductionRight =>
      rcases answer_split.mp answered with ⟨left, answerLeft, right, answerRight, _⟩
      cases path with
      | nil =>
          rw [step] at stepped
          rcases Option.bind_eq_some_iff.mp stepped with ⟨joined, joins, same⟩
          cases same
          exact ⟨[], join_progress answered joins⟩
      | cons half path =>
          cases half with
          | lhs =>
              rw [step] at stepped
              rcases Option.bind_eq_some_iff.mp stepped with ⟨⟨left, lhs⟩, inner, same⟩
              cases same
              rcases inductionLeft (fun position member =>
                  holds position (List.mem_append_left _ member)) answerLeft inner with
                ⟨now, progress⟩
              refine ⟨now, ⟨?_, progress.taken, ?_, progress.frame, ?_⟩⟩
              · rw [answer, answer, progress.answer]
              · rw [claims, claims, ← List.append_assoc]
                exact progress.claims.append_right _
              · have fewer := progress.remaining
                simp only [remaining]
                omega
          | rhs =>
              rw [step] at stepped
              rcases Option.bind_eq_some_iff.mp stepped with ⟨⟨right, rhs⟩, inner, same⟩
              cases same
              rcases inductionRight (fun position member =>
                  holds position (List.mem_append_right _ member)) answerRight inner with
                ⟨now, progress⟩
              refine ⟨now, ⟨?_, progress.taken, ?_, progress.frame, ?_⟩⟩
              · rw [answer, answer, progress.answer]
              · rw [claims, claims]
                exact (List.perm_append_comm_assoc ..).trans (progress.claims.append_left _)
              · have fewer := progress.remaining
                simp only [remaining]
                omega

omit [Std.Associative reduce] in
theorem Reduction.unharmed_of_answer {result : Res}
    (answered : reduction.answer init reduce values = some result) : reduction.Unharmed := by
  induction reduction generalizing result with
  | split lhs rhs inductionLeft inductionRight =>
      rcases answer_split.mp answered with ⟨left, answerLeft, right, answerRight, _⟩
      exact ⟨inductionLeft answerLeft, inductionRight answerRight⟩
  | panicked => cases answered
  | call => trivial
  | loop => trivial
  | returned => trivial

omit [Std.Associative reduce] in
/-- Until it returns, some call can go on. -/
theorem Reduction.exists_step {result : Res}
    (answered : reduction.answer init reduce values = some result)
    (running : ∀ other, reduction ≠ .returned other) :
    ∃ path after next, step init reduce results path reduction = some (after, next) := by
  induction reduction generalizing result with
  | call start len maxDepth => exact ⟨[], _, _, rfl⟩
  | loop start position stop =>
      refine ⟨[], ?_⟩
      rw [step]
      split
      · exact ⟨_, _, rfl⟩
      · exact ⟨_, _, rfl⟩
  | returned other => exact absurd rfl (running other)
  | panicked => cases answered
  | split lhs rhs inductionLeft inductionRight =>
      rcases answer_split.mp answered with ⟨left, answerLeft, right, answerRight, _⟩
      by_cases leftRuns : ∀ other, lhs ≠ .returned other
      · rcases inductionLeft answerLeft leftRuns with ⟨path, after, next, stepped⟩
        exact ⟨.lhs :: path, after, .split next rhs, by rw [step, stepped]; rfl⟩
      · by_cases rightRuns : ∀ other, rhs ≠ .returned other
        · rcases inductionRight answerRight rightRuns with ⟨path, after, next, stepped⟩
          exact ⟨.rhs :: path, after, .split lhs next, by rw [step, stepped]; rfl⟩
        · simp only [not_forall, not_not] at leftRuns rightRuns
          rcases leftRuns with ⟨mine, rfl⟩
          rcases rightRuns with ⟨other, rfl⟩
          exact ⟨[], results, .returned (reduce mine other), rfl⟩

end Step

namespace MapReduce

variable {T Res : Type}

/-- What a call of `map_reduce` is to return. -/
def folded (init : Unit → Res) (map : T → Res) (reduce : Res → Res → Res) : List T → Res
  | [] => init ()
  | first :: rest => (rest.map map).foldl reduce (map first)

/-- A bound on the events that are left. -/
def remaining (self : MapReduce T Res) : Nat :=
  match self.reduction with
  | none => self.results.jobs.countP (fun job => job.inner.isSome) + 1 +
      max 1 (4 * self.results.jobs.length - 2)
  | some reduction => reduction.remaining

section Invariant

variable {init : Unit → Res} {map : T → Res} {reduce : Res → Res → Res} {data : List T}
  {state next : MapReduce T Res} {parallelism : ℕ+}

/-- A job has not run, or has the mapped input as its result. -/
def Maps (map : T → Res) (input : T) (job : InlineJob T Res) : Prop :=
  job.inner = some input ∧ job.result = .Pending ∨
    job.inner = none ∧ job.result = .Done (map input)

/-- The jobs are waited for, or their results are being reduced. -/
inductive Sound (init : Unit → Res) (map : T → Res) (reduce : Res → Res → Res) (data : List T)
    (state : MapReduce T Res) : Prop where
  | mapping (waits : state.reduction = none) (untaken : state.results.taken = [])
      (length : state.results.jobs.length = data.length)
      (maps : ∀ (position : Nat) input job, data[position]? = some input →
        state.results.jobs[position]? = some job → Maps map input job)
  | reducing (reduction : Reduction Res) (reduces : state.reduction = some reduction)
      (answer : reduction.answer init reduce (data.map map) = some (folded init map reduce data))
      (holds : ∀ position ∈ reduction.claims, state.results.Holds (data.map map) position)
      (shared : (state.results.taken ++ reduction.claims).Perm (List.range data.length))

theorem sound_start : Sound init map reduce data (start data) := by
  refine .mapping rfl rfl (List.length_map ..) ?_
  intro position input job input_eq found
  simp only [start, List.getElem?_map, input_eq, Option.map_some, Option.some.injEq] at found
  subst found
  exact Or.inl ⟨rfl, rfl⟩

/-- A job is executed. -/
theorem Sound.step_map {position : Nat} (sound : Sound init map reduce data state)
    (stepped : state.step parallelism init map reduce (.map position) = some next) :
    Sound init map reduce data next ∧ next.remaining < state.remaining := by
  simp only [step, Option.bind_eq_bind, Option.bind_eq_some_iff, Option.guard_eq_some',
    exists_const, Option.pure_def, Option.some.injEq, Option.isNone_iff_eq_none] at stepped
  rcases stepped with ⟨waits, job, found, executed, execute, rfl⟩
  rcases Option.bind_eq_some_iff.mp execute with ⟨inner, ready, ran⟩
  cases ran
  cases sound with
  | reducing reduction reduces => rw [waits] at reduces; cases reduces
  | mapping _ untaken length maps =>
      constructor
      · refine .mapping waits untaken ((List.length_set ..).trans length) ?_
        intro other input changed input_eq foundChanged
        by_cases same : other = position
        · subst same
          have inRange := (List.getElem?_eq_some_iff.mp found).1
          rw [List.getElem?_set_self inRange, Option.some.injEq] at foundChanged
          subst foundChanged
          rcases maps other input job input_eq found with ⟨fresh, _⟩ | ⟨gone, _⟩
          · rw [ready, Option.some.injEq] at fresh
            subst fresh
            exact Or.inr ⟨rfl, rfl⟩
          · rw [ready] at gone
            cases gone
        · rw [List.getElem?_set_ne (Ne.symm same)] at foundChanged
          exact maps other input changed input_eq foundChanged
      · have inRange := (List.getElem?_eq_some_iff.mp found).1
        have here : state.results.jobs[position].inner = some inner := by
          rw [(List.getElem?_eq_some_iff.mp found).2, ready]
        have counted : 0 < state.results.jobs.countP fun job => job.inner.isSome :=
          List.countP_pos_iff.mpr ⟨job, List.mem_of_getElem? found, by rw [ready]; rfl⟩
        simp only [remaining, waits, List.length_set, List.countP_set inRange, here,
          Option.isSome_some, Option.isSome_none, Bool.false_eq_true, if_true, if_false]
        omega

/-- All jobs have run, so every result is there. -/
theorem Sound.step_waited (sound : Sound init map reduce data state)
    (stepped : state.step parallelism init map reduce .waited = some next) :
    Sound init map reduce data next ∧ next.remaining < state.remaining := by
  simp only [step, Option.bind_eq_bind, Option.bind_eq_some_iff, Option.guard_eq_some',
    exists_const, Option.pure_def, Option.some.injEq, Option.isNone_iff_eq_none,
    List.all_eq_true] at stepped
  rcases stepped with ⟨waits, ran, rfl⟩
  cases sound with
  | reducing reduction reduces => rw [waits] at reduces; cases reduces
  | mapping _ untaken length maps =>
      constructor
      · refine .reducing _ rfl ?_ ?_ ?_
        · have whole : slice (data.map map) 0 data.length = data.map map := by
            rw [slice, List.drop_zero, List.take_of_length_le (Nat.le_of_eq (List.length_map ..))]
          rw [Reduction.answer, length, whole]
          cases data <;> rfl
        · intro position member
          rw [Reduction.claims, List.mem_range'_1] at member
          have inRange : position < state.results.jobs.length := by omega
          have inData : position < data.length := length ▸ inRange
          have found := List.getElem?_eq_getElem inRange
          have executed := ran _ (List.mem_of_getElem? found)
          have input_eq := List.getElem?_eq_getElem inData
          rcases maps position _ _ input_eq found with ⟨fresh, _⟩ | ⟨_, done⟩
          · rw [executed] at fresh
            cases fresh
          · exact ⟨_, _, found, done, by rw [List.getElem?_map, input_eq]; rfl⟩
        · rw [Reduction.claims, untaken, length, List.range_eq_range']
          exact .refl _
      · simp only [remaining, waits, Reduction.remaining]
        omega

theorem Sound.step_reduce [Std.Associative reduce] {path : List Half}
    (sound : Sound init map reduce data state)
    (stepped : state.step parallelism init map reduce (.reduce path) = some next) :
    Sound init map reduce data next ∧ next.remaining < state.remaining := by
  simp only [step, Option.bind_eq_bind, Option.bind_eq_some_iff, Option.pure_def,
    Option.some.injEq] at stepped
  rcases stepped with ⟨reduction, reduces, ⟨results, after⟩, stepped, rfl⟩
  cases sound with
  | mapping waits => rw [waits] at reduces; cases reduces
  | reducing same reducesSame answer holds shared =>
      rw [reduces, Option.some.injEq] at reducesSame
      subst reducesSame
      rcases Reduction.step_progress holds answer stepped with ⟨now, progress⟩
      have nodup : (now ++ after.claims).Nodup := by
        have all := shared.nodup_iff.mpr List.nodup_range
        exact progress.claims.nodup_iff.mpr (List.nodup_append.mp all).2.1
      constructor
      · refine .reducing after rfl (progress.answer.trans answer) ?_ ?_
        · intro position member
          rcases holds position (progress.claims.mem_iff.mp (List.mem_append_right _ member)) with
            ⟨job, value, found, done, valued⟩
          have untouched : position ∉ now := fun taken =>
            (List.nodup_append.mp nodup).2.2 position taken position member rfl
          exact ⟨job, value, (progress.frame position untouched).trans found, done, valued⟩
        · rw [progress.taken, List.append_assoc]
          exact (progress.claims.append_left _).trans shared
      · simp only [remaining, reduces]
        exact progress.remaining

theorem Sound.step [Std.Associative reduce] {event : MapReduceEvent}
    (sound : Sound init map reduce data state)
    (stepped : state.step parallelism init map reduce event = some next) :
    Sound init map reduce data next ∧ next.remaining < state.remaining := by
  cases event with
  | map position => exact sound.step_map stepped
  | waited => exact sound.step_waited stepped
  | reduce path => exact sound.step_reduce stepped

theorem Sound.run [Std.Associative reduce] {events : List MapReduceEvent}
    (sound : Sound init map reduce data state)
    (ran : state.run parallelism init map reduce events = some next) :
    Sound init map reduce data next ∧ events.length + next.remaining ≤ state.remaining := by
  induction events generalizing state with
  | nil =>
      cases ran
      exact ⟨sound, by simp⟩
  | cons event events induction =>
      rw [MapReduce.run, List.foldlM_cons] at ran
      rcases Option.bind_eq_some_iff.mp ran with ⟨middle, stepped, rest⟩
      rcases sound.step stepped with ⟨soundMiddle, fewer⟩
      rcases induction soundMiddle rest with ⟨soundNext, bounded⟩
      exact ⟨soundNext, by rw [List.length_cons]; omega⟩

/-- Until the call returns, some thread can go on. -/
theorem Sound.exists_step (sound : Sound init map reduce data state)
    (running : ∀ result, ¬state.returns result) :
    ∃ event next, state.step parallelism init map reduce event = some next := by
  cases sound with
  | mapping waits untaken length maps =>
      by_cases ran : ∀ job ∈ state.results.jobs, job.inner = none
      · have all : (state.results.jobs.all fun job => job.inner.isNone) = true := by
          simpa using ran
        exact ⟨.waited, _, by simp only [MapReduce.step, waits, all]; rfl⟩
      · simp only [not_forall] at ran
        rcases ran with ⟨job, member, ready⟩
        rcases List.mem_iff_getElem?.mp member with ⟨position, found⟩
        rcases Option.ne_none_iff_exists'.mp ready with ⟨inner, kept⟩
        have executes : job.execute map = some { inner := none, result := .Done (map inner) } := by
          rw [InlineJob.execute, kept]
          rfl
        exact ⟨.map position, _, by
          simp only [MapReduce.step, waits, found, Option.bind_eq_bind, Option.bind_some,
            executes]
          rfl⟩
  | reducing reduction reduces answer holds shared =>
      have runs : ∀ other, reduction ≠ .returned other := by
        intro other same
        exact running other (reduces.trans (congrArg _ same))
      obtain ⟨path, after, nextReduction, stepped⟩ : ∃ path after next,
          Reduction.step init reduce state.results path reduction = some (after, next) :=
        Reduction.exists_step answer runs
      exact ⟨.reduce path, _, by simp only [MapReduce.step, reduces, Option.bind_eq_bind,
        Option.bind_some, stepped]; rfl⟩

end Invariant

/-- Whichever thread is ahead, `map_reduce` returns `init()` for no inputs, and otherwise
the mapped inputs folded in order; no result is taken twice, or while it is pending, which
would panic; and every run is finite and goes on until the call returns. -/
theorem run_folded (init : Unit → Res) (map : T → Res) (reduce : Res → Res → Res)
    [Std.Associative reduce] (data : List T) (parallelism : ℕ+) (events : List MapReduceEvent)
    (state : MapReduce T Res)
    (ran : (start data).run parallelism init map reduce events = some state) :
    (∀ reduction, state.reduction = some reduction → reduction.Unharmed) ∧
      state.results.taken.Nodup ∧
      (∀ result, state.returns result → result = folded init map reduce data ∧
        state.results.taken.Perm (List.range data.length)) ∧
      events.length ≤ data.length + 1 + max 1 (4 * data.length - 2) ∧
      ((∀ result, ¬state.returns result) →
        ∃ event next, state.step parallelism init map reduce event = some next) := by
  have first : Sound init map reduce data (start data) := sound_start
  rcases first.run ran with ⟨sound, bounded⟩
  have size : (start data : MapReduce T Res).remaining ≤
      data.length + 1 + max 1 (4 * data.length - 2) := by
    have some := (start data : MapReduce T Res).results.jobs.countP_le_length
      (p := fun job => job.inner.isSome)
    have length : (start data : MapReduce T Res).results.jobs.length = data.length :=
      List.length_map ..
    rw [length] at some
    simp only [remaining, start] at some length ⊢
    omega
  refine ⟨?_, ?_, ?_, by omega, sound.exists_step⟩
  · intro reduction reduces
    cases sound with
    | mapping waits => rw [waits] at reduces; cases reduces
    | reducing same reducesSame answer holds shared =>
        rw [reduces, Option.some.injEq] at reducesSame
        exact Reduction.unharmed_of_answer (reducesSame ▸ answer)
  · cases sound with
    | mapping waits untaken length maps =>
        rw [untaken]
        exact List.nodup_nil
    | reducing reduction reduces answer holds shared =>
        exact (List.nodup_append.mp (shared.nodup_iff.mpr List.nodup_range)).1
  · intro result returned
    cases sound with
    | mapping waits =>
        rw [returns, waits] at returned
        cases returned
    | reducing reduction reduces answer holds shared =>
        rw [returns, reduces, Option.some.injEq] at returned
        subst returned
        rw [Reduction.claims, List.append_nil] at shared
        rw [Reduction.answer, Option.some.injEq] at answer
        exact ⟨answer, shared⟩

/-- Three lists are joined: the right half runs first. -/
theorem run_folded_sample :
    ∃ state : MapReduce Nat (List Nat),
      (start [1, 2, 3]).run 2 (fun _ => []) (fun input => [input]) List.append
        [.map 1, .map 0, .map 2, .waited, .reduce [], .reduce [.rhs], .reduce [.rhs],
          .reduce [.lhs], .reduce [.rhs], .reduce []] = some state ∧
      state.returns (folded (fun _ => []) (fun input => [input]) List.append [1, 2, 3]) := by
  have associative : Std.Associative (List.append : List Nat → List Nat → List Nat) :=
    ⟨List.append_assoc⟩
  obtain ⟨state, ran, returned⟩ : ∃ state : MapReduce Nat (List Nat),
      (start [1, 2, 3]).run 2 (fun _ => []) (fun input => [input]) List.append
        [.map 1, .map 0, .map 2, .waited, .reduce [], .reduce [.rhs], .reduce [.rhs],
          .reduce [.lhs], .reduce [.rhs], .reduce []] = some state ∧
      state.returns [1, 2, 3] := ⟨_, rfl, rfl⟩
  have spec := run_folded _ _ _ [1, 2, 3] 2 _ state ran
  exact ⟨state, ran, (spec.2.2.1 _ returned).1 ▸ returned⟩

end MapReduce

end JobSystem

end Cecs

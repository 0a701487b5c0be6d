import Cecs.Foundation.Reaching
import Cecs.JobSystem.ExecutorSound
import Mathlib.Algebra.Ring.Nat

/-! # The end of `run_graph`

Whatever the threads have done so far, the caller can still reach the end of its wait. A
turn of a job, a decrement, a promotion or a steal by the caller brings it closer. -/

namespace Cecs

namespace JobSystem

open Foundation

namespace Pool

/-- What the loop of `run_graph` has to do. -/
def enqueuing (self : Pool) : Nat :=
  (self.atHand.elim 0 fun entry => entry.2.elim 2 fun _ => 1) +
    self.rest.elim 0 fun others => 3 * (others.1.length + 1)

/-- The decrements of jobs that are done, and their ends. -/
def releasing (self : Pool) : Nat :=
  (self.executing.flatten.map fun execution =>
    execution.left.elim 0 fun left => left.length + 1).sum

/-- The jobs that the caller cannot take from its queue. -/
def elsewhere (self : Pool) : Nat :=
  self.waitLists.flatten.length + (self.runnableQueues.set self.caller []).flatten.length

section Measure

variable {T : Type} {graph : HomogeneousJobGraph T} {events more : List PoolEvent}
  {pool next : Pool}

theorem Tracks.pendingIds_perm (tracks : Tracks graph events pool)
    (tracksNext : Tracks graph more next) (same : doneIds more = doneIds events) :
    next.pendingIds.Perm pool.pendingIds := by
  have before := tracks.accounted
  have after := tracksNext.accounted
  rw [same] at after
  exact (List.perm_append_right_iff _).mp (after.trans before.symm)

theorem Tracks.pendingIds_done (tracks : Tracks graph events pool)
    (tracksNext : Tracks graph more next) {job : Todos}
    (done : doneIds more = doneIds events ++ [job]) :
    pool.pendingIds.Perm (job :: next.pendingIds) := by
  have before := tracks.accounted
  have after := tracksNext.accounted
  rw [done] at after
  have moved : (next.pendingIds ++ (doneIds events ++ [job])).Perm
      (job :: next.pendingIds ++ doneIds events) := by
    rw [← List.append_assoc]
    exact List.perm_append_singleton _ _
  exact (List.perm_append_right_iff _).mp (before.trans (after.symm.trans moved))

theorem Tracks.nodup_pendingIds (tracks : Tracks graph events pool) : pool.pendingIds.Nodup :=
  (List.nodup_append.mp (tracks.accounted.nodup_iff.mpr List.nodup_range)).1

end Measure

end Pool

namespace Executors

/-- The turns that the jobs still have. -/
def turnsLeft (self : Executors) : Nat :=
  (self.pool.pendingIds.map fun job => self.again job + 1).sum

def distance (self : Executors) : Nat × Nat :=
  (self.pool.enqueuing + self.turnsLeft, self.pool.releasing + self.pool.elsewhere)

/-- Fewer turns and pushes, or as many and the jobs are closer. -/
abbrev Closer : Nat × Nat → Nat × Nat → Prop := Prod.Lex (· < ·) (· < ·)

section Steps

variable {T : Type} {graph : HomogeneousJobGraph T} {workers caller : Nat}
  {start : Todos → Nat} {self next : Executors} {event : ExecutorEvent}

structure Sound (graph : HomogeneousJobGraph T) (workers caller : Nat)
    (start : Todos → Nat) (state : Executors) : Prop where
  shaped : state.Shaped
  follows : ∃ poolEvents, Follows graph workers caller start poolEvents state

theorem Sound.step (sound : Sound graph workers caller start self) (acyclic : graph.Acyclic)
    (stepped : self.step event = some next) : Sound graph workers caller start next := by
  rcases sound.follows with ⟨poolEvents, follows⟩
  rcases follows.step acyclic stepped with ⟨more, followsNext, _⟩
  exact ⟨sound.shaped.step stepped, _, followsNext⟩

theorem Sound.run (sound : Sound graph workers caller start self) (acyclic : graph.Acyclic)
    {events : List ExecutorEvent} (ran : events.foldlM Executors.step self = some next) :
    Sound graph workers caller start next :=
  foldlM_preserves (Sound graph workers caller start)
    (fun sound stepped => sound.step acyclic stepped) sound ran

theorem control_runGraph {thread : Nat} {control : Control}
    (found : (runGraph graph workers caller start).controls[thread]? = some control) :
    control = .waits ∨ control = .starts := by
  rcases List.mem_or_eq_of_mem_set (List.mem_of_getElem? found) with member | same
  · exact Or.inr (List.eq_of_mem_replicate member)
  · exact Or.inl same

theorem shaped_runGraph (inRange : caller ≤ workers) :
    (runGraph graph workers caller start).Shaped := by
  have inControls : caller < workers + 1 := Nat.lt_succ_of_le inRange
  constructor
  · simpa [runGraph, Pool.runGraph] using inControls
  · simp [runGraph, Pool.runGraph]
  · simp [runGraph, Pool.runGraph]
  · simp [runGraph, Pool.runGraph]
  · simp [runGraph]
  · simp [runGraph]
  · intro thread stack found
    have empty : stack = [] := List.eq_of_mem_replicate (List.mem_of_getElem? found)
    rw [empty, Runs, if_neg]
    intro executes
    rcases control_runGraph executes with same | same <;> cases same
  · intro thread waitList found _
    exact List.eq_of_mem_replicate (List.mem_of_getElem? found)
  · intro thread left waitList promotes
    rcases control_runGraph promotes with same | same <;> cases same
  · intro _
    apply List.getElem?_set_self
    rw [List.length_replicate]
    exact inControls

theorem follows_runGraph : Follows graph workers caller start []
    (runGraph graph workers caller start) where
  ran := rfl
  handle := rfl
  done job member := by simp [doneIds] at member
  waiting job _ := by simp [runGraph, answersOf]

theorem sound_runGraph (inRange : caller ≤ workers) :
    Sound graph workers caller start (runGraph graph workers caller start) where
  shaped := shaped_runGraph inRange
  follows := ⟨[], follows_runGraph⟩

end Steps

section Decrease

variable {T : Type} {graph : HomogeneousJobGraph T} {workers caller : Nat}
  {start : Todos → Nat} {self next : Executors} {event : ExecutorEvent}

theorem sum_map_update {jobs : List Todos} {job : Todos} (again : Todos → Nat)
    (absent : job ∉ jobs) (left : Nat) :
    (jobs.map fun other => Function.update again job left other + 1).sum =
      (jobs.map fun other => again other + 1).sum := by
  congr 1
  apply List.map_congr_left
  intro other member
  have different : other ≠ job := by
    rintro rfl
    exact absent member
  rw [Function.update_of_ne different]

/-- A job that is executed has a turn less. -/
theorem Sound.turnsLeft_execute (sound : Sound graph workers caller start self)
    (acyclic : graph.Acyclic) (executes : Executes event self next) :
    next.turnsLeft < self.turnsLeft := by
  rcases sound.follows with ⟨events, follows⟩
  have tracks := Pool.tracks_run acyclic follows.ran
  rcases executes with ⟨thread, job, rfl, _, poolStepped, again⟩
  have tracksNext := tracks.step acyclic poolStepped
  have pending := (follows.answers acyclic poolStepped).1
  cases turns : self.again job with
  | zero =>
      rw [turns] at tracksNext
      have perm := tracks.pendingIds_done tracksNext (Pool.doneIds_append _ _)
      have absent := (List.nodup_cons.mp (perm.nodup_iff.mp tracks.nodup_pendingIds)).1
      rw [turnsLeft, turnsLeft, (perm.map _).sum_eq, again, sum_map_update _ absent,
        List.map_cons, List.sum_cons, turns]
      omega
  | succ left =>
      rw [turns] at tracksNext
      have quiet : doneIds (events ++ [.answer thread job .Reenqueue]) = doneIds events := by
        rw [Pool.doneIds_append]
        exact List.append_nil _
      have perm := tracks.pendingIds_perm tracksNext quiet
      have split := List.perm_cons_erase pending
      have absent := (List.nodup_cons.mp (split.nodup_iff.mp tracks.nodup_pendingIds)).1
      rw [turnsLeft, turnsLeft, ((perm.trans split).map _).sum_eq, (split.map _).sum_eq, again,
        List.map_cons, List.sum_cons, List.map_cons, List.sum_cons, sum_map_update _ absent,
        Function.update_self, turns]
      omega

/-- Otherwise all jobs have as many turns as before. -/
theorem Sound.turnsLeft_quiet (sound : Sound graph workers caller start self)
    (acyclic : graph.Acyclic) (quiet : Quiet event self next) :
    next.turnsLeft = self.turnsLeft := by
  rcases sound.follows with ⟨events, follows⟩
  have tracks := Pool.tracks_run acyclic follows.ran
  rcases quiet with ⟨_, _, again, same | ⟨poolEvent, poolStepped, noAnswer⟩⟩
  · rw [turnsLeft, turnsLeft, same, again]
  · have perm := tracks.pendingIds_perm (tracks.step acyclic poolStepped)
      (doneIds_of_answered noAnswer)
    rw [turnsLeft, turnsLeft, again]
    exact (perm.map _).sum_eq

theorem Sound.turnsLeft_step (sound : Sound graph workers caller start self)
    (acyclic : graph.Acyclic) (stepped : self.step event = some next) :
    ((∀ thread, event ≠ .execute thread) → next.turnsLeft = self.turnsLeft) ∧
      ∀ thread, event = .execute thread → next.turnsLeft < self.turnsLeft := by
  rcases (acts_step stepped).pool with quiet | executes
  · exact ⟨fun _ => sound.turnsLeft_quiet acyclic quiet,
      fun thread executed => absurd executed (quiet.2.1 thread)⟩
  · have less := sound.turnsLeft_execute acyclic executes
    rcases executes with ⟨thread, _, rfl, _⟩
    exact ⟨fun other => absurd rfl (other thread), fun _ _ => less⟩

/-- A step but `execute`, of one who is not in the loop of `run_graph`. -/
theorem Sound.closer (sound : Sound graph workers caller start self) (acyclic : graph.Acyclic)
    (stepped : self.step event = some next) (notExecuted : ∀ thread, event ≠ .execute thread)
    (atHand : next.pool.atHand = self.pool.atHand) (rest : next.pool.rest = self.pool.rest)
    (nearer : next.pool.releasing + next.pool.elsewhere <
      self.pool.releasing + self.pool.elsewhere) : Closer next.distance self.distance := by
  have turns := (sound.turnsLeft_step acyclic stepped).1 notExecuted
  have enqueuing : next.pool.enqueuing = self.pool.enqueuing := by
    rw [Pool.enqueuing, Pool.enqueuing, atHand, rest]
  rw [distance, distance, enqueuing, turns]
  exact .right _ nearer

/-- The caller goes on in the loop of `run_graph`. -/
theorem Sound.enqueues (sound : Sound graph workers caller start self) (acyclic : graph.Acyclic)
    (active : self.pool.atHand.isSome ∨ self.pool.rest.isSome) :
    ∃ event next, self.step event = some next ∧ Closer next.distance self.distance := by
  have shaped := sound.shaped
  obtain ⟨poolEvent, enqueues, pool, stepped, less⟩ : ∃ poolEvent : PoolEvent,
      poolEvent.enqueues = true ∧ ∃ pool, self.pool.step poolEvent = some pool ∧
        pool.enqueuing < self.pool.enqueuing := by
    cases atHand : self.pool.atHand with
    | none =>
        rw [atHand] at active
        rcases Option.isSome_iff_exists.mp (active.resolve_left (by simp)) with ⟨⟨jobs, root⟩, rest⟩
        cases jobs with
        | nil =>
            refine ⟨.takeRoot, rfl, _, by rw [Pool.step, Pool.takeRoot, atHand, rest], ?_⟩
            simp [Pool.enqueuing, atHand, rest]
        | cons job jobs =>
            refine ⟨.addChild, rfl, _, by rw [Pool.step, Pool.addChild, atHand, rest], ?_⟩
            simp [Pool.enqueuing, atHand, rest]
            omega
    | some entry =>
        rcases entry with ⟨job, _ | ready⟩
        · refine ⟨.checkReady, rfl, _, by rw [Pool.step, Pool.checkReady, atHand], ?_⟩
          simp [Pool.enqueuing, atHand]
        · have queue : self.pool.caller < self.pool.runnableQueues.length :=
            shaped.queues ▸ shaped.caller
          have waitList : self.pool.caller < self.pool.waitLists.length :=
            shaped.waitLists ▸ shaped.caller
          cases ready with
          | true =>
              have pushed : self.pool.step .push = some ({ self.pool with atHand := none }.setQueue
                  self.pool.caller (self.pool.runnableQueues[self.pool.caller] ++ [job])) := by
                simp [Pool.step, Pool.push, atHand, Pool.pushRunnable, queue]
              refine ⟨.push, rfl, _, pushed, ?_⟩
              simp [Pool.enqueuing, Pool.setQueue, atHand]
          | false =>
              have pushed : self.pool.step .push = some
                  ({ self.pool with atHand := none }.setWaitList self.pool.caller
                    (self.pool.waitLists[self.pool.caller] ++ [job])) := by
                simp [Pool.step, Pool.push, atHand, Pool.pushWaiting, waitList]
              refine ⟨.push, rfl, _, pushed, ?_⟩
              simp [Pool.enqueuing, Pool.setWaitList, atHand]
  have steps : self.step (.enqueue poolEvent) = some { self with pool } := by
    simp [Executors.step, enqueue, enqueues, stepped]
  have turns := (sound.turnsLeft_step acyclic steps).1 (by simp)
  refine ⟨_, _, steps, .left _ _ ?_⟩
  rw [turns]
  exact Nat.add_lt_add_right less _

theorem releasing_setStack {execution : Execution} {thread : Nat} {pool : Pool}
    (found : pool.executing[thread]? = some [execution]) (stack : List Execution) :
    (pool.setStack thread stack).releasing + execution.left.elim 0 (fun left => left.length + 1) =
      pool.releasing + (stack.map fun execution =>
        execution.left.elim 0 fun left => left.length + 1).sum := by
  have moved := ((flatten_set_perm found stack).map fun execution =>
    execution.left.elim 0 fun left => left.length + 1).sum_eq
  simpa [Pool.releasing, Pool.setStack] using moved

/-- A thread that runs a job goes on. -/
theorem Sound.executes (sound : Sound graph workers caller start self) (acyclic : graph.Acyclic)
    {thread : Nat} {execution : Execution}
    (control : self.controls[thread]? = some .executes)
    (found : self.pool.executing[thread]? = some [execution]) :
    ∃ event next, self.step event = some next ∧ Closer next.distance self.distance := by
  have shaped := sound.shaped
  rcases execution with ⟨job, _ | left⟩
  · obtain ⟨pool, answered⟩ : ∃ pool, self.pool.answer thread job.tasksLeft
        (answerOf (self.again job.tasksLeft)) = some pool := by
      cases answerOf (self.again job.tasksLeft) with
      | Done => exact ⟨_, by simp [Pool.answer, found]; rfl⟩
      | Reenqueue =>
          have queue : thread < self.pool.runnableQueues.length := by
            rw [shaped.queues]
            exact (List.getElem?_eq_some_iff.mp control).1
          exact ⟨_, by simp [Pool.answer, found, Pool.pushRunnable, Pool.setStack, queue]; rfl⟩
    have same : pool.enqueuing = self.pool.enqueuing := by
      rcases Pool.answer_eq answered with ⟨_, _, _, _, ⟨_, rfl⟩ | ⟨_, _, _, rfl⟩⟩ <;> rfl
    obtain ⟨next, steps, after⟩ : ∃ next, self.step (.execute thread) = some next ∧
        next.pool = pool := by
      simp only [Executors.step, execute, control, found, Option.bind_eq_bind, guard_true,
        Option.bind_some, answered]
      cases answerOf (self.again job.tasksLeft) with
      | Done => exact ⟨_, rfl, rfl⟩
      | Reenqueue => exact ⟨_, rfl, rfl⟩
    have turns := (sound.turnsLeft_step acyclic steps).2 thread rfl
    refine ⟨_, next, steps, .left _ _ ?_⟩
    rw [after, same]
    exact Nat.add_lt_add_left turns _
  · cases left with
    | nil =>
        have steps : self.step (.finish thread) = some ({ self with
            pool := { self.pool.setStack thread [] with
              counters := fetchSub self.pool.counters job.tasksLeft } }.resume thread) := by
          simp [Executors.step, finish, control, Pool.finish, found]
        refine ⟨_, _, steps, sound.closer acyclic steps (by simp) rfl rfl ?_⟩
        have less := releasing_setStack found []
        simp only [Option.elim_some, List.length_nil, List.map_nil, List.sum_nil] at less
        change (self.pool.setStack thread []).releasing + self.pool.elsewhere < _
        omega
    | cons dep left =>
        have steps : self.step (.release thread) = some { self with
            pool := { self.pool.setStack thread [⟨job, some left⟩] with
              counters := fetchSub self.pool.counters dep } } := by
          simp [Executors.step, release, control, Pool.release, found]
        refine ⟨_, _, steps, sound.closer acyclic steps (by simp) rfl rfl ?_⟩
        have less := releasing_setStack found [⟨job, some left⟩]
        simp only [Option.elim_some, List.length_cons, List.map_cons, List.map_nil,
          List.sum_cons, List.sum_nil] at less
        change (self.pool.setStack thread [⟨job, some left⟩]).releasing + self.pool.elsewhere < _
        omega

end Decrease

section Alone

variable {T : Type} {graph : HomogeneousJobGraph T} {workers caller : Nat}
  {start : Todos → Nat} {self next : Executors} {event : ExecutorEvent}

/-- The caller has returned, or is closer to it. -/
def Nears (graph : HomogeneousJobGraph T) (workers caller : Nat) (start : Todos → Nat)
    (before state : Executors) : Prop :=
  state.controls[state.pool.caller]? = some .returned ∨
    Sound graph workers caller start state ∧ Closer state.distance before.distance

/-- The caller has looked around. -/
structure Looked (graph : HomogeneousJobGraph T) (workers caller : Nat)
    (start : Todos → Nat) (before state : Executors) : Prop where
  sound : Sound graph workers caller start state
  pool : state.pool = before.pool
  again : state.again = before.again

theorem Looked.distance (looked : Looked graph workers caller start self next) :
    next.distance = self.distance := by
  rw [Executors.distance, Executors.distance, turnsLeft, turnsLeft, looked.pool, looked.again]

theorem Looked.trans {last : Executors} (looked : Looked graph workers caller start self next)
    (further : Looked graph workers caller start next last) :
    Looked graph workers caller start self last :=
  ⟨further.sound, further.pool.trans looked.pool, further.again.trans looked.again⟩

theorem Looked.nears {last : Executors} (looked : Looked graph workers caller start self next)
    (nears : Nears graph workers caller start next last) :
    Nears graph workers caller start self last := by
  rw [Nears, ← looked.distance]
  exact nears

/-- A job that is stolen is in the caller's queue. -/
theorem steal_some {stealId : Nat} {queue others : List Job} {job : Job}
    (different : self.pool.caller ≠ stealId)
    (found : self.pool.runnableQueues[self.pool.caller]? = some queue)
    (foundVictim : self.pool.runnableQueues[stealId]? = some (job :: others)) :
    ∃ pool, self.pool.steal self.pool.caller stealId 1 = some pool ∧
      pool.atHand = self.pool.atHand ∧ pool.rest = self.pool.rest ∧
      pool.releasing = self.pool.releasing ∧ pool.elsewhere < self.pool.elsewhere := by
  have stolen : self.pool.steal self.pool.caller stealId 1 =
      some ((self.pool.setQueue stealId others).setQueue self.pool.caller (queue ++ [job])) := by
    simp [Pool.steal, different, found, foundVictim]
  refine ⟨_, stolen, rfl, rfl, rfl, ?_⟩
  have kept : (self.pool.runnableQueues.set self.pool.caller [])[stealId]? =
      some (job :: others) := by
    rw [List.getElem?_set_ne different, foundVictim]
  have moved := (flatten_set_perm kept others).length_eq
  rw [List.length_append, List.length_append, List.length_cons] at moved
  simp only [Pool.elsewhere, Pool.setQueue, List.set_set]
  rw [List.set_comm _ _ different.symm]
  omega

/-- The rounds of the loop over the other queues: something is found, or those that were looked
at are empty. -/
theorem Sound.stealLoop (sound : Sound graph workers caller start self) (acyclic : graph.Acyclic)
    {left stealId : Nat} {retry : Bool}
    (control : self.controls[self.pool.caller]? = some (.steals left retry))
    (id : self.stealIds[self.pool.caller]? = some stealId) :
    Reaches Executors.step self fun next => Nears graph workers caller start self next ∨
      Looked graph workers caller start self next ∧
        next.controls[self.pool.caller]? = some (.steals 0 retry) ∧
        ∀ round < left, (stealId + round) % self.pool.runnableQueues.length = self.pool.caller ∨
          self.pool.runnableQueues[(stealId + round) % self.pool.runnableQueues.length]? =
            some [] := by
  induction left generalizing self stealId with
  | zero =>
      exact .here (Or.inr ⟨⟨sound, rfl, rfl⟩, control, fun round impossible =>
        absurd impossible (Nat.not_lt_zero round)⟩)
  | succ left induction =>
      have shaped := sound.shaped
      have small : stealId < self.pool.runnableQueues.length := by
        rw [shaped.queues]
        exact shaped.inRange stealId (List.mem_of_getElem? id)
      have first : (stealId + 0) % self.pool.runnableQueues.length = stealId :=
        Nat.mod_eq_of_lt small
      -- A round that finds nothing.
      have goOn : ∀ event, self.step event =
          some (self.nextId self.pool.caller stealId left retry) →
          (stealId = self.pool.caller ∨ self.pool.runnableQueues[stealId]? = some []) →
          Reaches Executors.step self fun next => Nears graph workers caller start self next ∨
            Looked graph workers caller start self next ∧
              next.controls[self.pool.caller]? = some (.steals 0 retry) ∧
              ∀ round < left + 1,
                (stealId + round) % self.pool.runnableQueues.length = self.pool.caller ∨
                self.pool.runnableQueues[(stealId + round) % self.pool.runnableQueues.length]? =
                  some [] := by
        intro event steps nothing
        have soundNext := sound.step acyclic steps
        have looked : Looked graph workers caller start self
            (self.nextId self.pool.caller stealId left retry) := ⟨soundNext, rfl, rfl⟩
        apply Reaches.next steps
        apply (induction soundNext (List.getElem?_set_self shaped.caller)
          (List.getElem?_set_self (shaped.stealIds ▸ shaped.caller))).mono
        intro last reached
        rcases reached with nears | ⟨again, ended, empty⟩
        · exact Or.inl (looked.nears nears)
        · refine Or.inr ⟨looked.trans again, ended, ?_⟩
          intro round inRange
          cases round with
          | zero =>
              rw [first]
              exact nothing
          | succ round =>
              have later := empty round (Nat.lt_of_succ_lt_succ inRange)
              have position : (stealId + (round + 1)) % self.pool.runnableQueues.length =
                  ((stealId + 1) % self.pool.runnableQueues.length + round) %
                    self.pool.runnableQueues.length := by
                rw [Nat.mod_add_mod]
                congr 1
                omega
              rw [position]
              exact later
      by_cases own : stealId = self.pool.caller
      · apply goOn (.skip self.pool.caller) _ (Or.inl own)
        simp [Executors.step, skip, control, id, own]
      · have foundVictim := List.getElem?_eq_getElem small
        cases victim : self.pool.runnableQueues[stealId] with
        | nil =>
            rw [victim] at foundVictim
            apply goOn (.steal self.pool.caller .Empty) _ (Or.inr foundVictim)
            simp [Executors.step, steal, control, id, own, foundVictim]
        | cons job others =>
            rw [victim] at foundVictim
            have inQueues : self.pool.caller < self.pool.runnableQueues.length :=
              shaped.queues ▸ shaped.caller
            rcases steal_some (Ne.symm own) (List.getElem?_eq_getElem inQueues) foundVictim with
              ⟨pool, stolen, atHand, rest, releasing, less⟩
            have steps : self.step (.steal self.pool.caller (.Success 1)) =
                some ({ self with pool }.resume self.pool.caller) := by
              simp [Executors.step, steal, control, id, own, foundVictim, stolen]
            refine .next steps (.here (Or.inl (Or.inr ⟨sound.step acyclic steps, ?_⟩)))
            apply sound.closer acyclic steps (by simp) atHand rest
            change pool.releasing + pool.elsewhere < _
            omega

/-- A job that is promoted is in the caller's queue. -/
theorem promote_some {position : Nat} {queue waitList : List Job} {job : Job}
    (found : self.pool.runnableQueues[self.pool.caller]? = some queue)
    (foundList : self.pool.waitLists[self.pool.caller]? = some waitList)
    (inList : waitList[position]? = some job) (ready : job.ready self.pool.counters = true) :
    ∃ pool, self.pool.promote self.pool.caller position = some pool ∧
      pool.atHand = self.pool.atHand ∧ pool.rest = self.pool.rest ∧
      pool.releasing = self.pool.releasing ∧ pool.elsewhere < self.pool.elsewhere := by
  have promoted : self.pool.promote self.pool.caller position =
      some ((self.pool.setWaitList self.pool.caller (swapRemove waitList position)).setQueue
        self.pool.caller (queue ++ [job])) := by
    simp [Pool.promote, foundList, inList, ready, Pool.pushRunnable, Pool.setWaitList, found]
  refine ⟨_, promoted, rfl, rfl, rfl, ?_⟩
  have moved := (flatten_set_perm foundList (swapRemove waitList position)).length_eq
  have removed := (perm_swapRemove inList).length_eq
  rw [List.length_append, List.length_append] at moved
  rw [List.length_cons] at removed
  simp only [Pool.elsewhere, Pool.setQueue, Pool.setWaitList, List.set_set]
  omega

/-- The rounds of the loop over the wait list: a job is promoted, or none of those that were
looked at is ready. -/
theorem Sound.promoteLoop (sound : Sound graph workers caller start self)
    (acyclic : graph.Acyclic) {left : Nat} {waitList : List Job}
    (control : self.controls[self.pool.caller]? = some (.promotes left))
    (found : self.pool.waitLists[self.pool.caller]? = some waitList) :
    Reaches Executors.step self fun next => Nears graph workers caller start self next ∨
      Looked graph workers caller start self next ∧
        next.controls[self.pool.caller]? = some .waits ∧
        ∀ position < left, ∀ job, waitList[position]? = some job →
          job.ready self.pool.counters = false := by
  induction left generalizing self with
  | zero =>
      have steps : self.step (.promoteEnds self.pool.caller) =
          some (self.resume self.pool.caller) := by
        simp [Executors.step, promoteEnds, control]
      refine .next steps (.here (Or.inr ⟨⟨sound.step acyclic steps, rfl, rfl⟩, ?_, ?_⟩))
      · have waits := List.getElem?_set_self (a := Control.waits) sound.shaped.caller
        simpa [resume, setControl] using waits
      · exact fun position impossible => absurd impossible (Nat.not_lt_zero position)
  | succ left induction =>
      have shaped := sound.shaped
      have bound := shaped.promotes _ _ waitList control found
      have inList := List.getElem?_eq_getElem (Nat.lt_of_succ_le bound)
      cases ready : waitList[left].ready self.pool.counters with
      | true =>
          have inQueues : self.pool.caller < self.pool.runnableQueues.length :=
            shaped.queues ▸ shaped.caller
          rcases promote_some (List.getElem?_eq_getElem inQueues) found inList ready with
            ⟨pool, promoted, atHand, rest, releasing, less⟩
          have steps : self.step (.promote self.pool.caller) =
              some ({ self with pool }.setControl self.pool.caller (.promotes left)) := by
            simp [Executors.step, promote, control, promoted]
          refine .next steps (.here (Or.inl (Or.inr ⟨sound.step acyclic steps, ?_⟩)))
          apply sound.closer acyclic steps (by simp) atHand rest
          change pool.releasing + pool.elsewhere < _
          omega
      | false =>
          have same : self.pool.promote self.pool.caller left = some self.pool := by
            simp [Pool.promote, found, inList, ready]
          have steps : self.step (.promote self.pool.caller) =
              some (self.setControl self.pool.caller (.promotes left)) := by
            simp [Executors.step, promote, control, same]
          have soundNext := sound.step acyclic steps
          have looked : Looked graph workers caller start self
              (self.setControl self.pool.caller (.promotes left)) := ⟨soundNext, rfl, rfl⟩
          apply Reaches.next steps
          apply (induction soundNext (List.getElem?_set_self shaped.caller) found).mono
          intro last reached
          rcases reached with nears | ⟨again, waits, notReady⟩
          · exact Or.inl (looked.nears nears)
          · refine Or.inr ⟨looked.trans again, waits, ?_⟩
            intro position inRange job foundJob
            rcases Nat.lt_succ_iff_lt_or_eq.mp inRange with earlier | rfl
            · exact notReady position earlier job foundJob
            · cases inList.symm.trans foundJob
              exact ready

/-- The loop over the queues, and then the one over the wait list. -/
theorem Sound.search (sound : Sound graph workers caller start self) (acyclic : graph.Acyclic)
    {left stealId : Nat}
    (control : self.controls[self.pool.caller]? = some (.steals left false))
    (id : self.stealIds[self.pool.caller]? = some stealId) :
    Reaches Executors.step self fun next => Nears graph workers caller start self next ∨
      Looked graph workers caller start self next ∧
        next.controls[self.pool.caller]? = some .waits ∧
        (∀ round < left, (stealId + round) % self.pool.runnableQueues.length = self.pool.caller ∨
          self.pool.runnableQueues[(stealId + round) % self.pool.runnableQueues.length]? =
            some []) ∧
        ∀ waitList, self.pool.waitLists[self.pool.caller]? = some waitList →
          ∀ job ∈ waitList, job.ready self.pool.counters = false := by
  apply (sound.stealLoop acyclic control id).trans
  intro middle reached
  rcases reached with nears | ⟨looked, ended, empty⟩
  · exact .here (Or.inl nears)
  · obtain ⟨waitList, found⟩ : ∃ waitList,
        self.pool.waitLists[self.pool.caller]? = some waitList :=
      ⟨_, List.getElem?_eq_getElem (sound.shaped.waitLists ▸ sound.shaped.caller)⟩
    rw [← looked.pool] at found ended
    have steps : middle.step (.stealEnds middle.pool.caller) =
        some (middle.setControl middle.pool.caller (.promotes waitList.length)) := by
      simp [Executors.step, stealEnds, ended, found]
    have soundNext := looked.sound.step acyclic steps
    have lookedNext : Looked graph workers caller start self
        (middle.setControl middle.pool.caller (.promotes waitList.length)) :=
      ⟨soundNext, looked.pool, looked.again⟩
    apply Reaches.next steps
    apply (soundNext.promoteLoop acyclic (List.getElem?_set_self looked.sound.shaped.caller)
      found).mono
    intro last reachedLast
    rcases reachedLast with nears | ⟨again, waits, notReady⟩
    · exact Or.inl (lookedNext.nears nears)
    · refine Or.inr ⟨lookedNext.trans again, ?_, empty, ?_⟩
      · rw [← looked.pool]
        exact waits
      · intro other foundList job member
        rw [← looked.pool] at foundList
        cases found.symm.trans foundList
        rcases List.mem_iff_getElem?.mp member with ⟨position, atPosition⟩
        have inRange := (List.getElem?_eq_some_iff.mp atPosition).1
        have later := notReady position inRange job atPosition
        rw [← looked.pool]
        exact later

/-- The rounds of the loop come to all queues. -/
theorem all_empty {queues : List (List Job)} {stealId own : Nat} (small : stealId < queues.length)
    (found : queues[own]? = some []) (empty : ∀ round < queues.length,
      (stealId + round) % queues.length = own ∨
        queues[(stealId + round) % queues.length]? = some []) :
    ∀ queue ∈ queues, queue = [] := by
  intro queue member
  rcases List.mem_iff_getElem?.mp member with ⟨position, atPosition⟩
  have inRange := (List.getElem?_eq_some_iff.mp atPosition).1
  obtain ⟨round, bound, reached⟩ : ∃ round < queues.length,
      (stealId + round) % queues.length = position := by
    rcases Nat.lt_or_ge position stealId with before | after
    · refine ⟨position + queues.length - stealId, by omega, ?_⟩
      have around : stealId + (position + queues.length - stealId) =
          position + queues.length := by omega
      rw [around, Nat.add_mod_right, Nat.mod_eq_of_lt inRange]
    · refine ⟨position - stealId, by omega, ?_⟩
      rw [Nat.add_sub_cancel' after, Nat.mod_eq_of_lt inRange]
  have visited := empty round bound
  rw [reached] at visited
  rcases visited with rfl | nothing
  · exact Option.some.inj (atPosition.symm.trans found)
  · exact Option.some.inj (atPosition.symm.trans nothing)

/-- `run_once` of the caller: it comes closer, or there is nothing for it anywhere. -/
theorem Sound.runOnce (sound : Sound graph workers caller start self) (acyclic : graph.Acyclic)
    (control : self.controls[self.pool.caller]? = some .starts) :
    Reaches Executors.step self fun next => Nears graph workers caller start self next ∨
      Looked graph workers caller start self next ∧
        next.controls[self.pool.caller]? = some .waits ∧
        (∀ queue ∈ self.pool.runnableQueues, queue = []) ∧
        ∀ waitList, self.pool.waitLists[self.pool.caller]? = some waitList →
          ∀ job ∈ waitList, job.ready self.pool.counters = false := by
  have shaped := sound.shaped
  have inQueues : self.pool.caller < self.pool.runnableQueues.length :=
    shaped.queues ▸ shaped.caller
  have found := List.getElem?_eq_getElem inQueues
  cases queue_eq : self.pool.runnableQueues[self.pool.caller] with
  | cons job queue =>
      rw [queue_eq] at found
      have inStacks : self.pool.caller < self.pool.executing.length :=
        shaped.executing ▸ shaped.caller
      have foundStack := List.getElem?_eq_getElem inStacks
      have empty := shaped.idle control (by simp) foundStack
      rw [empty] at foundStack
      have popped : self.pool.pop self.pool.caller job.tasksLeft =
          some ((self.pool.setQueue self.pool.caller queue).setStack self.pool.caller
            [job.idle]) := by
        simp [Pool.pop, found, foundStack]
      obtain ⟨next, steps, after, executes⟩ : ∃ next,
          self.step (.pop self.pool.caller) = some next ∧
            next.pool = (self.pool.setQueue self.pool.caller queue).setStack self.pool.caller
              [job.idle] ∧ next.controls[self.pool.caller]? = some .executes :=
        ⟨_, by simp [Executors.step, pop, control, found, popped]; rfl, rfl,
          List.getElem?_set_self shaped.caller⟩
      have soundNext := sound.step acyclic steps
      -- Only the next step, when the job answers, brings the caller closer.
      have same : next.distance = self.distance := by
        have turns := (sound.turnsLeft_step acyclic steps).1 (by simp)
        have releasing := ((flatten_set_perm foundStack [job.idle]).map fun execution =>
          execution.left.elim 0 fun left => left.length + 1).sum_eq
        have elsewhere : next.pool.elsewhere = self.pool.elsewhere := by
          simp [after, Pool.elsewhere, Pool.setQueue, Pool.setStack]
        have enqueuing : next.pool.enqueuing = self.pool.enqueuing := by
          rw [after]
          rfl
        have releases : next.pool.releasing = self.pool.releasing := by
          rw [after]
          simpa [Pool.releasing, Pool.setQueue, Pool.setStack, Job.idle] using releasing
        rw [distance, distance, turns, elsewhere, enqueuing, releases]
      have inExecuting : next.pool.executing[self.pool.caller]? = some [job.idle] := by
        rw [after]
        exact List.getElem?_set_self inStacks
      rcases soundNext.executes acyclic executes inExecuting with ⟨event, last, executed, closer⟩
      exact .next steps (.next executed (.here (Or.inl (Or.inr
        ⟨soundNext.step acyclic executed, same ▸ closer⟩))))
  | nil =>
      rw [queue_eq] at found
      have inStealIds : self.pool.caller < self.stealIds.length :=
        shaped.stealIds ▸ shaped.caller
      have steps : self.step (.pop self.pool.caller) = some (self.setControl self.pool.caller
          (.steals self.pool.runnableQueues.length false)) := by
        simp [Executors.step, pop, control, found]
      have soundNext := sound.step acyclic steps
      have looked : Looked graph workers caller start self (self.setControl self.pool.caller
          (.steals self.pool.runnableQueues.length false)) := ⟨soundNext, rfl, rfl⟩
      apply Reaches.next steps
      apply (soundNext.search acyclic (List.getElem?_set_self shaped.caller)
        (List.getElem?_eq_getElem inStealIds)).mono
      intro last reached
      rcases reached with nears | ⟨again, waits, empty, notReady⟩
      · exact Or.inl (looked.nears nears)
      · have small : self.stealIds[self.pool.caller] < self.pool.runnableQueues.length := by
          rw [shaped.queues]
          exact shaped.inRange _ (List.getElem_mem inStealIds)
        exact Or.inr ⟨looked.trans again, waits, all_empty small found empty, notReady⟩

/-- The caller's `run_once` returns, or it has come closer before. -/
theorem Sound.toTest (sound : Sound graph workers caller start self) (acyclic : graph.Acyclic)
    (notRunning : self.controls[self.pool.caller]? ≠ some .executes) :
    Reaches Executors.step self fun next => Nears graph workers caller start self next ∨
      Looked graph workers caller start self next ∧
        next.controls[self.pool.caller]? = some .waits := by
  have shaped := sound.shaped
  obtain ⟨stealId, id⟩ : ∃ stealId, self.stealIds[self.pool.caller]? = some stealId :=
    ⟨_, List.getElem?_eq_getElem (shaped.stealIds ▸ shaped.caller)⟩
  obtain ⟨control, found⟩ : ∃ control, self.controls[self.pool.caller]? = some control :=
    ⟨_, List.getElem?_eq_getElem shaped.caller⟩
  cases control with
  | waits => exact .here (Or.inr ⟨⟨sound, rfl, rfl⟩, found⟩)
  | starts =>
      apply (sound.runOnce acyclic found).mono
      intro next reached
      exact reached.imp_right fun looked => ⟨looked.1, looked.2.1⟩
  | executes => exact absurd found notRunning
  | returned => exact .here (Or.inl (Or.inl found))
  | steals left retry =>
      cases retry with
      | false =>
          apply (sound.search acyclic found id).mono
          intro next reached
          exact reached.imp_right fun looked => ⟨looked.1, looked.2.1⟩
      | true =>
          apply (sound.stealLoop acyclic found id).trans
          intro middle reached
          rcases reached with nears | ⟨looked, ended, _⟩
          · exact .here (Or.inl nears)
          · rw [← looked.pool] at ended
            have steps : middle.step (.stealEnds middle.pool.caller) =
                some (middle.setControl middle.pool.caller
                  (.steals middle.pool.runnableQueues.length false)) := by
              simp [Executors.step, stealEnds, ended]
            have soundNext := looked.sound.step acyclic steps
            have shapedMiddle := looked.sound.shaped
            obtain ⟨stealId, id⟩ : ∃ stealId,
                middle.stealIds[middle.pool.caller]? = some stealId :=
              ⟨_, List.getElem?_eq_getElem (shapedMiddle.stealIds ▸ shapedMiddle.caller)⟩
            have lookedNext : Looked graph workers caller start self (middle.setControl
                middle.pool.caller (.steals middle.pool.runnableQueues.length false)) :=
              ⟨soundNext, looked.pool, looked.again⟩
            apply Reaches.next steps
            apply (soundNext.search acyclic (List.getElem?_set_self shapedMiddle.caller) id).mono
            intro last reachedLast
            rcases reachedLast with nears | ⟨again, waits, _⟩
            · exact Or.inl (lookedNext.nears nears)
            · refine Or.inr ⟨lookedNext.trans again, ?_⟩
              rw [← looked.pool]
              exact waits
  | promotes left =>
      obtain ⟨waitList, foundList⟩ : ∃ waitList,
          self.pool.waitLists[self.pool.caller]? = some waitList :=
        ⟨_, List.getElem?_eq_getElem (shaped.waitLists ▸ shaped.caller)⟩
      apply (sound.promoteLoop acyclic found foundList).mono
      intro next reached
      exact reached.imp_right fun looked => ⟨looked.1, looked.2.1⟩

/-- At its test, with nobody running a job, the caller returns or finds something to do. -/
theorem Sound.fromTest (sound : Sound graph workers caller start self) (acyclic : graph.Acyclic)
    (control : self.controls[self.pool.caller]? = some .waits)
    (atHand : self.pool.atHand = none) (rest : self.pool.rest = none)
    (nobody : self.pool.executing.flatten = []) :
    Reaches Executors.step self (Nears graph workers caller start self) := by
  rcases sound.follows with ⟨events, follows⟩
  cases done : handleDone self.pool.counters self.handle with
  | true =>
      have steps : self.step .test = some (self.setControl self.pool.caller .returned) := by
        simp [Executors.step, test, control, atHand, rest, done]
      exact .next steps (.here (Or.inl (List.getElem?_set_self sound.shaped.caller)))
  | false =>
      have steps : self.step .test = some (self.setControl self.pool.caller .starts) := by
        simp [Executors.step, test, control, atHand, rest, done]
      have soundNext := sound.step acyclic steps
      have looked : Looked graph workers caller start self
          (self.setControl self.pool.caller .starts) := ⟨soundNext, rfl, rfl⟩
      apply Reaches.next steps
      apply (soundNext.runOnce acyclic (List.getElem?_set_self sound.shaped.caller)).mono
      intro last reached
      rcases reached with nears | ⟨_, _, empty, notReady⟩
      · exact looked.nears nears
      · exfalso
        have tracks := Pool.tracks_run acyclic follows.ran
        rw [follows.handle] at done
        rcases tracks.progress acyclic done with active | running | runnable |
          ⟨job, waiting, ready⟩
        · simp [atHand, rest] at active
        · exact running nobody
        · exact runnable (List.flatten_eq_nil_iff.mpr empty)
        · -- Jobs wait with the caller only.
          rcases List.mem_flatten.mp waiting with ⟨waitList, listed, member⟩
          rcases List.mem_iff_getElem?.mp listed with ⟨thread, found⟩
          by_cases own : thread = self.pool.caller
          · subst own
            have later : job.ready self.pool.counters = false :=
              notReady waitList found job member
            rw [ready] at later
            cases later
          · rw [sound.shaped.parked thread waitList found own] at member
            cases member

/-- From every state the caller comes closer, or returns. -/
theorem Sound.nears (sound : Sound graph workers caller start self) (acyclic : graph.Acyclic) :
    Reaches Executors.step self (Nears graph workers caller start self) := by
  have shaped := sound.shaped
  by_cases active : self.pool.atHand.isSome ∨ self.pool.rest.isSome
  · rcases sound.enqueues acyclic active with ⟨event, next, steps, closer⟩
    exact .next steps (.here (Or.inr ⟨sound.step acyclic steps, closer⟩))
  · simp only [not_or, Bool.not_eq_true, Option.isSome_eq_false_iff, Option.isNone_iff_eq_none]
      at active
    by_cases nobody : self.pool.executing.flatten = []
    · have notRunning : self.controls[self.pool.caller]? ≠ some .executes := by
        intro executes
        have found := List.getElem?_eq_getElem (shaped.executing ▸ shaped.caller)
        have runs := shaped.runs _ _ found
        rw [executes, Runs, if_pos rfl] at runs
        rcases runs with ⟨execution, single⟩
        have member := List.flatten_eq_nil_iff.mp nobody _ (List.mem_of_getElem? found)
        rw [single] at member
        cases member
      apply (sound.toTest acyclic notRunning).trans
      intro middle reached
      rcases reached with nears | ⟨looked, waits⟩
      · exact .here nears
      · rw [← looked.pool] at waits nobody active
        apply (looked.sound.fromTest acyclic waits active.1 active.2 nobody).mono
        exact fun last nears => looked.nears nears
    · rcases List.flatten_ne_nil_iff.mp nobody with ⟨stack, listed, nonempty⟩
      rcases List.mem_iff_getElem?.mp listed with ⟨thread, found⟩
      have runs := shaped.runs thread stack found
      rw [Runs] at runs
      split at runs
      · rename_i executes
        rcases runs with ⟨execution, rfl⟩
        rcases sound.executes acyclic executes found with ⟨event, next, steps, closer⟩
        exact .next steps (.here (Or.inr ⟨sound.step acyclic steps, closer⟩))
      · exact absurd runs nonempty

end Alone

section Returned

variable {T : Type} {graph : HomogeneousJobGraph T} {workers caller : Nat}
  {start : Todos → Nat} {self next : Executors} {event : ExecutorEvent}

/-- `run_graph` has returned. -/
def Returned (state : Executors) : Prop :=
  state.controls[state.pool.caller]? = some .returned

/-- The caller can return. -/
theorem Sound.reaches (sound : Sound graph workers caller start self) (acyclic : graph.Acyclic) :
    Reaches Executors.step self Returned := by
  have wellFounded : WellFounded Closer := WellFounded.prod_lex Nat.lt_wfRel.wf Nat.lt_wfRel.wf
  exact reaches_of_decreasing wellFounded distance
    (fun state sound => Sound.nears sound acyclic) self sound

theorem caller_step (stepped : self.step event = some next) :
    next.pool.caller = self.pool.caller := by
  have pools : ∀ poolEvent pool, self.pool.step poolEvent = some pool →
      pool.caller = self.pool.caller := by
    intro poolEvent pool poolStepped
    cases poolEvent with
    | pop thread job =>
        rcases Pool.pop_eq poolStepped with ⟨_, _, _, _, _, rfl⟩
        rfl
    | steal thread victim count =>
        rcases Pool.steal_eq poolStepped with ⟨_, _, _, _, _, rfl⟩
        rfl
    | promote thread position =>
        rcases Pool.promote_eq poolStepped with ⟨_, _, _, _, ⟨_, _, _, rfl⟩ | ⟨_, rfl⟩⟩ <;> rfl
    | answer thread job state =>
        rcases Pool.answer_eq poolStepped with ⟨_, _, _, _, ⟨_, rfl⟩ | ⟨_, _, _, rfl⟩⟩ <;> rfl
    | release thread =>
        rcases Pool.release_eq poolStepped with ⟨_, _, _, _, _, rfl⟩
        rfl
    | finish thread =>
        rcases Pool.finish_eq poolStepped with ⟨_, _, _, rfl⟩
        rfl
    | addChild => exact (Pool.local_enqueues rfl poolStepped).1.caller
    | takeRoot => exact (Pool.local_enqueues rfl poolStepped).1.caller
    | checkReady => exact (Pool.local_enqueues rfl poolStepped).1.caller
    | push => exact (Pool.local_enqueues rfl poolStepped).1.caller
  rcases (acts_step stepped).pool with ⟨_, _, _, same | ⟨poolEvent, poolStepped, _⟩⟩ |
    ⟨_, _, _, _, poolStepped, _⟩
  · rw [same]
  · exact pools _ _ poolStepped
  · exact pools _ _ poolStepped

/-- The test of the caller has found the handle done. -/
theorem returned_step (stepped : self.step event = some next) (returned : Returned next) :
    Returned self ∨ handleDone self.pool.counters self.handle = true := by
  rw [Returned, caller_step stepped] at returned
  rcases (acts_step stepped).controls with same | ⟨thread, control, set, last⟩
  · rw [same] at returned
    exact Or.inl returned
  · rw [set] at returned
    by_cases own : thread = self.pool.caller
    · subst own
      exact Or.inr (last (eq_of_set returned).symm)
    · rw [List.getElem?_set_ne own] at returned
      exact Or.inl returned

/-- No job but the root is left. -/
def Finished (graph : HomogeneousJobGraph T) (state : Executors) : Prop :=
  ∀ job < graph.jobs.length, job ∉ state.pool.pendingIds

theorem Follows.finished_iff {poolEvents : List PoolEvent}
    (follows : Follows graph workers caller start poolEvents self) (acyclic : graph.Acyclic) :
    Finished graph self ↔ ∀ job < graph.jobs.length, job ∈ doneIds poolEvents := by
  have tracks := Pool.tracks_run acyclic follows.ran
  have distinct := List.nodup_append.mp (tracks.accounted.nodup_iff.mpr List.nodup_range)
  constructor
  · intro finished job inRange
    have listed : job ∈ List.range (graph.root + 1) :=
      List.mem_range.mpr (Nat.lt_succ_of_lt inRange)
    exact (List.mem_append.mp (tracks.accounted.mem_iff.mpr listed)).resolve_left
      (finished job inRange)
  · intro all job inRange pending
    exact distinct.2.2 job pending job (all job inRange) rfl

/-- A job that is done stays so. -/
theorem Finished.step (finished : Finished graph self)
    (sound : Sound graph workers caller start self) (acyclic : graph.Acyclic)
    (stepped : self.step event = some next) : Finished graph next := by
  rcases sound.follows with ⟨poolEvents, follows⟩
  rcases follows.step acyclic stepped with ⟨more, followsNext, _⟩
  apply (followsNext.finished_iff acyclic).mpr
  intro job inRange
  rw [Pool.doneIds_append]
  exact List.mem_append_left _ ((follows.finished_iff acyclic).mp finished job inRange)

/-- Once `run_graph` has returned, it is finished, whatever the others go on to do. -/
theorem finished_run (acyclic : graph.Acyclic) {events : List ExecutorEvent}
    (sound : Sound graph workers caller start self)
    (before : Returned self → Finished graph self)
    (ran : events.foldlM Executors.step self = some next) (returned : Returned next) :
    Finished graph next := by
  induction events generalizing self with
  | nil =>
      cases ran
      exact before returned
  | cons event rest induction =>
      rw [List.foldlM_cons] at ran
      rcases Option.bind_eq_some_iff.mp ran with ⟨middle, first, others⟩
      apply induction (sound.step acyclic first) _ others
      intro returnedMiddle
      rcases returned_step first returnedMiddle with already | done
      · exact (before already).step sound acyclic first
      · rcases sound.follows with ⟨poolEvents, follows⟩
        have tracks := Pool.tracks_run acyclic follows.ran
        rw [follows.handle] at done
        have finished : Finished graph self :=
          (follows.finished_iff acyclic).mpr (tracks.rootLast done)
        exact finished.step sound acyclic first

/-- However the threads have interleaved so far, `run_graph` can still return; and when it has
returned, each job has been executed in this run until it was done and never again. -/
theorem runGraph_returns (acyclic : graph.Acyclic) (inRange : caller ≤ workers)
    {events : List ExecutorEvent}
    (ran : events.foldlM Executors.step (runGraph graph workers caller start) = some self) :
    Reaches Executors.step self Returned ∧
      (Returned self → ∀ job < graph.jobs.length,
        answersOf job ((runGraph graph workers caller start).answers events) =
          allAnswers job (start job)) := by
  have started : Sound graph workers caller start (runGraph graph workers caller start) :=
    sound_runGraph inRange
  constructor
  · exact (started.run acyclic ran).reaches acyclic
  · intro returned job isJob
    have notYet : ¬Returned (runGraph graph workers caller start) := by
      intro returnedThere
      rcases control_runGraph returnedThere with same | same <;> cases same
    have finished := finished_run acyclic started (fun already => absurd already notYet) ran
      returned
    rcases follows_runGraph.run acyclic ran with ⟨poolEvents, follows, answered⟩
    have done := (follows.finished_iff acyclic).mp finished job isJob
    rw [← answered]
    exact follows.done job done

/-- The worker steals the first job while the second is not enqueued yet. -/
def chainRun : List ExecutorEvent :=
  [.enqueue .addChild, .enqueue .checkReady, .enqueue .push, .pop 0, .skip 0,
    .steal 0 (.Success 1), .pop 0, .execute 0, .pop 0, .execute 0, .release 0, .release 0,
    .finish 0, .enqueue .addChild, .enqueue .checkReady, .enqueue .push, .enqueue .takeRoot,
    .enqueue .checkReady, .enqueue .push, .test, .pop 1, .execute 1, .release 1, .finish 1, .test,
    .pop 1, .skip 1, .steal 1 .Empty, .stealEnds 1, .promote 1, .promoteEnds 1, .test, .pop 1,
    .execute 1, .finish 1, .test]

/-- The first job is to be executed twice. -/
def firstAgain (job : Todos) : Nat := if job = 0 then 1 else 0

theorem runGraph_returns_sample : ∃ state : Executors,
    chainRun.foldlM Executors.step (runGraph chain 1 1 firstAgain) = some state ∧
      Returned state ∧ ∀ job < 2,
        answersOf job ((runGraph chain 1 1 firstAgain).answers chainRun) =
          allAnswers job (firstAgain job) := by
  obtain ⟨state, ran, returned⟩ : ∃ state : Executors,
      chainRun.foldlM Executors.step (runGraph chain 1 1 firstAgain) = some state ∧
        Returned state :=
    ⟨_, rfl, rfl⟩
  exact ⟨state, ran, returned, (runGraph_returns acyclic_chain (Nat.le_refl 1) ran).2 returned⟩

end Returned

end Executors

end JobSystem

end Cecs

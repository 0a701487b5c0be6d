import Mathlib.Data.Finset.Card
import Mathlib.Data.List.Induction
import Mathlib.Data.Option.Basic
import Mathlib.Logic.Function.Basic
import Mathlib.Order.Interval.Finset.Nat

/-! # Thread indices

`THREAD_INDEX` is one variable for each thread, whatever the number of pools. A
pool gives its workers their numbers and the thread that creates it the last
one; every call into any pool looks up the queues of that pool under it. -/

namespace Cecs

namespace JobSystem

inductive ThreadId where
  | foreign (number : Nat)
  | worker (pool number : Nat)
  deriving DecidableEq, Repr

/-- The parallelism of the pools so far, and `THREAD_INDEX` of the threads that
run; a pool with parallelism `n` has queues and wait lists for `0` to `n`. -/
structure Threads where
  pools : List Nat
  threadIndex : ThreadId → Option Nat

inductive Event where
  /-- `JobPool::new` -/
  | new (thread : ThreadId) (workers : Nat)
  /-- A worker of a pool starts. -/
  | workerThread (pool number : Nat)
  /-- `enqueue_job` or `wait` -/
  | call (thread : ThreadId) (pool : Nat)
  deriving DecidableEq, Repr

namespace Threads

/-- No pool; threads that are no workers may run from the start. -/
def initial : Threads where
  pools := []
  threadIndex
    | .foreign _ => some 0
    | .worker _ _ => none

/-- `Inner::new` leaves the last index to the thread that calls it. -/
def new (self : Threads) (thread : ThreadId) (workers : Nat) : Option Threads := do
  guard (0 < workers)
  let _ ← self.threadIndex thread
  return { pools := self.pools ++ [workers]
           threadIndex := Function.update self.threadIndex thread (some workers) }

/-- `Inner::new` spawns the workers `1..workers`, each of which sets its index. -/
def workerThread (self : Threads) (pool number : Nat) : Option Threads := do
  let workers ← self.pools[pool]?
  guard (0 < number ∧ number < workers)
  guard ((self.threadIndex (.worker pool number)).isNone)
  return { self with
    threadIndex := Function.update self.threadIndex (.worker pool number) (some number) }

def call (self : Threads) (thread : ThreadId) (pool : Nat) : Option Threads := do
  let _ ← self.threadIndex thread
  let _ ← self.pools[pool]?
  return self

def step (self : Threads) : Event → Option Threads
  | .new thread workers => self.new thread workers
  | .workerThread pool number => self.workerThread pool number
  | .call thread pool => self.call thread pool

end Threads

def run (events : List Event) : Option Threads := events.foldlM Threads.step Threads.initial

/-- The calls of `JobPool::new`, in order. -/
def creations (events : List Event) : List (ThreadId × Nat) :=
  events.filterMap fun
    | .new thread workers => some (thread, workers)
    | _ => none

/-- In the run, the thread enters the pool with this index. -/
def Uses (events : List Event) (thread : ThreadId) (pool index : Nat) : Prop :=
  ∃ before after state, events = before ++ .call thread pool :: after ∧
    run before = some state ∧ state.threadIndex thread = some index

/-- Every call finds queues, and no two threads share those of a worker. -/
structure Sound (events : List Event) : Prop where
  inBounds : ∀ thread pool index, Uses events thread pool index →
    ∃ creation, (creations events)[pool]? = some creation ∧ index ≤ creation.2
  unshared : ∀ thread other pool index, Uses events thread pool index →
    Uses events other pool index → index ≠ 0 → thread = other

section Runs

variable {events before after : List Event} {state next : Threads}

theorem run_append (before after : List Event) :
    run (before ++ after) = (run before).bind fun state => after.foldlM Threads.step state := by
  rw [run, List.foldlM_append]
  rfl

theorem run_concat (event : Event) :
    run (before ++ [event]) = (run before).bind fun state => state.step event := by
  rw [run_append]
  simp

theorem creations_append (before after : List Event) :
    creations (before ++ after) = creations before ++ creations after :=
  List.filterMap_append

/-- What holds of every state that is reached. -/
structure Tracks (events : List Event) (state : Threads) : Prop where
  pools : state.pools = (creations events).map Prod.snd
  positive : ∀ creation ∈ creations events, 0 < creation.2
  creators : ∀ creation ∈ creations events, ∃ index, 0 < index ∧
    state.threadIndex creation.1 = some index
  workers : ∀ pool number index, state.threadIndex (.worker pool number) = some index →
    0 < index ∧ ∃ workers, state.pools[pool]? = some workers ∧ 0 < number ∧ number < workers
  first : ∀ creation rest, creations events = creation :: rest →
    ∃ number, creation.1 = .foreign number

theorem step_new {thread : ThreadId} {workers : Nat}
    (stepped : state.step (.new thread workers) = some next) :
    0 < workers ∧ (∃ index, state.threadIndex thread = some index) ∧
      next.pools = state.pools ++ [workers] ∧
      next.threadIndex = Function.update state.threadIndex thread (some workers) := by
  simp only [Threads.step, Threads.new, Option.bind_eq_bind, Option.bind_eq_some_iff,
    Option.guard_eq_some', Option.pure_def, Option.some.injEq, exists_const] at stepped
  rcases stepped with ⟨positive, index, running, rfl⟩
  exact ⟨positive, ⟨index, running⟩, rfl, rfl⟩

theorem step_workerThread {pool number : Nat}
    (stepped : state.step (.workerThread pool number) = some next) :
    (∃ workers, state.pools[pool]? = some workers ∧ 0 < number ∧ number < workers) ∧
      state.threadIndex (.worker pool number) = none ∧ next.pools = state.pools ∧
      next.threadIndex =
        Function.update state.threadIndex (.worker pool number) (some number) := by
  simp only [Threads.step, Threads.workerThread, Option.bind_eq_bind, Option.bind_eq_some_iff,
    Option.guard_eq_some', Option.pure_def, Option.some.injEq, exists_const,
    Option.isNone_iff_eq_none] at stepped
  rcases stepped with ⟨workers, found, range, idle, rfl⟩
  exact ⟨⟨workers, found, range⟩, idle, rfl, rfl⟩

theorem step_call {thread : ThreadId} {pool : Nat}
    (stepped : state.step (.call thread pool) = some next) :
    (∃ index, state.threadIndex thread = some index) ∧
      (∃ workers, state.pools[pool]? = some workers) ∧ next = state := by
  simp only [Threads.step, Threads.call, Option.bind_eq_bind, Option.bind_eq_some_iff,
    Option.pure_def, Option.some.injEq] at stepped
  rcases stepped with ⟨index, running, workers, found, rfl⟩
  exact ⟨⟨index, running⟩, ⟨workers, found⟩, rfl⟩

theorem tracks_initial : Tracks [] Threads.initial where
  pools := rfl
  positive creation member := absurd member List.not_mem_nil
  creators creation member := absurd member List.not_mem_nil
  workers pool number index running := by cases running
  first creation rest created := by cases created

theorem Tracks.step (tracks : Tracks before state) {event : Event}
    (stepped : state.step event = some next) : Tracks (before ++ [event]) next := by
  cases event with
  | new thread workers =>
      rcases step_new stepped with ⟨positive, ⟨index, running⟩, pools, indices⟩
      have created : creations (before ++ [.new thread workers]) =
          creations before ++ [(thread, workers)] := creations_append ..
      exact {
        pools := by simp [pools, created, tracks.pools]
        positive := by
          rw [created]
          exact List.forall_mem_append.mpr ⟨tracks.positive, by simpa using positive⟩
        creators := by
          intro creation member
          rw [indices, Function.update_apply]
          split
          · exact ⟨workers, positive, rfl⟩
          · rename_i different
            rw [created, List.mem_append, List.mem_singleton] at member
            rcases member with old | same
            · exact tracks.creators creation old
            · exact absurd (congrArg Prod.fst same) different
        workers := by
          intro pool number other runs
          rw [indices, Function.update_apply] at runs
          rw [pools]
          have old : ∃ index, state.threadIndex (.worker pool number) = some index := by
            split at runs
            · rename_i same
              exact ⟨index, same ▸ running⟩
            · exact ⟨other, runs⟩
          rcases old with ⟨before, runsBefore⟩
          rcases tracks.workers pool number before runsBefore with ⟨_, size, found, range⟩
          refine ⟨?_, size, ?_, range⟩
          · split at runs
            · cases runs
              exact positive
            · exact (tracks.workers pool number other runs).1
          · rw [List.getElem?_append_left (List.getElem?_eq_some_iff.mp found).1, found]
        first := by
          intro creation rest all
          rw [created] at all
          cases earlier : creations before with
          | cons head tail =>
              rw [earlier, List.cons_append] at all
              exact tracks.first creation tail (by rw [earlier, (List.cons.inj all).1])
          | nil =>
              rw [earlier, List.nil_append] at all
              rw [← (List.cons.inj all).1]
              cases thread with
              | foreign number => exact ⟨number, rfl⟩
              | worker pool number =>
                  rcases tracks.workers pool number index running with ⟨_, size, found, _⟩
                  rw [tracks.pools, earlier] at found
                  cases found }
  | workerThread pool number =>
      rcases step_workerThread stepped with ⟨⟨size, found, range⟩, idle, pools, indices⟩
      have created : creations (before ++ [.workerThread pool number]) = creations before := by
        rw [creations_append]
        exact List.append_nil _
      exact {
        pools := by rw [pools, created, tracks.pools]
        positive := by rw [created]; exact tracks.positive
        creators := by
          intro creation member
          rw [created] at member
          rcases tracks.creators creation member with ⟨index, positive, running⟩
          have different : creation.1 ≠ .worker pool number := by
            intro same
            rw [same, idle] at running
            cases running
          exact ⟨index, positive, by rw [indices, Function.update_of_ne different, running]⟩
        workers := by
          intro other otherNumber index runs
          rw [indices, Function.update_apply] at runs
          rw [pools]
          split at runs
          · rename_i same
            cases same
            cases runs
            exact ⟨range.1, size, found, range⟩
          · exact tracks.workers other otherNumber index runs
        first := by rw [created]; exact tracks.first }
  | call thread pool =>
      rcases step_call stepped with ⟨_, _, rfl⟩
      have created : creations (before ++ [.call thread pool]) = creations before := by
        rw [creations_append]
        exact List.append_nil _
      exact ⟨created ▸ tracks.pools, created ▸ tracks.positive, created ▸ tracks.creators,
        tracks.workers, created ▸ tracks.first⟩

theorem tracks_run (ran : run events = some state) : Tracks events state := by
  induction events using List.reverseRecOn generalizing state with
  | nil =>
      cases ran
      exact tracks_initial
  | append_singleton before event induction =>
      rw [run_concat] at ran
      rcases Option.bind_eq_some_iff.mp ran with ⟨middle, ranBefore, stepped⟩
      exact (induction ranBefore).step stepped

/-- The last index of a pool this thread created, or the own number of a worker of
the first pool. -/
def Owns (news : List (ThreadId × Nat)) (thread : ThreadId) (index : Nat) : Prop :=
  (thread, index) ∈ news ∨
    thread = .worker 0 index ∧ ∃ creation ∈ news, index < creation.2

theorem Owns.mono {news more : List (ThreadId × Nat)} {thread : ThreadId} {index : Nat}
    (owns : Owns news thread index) (subset : news ⊆ more) : Owns more thread index := by
  rcases owns with created | ⟨same, creation, member, below⟩
  · exact Or.inl (subset created)
  · exact Or.inr ⟨same, creation, subset member, below⟩

/-- One pool, or pools without workers that one thread created. -/
def Alone (news : List (ThreadId × Nat)) : Prop :=
  news.length ≤ 1 ∨ ∃ thread, ∀ creation ∈ news, creation = (thread, 1)

section Alone

variable {news more : List (ThreadId × Nat)} {thread other : ThreadId} {pool index : Nat}
  {creation : ThreadId × Nat}

theorem Alone.left (alone : Alone (news ++ more)) : Alone news := by
  rcases alone with short | ⟨creator, single⟩
  · rw [List.length_append] at short
    exact Or.inl (by omega)
  · exact Or.inr ⟨creator, fun creation member =>
      single creation (List.mem_append_left more member)⟩

theorem Alone.same (alone : Alone news) {left right : ThreadId × Nat} (leftMember : left ∈ news)
    (rightMember : right ∈ news) : left = right := by
  rcases alone with short | ⟨creator, single⟩
  · rcases List.length_eq_one_iff.mp
      (Nat.le_antisymm short (List.length_pos_of_mem leftMember)) with ⟨only, rfl⟩
    rw [List.mem_singleton.mp leftMember, List.mem_singleton.mp rightMember]
  · rw [single left leftMember, single right rightMember]

/-- A pool that has workers is the only one. -/
theorem Alone.onlyPool (alone : Alone news) (found : news[pool]? = some creation)
    (workers : 1 < creation.2) : pool = 0 := by
  have inside := (List.getElem?_eq_some_iff.mp found).1
  rcases alone with short | ⟨creator, single⟩
  · omega
  · rw [single creation (List.mem_of_getElem? found)] at workers
    omega

theorem Alone.inBounds (alone : Alone news) (owns : Owns news thread index)
    (member : creation ∈ news) : index ≤ creation.2 := by
  rcases owns with created | ⟨_, other, otherMember, below⟩
  · exact Nat.le_of_eq (congrArg Prod.snd (alone.same created member))
  · rw [← alone.same otherMember member]
    exact Nat.le_of_lt below

theorem Alone.unshared (alone : Alone news) (owns : Owns news thread index)
    (otherOwns : Owns news other index) : thread = other := by
  rcases owns with created | ⟨rfl, creation, member, below⟩
  · rcases otherOwns with otherCreated | ⟨_, creation, member, below⟩
    · exact (Prod.mk.inj (alone.same created otherCreated)).1
    · rw [← alone.same created member] at below
      omega
  · rcases otherOwns with otherCreated | ⟨rfl, _⟩
    · rw [← alone.same otherCreated member] at below
      omega
    · rfl

end Alone

/-- Under an index other than zero, every thread is the one it belongs to. -/
theorem owns_run (ran : run events = some state) (alone : Alone (creations events))
    {thread : ThreadId} {index : Nat} (running : state.threadIndex thread = some index) :
    index = 0 ∨ Owns (creations events) thread index := by
  induction events using List.reverseRecOn generalizing state thread index with
  | nil =>
      cases ran
      cases thread with
      | foreign number => exact Or.inl (Option.some.inj running).symm
      | worker pool number => cases running
  | append_singleton before event induction =>
      rw [run_concat] at ran
      rcases Option.bind_eq_some_iff.mp ran with ⟨middle, ranBefore, stepped⟩
      rw [creations_append] at alone ⊢
      have kept : ∀ {thread index}, middle.threadIndex thread = some index → index = 0 ∨
          Owns (creations before ++ creations [event]) thread index := fun ranThread =>
        (induction ranBefore alone.left ranThread).imp_right fun owns =>
          owns.mono (List.subset_append_left _ _)
      cases event with
      | new creator workers =>
          rw [(step_new stepped).2.2.2, Function.update_apply] at running
          split at running
          · rename_i same
            cases same
            cases running
            exact Or.inr (Or.inl (List.mem_append_right _ List.mem_cons_self))
          · exact kept running
      | workerThread pool number =>
          rcases step_workerThread stepped with ⟨⟨size, found, range⟩, _, _, indices⟩
          rw [indices, Function.update_apply] at running
          split at running
          · rename_i same
            cases same
            cases running
            rw [(tracks_run ranBefore).pools, List.getElem?_map] at found
            rcases Option.map_eq_some_iff.mp found with ⟨creation, created, rfl⟩
            cases alone.left.onlyPool created (by omega)
            exact Or.inr (Or.inr ⟨rfl, creation,
              List.mem_append_left _ (List.mem_of_getElem? created), range.2⟩)
          · exact kept running
      | call caller pool =>
          rcases step_call stepped with ⟨_, _, rfl⟩
          exact kept running

theorem Uses.inside {thread : ThreadId} {pool index : Nat} (uses : Uses events thread pool index)
    (ran : (run events).isSome) (alone : Alone (creations events)) :
    (index = 0 ∨ Owns (creations events) thread index) ∧
      ∃ creation, (creations events)[pool]? = some creation := by
  rcases uses with ⟨before, after, state, rfl, ranBefore, running⟩
  rw [run_append, ranBefore, Option.bind_some, List.foldlM_cons] at ran
  rcases Option.isSome_iff_exists.mp ran with ⟨last, ranAfter⟩
  rcases Option.bind_eq_some_iff.mp ranAfter with ⟨middle, stepped, _⟩
  rcases step_call stepped with ⟨_, ⟨size, found⟩, _⟩
  rw [(tracks_run ranBefore).pools, List.getElem?_map] at found
  rcases Option.map_eq_some_iff.mp found with ⟨creation, created, _⟩
  rw [creations_append] at alone ⊢
  constructor
  · exact (owns_run ranBefore alone.left running).imp_right fun owns =>
      owns.mono (List.subset_append_left _ _)
  · exact ⟨creation, by
      rw [List.getElem?_append_left (List.getElem?_eq_some_iff.mp created).1, created]⟩

theorem Alone.sound (alone : Alone (creations events)) (ran : (run events).isSome) :
    Sound events where
  inBounds thread pool index uses := by
    rcases uses.inside ran alone with ⟨owned, creation, found⟩
    rcases owned with rfl | owns
    · exact ⟨creation, found, Nat.zero_le _⟩
    · exact ⟨creation, found, alone.inBounds owns (List.mem_of_getElem? found)⟩
  unshared thread other pool index uses otherUses nonzero := by
    rcases uses.inside ran alone with ⟨owned, _⟩
    rcases otherUses.inside ran alone with ⟨otherOwned, _⟩
    exact alone.unshared (owned.resolve_left nonzero) (otherOwned.resolve_left nonzero)

/-- A longer run that makes no pool, in which every thread that ran still has its
index. -/
structure Continues (events : List Event) (state : Threads) (later : List Event)
    (next : Threads) : Prop where
  ran : run later = some next
  created : creations later = creations events
  pools : next.pools = state.pools
  kept : ∀ thread index, state.threadIndex thread = some index →
    next.threadIndex thread = some index

theorem Continues.trans {later last : List Event} {final : Threads}
    (continues : Continues events state later next) (further : Continues later next last final) :
    Continues events state last final where
  ran := further.ran
  created := further.created.trans continues.created
  pools := further.pools.trans continues.pools
  kept thread index running := further.kept thread index (continues.kept thread index running)

theorem startWorker (ran : run events = some state) {pool size number : Nat}
    (found : state.pools[pool]? = some size) (range : 0 < number ∧ number < size) :
    ∃ later next, Continues events state later next ∧
      ∃ index, next.threadIndex (.worker pool number) = some index := by
  cases runs : state.threadIndex (.worker pool number) with
  | some index => exact ⟨events, state, ⟨ran, rfl, rfl, fun _ _ running => running⟩, index, runs⟩
  | none =>
      let next : Threads := { state with
        threadIndex := Function.update state.threadIndex (.worker pool number) (some number) }
      have stepped : state.step (.workerThread pool number) = some next := by
        simp [Threads.step, Threads.workerThread, found, range, runs, next]
      have continues : Continues events state (events ++ [.workerThread pool number]) next := {
        ran := by rw [run_concat, ran, Option.bind_some, stepped]
        created := (creations_append ..).trans (List.append_nil _)
        pools := rfl
        kept := by
          intro thread index running
          have different : thread ≠ .worker pool number := by
            intro same
            rw [← same, running] at runs
            cases runs
          exact (Function.update_of_ne different _ _).trans running }
      exact ⟨_, next, continues, number, Function.update_self _ _ _⟩

theorem startWorkers (ran : run events = some state) {pool size : Nat}
    (found : state.pools[pool]? = some size) (count : Nat) (bounded : count ≤ size) :
    ∃ later next, Continues events state later next ∧ ∀ number, 0 < number → number < count →
      ∃ index, next.threadIndex (.worker pool number) = some index := by
  induction count with
  | zero =>
      exact ⟨events, state, ⟨ran, rfl, rfl, fun _ _ running => running⟩,
        fun number _ below => absurd below (Nat.not_lt_zero _)⟩
  | succ count induction =>
      rcases induction (by omega) with ⟨later, next, continues, started⟩
      rcases Nat.eq_zero_or_pos count with rfl | positive
      · exact ⟨later, next, continues, fun number _ _ => by omega⟩
      · rcases startWorker continues.ran (continues.pools.symm ▸ found) ⟨positive, bounded⟩ with
          ⟨last, final, further, index, running⟩
        have allStarted : ∀ number, 0 < number → number < count + 1 →
            ∃ index, final.threadIndex (.worker pool number) = some index := by
          intro number numberPositive below
          rcases Nat.lt_succ_iff_lt_or_eq.mp below with earlier | rfl
          · rcases started number numberPositive earlier with ⟨old, runs⟩
            exact ⟨old, further.kept _ old runs⟩
          · exact ⟨index, running⟩
        exact ⟨last, final, continues.trans further, allStarted⟩

theorem calls_run (ran : run events = some state) {thread other : ThreadId} {pool index : Nat}
    {size : Nat} (found : state.pools[pool]? = some size)
    (running : state.threadIndex thread = some index)
    (otherRunning : state.threadIndex other = some index) :
    ∃ later next, Continues events state later next ∧ Uses later thread pool index ∧
      Uses later other pool index := by
  have stepped : ∀ caller, state.threadIndex caller = some index →
      state.step (.call caller pool) = some state := by
    intro caller callerRunning
    simp [Threads.step, Threads.call, callerRunning, found]
  have once : run (events ++ [.call thread pool]) = some state := by
    rw [run_concat, ran, Option.bind_some, stepped thread running]
  have continues : Continues events state
      (events ++ [.call thread pool] ++ [.call other pool]) state := {
    ran := by rw [run_concat, once, Option.bind_some, stepped other otherRunning]
    created := by simp [creations]
    pools := rfl
    kept := fun _ _ running => running }
  exact ⟨_, state, continues,
    ⟨events, [.call other pool], state, by simp, ran, running⟩,
    ⟨events ++ [.call thread pool], [], state, rfl, once, otherRunning⟩⟩

/-- A foreign thread and the workers of two pools need an index each. -/
theorem threads_le {creator : ThreadId} {number : Nat} (foreign : creator = .foreign number)
    {pool other size otherSize bound : Nat} (different : pool ≠ other)
    (index : ThreadId → Nat) (threads : ThreadId → Prop) (creates : threads creator)
    (workers : ∀ number, 0 < number → number < size → threads (.worker pool number))
    (otherWorkers : ∀ number, 0 < number → number < otherSize → threads (.worker other number))
    (inside : ∀ thread, threads thread → 0 < index thread ∧ index thread ≤ bound)
    (distinct : ∀ left right, threads left → threads right → index left = index right →
      left = right) :
    1 + (size - 1) + (otherSize - 1) ≤ bound := by
  classical
  let all : Finset ThreadId := insert creator
    ((Finset.Ico 1 size).image (.worker pool) ∪ (Finset.Ico 1 otherSize).image (.worker other))
  have member : ∀ thread ∈ all, threads thread := by
    intro thread member
    simp only [all, Finset.mem_insert, Finset.mem_union, Finset.mem_image, Finset.mem_Ico] at member
    rcases member with rfl | ⟨number, range, rfl⟩ | ⟨number, range, rfl⟩
    · exact creates
    · exact workers number range.1 range.2
    · exact otherWorkers number range.1 range.2
  have card : all.card = 1 + (size - 1) + (otherSize - 1) := by
    rw [Finset.card_insert_of_notMem (by simp [foreign]), Finset.card_union_of_disjoint,
      Finset.card_image_of_injective _ (fun _ _ same => (ThreadId.worker.inj same).2),
      Finset.card_image_of_injective _ (fun _ _ same => (ThreadId.worker.inj same).2),
      Nat.card_Ico, Nat.card_Ico]
    · omega
    · rw [Finset.disjoint_left]
      intro thread left right
      rcases Finset.mem_image.mp left with ⟨_, _, rfl⟩
      rcases Finset.mem_image.mp right with ⟨_, _, same⟩
      exact different (ThreadId.worker.inj same).1.symm
  have bounded : all.card ≤ (Finset.Icc 1 bound).card := by
    apply Finset.card_le_card_of_injOn index
    · intro thread inAll
      exact Finset.mem_coe.mpr (Finset.mem_Icc.mpr (inside thread (member thread inAll)))
    · intro left leftIn right rightIn same
      exact distinct left right (member left leftIn) (member right rightIn) same
  rw [card, Nat.card_Icc] at bounded
  omega

/-- Every run that makes these pools is sound. -/
def AllSound (news : List (ThreadId × Nat)) : Prop :=
  ∀ events, creations events = news → (run events).isSome → Sound events

section AllSound

variable {news : List (ThreadId × Nat)} (sound : AllSound news) (ran : run events = some state)
  (created : creations events = news) {pool index size : Nat} {thread other : ThreadId}

include sound ran created

theorem AllSound.inBounds (found : state.pools[pool]? = some size)
    (running : state.threadIndex thread = some index) : index ≤ size := by
  rcases calls_run ran found running running with ⟨later, next, continues, uses, _⟩
  have soundLater := sound later (continues.created.trans created) (by rw [continues.ran]; rfl)
  rcases soundLater.inBounds thread pool index uses with ⟨creation, at_, below⟩
  have sized := found
  rw [(tracks_run ran).pools, List.getElem?_map, ← continues.created, at_] at sized
  exact below.trans_eq (Option.some.inj sized)

theorem AllSound.unshared (found : state.pools[pool]? = some size)
    (running : state.threadIndex thread = some index)
    (otherRunning : state.threadIndex other = some index) (nonzero : index ≠ 0) :
    thread = other := by
  rcases calls_run ran found running otherRunning with ⟨later, next, continues, uses, otherUses⟩
  have soundLater := sound later (continues.created.trans created) (by rw [continues.ran]; rfl)
  exact soundLater.unshared thread other pool index uses otherUses nonzero

/-- A second pool has no workers: they, those of the first pool and its creator are
more threads than a pool has indices. -/
theorem AllSound.noWorkers {otherPool otherSize : Nat} (different : pool ≠ otherPool)
    (found : state.pools[pool]? = some size)
    (otherFound : state.pools[otherPool]? = some otherSize) : otherSize ≤ 1 := by
  rcases startWorkers ran found size (Nat.le_refl _) with ⟨middle, half, first, workers⟩
  rcases startWorkers first.ran (first.pools.symm ▸ otherFound) otherSize (Nat.le_refl _) with
    ⟨later, final, second, otherWorkers⟩
  have continues := first.trans second
  have tracks := tracks_run continues.ran
  have foundLater : final.pools[pool]? = some size := continues.pools.symm ▸ found
  have createdLater := continues.created.trans created
  cases all : creations later with
  | nil =>
      rw [tracks.pools, all] at foundLater
      cases foundLater
  | cons creation rest =>
      rcases tracks.first creation rest all with ⟨number, foreign⟩
      rcases tracks.creators creation (by rw [all]; exact List.mem_cons_self) with
        ⟨last, lastPositive, creatorRunning⟩
      let threads : ThreadId → Prop := fun thread =>
        ∃ index, final.threadIndex thread = some index ∧ 0 < index
      have working : ∀ pool number,
          (∃ index, final.threadIndex (.worker pool number) = some index) →
            threads (.worker pool number) := by
        intro pool number running
        rcases running with ⟨index, running⟩
        exact ⟨index, running, (tracks.workers pool number index running).1⟩
      have enough : 1 + (size - 1) + (otherSize - 1) ≤ size := threads_le foreign different
        (fun thread => (final.threadIndex thread).getD 0) threads
        ⟨last, creatorRunning, lastPositive⟩
        (fun number positive below => working pool number <| by
          rcases workers number positive below with ⟨index, running⟩
          exact ⟨index, second.kept _ index running⟩)
        (fun number positive below => working otherPool number (otherWorkers number positive below))
        (fun thread runs => by
          rcases runs with ⟨index, running, positive⟩
          rw [running]
          exact ⟨positive, sound.inBounds continues.ran createdLater foundLater running⟩)
        (fun left right runs rightRuns same => by
          rcases runs with ⟨index, running, positive⟩
          rcases rightRuns with ⟨rightIndex, rightRunning, _⟩
          rw [running, rightRunning, Option.getD_some, Option.getD_some] at same
          subst same
          exact sound.unshared continues.ran createdLater foundLater running rightRunning
            (Nat.ne_of_gt positive))
      omega

theorem AllSound.alone : Alone news := by
  have tracks := tracks_run ran
  rw [← created]
  rcases Nat.lt_or_ge 1 (creations events).length with several | short
  · have sizeOf : ∀ (pool : Nat) (creation : ThreadId × Nat),
        (creations events)[pool]? = some creation → state.pools[pool]? = some creation.2 := by
      intro pool creation at_
      rw [tracks.pools, List.getElem?_map, at_]
      rfl
    have noneWorks : ∀ creation ∈ creations events, creation.2 = 1 := by
      intro creation member
      rcases List.mem_iff_getElem?.mp member with ⟨position, at_⟩
      have elsewhere : ∃ pool, pool ≠ position ∧ pool < (creations events).length :=
        ⟨if position = 0 then 1 else 0, by split <;> omega, by split <;> omega⟩
      rcases elsewhere with ⟨pool, different, inside⟩
      have below := sound.noWorkers ran created different
        (sizeOf pool _ (List.getElem?_eq_getElem inside)) (sizeOf position creation at_)
      have positive := tracks.positive creation member
      omega
    have pool : state.pools[0]? = some 1 := by
      have inside := Nat.zero_lt_of_lt several
      let creation := (creations events)[0]
      rw [sizeOf 0 creation (List.getElem?_eq_getElem _), noneWorks creation (List.getElem_mem _)]
    have creatorIndex : ∀ creation ∈ creations events, state.threadIndex creation.1 = some 1 := by
      intro creation member
      rcases tracks.creators creation member with ⟨index, positive, running⟩
      have below := sound.inBounds ran created pool running
      rw [running, Nat.le_antisymm below positive]
    have inside := Nat.zero_lt_of_lt several
    let first := (creations events)[0]
    exact Or.inr ⟨first.1, fun creation member => Prod.ext
      (sound.unshared ran created pool (creatorIndex creation member)
        (creatorIndex first (List.getElem_mem _)) Nat.one_ne_zero)
      (noneWorks creation member)⟩
  · exact Or.inl short

end AllSound

/-- Two pools of different size, or two pools with workers, or made by two threads, do
not get along: `THREAD_INDEX` is the index of the last pool alone. -/
theorem allSound_iff_alone (news : List (ThreadId × Nat))
    (made : ∃ events, creations events = news ∧ (run events).isSome) :
    (∀ events, creations events = news → (run events).isSome → Sound events) ↔
      news.length ≤ 1 ∨ ∃ thread, ∀ creation ∈ news, creation = (thread, 1) := by
  constructor
  · intro sound
    rcases made with ⟨events, created, ran⟩
    rcases Option.isSome_iff_exists.mp ran with ⟨state, ran⟩
    exact AllSound.alone sound ran created
  · rintro alone events rfl ran
    exact Alone.sound alone ran

theorem allSound_iff_alone_sample :
    (∃ events, creations events = [(.foreign 0, 4)] ∧ (run events).isSome) ∧
      ((∀ events, creations events = [(.foreign 0, 4)] → (run events).isSome → Sound events) ↔
        [(ThreadId.foreign 0, 4)].length ≤ 1 ∨
          ∃ thread, ∀ creation ∈ [(ThreadId.foreign 0, 4)], creation = (thread, 1)) :=
  have made : ∃ events, creations events = [(.foreign 0, 4)] ∧ (run events).isSome :=
    ⟨[.new (.foreign 0) 4], rfl, rfl⟩
  ⟨made, allSound_iff_alone _ made⟩

/-- The thread that makes a second, larger pool enters the first one with an index
this has no queues for. -/
theorem not_sound_largerPool :
    ¬ ∀ events, (run events).isSome → Sound events := by
  intro sound
  have outside : Uses [.new (.foreign 0) 1, .new (.foreign 0) 2, .call (.foreign 0) 0]
      (.foreign 0) 0 2 :=
    ⟨[.new (.foreign 0) 1, .new (.foreign 0) 2], [], _, rfl, rfl, rfl⟩
  rcases (sound _ rfl).inBounds _ _ _ outside with ⟨creation, found, below⟩
  cases found
  exact absurd below (by decide)

end Runs

end JobSystem

end Cecs

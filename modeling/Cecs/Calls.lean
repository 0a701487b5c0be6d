import Cecs.Commands.Queue
import Cecs.Serde
import Cecs.World.Clone

/-! # Runs of the public API

A system acts on the world through its parameters only, so running systems comes
down to writes of cells and resources, commands in buffers and, for a
`WorldAccess`, further calls. -/

namespace Cecs

open Foundation

/-- `batch` is the order that the sort of `apply_commands` leaves the commands in. -/
inductive Call (Value : Type) where
  | insertEntity
  | deleteEntity (id : EntityId)
  | insertId (id : EntityId)
  | reserveEntities (additional : Nat)
  | mergeEntities (lhs rhs : EntityId)
  | insertResource (ty : TypeId) (value : Value)
  | removeResource (ty : TypeId)
  | writeCell (ptr : Ptr) (ty : TypeId) (row : Nat) (value : Value)
  | resizeCommands (len : Nat)
  | pushCommand (systemIdx : Nat) (command : CommandPayload Value)
  | extendCommand (systemIdx : Nat) (command : ComponentCommand Value)
  | commandId (systemIdx : Nat)
  | applyCommands (batch : List (CommandPayload Value))
  | vacuum
  | clone

/-- The methods of `Commands` push commands without a payload, and no `Init`. -/
def CommandPayload.isFresh {Value : Type} : CommandPayload Value → Bool
  | .Entity { action := .Init _, .. } => false
  | .Entity { payload, .. } => payload.isEmpty
  | _ => true

namespace Call

variable {Value : Type}

/-- The call can be made in `w`. -/
def Admissible (w : World Value) : Call Value → Prop
  | .pushCommand _ command => command.isFresh = true
  | .applyCommands batch => SortCommands id w.queuedCommands batch
  | _ => True

variable [UnitTypeId] [BuiltinValues Value]

/-- The world that the call leaves, whether it returns a value or an error. A clone
goes on as a world of its own. -/
def run (w : World Value) : Call Value → Option (World Value)
  | .insertEntity => w.insertEntity.map Prod.snd
  | .deleteEntity id => (w.deleteEntity id).map Prod.snd
  | .insertId id => (w.insertId id).map Prod.snd
  | .reserveEntities additional => w.reserveEntities additional
  | .mergeEntities lhs rhs => (w.mergeEntities lhs rhs).map Prod.snd
  | .insertResource ty value => some (w.insertResource ty value)
  | .removeResource ty => some (w.removeResource ty)
  | .writeCell ptr ty row value => some (w.writeCell ptr ty row value)
  | .resizeCommands len => some (w.resizeCommands len)
  | .pushCommand systemIdx command => w.pushCommand systemIdx command
  | .extendCommand systemIdx command => w.extendCommand systemIdx command
  | .commandId systemIdx => (w.commandId systemIdx).map Prod.snd
  | .applyCommands batch => (w.applySorted batch).map Prod.snd
  | .vacuum => some w.vacuum
  | .clone => w.clone

end Call

section Reachable

variable {Value : Type} [UnitTypeId] [BuiltinValues Value]

/-- The worlds reached from a new or a loaded one by calls that `allowed` admits. -/
inductive Reachable (allowed : World Value → Call Value → Prop) : World Value → Prop where
  | new {initialCapacity : Nat} {w : World Value} (created : World.new initialCapacity = some w) :
      Reachable allowed w
  | load {Version : Type} [TypeName] [VersionReq Version] {persister : WorldPersister Version}
      {payload : Payload Version Value} {w : World Value}
      (loaded : persister.load payload = some (.ok w)) : Reachable allowed w
  | call {w after : World Value} {call : Call Value} (reachable : Reachable allowed w)
      (admissible : call.Admissible w) (admitted : allowed w call)
      (ran : call.run w = some after) : Reachable allowed after

/-- Commands are queued and applied, by a sort that keeps the order of equal keys. -/
def tick (w : World Value) (calls : List (Call Value)) :
    Option (WorldResult Unit × World Value) := do
  let queued ← calls.foldlM Call.run w
  queued.applySorted (sortCommands id queued.queuedCommands)

/-- What a system does with its `Commands`. -/
def Call.queues : Call Value → Bool
  | .resizeCommands _ => true
  | .pushCommand _ command => command.isFresh
  | .extendCommand _ _ => true
  | .commandId _ => true
  | _ => false

variable {allowed : World Value → Call Value → Prop} {w after : World Value}
  {calls : List (Call Value)}

theorem Reachable.queue (permits : ∀ w call, call.queues = true → allowed w call)
    (reachable : Reachable allowed w) (queueing : calls.all Call.queues = true)
    (ran : calls.foldlM Call.run w = some after) : Reachable allowed after := by
  induction calls generalizing w with
  | nil =>
      cases ran
      exact reachable
  | cons call calls induction =>
      rw [List.all_cons, Bool.and_eq_true] at queueing
      rw [List.foldlM_cons] at ran
      rcases Option.bind_eq_some_iff.mp ran with ⟨middle, first, rest⟩
      have admissible : call.Admissible w := by
        cases call with
        | pushCommand systemIdx command => exact queueing.1
        | applyCommands batch => cases queueing.1
        | _ => trivial
      exact induction (.call reachable admissible (permits w call queueing.1) first)
        queueing.2 rest

theorem Reachable.tick (reachable : Reachable (fun _ _ => True) w)
    (queueing : calls.all Call.queues = true) {result : WorldResult Unit}
    (ticked : Cecs.tick w calls = some (result, after)) :
    Reachable (fun _ _ => True) after := by
  simp only [Cecs.tick, Option.bind_eq_bind, Option.bind_eq_some_iff] at ticked
  rcases ticked with ⟨queued, queue, applied⟩
  let call : Call Value := .applyCommands (sortCommands id queued.queuedCommands)
  have admissible : call.Admissible queued := sortCommands_sorts id queued.queuedCommands
  have ran : call.run queued = some after := Option.map_eq_some_iff.mpr ⟨_, applied, rfl⟩
  exact .call (reachable.queue (fun _ _ _ => trivial) queueing queue) admissible trivial ran

theorem Reachable.ticks {rounds : List (List (Call Value))}
    (reachable : Reachable (fun _ _ => True) w)
    (queueing : rounds.all (fun calls => calls.all Call.queues) = true)
    (ran : rounds.foldlM (fun w calls => (Cecs.tick w calls).map Prod.snd) w = some after) :
    Reachable (fun _ _ => True) after := by
  induction rounds generalizing w with
  | nil =>
      cases ran
      exact reachable
  | cons calls rounds induction =>
      rw [List.all_cons, Bool.and_eq_true] at queueing
      rw [List.foldlM_cons] at ran
      rcases Option.bind_eq_some_iff.mp ran with ⟨middle, first, rest⟩
      rcases Option.map_eq_some_iff.mp first with ⟨⟨result, _⟩, ticked, rfl⟩
      exact induction (reachable.tick queueing.1 ticked) queueing.2 rest

end Reachable

end Cecs

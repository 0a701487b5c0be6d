import Cecs.Commands.Erased
import Cecs.Foundation.Lockstep
import Cecs.World.Carrying
import Mathlib.Algebra.BigOperators.Group.List.Basic
import Mathlib.Algebra.Order.Group.Multiset

/-! # The owners of boxes

Each resource and each queued command owns one box. What is done through the pointers does
what the typed commands do, takes back each box once, and faults nowhere else. -/

namespace Cecs

open Foundation

/-- A command with the addresses of its boxes. -/
abbrev OwnedCommand (Value : Type) :=
  QueuedCommand (Nat × ComponentCommand Value) (Nat × ResourceCommand Value)

section Payloads

variable {Value : Type}

def ErasedComponentCommand.boxed (entry : Nat × ComponentCommand Value) : ErasedComponentCommand :=
  { inner := some entry.1 }

def ErasedResourceCommand.boxed (entry : Nat × ResourceCommand Value) : ErasedResourceCommand :=
  { inner := some entry.1 }

/-- The boxes of a payload. -/
def payloadBoxes (payload : List (Nat × ComponentCommand Value)) :
    Multiset (Nat × BoxContent Value) :=
  (payload.map fun entry => {(entry.1, .componentCommand entry.2)}).sum

namespace OwnedCommand

/-- What the program keeps. -/
def erased (self : OwnedCommand Value) : ErasedPayload :=
  self.map ErasedComponentCommand.boxed ErasedResourceCommand.boxed

/-- What it stands for. -/
def plain : OwnedCommand Value → CommandPayload Value
  | .Entity action payload => .Entity { action, payload := payload.map Prod.snd }
  | .Resource entry => .Resource entry.2
  | .World command => .World command

def boxes : OwnedCommand Value → Multiset (Nat × BoxContent Value)
  | .Entity _ payload => payloadBoxes payload
  | .Resource entry => {(entry.1, .resourceCommand entry.2)}
  | .World _ => 0

def allBoxes (commands : List (OwnedCommand Value)) : Multiset (Nat × BoxContent Value) :=
  (commands.map boxes).sum

theorem allBoxes_concat (commands : List (OwnedCommand Value)) (command : OwnedCommand Value) :
    allBoxes (commands ++ [command]) = command.boxes + allBoxes commands := by
  rw [allBoxes, List.map_append, List.sum_append, List.map_singleton, List.sum_singleton,
    add_comm]
  rfl

theorem allBoxes_flatten (commands : List (List (OwnedCommand Value))) :
    allBoxes commands.flatten = (commands.map allBoxes).sum := by
  rw [allBoxes, List.map_flatten, List.sum_flatten, List.map_map]
  rfl

end OwnedCommand

/-- One item of a list, and the sum over the others. -/
theorem sum_set {α β : Type} [AddCommMonoid β] (f : α → β) {items : List α} {place : Nat} {a : α}
    (found : items[place]? = some a) :
    ∃ others, (items.map f).sum = f a + others ∧
      ∀ b, ((items.set place b).map f).sum = f b + others := by
  induction items generalizing place with
  | nil => cases found
  | cons first items induction =>
      cases place with
      | zero =>
          cases found
          exact ⟨_, List.sum_cons, fun _ => List.sum_cons⟩
      | succ place =>
          rcases induction found with ⟨others, before, after⟩
          refine ⟨f first + others, ?_, ?_⟩
          · rw [List.map_cons, List.sum_cons, before, add_left_comm]
          · intro b
            rw [List.set_cons_succ, List.map_cons, List.sum_cons, after, add_left_comm]

variable {heap : Heap Value} {rest : Multiset (Nat × BoxContent Value)} {w : World Value}
  {id : EntityId} {payload : List (Nat × ComponentCommand Value)}

theorem dropInner_owned {address : Nat} {content : BoxContent Value}
    (owns : heap.Owns ({(address, content)} + rest)) :
    ∃ after, dropInner (some address) heap = some after ∧ after.Owns rest := by
  rcases owns.fromRaw with ⟨after, taken, ownsRest⟩
  exact ⟨after, by rw [dropInner, taken]; rfl, ownsRest⟩

theorem payloadBoxes_cons (entry : Nat × ComponentCommand Value)
    (payload : List (Nat × ComponentCommand Value)) :
    payloadBoxes (entry :: payload) =
      {(entry.1, .componentCommand entry.2)} + payloadBoxes payload := List.sum_cons

theorem payloadBoxes_concat (payload : List (Nat × ComponentCommand Value))
    (entry : Nat × ComponentCommand Value) :
    payloadBoxes (payload ++ [entry]) =
      {(entry.1, .componentCommand entry.2)} + payloadBoxes payload := by
  rw [payloadBoxes, List.map_append, List.sum_append, List.map_singleton, List.sum_singleton,
    add_comm]
  rfl

namespace ErasedComponentCommand

theorem dropAll_owned (owns : heap.Owns (payloadBoxes payload + rest)) :
    ∃ after, dropAll (payload.map ErasedComponentCommand.boxed) heap = some after ∧
      after.Owns rest := by
  rw [dropAll, List.foldlM_map]
  exact Boxes.Owns.foldlM (fun _ _ _ => dropInner_owned) owns

/-- The results are alike, and these boxes are left. -/
def Leaves (rest : Multiset (Nat × BoxContent Value))
    (boxed : WorldResult Unit × World Value × Heap Value)
    (plain : WorldResult Unit × World Value) : Prop :=
  (boxed.1, boxed.2.1) = plain ∧ boxed.2.2.Owns rest

variable [UnitTypeId]

theorem apply_owned (entry : Nat × ComponentCommand Value)
    (owns : heap.Owns ({(entry.1, .componentCommand entry.2)} + rest)) :
    Lockstep (Leaves rest) ((ErasedComponentCommand.boxed entry).apply id w heap)
      (entry.2.apply id w) := by
  rcases owns.fromRaw with ⟨after, taken, ownsRest⟩
  simp only [apply, ErasedComponentCommand.boxed, Option.bind_eq_bind, Option.bind_some, taken]
  cases entry.2.apply id w with
  | none => exact .none
  | some outcome => exact .some ⟨rfl, ownsRest⟩

theorem applyAll_owned (owns : heap.Owns (payloadBoxes payload + rest)) :
    Lockstep (Leaves rest) (applyAll id (payload.map ErasedComponentCommand.boxed) w heap)
      (forEach (fun command => command.apply id) (payload.map Prod.snd) w) := by
  induction payload generalizing w heap with
  | nil =>
      rw [payloadBoxes, List.map_nil, List.sum_nil, zero_add] at owns
      exact .some ⟨rfl, owns⟩
  | cons entry payload induction =>
      rw [payloadBoxes_cons, add_assoc] at owns
      rw [List.map_cons, List.map_cons, applyAll, forEach]
      refine (apply_owned entry owns).bind ?_
      rintro ⟨result, after, middle⟩ _ ⟨rfl, ownsRest⟩
      cases result with
      | ok done => exact induction ownsRest
      | error error =>
          rcases dropAll_owned ownsRest with ⟨last, dropped, ownsLast⟩
          simp only [Option.bind_eq_bind, Option.bind_some, dropped]
          exact .some ⟨rfl, ownsLast⟩

theorem applyPayload_owned (owns : heap.Owns (payloadBoxes payload + rest)) :
    Lockstep (Leaves rest) (applyPayload (payload.map ErasedComponentCommand.boxed) id w heap)
      (EntityCommands.applyPayload (payload.map Prod.snd) id w) := by
  rw [applyPayload, EntityCommands.applyPayload]
  split
  · exact applyAll_owned owns
  · rcases dropAll_owned owns with ⟨after, dropped, ownsRest⟩
    rw [dropped]
    exact .some ⟨rfl, ownsRest⟩

variable [BuiltinValues Value]

theorem applyEntity_owned (action : EntityAction)
    (owns : heap.Owns (payloadBoxes payload + rest)) :
    Lockstep (Leaves rest)
      (applyEntity action (payload.map ErasedComponentCommand.boxed) w heap)
      (EntityCommands.apply { action, payload := payload.map Prod.snd } w) := by
  cases action with
  | Fetch id => exact applyPayload_owned owns
  | Init id =>
      rw [applyEntity, EntityCommands.apply]
      simp only [Option.bind_eq_bind]
      cases w.initId id with
      | none => exact .none
      | some placed =>
          simp only [Option.bind_some]
          cases placed.reserveEntities 1 with
          | none => exact .none
          | some reserved => exact applyPayload_owned owns
  | InsertId id =>
      rw [applyEntity, EntityCommands.apply]
      simp only [Option.bind_eq_bind]
      cases w.insertId id with
      | none => exact .none
      | some outcome =>
          rcases outcome with ⟨result, placed⟩
          cases result with
          | ok done => exact applyPayload_owned owns
          | error error =>
              cases error with
              | Taken id =>
                  rcases dropAll_owned owns with ⟨after, dropped, ownsRest⟩
                  simp only [Option.bind_some, dropped]
                  exact .some ⟨rfl, ownsRest⟩
              | AlreadyInserted id => exact applyPayload_owned owns
  | Insert =>
      rw [applyEntity, EntityCommands.apply]
      simp only [Option.bind_eq_bind]
      cases w.insertEntity with
      | none => exact .none
      | some outcome => exact applyPayload_owned owns
  | Delete id =>
      rw [applyEntity, EntityCommands.apply]
      rcases dropAll_owned owns with ⟨after, dropped, ownsRest⟩
      simp only [Option.bind_eq_bind, dropped]
      cases w.deleteEntity id with
      | none => exact .none
      | some outcome => exact .some ⟨rfl, ownsRest⟩
  | Merge src dst =>
      rw [applyEntity, EntityCommands.apply]
      rcases dropAll_owned owns with ⟨after, dropped, ownsRest⟩
      simp only [Option.bind_eq_bind, dropped]
      cases w.mergeEntities src dst with
      | none => exact .none
      | some outcome => exact .some ⟨rfl, ownsRest⟩

end ErasedComponentCommand

end Payloads

end Cecs

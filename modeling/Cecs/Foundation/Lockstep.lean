import Mathlib.Logic.Relation

/-! # Two partial programs in lockstep

One of them faults exactly when the other does, and where both return, their results are
related. -/

namespace Cecs

namespace Foundation

variable {α β γ δ ι : Type}

/-- The programs fault together or end in related results. -/
abbrev Lockstep (related : α → β → Prop) (concrete : Option α) (abstract : Option β) : Prop :=
  Option.Rel related concrete abstract

namespace Lockstep

variable {related : α → β → Prop} {concrete : Option α} {abstract : Option β}

theorem returns (both : Lockstep related concrete abstract) {result : α}
    (returned : concrete = some result) :
    ∃ other, abstract = some other ∧ related result other := by
  cases both with
  | none => cases returned
  | some results =>
      cases returned
      exact ⟨_, rfl, results⟩

theorem mono {wider : α → β → Prop} (both : Lockstep related concrete abstract)
    (wide : ∀ a b, related a b → wider a b) : Lockstep wider concrete abstract := by
  cases both with
  | none => exact .none
  | some results => exact .some (wide _ _ results)

theorem bind {after : γ → δ → Prop} (both : Lockstep related concrete abstract)
    {next : α → Option γ} {other : β → Option δ}
    (continues : ∀ a b, related a b → Lockstep after (next a) (other b)) :
    Lockstep after (concrete.bind next) (abstract.bind other) := by
  cases both with
  | none => exact .none
  | some results => exact continues _ _ results

theorem map {after : γ → δ → Prop} (both : Lockstep related concrete abstract)
    {next : α → γ} {other : β → δ} (continues : ∀ a b, related a b → after (next a) (other b)) :
    Lockstep after (concrete.map next) (abstract.map other) := by
  cases both with
  | none => exact .none
  | some results => exact .some (continues _ _ results)

/-- Both go on from one program. -/
theorem binds (program : Option ι) {next : ι → Option α} {other : ι → Option β}
    (continues : ∀ i, Lockstep related (next i) (other i)) :
    Lockstep related (program.bind next) (program.bind other) := by
  cases program with
  | none => exact .none
  | some i => exact continues i

/-- Steps in lockstep make runs in lockstep. -/
theorem foldlM {ι : Type u} {step : α → ι → Option α} {other : β → ι → Option β}
    (steps : ∀ a b i, related a b → Lockstep related (step a i) (other b i)) {a : α} {b : β}
    (start : related a b) (calls : List ι) :
    Lockstep related (calls.foldlM step a) (calls.foldlM other b) := by
  induction calls generalizing a b with
  | nil => exact .some start
  | cons call calls induction =>
      rw [List.foldlM_cons, List.foldlM_cons]
      exact (steps a b call start).bind fun _ _ results => induction results

end Lockstep

end Foundation

end Cecs

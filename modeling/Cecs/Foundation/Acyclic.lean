import Mathlib.Logic.Relation
import Mathlib.Order.WellFoundedSet

/-! # Acyclic relations -/

namespace Cecs

namespace Foundation

variable {α : Type} {related : α → α → Prop}

/-- In a finite set something has no predecessor in the set. -/
theorem exists_first (noCycle : ∀ a, ¬Relation.TransGen related a a) {items : List α}
    (nonempty : items ≠ []) : ∃ a ∈ items, ∀ b ∈ items, ¬related b a := by
  let before := Relation.TransGen related
  have strict : IsStrictOrder α before :=
    { irrefl := noCycle, trans := fun _ _ _ first second => first.trans second }
  have finite : {a | a ∈ items}.Finite := List.finite_toSet items
  have founded := finite.wellFoundedOn (r := before)
  rcases List.exists_mem_of_ne_nil items nonempty with ⟨start, member⟩
  rcases founded.has_min Set.univ ⟨⟨start, member⟩, trivial⟩ with ⟨⟨first, listed⟩, _, minimal⟩
  exact ⟨first, listed, fun b memberB precedes =>
    minimal ⟨b, memberB⟩ trivial (.single precedes)⟩

end Foundation

end Cecs

import Mathlib.Data.List.Basic
import Mathlib.Logic.Function.Basic

/-! # Intrusive linked lists

A linked list whose links are stored with its nodes: `next node` is the link
kept at a node, and the list ends where a link equals `stop`. -/

namespace Cecs.Foundation

/-- Following `next` from `link` visits exactly `nodes` and then meets `stop`. -/
def Chain (next : α → Option α) (stop : α) : α → List α → Prop
  | link, [] => link = stop
  | link, node :: rest =>
      link = node ∧ node ≠ stop ∧
        ∃ following, next node = some following ∧ Chain next stop following rest

namespace Chain

variable {next : α → Option α} {stop link : α} {nodes : List α}

@[simp] theorem nil_iff : Chain next stop link [] ↔ link = stop := Iff.rfl

/-- Links of other nodes do not matter. -/
theorem congr {changed : α → Option α} (chain : Chain next stop link nodes)
    (same : ∀ node ∈ nodes, changed node = next node) :
    Chain changed stop link nodes := by
  induction nodes generalizing link with
  | nil => exact chain
  | cons node rest induction =>
      rcases chain with ⟨atNode, notStop, following, linked, tail⟩
      refine ⟨atNode, notStop, following, ?_, ?_⟩
      · rw [same node List.mem_cons_self, linked]
      · exact induction tail fun other member => same other (List.mem_cons_of_mem _ member)

theorem eq_nil_iff (chain : Chain next stop link nodes) : nodes = [] ↔ link = stop := by
  cases nodes with
  | nil => simpa using chain
  | cons node rest =>
      rcases chain with ⟨atNode, notStop, _⟩
      simpa [atNode] using notStop

/-- A chain continues from the link of the last node of any front part. -/
theorem tail_of_append {front back : List α} {node : α}
    (chain : Chain next stop link (front ++ node :: back)) :
    ∃ following, next node = some following ∧ Chain next stop following back := by
  induction front generalizing link with
  | nil => exact chain.2.2
  | cons head rest induction =>
      rcases chain with ⟨_, _, _, _, tail⟩
      exact induction tail

/-- Redirecting the link of `before` past its successor drops the successor. -/
theorem unlink [DecidableEq α] {front back : List α} {before node following : α}
    (chain : Chain next stop link (front ++ before :: node :: back))
    (nodup : (front ++ before :: node :: back).Nodup)
    (linked : next node = some following) :
    Chain (Function.update next before (some following)) stop link
      (front ++ before :: back) := by
  induction front generalizing link with
  | nil =>
      rcases chain with ⟨atBefore, notStop, between, _, tail⟩
      rcases tail with ⟨_, _, beyond, linkedBeyond, rest⟩
      have same : beyond = following := by
        rw [linked] at linkedBeyond
        exact (Option.some.inj linkedBeyond).symm
      refine ⟨atBefore, notStop, following, Function.update_self .., ?_⟩
      rw [← same]
      apply rest.congr
      intro other member
      have different : other ≠ before := by
        rintro rfl
        simp [member] at nodup
      exact Function.update_of_ne different ..
  | cons head rest induction =>
      rcases chain with ⟨atHead, notStop, second, linkedHead, tail⟩
      have parts := List.nodup_cons.mp nodup
      have different : head ≠ before := by
        rintro rfl
        exact parts.1 (by simp)
      refine ⟨atHead, notStop, second, ?_, induction tail parts.2⟩
      rw [Function.update_of_ne different, linkedHead]

/-- Consecutive numbers, each linked to the next, in front of a chain. -/
theorem range'_append {next : Nat → Option Nat} {stop last : Nat} {rest : List Nat}
    (chain : Chain next stop last rest) {start count : Nat} (positive : 0 < count)
    (linked : ∀ node, start ≤ node → node < start + count →
      next node = some (if node + 1 = start + count then last else node + 1))
    (notStop : ∀ node, start ≤ node → node < start + count → node ≠ stop) :
    Chain next stop start (List.range' start count ++ rest) := by
  induction count generalizing start with
  | zero => omega
  | succ count induction =>
      rw [List.range'_succ, List.cons_append]
      refine ⟨rfl, notStop start (by omega) (by omega), _, linked start (by omega) (by omega), ?_⟩
      by_cases one : count = 0
      · subst one
        simpa using chain
      · rw [if_neg (by omega)]
        apply induction (by omega)
        · intro node fromStart before
          rw [linked node (by omega) (by omega)]
          have same : start + (count + 1) = start + 1 + count := by omega
          rw [same]
        · intro node fromStart before
          exact notStop node (by omega) (by omega)

end Chain

end Cecs.Foundation

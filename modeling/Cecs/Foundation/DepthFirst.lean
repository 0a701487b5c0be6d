import Mathlib.Data.List.Perm.Basic
import Mathlib.Data.Option.Basic
import Mathlib.Logic.Relation

/-! # Depth-first search in post-order

A search that leaves a node after everything the node leads to. The path from the
root is the only thing it is told about the nodes that it has entered but not
left, and it gives up when the path closes. -/

namespace Cecs

namespace Foundation

/-- The nodes not yet entered, and those left, in the order in which they were left. -/
structure Search (α : Type) where
  white : List α
  out : List α

namespace DepthFirst

variable {α : Type} [DecidableEq α]

def visit (next : α → List α) : Nat → α → List α → Search α → Option (Search α)
  | 0, _, _, _ => none
  | fuel + 1, node, pending, state => do
      guard (node ∉ pending)
      if node ∈ state.white then
        let extended ← (next node).foldlM
          (fun state other => visit next fuel other (pending ++ [node]) state)
          { state with white := state.white.filter (· != node) }
        return { extended with out := extended.out ++ [node] }
      else
        return state

/-- The search from each node in turn, one more level deep than there are nodes. -/
def postOrder (next : α → List α) (nodes : List α) : Option (List α) := do
  let final ← nodes.foldlM (fun state node => visit next (nodes.length + 1) node [] state)
    { white := nodes, out := [] }
  return final.out

/-- The steps between nodes; `next` may name other things. -/
def Edge (next : α → List α) (nodes : List α) (a b : α) : Prop :=
  a ∈ nodes ∧ b ∈ nodes ∧ b ∈ next a

abbrev Reaches (next : α → List α) (nodes : List α) : α → α → Prop :=
  Relation.ReflTransGen (Edge next nodes)

variable {next : α → List α} {nodes pending roots : List α} {state result : Search α}

omit [DecidableEq α] in
theorem Reaches.mem {a b : α} (reaches : Reaches next nodes a b) (member : b ∈ nodes) :
    a ∈ nodes := by
  rcases Relation.ReflTransGen.cases_head reaches with rfl | ⟨_, edge, _⟩
  · exact member
  · exact edge.1

section Closed

/-- Everything that a node leads to stands before it. -/
def Closed (next : α → List α) (nodes out : List α) : Prop :=
  ∀ front node back, out = front ++ node :: back →
    ∀ other ∈ next node, other ∈ nodes → other ∈ front

variable {out : List α}

omit [DecidableEq α] in
theorem Closed.reaches (closed : Closed next nodes out) {front back : List α} {node other : α}
    (split : out = front ++ node :: back)
    (reaches : Relation.TransGen (Edge next nodes) node other) : other ∈ front := by
  induction reaches with
  | single edge => exact closed front node back split _ edge.2.2 edge.2.1
  | @tail middle other _ edge induction =>
      rcases List.append_of_mem induction with ⟨before, after, same⟩
      have inside : out = before ++ middle :: (after ++ node :: back) := by
        rw [split, same, List.append_assoc, List.cons_append]
      rw [same]
      exact List.mem_append_left _ (closed before _ _ inside _ edge.2.2 edge.2.1)

omit [DecidableEq α] in
theorem Closed.mem (closed : Closed next nodes out) {node other : α} (member : node ∈ out)
    (reaches : Reaches next nodes node other) : other ∈ out := by
  rcases Relation.reflTransGen_iff_eq_or_transGen.mp reaches with rfl | further
  · exact member
  · rcases List.append_of_mem member with ⟨front, back, split⟩
    rw [split]
    exact List.mem_append_left _ (closed.reaches split further)

omit [DecidableEq α] in
/-- Nothing that was left is led to by something left earlier. -/
theorem Closed.pairwise (closed : Closed next nodes out) (distinct : out.Nodup) :
    out.Pairwise fun a b => ¬Relation.TransGen (Edge next nodes) a b := by
  have along : ∀ back front, out = front ++ back →
      back.Pairwise fun a b => ¬Relation.TransGen (Edge next nodes) a b := by
    intro back
    induction back with
    | nil => exact fun _ _ => List.Pairwise.nil
    | cons node back induction =>
        intro front split
        refine List.Pairwise.cons ?_ (induction (front ++ [node]) (by simp [split]))
        intro other member reaches
        have before := closed.reaches split reaches
        rw [split] at distinct
        exact (List.nodup_append.mp distinct).2.2 other before other
          (List.mem_cons_of_mem _ member) rfl
  exact along out [] rfl

omit [DecidableEq α] in
theorem Closed.append {node : α} (closed : Closed next nodes out)
    (first : ∀ other ∈ next node, other ∈ nodes → other ∈ out) :
    Closed next nodes (out ++ [node]) := by
  intro front last back split other named listed
  rcases List.eq_nil_or_concat back with rfl | ⟨rest, final, rfl⟩
  · have parts := List.append_inj' split rfl
    cases parts.1
    cases List.singleton_inj.mp parts.2
    exact first other named listed
  · have regrouped : out ++ [node] = (front ++ last :: rest) ++ [final] := by simp [split]
    exact closed front last rest (List.append_inj' regrouped rfl).1 other named listed

end Closed

section Visits

/-- Every node is pending, white or out, and in one of them only. -/
def Divides (nodes pending : List α) (state : Search α) : Prop :=
  (pending ++ state.white ++ state.out).Perm nodes

theorem Divides.enter (divides : Divides nodes pending state) (distinct : nodes.Nodup) {node : α}
    (member : node ∈ state.white) :
    Divides nodes (pending ++ [node])
      { state with white := state.white.filter (· != node) } := by
  have apart : state.white.Nodup :=
    (List.nodup_append.mp (List.nodup_append.mp (divides.nodup_iff.mpr distinct)).1).2.1
  have split := List.perm_cons_erase member
  rw [apart.erase_eq_filter] at split
  have moved := (split.symm.append_left pending).append_right state.out
  rw [Divides, List.append_assoc pending, List.singleton_append]
  exact moved.trans divides

omit [DecidableEq α] in
theorem Divides.leave {node : α} (divides : Divides nodes (pending ++ [node]) state) :
    Divides nodes pending { state with out := state.out ++ [node] } := by
  have moved : (pending ++ state.white ++ (state.out ++ [node])).Perm
      (pending ++ [node] ++ state.white ++ state.out) := by
    rw [← List.append_assoc, List.append_assoc pending [node], List.append_assoc pending,
      List.append_assoc pending, List.append_assoc pending]
    have toFront : (state.white ++ state.out ++ [node]).Perm
        ([node] ++ state.white ++ state.out) := List.perm_append_comm
    exact toFront.append_left pending
  exact moved.trans divides

/-- What a search from `roots` in turn establishes. -/
structure Grows (next : α → List α) (nodes pending roots : List α)
    (before after : Search α) : Prop where
  divides : Divides nodes pending after
  closed : Closed next nodes after.out
  grown : ∃ found, after.out = before.out ++ found ∧
    ∀ x ∈ found, ∃ root ∈ roots, root ∈ nodes ∧ Reaches next nodes root x
  complete : ∀ root ∈ roots, root ∈ nodes → root ∈ after.out

omit [DecidableEq α] in
theorem grows_foldlM {search : Search α → α → Option (Search α)}
    (step : ∀ state node result, Divides nodes pending state → Closed next nodes state.out →
      search state node = some result → Grows next nodes pending [node] state result)
    (divides : Divides nodes pending state) (closed : Closed next nodes state.out)
    (folded : roots.foldlM search state = some result) :
    Grows next nodes pending roots state result := by
  induction roots generalizing state with
  | nil =>
      cases folded
      exact ⟨divides, closed, ⟨[], by simp⟩, by simp⟩
  | cons root rest induction =>
      rw [List.foldlM_cons] at folded
      rcases Option.bind_eq_some_iff.mp folded with ⟨middle, first, folded⟩
      have head := step state root middle divides closed first
      have tail := induction head.divides head.closed folded
      rcases head.grown with ⟨found, grown, reached⟩
      rcases tail.grown with ⟨more, grownMore, reachedMore⟩
      refine ⟨tail.divides, tail.closed, ⟨found ++ more, ?_, ?_⟩, ?_⟩
      · rw [grownMore, grown, List.append_assoc]
      · intro x member
        rcases List.mem_append.mp member with early | late
        · rcases reached x early with ⟨other, isRoot, reaches⟩
          exact ⟨other, List.mem_cons.mpr (Or.inl (List.mem_singleton.mp isRoot)), reaches⟩
        · rcases reachedMore x late with ⟨other, inRest, reaches⟩
          exact ⟨other, List.mem_cons_of_mem _ inRest, reaches⟩
      · intro other isRoot listed
        rcases List.mem_cons.mp isRoot with rfl | inRest
        · rw [grownMore]
          exact List.mem_append_left _ (head.complete other (List.mem_singleton_self _) listed)
        · exact tail.complete other inRest listed

theorem visit_grows (distinct : nodes.Nodup) {fuel : Nat} {node : α}
    (divides : Divides nodes pending state) (closed : Closed next nodes state.out)
    (visited : visit next fuel node pending state = some result) :
    Grows next nodes pending [node] state result := by
  induction fuel generalizing node pending state result with
  | zero => cases visited
  | succ fuel induction =>
      simp only [visit, Option.bind_eq_bind, Option.bind_eq_some_iff, Option.guard_eq_some',
        exists_and_left, exists_const] at visited
      rcases visited with ⟨notPending, searched⟩
      by_cases white : node ∈ state.white
      · simp only [if_pos white, Option.bind_eq_some_iff, Option.pure_def, Option.some.injEq]
          at searched
        rcases searched with ⟨middle, folded, rfl⟩
        have listed : node ∈ nodes := divides.mem_iff.mp (by simp [white])
        have inner := grows_foldlM
          (fun state node result divides closed visited => induction divides closed visited)
          (divides.enter distinct white) closed folded
        rcases inner.grown with ⟨found, grown, reached⟩
        refine ⟨inner.divides.leave, inner.closed.append inner.complete,
          ⟨found ++ [node], ?_, ?_⟩, ?_⟩
        · change middle.out ++ [node] = _
          rw [grown, List.append_assoc]
        · intro x member
          refine ⟨node, List.mem_singleton_self _, listed, ?_⟩
          rcases List.mem_append.mp member with inside | last
          · rcases reached x inside with ⟨other, named, otherListed, reaches⟩
            exact .head ⟨listed, otherListed, named⟩ reaches
          · rw [List.mem_singleton.mp last]
        · intro other isNode _
          rw [List.mem_singleton.mp isNode]
          simp
      · rw [if_neg white] at searched
        cases searched
        refine ⟨divides, closed, ⟨[], by simp⟩, ?_⟩
        intro other isNode listed
        rw [List.mem_singleton.mp isNode] at listed ⊢
        have placed := divides.mem_iff.mpr listed
        simpa [notPending, white] using placed

theorem visit_white {fuel : Nat} {node : α} (notPending : node ∉ pending)
    (white : node ∈ state.white) : visit next (fuel + 1) node pending state =
      ((next node).foldlM (fun state other => visit next fuel other (pending ++ [node]) state)
        { state with white := state.white.filter (· != node) }).map
          fun extended => { extended with out := extended.out ++ [node] } := by
  simp only [visit, notPending, not_false_eq_true, guard_true, white, if_true, Option.pure_def,
    Option.bind_eq_bind, Option.bind_some]
  exact (Option.map_eq_bind).symm

theorem visit_skip {fuel : Nat} {node : α} (notPending : node ∉ pending)
    (left : node ∉ state.white) : visit next (fuel + 1) node pending state = some state := by
  simp [visit, notPending, left]

/-- Without a cycle the path never closes, and it is never longer than the nodes. -/
theorem visit_total (acyclic : ∀ a, ¬Relation.TransGen (Edge next nodes) a a)
    (distinct : nodes.Nodup) {fuel : Nat} {node : α} (divides : Divides nodes pending state)
    (closed : Closed next nodes state.out)
    (path : node ∈ nodes → ∀ a ∈ pending, Relation.TransGen (Edge next nodes) a node)
    (depth : fuel + pending.length = nodes.length + 1) :
    ∃ result, visit next fuel node pending state = some result := by
  induction fuel generalizing node pending state with
  | zero =>
      have length := divides.length_eq
      simp only [List.length_append] at length
      omega
  | succ fuel induction =>
      have notPending : node ∉ pending := by
        intro member
        have listed : node ∈ nodes := divides.mem_iff.mp (by simp [member])
        exact acyclic node (path listed node member)
      by_cases white : node ∈ state.white
      · have listed : node ∈ nodes := divides.mem_iff.mp (by simp [white])
        have folds : ∀ (others : List α) (state : Search α), (∀ other ∈ others, other ∈ next node) →
            Divides nodes (pending ++ [node]) state → Closed next nodes state.out →
            ∃ result, others.foldlM
              (fun state other => visit next fuel other (pending ++ [node]) state) state =
                some result := by
          intro others
          induction others with
          | nil => exact fun state _ _ _ => ⟨state, rfl⟩
          | cons other rest inductionRest =>
              intro state named divides closed
              have onPath : other ∈ nodes →
                  ∀ a ∈ pending ++ [node], Relation.TransGen (Edge next nodes) a other := by
                intro otherListed a member
                have edge : Edge next nodes node other :=
                  ⟨listed, otherListed, named other List.mem_cons_self⟩
                rcases List.mem_append.mp member with before | last
                · exact (path listed a before).tail edge
                · exact List.mem_singleton.mp last ▸ .single edge
              rcases induction divides closed onPath (by simp; omega) with ⟨middle, visited⟩
              have head := visit_grows distinct divides closed visited
              rcases inductionRest middle (fun a member => named a (List.mem_cons_of_mem _ member))
                  head.divides head.closed with
                ⟨result, folded⟩
              exact ⟨result, by rw [List.foldlM_cons, visited]; exact folded⟩
        rcases folds (next node) _ (fun _ named => named) (divides.enter distinct white) closed
          with ⟨result, folded⟩
        exact ⟨_, by rw [visit_white notPending white, folded]; rfl⟩
      · exact ⟨state, visit_skip notPending white⟩

end Visits

section PostOrder

variable {order : List α}

omit [DecidableEq α] in
theorem divides_start (nodes : List α) :
    Divides nodes [] ({ white := nodes, out := [] } : Search α) := by
  rw [Divides, List.nil_append, List.append_nil]

omit [DecidableEq α] in
theorem closed_nil : Closed next nodes [] := by
  intro front node back split
  simp at split

theorem postOrder_eq_some_iff : postOrder next nodes = some order ↔ ∃ final : Search α,
    nodes.foldlM (fun state node => visit next (nodes.length + 1) node [] state)
      { white := nodes, out := [] } = some final ∧ final.out = order := by
  simp [postOrder, Option.bind_eq_some_iff]

omit [DecidableEq α] in
theorem foldlM_split {search : Search α → α → Option (Search α)} {items front back : List α}
    {item : α} (split : items = front ++ item :: back)
    (folded : items.foldlM search state = some result) :
    ∃ before after, front.foldlM search state = some before ∧ search before item = some after ∧
      back.foldlM search after = some result := by
  subst split
  rw [List.foldlM_append] at folded
  rcases Option.bind_eq_some_iff.mp folded with ⟨before, first, folded⟩
  rw [List.foldlM_cons] at folded
  rcases Option.bind_eq_some_iff.mp folded with ⟨after, second, rest⟩
  exact ⟨before, after, first, second, rest⟩

/-- The search from several roots in turn. -/
theorem visits_grow (distinct : nodes.Nodup) {fuel : Nat} (divides : Divides nodes pending state)
    (closed : Closed next nodes state.out)
    (visited : roots.foldlM (fun state node => visit next fuel node pending state) state =
      some result) : Grows next nodes pending roots state result :=
  grows_foldlM (fun _ _ _ divides closed visited => visit_grows distinct divides closed visited)
    divides closed visited

theorem postOrder_spec (distinct : nodes.Nodup) (ordered : postOrder next nodes = some order) :
    order.Perm nodes ∧ Closed next nodes order := by
  rcases postOrder_eq_some_iff.mp ordered with ⟨final, folded, rfl⟩
  have grows := visits_grow distinct (divides_start nodes) closed_nil folded
  refine ⟨?_, grows.closed⟩
  have all := grows.divides
  have apart := List.nodup_append.mp (all.nodup_iff.mpr distinct)
  apply (List.perm_ext_iff_of_nodup apart.2.1 distinct).mpr
  intro node
  constructor
  · exact fun member => all.mem_iff.mp (List.mem_append_right _ member)
  · exact fun listed => grows.complete node listed listed

/-- The search gives up exactly on graphs with a cycle. -/
theorem postOrder_eq_none_iff (distinct : nodes.Nodup) :
    postOrder next nodes = none ↔ ∃ a, Relation.TransGen (Edge next nodes) a a := by
  constructor
  · intro stuck
    by_contra noCycle
    rw [not_exists] at noCycle
    have folds : ∀ (roots : List α) (state : Search α), Divides nodes [] state →
        Closed next nodes state.out → ∃ result, roots.foldlM
          (fun state node => visit next (nodes.length + 1) node [] state) state =
            some result := by
      intro roots
      induction roots with
      | nil => exact fun state _ _ => ⟨state, rfl⟩
      | cons root rest induction =>
          intro state divides closed
          obtain ⟨middle, visited⟩ :
              ∃ middle, visit next (nodes.length + 1) root [] state = some middle :=
            visit_total noCycle distinct divides closed (by simp) (by simp)
          have head := visit_grows distinct divides closed visited
          rcases induction middle head.divides head.closed with ⟨result, folded⟩
          exact ⟨result, by rw [List.foldlM_cons, visited]; exact folded⟩
    rcases folds nodes _ (divides_start nodes) closed_nil with ⟨final, folded⟩
    rw [postOrder_eq_some_iff.mpr ⟨final, folded, rfl⟩] at stuck
    cases stuck
  · rintro ⟨a, cycle⟩
    rw [Option.eq_none_iff_forall_ne_some]
    intro order ordered
    rcases postOrder_spec distinct ordered with ⟨perm, closed⟩
    have listed : a ∈ nodes := by
      rcases Relation.TransGen.head'_iff.mp cycle with ⟨_, edge, _⟩
      exact edge.1
    rcases List.append_of_mem (perm.mem_iff.mpr listed) with ⟨front, back, split⟩
    have before := closed.reaches split cycle
    have apart := perm.nodup_iff.mpr distinct
    rw [split] at apart
    exact (List.nodup_append.mp apart).2.2 a before a List.mem_cons_self rfl

/-- Nodes that lead to no node stay in their order. -/
theorem postOrder_of_no_edges (distinct : nodes.Nodup)
    (isolated : ∀ node ∈ nodes, ∀ other ∈ next node, other ∉ nodes) :
    postOrder next nodes = some nodes := by
  -- Before each root the nodes in front of it are out and the others are white.
  have along : ∀ rest front, nodes = front ++ rest →
      rest.foldlM (fun state node => visit next (nodes.length + 1) node [] state)
        { white := rest, out := front } = some { white := [], out := nodes } := by
    intro rest
    induction rest with
    | nil =>
        intro front split
        rw [split, List.append_nil]
        rfl
    | cons node rest induction =>
        intro front split
        have listed : node ∈ nodes := by simp [split]
        obtain ⟨fuel, length⟩ : ∃ fuel, nodes.length = fuel + 1 :=
          Nat.exists_eq_add_one.mpr (List.length_pos_of_mem listed)
        have ignored : ∀ (others : List α) (state : Search α), (∀ other ∈ others, other ∉ nodes) →
            (∀ other ∈ state.white, other ∈ nodes) → others.foldlM
              (fun state other => visit next (fuel + 1) other [node] state) state =
                some state := by
          intro others
          induction others with
          | nil => exact fun _ _ _ => rfl
          | cons other others inductionOthers =>
              intro state outside white
              have absent := outside other List.mem_cons_self
              have different : other ≠ node := fun same => absent (same ▸ listed)
              have notWhite : other ∉ state.white := fun member => absent (white other member)
              rw [List.foldlM_cons, visit_skip (by simp [different]) notWhite]
              exact inductionOthers state
                (fun a member => outside a (List.mem_cons_of_mem _ member)) white
        have apart := distinct
        rw [split, List.nodup_append] at apart
        have fresh := (List.nodup_cons.mp apart.2.1).1
        have filtered : (node :: rest).filter (· != node) = rest := by
          rw [List.filter_cons_of_neg (by simp), List.filter_eq_self]
          intro other member
          exact bne_iff_ne.mpr fun same => fresh (same ▸ member)
        have inside : ∀ other ∈ rest, other ∈ nodes := by
          intro other member
          simp [split, member]
        have entered := ignored (next node) { white := rest, out := front }
          (isolated node listed) inside
        have visited : visit next (nodes.length + 1) node [] { white := node :: rest, out := front }
            = some { white := rest, out := front ++ [node] } := by
          rw [length, visit_white List.not_mem_nil List.mem_cons_self, filtered,
            List.nil_append, entered]
          rfl
        rw [List.foldlM_cons, visited]
        exact induction (front ++ [node]) (by simp [split])
  rw [postOrder_eq_some_iff]
  exact ⟨_, along nodes [] rfl, rfl⟩

end PostOrder

section Origins

open Classical in
/-- The position of the first node that leads to `node`. -/
noncomputable def origin (next : α → List α) (nodes : List α) (node : α) : Nat :=
  nodes.findIdx fun root => Reaches next nodes root node

omit [DecidableEq α] in
open Classical in
theorem origin_lt_iff {front back : List α} {node : α} (split : nodes = front ++ back) :
    origin next nodes node < front.length ↔ ∃ root ∈ front, Reaches next nodes root node := by
  have found := @List.findIdx_lt_length α (fun root => decide (Reaches next nodes root node)) front
  simp only [decide_eq_true_eq] at found
  rw [← found, origin]
  generalize (fun root => decide (Reaches next nodes root node)) = holds
  rw [split, List.findIdx_append]
  split <;> omega

omit [DecidableEq α] in
theorem origin_eq {front back : List α} {root node : α} (split : nodes = front ++ root :: back)
    (reaches : Reaches next nodes root node)
    (fresh : ∀ other ∈ front, ¬Reaches next nodes other node) :
    origin next nodes node = front.length := by
  have grouped : nodes = (front ++ [root]) ++ back := by simp [split]
  have below : origin next nodes node < (front ++ [root]).length :=
    (origin_lt_iff grouped).mpr ⟨root, by simp, reaches⟩
  have above : ¬origin next nodes node < front.length :=
    mt (origin_lt_iff split).mp (by simpa using fresh)
  rw [List.length_append, List.length_singleton] at below
  omega

/-- After the search from the nodes of `front` in turn, what they lead to is out, in the
order of the origins. -/
structure Rooted (next : α → List α) (nodes front : List α) (state : Search α) : Prop where
  divides : Divides nodes [] state
  closed : Closed next nodes state.out
  rooted : ∀ x ∈ state.out, origin next nodes x < front.length
  complete : ∀ root ∈ front, root ∈ state.out
  sorted : state.out.Pairwise fun a b => origin next nodes a ≤ origin next nodes b

theorem Rooted.visit (distinct : nodes.Nodup) {front back : List α} {root : α}
    (rooted : Rooted next nodes front state) (split : nodes = front ++ root :: back) {fuel : Nat}
    (visited : visit next fuel root [] state = some result) :
    Rooted next nodes (front ++ [root]) result := by
  have grows := visit_grows distinct rooted.divides rooted.closed visited
  rcases grows.grown with ⟨found, grown, reached⟩
  have apart := (List.nodup_append.mp (grows.divides.nodup_iff.mpr distinct)).2.1
  rw [grown] at apart
  have same : ∀ x ∈ found, origin next nodes x = front.length := by
    intro x member
    rcases reached x member with ⟨other, isRoot, _, reaches⟩
    rw [List.mem_singleton.mp isRoot] at reaches
    apply origin_eq split reaches
    intro earlier inFront earlierReaches
    have before := rooted.closed.mem (rooted.complete earlier inFront) earlierReaches
    exact (List.nodup_append.mp apart).2.2 x before x member rfl
  refine ⟨grows.divides, grows.closed, ?_, ?_, ?_⟩
  · intro x member
    rw [List.length_append, List.length_singleton]
    rw [grown] at member
    rcases List.mem_append.mp member with before | now
    · exact Nat.lt_succ_of_lt (rooted.rooted x before)
    · rw [same x now]
      exact Nat.lt_succ_self _
  · intro other member
    rcases List.mem_append.mp member with before | isRoot
    · rw [grown]
      exact List.mem_append_left _ (rooted.complete other before)
    · rw [List.mem_singleton.mp isRoot]
      exact grows.complete root (List.mem_singleton_self _) (by simp [split])
  · rw [grown, List.pairwise_append]
    refine ⟨rooted.sorted, ?_, ?_⟩
    · apply List.pairwise_of_forall_mem_list
      intro a memberA b memberB
      exact Nat.le_of_eq ((same a memberA).trans (same b memberB).symm)
    · intro a before b now
      rw [same b now]
      exact Nat.le_of_lt (rooted.rooted a before)

theorem Rooted.visits (distinct : nodes.Nodup) {front more back : List α}
    (rooted : Rooted next nodes front state) (split : nodes = front ++ more ++ back) {fuel : Nat}
    (visited : more.foldlM (fun state node => DepthFirst.visit next fuel node [] state) state =
      some result) : Rooted next nodes (front ++ more) result := by
  induction more generalizing front state with
  | nil =>
      cases visited
      rw [List.append_nil]
      exact rooted
  | cons root rest induction =>
      rw [List.foldlM_cons] at visited
      rcases Option.bind_eq_some_iff.mp visited with ⟨middle, first, visited⟩
      have atRoot : nodes = front ++ root :: (rest ++ back) := by simp [split]
      have tail := induction (rooted.visit distinct atRoot first) (by simp [split]) visited
      rw [List.append_assoc, List.singleton_append] at tail
      exact tail

omit [DecidableEq α] in
theorem rooted_start (next : α → List α) (nodes : List α) :
    Rooted next nodes [] { white := nodes, out := [] } :=
  ⟨divides_start nodes, closed_nil, by simp, by simp, List.Pairwise.nil⟩

/-- What is searched from one root stays together, in the order of the roots. -/
theorem postOrder_sorted (distinct : nodes.Nodup) {order : List α}
    (ordered : postOrder next nodes = some order) :
    order.Pairwise fun a b => origin next nodes a ≤ origin next nodes b := by
  rcases postOrder_eq_some_iff.mp ordered with ⟨final, folded, rfl⟩
  have rooted := (rooted_start next nodes).visits distinct (List.append_nil _).symm folded
  exact rooted.sorted

omit [DecidableEq α] in
theorem exists_origin (next : α → List α) {node : α} (listed : node ∈ nodes) :
    ∃ front root back, nodes = front ++ root :: back ∧ Reaches next nodes root node ∧
      origin next nodes node = front.length := by
  have below : origin next nodes node < nodes.length :=
    (origin_lt_iff (List.append_nil nodes).symm).mpr ⟨node, listed, .refl⟩
  generalize position : origin next nodes node = place at below
  have split : nodes = nodes.take place ++ nodes[place] :: nodes.drop (place + 1) := by
    rw [← List.drop_eq_getElem_cons below, List.take_append_drop]
  have length : (nodes.take place).length = place := List.length_take_of_le (Nat.le_of_lt below)
  refine ⟨_, _, _, split, ?_, length.symm⟩
  have grouped : nodes =
      (nodes.take place ++ [nodes[place]]) ++ nodes.drop (place + 1) := by
    rw [List.append_assoc, List.singleton_append]
    exact split
  have inside : origin next nodes node < (nodes.take place ++ [nodes[place]]).length := by
    rw [List.length_append, length, position]
    exact Nat.lt_succ_self place
  rcases (origin_lt_iff grouped).mp inside with ⟨root, member, leads⟩
  rcases List.mem_append.mp member with early | last
  · have less : origin next nodes node < (nodes.take place).length :=
      (origin_lt_iff split).mpr ⟨root, early, leads⟩
    omega
  · rw [List.mem_singleton.mp last] at leads
    exact leads

end Origins

section OrderFree

/-- Nodes with one origin are on one path. -/
def Chained (next : α → List α) (nodes : List α) : Prop :=
  ∀ a ∈ nodes, ∀ b ∈ nodes, origin next nodes a = origin next nodes b →
    Reaches next nodes a b ∨ Reaches next nodes b a

variable {other : α → List α} {order : List α}

omit [DecidableEq α] in
theorem edge_congr (same : ∀ a, (other a).Perm (next a)) :
    Edge other nodes = Edge next nodes := by
  funext a b
  simp only [Edge, (same a).mem_iff]

omit [DecidableEq α] in
theorem reaches_congr (same : ∀ a, (other a).Perm (next a)) :
    Reaches other nodes = Reaches next nodes := by
  rw [Reaches, Reaches, edge_congr same]

omit [DecidableEq α] in
theorem origin_congr (same : ∀ a, (other a).Perm (next a)) :
    origin other nodes = origin next nodes := by
  funext node
  rw [origin, origin, reaches_congr same]

/-- Where a node stands before another one. -/
def Precedes (next : α → List α) (nodes : List α) (a b : α) : Prop :=
  origin next nodes a < origin next nodes b ∨
    origin next nodes a = origin next nodes b ∧ Reaches next nodes b a

/-- The order is determined when all nodes with one origin are on one path. -/
theorem postOrder_pairwise (distinct : nodes.Nodup) (chained : Chained next nodes)
    (ordered : postOrder next nodes = some order) : order.Pairwise (Precedes next nodes) := by
  rcases postOrder_spec distinct ordered with ⟨perm, closed⟩
  have sorted := postOrder_sorted distinct ordered
  have forward := closed.pairwise (perm.nodup_iff.mpr distinct)
  have apart := perm.nodup_iff.mpr distinct
  refine ((sorted.and forward).and apart).imp_of_mem ?_
  rintro a b memberA memberB ⟨⟨before, notForward⟩, different⟩
  rcases Nat.lt_or_eq_of_le before with less | same
  · exact Or.inl less
  · rcases chained a (perm.mem_iff.mp memberA) b (perm.mem_iff.mp memberB) same with ab | ba
    · rcases Relation.reflTransGen_iff_eq_or_transGen.mp ab with equal | further
      · exact absurd equal.symm different
      · exact absurd further notForward
    · exact Or.inr ⟨same, ba⟩

omit [DecidableEq α] in
theorem precedes_antisymm (acyclic : ∀ a, ¬Relation.TransGen (Edge next nodes) a a) {a b : α}
    (before : Precedes next nodes a b) (after : Precedes next nodes b a) : a = b := by
  rcases before with less | ⟨same, reaches⟩
  · rcases after with more | ⟨same, _⟩ <;> omega
  · rcases after with more | ⟨_, back⟩
    · omega
    · rcases Relation.reflTransGen_iff_eq_or_transGen.mp reaches with equal | further
      · exact equal
      · exact absurd (further.trans_left back) (acyclic b)

/-- On a chained graph the order in which the edges are listed does not matter. -/
theorem postOrder_unique (distinct : nodes.Nodup) (chained : Chained next nodes)
    (same : ∀ a, (other a).Perm (next a)) : postOrder other nodes = postOrder next nodes := by
  have edges : Edge other nodes = Edge next nodes := edge_congr same
  have chainedOther : Chained other nodes := by
    rw [Chained, reaches_congr same, origin_congr same]
    exact chained
  cases ordered : postOrder next nodes with
  | none => rwa [postOrder_eq_none_iff distinct, edges, ← postOrder_eq_none_iff distinct]
  | some order =>
      have acyclic : ∀ a, ¬Relation.TransGen (Edge next nodes) a a := by
        intro a cycle
        rw [(postOrder_eq_none_iff distinct).mpr ⟨a, cycle⟩] at ordered
        cases ordered
      cases again : postOrder other nodes with
      | none =>
          rw [postOrder_eq_none_iff distinct, edges] at again
          rcases again with ⟨a, cycle⟩
          exact absurd cycle (acyclic a)
      | some orderOther =>
          have sorted := postOrder_pairwise distinct chained ordered
          have sortedOther := postOrder_pairwise distinct chainedOther again
          have precedes : Precedes other nodes = Precedes next nodes := by
            funext a b
            rw [Precedes, Precedes, reaches_congr same, origin_congr same]
          rw [precedes] at sortedOther
          have perm := (postOrder_spec distinct again).1.trans
            (postOrder_spec distinct ordered).1.symm
          rw [perm.eq_of_pairwise (fun a b _ _ => precedes_antisymm acyclic) sortedOther sorted]

open Classical in
/-- Lists what leads to `goal` first. -/
noncomputable def favour (next : α → List α) (nodes : List α) (goal : α) (node : α) : List α :=
  (next node).filter (Reaches next nodes · goal) ++
    (next node).filter fun other => !decide (Reaches next nodes other goal)

omit [DecidableEq α] in
theorem favour_perm (goal node : α) : (favour next nodes goal node).Perm (next node) :=
  List.filter_append_perm _ _

omit [DecidableEq α] in
/-- If anything leads to the goal, the first thing does. -/
theorem favour_eq_cons {goal node other : α} (named : other ∈ next node)
    (reaches : Reaches next nodes other goal) :
    ∃ first rest, favour next nodes goal node = first :: rest ∧
      Reaches next nodes first goal := by
  classical
  have member : other ∈ (next node).filter (Reaches next nodes · goal) :=
    List.mem_filter.mpr ⟨named, decide_eq_true reaches⟩
  cases leading : (next node).filter (Reaches next nodes · goal) with
  | nil =>
      rw [leading] at member
      cases member
  | cons first rest =>
      have firstMember : first ∈ (next node).filter (Reaches next nodes · goal) := by
        rw [leading]
        exact List.mem_cons_self
      have names : favour next nodes goal node = first :: (rest ++
          (next node).filter fun other => !decide (Reaches next nodes other goal)) := by
        rw [favour, leading, List.cons_append]
      exact ⟨first, _, names, of_decide_eq_true (List.mem_filter.mp firstMember).2⟩

/-- A search that favours the goal leaves nothing before it that the goal does not
lead to. -/
theorem visit_favour (distinct : nodes.Nodup) {goal : α} {fuel : Nat} {node : α}
    (divides : Divides nodes pending state)
    (closed : Closed (favour next nodes goal) nodes state.out) (white : goal ∈ state.white)
    (reaches : Reaches next nodes node goal)
    (visited : visit (favour next nodes goal) fuel node pending state = some result) :
    ∃ front, state.out ++ front ++ [goal] <+: result.out ∧
      ∀ x ∈ front, Reaches next nodes goal x := by
  have same : Reaches (favour next nodes goal) nodes = Reaches next nodes :=
    reaches_congr (favour_perm goal)
  induction fuel generalizing node pending state result with
  | zero => cases visited
  | succ fuel induction =>
      have goalListed : goal ∈ nodes := divides.mem_iff.mp (by simp [white])
      have listed := Reaches.mem reaches goalListed
      have notPending : node ∉ pending := by
        intro member
        simp [visit, member] at visited
      have isWhite : node ∈ state.white := by
        have placed := divides.mem_iff.mpr listed
        simp only [List.mem_append, notPending, false_or] at placed
        rcases placed with isWhite | out
        · exact isWhite
        · have goalOut := closed.mem out (same ▸ reaches)
          have apart := List.nodup_append.mp (divides.nodup_iff.mpr distinct)
          exact absurd rfl (apart.2.2 goal (List.mem_append_right _ white) goal goalOut)
      rw [visit_white notPending isWhite, Option.map_eq_some_iff] at visited
      rcases visited with ⟨inner, folded, rfl⟩
      have entered := divides.enter distinct isWhite
      by_cases isGoal : goal = node
      · -- Everything left since the goal was entered leads from it.
        subst isGoal
        have grows := visits_grow distinct entered closed folded
        rcases grows.grown with ⟨found, grown, reached⟩
        refine ⟨found, ?_, ?_⟩
        · change _ <+: inner.out ++ [goal]
          simp only [grown, List.prefix_refl]
        · intro x member
          rcases reached x member with ⟨root, named, rootListed, rootReaches⟩
          rw [same] at rootReaches
          exact .head ⟨listed, rootListed, (favour_perm goal goal).mem_iff.mp named⟩ rootReaches
      · rcases Relation.ReflTransGen.cases_head reaches with equal | ⟨other, edge, further⟩
        · exact absurd equal.symm isGoal
        · rcases favour_eq_cons edge.2.2 further with ⟨first, rest, names, leads⟩
          rw [names, List.foldlM_cons] at folded
          rcases Option.bind_eq_some_iff.mp folded with ⟨middle, visited, folded⟩
          have stillWhite : goal ∈ state.white.filter (· != node) :=
            List.mem_filter.mpr ⟨white, bne_iff_ne.mpr isGoal⟩
          rcases induction entered closed stillWhite leads visited with ⟨front, grown, below⟩
          have head := visit_grows distinct entered closed visited
          have tail := visits_grow distinct head.divides head.closed folded
          rcases tail.grown with ⟨found, grownMore, _⟩
          refine ⟨front, ?_, below⟩
          change _ <+: inner.out ++ [node]
          rw [grownMore, List.append_assoc middle.out]
          exact grown.trans (List.prefix_append _ _)

/-- Whatever the goal does not lead to and has the same origin comes after it. -/
theorem postOrder_favour (distinct : nodes.Nodup) {goal late : α} (listed : goal ∈ nodes)
    (same : origin next nodes goal = origin next nodes late)
    (apart : ¬Reaches next nodes goal late)
    (ordered : postOrder (favour next nodes goal) nodes = some order) :
    ∃ front back, order = front ++ goal :: back ∧ late ∉ front := by
  rcases postOrder_eq_some_iff.mp ordered with ⟨final, folded, rfl⟩
  have origins : origin (favour next nodes goal) nodes = origin next nodes :=
    origin_congr (favour_perm goal)
  rcases exists_origin next listed with ⟨front, root, back, split, leads, position⟩
  rcases foldlM_split split folded with ⟨before, during, visitedBefore, visited, visitedAfter⟩
  have rooted := (rooted_start (favour next nodes goal) nodes).visits distinct
    (by simpa using split) visitedBefore
  have fresh : ∀ node, origin next nodes node = front.length → node ∉ before.out := by
    intro node here out
    have below := rooted.rooted node out
    rw [origins, here] at below
    exact Nat.lt_irrefl _ below
  have white : goal ∈ before.white := by
    have placed := rooted.divides.mem_iff.mpr listed
    simpa [fresh goal position] using placed
  rcases visit_favour distinct rooted.divides rooted.closed white leads visited with
    ⟨found, grown, below⟩
  have here := visit_grows distinct rooted.divides rooted.closed visited
  have later := visits_grow distinct here.divides here.closed visitedAfter
  rcases later.grown with ⟨more, grownMore, _⟩
  rcases grown with ⟨rest, grown⟩
  refine ⟨before.out ++ found, rest ++ more, ?_, ?_⟩
  · rw [grownMore, ← grown]
    simp
  · intro member
    rcases List.mem_append.mp member with early | now
    · exact fresh late (same.symm.trans position) early
    · exact apart (below late now)

/-- The order of the search is the same for all lists of edges exactly when the nodes
with one origin are on one path. -/
theorem postOrder_orderFree_iff (distinct : nodes.Nodup)
    (acyclic : ∀ a, ¬Relation.TransGen (Edge next nodes) a a) :
    (∀ other : α → List α, (∀ a, (other a).Perm (next a)) →
      postOrder other nodes = postOrder next nodes) ↔ Chained next nodes := by
  constructor
  · intro orderFree a listedA b listedB same
    by_contra apart
    rw [not_or] at apart
    cases ordered : postOrder next nodes with
    | none =>
        rcases (postOrder_eq_none_iff distinct).mp ordered with ⟨node, cycle⟩
        exact acyclic node cycle
    | some order =>
        have favoursA := (orderFree (favour next nodes a) (favour_perm a)).trans ordered
        have favoursB := (orderFree (favour next nodes b) (favour_perm b)).trans ordered
        rcases postOrder_favour distinct listedA same apart.1 favoursA with
          ⟨frontA, backA, splitA, notBefore⟩
        rcases postOrder_favour distinct listedB same.symm apart.2 favoursB with
          ⟨frontB, backB, splitB, notAfter⟩
        -- `b` is not before `a`, and `a` is not before `b`.
        rw [splitA, List.append_eq_append_iff] at splitB
        rcases splitB with ⟨middle, equal, tails⟩ | ⟨middle, equal, tails⟩
        · cases middle with
          | nil =>
              cases tails
              exact apart.1 .refl
          | cons head middle =>
              cases tails
              exact notAfter (by simp [equal])
        · cases middle with
          | nil =>
              cases tails
              exact apart.1 .refl
          | cons head middle =>
              cases tails
              exact notBefore (by simp [equal])
  · exact fun chained other same => postOrder_unique distinct chained same

end OrderFree

end DepthFirst

end Foundation

end Cecs

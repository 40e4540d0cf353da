import Mathlib.Data.List.Nodup

/-!
# Doubly linked lists

The nodes that a chain of `next` and `prev` pointers runs through, from a start to its end.
-/

namespace Gam

/-- From `start`, which comes after `before`, the pointers run through exactly `nodes` and end. -/
def Linked {κ : Type} (next prev : κ → Option κ) : Option κ → Option κ → List κ → Prop
  | _, start, [] => start = none
  | before, start, x :: rest =>
    start = some x ∧ prev x = before ∧ Linked next prev (some x) (next x) rest

namespace Linked

variable {κ : Type} {next prev next' prev' : κ → Option κ} {before start : Option κ}
  {nodes : List κ} {x : κ}

/-- Only the pointers of the nodes matter. -/
theorem congr (linked : Linked next prev before start nodes) (same : ∀ y ∈ nodes, next' y = next y ∧ prev' y = prev y) :
    Linked next' prev' before start nodes := by
  induction nodes generalizing before start with
  | nil => exact linked
  | cons y rest ih =>
    obtain ⟨first, back, later⟩ := linked
    obtain ⟨ahead, behind⟩ := same y (List.mem_cons_self ..)
    refine ⟨first, behind.trans back, ?_⟩
    rw [ahead]
    exact ih later fun z member => same z (List.mem_cons_of_mem _ member)

theorem start_mem (linked : Linked next prev before (some x) nodes) : x ∈ nodes := by
  cases nodes with
  | nil => cases linked
  | cons y rest =>
    rw [Option.some.inj linked.1]
    exact List.mem_cons_self

/-- A forward pointer leads to a node or nowhere. -/
theorem next_mem {y z : κ} (linked : Linked next prev before start nodes) (member : y ∈ nodes) (ahead : next y = some z) :
    z ∈ nodes := by
  induction nodes generalizing before start with
  | nil => cases member
  | cons w rest ih =>
    obtain ⟨_, _, later⟩ := linked
    rcases List.mem_cons.mp member with rfl | member
    · cases rest with
      | nil => cases later.symm.trans ahead
      | cons v rest =>
        obtain rfl := Option.some.inj (later.1.symm.trans ahead)
        exact List.mem_cons_of_mem _ List.mem_cons_self
    · exact List.mem_cons_of_mem _ (ih later member)

/-- A back pointer leads to a node or to what comes before the list. -/
theorem prev_mem {y : κ} (linked : Linked next prev before start nodes) (member : y ∈ nodes) :
    prev y = before ∨ ∃ z ∈ nodes, prev y = some z := by
  induction nodes generalizing before start with
  | nil => cases member
  | cons w rest ih =>
    obtain ⟨_, behind, later⟩ := linked
    rcases List.mem_cons.mp member with rfl | member
    · exact Or.inl behind
    · rcases ih later member with first | ⟨z, inside, back⟩
      · exact Or.inr ⟨w, List.mem_cons_self, first⟩
      · exact Or.inr ⟨z, List.mem_cons_of_mem _ inside, back⟩

/-- A forward pointer leads to a node exactly when its back pointer leads there again. -/
theorem next_iff {y : κ} (linked : Linked next prev before start nodes) (distinct : nodes.Nodup)
    (outside : ∀ z ∈ nodes, before ≠ some z) (member : x ∈ nodes) (member' : y ∈ nodes) : next y = some x ↔ prev x = some y := by
  induction nodes generalizing before start with
  | nil => cases member
  | cons w rest ih =>
    obtain ⟨_, behind, later⟩ := linked
    obtain ⟨absent, others⟩ := List.nodup_cons.mp distinct
    have outside' : ∀ z ∈ rest, (some w : Option κ) ≠ some z := fun z inside same => absent (Option.some.inj same ▸ inside)
    have back : prev w ≠ some y := behind ▸ outside y member'
    rcases List.mem_cons.mp member with rfl | inside
    · refine iff_of_false (fun ahead => ?_) back
      rcases List.mem_cons.mp member' with rfl | inside'
      · cases rest with
        | nil => cases later.symm.trans ahead
        | cons z rest => exact outside' z List.mem_cons_self (ahead.symm.trans later.1)
      · exact absent (later.next_mem inside' ahead)
    · rcases List.mem_cons.mp member' with rfl | inside'
      · cases rest with
        | nil => cases inside
        | cons z rest =>
          obtain ⟨first, second, later⟩ := later
          rcases List.mem_cons.mp inside with rfl | inside
          · exact iff_of_true first second
          · obtain ⟨absent', _⟩ := List.nodup_cons.mp others
            refine iff_of_false (fun ahead => ?_) fun behind' => ?_
            · have same : z = x := Option.some.inj (first.symm.trans ahead)
              exact absent' (same ▸ inside)
            · rcases later.prev_mem inside with same | ⟨v, inside', same⟩
              · exact absent (Option.some.inj (behind'.symm.trans same) ▸ List.mem_cons_self)
              · exact absent (Option.some.inj (behind'.symm.trans same) ▸ List.mem_cons_of_mem _ inside')
      · exact ih later others outside' inside inside'

/-- The back pointer of a node leads to the node in front of it. -/
theorem prev_append {front back : List κ} (linked : Linked next prev before start (front ++ x :: back)) :
    prev x = front.getLast?.or before := by
  induction front generalizing before start with
  | nil => exact linked.2.1
  | cons y front ih =>
    rw [ih linked.2.2, List.getLast?_cons]
    cases front.getLast? <;> rfl

/-- The node in front of a list is taken out: the new front gets its back pointer. -/
theorem skip [DecidableEq κ] (linked : Linked next prev (some x) start nodes) (absent : x ∉ nodes) (distinct : nodes.Nodup)
    (nexts : ∀ y ∈ nodes, next' y = if next y = some x then next x else next y)
    (prevs : ∀ y ∈ nodes, prev' y = if prev y = some x then prev x else prev y) : Linked next' prev' (prev x) start nodes := by
  cases nodes with
  | nil => exact linked
  | cons y rest =>
    have kept : ∀ z ∈ y :: rest, next' z = next z := by
      intro z member
      rw [nexts z member, if_neg fun ahead => absent (linked.next_mem member ahead)]
    obtain ⟨first, behind, later⟩ := linked
    obtain ⟨alone, _⟩ := List.nodup_cons.mp distinct
    refine ⟨first, by rw [prevs y List.mem_cons_self, if_pos behind], ?_⟩
    rw [kept y List.mem_cons_self]
    refine later.congr fun z member => ⟨kept z (List.mem_cons_of_mem _ member), ?_⟩
    rw [prevs z (List.mem_cons_of_mem _ member), if_neg]
    intro back
    rcases later.prev_mem member with first' | ⟨w, inside, back'⟩
    · exact absent (Option.some.inj (back.symm.trans first') ▸ List.mem_cons_self)
    · exact absent (Option.some.inj (back.symm.trans back') ▸ List.mem_cons_of_mem _ inside)

/-- A node is taken out of a list: its neighbours point to each other. -/
theorem remove [DecidableEq κ] {front back : List κ} (linked : Linked next prev before start (front ++ x :: back))
    (distinct : (front ++ x :: back).Nodup) (outside : before ≠ some x)
    (nexts : ∀ y ∈ front ++ back, next' y = if next y = some x then next x else next y)
    (prevs : ∀ y ∈ front ++ back, prev' y = if prev y = some x then prev x else prev y) :
    Linked next' prev' before (if start = some x then next x else start) (front ++ back) := by
  induction front generalizing before start with
  | nil =>
    obtain ⟨rfl, behind, later⟩ := linked
    obtain ⟨absent, distinct⟩ := List.nodup_cons.mp distinct
    rw [if_pos rfl, ← behind]
    exact later.skip absent distinct nexts prevs
  | cons y front ih =>
    obtain ⟨rfl, behind, later⟩ := linked
    obtain ⟨absent, distinct⟩ := List.nodup_cons.mp distinct
    have other : (some y : Option κ) ≠ some x := fun same =>
      absent (Option.some.inj same ▸ List.mem_append_right _ List.mem_cons_self)
    refine ⟨if_neg other, ?_, ?_⟩
    · rw [prevs y List.mem_cons_self, if_neg (behind ▸ outside)]
      exact behind
    · rw [nexts y List.mem_cons_self]
      exact ih later distinct other (fun z member => nexts z (List.mem_cons_of_mem _ member))
        fun z member => prevs z (List.mem_cons_of_mem _ member)

/-- A new node in front: its own pointers and the back pointer of the old front change. -/
theorem push (linked : Linked next prev none start nodes) (distinct : nodes.Nodup)
    (ahead : next' x = start) (behind : prev' x = none) (front : ∀ y, start = some y → prev' y = some x)
    (nexts : ∀ y ∈ nodes, next' y = next y) (prevs : ∀ y ∈ nodes, start ≠ some y → prev' y = prev y) :
    Linked next' prev' none (some x) (x :: nodes) := by
  refine ⟨rfl, behind, ?_⟩
  rw [ahead]
  cases nodes with
  | nil => exact linked
  | cons y rest =>
    obtain ⟨rfl, _, later⟩ := linked
    obtain ⟨absent, _⟩ := List.nodup_cons.mp distinct
    refine ⟨rfl, front y rfl, ?_⟩
    rw [nexts y (List.mem_cons_self ..)]
    refine later.congr fun z member => ?_
    have other : (some y : Option κ) ≠ some z := by
      intro same
      exact absent (Option.some.inj same ▸ member)
    exact ⟨nexts z (List.mem_cons_of_mem _ member), prevs z (List.mem_cons_of_mem _ member) other⟩

/-- Without its front node: the back pointer of the new front changes. -/
theorem pop (linked : Linked next prev none start (x :: nodes)) (distinct : nodes.Nodup)
    (front : ∀ y, next x = some y → prev' y = none) (nexts : ∀ y ∈ nodes, next' y = next y)
    (prevs : ∀ y ∈ nodes, next x ≠ some y → prev' y = prev y) : Linked next' prev' none (next x) nodes := by
  obtain ⟨_, _, later⟩ := linked
  cases nodes with
  | nil => exact later
  | cons y rest =>
    obtain ⟨second, _, behind⟩ := later
    obtain ⟨absent, _⟩ := List.nodup_cons.mp distinct
    refine ⟨second, front y second, ?_⟩
    rw [nexts y (List.mem_cons_self ..)]
    refine behind.congr fun z member => ?_
    have other : next x ≠ some z := by
      rw [second]
      intro same
      exact absent (Option.some.inj same ▸ member)
    exact ⟨nexts z (List.mem_cons_of_mem _ member), prevs z (List.mem_cons_of_mem _ member) other⟩

/-- The pointers determine the nodes. -/
theorem unique {nodes' : List κ} (linked : Linked next prev before start nodes) (linked' : Linked next prev before start nodes') :
    nodes = nodes' := by
  induction nodes generalizing before start nodes' with
  | nil =>
    cases nodes' with
    | nil => rfl
    | cons y rest => cases linked.symm.trans linked'.1
  | cons x rest ih =>
    cases nodes' with
    | nil => cases linked'.symm.trans linked.1
    | cons y rest' =>
      obtain rfl := Option.some.inj (linked.1.symm.trans linked'.1)
      rw [ih linked.2.2 linked'.2.2]

end Linked

/-- A list with a pointer to its front and one to its end. -/
structure Deque {κ : Type} (next prev : κ → Option κ) (head tail : Option κ) (nodes : List κ) : Prop where
  linked : Linked next prev none head nodes
  last : tail = nodes.getLast?
  distinct : nodes.Nodup

namespace Deque

variable {κ : Type} {next prev next' prev' : κ → Option κ} {head tail : Option κ} {nodes : List κ} {x : κ}

theorem congr (deque : Deque next prev head tail nodes) (same : ∀ y ∈ nodes, next' y = next y ∧ prev' y = prev y) :
    Deque next' prev' head tail nodes :=
  ⟨deque.linked.congr same, deque.last, deque.distinct⟩

theorem head_eq (deque : Deque next prev head tail nodes) : head = nodes.head? := by
  cases nodes with
  | nil => exact deque.linked
  | cons y rest => exact deque.linked.1

theorem push [DecidableEq κ] (deque : Deque next prev head tail nodes) (absent : x ∉ nodes)
    (ahead : next' x = head) (behind : prev' x = none) (nexts : ∀ y ∈ nodes, next' y = next y)
    (prevs : ∀ y ∈ nodes, prev' y = if head = some y then some x else prev y) :
    Deque next' prev' (some x) (if tail = none then some x else tail) (x :: nodes) := by
  have front : ∀ y, head = some y → y ∈ nodes := fun y first => List.mem_of_mem_head? (deque.head_eq.symm.trans first)
  refine ⟨deque.linked.push deque.distinct ahead behind (fun y first => ?_) nexts fun y member other => ?_, ?_,
    List.nodup_cons.mpr ⟨absent, deque.distinct⟩⟩
  · rw [prevs y (front y first), if_pos first]
  · rw [prevs y member, if_neg other]
  · rw [deque.last]
    cases nodes with
    | nil => rfl
    | cons y rest =>
      rw [if_neg (by simp), List.getLast?_cons_cons]

theorem remove [DecidableEq κ] {front back : List κ} (deque : Deque next prev head tail (front ++ x :: back))
    (nexts : ∀ y ∈ front ++ back, next' y = if next y = some x then next x else next y)
    (prevs : ∀ y ∈ front ++ back, prev' y = if prev y = some x then prev x else prev y) :
    Deque next' prev' (if head = some x then next x else head) (if tail = some x then prev x else tail) (front ++ back) := by
  have distinct := deque.distinct
  have rest : (front ++ back).Nodup := distinct.sublist (List.Sublist.append_left (List.sublist_cons_self ..) _)
  refine ⟨deque.linked.remove distinct nofun nexts prevs, ?_, rest⟩
  have prev_x := deque.linked.prev_append
  rw [Option.or_none] at prev_x
  rw [deque.last, prev_x]
  cases back with
  | nil =>
    rw [List.getLast?_append_of_ne_nil _ (List.cons_ne_nil _ _), List.append_nil]
    exact if_pos rfl
  | cons y back =>
    rw [List.getLast?_append_of_ne_nil _ (List.cons_ne_nil _ _), List.getLast?_append_of_ne_nil _ (List.cons_ne_nil _ _),
      List.getLast?_cons_cons]
    refine if_neg fun same => ?_
    have member : x ∈ y :: back := List.mem_of_getLast? same
    exact (List.nodup_cons.mp (List.nodup_append.mp distinct).2.1).1 member

end Deque

end Gam

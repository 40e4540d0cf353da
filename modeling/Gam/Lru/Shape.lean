import Gam.LinkedList
import Gam.Lru.Lists

/-!
# The shape of the lists

`Shape` says which lines each list runs through. Linking a line that is in no list and unlinking any line
keep it; a line that is in no list has no neighbours, so unlinking it again does nothing.
-/

namespace Gam.Lru

open Function

variable {Node : Type}

theorem Pick.list_lt (pick : Pick) : pick.list < lruNum := by
  rw [Pick.list]
  split
  · exact Nat.mod_lt _ (by decide)
  · split
    · next j found => exact List.mem_range.mp (List.mem_of_find?_eq_some found)
    · exact Nat.mod_lt _ (by decide)

/-- What the lists do not change of a line. -/
structure Core (Node : Type) where
  addr : Block Node
  state : CacheState
  locks : Locks Node

def Line.core (l : Line Node) : Core Node := ⟨l.addr, l.state, l.locks⟩

namespace State

variable (s : State Node)

def next (p : Nat) : Option Nat := (s.lines p).bind Line.next

def prev (p : Nat) : Option Nat := (s.lines p).bind Line.prev

def core (p : Nat) : Option (Core Node) := (s.lines p).map Line.core

variable {s} {p i : Nat} {l : Line Node}

theorem lines_modify (f : Line Node → Line Node) (y : Nat) : (s.modify p f).lines y = if y = p then (s.lines p).map f else s.lines y := by
  rw [modify]
  by_cases same : y = p
  · rw [if_pos same, same]
    exact update_self ..
  · rw [if_neg same]
    exact update_of_ne same ..

theorem lines_modifyAt (q : Option Nat) (f : Line Node → Line Node) (y : Nat) :
    (s.modifyAt q f).lines y = (s.lines y).map fun x => if q = some y then f x else x := by
  cases q with
  | none => simp [modifyAt]
  | some q =>
    rw [modifyAt, lines_modify]
    by_cases here : y = q
    · rw [if_pos here, here]
      simp
    · rw [if_neg here]
      have away : q ≠ y := Ne.symm here
      simp [away]

@[simp] theorem heads_modifyAt (q : Option Nat) (f : Line Node → Line Node) : (s.modifyAt q f).heads = s.heads := by cases q <;> rfl

@[simp] theorem tails_modifyAt (q : Option Nat) (f : Line Node → Line Node) : (s.modifyAt q f).tails = s.tails := by cases q <;> rfl

/-- The lines after one was linked. -/
theorem lines_linkLRU (pick : Pick) (found : s.lines p = some l) (other : s.heads pick.list ≠ some p) (y : Nat) :
    (s.linkLRU pick p).lines y = if y = p then some { l with pos := some pick.list, prev := none, next := s.heads pick.list }
      else (s.lines y).map fun x => { x with prev := if s.heads pick.list = some y then some p else x.prev } := by
  rw [linkLRU]
  dsimp only
  rw [lines_modifyAt, lines_modify, found]
  by_cases same : y = p
  · subst same
    rw [if_pos rfl, if_pos rfl]
    simp [other]
  · rw [if_neg same, if_neg same]
    congr 1
    funext x
    split <;> rfl

/-- The lines after one was unlinked. -/
theorem lines_unLinkAt (i : Nat) (found : s.lines p = some l) (y : Nat) :
    (s.unLinkAt p i).lines y = if y = p then some { l with next := none, prev := none } else (s.lines y).map fun x =>
        { x with prev := if l.next = some y then l.prev else x.prev, next := if l.prev = some y then l.next else x.next } := by
  rw [unLinkAt, found]
  dsimp only
  rw [lines_modify]
  by_cases same : y = p
  · subst same
    rw [if_pos rfl, if_pos rfl, lines_modifyAt, lines_modifyAt]
    simp only [found, Option.map_some, Option.some.injEq]
    split <;> split <;> rfl
  · rw [if_neg same, if_neg same, lines_modifyAt, lines_modifyAt, Option.map_map]
    congr 1
    funext x
    simp only [Function.comp]
    split <;> split <;> rfl

theorem heads_unLinkAt (found : s.lines p = some l) (j : Nat) :
    (s.unLinkAt p i).heads j = if j = i ∧ s.heads i = some p then l.next else s.heads j := by
  rw [unLinkAt, found]
  dsimp only [modify]
  rw [heads_modifyAt, heads_modifyAt]
  dsimp only
  by_cases first : s.heads i = some p
  · rw [if_pos first]
    by_cases same : j = i
    · rw [if_pos ⟨same, first⟩, same, update_self]
    · rw [if_neg fun both => same both.1, update_of_ne same]
  · rw [if_neg first, if_neg fun both => first both.2]

theorem tails_unLinkAt (found : s.lines p = some l) (j : Nat) :
    (s.unLinkAt p i).tails j = if j = i ∧ s.tails i = some p then l.prev else s.tails j := by
  rw [unLinkAt, found]
  dsimp only [modify]
  rw [tails_modifyAt, tails_modifyAt]
  dsimp only
  by_cases last : s.tails i = some p
  · rw [if_pos last]
    by_cases same : j = i
    · rw [if_pos ⟨same, last⟩, same, update_self]
    · rw [if_neg fun both => same both.1, update_of_ne same]
  · rw [if_neg last, if_neg fun both => last both.2]

end State

/-! ## What stays -/

/-- Only the lines and the ends of the lists may differ. -/
structure Beside (s s' : State Node) : Prop where
  caches : s'.caches = s.caches
  pending : s'.pending = s.pending
  usedBytes : s'.usedBytes = s.usedBytes
  toEvicted : s'.toEvicted = s.toEvicted

namespace Beside

variable {s s' s'' : State Node}

theorem refl : Beside s s := ⟨rfl, rfl, rfl, rfl⟩

theorem trans (first : Beside s s') (second : Beside s' s'') : Beside s s'' :=
  ⟨second.caches.trans first.caches, second.pending.trans first.pending, second.usedBytes.trans first.usedBytes,
    second.toEvicted.trans first.toEvicted⟩

theorem modify (p : Nat) (f : Line Node → Line Node) : Beside s (s.modify p f) := ⟨rfl, rfl, rfl, rfl⟩

theorem modifyAt (q : Option Nat) (f : Line Node → Line Node) : Beside s (s.modifyAt q f) := by
  cases q with
  | none => exact refl
  | some q => exact modify q f

end Beside

namespace State

variable {s : State Node} {p i : Nat}

theorem core_modify (f : Line Node → Line Node) (keeps : ∀ l, (f l).core = l.core) (q : Nat) : (s.modify p f).core q = s.core q := by
  rw [core, core, lines_modify]
  by_cases same : q = p
  · rw [if_pos same, same, Option.map_map]
    exact congrArg (Option.map · _) (funext keeps)
  · rw [if_neg same]

theorem core_modifyAt (f : Line Node → Line Node) (keeps : ∀ l, (f l).core = l.core) (o : Option Nat) (q : Nat) :
    (s.modifyAt o f).core q = s.core q := by
  cases o with
  | none => rfl
  | some p => exact core_modify f keeps q

/-- Linking changes nothing but the lists. -/
theorem linkLRU_keeps (pick : Pick) (p : Nat) : (∀ q, (s.linkLRU pick p).core q = s.core q) ∧ Beside s (s.linkLRU pick p) := by
  obtain ⟨caches, pending, used, evicted⟩ := (Beside.modify (s := s) p _).trans (Beside.modifyAt (s.heads pick.list) _)
  refine ⟨fun q => ?_, caches, pending, used, evicted⟩
  show (modifyAt (s.heads pick.list) _ (s.modify p _)).core q = _
  rw [core_modifyAt _ (fun l => by rfl), core_modify _ (fun l => by rfl)]

theorem unLinkAt_keeps (p i : Nat) : (∀ q, (s.unLinkAt p i).core q = s.core q) ∧ Beside s (s.unLinkAt p i) := by
  rw [unLinkAt]
  cases s.lines p with
  | none => exact ⟨fun _ => rfl, .refl⟩
  | some l =>
    refine ⟨fun q => ?_, .trans ?_ (.trans (.modifyAt ..) (.trans (.modifyAt ..) (.modify ..)))⟩
    · dsimp only
      rw [core_modify _ (fun l => by rfl), core_modifyAt _ (fun l => by rfl), core_modifyAt _ (fun l => by rfl)]
      rfl
    · exact ⟨rfl, rfl, rfl, rfl⟩

theorem unLinkLRU_keeps (p : Nat) : (∀ q, (s.unLinkLRU p).core q = s.core q) ∧ Beside s (s.unLinkLRU p) := by
  rw [unLinkLRU]
  cases (s.lines p).bind Line.pos with
  | none => exact ⟨fun _ => rfl, .refl⟩
  | some i =>
    obtain ⟨core, beside⟩ := (s.modify p fun l => { l with pos := none }).unLinkAt_keeps p i
    exact ⟨fun q => by rw [core, core_modify _ (fun l => by rfl)], .trans (.modify ..) beside⟩

end State

/-! ## Lists -/

/-- The lines that the lists run through. -/
structure Woven (s : State Node) (lists : Nat → List Nat) : Prop where
  deque : ∀ i, Deque s.next s.prev (s.heads i) (s.tails i) (lists i)
  apart : ∀ i j p, p ∈ lists i → p ∈ lists j → i = j
  listed : ∀ i p, p ∈ lists i → ∃ l, s.lines p = some l
  loose : ∀ p l, s.lines p = some l → (∀ i, p ∉ lists i) → l.next = none ∧ l.prev = none

/-- Every line of a list knows its number, which is that of a list there is. -/
structure Shape (s : State Node) (lists : Nat → List Nat) : Prop extends Woven s lists where
  pos : ∀ i p l, p ∈ lists i → s.lines p = some l → l.pos = some i
  bounded : ∀ i p, p ∈ lists i → i < lruNum

/-- The lists differ in the place of one line at most. -/
def Moves (p : Nat) (lists lists' : Nat → List Nat) : Prop := ∀ q, q ≠ p → ∀ i, q ∈ lists' i ↔ q ∈ lists i

namespace Woven

variable {s : State Node} {lists : Nat → List Nat} {p i : Nat} {l : Line Node}

theorem head_mem (woven : Woven s lists) {y : Nat} (first : s.heads i = some y) : y ∈ lists i :=
  List.mem_of_mem_head? ((woven.deque i).head_eq.symm.trans first)

theorem tail_mem (woven : Woven s lists) {y : Nat} (last : s.tails i = some y) : y ∈ lists i :=
  List.mem_of_getLast? ((woven.deque i).last.symm.trans last)

/-- A line that is in no list is put in front of one. -/
theorem link (woven : Woven s lists) (pick : Pick) (found : s.lines p = some l) (absent : ∀ i, p ∉ lists i) :
    Woven (s.linkLRU pick p) (update lists pick.list (p :: lists pick.list)) := by
  have other : s.heads pick.list ≠ some p := fun first => absent _ (woven.head_mem first)
  have lines := s.lines_linkLRU pick found other
  have nexts : ∀ j, ∀ y ∈ lists j, (s.linkLRU pick p).next y = s.next y := by
    intro j y member
    have different : y ≠ p := fun same => absent j (same ▸ member)
    rw [State.next, lines, if_neg different, State.next]
    cases s.lines y <;> rfl
  have prevs : ∀ j, ∀ y ∈ lists j, (s.linkLRU pick p).prev y = if s.heads pick.list = some y then some p else s.prev y := by
    intro j y member
    have different : y ≠ p := fun same => absent j (same ▸ member)
    obtain ⟨x, there⟩ := woven.listed j y member
    rw [State.prev, lines, if_neg different, State.prev, there]
    rfl
  have own : (s.linkLRU pick p).lines p = some { l with pos := some pick.list, prev := none, next := s.heads pick.list } := by
    rw [lines, if_pos rfl]
  have heads : ∀ j, (s.linkLRU pick p).heads j = if j = pick.list then some p else s.heads j := by
    intro j
    rw [State.linkLRU]
    dsimp only
    rw [State.heads_modifyAt]
    by_cases same : j = pick.list
    · rw [if_pos same, same, update_self]
    · rw [if_neg same, update_of_ne same]
      rfl
  have tails : ∀ j, (s.linkLRU pick p).tails j =
      if j = pick.list then (if s.tails pick.list = none then some p else s.tails pick.list) else s.tails j := by
    intro j
    rw [State.linkLRU]
    dsimp only
    rw [State.tails_modifyAt]
    show (if s.tails pick.list = none then update s.tails pick.list (some p) else s.tails) j = _
    by_cases same : j = pick.list
    · rw [if_pos same, same]
      split
      · rw [update_self]
      · rfl
    · rw [if_neg same]
      split
      · rw [update_of_ne same]
      · rfl
  refine ⟨fun j => ?_, fun i j q inside inside' => ?_, fun j q member => ?_, fun q x there outside => ?_⟩
  · rw [heads, tails]
    by_cases same : j = pick.list
    · subst same
      rw [if_pos rfl, if_pos rfl, update_self]
      refine (woven.deque _).push (absent _) ?_ ?_ (nexts _) (prevs _)
      · rw [State.next, own]
        rfl
      · rw [State.prev, own]
        rfl
    · rw [if_neg same, if_neg same, update_of_ne same]
      refine (woven.deque j).congr fun y member => ⟨nexts j y member, ?_⟩
      rw [prevs j y member, if_neg fun first => same (woven.apart j _ y member (woven.head_mem first))]
  · have old : ∀ {k}, q ∈ update lists pick.list (p :: lists pick.list) k → (q = p ∧ k = pick.list) ∨ q ∈ lists k := by
      intro k member
      by_cases same : k = pick.list
      · rw [same, update_self] at member
        rcases List.mem_cons.mp member with here | there
        · exact Or.inl ⟨here, same⟩
        · exact Or.inr (same ▸ there)
      · rw [update_of_ne same] at member
        exact Or.inr member
    rcases old inside with ⟨here, first⟩ | there
    · rcases old inside' with ⟨_, second⟩ | there'
      · rw [first, second]
      · exact absurd there' (here ▸ absent j)
    · rcases old inside' with ⟨here', _⟩ | there'
      · exact absurd there (here' ▸ absent i)
      · exact woven.apart i j q there there'
  · by_cases here : q = p
    · rw [here]
      exact ⟨_, own⟩
    · have old : ∃ k, q ∈ lists k := by
        by_cases same : j = pick.list
        · rw [same, update_self] at member
          exact ⟨_, (List.mem_cons.mp member).resolve_left here⟩
        · rw [update_of_ne same] at member
          exact ⟨j, member⟩
      obtain ⟨k, inside⟩ := old
      obtain ⟨x, there⟩ := woven.listed k q inside
      rw [lines, if_neg here, there]
      exact ⟨_, rfl⟩
  · have here : q ≠ p := by
      rintro rfl
      exact outside pick.list (by rw [update_self]; exact List.mem_cons_self)
    have before : ∀ j, q ∉ lists j := by
      intro j member
      by_cases same : j = pick.list
      · exact outside j (by rw [same, update_self]; exact List.mem_cons_of_mem _ (same ▸ member))
      · exact outside j (by rwa [update_of_ne same])
    rw [lines, if_neg here, Option.map_eq_some_iff] at there
    obtain ⟨x', there', rfl⟩ := there
    obtain ⟨ahead, behind⟩ := woven.loose q x' there' before
    refine ⟨ahead, ?_⟩
    dsimp only
    rw [if_neg fun first => before _ (woven.head_mem first)]
    exact behind

/-- A line is taken out of its list, or was in none. -/
theorem unlink (woven : Woven s lists) (found : s.lines p = some l) (place : ∀ j, p ∈ lists j → j = i) :
    Woven (s.unLinkAt p i) fun j => (lists j).erase p := by
  have lines := s.lines_unLinkAt i found
  have next_p : s.next p = l.next := by rw [State.next, found]; rfl
  have prev_p : s.prev p = l.prev := by rw [State.prev, found]; rfl
  have erased : ∀ {j q}, q ∈ (lists j).erase p ↔ q ≠ p ∧ q ∈ lists j := fun {j q} => (woven.deque j).distinct.mem_erase_iff
  -- what the neighbours of the line are changed to
  have nexts : ∀ j, ∀ y ∈ lists j, y ≠ p → (s.unLinkAt p i).next y = if l.prev = some y then l.next else s.next y := by
    intro j y member different
    obtain ⟨x, there⟩ := woven.listed j y member
    rw [State.next, lines, if_neg different, State.next, there]
    rfl
  have prevs : ∀ j, ∀ y ∈ lists j, y ≠ p → (s.unLinkAt p i).prev y = if l.next = some y then l.prev else s.prev y := by
    intro j y member different
    obtain ⟨x, there⟩ := woven.listed j y member
    rw [State.prev, lines, if_neg different, State.prev, there]
    rfl
  -- the neighbours are in the same list
  have ahead_mem : ∀ y, l.next = some y → p ∈ lists i ∧ y ∈ lists i := by
    intro y ahead
    have inside : p ∈ lists i := by
      by_contra outside
      have none := (woven.loose p l found fun j member => outside (place j member ▸ member)).1
      rw [none] at ahead
      cases ahead
    exact ⟨inside, (woven.deque i).linked.next_mem inside (next_p.trans ahead)⟩
  have behind_mem : ∀ y, l.prev = some y → p ∈ lists i ∧ y ∈ lists i := by
    intro y behind
    have inside : p ∈ lists i := by
      by_contra outside
      have none := (woven.loose p l found fun j member => outside (place j member ▸ member)).2
      rw [none] at behind
      cases behind
    rcases (woven.deque i).linked.prev_mem inside with first | ⟨z, member, back⟩
    · rw [prev_p, behind] at first
      cases first
    · rw [prev_p, behind] at back
      exact ⟨inside, Option.some.inj back ▸ member⟩
  refine ⟨fun j => ?_, fun j k q member member' => ?_, fun j q member => ?_, fun q x there outside => ?_⟩
  · rw [State.heads_unLinkAt found, State.tails_unLinkAt found]
    by_cases inside : j = i ∧ p ∈ lists i
    · obtain ⟨rfl, inside⟩ := inside
      obtain ⟨front, back, split⟩ := List.append_of_mem inside
      have deque := woven.deque j
      have whole : ∀ y ∈ front ++ back, y ∈ lists j ∧ y ≠ p := by
        intro y member
        have distinct := deque.distinct
        rw [split] at distinct ⊢
        refine ⟨List.Sublist.mem member (List.Sublist.append_left (List.sublist_cons_self ..) _), ?_⟩
        rintro rfl
        exact (List.nodup_middle.mp distinct).notMem member
      have rest : (lists j).erase p = front ++ back := by
        have distinct := deque.distinct
        rw [split] at distinct ⊢
        have outside : p ∉ front := fun member => (List.nodup_middle.mp distinct).notMem (List.mem_append_left _ member)
        rw [List.erase_append_right _ outside, List.erase_cons_head]
      have neighbours : ∀ y ∈ lists j, s.next y = some p ↔ s.prev p = some y := fun y member =>
        deque.linked.next_iff deque.distinct (fun _ _ => nofun) inside member
      have neighbours' : ∀ y ∈ lists j, s.next p = some y ↔ s.prev y = some p := fun y member =>
        deque.linked.next_iff deque.distinct (fun _ _ => nofun) member inside
      rw [split] at deque
      have removed : Deque (s.unLinkAt p j).next (s.unLinkAt p j).prev _ _ (front ++ back) := deque.remove
        (fun y member => by
          obtain ⟨member, different⟩ := whole y member
          rw [nexts j y member different, next_p]
          exact if_congr (by rw [neighbours y member, prev_p]) rfl rfl)
        (fun y member => by
          obtain ⟨member, different⟩ := whole y member
          rw [prevs j y member different, prev_p]
          exact if_congr (by rw [← neighbours' y member, next_p]) rfl rfl)
      rw [rest]
      rw [next_p, prev_p] at removed
      simpa only [true_and] using removed
    · have missing : p ∉ lists j := fun member => inside ⟨place j member, place j member ▸ member⟩
      have first : ¬(j = i ∧ s.heads i = some p) := fun both => inside ⟨both.1, woven.head_mem both.2⟩
      have last : ¬(j = i ∧ s.tails i = some p) := fun both => inside ⟨both.1, woven.tail_mem both.2⟩
      rw [if_neg first, if_neg last, List.erase_of_not_mem missing]
      refine (woven.deque j).congr fun y member => ?_
      have different : y ≠ p := fun same => missing (same ▸ member)
      rw [nexts j y member different, prevs j y member different]
      refine ⟨if_neg fun behind => ?_, if_neg fun ahead => ?_⟩
      · obtain ⟨held, there⟩ := behind_mem y behind
        exact inside ⟨woven.apart j i y member there, held⟩
      · obtain ⟨held, there⟩ := ahead_mem y ahead
        exact inside ⟨woven.apart j i y member there, held⟩
  · exact woven.apart j k q (erased.mp member).2 (erased.mp member').2
  · obtain ⟨different, member⟩ := erased.mp member
    obtain ⟨x, there⟩ := woven.listed j q member
    rw [lines, if_neg different, there]
    exact ⟨_, rfl⟩
  · by_cases same : q = p
    · rw [lines, if_pos same] at there
      obtain rfl := Option.some.inj there
      exact ⟨rfl, rfl⟩
    · have before : ∀ j, q ∉ lists j := fun j member => outside j (erased.mpr ⟨same, member⟩)
      rw [lines, if_neg same, Option.map_eq_some_iff] at there
      obtain ⟨x', there', rfl⟩ := there
      obtain ⟨ahead, behind⟩ := woven.loose q x' there' before
      dsimp only
      rw [if_neg fun back => before i (behind_mem q back).2, if_neg fun front => before i (ahead_mem q front).2]
      exact ⟨ahead, behind⟩

/-- Only the pointers of the lines matter. -/
theorem modify (woven : Woven s lists) {f : Line Node → Line Node} (nexts : ∀ l, (f l).next = l.next) (prevs : ∀ l, (f l).prev = l.prev) :
    Woven (s.modify p f) lists := by
  have same : ∀ q, (s.modify p f).next q = s.next q ∧ (s.modify p f).prev q = s.prev q := by
    intro q
    simp only [State.next, State.prev, State.lines_modify]
    by_cases here : q = p
    · rw [if_pos here, here]
      cases s.lines p with
      | none => exact ⟨rfl, rfl⟩
      | some l => exact ⟨nexts l, prevs l⟩
    · rw [if_neg here]
      exact ⟨rfl, rfl⟩
  refine ⟨fun i => (woven.deque i).congr fun q _ => same q, woven.apart, fun i q member => ?_, fun q l there outside => ?_⟩
  · obtain ⟨l, there⟩ := woven.listed i q member
    rw [State.lines_modify]
    by_cases here : q = p
    · rw [if_pos here, ← here, there]
      exact ⟨_, rfl⟩
    · rw [if_neg here]
      exact ⟨l, there⟩
  · rw [State.lines_modify] at there
    by_cases here : q = p
    · rw [if_pos here, Option.map_eq_some_iff] at there
      obtain ⟨x, there', rfl⟩ := there
      rw [nexts, prevs]
      exact woven.loose q x (here ▸ there') outside
    · rw [if_neg here] at there
      exact woven.loose q l there outside

end Woven

namespace Shape

variable {s : State Node} {lists : Nat → List Nat} {p i : Nat} {l : Line Node}

theorem modify (shape : Shape s lists) {f : Line Node → Line Node} (nexts : ∀ l, (f l).next = l.next) (prevs : ∀ l, (f l).prev = l.prev)
    (places : ∀ l, (f l).pos = l.pos) : Shape (s.modify p f) lists := by
  refine ⟨shape.toWoven.modify nexts prevs, fun i q l member there => ?_, shape.bounded⟩
  rw [State.lines_modify] at there
  by_cases here : q = p
  · rw [if_pos here, Option.map_eq_some_iff] at there
    obtain ⟨x, there', rfl⟩ := there
    exact (places x).trans (shape.pos i q x member (here ▸ there'))
  · rw [if_neg here] at there
    exact shape.pos i q l member there

theorem linkLRU (shape : Shape s lists) (pick : Pick) (found : s.lines p = some l) (absent : ∀ i, p ∉ lists i) :
    ∃ lists', Shape (s.linkLRU pick p) lists' ∧ (∃ i, p ∈ lists' i) ∧ Moves p lists lists' := by
  have other : s.heads pick.list ≠ some p := fun first => absent _ (shape.head_mem first)
  have moves : Moves p lists (update lists pick.list (p :: lists pick.list)) := by
    intro q different j
    by_cases same : j = pick.list
    · rw [same, update_self, List.mem_cons, or_iff_right different]
    · rw [update_of_ne same]
  refine ⟨_, ⟨shape.toWoven.link pick found absent, fun j q x member there => ?_, fun j q member => ?_⟩,
    ⟨pick.list, by rw [update_self]; exact List.mem_cons_self⟩, moves⟩
  · rw [State.lines_linkLRU pick found other] at there
    by_cases here : q = p
    · rw [if_pos here] at there
      obtain rfl := Option.some.inj there
      by_cases same : j = pick.list
      · rw [same]
      · rw [update_of_ne same] at member
        exact absurd member (here ▸ absent j)
    · rw [if_neg here, Option.map_eq_some_iff] at there
      obtain ⟨x', there', rfl⟩ := there
      exact shape.pos j q x' ((moves q here j).mp member) there'
  · by_cases same : j = pick.list
    · exact same ▸ pick.list_lt
    · rw [update_of_ne same] at member
      exact shape.bounded j q member

/-- The lists without a line. -/
theorem moves_erase : Moves p lists fun j => (lists j).erase p := fun _ different _ => List.mem_erase_of_ne different

theorem not_mem_erase (woven : Woven s lists) (j : Nat) : p ∉ (lists j).erase p := fun member =>
  ((woven.deque j).distinct.mem_erase_iff.mp member).1 rfl

/-- The line keeps its number, so only lines that are listed need to know theirs. -/
theorem unLinkAt (shape : Shape s lists) (found : s.lines p = some l) (place : l.pos = some i) :
    ∃ lists', Shape (s.unLinkAt p i) lists' ∧ (∀ j, p ∉ lists' j) ∧ Moves p lists lists' := by
  have only : ∀ j, p ∈ lists j → j = i := fun j member => Option.some.inj ((shape.pos j p l member found).symm.trans place)
  refine ⟨_, ⟨shape.toWoven.unlink found only, fun j q x member there => ?_, fun j q member => shape.bounded j q (List.mem_of_mem_erase member)⟩,
    not_mem_erase shape.toWoven, moves_erase⟩
  have different : q ≠ p := fun same => not_mem_erase shape.toWoven j (same ▸ member)
  rw [State.lines_unLinkAt i found, if_neg different, Option.map_eq_some_iff] at there
  obtain ⟨x', there', rfl⟩ := there
  exact shape.pos j q x' ((moves_erase q different j).mp member) there'

theorem unLinkLRU (shape : Shape s lists) (found : s.lines p = some l) :
    ∃ lists', Shape (s.unLinkLRU p) lists' ∧ (∀ j, p ∉ lists' j) ∧ Moves p lists lists' := by
  rw [State.unLinkLRU, found, Option.bind_some]
  cases place : l.pos with
  | none =>
    refine ⟨lists, shape, fun j member => ?_, fun _ _ _ => Iff.rfl⟩
    have listed := shape.pos j p l member found
    rw [place] at listed
    cases listed
  | some i =>
    dsimp only
    have only : ∀ j, p ∈ lists j → j = i := fun j member => Option.some.inj ((shape.pos j p l member found).symm.trans place)
    have cleared : (s.modify p fun l => { l with pos := none }).lines p = some { l with pos := none } := by
      rw [State.lines_modify, if_pos rfl, found]
      rfl
    have woven : Woven (s.modify p fun l => { l with pos := none }) lists := shape.toWoven.modify (fun _ => rfl) fun _ => rfl
    refine ⟨_, ⟨woven.unlink cleared only, fun j q x member there => ?_, fun j q member => shape.bounded j q (List.mem_of_mem_erase member)⟩,
      not_mem_erase woven, moves_erase⟩
    have different : q ≠ p := fun same => not_mem_erase woven j (same ▸ member)
    rw [State.lines_unLinkAt i cleared, if_neg different, State.lines_modify, if_neg different, Option.map_eq_some_iff] at there
    obtain ⟨x', there', rfl⟩ := there
    exact shape.pos j q x' ((moves_erase q different j).mp member) there'

end Shape

end Gam.Lru

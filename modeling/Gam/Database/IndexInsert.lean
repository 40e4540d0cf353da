import Mathlib.Data.List.GetD
import Gam.Database.IndexLayout

/-! An insertion keeps the layout of a hash index. -/

namespace Gam.Database.HashIndex

open Function
variable {index : HashIndex} {slots : Set (Nat × Nat)} {calls : List (UInt64 × UInt64)} {addr addr' : Loc → Nat}
  {words words' : Loc → List Nat} {chain chain' : Nat → List UInt64} {h h' : Heap} {key ptr : UInt64} {b fuel p : Nat}
variable {j : Nat} {k : UInt64}

/-- The objects that an insertion under `key` leaves alone, apart from other nodes. -/
def Other (key : UInt64) : Loc → Prop
  | .slot _ _ => True
  | .header _ => True
  | .node _ => False
  | .block k _ => k ≠ key

/-- Addresses and contents of the objects that an insertion leaves alone. -/
def Kept (key : UInt64) (addr addr' : Loc → Nat) (words words' : Loc → List Nat) : Prop :=
  ∀ x, Other key x → addr' x = addr x ∧ words' x = words x

theorem Kept.refl : Kept key addr addr words words := fun _ _ => ⟨rfl, rfl⟩

theorem Kept.write {x : Loc} {new : List Nat} (kept : Kept key addr addr' words words') (own : ¬Other key x) :
    Kept key addr addr' words (update words' x new) := by
  intro y other
  have different : y ≠ x := fun same => own (same ▸ other)
  rw [update_of_ne different]
  exact kept y other

theorem Kept.create {x : Loc} {new : List Nat} (kept : Kept key addr addr' words words') (own : ¬Other key x) :
    Kept key addr (update addr' x p) words (update words' x new) := by
  intro y other
  have different : y ≠ x := fun same => own (same ▸ other)
  rw [update_of_ne different, update_of_ne different]
  exact kept y other

theorem not_other_node (key k : UInt64) : ¬Other key (.node k) := id

theorem not_other_block (key : UInt64) (j : Nat) : ¬Other key (.block key j) := fun other => other rfl

/-- What has to be shown about the objects that an insertion changes. -/
theorem Body.after (body : Body index slots calls addr words chain h) (kept : Kept key addr addr' words words')
    (ok : h'.Ok)
    (objects : Objects h' { x | Alive slots index.bucketsCount.toNat (calls ++ [(key, ptr)]) x } addr' words')
    (members : ∀ b k, k ∈ chain' b ↔ index.hash k = b ∧ 0 < (inserted k (calls ++ [(key, ptr)])).length)
    (nodup : ∀ b, (chain' b).Nodup) (chained : ∀ b before k after, chain' b = before ++ k :: after →
      words' (.node k) = [k.toNat, first addr' after, addr' (.block k (top k (calls ++ [(key, ptr)])))])
    (filled : ∀ j, slotNum * j < (inserted key calls).length + 1 →
      Filled addr' key (inserted key calls ++ [ptr.toNat]) j (words' (.block key j))) :
    Body index slots (calls ++ [(key, ptr)]) addr' words' chain' h' := by
  refine ⟨ok, objects, body.positive, ?_, ?_, members, nodup, chained, ?_⟩
  · intro g same b below
    rw [(kept (.header b) trivial).1]
    refine body.places g (fun k i member => ?_) b below
    rw [← (kept (.slot k i) trivial).1, ← (kept (.slot k i) trivial).2]
    exact same k i member
  · intro b below
    rw [(kept (.header b) trivial).2]
    exact body.header b below
  · intro k j below
    by_cases same : k = key
    · subst same
      rw [inserted_self] at below ⊢
      rw [List.length_append] at below
      exact filled j below
    · rw [inserted_other ptr calls same] at below ⊢
      obtain ⟨second, small, content, used⟩ := body.filled k j below
      refine ⟨second, small, ?_, used⟩
      rw [(kept (.block k j) same).2, content, (kept (.block k (j - 1)) same).1]

/-- The objects after an insertion: a new node and a new block, a new block, or none. -/
theorem alive_first (new : inserted key calls = []) :
    { x | Alive slots index.bucketsCount.toNat (calls ++ [(key, ptr)]) x } =
      insert (Loc.node key) (insert (Loc.block key 0) { x | Alive slots index.bucketsCount.toNat calls x }) := by
  ext x
  simp only [Set.mem_ofPred_eq, Set.mem_insert_iff]
  cases x with
  | slot k i => simp [Alive]
  | header b => simp [Alive]
  | node k =>
    by_cases same : k = key
    · simp [Alive, same, inserted_self]
    · simp [Alive, same, inserted_other ptr calls same]
  | block k j =>
    by_cases same : k = key
    · simp [Alive, same, inserted_self, new, slotNum]
    · simp [Alive, same, inserted_other ptr calls same]

theorem alive_block (even : (inserted key calls).length = 2 * j) (positive : 0 < j) :
    { x | Alive slots index.bucketsCount.toNat (calls ++ [(key, ptr)]) x } =
      insert (Loc.block key j) { x | Alive slots index.bucketsCount.toNat calls x } := by
  ext x
  simp only [Set.mem_ofPred_eq, Set.mem_insert_iff]
  cases x with
  | slot k i => simp [Alive]
  | header b => simp [Alive]
  | node k =>
    by_cases same : k = key
    · simp [Alive, same, inserted_self, even, positive]
    · simp [Alive, inserted_other ptr calls same]
  | block k i =>
    by_cases same : k = key
    · simp [Alive, same, inserted_self, slotNum, even]
      omega
    · simp [Alive, same, inserted_other ptr calls same]

theorem alive_same (odd : (inserted key calls).length = 2 * j + 1) :
    { x | Alive slots index.bucketsCount.toNat (calls ++ [(key, ptr)]) x } =
      { x | Alive slots index.bucketsCount.toNat calls x } := by
  ext x
  simp only [Set.mem_ofPred_eq]
  cases x with
  | slot k i => simp [Alive]
  | header b => simp [Alive]
  | node k =>
    by_cases same : k = key
    · simp [Alive, same, inserted_self, odd]
    · simp [Alive, inserted_other ptr calls same]
  | block k i =>
    by_cases same : k = key
    · simp [Alive, same, inserted_self, slotNum, odd]
      omega
    · simp [Alive, inserted_other ptr calls same]

theorem top_other (other : k ≠ key) : top k (calls ++ [(key, ptr)]) = top k calls := by
  rw [top, inserted_other ptr calls other, top]

theorem top_self : top key (calls ++ [(key, ptr)]) = (inserted key calls).length / 2 := by
  rw [top, inserted_self, List.length_append, List.length_singleton, Nat.add_sub_cancel]
  rfl

/-- Blocks below the newest one stay as they were. -/
theorem Filled.append {records new : List Nat} {w : List Nat} (filled : Filled addr key records j w)
    (full : 2 * j + 1 < records.length) (below : j = 0 ∨ addr' (.block key (j - 1)) = addr (.block key (j - 1))) :
    Filled addr' key (records ++ new) j w := by
  obtain ⟨second, small, content, used⟩ := filled
  refine ⟨second, small, ?_, fun _ => ?_⟩
  · rw [content, List.getD_append _ _ _ _ (by omega), List.length_append]
    congr 1
    congr 1
    congr 1
    · omega
    · rcases below with rfl | same
      · rfl
      · rw [same]
  · rw [used full, List.getD_append _ _ _ _ full]

/-- What an insertion under a key that has a node must leave in the node and the blocks. -/
theorem Body.afterOld (body : Body index slots calls addr words chain h) (member : key ∈ chain b)
    (kept : Kept key addr addr' words words') (ok : h'.Ok)
    (objects : Objects h' { x | Alive slots index.bucketsCount.toNat (calls ++ [(key, ptr)]) x } addr' words')
    (nodes : ∀ k, addr' (.node k) = addr (.node k)) (others : ∀ k ≠ key, words' (.node k) = words (.node k))
    (own : ∀ next, words (.node key) = [key.toNat, next, addr (.block key (top key calls))] →
      words' (.node key) = [key.toNat, next, addr' (.block key ((inserted key calls).length / 2))])
    (filled : ∀ j, slotNum * j < (inserted key calls).length + 1 →
      Filled addr' key (inserted key calls ++ [ptr.toNat]) j (words' (.block key j))) :
    Body index slots (calls ++ [(key, ptr)]) addr' words' chain h' := by
  obtain ⟨hashed, present⟩ := (body.members b key).mp member
  have firsts : ∀ keys, first addr' keys = first addr keys := fun keys => by
    cases keys with
    | nil => rfl
    | cons k _ => exact nodes k
  refine body.after kept ok objects ?_ body.nodup ?_ filled
  · intro b k
    rw [body.members]
    refine and_congr_right fun _ => ?_
    by_cases same : k = key
    · subst same
      simp [inserted_self, present]
    · rw [inserted_other ptr calls same]
  · intro b before k after split
    have content := body.chained b before k after split
    rw [firsts]
    by_cases same : k = key
    · subst same
      rw [top_self]
      exact own _ content
    · rw [top_other same, others k same, (kept (.block k _) same).1]
      exact content

/-- The second slot of the newest block is used. -/
theorem filled_second {records : List Nat} {j w : Nat} (odd : records.length = 2 * j + 1) (small : w < 2 ^ 64) :
    Filled addr key (records ++ [w]) j
      [records.getD (2 * j) 0, w, 2, if j = 0 then 0 else addr (.block key (j - 1))] := by
  refine ⟨w, small, ?_, fun _ => ?_⟩
  · have count : min 2 (2 * j + 2 - 2 * j) = 2 := by omega
    rw [List.getD_append _ _ _ _ (by omega), List.length_append, odd, List.length_singleton, count]
  · rw [List.getD_append_right _ _ _ _ (by omega), odd, Nat.sub_self]
    rfl

/-- A new block holds one record. -/
theorem filled_new {records : List Nat} {j w garbage : Nat} (even : records.length = 2 * j) (small : garbage < 2 ^ 64) :
    Filled addr key (records ++ [w]) j [w, garbage, 1, if j = 0 then 0 else addr (.block key (j - 1))] := by
  refine ⟨garbage, small, ?_, fun more => ?_⟩
  · have count : min 2 (2 * j + 1 - 2 * j) = 1 := by omega
    rw [List.getD_append_right _ _ _ _ (by omega), List.length_append, even, List.length_singleton, count, Nat.sub_self]
    rfl
  · rw [List.length_append, even, List.length_singleton] at more
    exact absurd more (Nat.lt_irrefl _)

/-- The link of a block to the one below is a word. -/
theorem Body.below_small (body : Body index slots calls addr words chain h)
    (below : slotNum * j < (inserted key calls).length + slotNum) :
    (if j = 0 then 0 else addr (.block key (j - 1))) < 2 ^ 64 := by
  split
  · decide
  · refine (body.block_placed ?_).2
    unfold slotNum at *
    omega

/-- The bucket headers are where they were and hold what they held. -/
def Heads (addr addr' : Loc → Nat) (words words' : Loc → List Nat) : Prop :=
  ∀ b, addr' (.header b) = addr (.header b) ∧ words' (.header b) = words (.header b)

theorem Kept.heads (kept : Kept key addr addr' words words') : Heads addr addr' words words' :=
  fun b => kept (.header b) trivial

/-- `InsertNode` uses the free slot of the newest block. -/
theorem Body.insertOld_slot (body : Body index slots calls addr words chain h) (supply : Supply)
    (garbage : Nat → Nat → UInt64) (ptr : UInt64) (member : key ∈ chain b)
    (odd : (inserted key calls).length = 2 * j + 1) :
    ∃ words' h', BucketHeader.insertOld supply garbage ptr.toNat (addr (.node key)) h = .ok h' ∧
      Body index slots (calls ++ [(key, ptr)]) addr words' chain h' ∧ Heads addr addr words words' := by
  obtain ⟨before, after, split⟩ := List.append_of_mem member
  have node := body.read_node member (body.chained b before key after split)
  have newest : top key calls = j := by
    unfold top slotNum
    omega
  have below : slotNum * j < (inserted key calls).length := by
    unfold slotNum
    omega
  obtain ⟨second, small, block, -⟩ := body.filled key j below
  have one : min 2 ((inserted key calls).length - 2 * j) = 1 := by omega
  rw [one] at block
  have read := body.read_block below block
  obtain ⟨ok, objects⟩ := body.objects.write body.ok (.block key j)
    [(inserted key calls).getD (2 * j) 0, ptr.toNat, 2, if j = 0 then 0 else addr (.block key (j - 1))] below
    (by rw [block]; rfl) (by
      simp only [List.forall_mem_cons]
      exact ⟨inserted_getD_small _, ptr.toNat_lt, by decide, body.below_small (by omega), by simp⟩)
  refine ⟨_, _, ?_, body.afterOld member (Kept.refl.write (not_other_block key j)) ok
    ((alive_same odd).symm ▸ objects) (fun _ => rfl) (fun _ _ => by simp) ?_ ?_,
    (Kept.refl.write (not_other_block key j)).heads⟩
  · rw [BucketHeader.insertOld, node]
    simp only [newest, read, Items.addRecordPtr]
    rfl
  · intro next content
    have half : (2 * j + 1) / 2 = j := by omega
    rw [update_of_ne (by simp), content, newest, odd, half]
  · intro i inside
    unfold slotNum at inside
    by_cases same : i = j
    · subst same
      rw [update_self]
      exact filled_second odd ptr.toNat_lt
    · rw [update_of_ne (by simpa using same)]
      exact (body.filled key i (by unfold slotNum; omega)).append (by omega) (Or.inr rfl)

/-- `InsertNode` under a key whose newest block is full. -/
theorem insertOld_full {supply : Supply} {garbage : Nat → Nat → UInt64} {w cur k next items one two below : Nat}
    (node : BucketNode.read h cur = ⟨k, next, items⟩) (read : Items.read h items = ⟨[one, two], 2, below⟩) :
    BucketHeader.insertOld supply garbage w cur h = (h.malloc supply 32).map fun r =>
      (r.2.writeWords r.1 [w, (garbage h.tick 1).toNat, 1, items]).writeWords cur [k, next, r.1] := by
  rw [BucketHeader.insertOld, node]
  simp only [read]
  cases h.malloc supply 32 <;> rfl

/-- `InsertNode` puts a new block before the others. -/
theorem Body.insertOld_block (body : Body index slots calls addr words chain h) (supply : Supply)
    (garbage : Nat → Nat → UInt64) (ptr : UInt64) (member : key ∈ chain b)
    (even : (inserted key calls).length = 2 * j) :
    BucketHeader.insertOld supply garbage ptr.toNat (addr (.node key)) h = .error .memory ∨
      ∃ addr' words' h', BucketHeader.insertOld supply garbage ptr.toNat (addr (.node key)) h = .ok h' ∧
        Body index slots (calls ++ [(key, ptr)]) addr' words' chain h' ∧
        (∀ k, addr' (.node k) = addr (.node k)) ∧ Heads addr addr' words words' := by
  obtain ⟨hashed, present⟩ := (body.members b key).mp member
  obtain ⟨before, after, split⟩ := List.append_of_mem member
  have content := body.chained b before key after split
  have node := body.read_node member content
  have positive : 0 < j := by omega
  have newest : top key calls = j - 1 := by
    unfold top slotNum
    omega
  have below : slotNum * (j - 1) < (inserted key calls).length := by
    unfold slotNum
    omega
  obtain ⟨second, -, block, -⟩ := body.filled key (j - 1) below
  have two : min 2 ((inserted key calls).length - 2 * (j - 1)) = 2 := by omega
  rw [two] at block
  have read := body.read_block below block
  have absent : Loc.block key j ∉ { x | Alive slots index.bucketsCount.toNat calls x } := by
    show ¬slotNum * j < _
    unfold slotNum
    omega
  have placed := body.block_placed below
  have rest : after <:+ chain b := ⟨before ++ [key], by simp [split]⟩
  have ran : BucketHeader.insertOld supply garbage ptr.toNat (addr (.node key)) h = _ :=
    insertOld_full (newest ▸ node) read
  rcases body.objects.malloc body.ok supply 32 (.block key j)
    [ptr.toNat, (garbage h.tick 1).toNat, 1, addr (.block key (j - 1))] absent rfl (List.cons_ne_nil _ _) (by
      simp only [List.forall_mem_cons]
      exact ⟨ptr.toNat_lt, (garbage h.tick 1).toNat_lt, by decide, placed.2, by simp⟩) with
    failed | ⟨p, g, got, _, small, ok, objects⟩
  · left
    rw [ran, failed]
    rfl
  · right
    have alive : Loc.node key ∈ insert (Loc.block key j) { x | Alive slots index.bucketsCount.toNat calls x } :=
      Or.inr present
    obtain ⟨ok, objects⟩ := objects.write ok (.node key) [key.toNat, first addr after, p] alive
      (by rw [update_of_ne (by simp), content]; rfl) (by
        simp only [List.forall_mem_cons]
        exact ⟨key.toNat_lt, body.first_small rest, small, by simp⟩)
    rw [update_of_ne (by simp)] at ok objects
    refine ⟨_, _, _, ?_, body.afterOld member
      ((Kept.refl.create (not_other_block key j)).write (not_other_node key key)) ok
      ((alive_block even positive).symm ▸ objects) (fun _ => by simp) (fun _ other => by simp [other]) ?_ ?_,
      fun _ => by simp, ((Kept.refl.create (not_other_block key j)).write (not_other_node key key)).heads⟩
    · rw [ran, got]
      rfl
    · intro next content'
      have half : 2 * j / 2 = j := by omega
      rw [content] at content'
      rw [update_self, even, half, update_self, (List.cons.inj (List.cons.inj content').2).1]
    · intro i inside
      unfold slotNum at inside
      have lower : i = 0 ∨ update addr (.block key j) p (.block key (i - 1)) = addr (.block key (i - 1)) := by
        rw [update_of_ne]
        · exact Or.inr rfl
        · simp only [ne_eq, Loc.block.injEq, true_and]
          omega
      rw [update_of_ne (by simp)]
      by_cases same : i = j
      · subst same
        rw [update_self]
        have link : addr (.block key (i - 1)) =
            if i = 0 then 0 else update addr (.block key i) p (.block key (i - 1)) := by
          rw [if_neg (Nat.ne_of_gt positive), lower.resolve_left (Nat.ne_of_gt positive)]
        rw [link]
        exact filled_new even (garbage h.tick 1).toNat_lt
      · rw [update_of_ne (by simpa using same)]
        exact (body.filled key i (by unfold slotNum; omega)).append (by omega) lower

/-- A key with others after it is not the last one. -/
theorem inner_ne_last {keys before after : List UInt64} (nodup : keys.Nodup) (split : keys = before ++ key :: after)
    (more : after ≠ []) : ∀ before', keys ≠ before' ++ [key] := by
  intro before' split'
  rcases List.eq_nil_or_concat after with rfl | ⟨after, x, rfl⟩
  · exact more rfl
  · rw [split, List.concat_eq_append, ← List.cons_append, ← List.append_assoc] at split'
    obtain ⟨-, rfl⟩ := List.append_singleton_inj.mp split'
    subst split
    simp [List.nodup_append] at nodup

/-- `InsertNode` under a key that has a node. -/
theorem Body.insertOld (body : Body index slots calls addr words chain h) (supply : Supply)
    (garbage : Nat → Nat → UInt64) (ptr : UInt64) (member : key ∈ chain b) :
    BucketHeader.insertOld supply garbage ptr.toNat (addr (.node key)) h = .error .memory ∨
      ∃ addr' words' h', BucketHeader.insertOld supply garbage ptr.toNat (addr (.node key)) h = .ok h' ∧
        Body index slots (calls ++ [(key, ptr)]) addr' words' chain h' ∧
        (∀ k, addr' (.node k) = addr (.node k)) ∧ Heads addr addr' words words' := by
  rcases Nat.even_or_odd' (inserted key calls).length with ⟨j, even | odd⟩
  · exact body.insertOld_block supply garbage ptr member even
  · obtain ⟨words', h', ran, inserted, heads⟩ := body.insertOld_slot supply garbage ptr member odd
    exact Or.inr ⟨addr, words', h', ran, inserted, fun _ => rfl, heads⟩

/-- What an insertion under a new key must leave in the nodes and the blocks. -/
theorem Body.afterNew (body : Body index slots calls addr words chain h) (absent : key ∉ chain (index.hash key))
    (kept : Kept key addr addr' words words') (ok : h'.Ok)
    (objects : Objects h' { x | Alive slots index.bucketsCount.toNat (calls ++ [(key, ptr)]) x } addr' words')
    (nodes : ∀ k ≠ key, addr' (.node k) = addr (.node k))
    (own : words' (.node key) = [key.toNat, 0, addr' (.block key 0)])
    (before : ∀ keys k, chain (index.hash key) = keys ++ [k] →
      words' (.node k) = [k.toNat, addr' (.node key), addr (.block k (top k calls))])
    (others : ∀ k ≠ key, (∀ keys, chain (index.hash key) ≠ keys ++ [k]) → words' (.node k) = words (.node k))
    (filled : Filled addr' key [ptr.toNat] 0 (words' (.block key 0))) :
    Body index slots (calls ++ [(key, ptr)]) addr' words'
      (update chain (index.hash key) (chain (index.hash key) ++ [key])) h' := by
  have none : inserted key calls = [] := by
    by_contra some
    exact absent ((body.members _ key).mpr ⟨rfl, List.length_pos_iff.mpr some⟩)
  have firsts : ∀ keys, key ∉ keys → first addr' keys = first addr keys := fun keys away => by
    cases keys with
    | nil => rfl
    | cons k _ => exact nodes k fun same => away (same ▸ List.mem_cons_self)
  refine body.after kept ok objects ?_ ?_ ?_ ?_
  · intro b k
    by_cases here : b = index.hash key
    · subst here
      rw [update_self, List.mem_append, List.mem_singleton, body.members]
      by_cases same : k = key
      · simp [same, inserted_self]
      · simp [same, inserted_other ptr calls same]
    · rw [update_of_ne here, body.members]
      refine and_congr_right fun hashed => ?_
      rw [inserted_other ptr calls]
      rintro rfl
      exact here hashed.symm
  · intro b
    by_cases here : b = index.hash key
    · subst here
      rw [update_self]
      refine List.Nodup.append (body.nodup _) (List.nodup_singleton key) ?_
      simpa using absent
    · rw [update_of_ne here]
      exact body.nodup b
  · intro b keys k after split
    by_cases here : b = index.hash key
    · subst here
      rw [update_self] at split
      rcases List.eq_nil_or_concat after with rfl | ⟨after, x, rfl⟩
      · -- the new node is the last one
        obtain ⟨-, rfl⟩ := List.append_singleton_inj.mp split
        rw [top_self, none]
        exact own
      · obtain ⟨whole, rfl⟩ := List.append_singleton_inj.mp (split.trans
          (by simp : keys ++ k :: after.concat x = (keys ++ k :: after) ++ [x]))
        have member : k ∈ chain (index.hash key) := by rw [whole]; simp
        have other : k ≠ key := fun same => absent (same ▸ member)
        have content := body.chained _ keys k after whole
        rw [List.concat_eq_append, first_append, top_other other, (kept (.block k _) other).1]
        by_cases last : after = []
        · subst last
          rw [if_pos rfl]
          exact before keys k whole
        · rw [if_neg last, others k other (inner_ne_last (body.nodup _) whole last), content, firsts after]
          intro later
          exact absent (by rw [whole]; simp [later])
    · rw [update_of_ne here] at split
      have member : k ∈ chain b := by rw [split]; simp
      have other : k ≠ key := by
        rintro rfl
        exact here ((body.members b k).mp member).1.symm
      have content := body.chained b keys k after split
      rw [top_other other, (kept (.block k _) other).1, others k other, content, firsts after]
      · intro later
        have member' : key ∈ chain b := by rw [split]; simp [later]
        exact here ((body.members b key).mp member').1.symm
      · intro keys' split'
        have member' : k ∈ chain (index.hash key) := by rw [split']; simp
        exact here (((body.members b k).mp member).1.symm.trans ((body.members _ k).mp member').1)
  · intro j inside
    rw [none] at inside ⊢
    have zero : j = 0 := by
      unfold slotNum at inside
      simp at inside
      omega
    subst zero
    exact filled

/-- The addresses when a new key has its first block at `q` and its node at `p`. -/
def newAddr (addr : Loc → Nat) (key : UInt64) (q p : Nat) : Loc → Nat :=
  update (update addr (.block key 0) q) (.node key) p

/-- The contents when the block of a new key and its node are made. -/
def newWords (words : Loc → List Nat) (key ptr garbage : UInt64) (q : Nat) : Loc → List Nat :=
  update (update words (.block key 0) [ptr.toNat, garbage.toNat, 1, 0]) (.node key) [key.toNat, 0, q]

section Fresh
variable {q : Nat} {garbage : UInt64}

theorem kept_new : Kept key addr (newAddr addr key q p) words (newWords words key ptr garbage q) :=
  (Kept.refl.create (not_other_block key 0)).create (not_other_node key key)

theorem newAddr_node (other : k ≠ key) : newAddr addr key q p (.node k) = addr (.node k) := by
  simp [newAddr, other]

theorem newWords_node (other : k ≠ key) :
    newWords words key ptr garbage q (.node k) = words (.node k) := by
  simp [newWords, other]

theorem newWords_own : newWords words key ptr garbage q (.node key) =
    [key.toNat, 0, newAddr addr key q p (.block key 0)] := by
  simp [newWords, newAddr]

theorem filled_first : Filled (newAddr addr key q p) key [ptr.toNat] 0 (newWords words key ptr garbage q (.block key 0)) := by
  have content : newWords words key ptr garbage q (.block key 0) = [ptr.toNat, garbage.toNat, 1, 0] := by simp [newWords]
  rw [content]
  exact (filled_new rfl garbage.toNat_lt : Filled _ key ([] ++ [ptr.toNat]) 0 _)

/-- `InsertNode` makes the block and the node of a new key, if it gets the memory. -/
theorem Body.makeNode (body : Body index slots calls addr words chain h) (supply : Supply) (garbage ptr : UInt64)
    (none : inserted key calls = []) : h.malloc supply 32 = .error .memory ∨ ∃ q g, h.malloc supply 32 = .ok (q, g) ∧
      ((g.writeWords q [ptr.toNat, garbage.toNat, 1, 0]).malloc supply 24 = .error .memory ∨
      ∃ p g', (g.writeWords q [ptr.toNat, garbage.toNat, 1, 0]).malloc supply 24 = .ok (p, g') ∧
        p < 2 ^ 64 ∧ (g'.writeWords p [key.toNat, 0, q]).Ok ∧ Objects (g'.writeWords p [key.toNat, 0, q])
          { x | Alive slots index.bucketsCount.toNat (calls ++ [(key, ptr)]) x }
          (newAddr addr key q p) (newWords words key ptr garbage q)) := by
  have newBlock : Loc.block key 0 ∉ { x | Alive slots index.bucketsCount.toNat calls x } := by
    show ¬slotNum * 0 < _
    rw [none]
    decide
  have newNode : Loc.node key ∉ insert (Loc.block key 0) { x | Alive slots index.bucketsCount.toNat calls x } := by
    rintro (same | old)
    · exact Loc.noConfusion same
    · have present : 0 < (inserted key calls).length := old
      rw [none] at present
      exact Nat.lt_irrefl 0 present
  rw [alive_first none]
  rcases body.objects.malloc body.ok supply 32 (.block key 0) [ptr.toNat, garbage.toNat, 1, 0] newBlock rfl
    (List.cons_ne_nil _ _) (by
      simp only [List.forall_mem_cons]
      exact ⟨ptr.toNat_lt, garbage.toNat_lt, by decide, by decide, by simp⟩) with failed | ⟨q, g, got, _, bounded, ok, objects⟩
  · exact Or.inl failed
  · refine Or.inr ⟨q, g, got, ?_⟩
    rcases objects.malloc ok supply 24 (.node key) [key.toNat, 0, q] newNode rfl (List.cons_ne_nil _ _) (by
      simp only [List.forall_mem_cons]
      exact ⟨key.toNat_lt, by decide, bounded, by simp⟩) with failed | ⟨p, g', got', _, small, made⟩
    · exact Or.inl failed
    · exact Or.inr ⟨p, g', got', small, made⟩

/-- The new node is the first one of its bucket. -/
theorem Body.hang_first (body : Body index slots calls addr words chain h)
    (empty : chain (index.hash key) = []) (ok : h'.Ok)
    (objects : Objects h' { x | Alive slots index.bucketsCount.toNat (calls ++ [(key, ptr)]) x }
      (newAddr addr key q p) (newWords words key ptr garbage q)) :
    ∃ words' h'', BucketHeader.hang (first addr (chain (index.hash key))) (last addr (chain (index.hash key))) p h' =
        .ok (first (newAddr addr key q p) (chain (index.hash key) ++ [key]), h'') ∧
      Body index slots (calls ++ [(key, ptr)]) (newAddr addr key q p) words'
        (update chain (index.hash key) (chain (index.hash key) ++ [key])) h'' ∧
      Heads addr (newAddr addr key q p) words words' := by
  have absent : key ∉ chain (index.hash key) := by simp [empty]
  refine ⟨_, h', ?_, body.afterNew absent kept_new ok objects (fun _ => newAddr_node) newWords_own ?_
    (fun _ other _ => newWords_node other) filled_first, kept_new.heads⟩
  · have own : newAddr addr key q p (.node key) = p := by simp [newAddr]
    rw [empty, List.nil_append, first, first, own]
    rfl
  · intro keys k split
    rw [empty] at split
    simp at split

/-- The new node comes after the last one of its bucket. -/
theorem Body.hang_last {keys : List UInt64} (body : Body index slots calls addr words chain h)
    (absent : key ∉ chain (index.hash key)) (split : chain (index.hash key) = keys ++ [k]) (ok : h'.Ok)
    (small : p < 2 ^ 64) (objects : Objects h' { x | Alive slots index.bucketsCount.toNat (calls ++ [(key, ptr)]) x }
      (newAddr addr key q p) (newWords words key ptr garbage q)) :
    ∃ words' h'', BucketHeader.hang (first addr (chain (index.hash key))) (last addr (chain (index.hash key))) p h' =
        .ok (first (newAddr addr key q p) (chain (index.hash key) ++ [key]), h'') ∧
      Body index slots (calls ++ [(key, ptr)]) (newAddr addr key q p) words'
        (update chain (index.hash key) (chain (index.hash key) ++ [key])) h'' ∧
      Heads addr (newAddr addr key q p) words words' := by
  have member : k ∈ chain (index.hash key) := by rw [split]; simp
  have other : k ≠ key := fun same => absent (same ▸ member)
  have content : newWords words key ptr garbage q (.node k) = [k.toNat, 0, addr (.block k (top k calls))] :=
    (newWords_node other).trans (body.chained _ keys k [] split)
  have items := body.block_placed (Body.top_lt ((body.members _ k).mp member).2)
  have end' : last addr (chain (index.hash key)) = addr (.node k) := by
    rw [last, split, List.getLast?_append_of_ne_nil _ (List.cons_ne_nil _ _)]
    rfl
  have alive : Loc.node k ∈ { x | Alive slots index.bucketsCount.toNat (calls ++ [(key, ptr)]) x } := by
    show 0 < _
    rw [inserted_other ptr calls other]
    exact body.alive_node member
  have read : BucketNode.read h' (addr (.node k)) = ⟨k.toNat, 0, addr (.block k (top k calls))⟩ := by
    have read := objects.content _ alive
    rw [newAddr_node other, content] at read
    exact congrArg BucketNode.ofWords read
  have heads : first (newAddr addr key q p) (chain (index.hash key) ++ [key]) = first addr (chain (index.hash key)) := by
    rw [first_append, if_neg (List.ne_nil_of_mem member)]
    cases keys with
    | nil => rw [split]; exact newAddr_node other
    | cons k' keys =>
      rw [split]
      exact newAddr_node fun same => absent (by rw [split, same]; exact List.mem_cons_self)
  obtain ⟨ok, objects⟩ := objects.write ok (.node k) [k.toNat, p, addr (.block k (top k calls))] alive
    (by rw [content]; rfl) (by
      simp only [List.forall_mem_cons]
      exact ⟨k.toNat_lt, small, items.2, by simp⟩)
  rw [newAddr_node other] at ok objects
  refine ⟨_, _, ?_, body.afterNew absent (kept_new.write (not_other_node key k)) ok objects
    (fun _ => newAddr_node) ?_ ?_ ?_ ?_, (kept_new.write (not_other_node key k)).heads⟩
  · rw [BucketHeader.hang, end', if_pos (body.node_placed member).1, read, heads]
    rfl
  · rw [update_of_ne (by simpa using Ne.symm other)]
    exact newWords_own
  · intro keys' k' split'
    obtain ⟨-, rfl⟩ := List.append_singleton_inj.mp (split.symm.trans split')
    simp [newAddr]
  · intro k' other' inner
    have different : k' ≠ k := by
      rintro rfl
      exact inner keys split
    rw [update_of_ne (by simpa using different)]
    exact newWords_node other'
  · rw [update_of_ne (by simp)]
    exact filled_first

/-- `InsertNode` hangs a node for a new key into its bucket. -/
theorem Body.insertNew (body : Body index slots calls addr words chain h) (supply : Supply)
    (garbage : Nat → Nat → UInt64) (ptr : UInt64) (absent : key ∉ chain (index.hash key)) :
    BucketHeader.insertNew supply garbage (first addr (chain (index.hash key))) key.toNat ptr.toNat
        (last addr (chain (index.hash key))) h = .error .memory ∨
      ∃ addr' words' h', BucketHeader.insertNew supply garbage (first addr (chain (index.hash key))) key.toNat ptr.toNat
          (last addr (chain (index.hash key))) h = .ok (first addr' (chain (index.hash key) ++ [key]), h') ∧
        Body index slots (calls ++ [(key, ptr)]) addr' words'
          (update chain (index.hash key) (chain (index.hash key) ++ [key])) h' ∧
        (∀ k ≠ key, addr' (.node k) = addr (.node k)) ∧ Heads addr addr' words words' := by
  have none : inserted key calls = [] := by
    by_contra some
    exact absent ((body.members _ key).mpr ⟨rfl, List.length_pos_iff.mpr some⟩)
  have added : (Items.init (garbage h.tick)).addRecordPtr ptr.toNat =
      .ok (true, ⟨[ptr.toNat, (garbage h.tick 1).toNat], 1, 0⟩) := rfl
  unfold BucketHeader.insertNew
  simp only [added, bind, Except.bind, Items.words, BucketNode.words, List.cons_append, List.nil_append]
  rcases body.makeNode supply (garbage h.tick 1) ptr none with
    failed | ⟨q, g, got, failed | ⟨p, g', got', small, ok, objects⟩⟩
  · exact Or.inl (by rw [failed])
  · exact Or.inl (by simp only [got, failed])
  · right
    simp only [got, got']
    rcases List.eq_nil_or_concat (chain (index.hash key)) with empty | ⟨keys, k, split⟩
    · obtain ⟨words', h', hung, inserted, heads⟩ := body.hang_first empty ok objects
      exact ⟨_, words', h', hung, inserted, fun _ => newAddr_node, heads⟩
    · rw [List.concat_eq_append] at split
      obtain ⟨words', h', hung, inserted, heads⟩ := body.hang_last absent split ok small objects
      exact ⟨_, words', h', hung, inserted, fun _ => newAddr_node, heads⟩

end Fresh

/-- `InsertNode` returns whether the key is new, and the head the bucket needs then. -/
theorem Body.insertNode (body : Body index slots calls addr words chain h) (supply : Supply)
    (garbage : Nat → Nat → UInt64) (key ptr : UInt64) (enough : calls.length < fuel) :
    BucketHeader.insertNode supply garbage fuel (first addr (chain (index.hash key))) key.toNat ptr.toNat h =
        .error .memory ∨
      ∃ addr' words' chain' h', BucketHeader.insertNode supply garbage fuel (first addr (chain (index.hash key)))
          key.toNat ptr.toNat h = .ok (decide (inserted key calls = []), first addr' (chain' (index.hash key)), h') ∧
        Body index slots (calls ++ [(key, ptr)]) addr' words' chain' h' ∧ Heads addr addr' words words' ∧
        ∀ b ≠ index.hash key, first addr' (chain' b) = first addr (chain b) := by
  obtain ⟨prev, found, behind⟩ := body.find_bucket key (index.hash key) enough
  rw [BucketHeader.insertNode, found]
  by_cases member : key ∈ chain (index.hash key)
  · have present := ((body.members _ key).mp member).2
    have known : decide (inserted key calls = []) = false := decide_eq_false (List.length_pos_iff.mp present)
    rw [if_pos member, known]
    simp only [bind, Except.bind, ne_eq, (body.node_placed member).1, not_false_eq_true, if_true]
    rcases body.insertOld supply garbage ptr member with failed | ⟨addr', words', h', ran, inserted, nodes, heads⟩
    · exact Or.inl (by rw [failed])
    · have firsts : ∀ keys, first addr' keys = first addr keys := fun keys => by
        cases keys with
        | nil => rfl
        | cons k _ => exact nodes k
      exact Or.inr ⟨addr', words', chain, h', by rw [ran, firsts]; rfl, inserted, heads, fun b _ => firsts _⟩
  · have none : inserted key calls = [] := by
      by_contra some
      exact member ((body.members _ key).mpr ⟨rfl, List.length_pos_iff.mpr some⟩)
    rw [if_neg member, behind member, decide_eq_true none]
    simp only [bind, Except.bind, ne_eq, not_true_eq_false, if_false]
    rcases body.insertNew supply garbage ptr member with failed | ⟨addr', words', h', ran, inserted, nodes, heads⟩
    · exact Or.inl (by rw [failed])
    · refine Or.inr ⟨addr', words', _, h', ?_, inserted, heads, fun b other => ?_⟩
      · rw [ran, update_self]
        rfl
      · rw [update_of_ne other]
        cases keys : chain b with
        | nil => rfl
        | cons k _ =>
          refine nodes k ?_
          rintro rfl
          exact other ((body.members b k).mp (keys ▸ List.mem_cons_self)).1.symm

/-- One insertion. -/
theorem Layout.insertRecord (layout : Layout index slots calls addr words chain h) (supply : Supply)
    (garbage : Nat → Nat → UInt64) (key ptr : UInt64) (enough : calls.length < fuel) :
    index.insertRecord supply garbage fuel key ptr h = .error .memory ∨
      ∃ index' addr' words' chain' h', index.insertRecord supply garbage fuel key ptr h =
          .ok (decide (inserted key calls = []), index', h') ∧
        Layout index' slots (calls ++ [(key, ptr)]) addr' words' chain' h' := by
  have below := hash_lt layout.positive key
  rw [HashIndex.insertRecord, layout.header_ok below]
  simp only [bind, Except.bind, layout.head below]
  rcases layout.insertNode supply garbage key ptr enough with
    failed | ⟨addr', words', chain', h', ran, body, heads, others⟩
  · exact Or.inl (by rw [failed])
  · right
    rw [ran]
    rw [← (heads (index.hash key)).1]
    obtain ⟨ok, objects⟩ := body.objects.write body.ok (.header (index.hash key)) [first addr' (chain' (index.hash key))]
      below (body.header _ below).symm (by
        simp only [List.forall_mem_cons]
        exact ⟨body.first_small List.suffix_rfl, by simp⟩)
    refine ⟨_, addr', _, chain', _, rfl, ⟨ok, objects, body.positive, ?_, ?_, body.members, body.nodup, ?_, ?_⟩, ?_⟩
    · intro g same b below
      refine body.places g (fun k i member => ?_) b below
      have kept := same k i member
      rwa [update_of_ne (by simp)] at kept
    · intro b below
      by_cases here : b = index.hash key
      · subst here
        rw [update_self]
        rfl
      · rw [update_of_ne (by simpa using here)]
        exact body.header b below
    · intro b before k after split
      rw [update_of_ne (by simp)]
      exact body.chained b before k after split
    · intro k j inside
      rw [update_of_ne (by simp)]
      exact body.filled k j inside
    · intro b below
      by_cases here : b = index.hash key
      · subst here
        rw [update_self]
      · rw [update_of_ne (by simpa using here), (heads b).2, layout.heads b below, others b here]

end Gam.Database.HashIndex

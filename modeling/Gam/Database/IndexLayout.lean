import Mathlib.Data.List.Perm.Subperm
import Gam.Database.HashIndex

/-!
# The objects of a hash index

A hash index consists of the slots of the bucket array's tree, a header per bucket, a node per key and
the blocks with the records of the key. `Body` says what they hold after a sequence of insertions,
except for the headers, which are written last.
-/

namespace Gam.Database.HashIndex

inductive Loc
  | slot (k i : Nat)
  | header (b : Nat)
  | node (key : UInt64)
  /-- Block `j` of a key, counted from the oldest one. -/
  | block (key : UInt64) (j : Nat)
deriving DecidableEq

/-- The records inserted under a key, the oldest first. -/
def inserted (key : UInt64) (calls : List (UInt64 × UInt64)) : List Nat :=
  (calls.filter fun call => call.1 = key).map fun call => call.2.toNat

/-- The newest block of a key. -/
def top (key : UInt64) (calls : List (UInt64 × UInt64)) : Nat := ((inserted key calls).length - 1) / slotNum

def Alive (slots : Set (Nat × Nat)) (count : Nat) (calls : List (UInt64 × UInt64)) : Loc → Prop
  | .slot k i => (k, i) ∈ slots
  | .header b => b < count
  | .node key => 0 < (inserted key calls).length
  | .block key j => slotNum * j < (inserted key calls).length

/-- The address of the first node of a list of nodes. -/
def first (addr : Loc → Nat) : List UInt64 → Nat
  | [] => 0
  | key :: _ => addr (.node key)

/-- The address of the last node of a list of nodes. -/
def last (addr : Loc → Nat) (keys : List UInt64) : Nat :=
  (keys.getLast?.map fun key => addr (.node key)).getD 0

/-- What block `j` of a key holds; a slot that is not used holds anything. -/
def Filled (addr : Loc → Nat) (key : UInt64) (records : List Nat) (j : Nat) (words : List Nat) : Prop :=
  ∃ second < 2 ^ 64, words = [records.getD (2 * j) 0, second, min 2 (records.length - 2 * j),
    if j = 0 then 0 else addr (.block key (j - 1))] ∧
    (2 * j + 1 < records.length → second = records.getD (2 * j + 1) 0)

structure Body (index : HashIndex) (slots : Set (Nat × Nat)) (calls : List (UInt64 × UInt64)) (addr : Loc → Nat)
    (words : Loc → List Nat) (chain : Nat → List UInt64) (h : Heap) : Prop where
  ok : h.Ok
  objects : Objects h { x | Alive slots index.bucketsCount.toNat calls x } addr words
  positive : 0 < index.bucketsCount.toNat
  /-- The headers are found in every heap that has the slots of the tree. -/
  places : ∀ g : Heap, (∀ k i, (k, i) ∈ slots →
      g.readWords (addr (.slot k i)) (words (.slot k i)).length = words (.slot k i)) →
    ∀ b < index.bucketsCount.toNat, index.header b g = .ok (addr (.header b))
  header : ∀ b < index.bucketsCount.toNat, (words (.header b)).length = 1
  members : ∀ b key, key ∈ chain b ↔ index.hash key = b ∧ 0 < (inserted key calls).length
  nodup : ∀ b, (chain b).Nodup
  chained : ∀ b before key after, chain b = before ++ key :: after →
    words (.node key) = [key.toNat, first addr after, addr (.block key (top key calls))]
  filled : ∀ key j, slotNum * j < (inserted key calls).length →
    Filled addr key (inserted key calls) j (words (.block key j))

/-- The index after a sequence of insertions. -/
structure Layout (index : HashIndex) (slots : Set (Nat × Nat)) (calls : List (UInt64 × UInt64)) (addr : Loc → Nat)
    (words : Loc → List Nat) (chain : Nat → List UInt64) (h : Heap) : Prop
    extends Body index slots calls addr words chain h where
  heads : ∀ b < index.bucketsCount.toNat, words (.header b) = [first addr (chain b)]

variable {index : HashIndex} {slots : Set (Nat × Nat)} {calls : List (UInt64 × UInt64)} {addr : Loc → Nat}
  {words : Loc → List Nat} {chain : Nat → List UInt64} {h : Heap} {key : UInt64} {j b fuel : Nat}

theorem inserted_append (key key' ptr : UInt64) (calls : List (UInt64 × UInt64)) :
    inserted key (calls ++ [(key', ptr)]) = inserted key calls ++ if key' = key then [ptr.toNat] else [] := by
  by_cases same : key' = key
  · simp [inserted, same]
  · simp [inserted, same]

theorem inserted_self (key ptr : UInt64) (calls : List (UInt64 × UInt64)) :
    inserted key (calls ++ [(key, ptr)]) = inserted key calls ++ [ptr.toNat] := by
  rw [inserted_append, if_pos rfl]

theorem inserted_other {key key' : UInt64} (ptr : UInt64) (calls : List (UInt64 × UInt64)) (other : key ≠ key') :
    inserted key (calls ++ [(key', ptr)]) = inserted key calls := by
  rw [inserted_append, if_neg (Ne.symm other), List.append_nil]

theorem inserted_pos : 0 < (inserted key calls).length ↔ key ∈ calls.map Prod.fst := by
  rw [List.length_pos_iff, inserted, ne_eq, List.map_eq_nil_iff, List.filter_eq_nil_iff]
  simp

theorem inserted_small {w : Nat} (member : w ∈ inserted key calls) : w < 2 ^ 64 := by
  obtain ⟨call, -, rfl⟩ := List.mem_map.mp member
  exact call.2.toNat_lt

theorem inserted_getD_small (i : Nat) : (inserted key calls).getD i 0 < 2 ^ 64 := by
  rw [List.getD_eq_getElem?_getD]
  cases found : (inserted key calls)[i]? with
  | none => decide
  | some w => exact inserted_small (List.mem_of_getElem? found)

theorem hash_lt (positive : 0 < index.bucketsCount.toNat) (key : UInt64) : index.hash key < index.bucketsCount.toNat :=
  Nat.mod_lt _ positive

theorem first_append (addr : Loc → Nat) (keys : List UInt64) (key : UInt64) :
    first addr (keys ++ [key]) = if keys = [] then addr (.node key) else first addr keys := by
  cases keys with
  | nil => rfl
  | cons => rfl

namespace Body

theorem header_ok (body : Body index slots calls addr words chain h) (below : b < index.bucketsCount.toNat) :
    index.header b h = .ok (addr (.header b)) :=
  body.places h (fun k i member => body.objects.content (.slot k i) member) b below

/-- There are at most as many nodes in a bucket as there were insertions. -/
theorem chain_length (body : Body index slots calls addr words chain h) (b : Nat) :
    (chain b).length ≤ calls.length := by
  have subset : chain b ⊆ calls.map Prod.fst := fun key member =>
    inserted_pos.mp ((body.members b key).mp member).2
  have bound := ((body.nodup b).subperm subset).length_le
  rwa [List.length_map] at bound

theorem alive_node (body : Body index slots calls addr words chain h) (member : key ∈ chain b) :
    Loc.node key ∈ { x | Alive slots index.bucketsCount.toNat calls x } :=
  ((body.members b key).mp member).2

theorem read_node {next items : Nat} (body : Body index slots calls addr words chain h) (member : key ∈ chain b)
    (content : words (.node key) = [key.toNat, next, items]) :
    BucketNode.read h (addr (.node key)) = ⟨key.toNat, next, items⟩ := by
  have read := body.objects.content _ (body.alive_node member)
  rw [content] at read
  exact congrArg BucketNode.ofWords read

theorem node_placed (body : Body index slots calls addr words chain h) (member : key ∈ chain b) :
    addr (.node key) ≠ 0 ∧ addr (.node key) < 2 ^ 64 := by
  obtain ⟨before, after, split⟩ := List.append_of_mem member
  refine body.objects.placed body.ok (body.alive_node member) ?_
  rw [body.chained b before key after split]
  exact List.cons_ne_nil _ _

/-- The link to the rest of a bucket is a word. -/
theorem first_small {after : List UInt64} (body : Body index slots calls addr words chain h)
    (suffix : after <:+ chain b) : first addr after < 2 ^ 64 := by
  cases after with
  | nil => exact Nat.two_pow_pos 64
  | cons next after => exact (body.node_placed (suffix.subset List.mem_cons_self)).2

/-- The loop over the nodes of a bucket finds the node of the key, or the end. -/
theorem find_chain (body : Body index slots calls addr words chain h) (key : UInt64) :
    ∀ (after before : List UInt64) (fuel prev : Nat), chain b = before ++ after → after.length < fuel →
      ∃ prev', BucketHeader.find h key.toNat fuel (first addr after) prev =
          .ok (if key ∈ after then addr (.node key) else 0, prev') ∧
        (key ∉ after → prev' = (after.getLast?.map fun key => addr (.node key)).getD prev) := by
  intro after
  induction after with
  | nil =>
    intro before fuel prev _ enough
    obtain ⟨fuel, rfl⟩ := Nat.exists_eq_succ_of_ne_zero (Nat.ne_of_gt enough)
    exact ⟨prev, rfl, fun _ => rfl⟩
  | cons k after ih =>
    intro before fuel prev split enough
    obtain ⟨fuel, rfl⟩ := Nat.exists_eq_succ_of_ne_zero (Nat.ne_of_gt (Nat.zero_lt_of_lt enough))
    have member : k ∈ chain b := by rw [split]; simp
    have node := body.read_node member (body.chained b before k after split)
    have nonzero := (body.node_placed member).1
    by_cases same : k = key
    · subst same
      refine ⟨prev, ?_, fun absent => absurd List.mem_cons_self absent⟩
      rw [first, BucketHeader.find, if_neg nonzero, node, if_pos rfl, if_pos List.mem_cons_self]
    · obtain ⟨prev', found, end'⟩ := ih (before ++ [k]) fuel (addr (.node k)) (by simp [split])
        (Nat.lt_of_succ_lt_succ enough)
      refine ⟨prev', ?_, fun absent => ?_⟩
      · rw [first, BucketHeader.find, if_neg nonzero, node, if_neg fun equal => same (UInt64.toNat_inj.mp equal), found]
        simp [Ne.symm same]
      · rw [end' fun later => absent (List.mem_cons_of_mem _ later), List.getLast?_cons]
        cases after.getLast? <;> rfl

theorem find_bucket (body : Body index slots calls addr words chain h) (key : UInt64) (b : Nat)
    (enough : calls.length < fuel) : ∃ prev, BucketHeader.find h key.toNat fuel (first addr (chain b)) 0 =
        .ok (if key ∈ chain b then addr (.node key) else 0, prev) ∧ (key ∉ chain b → prev = last addr (chain b)) :=
  body.find_chain key (chain b) [] fuel 0 rfl (Nat.lt_of_le_of_lt (body.chain_length b) enough)

theorem read_block {second count below : Nat} {records : List Nat} (body : Body index slots calls addr words chain h)
    (below' : slotNum * j < (inserted key calls).length)
    (content : words (.block key j) = [records.getD (2 * j) 0, second, count, below]) :
    Items.read h (addr (.block key j)) = ⟨[records.getD (2 * j) 0, second], count, below⟩ := by
  have read := body.objects.content (.block key j) below'
  rw [content] at read
  exact congrArg Items.ofWords read

theorem block_placed (body : Body index slots calls addr words chain h) (below : slotNum * j < (inserted key calls).length) :
    addr (.block key j) ≠ 0 ∧ addr (.block key j) < 2 ^ 64 := by
  obtain ⟨second, _, content, -⟩ := body.filled key j below
  refine body.objects.placed body.ok below ?_
  rw [content]
  exact List.cons_ne_nil _ _

theorem top_lt (present : 0 < (inserted key calls).length) : slotNum * top key calls < (inserted key calls).length := by
  unfold top slotNum
  omega

end Body

namespace Layout

theorem head (layout : Layout index slots calls addr words chain h) (below : b < index.bucketsCount.toNat) :
    h.readWord (addr (.header b)) = first addr (chain b) := by
  have content := layout.objects.content (.header b) below
  rw [layout.heads _ below] at content
  exact (List.cons.inj content).1

/-- `SearchNode` finds the newest block of a key that was inserted. -/
theorem searchNode (layout : Layout index slots calls addr words chain h) (key : UInt64)
    (enough : calls.length < fuel) :
    BucketHeader.searchNode fuel (h.readWord (addr (.header (index.hash key)))) key.toNat h =
      .ok (if 0 < (inserted key calls).length then some (addr (.block key (top key calls))) else none) := by
  obtain ⟨prev, found, -⟩ := layout.find_bucket key (index.hash key) enough
  have iff := layout.members (index.hash key) key
  rw [BucketHeader.searchNode, layout.head (hash_lt layout.positive key), found]
  by_cases member : key ∈ chain (index.hash key)
  · obtain ⟨before, after, split⟩ := List.append_of_mem member
    have node := layout.read_node member (layout.chained _ before key after split)
    have nonzero := (layout.node_placed member).1
    rw [if_pos member, if_pos (iff.mp member).2]
    simp only [bind, Except.bind, ne_eq, nonzero, not_false_eq_true, if_true, node]
    rfl
  · rw [if_neg member, if_neg fun present => member (iff.mpr ⟨rfl, present⟩)]
    rfl

theorem take_succ_getD {records : List Nat} {n : Nat} (below : n < records.length) :
    records.take (n + 1) = records.take n ++ [records.getD n 0] := by
  rw [List.take_add_one, List.getD_eq_getElem?_getD, List.getElem?_eq_getElem below]
  rfl

/-- An iterator at a block with one record. -/
theorem collect_one {p one second below : Nat} {items : Items} (read : Items.read h p = ⟨[one, second], 1, below⟩)
    (placed : p ≠ 0) (nonzero : one ≠ 0) : ItemsIter.collect h (fuel + 1) ⟨p, -1, items⟩ =
      (ItemsIter.collect h fuel ⟨below, -1, ⟨[one, second], 1, below⟩⟩).map (one :: ·) := by
  simp only [ItemsIter.collect, ItemsIter.getNext, if_neg placed, read]
  simp [bind, Except.bind, nonzero]
  rfl

/-- An iterator at a block with two records. -/
theorem collect_two {p one two below : Nat} {items : Items} (read : Items.read h p = ⟨[one, two], 2, below⟩)
    (placed : p ≠ 0) (nonzero : one ≠ 0) (nonzero' : two ≠ 0) : ItemsIter.collect h (fuel + 2) ⟨p, -1, items⟩ =
      (ItemsIter.collect h fuel ⟨below, -1, ⟨[one, two], 2, below⟩⟩).map (one :: two :: ·) := by
  simp only [ItemsIter.collect, ItemsIter.getNext, if_neg placed, read]
  simp [bind, Except.bind, nonzero, nonzero', placed]
  cases ItemsIter.collect h fuel ⟨below, -1, ⟨[one, two], 2, below⟩⟩ <;> rfl

/-- An iterator at the `n`-th block goes through the records of that block and of the older ones. -/
theorem collect_blocks (layout : Layout index slots calls addr words chain h) (key : UInt64)
    (nonnull : ∀ w ∈ inserted key calls, w ≠ 0) :
    ∀ (n fuel : Nat) (items : Items), (n ≠ 0 → slotNum * (n - 1) < (inserted key calls).length) →
      min (2 * n) (inserted key calls).length < fuel →
      ∃ l, ItemsIter.collect h fuel ⟨if n = 0 then 0 else addr (.block key (n - 1)), -1, items⟩ = .ok l ∧
        l.Perm ((inserted key calls).take (2 * n)) := by
  have nonzero : ∀ i < (inserted key calls).length, (inserted key calls).getD i 0 ≠ 0 := by
    intro i below
    rw [List.getD_eq_getElem?_getD, List.getElem?_eq_getElem below]
    exact nonnull _ (List.getElem_mem below)
  intro n
  induction n with
  | zero =>
    intro fuel items _ enough
    obtain ⟨fuel, rfl⟩ := Nat.exists_eq_succ_of_ne_zero (Nat.ne_of_gt (Nat.zero_lt_of_lt enough))
    exact ⟨[], rfl, List.Perm.refl _⟩
  | succ n ih =>
    intro fuel items below enough
    have inside : slotNum * n < (inserted key calls).length := below (Nat.succ_ne_zero n)
    unfold slotNum at inside
    obtain ⟨fuel, rfl⟩ := Nat.exists_eq_succ_of_ne_zero (Nat.ne_of_gt (Nat.zero_lt_of_lt enough))
    obtain ⟨second, -, content, filled⟩ := layout.filled key n inside
    have read := layout.read_block inside content
    have placed := (layout.block_placed inside).1
    have older : n ≠ 0 → slotNum * (n - 1) < (inserted key calls).length := by
      unfold slotNum
      omega
    rw [if_neg (Nat.succ_ne_zero n), Nat.add_sub_cancel]
    by_cases full : 2 * n + 1 < (inserted key calls).length
    · -- both slots are used
      obtain ⟨fuel, rfl⟩ := Nat.exists_eq_succ_of_ne_zero (n := fuel) (by omega)
      have count : min 2 ((inserted key calls).length - 2 * n) = 2 := by omega
      rw [count] at read
      obtain ⟨l, rest, perm⟩ := ih fuel ⟨[(inserted key calls).getD (2 * n) 0, second], 2,
        if n = 0 then 0 else addr (.block key (n - 1))⟩ older (by omega)
      refine ⟨(inserted key calls).getD (2 * n) 0 :: (inserted key calls).getD (2 * n + 1) 0 :: l, ?_, ?_⟩
      · have one := nonzero _ inside
        have two := nonzero _ full
        rw [← filled full] at two ⊢
        rw [collect_two read placed one two, rest]
        rfl
      · rw [Nat.mul_succ, take_succ_getD full, take_succ_getD inside, List.append_assoc]
        exact (List.Perm.append_left [_, _] perm).trans List.perm_append_comm
    · have count : min 2 ((inserted key calls).length - 2 * n) = 1 := by omega
      rw [count] at read
      obtain ⟨l, rest, perm⟩ := ih fuel ⟨[(inserted key calls).getD (2 * n) 0, second], 1,
        if n = 0 then 0 else addr (.block key (n - 1))⟩ older (by omega)
      refine ⟨(inserted key calls).getD (2 * n) 0 :: l, ?_, ?_⟩
      · rw [collect_one read placed (nonzero _ inside), rest]
        rfl
      · have all : (inserted key calls).take (2 * (n + 1)) = (inserted key calls).take (2 * n + 1) := by
          rw [List.take_of_length_le (by omega), List.take_of_length_le (by omega)]
        rw [all, take_succ_getD inside]
        exact (List.Perm.append_left [_] perm).trans List.perm_append_comm

/-- Iterating over the item list of a key yields every record once. -/
theorem records (layout : Layout index slots calls addr words chain h) (key : UInt64)
    (nonnull : ∀ w ∈ inserted key calls, w ≠ 0) (enough : calls.length < fuel) :
    ∃ l, index.records fuel key h = .ok l ∧ l.Perm (inserted key calls) := by
  rw [HashIndex.records, layout.header_ok (hash_lt layout.positive key)]
  simp only [bind, Except.bind, layout.searchNode key enough]
  by_cases present : 0 < (inserted key calls).length
  · have length : (inserted key calls).length ≤ calls.length := by
      rw [inserted, List.length_map]
      exact List.length_filter_le ..
    rw [if_pos present]
    obtain ⟨l, collected, perm⟩ := layout.collect_blocks key nonnull (top key calls + 1) fuel ⟨[], 0, 0⟩
      (fun _ => Body.top_lt present) (by omega)
    refine ⟨l, collected, perm.trans ?_⟩
    rw [List.take_of_length_le]
    unfold top slotNum
    omega
  · rw [if_neg present]
    refine ⟨[], rfl, ?_⟩
    rw [List.length_eq_zero_iff.mp (Nat.eq_zero_of_not_pos present)]

end Layout

end Gam.Database.HashIndex

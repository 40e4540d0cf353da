import Gam.Intervals
import Gam.LinkedList
import Gam.Slab.Heap

/-!
# Chunks, free lists and the region

`Core` ties the free lists, the entries of `stats_map` and the chunks in use to the chunks that were
carved out of the region. `free` are the free lists and `owner` the class each chunk was carved for.
-/

namespace Gam.Slab

open SlabAllocator Function

namespace SlabAllocator

variable (s : SlabAllocator)

def next (p : Nat) : Option Nat := (s.statsMap p).bind Item.next

def prev (p : Nat) : Option Nat := (s.statsMap p).bind Item.prev

end SlabAllocator

structure Core (s : SlabAllocator) (live : List Chunk) (free : Nat → List Nat) (owner : Nat → Option Nat) : Prop where
  least : ∀ size ∈ s.sizes, 48 ≤ size
  few : s.sizes.length < 256
  whole : ∃ slabs, s.memCurrent = s.memBase + slabs * itemSizeMax
  region : s.memCurrent + s.memAvail = s.memBase + s.memLimit
  linked : ∀ id, Linked s.next s.prev none (s.slabclass id).slots (free id)
  distinct : ∀ id, (free id).Nodup
  curr : ∀ id, (s.slabclass id).slCurr = (free id).length % 2 ^ 32
  classed : ∀ p id, owner p = some id → 1 ≤ id ∧ id ≤ s.powerLargest
  inside : ∀ p id, owner p = some id → s.memBase ≤ p ∧ p + s.size id ≤ s.memCurrent
  placed : ∀ p id, owner p = some id → ∃ slab x, p = s.memBase + slab * itemSizeMax + x * s.size id
  apart : ∀ p id q jd, owner p = some id → owner q = some jd → p ≠ q →
    Apart p (s.size id) q (s.size jd)
  known : ∀ p it, s.statsMap p = some it → ∃ id, owner p = some id
  freed : ∀ id, ∀ p ∈ free id, owner p = some id ∧
    ∃ it, s.statsMap p = some it ∧ it.slabsClsid = 0
  held : ∀ c ∈ live, owner c.ptr = some c.id ∧
    ∃ it, s.statsMap c.ptr = some it ∧ it.slabsClsid = c.id ∧ it.size ≠ 0
  pointers : (live.map Chunk.ptr).Nodup

namespace Core

variable {s : SlabAllocator} {live : List Chunk} {free : Nat → List Nat}
  {owner : Nat → Option Nat} {id p ptr size : Nat}

section
variable (core : Core s live free owner)
include core

theorem base_le : s.memBase ≤ s.memCurrent := by
  obtain ⟨slabs, same⟩ := core.whole
  omega

theorem size_least (first : 1 ≤ id) (last : id ≤ s.powerLargest) : 48 ≤ s.size id := by
  have inside : id - 1 < s.sizes.length := by
    rw [powerLargest] at last
    omega
  apply core.least
  rw [SlabAllocator.size, List.getD_eq_getElem?_getD, List.getElem?_eq_getElem inside, Option.getD_some]
  exact List.getElem_mem inside

theorem owned_least (owned : owner p = some id) : 48 ≤ s.size id :=
  core.size_least (core.classed p id owned).1 (core.classed p id owned).2

/-- A chunk on a free list is not in use. -/
theorem free_not_live (listed : p ∈ free id) {c : Chunk} (member : c ∈ live) : c.ptr ≠ p := by
  rintro rfl
  obtain ⟨_, it, found, cleared⟩ := core.freed id c.ptr listed
  obtain ⟨owned, it', found', used, _⟩ := core.held c member
  obtain rfl := Option.some.inj (found.symm.trans found')
  have first := (core.classed _ _ owned).1
  omega

/-- A chunk is on the free list of its own class only. -/
theorem free_class {jd : Nat} (owned : owner p = some id) (listed : p ∈ free jd) : jd = id :=
  Option.some.inj ((core.freed jd p listed).1.symm.trans owned)

/-- Pieces of memory with distinct addresses that are owned fit into the region together. -/
theorem sum_le {ι : Type} (ptr id : ι → Nat) {pieces : List ι}
    (owned : ∀ x ∈ pieces, owner (ptr x) = some (id x)) (different : (pieces.map ptr).Nodup) :
    (pieces.map fun x => s.size (id x)).sum ≤ s.memLimit := by
  have region := core.region
  have base := core.base_le
  have apart : pieces.Pairwise fun x y =>
      Apart (ptr x) (s.size (id x)) (ptr y) (s.size (id y)) := by
    refine (List.Nodup.of_map ptr different).pairwise_of_forall_ne ?_
    intro x first y second other
    apply core.apart _ _ _ _ (owned x first) (owned y second)
    exact fun same => other (List.inj_on_of_nodup_map different first second same)
  have bound := sum_lengths_le ptr (fun x => s.size (id x)) apart fun x member =>
    core.inside _ _ (owned x member)
  omega

theorem live_sum_le : (live.map fun c => s.size c.id).sum ≤ s.memLimit :=
  core.sum_le Chunk.ptr Chunk.id (fun c member => (core.held c member).1) core.pointers

/-- A free list of small enough a region is shorter than the counter is wide. -/
theorem length_free_lt (small : s.memLimit < 48 * 2 ^ 32) (id : Nat) : (free id).length < 2 ^ 32 := by
  have bound := core.sum_le (fun p => p) (fun _ => id) (fun p listed => (core.freed id p listed).1)
    (by simpa using core.distinct id)
  cases list : free id with
  | nil => simp
  | cons p rest =>
    have listed : p ∈ free id := by simp [list]
    have size := core.owned_least (core.freed id p listed).1
    rw [← list]
    rw [List.map_const', List.sum_replicate_nat] at bound
    have enough : (free id).length * 48 ≤ (free id).length * s.size id :=
      Nat.mul_le_mul_left _ size
    omega

end

/-! ## A chunk is put on a free list -/

variable (s) in
/-- The entries of `stats_map` after `do_slabs_free`. -/
theorem statsMap_doSlabsFree (first : 1 ≤ id) (last : id ≤ s.powerLargest) (apart : (s.slabclass id).slots ≠ some ptr) (p : Nat) :
    (s.doSlabsFree ptr size id).statsMap p =
      if p = ptr then some { (s.statsMap ptr).getD {} with prev := none, next := (s.slabclass id).slots }
      else if (s.slabclass id).slots = some p then (s.statsMap p).map fun it => { it with prev := some ptr }
      else s.statsMap p := by
  rw [doSlabsFree, if_neg (by omega)]
  dsimp only
  cases slots : (s.slabclass id).slots with
  | none =>
    by_cases same : p = ptr
    · subst same
      simp
    · simp [same]
  | some front =>
    rw [slots] at apart
    have other : front ≠ ptr := fun same => apart (congrArg some same)
    by_cases same : p = ptr
    · subst same
      simp [update_of_ne (Ne.symm other)]
    · by_cases head : p = front
      · subst head
        simp [other]
      · simp [same, head, Ne.symm head]

/-- What a step leaves of the entries of other chunks: all but the pointers. -/
def SameItems (s t : SlabAllocator) (p : Nat) : Prop :=
  (t.statsMap p).map (fun it => (it.slabsClsid, it.size)) = (s.statsMap p).map fun it => (it.slabsClsid, it.size)

theorem SameItems.entry {t : SlabAllocator} (same : SameItems s t p) {it : Item} (found : s.statsMap p = some it) :
    ∃ it', t.statsMap p = some it' ∧ it'.slabsClsid = it.slabsClsid ∧ it'.size = it.size := by
  rw [SameItems, found, Option.map_some, Option.map_eq_some_iff] at same
  obtain ⟨it', found', same⟩ := same
  exact ⟨it', found', (Prod.mk.inj same).1, (Prod.mk.inj same).2⟩

/-- A step that writes the entry of `ptr`, the back pointer of `front`, and the free list of the class `id`. -/
structure Relinks (s t : SlabAllocator) (id ptr : Nat) (front back : Option Nat) : Prop where
  items : ∀ p, p ≠ ptr → t.statsMap p =
    if front = some p then (s.statsMap p).map fun it => { it with prev := back } else s.statsMap p
  others : ∀ jd, jd ≠ id → t.slabclass jd = s.slabclass jd
  sizes : t.sizes = s.sizes
  memBase : t.memBase = s.memBase
  memCurrent : t.memCurrent = s.memCurrent
  memAvail : t.memAvail = s.memAvail
  memLimit : t.memLimit = s.memLimit

section
variable {t : SlabAllocator} {front back : Option Nat} (relinks : Relinks s t id ptr front back)
include relinks

theorem Relinks.next (other : p ≠ ptr) : t.next p = s.next p := by
  rw [SlabAllocator.next, SlabAllocator.next, relinks.items p other]
  split
  · cases s.statsMap p <;> rfl
  · rfl

theorem Relinks.prev (other : p ≠ ptr) (behind : front ≠ some p) : t.prev p = s.prev p := by
  rw [SlabAllocator.prev, SlabAllocator.prev, relinks.items p other, if_neg behind]

theorem Relinks.same (other : p ≠ ptr) : SameItems s t p := by
  rw [SameItems, relinks.items p other]
  split
  · rw [Option.map_map]
    rfl
  · rfl

/-- What is left to show of such a step is the list of the class and the entry of `ptr`. -/
theorem relink (core : Core s live free owner) (owned : owner ptr = some id) (inside : ∀ y, front = some y → y ∈ free id)
    {list : List Nat} {live' : List Chunk} (linked : Linked t.next t.prev none (t.slabclass id).slots list)
    (distinct : list.Nodup) (curr : (t.slabclass id).slCurr = list.length % 2 ^ 32)
    (freed : ∀ p ∈ list, p ≠ ptr ∧ p ∈ free id ∨ p = ptr ∧ ∃ it, t.statsMap p = some it ∧ it.slabsClsid = 0)
    (held : ∀ c ∈ live', c.ptr ≠ ptr ∧ c ∈ live ∨
      c.ptr = ptr ∧ c.id = id ∧ ∃ it, t.statsMap ptr = some it ∧ it.slabsClsid = c.id ∧ it.size ≠ 0)
    (pointers : (live'.map Chunk.ptr).Nodup) : Core t live' (update free id list) owner := by
  have sizeOf : t.size = s.size := by funext jd; rw [SlabAllocator.size, SlabAllocator.size, relinks.sizes]
  have outside : ∀ jd, jd ≠ id → ∀ p ∈ free jd, p ≠ ptr := fun jd other p listed same =>
    other (core.free_class owned (same ▸ listed))
  have kept : ∀ jd p, p ≠ ptr → p ∈ free jd → owner p = some jd ∧ ∃ it, t.statsMap p = some it ∧ it.slabsClsid = 0 := by
    intro jd p other listed
    obtain ⟨owned', it, found, zero⟩ := core.freed jd p listed
    obtain ⟨it', found', class', _⟩ := (relinks.same other).entry found
    exact ⟨owned', it', found', class'.trans zero⟩
  exact
    { least := by rw [relinks.sizes]; exact core.least
      few := by rw [relinks.sizes]; exact core.few
      whole := by rw [relinks.memBase, relinks.memCurrent]; exact core.whole
      region := by rw [relinks.memBase, relinks.memCurrent, relinks.memAvail, relinks.memLimit]; exact core.region
      linked := fun jd => by
        by_cases equal : jd = id
        · rw [equal, update_self]
          exact linked
        · rw [relinks.others jd equal, update_of_ne equal]
          refine (core.linked jd).congr fun y listed => ⟨relinks.next (outside jd equal y listed), relinks.prev (outside jd equal y listed) ?_⟩
          exact fun first => equal (core.free_class (core.freed id y (inside y first)).1 listed)
      distinct := fun jd => by
        by_cases equal : jd = id
        · rw [equal, update_self]
          exact distinct
        · rw [update_of_ne equal]
          exact core.distinct jd
      curr := fun jd => by
        by_cases equal : jd = id
        · rw [equal, update_self]
          exact curr
        · rw [relinks.others jd equal, update_of_ne equal]
          exact core.curr jd
      classed := by rw [powerLargest, relinks.sizes]; exact core.classed
      inside := by rw [sizeOf, relinks.memBase, relinks.memCurrent]; exact core.inside
      placed := by rw [sizeOf, relinks.memBase]; exact core.placed
      apart := by rw [sizeOf]; exact core.apart
      known := fun p it found => by
        by_cases equal : p = ptr
        · exact ⟨id, equal ▸ owned⟩
        · have before := relinks.same equal
          rw [SameItems, found, Option.map_some, eq_comm, Option.map_eq_some_iff] at before
          obtain ⟨it', found', _⟩ := before
          exact core.known p it' found'
      freed := fun jd p listed => by
        by_cases equal : jd = id
        · subst equal
          rw [update_self] at listed
          rcases freed p listed with ⟨other, old⟩ | ⟨same, entry⟩
          · exact kept jd p other old
          · exact ⟨same ▸ owned, entry⟩
        · rw [update_of_ne equal] at listed
          exact kept jd p (outside jd equal p listed) listed
      held := fun c member => by
        rcases held c member with ⟨other, old⟩ | ⟨same, class', entry⟩
        · obtain ⟨owned', it, found, used, size⟩ := core.held c old
          obtain ⟨it', found', class', size'⟩ := (relinks.same other).entry found
          exact ⟨owned', it', found', class'.trans used, size' ▸ size⟩
        · rw [same, class']
          exact ⟨owned, class' ▸ entry⟩
      pointers := pointers }

end

/-- The first chunk of a free list. -/
theorem slots_mem (core : Core s live free owner) (slots : (s.slabclass id).slots = some p) : p ∈ free id :=
  Linked.start_mem (slots ▸ core.linked id)

/-- A chunk that is neither in use nor on a free list goes to the front of the list of its class. -/
theorem push (core : Core s live free owner) (owned : owner ptr = some id) (absent : ∀ jd, ptr ∉ free jd)
    (unused : ∀ c ∈ live, c.ptr ≠ ptr) (cleared : ∀ it, s.statsMap ptr = some it → it.slabsClsid = 0) (size : Nat) :
    Core (s.doSlabsFree ptr size id) live (update free id (ptr :: free id)) owner := by
  obtain ⟨first, last⟩ := core.classed ptr id owned
  have items := @statsMap_doSlabsFree s id ptr size first last fun slots => absent id (core.slots_mem slots)
  obtain ⟨class', relinks⟩ : (s.doSlabsFree ptr size id).slabclass = update s.slabclass id { s.slabclass id with
      slots := some ptr, slCurr := ((s.slabclass id).slCurr + 1) % 2 ^ 32 } ∧
      Relinks s (s.doSlabsFree ptr size id) id ptr (s.slabclass id).slots (some ptr) := by
    have items' := fun p other => (items p).trans (if_neg other)
    rw [doSlabsFree, if_neg (by omega)] at items' ⊢
    exact ⟨rfl, items', fun jd other => update_of_ne other _ _, rfl, rfl, rfl, rfl, rfl⟩
  have own := (items ptr).trans (if_pos rfl)
  generalize s.doSlabsFree ptr size id = t at *
  have member : ∀ p ∈ free id, p ≠ ptr := fun p listed equal => absent id (equal ▸ listed)
  refine relink relinks core owned (fun y => core.slots_mem) ?_ (List.nodup_cons.mpr ⟨absent id, core.distinct id⟩) ?_ ?_
    (fun c listed => Or.inl ⟨unused c listed, listed⟩) core.pointers
  · rw [class', update_self]
    refine (core.linked id).push (core.distinct id) ?_ ?_ ?_ (fun y listed => relinks.next (member y listed))
      fun y listed behind => relinks.prev (member y listed) behind
    · rw [SlabAllocator.next, own, Option.bind_some]
    · rw [SlabAllocator.prev, own, Option.bind_some]
    · intro y slots
      have listed := core.slots_mem slots
      obtain ⟨_, it, found, _⟩ := core.freed id y listed
      rw [SlabAllocator.prev, relinks.items y (member y listed), if_pos slots, found]
      rfl
  · rw [class', update_self, List.length_cons]
    simp only [core.curr id]
    omega
  · intro p listed
    rcases List.mem_cons.mp listed with rfl | old
    · refine Or.inr ⟨rfl, _, own, ?_⟩
      cases found : s.statsMap p with
      | none => rfl
      | some it => exact cleared it found
    · exact Or.inl ⟨member p old, old⟩

/-! ## A slab is carved -/

/-- Only the sizes, the region, the free lists and the entries matter. -/
theorem of_same {t : SlabAllocator} (core : Core s live free owner) (sizes : t.sizes = s.sizes) (statsMap : t.statsMap = s.statsMap)
    (base : t.memBase = s.memBase) (current : t.memCurrent = s.memCurrent) (avail : t.memAvail = s.memAvail)
    (limit : t.memLimit = s.memLimit)
    (lists : ∀ id, (t.slabclass id).slots = (s.slabclass id).slots ∧ (t.slabclass id).slCurr = (s.slabclass id).slCurr) :
    Core t live free owner := by
  have sizeOf : t.size = s.size := by funext jd; rw [SlabAllocator.size, SlabAllocator.size, sizes]
  have next : t.next = s.next := by funext p; rw [SlabAllocator.next, SlabAllocator.next, statsMap]
  have prev : t.prev = s.prev := by funext p; rw [SlabAllocator.prev, SlabAllocator.prev, statsMap]
  exact
    { least := by rw [sizes]; exact core.least
      few := by rw [sizes]; exact core.few
      whole := by rw [base, current]; exact core.whole
      region := by rw [base, current, avail, limit]; exact core.region
      linked := fun id => by rw [next, prev, (lists id).1]; exact core.linked id
      distinct := core.distinct
      curr := fun id => by rw [(lists id).2]; exact core.curr id
      classed := by rw [powerLargest, sizes]; exact core.classed
      inside := by rw [sizeOf, base, current]; exact core.inside
      placed := by rw [sizeOf, base]; exact core.placed
      apart := by rw [sizeOf]; exact core.apart
      known := by rw [statsMap]; exact core.known
      freed := by rw [statsMap]; exact core.freed
      held := by rw [statsMap]; exact core.held
      pointers := core.pointers }

theorem sizes_doSlabsFree (s : SlabAllocator) (ptr size id : Nat) : (s.doSlabsFree ptr size id).sizes = s.sizes := by
  unfold doSlabsFree
  split <;> rfl

/-- What a new slab does not change. -/
structure Kept (s t : SlabAllocator) : Prop where
  sizes : t.sizes = s.sizes
  memBase : t.memBase = s.memBase
  memLimit : t.memLimit = s.memLimit
  memFree : t.memFree = s.memFree

theorem Kept.trans {s t u : SlabAllocator} (first : Kept s t) (second : Kept t u) : Kept s u :=
  ⟨second.sizes.trans first.sizes, second.memBase.trans first.memBase, second.memLimit.trans first.memLimit,
    second.memFree.trans first.memFree⟩

theorem kept_doSlabsFree (s : SlabAllocator) (ptr id : Nat) : Kept s (s.doSlabsFree ptr 0 id) := by
  unfold doSlabsFree
  split
  · exact ⟨rfl, rfl, rfl, rfl⟩
  · exact ⟨rfl, rfl, rfl, by simp⟩

/-- Chunks that are owned but new are put on the free list one after another. -/
theorem carve (count : Nat) {ptr : Nat} (core : Core s live free owner)
    (owned : ∀ x < count, owner (ptr + x * s.size id) = some id) (absent : ∀ x < count, ∀ jd, ptr + x * s.size id ∉ free jd)
    (unused : ∀ x < count, ∀ c ∈ live, c.ptr ≠ ptr + x * s.size id)
    (new : ∀ x < count, s.statsMap (ptr + x * s.size id) = none) :
    ∃ free', Core (splitSlabPage id count ptr s) live free' owner ∧ Kept s (splitSlabPage id count ptr s) := by
  induction count generalizing s free ptr with
  | zero => exact ⟨free, core, rfl, rfl, rfl, rfl⟩
  | succ count ih =>
    have first := owned 0 (Nat.succ_pos _)
    have absent₀ := absent 0 (Nat.succ_pos _)
    have unused₀ := unused 0 (Nat.succ_pos _)
    have new₀ := new 0 (Nat.succ_pos _)
    rw [Nat.zero_mul, Nat.add_zero] at first absent₀ unused₀ new₀
    have positive := core.owned_least first
    have core' := core.push first absent₀ unused₀ (fun it found => by rw [new₀] at found; cases found) 0
    have sizeOf : (s.doSlabsFree ptr 0 id).size = s.size := by
      funext jd
      rw [SlabAllocator.size, SlabAllocator.size, sizes_doSlabsFree]
    have shift : ∀ x, ptr + s.size id + x * s.size id = ptr + (x + 1) * s.size id := fun x => by
      rw [Nat.succ_mul]
      omega
    have other : ∀ x, ptr + (x + 1) * s.size id ≠ ptr := fun x => by
      rw [Nat.succ_mul]
      omega
    have slots : ∀ x < count, (s.slabclass id).slots ≠ some (ptr + (x + 1) * s.size id) := fun x below head =>
      absent (x + 1) (Nat.succ_lt_succ below) id (core.slots_mem head)
    obtain ⟨classed, classed'⟩ := core.classed ptr id first
    obtain ⟨free', done, kept⟩ := ih core'
      (fun x below => show owner (ptr + s.size id + _) = _ by rw [sizeOf, shift]; exact owned (x + 1) (Nat.succ_lt_succ below))
      (fun x below jd => by
        rw [sizeOf, shift]
        by_cases equal : jd = id
        · subst equal
          rw [update_self, List.mem_cons, not_or]
          exact ⟨other x, absent (x + 1) (Nat.succ_lt_succ below) jd⟩
        · rw [update_of_ne equal]
          exact absent (x + 1) (Nat.succ_lt_succ below) jd)
      (fun x below => by rw [sizeOf, shift]; exact unused (x + 1) (Nat.succ_lt_succ below))
      (fun x below => by
        rw [sizeOf, shift, statsMap_doSlabsFree s classed classed' (fun head => absent₀ id (core.slots_mem head)),
          if_neg (other x), if_neg (slots x below)]
        exact new (x + 1) (Nat.succ_lt_succ below))
    rw [splitSlabPage]
    exact ⟨free', done, (kept_doSlabsFree s ptr id).trans kept⟩

/-- The chunks of the slab that starts at `mem_current`. -/
def newOwner (s : SlabAllocator) (id : Nat) (owner : Nat → Option Nat) (p : Nat) : Option Nat :=
  if s.memCurrent ≤ p ∧ (p - s.memCurrent) % s.size id = 0 ∧ (p - s.memCurrent) / s.size id < s.perslab id then some id
  else owner p

theorem newOwner_some (s : SlabAllocator) {owner : Nat → Option Nat} {jd : Nat} (owned : newOwner s id owner p = some jd) :
    (jd = id ∧ ∃ x < s.perslab id, p = s.memCurrent + x * s.size id) ∨ owner p = some jd := by
  unfold newOwner at owned
  split at owned
  · next inside =>
    obtain ⟨least, whole, below⟩ := inside
    refine Or.inl ⟨(Option.some.inj owned).symm, _, below, ?_⟩
    have parts := Nat.div_add_mod (p - s.memCurrent) (s.size id)
    rw [whole, Nat.add_zero, Nat.mul_comm] at parts
    omega
  · exact Or.inr owned

theorem newOwner_chunk (s : SlabAllocator) (owner : Nat → Option Nat) {x : Nat} (positive : 0 < s.size id) (below : x < s.perslab id) :
    newOwner s id owner (s.memCurrent + x * s.size id) = some id := by
  unfold newOwner
  rw [if_pos]
  rw [Nat.add_sub_cancel_left, Nat.mul_mod_left, Nat.mul_div_cancel _ positive]
  exact ⟨Nat.le_add_right .., rfl, below⟩

theorem newOwner_old (core : Core s live free owner) {jd : Nat} (owned : owner p = some jd) :
    newOwner s id owner p = some jd := by
  have inside := (core.inside p jd owned).2
  have positive := core.owned_least owned
  unfold newOwner
  rw [if_neg (by omega)]
  exact owned

theorem chunk_room (s : SlabAllocator) {x : Nat} (below : x < s.perslab id) : x * s.size id + s.size id ≤ itemSizeMax := by
  have product : s.perslab id * s.size id ≤ itemSizeMax := Nat.div_mul_le_self ..
  have step : (x + 1) * s.size id ≤ s.perslab id * s.size id := Nat.mul_le_mul_right _ below
  rw [Nat.succ_mul] at step
  omega

/-- A slab is taken from the region. -/
theorem extend (core : Core s live free owner) (first : 1 ≤ id) (last : id ≤ s.powerLargest) (room : itemSizeMax ≤ s.memAvail) :
    Core { s with memCurrent := s.memCurrent + itemSizeMax, memAvail := s.memAvail - itemSizeMax } live free
      (newOwner s id owner) := by
  have positive := core.size_least first last
  obtain ⟨slabs, whole⟩ := core.whole
  have region := core.region
  have base := core.base_le
  exact
    { core with
      whole := ⟨slabs + 1, by simp only [whole, Nat.succ_mul]; omega⟩
      region := by simp only; omega
      classed := fun p jd owned => by
        rcases newOwner_some s owned with ⟨rfl, _⟩ | old
        · exact ⟨first, last⟩
        · exact core.classed p jd old
      inside := fun p jd owned => by
        rcases newOwner_some s owned with ⟨rfl, x, below, rfl⟩ | old
        · have room := chunk_room s below
          simp only [SlabAllocator.size] at room ⊢
          omega
        · have inside := core.inside p jd old
          simp only [SlabAllocator.size] at inside ⊢
          omega
      placed := fun p jd owned => by
        rcases newOwner_some s owned with ⟨rfl, x, below, rfl⟩ | old
        · exact ⟨slabs, x, by rw [whole]; rfl⟩
        · exact core.placed p jd old
      apart := fun p jd q kd owned owned' different => by
        have separate : ∀ {x q kd}, owner q = some kd → Apart (s.memCurrent + x * s.size id) (s.size id) q (s.size kd) := by
          intro x q kd old
          have inside := (core.inside q kd old).2
          exact Or.inr (by omega)
        have later : ∀ {a b : Nat}, a < b → s.memCurrent + a * s.size id + s.size id ≤ s.memCurrent + b * s.size id := by
          intro a b less
          have step : (a + 1) * s.size id ≤ b * s.size id := Nat.mul_le_mul_right _ less
          rw [Nat.succ_mul] at step
          omega
        rcases newOwner_some s owned with ⟨rfl, x, below, rfl⟩ | old
        · rcases newOwner_some s owned' with ⟨rfl, y, below', rfl⟩ | old'
          · have distinct : x ≠ y := fun same => different (by rw [same])
            rcases Nat.lt_or_gt_of_ne distinct with less | more
            · exact Or.inl (later less)
            · exact Or.inr (later more)
          · exact separate old'
        · rcases newOwner_some s owned' with ⟨rfl, y, below', rfl⟩ | old'
          · exact (separate old).symm
          · exact core.apart p jd q kd old old' different
      known := fun p it found => by
        obtain ⟨jd, owned⟩ := core.known p it found
        exact ⟨jd, core.newOwner_old owned⟩
      freed := fun jd p listed => by
        obtain ⟨owned, rest⟩ := core.freed jd p listed
        exact ⟨core.newOwner_old owned, rest⟩
      held := fun c member => by
        obtain ⟨owned, rest⟩ := core.held c member
        exact ⟨core.newOwner_old owned, rest⟩ }

theorem grown (core : Core s live free owner) {ok : Bool} {t : SlabAllocator} (grow : s.growSlabList id ok = some t) :
    Core t live free owner ∧ Kept s t := by
  unfold growSlabList at grow
  dsimp only at grow
  split at grow
  · split at grow
    · obtain rfl := Option.some.inj grow
      refine ⟨core.of_same rfl rfl rfl rfl rfl rfl fun jd => ?_, rfl, rfl, rfl, rfl⟩
      by_cases same : jd = id
      · subst same
        simp only [update_self, and_self]
      · simp only [update_of_ne same, and_self]
    · cases grow
  · obtain rfl := Option.some.inj grow
    exact ⟨core, rfl, rfl, rfl, rfl⟩

theorem memoryAllocate_slab {t : SlabAllocator} (allocated : s.memoryAllocate itemSizeMax = some (ptr, t)) :
    itemSizeMax ≤ s.memAvail ∧ ptr = s.memCurrent ∧
      t = { s with memCurrent := s.memCurrent + itemSizeMax, memAvail := s.memAvail - itemSizeMax } := by
  have whole : (if itemSizeMax % chunkAlignBytes ≠ 0
      then itemSizeMax + (chunkAlignBytes - itemSizeMax % chunkAlignBytes) else itemSizeMax) = itemSizeMax := rfl
  rw [memoryAllocate, whole] at allocated
  split at allocated
  · cases allocated
  · next room =>
    obtain ⟨rfl, rfl⟩ := Prod.mk.inj (Option.some.inj allocated)
    have rest : (if itemSizeMax < s.memAvail then s.memAvail - itemSizeMax else 0) = s.memAvail - itemSizeMax := by
      split <;> omega
    exact ⟨by omega, rfl, by rw [rest]⟩

/-- `do_slabs_newslab`. -/
theorem newslab (core : Core s live free owner) (first : 1 ≤ id) (last : id ≤ s.powerLargest) (ok : Bool) :
    ∃ free' owner', Core (s.doSlabsNewslab id ok).2 live free' owner' ∧ Kept s (s.doSlabsNewslab id ok).2 := by
  unfold doSlabsNewslab
  split
  · exact ⟨free, owner, core, rfl, rfl, rfl, rfl⟩
  · split
    · exact ⟨free, owner, core, rfl, rfl, rfl, rfl⟩
    · next s₁ grow =>
      obtain ⟨core₁, kept₁⟩ := core.grown grow
      have last₁ : id ≤ s₁.powerLargest := by rwa [powerLargest, kept₁.sizes]
      split
      · exact ⟨free, owner, core₁, kept₁⟩
      · next ptr s₂ allocated =>
        obtain ⟨room, rfl, rfl⟩ := memoryAllocate_slab allocated
        have positive := core₁.size_least first last₁
        have fresh : ∀ x jd, owner (s₁.memCurrent + x * s₁.size id) ≠ some jd := fun x jd owned => by
          have inside := (core₁.inside _ _ owned).2
          have least := core₁.owned_least owned
          omega
        obtain ⟨free', done, kept⟩ := (core₁.extend first last₁ room).carve (s₁.perslab id)
          (fun x below => show newOwner s₁ id owner (s₁.memCurrent + x * s₁.size id) = some id from
            newOwner_chunk s₁ owner (by omega) below)
          (fun x _ jd listed => fresh x jd (core₁.freed jd _ listed).1)
          (fun x _ c member same => fresh x c.id (same ▸ (core₁.held c member).1))
          (fun x _ => by
            cases found : s₁.statsMap (s₁.memCurrent + x * s₁.size id) with
            | none => exact found
            | some it =>
              obtain ⟨jd, owned⟩ := core₁.known _ it found
              exact absurd owned (fresh x jd))
        refine ⟨free', _, done.of_same rfl rfl rfl rfl rfl rfl fun jd => ?_,
          kept₁.trans ⟨kept.sizes, kept.memBase, kept.memLimit, kept.memFree⟩⟩
        by_cases same : jd = id
        · subst same
          simp only [update_self]
          exact ⟨rfl, rfl⟩
        · simp only [update_of_ne same]
          exact ⟨rfl, rfl⟩

end Core

end Gam.Slab

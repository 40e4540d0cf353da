import Gam.Ring
import Gam.Rdma.Link

/-!
# The counters, the ring and the outstanding work requests

`Counted` ties the six counters and the ring of slots to the list of outstanding work requests.
The signalled ones cut that list into batches, and a signalled one carries the size of the batch it
closes; `openFrom` is the size of the batch that is still open.
-/

namespace Gam.Rdma

/-! ## Batches -/

namespace SendWr

def slot? (w : SendWr) : Option Nat :=
  match w.addr with
  | .slot i => some i
  | _ => none

/-- The share of a work request in the count of send messages, and in that of the others. -/
def sends (w : SendWr) : Nat := if w.slot?.isSome then 1 else 0

def others (w : SendWr) : Nat := if w.slot?.isSome then 0 else 1

/-- The three parts of a work id, as `SendComp` reads them. -/
def currSend (w : SendWr) : Nat := uint16 (w.wrId >>> 48 : Nat)

def currWR (w : SendWr) : Nat := uint16 ((w.wrId >>> 32) &&& 0xffff : Nat)

def id (w : SendWr) : UInt32 := UInt32.ofNat (w.wrId &&& 0xffffffff)

theorem sends_add_others (w : SendWr) : w.sends + w.others = 1 := by
  unfold sends others
  split <;> rfl

end SendWr

/-- The slots in use, in the order of the requests that use them. -/
def slots (sq : List SendWr) : List Nat := sq.filterMap SendWr.slot?

/-- The size of the open batch, as send messages and others, when `s` and `w` came before. -/
def openFrom : Nat → Nat → List SendWr → Nat × Nat
  | s, w, [] => (s, w)
  | s, w, x :: rest =>
    if x.signaled then openFrom 0 0 rest else openFrom (s + x.sends) (w + x.others) rest

/-- Each signalled work request carries the size of its batch. -/
def Tagged : Nat → Nat → List SendWr → Prop
  | _, _, [] => True
  | s, w, x :: rest =>
    if x.signaled then
      x.currSend = s + x.sends ∧ x.currWR = w + x.others ∧ Tagged 0 0 rest
    else Tagged (s + x.sends) (w + x.others) rest

section Batches

variable {s w : Nat} {x : SendWr} {sq older newer : List SendWr}

@[simp] theorem slots_nil : slots [] = [] := rfl

@[simp] theorem slots_append : slots (older ++ newer) = slots older ++ slots newer :=
  List.filterMap_append

theorem length_slots_singleton : (slots [x]).length = x.sends := by
  cases found : x.slot? <;> simp [slots, SendWr.sends, found]

theorem length_slots_le : (slots sq).length ≤ sq.length := List.length_filterMap_le _ _

theorem openFrom_append :
    openFrom s w (older ++ newer) =
      openFrom (openFrom s w older).1 (openFrom s w older).2 newer := by
  induction older generalizing s w with
  | nil => rfl
  | cons x rest ih =>
    simp only [List.cons_append, openFrom]
    split
    · exact ih
    · exact ih

theorem tagged_append :
    Tagged s w (older ++ newer) ↔
      Tagged s w older ∧ Tagged (openFrom s w older).1 (openFrom s w older).2 newer := by
  induction older generalizing s w with
  | nil => simp [Tagged, openFrom]
  | cons x rest ih =>
    simp only [List.cons_append, Tagged, openFrom]
    split
    · rw [ih, and_assoc, and_assoc]
    · exact ih

/-- Work requests that are not signalled only add to the open batch. -/
theorem openFrom_unsignaled (none : ∀ x ∈ sq, x.signaled = false) :
    openFrom s w sq = (s + (slots sq).length, w + (sq.length - (slots sq).length)) := by
  induction sq generalizing s w with
  | nil => rfl
  | cons x rest ih =>
    have plain := none x (List.mem_cons_self ..)
    have fewer : (slots rest).length ≤ rest.length := length_slots_le
    rw [openFrom, plain, if_neg (by decide), ih fun y member => none y (List.mem_cons_of_mem _ member)]
    cases found : x.slot? with
    | none =>
      simp only [SendWr.sends, SendWr.others, slots, found, List.filterMap_cons, Option.isSome_none,
        List.length_cons, Bool.false_eq_true, if_false]
      rw [slots] at fewer
      congr 1
      omega
    | some i =>
      simp only [SendWr.sends, SendWr.others, slots, found, List.filterMap_cons, Option.isSome_some,
        List.length_cons, if_true]
      rw [slots] at fewer
      congr 1 <;> omega

end Batches

/-! ## Work ids -/

theorem uint16_of_lt {x : Int} {n : Nat} (same : x = n) (small : n < 2 ^ 16) : uint16 x = n := by
  unfold uint16
  omega

section WorkIds

variable {wid : UInt32} {send wr : Nat}

theorem and_half (n : Nat) : n &&& 0xffffffff = n % 2 ^ 32 := Nat.and_two_pow_sub_one_eq_mod n 32

theorem and_quarter (n : Nat) : n &&& 0xffff = n % 2 ^ 16 := Nat.and_two_pow_sub_one_eq_mod n 16

theorem packWrId_eq (few : send < 2 ^ 16) (fewOthers : wr < 2 ^ 16) :
    packWrId wid send wr = wid.toNat + send * 2 ^ 48 + wr * 2 ^ 32 := by
  have small : wid.toNat < 2 ^ 32 := wid.toNat_lt
  unfold packWrId
  rw [and_half, and_quarter, and_quarter, Nat.mod_eq_of_lt small, Nat.mod_eq_of_lt few,
    Nat.mod_eq_of_lt fewOthers]
  simp only [Nat.shiftLeft_eq]

variable {x : SendWr} (packed : x.wrId = packWrId wid send wr) (few : send < 2 ^ 16)
  (fewOthers : wr < 2 ^ 16)
include packed few fewOthers

theorem currSend_packed : x.currSend = send := by
  have small : wid.toNat < 2 ^ 32 := wid.toNat_lt
  rw [SendWr.currSend, packed, packWrId_eq few fewOthers, Nat.shiftRight_eq_div_pow]
  apply uint16_of_lt _ few
  omega

theorem currWR_packed : x.currWR = wr := by
  have small : wid.toNat < 2 ^ 32 := wid.toNat_lt
  rw [SendWr.currWR, packed, packWrId_eq few fewOthers, Nat.shiftRight_eq_div_pow, and_quarter]
  apply uint16_of_lt _ fewOthers
  omega

theorem id_packed : x.id = wid := by
  have small : wid.toNat < 2 ^ 32 := wid.toNat_lt
  rw [SendWr.id, packed, packWrId_eq few fewOthers, and_half]
  have same : (wid.toNat + send * 2 ^ 48 + wr * 2 ^ 32) % 2 ^ 32 = wid.toNat := by omega
  rw [same]
  exact UInt32.ofNat_toNat

end WorkIds

/-! ## The invariant of the context -/

variable {c : Config} {ctx : RdmaContext} {sq : List SendWr}

/-- The context agrees with the outstanding work requests `sq`, oldest first. -/
structure Counted (c : Config) (ctx : RdmaContext) (sq : List SendWr) : Prop where
  pending : ctx.pendingMsg = sq.length
  sends : ctx.pendingSendMsg = (slots sq).length
  used : slots sq = Ring.window c.maxPendingMsg ctx.slotTail (slots sq).length
  tail_lt : ctx.slotTail < c.maxPendingMsg
  head : ctx.slotHead = (ctx.slotTail + (slots sq).length) % c.maxPendingMsg
  full : ctx.full = true ↔ (slots sq).length = c.maxPendingMsg
  bound : sq.length ≤ c.maxPendingMsg
  tagged : Tagged 0 0 sq
  openSends : ctx.pendingSendMsg = ctx.toSignaledSendMsg + (openFrom 0 0 sq).1
  openOthers : ctx.pendingMsg - ctx.pendingSendMsg = ctx.toSignaledWRMsg + (openFrom 0 0 sq).2
  small : (openFrom 0 0 sq).1 + (openFrom 0 0 sq).2 ≤ c.maxUnsignaledMsg

/-- Between two calls the open batch is smaller than `max_unsignaled_msg`. -/
structure Steady (c : Config) (ctx : RdmaContext) (sq : List SendWr) : Prop
    extends Counted c ctx sq where
  unsignaled : (openFrom 0 0 sq).1 + (openFrom 0 0 sq).2 < c.maxUnsignaledMsg

theorem Steady.init : Steady c RdmaContext.init [] where
  pending := rfl
  sends := rfl
  used := rfl
  tail_lt := Nat.lt_of_lt_of_le c.unsignaled_pos c.unsignaled_le
  head := (Nat.zero_mod _).symm
  full := by
    have := c.unsignaled_pos
    have := c.unsignaled_le
    simp [RdmaContext.init]
    omega
  bound := Nat.zero_le _
  tagged := trivial
  openSends := rfl
  openOthers := rfl
  small := Nat.zero_le _
  unsignaled := c.unsignaled_pos

theorem mod_of_lt_two_mul {n m : Nat} (small : n < 2 * m) : n % m = if n < m then n else n - m := by
  split
  · exact Nat.mod_eq_of_lt ‹_›
  · rw [Nat.mod_eq_sub_mod (by omega), Nat.mod_eq_of_lt (by omega)]

/-- The number of free slots, as `GetFreeSlot_` computes it. -/
theorem Counted.avail (counted : Counted c ctx sq) :
    (if rminus ctx.slotTail ctx.slotHead c.maxPendingMsg = 0 ∧ ctx.full = false
      then (c.maxPendingMsg : Int) else rminus ctx.slotTail ctx.slotHead c.maxPendingMsg) =
    c.maxPendingMsg - (slots sq).length := by
  have fewer : (slots sq).length ≤ c.maxPendingMsg :=
    Nat.le_trans length_slots_le counted.bound
  have tail := counted.tail_lt
  have head := counted.head
  have full := counted.full
  rw [mod_of_lt_two_mul (by omega)] at head
  unfold rminus
  cases same : ctx.full with
  | true =>
    rw [same] at full
    simp only [true_iff] at full
    simp only [Bool.true_eq_false, and_false, if_false]
    split <;> split at head <;> omega
  | false =>
    rw [same] at full
    simp only [Bool.false_eq_true, false_iff] at full
    simp only [and_true]
    split <;> split <;> split at head <;> omega

/-- `GetFreeSlot_` hands out the slot at the head exactly while fewer than `max_pending_msg`
requests are outstanding. -/
theorem Counted.getFreeSlot_eq (counted : Counted c ctx sq) :
    ctx.getFreeSlot_ c =
      if sq.length = c.maxPendingMsg then none
      else some (ctx.slotHead, { ctx with
        slotHead := (ctx.slotTail + ((slots sq).length + 1)) % c.maxPendingMsg
        full := decide ((slots sq).length + 1 = c.maxPendingMsg) }) := by
  have fewer : (slots sq).length ≤ sq.length := length_slots_le
  have bound := counted.bound
  simp only [RdmaContext.getFreeSlot_, counted.avail, counted.pending]
  by_cases busy : sq.length = c.maxPendingMsg
  · rw [if_pos (by omega), if_pos busy]
  · rw [if_neg (by omega), if_neg busy]
    have tail := counted.tail_lt
    have head := counted.head
    have free : ctx.full = false := by
      cases same : ctx.full with
      | false => rfl
      | true => exact absurd (counted.full.mp same) (by omega)
    rw [mod_of_lt_two_mul (by omega)] at head ⊢
    have next : (if ctx.slotHead + 1 = c.maxPendingMsg then 0 else ctx.slotHead + 1) =
        if ctx.slotTail + ((slots sq).length + 1) < c.maxPendingMsg
          then ctx.slotTail + ((slots sq).length + 1)
          else ctx.slotTail + ((slots sq).length + 1) - c.maxPendingMsg := by
      split <;> split <;> split at head <;> omega
    have meets : (if ctx.slotTail + ((slots sq).length + 1) < c.maxPendingMsg
          then ctx.slotTail + ((slots sq).length + 1)
          else ctx.slotTail + ((slots sq).length + 1) - c.maxPendingMsg) = ctx.slotTail ↔
        (slots sq).length + 1 = c.maxPendingMsg := by
      split <;> omega
    rw [next, free]
    simp only [meets]
    congr

/-- The slot at the head is not in use while there is a free one. -/
theorem Counted.slotHead_fresh (counted : Counted c ctx sq) (free : sq.length < c.maxPendingMsg) :
    ctx.slotHead ∉ slots sq ∧ ctx.slotHead < c.maxPendingMsg := by
  have fewer : (slots sq).length ≤ sq.length := length_slots_le
  rw [counted.head, counted.used, Ring.length_window]
  exact ⟨Ring.next_notMem_window (by omega), Nat.mod_lt _ (by omega)⟩

/-! ## One more work request -/

theorem openFrom_snoc {w : SendWr} (plain : w.signaled = false) :
    openFrom 0 0 (sq ++ [w]) =
      ((openFrom 0 0 sq).1 + w.sends, (openFrom 0 0 sq).2 + w.others) := by
  rw [openFrom_append]
  simp [openFrom, plain]

theorem tagged_snoc {w : SendWr} (plain : w.signaled = false) :
    Tagged 0 0 (sq ++ [w]) ↔ Tagged 0 0 sq := by
  rw [tagged_append]
  simp [Tagged, plain]

/-- A work request that takes the slot at the head. -/
theorem Steady.enlistSlot (steady : Steady c ctx sq) (free : sq.length < c.maxPendingMsg)
    {w : SendWr} (plain : w.signaled = false) (taken : w.addr = .slot ctx.slotHead)
    (mem : Memory) (queue : List RdmaRequest) :
    Counted c { ctx with
      slotHead := (ctx.slotTail + ((slots sq).length + 1)) % c.maxPendingMsg
      full := decide ((slots sq).length + 1 = c.maxPendingMsg)
      sendBuf := mem
      pendingSendMsg := ctx.pendingSendMsg + 1
      pendingMsg := ctx.pendingMsg + 1
      pendingRequests := queue } (sq ++ [w]) := by
  have slot : slots [w] = [ctx.slotHead] := by simp [slots, SendWr.slot?, taken]
  have one : w.sends = 1 := by rw [← length_slots_singleton, slot]; rfl
  have none := w.sends_add_others
  have pending := steady.pending
  have sends := steady.sends
  have openSends := steady.openSends
  have openOthers := steady.openOthers
  have unsignaled := steady.unsignaled
  constructor
  case pending => simp [pending]
  case sends => simp [slot, sends]
  case used =>
    rw [slots_append, slot, List.length_append, List.length_singleton, Ring.window_succ,
      ← steady.used, ← steady.head]
  case tail_lt => exact steady.tail_lt
  case head => simp [slot]
  case full => simp [slot]
  case bound => rw [List.length_append]; exact free
  case tagged => exact (tagged_snoc plain).mpr steady.tagged
  case openSends => simp only [openFrom_snoc plain]; omega
  case openOthers => simp only [openFrom_snoc plain]; omega
  case small => simp only [openFrom_snoc plain]; omega

/-- A work request that takes no slot. -/
theorem Steady.enlistOther (steady : Steady c ctx sq) (free : sq.length < c.maxPendingMsg)
    {w : SendWr} (plain : w.signaled = false) (untaken : w.slot? = none)
    (queue : List RdmaRequest) :
    Counted c { ctx with pendingMsg := ctx.pendingMsg + 1, pendingRequests := queue }
      (sq ++ [w]) := by
  have slot : slots [w] = [] := by simp [slots, untaken]
  have zero : w.sends = 0 := by rw [← length_slots_singleton, slot]; rfl
  have one := w.sends_add_others
  have pending := steady.pending
  have openSends := steady.openSends
  have openOthers := steady.openOthers
  have unsignaled := steady.unsignaled
  have same : slots (sq ++ [w]) = slots sq := by rw [slots_append, slot, List.append_nil]
  constructor
  case pending => simp [pending]
  case sends => rw [same]; exact steady.sends
  case used => rw [same]; exact steady.used
  case tail_lt => exact steady.tail_lt
  case head => rw [same]; exact steady.head
  case full => rw [same]; exact steady.full
  case bound => rw [List.length_append]; exact free
  case tagged => exact (tagged_snoc plain).mpr steady.tagged
  case openSends => simp only [openFrom_snoc plain]; omega
  case openOthers => simp only [openFrom_snoc plain]; omega
  case small => simp only [openFrom_snoc plain]; omega

/-- `signal` sees the size of the open batch. -/
theorem Counted.signal_eq (counted : Counted c ctx sq) (r : RdmaRequest) (w : SendWr) :
    ctx.signal c r w =
      if (openFrom 0 0 sq).1 + (openFrom 0 0 sq).2 = c.maxUnsignaledMsg ∨ r.signaled = true then
        ({ ctx with
            toSignaledSendMsg := ctx.pendingSendMsg
            toSignaledWRMsg := ctx.pendingMsg - ctx.pendingSendMsg },
          { w with
            signaled := true
            wrId := packWrId r.id (openFrom 0 0 sq).1 (openFrom 0 0 sq).2 })
      else (ctx, w) := by
  have small := counted.small
  have limit := c.unsignaled_le
  have width := c.pending_lt
  have openSends := counted.openSends
  have openOthers := counted.openOthers
  have sends : uint16 (ctx.pendingSendMsg - ctx.toSignaledSendMsg) = (openFrom 0 0 sq).1 :=
    uint16_of_lt (by omega) (by omega)
  have others : uint16 (ctx.pendingMsg - ctx.pendingSendMsg - ctx.toSignaledWRMsg) =
      (openFrom 0 0 sq).2 := uint16_of_lt (by omega) (by omega)
  simp only [RdmaContext.signal, sends, others, ← openSends, ← openOthers]

/-- A work request that closes its batch carries the size of the batch. -/
theorem Counted.close {w w' : SendWr} {wid : UInt32} (counted : Counted c ctx (sq ++ [w]))
    (plain : w.signaled = false) (slot : w'.slot? = w.slot?) (marked : w'.signaled = true)
    (packed : w'.wrId =
      packWrId wid (openFrom 0 0 (sq ++ [w])).1 (openFrom 0 0 (sq ++ [w])).2) :
    Steady c { ctx with
      toSignaledSendMsg := ctx.pendingSendMsg
      toSignaledWRMsg := ctx.pendingMsg - ctx.pendingSendMsg } (sq ++ [w']) := by
  have small := counted.small
  have limit := c.unsignaled_le
  have width := c.pending_lt
  have same : slots (sq ++ [w']) = slots (sq ++ [w]) := by simp [slots, List.filterMap_cons, slot]
  have cleared : openFrom 0 0 (sq ++ [w']) = (0, 0) := by
    rw [openFrom_append]; simp [openFrom, marked]
  have sends : w'.currSend = (openFrom 0 0 (sq ++ [w])).1 :=
    currSend_packed packed (by omega) (by omega)
  have others : w'.currWR = (openFrom 0 0 (sq ++ [w])).2 :=
    currWR_packed packed (by omega) (by omega)
  constructor
  case toCounted =>
    constructor
    case pending => simpa using counted.pending
    case sends => rw [same]; exact counted.sends
    case used => rw [same]; exact counted.used
    case tail_lt => exact counted.tail_lt
    case head => rw [same]; exact counted.head
    case full => rw [same]; exact counted.full
    case bound => simpa using counted.bound
    case tagged =>
      rw [openFrom_snoc plain] at sends others
      refine tagged_append.mpr ⟨(tagged_snoc plain).mp counted.tagged, ?_⟩
      simp only [Tagged, marked, if_true, sends, others, SendWr.sends, SendWr.others,
        slot, and_self]
    case openSends => simp [cleared]
    case openOthers => simp [cleared]
    case small => simp [cleared]
  case unsignaled => rw [cleared]; exact c.unsignaled_pos

/-- After `signal` the open batch is smaller than `max_unsignaled_msg` again. -/
theorem Counted.signal {w : SendWr} (counted : Counted c ctx (sq ++ [w]))
    (plain : w.signaled = false) (r : RdmaRequest) :
    Steady c (ctx.signal c r w).1 (sq ++ [(ctx.signal c r w).2]) := by
  have small := counted.small
  rw [counted.signal_eq]
  split
  · exact counted.close plain rfl rfl rfl
  · have fewer : (openFrom 0 0 (sq ++ [w])).1 + (openFrom 0 0 (sq ++ [w])).2 <
        c.maxUnsignaledMsg := by omega
    exact ⟨counted, fewer⟩

/-- A turn that joins an unsignalled request to the last work request leaves the counters. -/
theorem Steady.signal_quiet (steady : Steady c ctx sq) {r : RdmaRequest}
    (quiet : r.signaled = false) (w : SendWr) : ctx.signal c r w = (ctx, w) := by
  have unsignaled := steady.unsignaled
  rw [steady.signal_eq, if_neg]
  rw [quiet]
  simp only [Bool.false_eq_true, or_false]
  omega

/-! ## Completions -/

section Completions

variable {older newer : List SendWr} {x : SendWr}

theorem Tagged.batch (tagged : Tagged 0 0 (older ++ x :: newer))
    (plain : ∀ y ∈ older, y.signaled = false) (marked : x.signaled = true) :
    x.currSend = (slots (older ++ [x])).length ∧
      x.currSend + x.currWR = older.length + 1 ∧ Tagged 0 0 newer := by
  have fewer : (slots older).length ≤ older.length := length_slots_le
  have one := x.sends_add_others
  obtain ⟨_, tagged⟩ := tagged_append.mp tagged
  rw [openFrom_unsignaled plain] at tagged
  simp only [Tagged, marked, if_true] at tagged
  obtain ⟨sends, others, rest⟩ := tagged
  rw [slots_append, List.length_append, length_slots_singleton]
  exact ⟨by omega, by omega, rest⟩

theorem openFrom_batch (marked : x.signaled = true) :
    openFrom 0 0 (older ++ x :: newer) = openFrom 0 0 newer := by
  rw [openFrom_append]
  simp [openFrom, marked]

/-- A completion gives back the slots of its batch: the oldest ones in use. -/
theorem Steady.release (steady : Steady c ctx (older ++ x :: newer))
    (plain : ∀ y ∈ older, y.signaled = false) (marked : x.signaled = true) :
    Steady c (ctx.release c x.currSend x.currWR) newer := by
  obtain ⟨sends, whole, tagged⟩ := steady.tagged.batch plain marked
  have split : slots (older ++ x :: newer) = slots (older ++ [x]) ++ slots newer := by
    rw [← slots_append, List.append_assoc, List.singleton_append]
  have length : (slots (older ++ x :: newer)).length = x.currSend + (slots newer).length := by
    rw [split, List.length_append, sends]
  have pending := steady.pending
  have pendingSends := steady.sends
  have openSends := steady.openSends
  have openOthers := steady.openOthers
  have bound := steady.bound
  have tail := steady.tail_lt
  have full := steady.full
  have fewer : (slots newer).length ≤ newer.length := length_slots_le
  rw [length] at pendingSends full
  rw [openFrom_batch marked] at openSends openOthers
  simp only [List.length_append, List.length_cons] at pending bound
  have moved : (if c.maxPendingMsg ≤ ctx.slotTail + x.currSend
        then ctx.slotTail + x.currSend - c.maxPendingMsg else ctx.slotTail + x.currSend) =
      (ctx.slotTail + x.currSend) % c.maxPendingMsg := by
    rw [mod_of_lt_two_mul (by omega)]
    split <;> split <;> omega
  constructor
  case toCounted =>
    constructor
    case pending => simp only [RdmaContext.release]; omega
    case sends => simp only [RdmaContext.release]; omega
    case used =>
      have dropped := congrArg (List.drop x.currSend) steady.used
      rw [Ring.drop_window, split, sends, List.drop_left, List.length_append,
        Nat.add_sub_cancel_left, ← sends] at dropped
      simp only [RdmaContext.release, moved]
      exact dropped
    case tail_lt => simp only [RdmaContext.release]; split <;> omega
    case head =>
      simp only [RdmaContext.release, moved]
      rw [steady.head, length, Nat.mod_add_mod, Nat.add_assoc]
    case full =>
      simp only [RdmaContext.release]
      split
      · simp only [Bool.false_eq_true, false_iff]
        omega
      · rename_i kept
        rw [full]
        by_cases wasFull : ctx.full = true
        · have none : x.currSend = 0 := by
            by_contra some
            exact kept ⟨wasFull, some⟩
          omega
        · have := full.not.mp wasFull
          omega
    case bound => omega
    case tagged => exact tagged
    case openSends => simp only [RdmaContext.release]; omega
    case openOthers => simp only [RdmaContext.release]; omega
    case small => rw [← openFrom_batch marked]; exact steady.small
  case unsignaled => rw [← openFrom_batch marked]; exact steady.unsignaled

end Completions

end Gam.Rdma

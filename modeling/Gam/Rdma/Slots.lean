import Gam.Heap
import Gam.Rdma.Context
import Gam.Ring

/-!
# Receive slots

`RdmaResource` of `rdma.cc`: the slots that receive requests are posted with. `slots` says which slots
are occupied, and `PostRecv` looks for free ones around the ring of the slots in use. Beside the fields
of the class the state has what they stand for: the slots whose requests the shared receive queue holds,
and those a completion handed to the application.
-/

namespace Gam.Rdma

open Heap (Stop)

/-- `RECV_SLOT_STEP`. -/
def recvSlotStep : Nat := 100

structure Resource where
  rxDepth : Nat
  slots : List Bool
  /-- the number of regions in `comm_buf` -/
  commBuf : Nat
  slotInuse : Nat
  slotHead : Nat
  recvPosted : Int
  posted : List Nat
  taken : List Nat
deriving DecidableEq, Repr

namespace Resource

/-- The constructor. -/
def new (rxDepth : Nat) : Resource := ⟨rxDepth, [], 0, 0, 0, 0, [], []⟩

/-- The regions that `RegCommSlot` adds until there are enough slots. -/
def newRegions (size inuse : Nat) : Nat := (inuse - size + recvSlotStep - 1) / recvSlotStep

/-- `RegCommSlot`, where `ibv_reg_mr` succeeds. -/
def regCommSlot (slot : Nat) (r : Resource) : Resource :=
  if slot ≤ r.slots.length - r.slotInuse then { r with slotInuse := r.slotInuse + slot }
  else
    let regions := newRegions r.slots.length (r.slotInuse + slot)
    { r with
      slotInuse := r.slotInuse + slot
      commBuf := r.commBuf + regions
      slots := r.slots ++ List.replicate (regions * recvSlotStep) false }

/-- The next slot of the ring. -/
def advance (inuse head : Nat) : Nat := if head + 1 = inuse then 0 else head + 1

/-- The loop of `PostRecv` that fills `rr`: the occupied slots, the head and the requests. A round moves
the head by one slot, and the second turn around the ring finds nothing, so that the rounds are bounded. -/
def fillRequests (inuse commBuf headInit n : Nat) :
    Nat → List Bool → Nat → List Nat → Except Stop (List Bool × Nat × List Nat)
  | 0, slots, head, rr => if rr.length = n then .ok (slots, head, rr) else .error .loop
  | rounds + 1, slots, head, rr =>
    if rr.length = n then .ok (slots, head, rr)
    else
      match slots[head]? with
      | none => .error .undefined
      | some true =>
        if advance inuse head = headInit then .ok (slots, advance inuse head, rr)
        else fillRequests inuse commBuf headInit n rounds slots (advance inuse head) rr
      | some false =>
        if head / recvSlotStep < commBuf then
          fillRequests inuse commBuf headInit n rounds (slots.set head true) (advance inuse head) (rr ++ [head])
        else .error .undefined

/-- The loop that frees the slots from `s` to the head. -/
def freeSlots (inuse head : Nat) : Nat → List Bool → Nat → Except Stop (List Bool)
  | 0, slots, s => if s = head then .ok slots else .error .loop
  | rounds + 1, slots, s =>
    if s = head then .ok slots else freeSlots inuse head rounds (slots.set s false) (advance inuse s)

/-- `PostRecv`, where `ibv_post_srq_recv` accepts the first `accepted` requests. -/
def postRecv (n accepted : Nat) (r : Resource) : Except Stop (Resource × Int) :=
  let n := if (n : Int) > r.rxDepth - r.recvPosted then (r.rxDepth - r.recvPosted).toNat else n
  if n = 0 then .ok (r, 0)
  else do
    let (slots, head, rr) ← fillRequests r.slotInuse r.commBuf r.slotHead n (2 * r.slotInuse) r.slots r.slotHead []
    let r := { r with slots, slotHead := head, recvPosted := r.recvPosted + n, posted := r.posted ++ rr.take accepted }
    match rr[accepted]? with
    | none => return (r, rr.length)
    | some bad =>
      let slots ← freeSlots r.slotInuse head r.slotInuse slots bad
      return ({ r with slots }, rr.length - rminus head bad r.slotInuse)

/-- `PostRecvSlot`; the application is done with the slot. -/
def postRecvSlot (slot : Nat) (accepted : Bool) (r : Resource) : Except Stop (Resource × Int) :=
  let r := { r with taken := r.taken.erase slot }
  if (r.rxDepth : Int) = r.recvPosted then .ok (r, 0)
  else if slot / recvSlotStep < r.commBuf then
    let r := { r with recvPosted := r.recvPosted + 1 }
    if accepted then .ok ({ r with posted := r.posted ++ [slot] }, 1)
    else .ok ({ r with slots := r.slots.set slot false }, 0)
  else .error .undefined

/-- `RecvComp` of the request that was posted with a slot. -/
def recvComp (slot : Nat) (r : Resource) : Resource :=
  { r with recvPosted := r.recvPosted - 1, posted := r.posted.erase slot, taken := slot :: r.taken }

/-- The calls, each with what the device does. -/
inductive Call where
  | regCommSlot (slot : Nat)
  | postRecv (n accepted : Nat)
  | postRecvSlot (slot : Nat) (accepted : Bool)
  | recvComp (slot : Nat)
deriving DecidableEq, Repr

/-- A call, with what it returns. -/
def call : Call → Resource → Except Stop (Resource × Int)
  | .regCommSlot slot, r => .ok (r.regCommSlot slot, 0)
  | .postRecv n accepted, r => r.postRecv n accepted
  | .postRecvSlot slot accepted, r => r.postRecvSlot slot accepted
  | .recvComp slot, r => .ok (r.recvComp slot, 0)

/-- A run of calls: the state, and what each call returned and posted. -/
def run : List Call → Resource → Except Stop (Resource × List (Call × Int × Int))
  | [], r => .ok (r, [])
  | c :: calls, r => do
    let (r', ret) ← r.call c
    let (last, log) ← run calls r'
    return (last, (c, ret, (r'.posted.length : Int) - r.posted.length) :: log)

end Resource

end Gam.Rdma

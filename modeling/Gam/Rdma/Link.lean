import Gam.Rdma.Context

/-!
# One connection

The context of one side together with the device below it and the packets the peer gets. The device
keeps the order of the work requests: it transmits them one after another, at any time after they
are posted, and completes a signalled one after it and all before it have been transmitted.
-/

namespace Gam.Rdma

variable (c : Config)

/-- `GetFreeSlot`, `Ser` and `Send`, which run under one lock: the bytes are written to a free slot,
with the closing zero byte of `Ser`, or to a buffer of the heap when every slot is busy. -/
def RdmaContext.send (ctx : RdmaContext) (data : List UInt8) (id : UInt32) (signaled : Bool) :
    Option (RdmaContext × List SendWr) :=
  match ctx.getFreeSlot_ c with
  | some (i, ctx') =>
    { ctx' with sendBuf := ctx'.sendBuf.store (slotAddr i) (data ++ [0]) }.rdma c
      { op := .send, src := .slot i, len := data.length, id := id, signaled := signaled }
  | none =>
    ctx.rdma c
      { op := .send, src := .heap data, len := data.length, id := id, signaled := signaled }

/-- A work request in the device. The bytes of an inlined one are copied when it is posted. -/
structure Posted where
  wr : SendWr
  copied : Option (List UInt8)

def RdmaContext.post (ctx : RdmaContext) (wr : SendWr) : Posted where
  wr := wr
  copied := if wr.inlined then some (ctx.bytes wr.addr wr.length) else none

/-- What the peer gets: the bytes of a send, or a write to its memory. -/
inductive Packet where
  | send (data : List UInt8)
  | write (dest : Nat) (src : Src) (len : Nat) (imm : Option UInt32)
deriving DecidableEq, Repr

/-- The packet of a work request that is transmitted while the send buffer is `mem`. A send whose
bytes are neither copied nor in a slot would be read from freed memory. -/
def Posted.packet (mem : Memory) (p : Posted) : Option Packet :=
  match p.wr.opcode with
  | .send =>
    match p.copied, p.wr.addr with
    | some data, _ => some (.send data)
    | none, .slot i => some (.send (mem.load (slotAddr i) p.wr.length))
    | none, _ => none
  | .rdmaWrite => some (.write p.wr.remoteAddr p.wr.addr p.wr.length none)
  | .rdmaWriteWithImm => some (.write p.wr.remoteAddr p.wr.addr p.wr.length (some p.wr.imm))

/-- A connection. `completed`, `sent` and `waiting` are, oldest first, the work requests that have
completed, those transmitted since and those not transmitted yet; `completions` are the ids that
`SendComp` returned, `received` what the peer got and `submitted` what was submitted. -/
structure Link where
  ctx : RdmaContext
  completed : List Posted
  sent : List Posted
  waiting : List Posted
  completions : List UInt32
  received : List Packet
  submitted : List RdmaRequest

def Link.init : Link where
  ctx := RdmaContext.init
  completed := []
  sent := []
  waiting := []
  completions := []
  received := []
  submitted := []

inductive Act where
  | send (data : List UInt8) (id : UInt32) (signaled : Bool)
  | write (dest src len : Nat) (id : UInt32) (signaled : Bool)
  | writeWithImm (dest src len : Nat) (imm id : UInt32) (signaled : Bool)
  | transmit
  | complete
deriving DecidableEq, Repr

/-- The request a submission stands for. -/
def Act.request : Act → Option RdmaRequest
  | send data id signaled =>
    some { op := .send, src := .heap data, len := data.length, id := id, signaled := signaled }
  | write dest src len id signaled =>
    some { op := .rdmaWrite, src := .region src, len := len, id := id, signaled := signaled,
           dest := dest }
  | writeWithImm dest src len imm id signaled =>
    some { op := .rdmaWriteWithImm, src := .region src, len := len, id := id, signaled := signaled,
           dest := dest, imm := imm }
  | transmit | complete => none

/-- `Send`, `Write` and `WriteWithImm` of the context. -/
def RdmaContext.submit (ctx : RdmaContext) (r : RdmaRequest) : Option (RdmaContext × List SendWr) :=
  match r.op, r.src with
  | .send, .heap data => ctx.send c data r.id r.signaled
  | _, _ => ctx.rdma c r

/-- The link after a submission. -/
def Link.submit (l : Link) (r : RdmaRequest) : Option Link :=
  match l.ctx.submit c r with
  | none => none
  | some (ctx, wrs) => some { l with
      ctx := ctx
      waiting := l.waiting ++ wrs.map ctx.post
      submitted := l.submitted ++ [r] }

/-- The device transmits the oldest work request that is waiting. -/
def Link.transmit (l : Link) : Option Link :=
  match l.waiting with
  | [] => some l
  | p :: rest =>
    match p.packet l.ctx.sendBuf with
    | none => none
    | some packet => some { l with
        sent := l.sent ++ [p]
        waiting := rest
        received := l.received ++ [packet] }

/-- The completion of the oldest signalled work request among those transmitted, and with it of the
unsignalled ones before it. -/
def Link.complete (l : Link) : Option Link :=
  match l.sent.dropWhile (fun p => !p.wr.signaled) with
  | [] => some l
  | p :: rest =>
    match l.ctx.sendComp c p.wr.wrId with
    | none => none
    | some (id, ctx, wrs) => some { l with
        ctx := ctx
        completed := l.completed ++ l.sent.takeWhile (fun p => !p.wr.signaled) ++ [p]
        sent := rest
        waiting := l.waiting ++ wrs.map ctx.post
        completions := l.completions ++ [id] }

/-- One event on the connection. An event of the device that is not possible changes nothing. -/
def Link.step (l : Link) (act : Act) : Option Link :=
  match act.request with
  | some r => l.submit c r
  | none =>
    match act with
    | .complete => l.complete c
    | _ => l.transmit

def Link.run (l : Link) (acts : List Act) : Option Link := acts.foldlM (Link.step c) l

/-- The work requests posted and not completed, oldest first. -/
def Link.outstanding (l : Link) : List SendWr := (l.sent ++ l.waiting).map (·.wr)

end Gam.Rdma

import Gam.Reply

/-! An abstract account of one block: what every caching worker is doing (`Phase`) and what
its home is doing (`Home`), with the messages that go with each. It says once where the
block, its owner and its sharers can be; everything else is proved from that. -/

namespace Gam
variable {Node : Type} [DecidableEq Node]

/-- The acknowledgement of the home in a hand-over: not sent, on its way, arrived. -/
inductive Leg
  | due | onWay | got
deriving DecidableEq

/-- Where the request of a worker in `CACHE_TO_SHARED` or `CACHE_TO_DIRTY` is. -/
inductive Stage (Node : Type)
  /-- On its way or in the queue of the home, behind an `ACTIVE_INVALIDATE` for line `ai`. -/
  | sent (ai : Option Nat)
  /-- The home works for it. -/
  | served
  /-- The home has answered. -/
  | reply (ok : Bool)
  /-- The owner `o` has answered a forwarded read. -/
  | peer (o : Node) (ok : Bool)
  /-- The owner `o` has answered a forwarded write; `got` once that answer is here. -/
  | hand (o : Node) (ok : Bool) (got : Bool) (home : Leg)
deriving DecidableEq

/-- What a caching worker is doing. -/
inductive Phase (Node : Type)
  | absent (ai : Option Nat)
  | shared (ptr : Nat)
  | dirty (ptr : Nat)
  /-- `WRITE_BACK` is on its way, or acknowledged. -/
  | evicting (ptr id : Nat)
  | evicted (ptr id : Nat)
  /-- The block was handed over; the completion of that RDMA write is outstanding. -/
  | leaving (ptr id : Nat) (flag : Flag)
  | miss (op : AccessOp) (ptr id : Nat) (flag : Flag) (rq : Req Node) (stage : Stage Node)

/-- What the home wants from a worker: nothing, an answer to a command, or it has the answer
on its way. -/
inductive Cmd (Node : Type)
  | quiet
  | opened (c : Command Node)
  | acked (r : Reply)

/-- The mail of one worker: all messages between it and the home or other workers, wherever they
wait. -/
@[ext]
structure Mail (Node : Type) where
  requests : List Request
  commands : List (Command Node)
  acks : List Reply
  replies : List Reply
  peer : Node → List (Msg Node)
  /-- Messages where they do not belong. -/
  stray : Nat

namespace Stage

@[simp] def counter : Stage Node → Int
  | .hand _ _ got home => (if home = .got then 1 else 0) - (if got then 1 else 0)
  | _ => 0

@[simp] def status : Stage Node → Status
  | .hand _ ok got _ => if got && !ok then .lockFailed else .success
  | _ => .success

end Stage

/-- The positive or negative answer to a read or write request. -/
def AccessOp.answer (op : AccessOp) (id : Nat) (ok : Bool) : Reply :=
  match op, ok with
  | .read, true => .imm id
  | .read, false => .readReply id .lockFailed
  | _, true => .writeReply id .success 0
  | _, false => .writeReply id .lockFailed 0

theorem AccessOp.answer_write {op : AccessOp} (write : op ≠ .read) (id : Nat) :
    op.answer id true = .writeReply id .success 0 ∧ op.answer id false = .writeReply id .lockFailed 0 := by
  cases op with
  | read => exact absurd rfl write
  | write | writePermissionOnly => exact ⟨rfl, rfl⟩

/-- The answer of an owner to a forwarded request. -/
def AccessOp.handOver (op : AccessOp) (id : Nat) (ok : Bool) : Reply :=
  if ok then .imm id else op.answer id false

namespace Phase

@[simp] def line : Phase Node → Option (CacheState × Nat)
  | .absent _ => none
  | .shared ptr => some (.shared, ptr)
  | .dirty ptr => some (.dirty, ptr)
  | .evicting ptr _ | .evicted ptr _ | .leaving ptr _ _ => some (.toInvalid, ptr)
  | .miss op ptr _ _ _ _ => some (if op = .read then .toShared else .toDirty, ptr)

@[simp] def pending : Phase Node → List (Pending Node)
  | .evicting _ id | .evicted _ id => [⟨.writeBack, id, ⟨false, false⟩, 0, .success, none⟩]
  | .leaving _ id flag => [⟨.pendingInvalidate, id, flag, 0, .success, none⟩]
  | .miss op _ id flag rq stage =>
    [⟨.access op, id, flag, stage.counter, stage.status, some rq⟩]
  | _ => []

/-- Requests at the home or on their way to it. -/
@[simp] def requests : Phase Node → List Request
  | .absent ai => ai.toList.map .activeInvalidate
  | .evicting ptr id => [.writeBack id ptr]
  | .miss op ptr id flag _ (.sent ai) =>
    ai.toList.map .activeInvalidate ++ [.access op id ptr flag]
  | _ => []

/-- Answers of the home on their way. -/
@[simp] def replies : Phase Node → List Reply
  | .evicted _ id => [.imm id]
  | .miss op _ id _ _ (.reply ok) => [op.answer id ok]
  | .miss _ _ id _ _ (.hand _ _ _ .onWay) => [.imm id]
  | _ => []

/-- Answers of other workers on their way. -/
@[simp] def peer : Phase Node → (Node → List (Msg Node))
  | .miss op _ id _ _ (.peer o ok) => fun n => if n = o then [.reply (op.handOver id ok)] else []
  | .miss op _ id _ _ (.hand o ok false _) =>
    fun n => if n = o then [.reply (op.handOver id ok)] else []
  | _ => fun _ => []

@[simp] def completions : Phase Node → List Nat
  | .leaving _ id _ => [id]
  | _ => []

/-- Three-hop reads end with one answer, three-hop writes with two. -/
def WellFormed : Phase Node → Prop
  | .miss op _ _ _ _ (.peer _ _) => op = .read
  | .miss op _ _ _ _ (.hand _ _ got home) => op ≠ .read ∧ ¬ (got = true ∧ home = .got)
  | _ => True

/-- The worker owns the block, or will as soon as the answers under way arrive, in line `p`. -/
def Owns : Phase Node → Nat → Prop
  | .dirty ptr, p => ptr = p
  | .evicting ptr _, p => ptr = p
  | .miss op ptr _ _ _ (.reply true), p => op ≠ .read ∧ ptr = p
  | .miss _ ptr _ _ _ (.hand _ true _ home), p => home ≠ .due ∧ ptr = p
  | _, _ => False

/-- The worker can write, or will as soon as the answers under way arrive. -/
def Exclusive : Phase Node → Prop
  | .dirty _ => True
  | .miss op _ _ _ _ (.reply true) => op ≠ .read
  | .miss _ _ _ _ _ (.hand _ true _ home) => home ≠ .due
  | _ => False

/-- The worker is listed at the home for a copy in line `p`, and nothing has been answered
to an invalidation: it has the copy, or gets it, or has told the home that it dropped it. -/
def Shares : Phase Node → Nat → Prop
  | .shared ptr, p => ptr = p
  | .evicting ptr _, p => ptr = p
  | .absent ai, p => ai = some p
  | .miss op ptr _ _ _ (.sent ai), p =>
    ai = some p ∨ (ai = none ∧ op = .writePermissionOnly ∧ ptr = p)
  | .miss op ptr _ _ _ .served, p => op = .writePermissionOnly ∧ ptr = p
  | .miss op ptr _ _ _ (.reply true), p => op = .read ∧ ptr = p
  | .miss op ptr _ _ _ (.reply false), p => op = .writePermissionOnly ∧ ptr = p
  | .miss _ ptr _ _ _ (.peer _ true), p => ptr = p
  | _, _ => False

/-- The home or an owner works for the worker, and the home will answer. -/
def Waits : Phase Node → Prop
  | .miss _ _ _ _ _ .served => True
  | .miss _ _ _ _ _ (.hand _ _ _ .due) => True
  | _ => False

/-- The home works for the request `r`. -/
def IsServed (ph : Phase Node) (r : Remote Node) (flag : Flag) : Prop :=
  ∃ rq, ph = .miss r.op r.ptr r.id flag rq .served

/-- The owner `o` has answered request `r`, and the home does not know yet. -/
def IsHanded (ph : Phase Node) (r : Remote Node) (flag : Flag) (o : Node) (ok : Bool) : Prop :=
  ∃ rq got, ph = .miss r.op r.ptr r.id flag rq (.hand o ok got .due)

end Phase

namespace Cmd

def commands : Cmd Node → List (Command Node)
  | .opened c => [c]
  | _ => []

def acks : Cmd Node → List Reply
  | .acked r => [r]
  | _ => []

/-- Is the home waiting for this worker? -/
def busy : Cmd Node → Bool
  | .quiet => false
  | _ => true

end Cmd

/-- The mail of a worker in phase `ph` when the home is at `cmd` with it. -/
def Phase.mail (ph : Phase Node) (cmd : Cmd Node) : Mail Node where
  requests := ph.requests
  commands := cmd.commands
  acks := cmd.acks
  replies := ph.replies
  peer := ph.peer
  stray := 0

/-- The state of the one worker a single command went to. -/
inductive Answer
  | opened
  | acked (ok : Bool)
deriving DecidableEq

/-- What the home is doing. `o` is the owner as the directory has it, `L` the shared list;
in an invalidation `cmd` says how far each worker is. -/
inductive Home (Node : Type)
  | unshared
  | shared (L : List (GAddr Node))
  | dirty (o : GAddr Node)
  | fetchShared (rq : Req Node) (id : Nat) (flag : Flag) (o : GAddr Node) (answer : Answer)
  | readForward (r : Remote Node) (id : Nat) (flag : Flag) (o : GAddr Node) (answer : Answer)
  | fetchInvalidate (rq : Req Node) (id : Nat) (flag : Flag) (o : GAddr Node) (answer : Answer)
  | writeForward (r : Remote Node) (id : Nat) (flag : Flag) (o : GAddr Node) (answer : Answer)
  | invalidate (rq : Req Node) (id : Nat) (flag : Flag) (L : List (GAddr Node))
      (answer : Node → Option Answer) (status : Status)
  | invalidateForward (r : Remote Node) (id : Nat) (flag : Flag) (L : List (GAddr Node))
      (answer : Node → Option Answer) (status : Status)

/-- The command and the answer to it as messages. -/
def Answer.cmd (c : Command Node) (refusal : Reply) : Answer → Cmd Node
  | .opened => .opened c
  | .acked true => .acked (.imm c.id)
  | .acked false => .acked refusal

namespace Home

def dirState : Home Node → DirState
  | .unshared => .unshared
  | .shared _ => .shared
  | .dirty _ => .dirty
  | .fetchShared _ _ _ _ _ | .readForward _ _ _ _ _ => .toShared
  | .fetchInvalidate _ _ _ _ _ | .invalidate _ _ _ _ _ _ => .toUnshared
  | .writeForward _ _ _ _ _ | .invalidateForward _ _ _ _ _ _ => .toDirty

def sharers : Home Node → List (GAddr Node)
  | .unshared => []
  | .shared L | .invalidate _ _ _ L _ _ | .invalidateForward _ _ _ L _ _ => L
  | .dirty o | .fetchShared _ _ _ o _ | .readForward _ _ _ o _ | .fetchInvalidate _ _ _ o _
  | .writeForward _ _ _ o _ => [o]

/-- How many workers of the list `L` the home waits for. -/
def outstanding (L : List (GAddr Node)) (answer : Node → Option Answer) : Int :=
  (L.countP fun a => (answer a.wid).isSome : Nat)

def pending : Home Node → List (Pending Node)
  | .unshared | .shared _ | .dirty _ => []
  | .fetchShared rq id flag _ _ => [⟨.fetchAndShared, id, flag, 0, .success, some rq⟩]
  | .readForward r id flag _ _ => [⟨.readForward r, id, flag, 0, .success, none⟩]
  | .fetchInvalidate rq id flag _ _ => [⟨.fetchAndInvalidate, id, flag, 1, .success, some rq⟩]
  | .writeForward r id flag _ _ => [⟨.writeForward r, id, flag, 0, .success, none⟩]
  | .invalidate rq id flag L answer status =>
    [⟨.invalidate, id, flag, outstanding L answer, status, some rq⟩]
  | .invalidateForward r id flag L answer status =>
    [⟨.invalidateForward r, id, flag, outstanding L answer, status, none⟩]

/-- A command to the single worker `o`. -/
def cmdTo (o : GAddr Node) (c : Command Node) (refusal : Reply) (answer : Answer) (n : Node) : Cmd Node :=
  if n = o.wid then answer.cmd c refusal else .quiet

def cmd : Home Node → Node → Cmd Node
  | .unshared, _ | .shared _, _ | .dirty _, _ => .quiet
  | .fetchShared _ id flag o answer, n =>
    cmdTo o ⟨.fetchAndShared, id, flag⟩ (.readReply id .lockFailed) answer n
  | .readForward r id flag o answer, n =>
    cmdTo o ⟨.readForward r.ptr r.id r.wid, id, flag⟩ (.readReply id .lockFailed) answer n
  | .fetchInvalidate _ id flag o answer, n =>
    cmdTo o ⟨.fetchAndInvalidate, id, flag⟩ (.writeReply id .lockFailed 0) answer n
  | .writeForward r id flag o answer, n =>
    cmdTo o ⟨.writeForward r.ptr r.id r.wid, id, flag⟩ (.writeReply id .lockFailed 0) answer n
  | .invalidate _ id flag _ answer _, n =>
    (answer n).elim .quiet (Answer.cmd ⟨.invalidate, id, flag⟩ (.writeReply id .lockFailed 0))
  | .invalidateForward _ id flag _ answer _, n =>
    (answer n).elim .quiet (Answer.cmd ⟨.invalidateForward, id, flag⟩ (.writeReply id .lockFailed 0))

end Home

end Gam

import Gam.Phase

/-! The mail of a worker in a block state, the data between workers, and how the elementary
updates change them. -/

namespace Gam
variable {Node : Type}
variable {rest items : List (Item Node)} {src dst : Node} {item : Item Node} {x : Msg Node}

def Item.msg? : Item Node → Option (Msg Node)
  | .msg m => some m
  | _ => none

def Item.mem? : Item Node → Option Data
  | .mem d => some d
  | _ => none

def Item.line? : Item Node → Option (Nat × Data)
  | .line ptr d => some (ptr, d)
  | _ => none

namespace Msg

def request? : Msg Node → Option Request
  | .request r => some r
  | _ => none

def command? : Msg Node → Option (Command Node)
  | .command c => some c
  | _ => none

def reply? : Msg Node → Option Reply
  | .reply r => some r
  | _ => none

section kinds
variable (r : Request) (c : Command Node) (x : Reply)

@[simp] theorem request?_request : (request r : Msg Node).request? = some r := rfl
@[simp] theorem request?_command : (command c).request? = none := rfl
@[simp] theorem request?_reply : (reply x : Msg Node).request? = none := rfl
@[simp] theorem command?_request : (request r : Msg Node).command? = none := rfl
@[simp] theorem command?_command : (command c).command? = some c := rfl
@[simp] theorem command?_reply : (reply x : Msg Node).command? = none := rfl
@[simp] theorem reply?_request : (request r : Msg Node).reply? = none := rfl
@[simp] theorem reply?_command : (command c).reply? = none := rfl
@[simp] theorem reply?_reply : (reply x : Msg Node).reply? = some x := rfl

end kinds

/-- A message that data can be sent ahead of: an answer or a write-back. -/
def closes : Msg Node → Bool
  | .reply _ => true
  | .request (.writeBack _ _) => true
  | _ => false

end Msg

/-- The messages, the data for the home memory and the data for lines among the items of a
channel. -/
def msgs (items : List (Item Node)) : List (Msg Node) := items.filterMap Item.msg?
def mems (items : List (Item Node)) : List Data := items.filterMap Item.mem?
def lines (items : List (Item Node)) : List (Nat × Data) := items.filterMap Item.line?

section items
variable (m : Msg Node) (d : Data) (ptr : Nat) (items xs ys : List (Item Node))

@[simp] theorem msgs_nil : msgs ([] : List (Item Node)) = [] := rfl
@[simp] theorem mems_nil : mems ([] : List (Item Node)) = [] := rfl
@[simp] theorem lines_nil : lines ([] : List (Item Node)) = [] := rfl

@[simp] theorem msgs_append : msgs (xs ++ ys) = msgs xs ++ msgs ys := List.filterMap_append
@[simp] theorem mems_append : mems (xs ++ ys) = mems xs ++ mems ys := List.filterMap_append
@[simp] theorem lines_append : lines (xs ++ ys) = lines xs ++ lines ys := List.filterMap_append

@[simp] theorem msgs_msg : msgs (.msg m :: items) = m :: msgs items := rfl
@[simp] theorem msgs_mem : msgs (.mem d :: items) = msgs items := rfl
@[simp] theorem msgs_line : msgs (.line ptr d :: items) = msgs items := rfl

@[simp] theorem mems_msg : mems (.msg m :: items) = mems items := rfl
@[simp] theorem mems_mem : mems (.mem d :: items) = d :: mems items := rfl
@[simp] theorem mems_line : mems (.line ptr d :: items) = mems items := rfl

@[simp] theorem lines_msg : lines (.msg m :: items) = lines items := rfl
@[simp] theorem lines_mem : lines (.mem d :: items) = lines items := rfl
@[simp] theorem lines_line : lines (.line ptr d :: items) = (ptr, d) :: lines items := rfl

end items

/-- Data is always sent right ahead of a message that announces it. -/
def Framed : List (Item Node) → Prop
  | [] => True
  | .msg _ :: rest => Framed rest
  | .mem _ :: rest => (∃ m tail, rest = .msg m :: tail ∧ m.closes = true) ∧ Framed rest
  | .line _ _ :: rest => (∃ m tail, rest = .msg m :: tail ∧ m.reply?.isSome) ∧ Framed rest

namespace Framed

theorem append {xs ys : List (Item Node)} (first : Framed xs) (second : Framed ys) : Framed (xs ++ ys) := by
  induction xs with
  | nil => exact second
  | cons item rest ih =>
    cases item with
    | msg m => exact ih first
    | mem d =>
      obtain ⟨⟨m, tail, eq, closes⟩, framed⟩ := first
      exact ⟨⟨m, tail ++ ys, by rw [eq]; rfl, closes⟩, ih framed⟩
    | line ptr d =>
      obtain ⟨⟨m, tail, eq, reply⟩, framed⟩ := first
      exact ⟨⟨m, tail ++ ys, by rw [eq]; rfl, reply⟩, ih framed⟩

theorem tail (framed : Framed (item :: rest)) : Framed rest := by
  cases item with
  | msg m => exact framed
  | mem d => exact framed.2
  | line ptr d => exact framed.2

/-- Without a message that announces it there is no data for the home memory. -/
theorem mems_eq_nil (framed : Framed items) (open_ : ∀ m ∈ msgs items, m.closes = false) : mems items = [] := by
  induction items with
  | nil => rfl
  | cons item rest ih =>
    cases item with
    | msg m => exact ih framed fun m' member => open_ m' (by simp [member])
    | line ptr d => exact ih framed.2 open_
    | mem d =>
      obtain ⟨⟨m, tail, rfl, closes⟩, -⟩ := framed
      rw [open_ m (by simp)] at closes
      cases closes

/-- Without an answer there is no data for a line. -/
theorem lines_eq_nil (framed : Framed items) (silent : (msgs items).filterMap Msg.reply? = []) : lines items = [] := by
  induction items with
  | nil => rfl
  | cons item rest ih =>
    cases item with
    | mem d => exact ih framed.2 silent
    | msg m =>
      refine ih framed ?_
      rw [msgs_msg, List.filterMap_cons] at silent
      cases reply : m.reply? <;> simp_all
    | line ptr d =>
      obtain ⟨⟨m, tail, rfl, reply⟩, -⟩ := framed
      obtain ⟨r, eq⟩ := Option.isSome_iff_exists.mp reply
      rw [msgs_line, msgs_msg, List.filterMap_cons, eq] at silent
      cases silent

end Framed

variable [DecidableEq Node]

/-- The requests of worker `n` in a queue of the home. -/
def queued (n : Node) (q : List (Node × Msg Node)) : List Request :=
  q.filterMap fun e => if e.1 = n then e.2.request? else none

/-- The commands of the home `h` in a queue. -/
def ordered (h : Node) (q : List (Node × Msg Node)) : List (Command Node) :=
  q.filterMap fun e => if e.1 = h then e.2.command? else none

/-- Entries for worker `n` in a queue of the home that are no requests. -/
def strayRequests (n : Node) (q : List (Node × Msg Node)) : Nat :=
  q.countP fun e => decide (e.1 = n) && e.2.request?.isNone

/-- Entries in the queue of a caching worker that are no commands of the home `h`. -/
def strayCommands (h : Node) (q : List (Node × Msg Node)) : Nat :=
  q.countP fun e => !(decide (e.1 = h) && e.2.command?.isSome)

namespace BlockState

/-- The mail of worker `n`. -/
def mail (b : Block Node) (s : BlockState Node) (n : Node) : Mail Node where
  requests := queued n (s.toServe b.wid) ++ (msgs (s.chan n b.wid)).filterMap Msg.request?
  commands := ordered b.wid (s.toServe n) ++ (msgs (s.chan b.wid n)).filterMap Msg.command?
  acks := (msgs (s.chan n b.wid)).filterMap Msg.reply?
  replies := (msgs (s.chan b.wid n)).filterMap Msg.reply?
  peer := fun o => if o = b.wid then [] else msgs (s.chan o n)
  stray := (msgs (s.chan n b.wid)).countP (fun m => m.command?.isSome)
    + (msgs (s.chan b.wid n)).countP (fun m => m.request?.isSome)
    + strayRequests n (s.toServe b.wid) + strayCommands b.wid (s.toServe n)

section updates
variable (b : Block Node) (s : BlockState Node) (n m : Node)

@[simp] theorem mail_setEntry (entry : Option (DirEntry Node)) : (s.setEntry entry).mail b n = s.mail b n := rfl

@[simp] theorem mail_setMem (d : Data) : (s.setMem d).mail b n = s.mail b n := rfl

@[simp] theorem mail_setLine (l : Option (CacheLine Node)) : (s.setLine m l).mail b n = s.mail b n := rfl

@[simp] theorem mail_addPending (p : Pending Node) : (s.addPending m p).mail b n = s.mail b n := rfl

@[simp] theorem mail_erasePending (id : Nat) : (s.erasePending m id).mail b n = s.mail b n := rfl

@[simp] theorem mail_setPending (p : Pending Node) : (s.setPending m p).mail b n = s.mail b n := rfl

@[simp] theorem mail_addToServeLocal (rq : Req Node) : (s.addToServeLocal m rq).mail b n = s.mail b n := rfl

@[simp] theorem mail_takeLocal : (s.takeLocal m).mail b n = s.mail b n := rfl

@[simp] theorem mail_signal (id : Nat) : (s.signal m id).mail b n = s.mail b n := rfl

/-- The home sends to worker `n`. -/
theorem mail_send_from_home (items : List (Item Node)) (away : n ≠ b.wid) : (s.send b.wid n items).mail b n =
      { s.mail b n with
        commands := (s.mail b n).commands ++ (msgs items).filterMap Msg.command?
        replies := (s.mail b n).replies ++ (msgs items).filterMap Msg.reply?
        stray := (s.mail b n).stray + (msgs items).countP (fun m => m.request?.isSome) } := by
  ext1 <;> simp [mail, away, Ne.symm away]
  · funext o; split <;> simp_all
  · omega

/-- Worker `n` sends to the home. -/
theorem mail_send_to_home (items : List (Item Node)) (away : n ≠ b.wid) : (s.send n b.wid items).mail b n =
      { s.mail b n with
        requests := (s.mail b n).requests ++ (msgs items).filterMap Msg.request?
        acks := (s.mail b n).acks ++ (msgs items).filterMap Msg.reply?
        stray := (s.mail b n).stray + (msgs items).countP (fun m => m.command?.isSome) } := by
  ext1 <;> simp [mail, away, Ne.symm away]
  omega

/-- Worker `m` sends to worker `n`. -/
theorem mail_send_peer (items : List (Item Node)) (away : n ≠ b.wid) (other : m ≠ b.wid) : (s.send m n items).mail b n =
      { s.mail b n with
        peer := Function.update (s.mail b n).peer m ((s.mail b n).peer m ++ msgs items) } := by
  ext1 <;> simp [mail, Ne.symm away, Ne.symm other]
  funext o
  by_cases same : o = m
  · subst o; simp [other]
  · simp [same]

/-- Items between two workers concern neither end's mail with the home, nor anyone else. -/
theorem mail_send_of_ne (items : List (Item Node)) (other : n ≠ dst) (source : src = n → dst ≠ b.wid) :
    (s.send src dst items).mail b n = s.mail b n := by
  have toHome : ¬ (n = src ∧ b.wid = dst) := fun same => source same.1.symm same.2.symm
  ext1 <;> simp [mail, other, toHome]

/-- The home sends one command to everyone on a list. -/
theorem mail_broadcast (dsts : List Node) (c : Command Node) (away : n ≠ b.wid) :
    (s.broadcast b.wid dsts (.command c)).mail b n = { s.mail b n with
        commands := (s.mail b n).commands ++ (dsts.filter fun d => decide (d = n)).map fun _ => c } := by
  have copies : ∀ k : Nat, msgs (List.replicate k (Item.msg (.command c) : Item Node)) =
      List.replicate k (.command c) := fun k => List.filterMap_replicate_of_some rfl
  have commands : ∀ k : Nat, (List.replicate k (Msg.command c)).filterMap Msg.command? =
      List.replicate k c := fun k => List.filterMap_replicate_of_some rfl
  have replies : ∀ k : Nat, (List.replicate k (Msg.command c)).filterMap Msg.reply? = [] :=
    fun k => List.filterMap_replicate_of_none rfl
  ext1 <;> simp [mail, away, List.map_const', copies, commands, replies]
  funext o; split <;> simp_all

theorem broadcast_singleton (src dst : Node) (x : Msg Node) : s.broadcast src [dst] x = s.send src dst [.msg x] := by
  have same : (s.broadcast src [dst] x).chan = (s.send src dst [.msg x]).chan := by
    funext u v
    by_cases isSrc : u = src <;> by_cases isDst : dst = v <;> simp [isSrc, isDst, eq_comm]
  simp only [broadcast, send] at same ⊢
  rw [same]

/-- Data arrives: no message is touched. -/
theorem mail_pop_data (front : s.chan src dst = item :: rest) (data : item.msg? = none) :
    (s.setChan src dst rest).mail b n = s.mail b n := by
  have same : ∀ x y, msgs ((s.setChan src dst rest).chan x y) = msgs (s.chan x y) := by
    intro x y
    by_cases here : x = src ∧ y = dst
    · simp only [setChan_chan, if_pos here]
      rw [here.1, here.2, front, msgs, msgs, List.filterMap_cons, data]
    · simp only [setChan_chan, if_neg here]
  simp only [mail, same, setChan_toServe]

/-- The home takes an answer of worker `n` from the channel. -/
theorem mail_pop_ack {r : Reply} (away : n ≠ b.wid) (front : s.chan n b.wid = .msg (.reply r) :: rest) :
    (s.setChan n b.wid rest).mail b n = { s.mail b n with acks := (s.mail b n).acks.tail } := by
  ext1 <;> simp [mail, front, away, Ne.symm away, List.filterMap_cons]

/-- Worker `n` takes an answer of the home from the channel. -/
theorem mail_pop_reply {r : Reply} (away : n ≠ b.wid) (front : s.chan b.wid n = .msg (.reply r) :: rest) :
    (s.setChan b.wid n rest).mail b n = { s.mail b n with replies := (s.mail b n).replies.tail } := by
  ext1 <;> simp [mail, front, away, Ne.symm away, List.filterMap_cons]
  funext o
  split <;> simp_all

/-- Worker `n` takes an answer of worker `m` from the channel. -/
theorem mail_pop_peer (away : n ≠ b.wid) (other : m ≠ b.wid) (front : s.chan m n = .msg x :: rest) :
    (s.setChan m n rest).mail b n = { s.mail b n with
        peer := Function.update (s.mail b n).peer m ((s.mail b n).peer m).tail } := by
  ext1 <;> simp [mail, Ne.symm away, Ne.symm other]
  funext o
  by_cases same : o = m
  · subst o; simp [other, front]
  · simp [same]

/-- A channel between two others. -/
theorem mail_setChan_of_ne (items : List (Item Node)) (other : n ≠ dst) (source : src = n → dst ≠ b.wid) :
    (s.setChan src dst items).mail b n = s.mail b n := by
  have toHome : ¬ (n = src ∧ b.wid = dst) := fun same => source same.1.symm same.2.symm
  ext1 <;> simp [mail, other, toHome]

/-- Nothing but framed data is on its way. -/
def AllFramed (s : BlockState Node) : Prop := ∀ x y, Framed (s.chan x y)

section framed
variable {s}

theorem AllFramed.send (framed : s.AllFramed) (src dst : Node)
    (batch : Framed items) : (s.send src dst items).AllFramed := by
  intro x y
  simp only [send_chan]
  split
  · exact (framed x y).append batch
  · exact framed x y

theorem AllFramed.pop (framed : s.AllFramed) (front : s.chan src dst = item :: rest) :
    (s.setChan src dst rest).AllFramed := by
  intro x y
  simp only [setChan_chan]
  split
  · exact (front ▸ framed src dst : Framed (item :: rest)).tail
  · exact framed x y

theorem AllFramed.broadcast (framed : s.AllFramed) (src : Node) (dsts : List Node) (x : Msg Node) :
    (s.broadcast src dsts x).AllFramed := by
  have copies : ∀ k : Nat, Framed (List.replicate k (Item.msg x)) := fun k => by
    induction k with
    | zero => trivial
    | succ k ih => exact ih
  intro u v
  simp only [broadcast_chan, List.map_const']
  split
  · exact (framed u v).append (copies _)
  · exact framed u v

end framed

/-- Messages that worker `k` is about to process, behind those it has postponed. -/
@[simps -fullyApplied]
def extend (s : BlockState Node) (k : Node) (q : List (Node × Msg Node)) : BlockState Node :=
  { s with toServe := Function.update s.toServe k (s.toServe k ++ q) }

/-- The home takes up something worker `m` has asked for. -/
theorem mail_extend_home_of_ne (x : Msg Node) (q : List (Node × Msg Node)) (away : n ≠ b.wid)
    (other : m ≠ n) : (s.extend b.wid q).mail b n = (s.extend b.wid ((m, x) :: q)).mail b n := by
  ext1 <;> simp [mail, queued, strayRequests, away, other]

theorem mail_extend_home_self (r : Request) (q : List (Node × Msg Node)) (away : n ≠ b.wid)
    (first : queued n (s.toServe b.wid) = []) : (s.extend b.wid q).mail b n =
      { (s.extend b.wid ((n, .request r) :: q)).mail b n with
        requests := ((s.extend b.wid ((n, .request r) :: q)).mail b n).requests.tail } := by
  simp only [queued] at first
  ext1 <;> simp [mail, queued, strayRequests, away, first]

/-- Worker `m` takes up a command. -/
theorem mail_extend_of_ne (x : Node × Msg Node) (q : List (Node × Msg Node)) (away : m ≠ b.wid)
    (other : n ≠ m) : (s.extend m q).mail b n = (s.extend m (x :: q)).mail b n := by
  ext1 <;> simp [mail, Ne.symm away, other]

theorem mail_extend_self (c : Command Node) (q : List (Node × Msg Node)) (away : n ≠ b.wid)
    (only : ((s.extend n ((b.wid, .command c) :: q)).mail b n).commands = [c]) : (s.extend n q).mail b n =
      { (s.extend n ((b.wid, .command c) :: q)).mail b n with commands := [] } := by
  have parts : ordered b.wid (s.toServe n) ++ c ::
      (ordered b.wid q ++ (msgs (s.chan b.wid n)).filterMap Msg.command?) = [c] := by
    simpa [mail, ordered] using only
  obtain ⟨before, after, rest⟩ : ordered b.wid (s.toServe n) = [] ∧ ordered b.wid q = [] ∧
      (msgs (s.chan b.wid n)).filterMap Msg.command? = [] := by
    simpa [List.append_eq_cons_iff] using parts
  simp only [ordered] at before after
  ext1 <;> simp [mail, ordered, strayCommands, Ne.symm away, before, after, rest]

/-- A request of worker `m` moves from its channel to the queue of the home. -/
theorem mail_arrive_home (away : n ≠ b.wid) (front : s.chan m b.wid = .msg x :: rest) (fresh : x.reply? = none) :
    ((s.setChan m b.wid rest).extend b.wid [(m, x)]).mail b n = s.mail b n := by
  by_cases same : n = m
  · subst n
    cases x with
    | reply r => cases fresh
    | request r =>
      ext1 <;> simp [mail, queued, strayRequests, away, Ne.symm away, front, List.filterMap_cons]
    | command c =>
      ext1 <;> simp [mail, queued, strayRequests, away, Ne.symm away, front, List.filterMap_cons, List.countP_cons]
      omega
  · ext1 <;> simp [mail, queued, strayRequests, away, same, Ne.symm same]

/-- A command of the home moves from its channel to the queue of worker `m`. -/
theorem mail_arrive_worker (other : m ≠ b.wid)
    (away : n ≠ b.wid) (front : s.chan b.wid m = .msg x :: rest) (fresh : x.reply? = none) :
    ((s.setChan b.wid m rest).extend m [(b.wid, x)]).mail b n = s.mail b n := by
  by_cases same : n = m
  · subst n
    have peers : (fun o => if o = b.wid then [] else
        msgs ((s.setChan b.wid m rest).chan o m)) = (s.mail b m).peer := by
      funext o
      by_cases isHome : o = b.wid <;> simp [mail, isHome]
    cases x with
    | reply r => cases fresh
    | command c =>
      ext1 <;> first
        | exact peers
        | simp [mail, ordered, strayCommands, away, Ne.symm away, front, List.filterMap_cons]
    | request r =>
      ext1 <;> first
        | exact peers
        | simp [mail, ordered, strayCommands, away, Ne.symm away, front, List.filterMap_cons, List.countP_cons]
      omega
  · ext1 <;> simp [mail, Ne.symm other, same]

theorem send_comm (x y x' y' : Node) (items items' : List (Item Node)) (other : x ≠ x' ∨ y ≠ y') :
    (s.send x y items).send x' y' items' = (s.send x' y' items').send x y items := by
  have same : ((s.send x y items).send x' y' items').chan = ((s.send x' y' items').send x y items).chan := by
    funext u v
    simp only [send_chan]
    by_cases first : u = x ∧ v = y
    · have second : ¬ (u = x' ∧ v = y') := by
        rintro ⟨rfl, rfl⟩
        exact other.elim (fun ne => ne first.1.symm) (fun ne => ne first.2.symm)
      simp only [if_pos first, if_neg second]
    · simp only [if_neg first]
  simp only [send] at same ⊢
  rw [same]

theorem extend_nil : s.extend m [] = s := by
  simp [extend]

theorem extend_addToServe (c : Node) (x : Msg Node) (q : List (Node × Msg Node)) :
    (s.addToServe m c x).extend m q = s.extend m ((c, x) :: q) := by
  simp [extend, addToServe]

theorem clearToServe_extend : (s.clearToServe m).extend m (s.toServe m) = s := by
  simp [extend, clearToServe]

end updates

end BlockState

end Gam

import Gam.Properties.SendQueue
import Gam.Wire.Receive

/-!
# What the peer decodes

The requests and RDMA writes of one side, sent over a connection, against what the receive loop of
the other side makes of the packets it gets.
-/

namespace Gam.Rdma

open Gam.Wire

/-- A request that serialises to fewer than `MAX_REQUEST_SIZE - 1` bytes. -/
structure Message where
  wr : WorkRequest
  sized : wr.Sized
  short : wr.ser.length < maxRequestSize - 1

/-- What happens on a connection between two servers. -/
inductive Event where
  | request (m : Message) (id : UInt32) (signaled : Bool)
  | write (dest src len : Nat) (id : UInt32) (signaled : Bool)
  | writeWithImm (dest src len : Nat) (imm id : UInt32) (signaled : Bool)
  | transmit
  | complete

/-- A request is serialised when it is submitted. -/
def Event.act : Event → Act
  | request m id signaled => .send m.wr.ser id signaled
  | write dest src len id signaled => .write dest src len id signaled
  | writeWithImm dest src len imm id signaled => .writeWithImm dest src len imm id signaled
  | transmit => .transmit
  | complete => .complete

/-- What the peer gets to see: a decoded request, `none` for one it does not recognise, or a write
to its memory. -/
inductive Arrival where
  | request (wr : Option WorkRequest)
  | write (dest : Nat) (src : Src) (len : Nat) (imm : Option UInt32)

/-- What the peer makes of a packet, when the slot it arrives in holds `old` behind the packet. -/
def Packet.arrivals (old : List UInt8) : Packet → List Arrival
  | .send data => (receive data old).map .request
  | .write dest src len imm => [.write dest src len imm]

/-- What the peer makes of the packets it got, with any earlier contents of its slots. -/
def Link.arrivals (old : Nat → List UInt8) (l : Link) : List Arrival :=
  l.received.zipIdx.flatMap fun x => x.1.arrivals (old x.2)

/-- What an event should make the peer see. -/
def Event.arrival : Event → Option Arrival
  | request m _ _ => some (.request (some m.wr))
  | write dest src len _ _ => some (.write dest (.region src) len none)
  | writeWithImm dest src len imm _ _ => some (.write dest (.region src) len (some imm))
  | transmit | complete => none

/-- The peer sees the same write, or a request with the same transmitted fields. -/
inductive SameArrival : Arrival → Arrival → Prop
  | request {wr wr' : WorkRequest} (same : SameRequest wr wr') :
      SameArrival (.request (some wr)) (.request (some wr'))
  | write (dest : Nat) (src : Src) (len : Nat) (imm : Option UInt32) :
      SameArrival (.write dest src len imm) (.write dest src len imm)

/-! ## Requests and what they should arrive as -/

/-- `r` is submitted by an event that should arrive as `a`. -/
def Becomes (r : RdmaRequest) (a : Arrival) : Prop :=
  ∃ e : Event, e.act.request = some r ∧ e.arrival = some a

theorem becomes_events (events : List Event) : List.Forall₂ Becomes ((events.map Event.act).filterMap Act.request)
      (events.filterMap Event.arrival) := by
  induction events with
  | nil => exact .nil
  | cons e events ih =>
    cases e with
    | transmit => exact ih
    | complete => exact ih
    | request m id signaled => exact .cons ⟨.request m id signaled, rfl, rfl⟩ ih
    | write dest src len id signaled => exact .cons ⟨.write dest src len id signaled, rfl, rfl⟩ ih
    | writeWithImm dest src len imm id signaled =>
      exact .cons ⟨.writeWithImm dest src len imm id signaled, rfl, rfl⟩ ih

/-- A send comes from a request, anything else arrives as it is. -/
theorem Becomes.cases {r : RdmaRequest} {a : Arrival} (becomes : Becomes r a) :
    (r.op = .send ∧ ∃ m : Message, r.data = m.wr.ser ∧ r.len = m.wr.ser.length ∧ a = .request (some m.wr)) ∨
    (r.op ≠ .send ∧ ∀ old, List.Forall₂ SameArrival [a] ((packetOf [r]).arrivals old)) := by
  obtain ⟨e, asked, arrives⟩ := becomes
  cases e with
  | request m id signaled =>
    obtain rfl := Option.some.inj asked
    obtain rfl := Option.some.inj arrives
    exact .inl ⟨rfl, m, rfl, rfl, rfl⟩
  | write dest src len id signaled =>
    obtain rfl := Option.some.inj asked
    obtain rfl := Option.some.inj arrives
    exact .inr ⟨by simp, fun _ => .cons (.write ..) .nil⟩
  | writeWithImm dest src len imm id signaled =>
    obtain rfl := Option.some.inj asked
    obtain rfl := Option.some.inj arrives
    exact .inr ⟨by simp, fun _ => .cons (.write ..) .nil⟩
  | transmit => cases asked
  | complete => cases asked

theorem Becomes.fits {r : RdmaRequest} {a : Arrival} (becomes : Becomes r a) : r.Fits := by
  intro send
  rcases becomes.cases with ⟨_, m, _, length, _⟩ | ⟨other, _⟩
  · have short := m.short
    omega
  · exact absurd send other

theorem becomes_fits {rs : List RdmaRequest} {as : List Arrival}
    (becomes : List.Forall₂ Becomes rs as) : ∀ r ∈ rs, r.Fits := by
  induction becomes with
  | nil => simp
  | cons first _ ih =>
    intro r member
    rcases List.mem_cons.mp member with rfl | later
    · exact first.fits
    · exact ih r later

theorem becomes_sends {g : List RdmaRequest} {as : List Arrival}
    (becomes : List.Forall₂ Becomes g as) (sends : ∀ r ∈ g, r.op = .send) :
    ∃ wrs : List WorkRequest, (∀ wr ∈ wrs, wr.Sized) ∧ g.map RdmaRequest.data = wrs.map WorkRequest.ser ∧
      as = wrs.map fun wr => .request (some wr) := by
  induction becomes with
  | nil => exact ⟨[], by simp, rfl, rfl⟩
  | cons first _ ih =>
    obtain ⟨wrs, sizes, datas, rfl⟩ := ih fun r member => sends r (List.mem_cons_of_mem _ member)
    rcases first.cases with ⟨_, m, data, _, rfl⟩ | ⟨other, _⟩
    · refine ⟨m.wr :: wrs, ?_, by simp [data, datas], rfl⟩
      intro x member
      rcases List.mem_cons.mp member with rfl | later
      · exact m.sized
      · exact sizes x later
    · exact absurd (sends _ (List.mem_cons_self ..)) other

/-- The peer makes of the packet of a group what the requests of the group should arrive as. -/
theorem Carries.arrivals {w : SendWr} {g : List RdmaRequest} {as : List Arrival}
    (carries : Carries w g) (becomes : List.Forall₂ Becomes g as) (old : List UInt8) :
    List.Forall₂ SameArrival as ((packetOf g).arrivals old) := by
  cases g with
  | nil => exact carries.elim
  | cons r joined =>
    obtain ⟨_, _, _, sends, _⟩ := carries
    by_cases send : r.op = .send
    · obtain ⟨wrs, sized, datas, rfl⟩ := becomes_sends becomes fun m member => by
        rcases List.mem_cons.mp member with rfl | later
        · exact send
        · exact (sends m later).2.1
      obtain ⟨out, received, same⟩ := receive_ser sized old
      have packet : (packetOf (r :: joined)).arrivals old =
          out.map fun wr => .request (.some wr) := by
        simp only [packetOf, send, Packet.arrivals, wire, datas, received, List.map_map, Function.comp_def]
      rw [packet, List.forall₂_map_left_iff, List.forall₂_map_right_iff]
      exact same.imp fun _ _ => .request
    · have alone : joined = [] := by
        cases joined with
        | nil => rfl
        | cons m rest => exact absurd (sends m (List.mem_cons_self ..)).1 send
      subst alone
      cases becomes with
      | cons first none =>
        cases none
        rcases first.cases with ⟨sent, _⟩ | ⟨_, same⟩
        · exact absurd sent send
        · exact same old

/-! ## Whole runs -/

theorem forall₂_append_split {α β : Type} {R : α → β → Prop} {xs ys : List α} {zs : List β}
    (related : List.Forall₂ R (xs ++ ys) zs) :
    ∃ front back, zs = front ++ back ∧ List.Forall₂ R xs front ∧ List.Forall₂ R ys back := by
  induction xs generalizing zs with
  | nil => exact ⟨[], zs, rfl, .nil, related⟩
  | cons x xs ih =>
    cases related with
    | cons first later =>
      obtain ⟨front, back, rfl, now, behind⟩ := ih later
      exact ⟨_ :: front, back, rfl, .cons first now, behind⟩

/-- The packets of the groups that were transmitted arrive as what the groups should arrive as. -/
theorem arrivals_packets {wrs : List SendWr} {groups : List (List RdmaRequest)}
    {as : List Arrival} (carries : List.Forall₂ Carries wrs groups)
    (becomes : List.Forall₂ Becomes groups.flatten as) (old : Nat → List UInt8) (n : Nat) : List.Forall₂ SameArrival as
      (((groups.map packetOf).zipIdx n).flatMap fun x => x.1.arrivals (old x.2)) := by
  induction carries generalizing as n with
  | nil =>
    cases becomes
    exact .nil
  | cons first _ ih =>
    rw [List.flatten_cons] at becomes
    obtain ⟨front, back, rfl, now, later⟩ := forall₂_append_split becomes
    rw [List.map_cons, List.zipIdx_cons, List.flatMap_cons]
    exact List.rel_append (first.arrivals now (old n)) (ih later (n + 1))

/-- What the peer has seen at any time is what it should see of a front part of the submissions;
and of all of them once nothing is queued or waiting. -/
theorem Link.Sound.delivered {c : Config} {l : Link} {events : List Event} (sound : l.Sound c)
    (submitted : l.submitted = (events.map Event.act).filterMap Act.request) (old : Nat → List UInt8) :
    ∃ seen rest, events.filterMap Event.arrival = seen ++ rest ∧ List.Forall₂ SameArrival seen (l.arrivals old) ∧
      (l.waiting = [] → l.ctx.pendingRequests = [] → rest = []) := by
  have becomes := becomes_events events
  have fits : ∀ r ∈ l.submitted, r.Fits := by
    rw [submitted]
    exact becomes_fits becomes
  obtain ⟨past, coming, accounts⟩ := sound.accounts
  rw [← submitted, ← accounts.flat, List.flatten_append, List.append_assoc] at becomes
  obtain ⟨seen, rest, whole, now, later⟩ := forall₂_append_split becomes
  refine ⟨seen, rest, whole, ?_, ?_⟩
  · rw [Link.arrivals, accounts.received fits]
    exact arrivals_packets accounts.sent now old 0
  · intro empty none
    have idle := accounts.waiting
    rw [empty, List.map_nil] at idle
    cases idle
    rw [none] at later
    cases later
    rfl

/-- In every run the peer decodes a front part of what was submitted, each request once, with the
same transmitted fields and in order, also relative to the writes; and the device alone can go on
until the peer has decoded all of it. -/
theorem Link.run_delivers (c : Config) (events : List Event) : ∃ l, Link.init.run c (events.map Event.act) = some l ∧
      (∀ old, ∃ seen rest, events.filterMap Event.arrival = seen ++ rest ∧
        List.Forall₂ SameArrival seen (l.arrivals old)) ∧ ∃ more l', DeviceOnly more ∧ l.run c more = some l' ∧
        ∀ old, List.Forall₂ SameArrival (events.filterMap Event.arrival) (l'.arrivals old) := by
  obtain ⟨l, ran, sound, submitted⟩ := Link.Sound.init.run (c := c) (events.map Event.act)
  rw [Link.init, List.nil_append] at submitted
  refine ⟨l, ran, ?_, ?_⟩
  · intro old
    obtain ⟨seen, rest, whole, same, _⟩ := sound.delivered submitted old
    exact ⟨seen, rest, whole, same⟩
  · obtain ⟨more, l', device, drained, empty, idle⟩ := sound.drain
    obtain ⟨sound', kept⟩ := device.submitted sound drained
    refine ⟨more, l', device, drained, ?_⟩
    intro old
    obtain ⟨seen, rest, whole, same, all⟩ := sound'.delivered (kept.trans submitted) old
    have none : l'.ctx.pendingRequests = [] := by
      by_contra waits
      obtain ⟨w, member, marked⟩ := sound'.serving.signaled_outstanding waits
      rw [idle w member] at marked
      cases marked
    rw [whole, all empty none, List.append_nil]
    exact same

end Gam.Rdma

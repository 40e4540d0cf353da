import Gam.Properties.MemStats
import Gam.Rdma.Length
import Gam.Wire.Master

/-!
# Messages fit their buffers

A message is serialised into a buffer of `MAX_REQUEST_SIZE` bytes and received into a slot of that size,
each time with a zero byte behind it. Nothing bounds the value of a `PUT` or the text of the statistics.
-/

namespace Gam.Wire
variable {wr : WorkRequest} {threshold : Nat}

/-! ## The length of a message -/

theorem length_encode (fields : List Field) (wr : WorkRequest) : (layout.encode fields wr).length = (fields.map Field.width).sum := by
  rw [Layout.encode, List.length_flatMap]
  exact congrArg List.sum (List.map_congr_left fun f _ => length_bytesOf ..)

theorem WorkRequest.length_ser (wr : WorkRequest) :
    wr.ser.length = 4 + ((serFields wr.op).map Field.width).sum + wr.payload.length := by
  rw [WorkRequest.ser, List.length_append, List.length_append, length_bytesOf, length_encode]

/-- The integers of a request are never more than these. -/
theorem serFields_width (op : Work) : ((serFields op).map Field.width).sum ≤ 48 := by
  cases op <;> decide

theorem WorkRequest.length_ser_value (value : wr.op = .put ∨ wr.op = .getReply) :
    wr.ser.length = 28 + wr.payload.length := by
  rw [wr.length_ser]
  rcases value with op | op <;> rw [op] <;> rfl

/-- A value never has more bytes than there are at `ptr`. -/
theorem WorkRequest.length_payload_le (value : wr.op = .put ∨ wr.op = .getReply) : wr.payload.length ≤ wr.data.length := by
  rw [WorkRequest.payload]
  rcases value with op | op <;> rw [op] <;> exact List.length_take_le' ..

/-! ## What may be issued -/

/-- The longest value that fits: 28 bytes of integers and the zero byte go with it. -/
def maxValue : Nat := 995

/-- The longest text that fits: 12 bytes of integers and the zero byte go with it. -/
def maxText : Nat := 1011

/-- The statistics that the master prints when it serves a request. -/
def Master.printed (threshold : Nat) (m : Master) (wr : WorkRequest) : List (StatsKind × List MemStat) :=
  match wr.op with
  | .updateMemStats =>
    let m := m.setMemStat wr
    if m.unsynced.length = threshold then [(.broadcast, m.unsynced.map m.clients)] else []
  | .fetchMemStats => [(.reply, m.workers.map m.clients)]
  | _ => []

/-- Short values, and no more workers than fit the text of the statistics. -/
def Traffic.Allows (threshold : Nat) (t : Traffic) : TrafficEvent → Prop
  | .issue (.put _ value _ _) => value.length ≤ maxValue
  | .issue _ => True
  | .serve k => ∀ wr, t.inbox[k]? = some wr → ∀ x ∈ t.master.printed threshold wr,
    (x.2.map fun r => r.width + x.1.delims).sum ≤ maxText

/-- Every event of the run is allowed where it happens. -/
def Traffic.Allowed (threshold : Nat) : Traffic → List TrafficEvent → Prop
  | _, [] => True
  | t, event :: rest => t.Allows threshold event ∧ ∀ t', t.step threshold event = some t' → t'.Allowed threshold rest

/-! ## Every message of a run -/

def WorkRequest.Fits (wr : WorkRequest) : Prop := wr.ser.length + 1 ≤ maxRequestSize

theorem WorkRequest.fits_integers (empty : wr.payload = []) : wr.Fits := by
  have width := serFields_width wr.op
  rw [WorkRequest.Fits, wr.length_ser, empty, maxRequestSize, List.length_nil]
  omega

theorem WorkRequest.fits_value (value : wr.op = .put ∨ wr.op = .getReply) (short : wr.payload.length ≤ maxValue) :
    wr.Fits := by
  rw [WorkRequest.Fits, length_ser_value value, maxRequestSize]
  rw [maxValue] at short
  omega

theorem WorkRequest.fits_getReply (wr : WorkRequest) {value : List UInt8} (short : value.length ≤ maxValue) : (wr.getReply value).Fits :=
  fits_value (Or.inr rfl) (Nat.le_trans (length_payload_le (Or.inr rfl)) short)

/-- A request with statistics whose text is short enough. -/
theorem StatsKind.fits_request (kind : StatsKind) {records : List MemStat} (made : kind.request records = some wr)
    (short : (records.map fun r => r.width + kind.delims).sum ≤ maxText) : wr.Fits := by
  rw [← kind.length_text records] at short
  unfold StatsKind.request at made
  dsimp only at made
  split at made
  · rw [← Option.some.inj made, WorkRequest.Fits, kind.length_ser rfl, kind.payload_eq rfl]
    have text : (List.takeWhile (· ≠ 0) (records.flatMap kind.print ++ [0])).length ≤ (records.flatMap kind.print).length := by
      rw [takeWhile_append_zero]
      intro c member
      obtain ⟨r, _, inside⟩ := List.mem_flatMap.mp member
      exact kind.print_nonzero r c inside
    rw [maxText] at short
    show 12 + (List.takeWhile (· ≠ 0) (records.flatMap kind.print ++ [0])).length + 1 ≤ 1024
    omega
  · cases made

/-- Values stay as short as they were put. -/
structure Traffic.Small (t : Traffic) : Prop where
  stored : ∀ key value, t.master.kvs key = some value → value.length ≤ maxValue
  arriving : ∀ wr ∈ t.inbox, wr.op = .put → wr.payload.length ≤ maxValue
  issued : ∀ wr ∈ t.issued, wr.Fits

theorem Issue.fits {i : Issue} {t : Traffic} (allowed : t.Allows threshold (.issue i)) :
    i.request.Fits ∧ (i.request.op = .put → i.request.payload.length ≤ maxValue) := by
  cases i with
  | put key value id wid =>
    have short : (Issue.put key value id wid).request.payload.length ≤ maxValue :=
      Nat.le_trans (WorkRequest.length_payload_le (Or.inl rfl)) allowed
    exact ⟨WorkRequest.fits_value (Or.inl rfl) short, fun _ => short⟩
  | get key id wid => exact ⟨WorkRequest.fits_integers rfl, fun op => nomatch op⟩
  | plain wr integers =>
    obtain ⟨put, getReply, reply, broadcast⟩ := integers
    refine ⟨WorkRequest.fits_integers ?_, fun op => absurd op put⟩
    show wr.payload = []
    rw [WorkRequest.payload]
    cases op : wr.op <;> first | rfl | exact absurd op put | exact absurd op getReply | exact absurd op reply | exact absurd op broadcast

/-- What the master keeps and sends. -/
theorem Master.fits_processRequest {m m' : Master} {sent : List WorkRequest}
    (stored : ∀ key value, m.kvs key = some value → value.length ≤ maxValue) (put : wr.op = .put → wr.payload.length ≤ maxValue)
    (printed : ∀ x ∈ m.printed threshold wr, (x.2.map fun r => r.width + x.1.delims).sum ≤ maxText)
    (done : m.processRequest threshold wr = some (m', sent)) :
    (∀ key value, m'.kvs key = some value → value.length ≤ maxValue) ∧ ∀ other ∈ sent, other.Fits := by
  have none : ∀ other ∈ ([] : List WorkRequest), other.Fits := fun _ member => (nomatch member)
  unfold processRequest at done
  unfold Master.printed at printed
  split at done
  · next op =>
    dsimp only at done
    split at done
    · next full =>
      rw [op] at printed
      dsimp only at printed
      rw [if_pos full] at printed
      obtain ⟨lwr, made, same⟩ := Option.map_eq_some_iff.mp done
      obtain ⟨rfl, rfl⟩ := Prod.mk.inj same
      exact ⟨stored, List.forall_mem_singleton.mpr (StatsKind.fits_request _ made (printed _ List.mem_cons_self))⟩
    · obtain ⟨rfl, rfl⟩ := Prod.mk.inj (Option.some.inj done)
      exact ⟨stored, none⟩
  · next op =>
    rw [op] at printed
    obtain ⟨lwr, made, same⟩ := Option.map_eq_some_iff.mp done
    obtain ⟨rfl, rfl⟩ := Prod.mk.inj same
    exact ⟨stored, List.forall_mem_singleton.mpr (StatsKind.fits_request _ made (printed _ List.mem_cons_self))⟩
  · next op =>
    obtain ⟨rfl, rfl⟩ := Prod.mk.inj (Option.some.inj done)
    refine ⟨fun key value found => ?_, fun other member => ?_⟩
    · by_cases same : key = wr.addr
      · rw [same] at found
        simp only [Function.update_self, Option.some.injEq] at found
        exact found ▸ put op
      · simp only [Function.update_of_ne same] at found
        exact stored key value found
    · obtain ⟨waiting, _, rfl⟩ := List.mem_map.mp member
      exact waiting.fits_getReply (put op)
  · split at done
    · next value found =>
      obtain ⟨rfl, rfl⟩ := Prod.mk.inj (Option.some.inj done)
      exact ⟨stored, List.forall_mem_singleton.mpr (wr.fits_getReply (stored _ _ found))⟩
    · obtain ⟨rfl, rfl⟩ := Prod.mk.inj (Option.some.inj done)
      exact ⟨stored, none⟩
  · obtain ⟨rfl, rfl⟩ := Prod.mk.inj (Option.some.inj done)
    exact ⟨stored, none⟩

theorem Traffic.Small.step {t t' : Traffic} {event : TrafficEvent} (small : t.Small)
    (allowed : t.Allows threshold event) (done : t.step threshold event = some t') : t'.Small := by
  cases event with
  | issue i =>
    obtain ⟨fits, short⟩ := Issue.fits allowed
    obtain rfl := Option.some.inj done
    exact ⟨small.stored, List.forall_mem_append.mpr ⟨small.arriving, List.forall_mem_singleton.mpr short⟩,
      List.forall_mem_append.mpr ⟨small.issued, List.forall_mem_singleton.mpr fits⟩⟩
  | serve k =>
    rw [Traffic.step] at done
    split at done
    · obtain rfl := Option.some.inj done
      exact small
    · next wr found =>
      obtain ⟨⟨m, sent⟩, served, same⟩ := Option.map_eq_some_iff.mp done
      obtain ⟨stored, fits⟩ := Master.fits_processRequest small.stored (small.arriving wr (List.mem_of_getElem? found)) (allowed wr found) served
      rw [← same]
      exact ⟨stored, fun other member => small.arriving other (List.mem_of_mem_eraseIdx member),
        List.forall_mem_append.mpr ⟨small.issued, fits⟩⟩

theorem Traffic.Small.run {t t' : Traffic} {events : List TrafficEvent} (small : t.Small)
    (allowed : t.Allowed threshold events) (ran : t.run threshold events = some t') : t'.Small := by
  induction events generalizing t with
  | nil =>
    obtain rfl := Option.some.inj ran
    exact small
  | cons event rest ih =>
    obtain ⟨here, later⟩ := allowed
    rw [Traffic.run, List.foldlM_cons] at ran
    obtain ⟨t₁, stepped, ran⟩ := Option.bind_eq_some_iff.mp ran
    exact ih (small.step here stepped) (later t₁ stepped) ran

theorem Traffic.Small.init (clients : UInt32 → MemStat) : Traffic.Small { master := { clients := clients } } :=
  ⟨fun _ _ found => (nomatch found), fun _ member => (nomatch member), fun _ member => (nomatch member)⟩

/-! ## Buffers and slots -/

open Gam.Rdma in
/-- As long as values and statistics are short, every message fits its buffer, and every packet of every
connection that carries such messages fits the slot it is received in, each with a zero byte behind it. -/
theorem messages_fit (threshold : Nat) (clients : UInt32 → MemStat) (events : List TrafficEvent) (t : Traffic)
    (allowed : Traffic.Allowed threshold { master := { clients := clients } } events)
    (ran : Traffic.run threshold { master := { clients := clients } } events = some t) :
    (∀ wr ∈ t.issued, wr.ser.length + 1 ≤ Wire.maxRequestSize) ∧
      ∀ (c : Config) (acts : List Act) (l : Link),
        (∀ data id signaled, .send data id signaled ∈ acts → ∃ wr ∈ t.issued, data = wr.ser) → Link.run c Link.init acts = some l →
        ∀ data, .send data ∈ l.received → data.length + 1 ≤ Rdma.maxRequestSize := by
  have small := (Traffic.Small.init clients).run allowed ran
  refine ⟨small.issued, fun c acts l sent ran' data received => ?_⟩
  have fits : ∀ act ∈ acts, ∀ r, act.request = some r → r.Fits := by
    intro act member r asked
    cases act with
    | send data id signaled =>
      obtain ⟨wr, issued, rfl⟩ := sent data id signaled member
      obtain rfl := Option.some.inj asked
      exact fun _ => small.issued wr issued
    | write dest src len id signaled =>
      obtain rfl := Option.some.inj asked
      exact fun op => nomatch op
    | writeWithImm dest src len imm id signaled =>
      obtain rfl := Option.some.inj asked
      exact fun op => nomatch op
    | transmit => cases asked
    | complete => cases asked
  exact (Link.Short.init.run fits ran').received _ received

/-- A value is put, another worker asks for it, and the master serves both. -/
theorem messages_fit_put : ∃ t, Traffic.run 1 { master := { clients := fun _ => ⟨0, 0, 0, 0⟩ } }
      [.issue (.put 7 [1, 2] 0 0), .issue (.get 7 0 1), .serve 1, .serve 0] = some t ∧
    t.issued.map WorkRequest.op = [.put, .get, .getReply] ∧ ∀ wr ∈ t.issued, wr.ser.length + 1 ≤ maxRequestSize := by
  refine ⟨_, rfl, rfl, (messages_fit 1 (fun _ => ⟨0, 0, 0, 0⟩) [.issue (.put 7 [1, 2] 0 0), .issue (.get 7 0 1), .serve 1, .serve 0] _
    ⟨show ([1, 2] : List UInt8).length ≤ maxValue by decide, fun _ first => ?_⟩ rfl).1⟩
  obtain rfl := Option.some.inj first
  refine ⟨trivial, fun _ second => ?_⟩
  obtain rfl := Option.some.inj second
  refine ⟨fun wr found => ?_, fun _ third => ?_⟩
  · obtain rfl := Option.some.inj found
    exact fun x member => nomatch member
  · obtain rfl := Option.some.inj third
    refine ⟨fun wr found => ?_, fun _ _ => trivial⟩
    obtain rfl := Option.some.inj found
    exact fun x member => nomatch member

/-- A value of 996 bytes, and the statistics of 32 workers, do not fit. -/
theorem put_overflows : (∃ t, Traffic.run 1 { master := { clients := fun _ => ⟨0, 0, 0, 0⟩ } } [.issue (.put 7 (List.replicate 996 0) 0 0)] = some t ∧
      ∃ wr ∈ t.issued, maxRequestSize < wr.ser.length + 1) ∧
    (StatsKind.reply.request (List.replicate 32 ⟨1000, 10, 17179869184, 17179869184⟩)).any fun wr => maxRequestSize < wr.ser.length + 1 := by
  refine ⟨⟨_, rfl, _, List.mem_cons_self, ?_⟩, ?_⟩
  · decide +kernel
  · decide +kernel

end Gam.Wire

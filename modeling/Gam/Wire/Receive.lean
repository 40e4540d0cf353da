import Mathlib.Data.List.TakeWhile
import Gam.Batch
import Gam.Wire.WorkRequest

/-!
# The receive loop

What `ProcessRdmaRequest` of `server.cc` does with a received buffer: it decodes one request after
another, each time skipping the zero byte behind it. The buffer is the slot the packet was received
in, with a zero byte written behind the packet and whatever the slot held before after that.
-/

namespace Gam.Wire

/-- The loop over the buffer, from `consumed` on. -/
def receiveLoop (buf : List UInt8) (byteLen consumed : Nat) : List (Option WorkRequest) :=
  if consumed < byteLen then
    let (wr, len) := deser (buf.drop consumed)
    wr :: receiveLoop buf byteLen (consumed + len + 1)
  else []
termination_by byteLen - consumed

/-- The requests decoded from a packet that arrives in a slot with `old` behind the packet. -/
def receive (packet old : List UInt8) : List (Option WorkRequest) :=
  receiveLoop (packet ++ 0 :: old) packet.length 0

/-! ## One request -/

/-- Two requests that agree in the operation, in every integer that is sent for it and in the bytes
that follow. -/
def SameRequest (wr wr' : WorkRequest) : Prop :=
  wr'.op = wr.op ∧ (∀ f ∈ serFields wr.op, f.get wr' = f.get wr) ∧ wr'.payload = wr.payload

/-- The bytes at `ptr` of a request that carries a value are there. -/
def WorkRequest.Sized (wr : WorkRequest) : Prop :=
  wr.op = .put ∨ wr.op = .getReply → wr.size.toNat ≤ wr.data.length

theorem deserFields_eq (op : Work) : deserFields op = serFields op := by
  cases op <;> rfl

theorem decode_op (fields : List Field) (wr : WorkRequest) (bytes : List UInt8) :
    (layout.decode fields wr bytes).1.op = wr.op := by
  induction fields generalizing wr bytes with
  | nil => rfl
  | cons f fields ih =>
    rw [Layout.decode, ih]
    cases f <;> rfl

theorem takeWhile_append_zero {text rest : List UInt8} (nonzero : ∀ b ∈ text, b ≠ 0) :
    (text ++ 0 :: rest).takeWhile (· ≠ 0) = text := by
  rw [List.takeWhile_append_of_pos (by simpa using nonzero)]
  simp

theorem takeWhile_nonzero (text : List UInt8) : ∀ b ∈ text.takeWhile (· ≠ 0), b ≠ 0 := by
  intro b member
  simpa using List.mem_takeWhile_imp member

/-- `Deser` finds the length of the bytes behind the integers. -/
theorem payloadLength_eq {wr wr' : WorkRequest} {rest : List UInt8} (sized : wr.Sized)
    (op : wr'.op = wr.op) (fields : ∀ f ∈ serFields wr.op, f.get wr' = f.get wr) :
    payloadLength wr' (wr.payload ++ 0 :: rest) = wr.payload.length := by
  have value : wr.op = .put ∨ wr.op = .getReply →
      payloadLength wr' (wr.payload ++ 0 :: rest) = wr.payload.length := by
    intro carries
    have size : wr'.size.toNat = wr.size.toNat := by
      apply fields .size
      rcases carries with same | same <;> simp [same, serFields]
    have enough := sized carries
    rcases carries with same | same <;>
      simp only [payloadLength, WorkRequest.payload, op, same, size, List.length_take] <;> omega
  have text : wr.op = .fetchMemStatsReply ∨ wr.op = .broadcastMemStats →
      payloadLength wr' (wr.payload ++ 0 :: rest) = wr.payload.length := by
    intro carries
    have nonzero := takeWhile_nonzero wr.data
    rcases carries with same | same <;>
      simp only [payloadLength, WorkRequest.payload, op, same, takeWhile_append_zero nonzero]
  cases same : wr.op with
  | put => exact value (.inl same)
  | getReply => exact value (.inr same)
  | fetchMemStatsReply => exact text (.inl same)
  | broadcastMemStats => exact text (.inr same)
  | _ => simp only [payloadLength, WorkRequest.payload, op, same, List.length_nil]

/-- The bytes of a payload are a payload of their own length. -/
theorem payload_idem {wr wr' : WorkRequest} (op : wr'.op = wr.op)
    (fields : ∀ f ∈ serFields wr.op, f.get wr' = f.get wr) :
    ({ wr' with data := wr.payload } : WorkRequest).payload = wr.payload := by
  have size : wr.op = .put ∨ wr.op = .getReply → wr'.size = wr.size := by
    intro carries
    apply UInt64.toNat_inj.mp
    apply fields .size
    rcases carries with same | same <;> simp [same, serFields]
  have again : ∀ text : List UInt8, (text.takeWhile (· ≠ 0)).takeWhile (· ≠ 0) =
      text.takeWhile (· ≠ 0) := fun text =>
    List.takeWhile_eq_self_iff.mpr fun b member => by simpa using takeWhile_nonzero text b member
  cases same : wr.op with
  | put => simp only [WorkRequest.payload, op, same, size (.inl same), List.take_take, Nat.min_self]
  | getReply =>
    simp only [WorkRequest.payload, op, same, size (.inr same), List.take_take, Nat.min_self]
  | fetchMemStatsReply => simp only [WorkRequest.payload, op, same, again]
  | broadcastMemStats => simp only [WorkRequest.payload, op, same, again]
  | _ => simp only [WorkRequest.payload, op, same]

/-- What `Deser` does once it knows the operation, whose code is the first four bytes of `buf`. -/
def deserAs (op : Work) (buf : List UInt8) : Option WorkRequest × Nat :=
  let (wr, rest) := layout.decode (deserFields op) { op := op } (buf.drop 4)
  let len := payloadLength wr rest
  (some { wr with data := rest.take len }, len + (buf.length - rest.length))

/-- Behind any four bytes, `Deser` reads back what `Ser` wrote for the operation, as long as a zero byte follows,
and consumes exactly those bytes. -/
theorem deserAs_ser {wr : WorkRequest} (sized : wr.Sized) {code : List UInt8} (four : code.length = 4) (rest : List UInt8) :
    ∃ wr', deserAs wr.op (code ++ layout.encode (serFields wr.op) wr ++ wr.payload ++ 0 :: rest) =
        (some wr', (code ++ layout.encode (serFields wr.op) wr ++ wr.payload).length) ∧ SameRequest wr wr' := by
  have tail : (code ++ layout.encode (serFields wr.op) wr ++ wr.payload ++ 0 :: rest).drop 4 =
      layout.encode (serFields wr.op) wr ++ (wr.payload ++ 0 :: rest) := by
    rw [List.append_assoc, List.append_assoc, List.drop_left' four]
  obtain ⟨wr', decoded⟩ : ∃ wr', layout.decode (deserFields wr.op) { op := wr.op }
      (layout.encode (serFields wr.op) wr ++ (wr.payload ++ 0 :: rest)) = (wr', wr.payload ++ 0 :: rest) := by
    rw [deserFields_eq]
    exact ⟨_, Prod.ext rfl (Layout.decode_encode_rest layout)⟩
  have op : wr'.op = wr.op := by
    have kept := decode_op (deserFields wr.op) { op := wr.op } (layout.encode (serFields wr.op) wr ++ (wr.payload ++ 0 :: rest))
    rwa [decoded] at kept
  have fields : ∀ f ∈ serFields wr.op, f.get wr' = f.get wr := by
    intro f listed
    have read : layout.get f (layout.decode (serFields wr.op) { op := wr.op }
        (layout.encode (serFields wr.op) wr ++ (wr.payload ++ 0 :: rest))).1 = layout.get f wr :=
      Layout.get_decode_encode layout (.inl listed)
    rw [deserFields_eq] at decoded
    rw [decoded] at read
    exact read
  have length : payloadLength wr' (wr.payload ++ 0 :: rest) = wr.payload.length :=
    payloadLength_eq sized op fields
  refine ⟨{ wr' with data := wr.payload }, ?_, op, ?_, payload_idem op fields⟩
  · have consumed : wr.payload.length + ((code ++ layout.encode (serFields wr.op) wr ++ wr.payload ++ 0 :: rest).length -
        (wr.payload ++ 0 :: rest).length) = (code ++ layout.encode (serFields wr.op) wr ++ wr.payload).length := by
      simp only [List.length_append, List.length_cons]
      omega
    simp only [deserAs, tail, decoded, length, List.take_left', consumed]
  · intro f listed
    rw [← fields f listed]
    cases f <;> rfl

/-- `Deser` reads back what `Ser` wrote, as long as a zero byte follows, and consumes exactly the
bytes that `Ser` wrote. -/
theorem deser_ser {wr : WorkRequest} (sized : wr.Sized) (rest : List UInt8) :
    ∃ wr', deser (wr.ser ++ 0 :: rest) = (some wr', wr.ser.length) ∧ SameRequest wr wr' := by
  obtain ⟨wr', read, same⟩ := deserAs_ser sized (length_bytesOf 4 wr.op.code) rest
  refine ⟨wr', ?_, same⟩
  have code : Work.ofCode (valueOf ((wr.ser ++ 0 :: rest).take 4)) = some wr.op := by
    rw [WorkRequest.ser, List.append_assoc, List.append_assoc, List.take_left' (length_bytesOf ..),
      valueOf_bytesOf wr.op.code_lt, Work.ofCode_code]
  rw [deser, code]
  exact read

/-! ## A whole packet -/

theorem receiveLoop_eq (buf : List UInt8) (byteLen consumed : Nat) :
    receiveLoop buf byteLen consumed = Batch.decodeFrom deser buf byteLen consumed := by
  fun_induction receiveLoop with
  | case1 consumed inside wr len decoded ih => rw [Batch.decodeFrom, if_pos inside, decoded, ih]
  | case2 consumed outside => rw [Batch.decodeFrom, if_neg outside]

theorem ser_ne_nil (wr : WorkRequest) : wr.ser ≠ [] := by
  apply List.ne_nil_of_length_pos
  simp only [WorkRequest.ser, List.length_append, length_bytesOf]
  omega

/-- A request that is followed by a zero byte is read as itself. -/
theorem reads_ser {wr : WorkRequest} (sized : wr.Sized) :
    Batch.Reads 0 WorkRequest.ser deser (fun wr out => ∃ wr', out = some wr' ∧ SameRequest wr wr') wr := by
  refine ⟨ser_ne_nil wr, fun rest => ?_⟩
  obtain ⟨wr', read, same⟩ := deser_ser sized rest
  exact ⟨some wr', read, wr', rfl, same⟩

/-- A packet of requests is decoded into the same requests, whatever the slot held before. -/
theorem receive_ser {wrs : List WorkRequest} (sized : ∀ wr ∈ wrs, wr.Sized) (old : List UInt8) :
    ∃ out, receive ([0].intercalate (wrs.map WorkRequest.ser)) old = out.map Option.some ∧
      List.Forall₂ SameRequest wrs out := by
  obtain ⟨outs, looped, recovered⟩ := Batch.decodeFrom_pack (fun wr member => reads_ser (sized wr member)) [] old
  obtain ⟨out, rfl, same⟩ := Batch.exists_of_forall₂_some recovered
  refine ⟨out, ?_, same⟩
  rw [receive, receiveLoop_eq]
  simpa [Batch.pack] using looped

end Gam.Wire

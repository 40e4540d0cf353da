import Gam.Wire.HTable

/-!
# Batches of the DHT build

`Ser` sends the identifier with `GET_HTABLE`, and `Deser` reads an identifier and a worker. Batches without
that message are decoded into the messages they were made of.
-/

namespace Gam.Wire.HTable

theorem ofCode_ser (m : Message) (rest : List UInt8) :
    Kind.ofCode (valueOf ((m.ser ++ rest).take 4)) = some m.kind := by
  rw [Message.ser, List.append_assoc, List.take_left' (length_bytesOf ..), valueOf_bytesOf m.kind.code_lt, Kind.ofCode_code]

theorem drop_ser (m : Message) (rest : List UInt8) : (m.ser ++ rest).drop 4 = m.body ++ rest := by
  rw [Message.ser, List.append_assoc, List.drop_left' (length_bytesOf ..)]

/-- `Deser` of a message of the default build. -/
theorem deser_common {wr : WorkRequest} (sized : wr.Sized) (rest : List UInt8) :
    ∃ wr', deser ((Message.common wr).ser ++ 0 :: rest) = (some (.common wr'), (Message.common wr).ser.length) ∧
      SameRequest wr wr' := by
  obtain ⟨wr', read, same⟩ := deserAs_ser sized (length_bytesOf 4 (Kind.common wr.op).code) rest
  refine ⟨wr', ?_, same⟩
  have written : (Message.common wr).ser =
      bytesOf 4 (Kind.common wr.op).code ++ layout.encode (serFields wr.op) wr ++ wr.payload := by
    rw [List.append_assoc]
    rfl
  rw [deser, ofCode_ser]
  simp only [Message.kind]
  rw [written, read]
  rfl

/-- `Deser` of a reply with the address of a hash table. -/
theorem deser_reply (wr : WorkRequest) (rest : List UInt8) :
    ∃ wr', deser ((Message.getHTableReply wr).ser ++ 0 :: rest) =
        (some (.getHTableReply wr'), (Message.getHTableReply wr).ser.length) ∧
      wr'.id = wr.id ∧ wr'.addr = wr.addr ∧ wr'.status = wr.status := by
  obtain ⟨wr', decoded⟩ : ∃ wr', layout.decode [.id, .addr, .status] { op := .get }
      (layout.encode [.id, .addr, .status] wr ++ 0 :: rest) = (wr', 0 :: rest) :=
    ⟨_, Prod.ext rfl (Layout.decode_encode_rest layout)⟩
  have fields : ∀ f ∈ [Field.id, .addr, .status], f.get wr' = f.get wr := by
    intro f listed
    have read : layout.get f (layout.decode [.id, .addr, .status] { op := .get }
        (layout.encode [.id, .addr, .status] wr ++ 0 :: rest)).1 = layout.get f wr :=
      Layout.get_decode_encode layout (.inl listed)
    rw [decoded] at read
    exact read
  refine ⟨wr', ?_, UInt32.toNat_inj.mp (fields .id (by simp)), UInt64.toNat_inj.mp (fields .addr (by simp)),
    UInt32.toNat_inj.mp (fields .status (by simp))⟩
  have consumed : ((Message.getHTableReply wr).ser ++ 0 :: rest).length - (0 :: rest).length =
      (Message.getHTableReply wr).ser.length := by
    rw [List.length_append, Nat.add_sub_cancel]
  rw [deser, ofCode_ser]
  simp only [Message.kind, drop_ser, Message.body, decoded, consumed]

theorem ser_ne_nil (m : Message) : m.ser ≠ [] := by
  apply List.ne_nil_of_length_pos
  simp only [Message.ser, List.length_append, length_bytesOf]
  omega

/-- Every message but `GET_HTABLE` is read as itself when a zero byte follows. -/
theorem reads_ser {m : Message} (sized : m.Sized) (other : m.kind ≠ .getHTable) :
    Batch.Reads 0 Message.ser deser (fun m out => ∃ m', out = some m' ∧ SameMessage m m') m := by
  refine ⟨ser_ne_nil m, fun rest => ?_⟩
  cases m with
  | common wr =>
    obtain ⟨wr', read, same⟩ := deser_common sized rest
    exact ⟨_, read, _, rfl, same⟩
  | getHTable wr => exact absurd rfl other
  | getHTableReply wr =>
    obtain ⟨wr', read, same⟩ := deser_reply wr rest
    exact ⟨_, read, _, rfl, same⟩

/-- Two requests for the hash table of a node. -/
def twice : List Message := [.getHTable { op := .get, id := 1 }, .getHTable { op := .get, id := 77 }]

end Gam.Wire.HTable

import Gam.Wire.Receive

/-!
# The wire format of the DHT build

With `DHT` defined, `Work` has the two operations that hand out the addresses of the hash tables. They move
the value of `GET_REPLY` by one, and `Ser` and `Deser` have a case for each of them. All other cases are those
of the default build.
-/

namespace Gam.Wire.HTable

/-- The operations of the DHT build that `Ser` has a case for. -/
inductive Kind where
  | common (op : Work)
  | getHTable
  | getHTableReply
deriving DecidableEq, Repr

/-- The value of the enumerator in the DHT build. -/
def Kind.code : Kind → Nat
  | .common .getReply => 65544
  | .common op => op.code
  | .getHTable => 30
  | .getHTableReply => 65543

def Kind.all : List Kind := Work.all.map .common ++ [.getHTable, .getHTableReply]

def Kind.ofCode (n : Nat) : Option Kind := Kind.all.find? fun kind => kind.code = n

theorem Kind.ofCode_code (kind : Kind) : Kind.ofCode kind.code = some kind := by
  cases kind with
  | common op => cases op <;> rfl
  | getHTable => rfl
  | getHTableReply => rfl

theorem Kind.code_lt (kind : Kind) : kind.code < 256 ^ 4 := by
  cases kind with
  | common op => cases op <;> decide
  | getHTable => decide
  | getHTableReply => decide

/-- A request of the DHT build. The two new operations use the fields of the same class; `op` of their
record is not looked at. -/
inductive Message where
  | common (wr : WorkRequest)
  | getHTable (wr : WorkRequest)
  | getHTableReply (wr : WorkRequest)
deriving DecidableEq, Repr

def Message.kind : Message → Kind
  | .common wr => .common wr.op
  | .getHTable _ => .getHTable
  | .getHTableReply _ => .getHTableReply

/-- What `Ser` appends after the operation. -/
def Message.body : Message → List UInt8
  | .common wr => layout.encode (serFields wr.op) wr ++ wr.payload
  | .getHTable wr => layout.encode [.id] wr
  | .getHTableReply wr => layout.encode [.id, .addr, .status] wr

def Message.ser (m : Message) : List UInt8 := bytesOf 4 m.kind.code ++ m.body

/-- `Deser` of a new request from the bytes at `buf`, with the number of bytes it consumed. -/
def deser (buf : List UInt8) : Option Message × Nat :=
  match Kind.ofCode (valueOf (buf.take 4)) with
  | none => (none, 4)
  | some (.common op) =>
    let (wr, len) := deserAs op buf
    (wr.map .common, len)
  | some .getHTable =>
    -- one field more than `Ser` has written
    let (wr, rest) := layout.decode [.id, .wid] { op := .get } (buf.drop 4)
    (some (.getHTable wr), buf.length - rest.length)
  | some .getHTableReply =>
    let (wr, rest) := layout.decode [.id, .addr, .status] { op := .get } (buf.drop 4)
    (some (.getHTableReply wr), buf.length - rest.length)

/-- The messages decoded from a packet that arrives in a slot with `old` behind the packet. -/
def receive (packet old : List UInt8) : List (Option Message) :=
  Batch.decodeFrom deser (packet ++ 0 :: old) packet.length 0

/-- The bytes at `ptr` of a message that carries a value are there. -/
def Message.Sized : Message → Prop
  | .common wr => wr.Sized
  | .getHTable _ | .getHTableReply _ => True

/-- Two messages that agree in the operation and in everything that is sent for it. -/
def SameMessage : Message → Message → Prop
  | .common wr, .common wr' => SameRequest wr wr'
  | .getHTable wr, .getHTable wr' => wr'.id = wr.id
  | .getHTableReply wr, .getHTableReply wr' => wr'.id = wr.id ∧ wr'.addr = wr.addr ∧ wr'.status = wr.status
  | _, _ => False

end Gam.Wire.HTable

import Gam.Codec
import Gam.Memory

/-!
# Objects serialised in memory

A `Format` encodes a value as a fixed number of bytes. An object that writes its fields one after the
other is `Serial` when it stays inside the space it reports and is read back from every memory that
agrees with what was written there; such objects can be nested and put into arrays.
-/

namespace Gam

structure Format (α : Type) where
  width : Nat
  encode : α → List UInt8
  decode : List UInt8 → α
  length_encode : ∀ a, (encode a).length = width
  decode_encode : ∀ a, decode (encode a) = a

namespace Format
variable {α : Type}

/-- An unsigned integer of 8 bytes. -/
def word : Format UInt64 where
  width := 8
  encode a := bytesOf 8 a.toNat
  decode bytes := UInt64.ofNat (valueOf bytes)
  length_encode a := length_bytesOf 8 a.toNat
  decode_encode a := by rw [valueOf_bytesOf a.toNat_lt, UInt64.ofNat_toNat]

def byte : Format UInt8 where
  width := 1
  encode a := [a]
  decode bytes := bytes.headD 0
  length_encode _ := rfl
  decode_encode _ := rfl

/-- One value after another. -/
def pair {β : Type} (f : Format α) (g : Format β) : Format (α × β) where
  width := f.width + g.width
  encode x := f.encode x.1 ++ g.encode x.2
  decode bytes := (f.decode (bytes.take f.width), g.decode (bytes.drop f.width))
  length_encode x := by rw [List.length_append, f.length_encode, g.length_encode]
  decode_encode x := by
    rw [List.take_left' (f.length_encode x.1), List.drop_left' (f.length_encode x.1), f.decode_encode, g.decode_encode]

/-- Values of another type by way of an encoding into this one. -/
def via {β : Type} (f : Format α) (into : β → α) (back : α → β) (inverse : ∀ b, back (into b) = b) : Format β where
  width := f.width
  encode b := f.encode (into b)
  decode bytes := back (f.decode bytes)
  length_encode b := f.length_encode (into b)
  decode_encode b := by rw [f.decode_encode, inverse]

/-- Elements one after the other. -/
def encodeAll (f : Format α) (as : List α) : List UInt8 := as.flatMap f.encode

def decodeAll (f : Format α) : Nat → List UInt8 → List α
  | 0, _ => []
  | n + 1, bytes => f.decode (bytes.take f.width) :: decodeAll f n (bytes.drop f.width)

theorem length_encodeAll (f : Format α) (as : List α) : (f.encodeAll as).length = f.width * as.length := by
  induction as with
  | nil => rfl
  | cons a as ih =>
    rw [encodeAll, List.flatMap_cons, List.length_append, f.length_encode, List.length_cons, Nat.mul_succ, Nat.add_comm]
    exact congrArg (· + f.width) ih

theorem length_decodeAll (f : Format α) (n : Nat) (bytes : List UInt8) : (f.decodeAll n bytes).length = n := by
  induction n generalizing bytes with
  | zero => rfl
  | succ n ih => rw [decodeAll, List.length_cons, ih]

theorem decodeAll_encodeAll (f : Format α) (as : List α) : f.decodeAll as.length (f.encodeAll as) = as := by
  induction as with
  | nil => rfl
  | cons a as ih =>
    rw [List.length_cons, decodeAll, encodeAll, List.flatMap_cons, List.take_left' (f.length_encode a),
      List.drop_left' (f.length_encode a), f.decode_encode]
    exact congrArg (a :: ·) ih

/-- An array of fixed length. -/
def array (n : Nat) (f : Format α) : Format (Fin n → α) where
  width := f.width * n
  encode v := f.encodeAll (List.ofFn v)
  decode bytes i := (f.decodeAll n bytes).get (i.cast (f.length_decodeAll n bytes).symm)
  length_encode v := by rw [length_encodeAll, List.length_ofFn]
  decode_encode v := by
    have whole : f.decodeAll n (f.encodeAll (List.ofFn v)) = List.ofFn v := by
      have decoded := f.decodeAll_encodeAll (List.ofFn v)
      rwa [List.length_ofFn] at decoded
    funext i
    rw [List.get_eq_getElem]
    simp only [whole, List.getElem_ofFn]
    rfl

@[simp] theorem word_width : word.width = 8 := rfl

@[simp] theorem array_width (n : Nat) (f : Format α) : (array n f).width = f.width * n := rfl

end Format

namespace Memory
variable {α β : Type} {m m' : Memory} {p q : Nat} {a : α}

/-- `Write` of a value. -/
def put (f : Format α) (p : Nat) (a : α) (m : Memory) : Memory := m.store p (f.encode a)

/-- `Read` of a value. -/
def get (f : Format α) (p : Nat) (m : Memory) : α := f.decode (m.load p f.width)

theorem get_put (f : Format α) : (m.put f p a).get f p = a := by
  have loaded : (m.store p (f.encode a)).load p (f.encode a).length = f.encode a := load_store
  rw [f.length_encode] at loaded
  rw [get, put, loaded, f.decode_encode]

theorem get_store_apart {data : List UInt8} (g : Format β) (apart : q + g.width ≤ p ∨ p + data.length ≤ q) :
    (m.store p data).get g q = m.get g q := by
  rw [get, load_store_apart apart, get]

theorem get_put_apart (f : Format α) (g : Format β) (apart : q + g.width ≤ p ∨ p + f.width ≤ q) :
    (m.put f p a).get g q = m.get g q :=
  get_store_apart g (by rwa [f.length_encode])

theorem put_outside (f : Format α) (away : q < p ∨ p + f.width ≤ q) : m.put f p a q = m q :=
  store_outside (by rwa [f.length_encode])

/-- Memories that agree on a region. -/
def Agree (p size : Nat) (m m' : Memory) : Prop := ∀ q, p ≤ q → q < p + size → m q = m' q

theorem Agree.load {size len : Nat} (agree : Agree p size m m') (inside : p ≤ q ∧ q + len ≤ p + size) :
    m.load q len = m'.load q len := by
  apply List.map_congr_left
  intro i member
  rw [List.mem_range] at member
  exact agree _ (by omega) (by omega)

theorem Agree.get {size : Nat} (agree : Agree p size m m') (f : Format α)
    (inside : p ≤ q ∧ q + f.width ≤ p + size) : m.get f q = m'.get f q := by
  rw [Memory.get, agree.load inside, Memory.get]

theorem Agree.mono {size len : Nat} (agree : Agree p size m m') (inside : p ≤ q ∧ q + len ≤ p + size) :
    Agree q len m m' := fun r above below => agree r (by omega) (by omega)

end Memory

open Memory (Agree)

/-- What `serialize` and `deserialize` of an object have to do: `serialize` leaves everything outside
`size` bytes alone, and `deserialize` rebuilds the object from the bytes inside. -/
structure Serial {α : Type} (serialize : α → Nat → Memory → Memory) (deserialize : Nat → Memory → α) (size : Nat)
    (Valid : α → Prop) : Prop where
  outside : ∀ {a p m q}, Valid a → q < p ∨ p + size ≤ q → serialize a p m q = m q
  rebuilds : ∀ {a p m m'}, Valid a → Agree p size m' (serialize a p m) → deserialize p m' = a

/-- Serialises objects one after the other. -/
def serializeAll {α : Type} (serialize : α → Nat → Memory → Memory) (size : Nat) : List α → Nat → Memory → Memory
  | [], _, m => m
  | a :: as, p, m => serializeAll serialize size as (p + size) (serialize a p m)

def deserializeAll {α : Type} (deserialize : Nat → Memory → α) (size : Nat) : Nat → Nat → Memory → List α
  | 0, _, _ => []
  | n + 1, p, m => deserialize p m :: deserializeAll deserialize size n (p + size) m

namespace Serial
variable {α : Type} {serialize : α → Nat → Memory → Memory} {deserialize : Nat → Memory → α} {size p q : Nat}
  {Valid : α → Prop} {as : List α} {m m' : Memory}

theorem length_deserializeAll (n : Nat) : (deserializeAll deserialize size n p m).length = n := by
  induction n generalizing p with
  | zero => rfl
  | succ n ih => rw [deserializeAll, List.length_cons, ih]

/-- The address of each object in the sequence. -/
theorem serializeAll_eq (serialize : α → Nat → Memory → Memory) (size p : Nat) (as : List α) (k : Nat) (m : Memory) :
    serializeAll serialize size as (p + size * k) m =
      (as.zipIdx k).foldl (fun m x => serialize x.1 (p + size * x.2) m) m := by
  induction as generalizing k m with
  | nil => rfl
  | cons a as ih =>
    rw [serializeAll, List.zipIdx_cons, List.foldl_cons, ← ih, Nat.mul_succ, Nat.add_assoc]

theorem outside_all (serial : Serial serialize deserialize size Valid) (valid : ∀ a ∈ as, Valid a)
    (away : q < p ∨ p + size * as.length ≤ q) : serializeAll serialize size as p m q = m q := by
  induction as generalizing p m with
  | nil => rfl
  | cons a as ih =>
    rw [List.length_cons, Nat.mul_succ] at away
    rw [serializeAll, ih (fun b member => valid b (List.mem_cons_of_mem _ member)) (by omega),
      serial.outside (valid a List.mem_cons_self) (by omega)]

theorem rebuilds_all (serial : Serial serialize deserialize size Valid) (valid : ∀ a ∈ as, Valid a)
    (agree : Agree p (size * as.length) m' (serializeAll serialize size as p m)) :
    deserializeAll deserialize size as.length p m' = as := by
  induction as generalizing p m with
  | nil => rfl
  | cons a as ih =>
    have others : ∀ b ∈ as, Valid b := fun b member => valid b (List.mem_cons_of_mem _ member)
    rw [List.length_cons, Nat.mul_succ] at agree
    rw [List.length_cons, deserializeAll]
    have first : Agree p size m' (serialize a p m) := fun r above below => by
      rw [agree r above (by omega), serializeAll, serial.outside_all others (by omega)]
    have rest : Agree (p + size) (size * as.length) m' (serializeAll serialize size as (p + size) (serialize a p m)) :=
      agree.mono (by omega)
    rw [serial.rebuilds (valid a List.mem_cons_self) first, ih others rest]

end Serial

end Gam

import Mathlib.Data.List.Basic
import Mathlib.Tactic.Ring

/-!
# Records on the wire

Integers as little-endian bytes, and records written as a list of fixed-width integer fields. A
`Layout` gives the width of each field and how it is read from and written to a record.
-/

namespace Gam

/-- The lowest `width` bytes of `n`, lowest first. -/
def bytesOf : Nat → Nat → List UInt8
  | 0, _ => []
  | width + 1, n => UInt8.ofNat n :: bytesOf width (n / 256)

/-- The number that a list of bytes, lowest first, stands for. -/
def valueOf : List UInt8 → Nat
  | [] => 0
  | b :: rest => b.toNat + 256 * valueOf rest

@[simp] theorem length_bytesOf (width n : Nat) : (bytesOf width n).length = width := by
  induction width generalizing n with
  | zero => rfl
  | succ width ih => simp [bytesOf, ih]

theorem valueOf_bytesOf {width n : Nat} (small : n < 256 ^ width) : valueOf (bytesOf width n) = n := by
  induction width generalizing n with
  | zero =>
    rw [Nat.pow_zero] at small
    simp only [bytesOf, valueOf]
    omega
  | succ width ih =>
    have rest : n / 256 < 256 ^ width := by
      rw [Nat.pow_succ] at small
      omega
    have low : (UInt8.ofNat n).toNat = n % 256 := by simp
    rw [bytesOf, valueOf, ih rest, low]
    omega

/-- Fields of a record that are integers of a fixed number of bytes. What is written is read back,
and writing one field leaves the others. -/
structure Layout (Field Record : Type) where
  width : Field → Nat
  get : Field → Record → Nat
  set : Field → Nat → Record → Record
  get_lt : ∀ f r, get f r < 256 ^ width f
  get_set : ∀ f r r', get f (set f (get f r') r) = get f r'
  get_set_other : ∀ f g n r, f ≠ g → get f (set g n r) = get f r

namespace Layout

variable {Field Record : Type} (L : Layout Field Record)

/-- The bytes of the given fields of a record. -/
def encode (fields : List Field) (r : Record) : List UInt8 :=
  fields.flatMap fun f => bytesOf (L.width f) (L.get f r)

/-- Reads the given fields into a record. The second component is what follows them. -/
def decode : List Field → Record → List UInt8 → Record × List UInt8
  | [], r, bytes => (r, bytes)
  | f :: fields, r, bytes =>
    decode fields (L.set f (valueOf (bytes.take (L.width f))) r) (bytes.drop (L.width f))

variable {fields : List Field} {r r' : Record} {rest : List UInt8}

theorem decode_encode_rest : (L.decode fields r (L.encode fields r' ++ rest)).2 = rest := by
  induction fields generalizing r with
  | nil => rfl
  | cons f fields ih =>
    simp only [encode, List.flatMap_cons, decode, List.append_assoc]
    rw [List.drop_left' (length_bytesOf ..)]
    exact ih

/-- The field that is read next gets the value that was written. -/
theorem take_encode (f : Field) : valueOf ((L.encode (f :: fields) r' ++ rest).take (L.width f)) = L.get f r' := by
  simp only [encode, List.flatMap_cons, List.append_assoc]
  rw [List.take_left' (length_bytesOf ..), valueOf_bytesOf (L.get_lt f r')]

/-- Each field that is read has the value that was written, also when it is written twice. -/
theorem get_decode_encode {f : Field} (listed : f ∈ fields ∨ L.get f r = L.get f r') :
    L.get f (L.decode fields r (L.encode fields r' ++ rest)).1 = L.get f r' := by
  classical
  induction fields generalizing r with
  | nil => exact listed.resolve_left (by simp)
  | cons g fields ih =>
    rw [decode, take_encode]
    have next : (L.encode (g :: fields) r' ++ rest).drop (L.width g) =
        L.encode fields r' ++ rest := by
      simp only [encode, List.flatMap_cons, List.append_assoc]
      rw [List.drop_left' (length_bytesOf ..)]
    rw [next]
    apply ih
    by_cases same : f = g
    · subst same
      exact Or.inr (L.get_set f r r')
    · rcases listed with member | held
      · exact Or.inl (List.mem_of_ne_of_mem same member)
      · exact Or.inr ((L.get_set_other f g _ _ same).trans held)

end Layout

end Gam

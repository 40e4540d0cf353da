import Mathlib.Data.Nat.Digits.Lemmas

/-!
# Decimal text

Integers printed as by `printf`, and the formatted input of a `stringstream`: an optional sign and the
digits up to the first other character, behind any white space. A number outside of the type that is
read makes the input fail.
-/

namespace Gam
variable {low high z : Int} {delim : UInt8}

def zeroChar : UInt8 := 48

def minusChar : UInt8 := 45

def plusChar : UInt8 := 43

def isDigit (c : UInt8) : Bool := decide (48 ≤ c.toNat ∧ c.toNat ≤ 57)

/-- `isspace`: the blank, and tab to carriage return. -/
def isSpace (c : UInt8) : Bool := decide (c.toNat = 32 ∨ (9 ≤ c.toNat ∧ c.toNat ≤ 13))

def digitChar (d : Nat) : UInt8 := UInt8.ofNat (48 + d)

/-- `%u` and `%lu`. -/
def printNat (n : Nat) : List UInt8 :=
  if n = 0 then [zeroChar] else (Nat.digits 10 n).reverse.map digitChar

/-- `%d` and `%ld`. -/
def printInt (z : Int) : List UInt8 :=
  if z < 0 then minusChar :: printNat z.natAbs else printNat z.natAbs

def readDigits (text : List UInt8) : Nat := text.foldl (fun n c => 10 * n + (c.toNat - 48)) 0

/-- The sign in front of a number. -/
def readSign : List UInt8 → Bool × List UInt8
  | c :: text => if c = minusChar then (true, text) else if c = plusChar then (false, text) else (false, c :: text)
  | [] => (false, [])

/-- `stream >> item` for an integer type from `low` to `high`: the number, and what is left of the text. -/
def extract (low high : Int) (text : List UInt8) : Option (Int × List UInt8) :=
  let (negative, text) := readSign (text.dropWhile isSpace)
  let digits := text.takeWhile isDigit
  let number : Int := if negative then -(readDigits digits : Int) else readDigits digits
  if digits ≠ [] ∧ low ≤ number ∧ number ≤ high then some (number, text.dropWhile isDigit) else none

/-- One character is skipped if it is the delimiter. -/
def skipDelim (delim : UInt8) : List UInt8 → List UInt8
  | c :: text => if c = delim then text else c :: text
  | [] => []

theorem readSign_length (text : List UInt8) : (readSign text).2.length ≤ text.length := by
  cases text with
  | nil => exact Nat.le_refl _
  | cons c text =>
    rw [readSign]
    split
    · exact Nat.le_succ _
    · split
      · exact Nat.le_succ _
      · exact Nat.le_refl _

theorem skipDelim_length (delim : UInt8) (text : List UInt8) : (skipDelim delim text).length ≤ text.length := by
  cases text with
  | nil => exact Nat.le_refl _
  | cons c text =>
    rw [skipDelim]
    split
    · exact Nat.le_succ _
    · exact Nat.le_refl _

/-- Input that succeeds takes at least one character. -/
theorem extract_length {text rest : List UInt8} (read : extract low high text = some (z, rest)) :
    rest.length < text.length := by
  have space := (List.dropWhile_suffix isSpace (l := text)).length_le
  have sign := readSign_length (text.dropWhile isSpace)
  cases signed : readSign (text.dropWhile isSpace) with
  | mk negative text' =>
    rw [signed] at sign
    rw [extract, signed] at read
    dsimp only at read sign
    obtain ⟨found, taken⟩ := Option.ite_none_right_eq_some.mp read
    have parts := congrArg List.length (List.takeWhile_append_dropWhile (p := isDigit) (l := text'))
    have some := List.length_pos_iff.mpr found.1
    rw [List.length_append] at parts
    rw [← (Prod.mk.inj (Option.some.inj taken)).2]
    omega

/-- `Split`. -/
def split (low high : Int) (delim : UInt8) (text : List UInt8) : List Int :=
  match read : extract low high text with
  | none => []
  | some (z, rest) => z :: split low high delim (skipDelim delim rest)
termination_by text.length
decreasing_by exact Nat.lt_of_le_of_lt (skipDelim_length delim rest) (extract_length read)

theorem isDigit_digitChar {d : Nat} (small : d < 10) : isDigit (digitChar d) = true := by
  interval_cases d <;> rfl

theorem printNat_digits (n : Nat) : ∀ c ∈ printNat n, isDigit c = true := by
  unfold printNat
  split
  · simp only [List.mem_singleton, forall_eq]
    rfl
  · intro c member
    obtain ⟨d, listed, rfl⟩ := List.mem_map.mp member
    exact isDigit_digitChar (Nat.digits_lt_base (by decide) (List.mem_reverse.mp listed))

/-- The number of characters. -/
theorem length_printNat (n : Nat) : (printNat n).length = Nat.log 10 n + 1 := by
  unfold printNat
  split
  · next zero => rw [zero, Nat.log_zero_right]; rfl
  · next nonzero => rw [List.length_map, List.length_reverse, Nat.length_digits 10 n (by decide) nonzero]

end Gam

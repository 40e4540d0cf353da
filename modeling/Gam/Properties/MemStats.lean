import Gam.Wire.MemStats

/-! What the master knows of its workers reaches the other workers. -/

namespace Gam.Wire

/-- The characters of a printed number. -/
def intWidth (z : Int) : Nat := (if z < 0 then 1 else 0) + (Nat.log 10 z.natAbs + 1)

theorem length_printInt (z : Int) : (printInt z).length = intWidth z := by
  unfold printInt intWidth
  split
  · rw [List.length_cons, length_printNat, Nat.add_comm]
  · rw [length_printNat, Nat.zero_add]

namespace MemStat

def numbers (r : MemStat) : List Int := [r.qp.toNat, r.wid.toInt, r.total.toInt, r.free.toInt]

/-- The characters of the four numbers. -/
def width (r : MemStat) : Nat := (r.numbers.map intWidth).sum

end MemStat

theorem printNat_eq_printInt (n : Nat) : printNat n = printInt n := by
  rw [printInt, if_neg (by omega), Int.natAbs_natCast]

/-- The delimiters of a record. -/
def StatsKind.delims : StatsKind → Nat
  | broadcast => 3
  | reply => 4

theorem StatsKind.length_print (kind : StatsKind) (r : MemStat) : (kind.print r).length = r.width + kind.delims := by
  cases kind <;> simp [print, delims, MemStat.width, MemStat.numbers, printNat_eq_printInt, length_printInt] <;> omega

theorem StatsKind.length_text (kind : StatsKind) (records : List MemStat) :
    (records.flatMap kind.print).length = (records.map fun r => r.width + kind.delims).sum := by
  rw [List.length_flatMap]
  exact congrArg List.sum (List.map_congr_left fun r _ => kind.length_print r)

theorem printNat_nonzero (n : Nat) : ∀ c ∈ printNat n, c ≠ 0 := by
  rintro c member rfl
  exact absurd (printNat_digits n 0 member) (by decide)

theorem printInt_nonzero (z : Int) : ∀ c ∈ printInt z, c ≠ 0 := by
  have digits := printNat_nonzero z.natAbs
  unfold printInt
  split
  · rw [List.forall_mem_cons]
    exact ⟨by decide, digits⟩
  · exact digits

/-- There is no zero byte inside of the text. -/
theorem StatsKind.print_nonzero (kind : StatsKind) (r : MemStat) : ∀ c ∈ kind.print r, c ≠ 0 := by
  have delim : splitChar ≠ 0 := by decide
  have text := List.forall_mem_append.mpr ⟨printNat_nonzero r.qp.toNat, List.forall_mem_cons.mpr ⟨delim,
    List.forall_mem_append.mpr ⟨printInt_nonzero r.wid.toInt, List.forall_mem_cons.mpr ⟨delim,
      List.forall_mem_append.mpr ⟨printInt_nonzero r.total.toInt, List.forall_mem_cons.mpr ⟨delim,
        printInt_nonzero r.free.toInt⟩⟩⟩⟩⟩⟩
  cases kind with
  | broadcast => exact text
  | reply => exact List.forall_mem_append.mpr ⟨text, by simpa using delim⟩

theorem StatsKind.payload_eq (kind : StatsKind) {wr : WorkRequest} (op : wr.op = kind.op) :
    wr.payload = wr.data.takeWhile (· ≠ 0) := by
  rw [WorkRequest.payload, op]
  cases kind <;> rfl

theorem StatsKind.length_ser (kind : StatsKind) {wr : WorkRequest} (op : wr.op = kind.op) :
    wr.ser.length = 12 + wr.payload.length := by
  have fields : (layout.encode (serFields wr.op) wr).length = 8 := by
    rw [op]
    cases kind <;> rfl
  rw [WorkRequest.ser, List.length_append, List.length_append, length_bytesOf, fields]

end Gam.Wire

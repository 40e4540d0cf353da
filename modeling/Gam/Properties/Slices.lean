import Gam.Slices

/-!
# A request is copied byte by byte

The loops and the handlers of replies cut the range of a request in the same slices, one for each block.
Together they move every byte of the range and no other.
-/

namespace Gam.Slices

/-- The range is not empty and lies in the memory of one node, which a process can address. -/
structure InNode (wr : Request) (memory : Nat) : Prop where
  nonempty : 0 < wr.size.toNat
  inside : (off wr.addr).toNat + wr.size.toNat ≤ memory
  addressable : memory ≤ 2 ^ 47

/-- The range ends before the addresses of the last node do. -/
def Fits (wr : Request) : Prop := wr.addr.toNat + wr.size.toNat + blockSize ≤ 2 ^ 64

theorem toNat_off (g : Word) : (off g).toNat = g.toNat % 2 ^ 48 := by
  rw [off, BitVec.toNat_and]
  exact Nat.and_two_pow_sub_one_eq_mod g.toNat 48

theorem InNode.fits {wr : Request} {memory : Nat} (range : InNode wr memory) : Fits wr := by
  have inside := range.inside
  have addressable := range.addressable
  rw [toNat_off] at inside
  rw [Fits, blockSize]
  omega

/-- A block that the range of a request meets. -/
structure Meets (wr : Request) (i : Word) : Prop where
  aligned : i.toNat % blockSize = 0
  begins : i.toNat < wr.addr.toNat + wr.size.toNat
  ends : wr.addr.toNat < i.toNat + blockSize

/-- Where a byte of the global memory is. -/
def Store.place (store : Store) (g : Word) : Word := store.slice (toBlock g) g

/-- The place that is written and the one that is read. -/
def Op.move (op : Op) (caller place : Word) : Word × Word :=
  match op with
  | .read => (caller, place)
  | .write => (place, caller)

/-- What is written and what is read for byte `k` of the range. -/
def Request.move (wr : Request) (store : Store) (k : Word) : Word × Word := wr.op.move (wr.ptr + k) (store.place (wr.addr + k))

/-- The buffer of the caller lies apart from the blocks, and the blocks from each other. -/
structure Laid (wr : Request) (store : Store) : Prop where
  apart : ∀ k < wr.size, ∀ l < wr.size, wr.ptr + k ≠ store.place (wr.addr + l)
  distinct : ∀ k < wr.size, ∀ l < wr.size, store.place (wr.addr + k) = store.place (wr.addr + l) → k = l

section words

variable {wr : Request} {store : Store} {i gs j a s : Word}

end words

/-! ## The slice of a block -/

/-- The first address of a block that belongs to the request. -/
def first (wr : Request) (i : Word) : Word := if wr.addr < i then i else wr.addr

/-- How much of a block belongs to the request. -/
def length (wr : Request) (i : Word) : Word :=
  BitVec.ofNat 64 (min (i.toNat + blockSize) (wr.addr.toNat + wr.size.toNat) - max i.toNat wr.addr.toNat)

section block

variable {wr : Request} {store : Store} {i a s : Word}

end block

/-! ## The loop -/

section loop

variable {wr : Request} {store : Store} {turn : Word → Turn} {i : Word} {out : Outcome} {outs : List Outcome}

/-- What the loop leaves behind from a block on: slices of blocks of the range, and all of them when it comes
to its end. -/
structure Cut (store : Store) (wr : Request) (i : Word) (out : Outcome) : Prop where
  copied : ∀ c ∈ out.copies, ∃ b, Meets wr b ∧ c = loopCopy store wr b
  asked : ∀ r ∈ out.pending, ∃ b, Meets wr b ∧ r = blockRequest store b
  complete : out.finished = true → ∀ b, Meets wr b → i.toNat ≤ b.toNat → loopCopy store wr b ∈ out.copies ∨ blockRequest store b ∈ out.pending

/-- A block is served and the loop goes on with the next one. -/
theorem Cut.next {copies : List Copy} {pending : List BlockRequest} (cut : Cut store wr (nextBlock i) out)
    (further : (nextBlock i).toNat = i.toNat + blockSize) (aligned : i.toNat % blockSize = 0)
    (copied : ∀ c ∈ copies, c ∈ out.copies ∨ (Meets wr i ∧ c = loopCopy store wr i))
    (asked : ∀ r ∈ pending, r ∈ out.pending ∨ (Meets wr i ∧ r = blockRequest store i))
    (more : ∀ c ∈ out.copies, c ∈ copies) (more' : ∀ r ∈ out.pending, r ∈ pending)
    (served : loopCopy store wr i ∈ copies ∨ blockRequest store i ∈ pending) : Cut store wr i ⟨copies, pending, out.finished⟩ := by
  refine ⟨fun c member => ?_, fun r member => ?_, fun finished b meets later => ?_⟩
  · rcases copied c member with old | ⟨meets, new⟩
    · exact cut.copied c old
    · exact ⟨i, meets, new⟩
  · rcases asked r member with old | ⟨meets, new⟩
    · exact cut.asked r old
    · exact ⟨i, meets, new⟩
  · by_cases here : b = i
    · exact here ▸ served
    · have other : b.toNat ≠ i.toNat := fun same => here (BitVec.eq_of_toNat_eq same)
      have aligned' := meets.aligned
      have beyond : (nextBlock i).toNat ≤ b.toNat := by
        rw [further]
        rw [blockSize] at *
        omega
      rcases cut.complete finished b meets beyond with old | old
      · exact Or.inl (more _ old)
      · exact Or.inr (more' _ old)

end loop

/-! ## Requests -/

section moves

variable {wr : Request} {store : Store} {k l : Word}

/-- No two bytes are written to the same place. -/
theorem Laid.written_inj (laid : Laid wr store) (inside : k < wr.size) (inside' : l < wr.size)
    (same : (wr.move store k).1 = (wr.move store l).1) : k = l := by
  rw [Request.move, Request.move] at same
  cases op : wr.op with
  | read => rw [op] at same; exact add_left_cancel same
  | write => rw [op] at same; exact laid.distinct k inside l inside' same

/-- What is written is not read. -/
theorem Laid.written_ne_read (laid : Laid wr store) (inside : k < wr.size) (inside' : l < wr.size) :
    (wr.move store k).1 ≠ (wr.move store l).2 := by
  rw [Request.move, Request.move]
  cases wr.op with
  | read => exact laid.apart k inside l inside'
  | write => exact (laid.apart l inside' k inside).symm

/-- Copies that move the bytes of the range and no others leave the right memory. -/
theorem Laid.run (laid : Laid wr store) {copies : List Copy}
    (moves : ∀ a s, (∃ c ∈ copies, c.transfer a = some s) ↔ ∃ k < wr.size, (a, s) = wr.move store k) (image : Word → UInt8) :
    (∀ k < wr.size, Transfer.run image (copies.map Copy.transfer) (wr.move store k).1 = image (wr.move store k).2) ∧
    ∀ a, (∀ k < wr.size, a ≠ (wr.move store k).1) → Transfer.run image (copies.map Copy.transfer) a = image a := by
  refine ⟨fun k inside => Transfer.run_of_some ?_ ?_ ?_, fun a outside => Transfer.run_of_none ?_⟩
  · intro copy member
    obtain ⟨c, listed, rfl⟩ := List.mem_map.mp member
    cases moved : c.transfer (wr.move store k).1 with
    | none => exact Or.inl rfl
    | some s =>
      obtain ⟨l, inside', same⟩ := (moves _ _).mp ⟨c, listed, moved⟩
      have written : (wr.move store k).1 = (wr.move store l).1 := by rw [← same]
      obtain rfl := laid.written_inj inside inside' written
      exact Or.inr (by rw [← same])
  · obtain ⟨c, listed, moved⟩ := (moves (wr.move store k).1 (wr.move store k).2).mpr ⟨k, inside, rfl⟩
    exact ⟨c.transfer, List.mem_map_of_mem listed, moved⟩
  · intro copy member
    obtain ⟨c, listed, rfl⟩ := List.mem_map.mp member
    cases moved : c.transfer (wr.move store k).2 with
    | none => rfl
    | some s =>
      obtain ⟨l, inside', same⟩ := (moves _ _).mp ⟨c, listed, moved⟩
      exact absurd (by rw [← same]) (laid.written_ne_read inside' inside)
  · intro copy member
    obtain ⟨c, listed, rfl⟩ := List.mem_map.mp member
    cases moved : c.transfer a with
    | none => rfl
    | some s =>
      obtain ⟨k, inside, same⟩ := (moves _ _).mp ⟨c, listed, moved⟩
      exact absurd (by rw [← same]) (outside k inside)

end moves

end Gam.Slices

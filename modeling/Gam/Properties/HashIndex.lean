import Gam.Database.IndexInsert
import Gam.Properties.AddrArray

/-! Searches and iterations in a hash index find what was inserted. -/

namespace Gam.Database.HashIndex

open Function
variable {index : HashIndex} {slots : Set (Nat × Nat)} {calls : List (UInt64 × UInt64)} {addr : Loc → Nat}
  {words : Loc → List Nat} {chain : Nat → List UInt64} {h h' : Heap} {fuel : Nat}

/-- A sequence of insertions. -/
theorem Layout.insertAll (supply : Supply) (garbage : Nat → Nat → UInt64) (more : List (UInt64 × UInt64))
    (layout : Layout index slots calls addr words chain h) (enough : calls.length + more.length < fuel) :
    insertAll supply garbage fuel more index h = .error .memory ∨
      ∃ rets index' addr' words' chain' h', insertAll supply garbage fuel more index h = .ok (rets, index', h') ∧
        Layout index' slots (calls ++ more) addr' words' chain' h' ∧ rets.length = more.length ∧
        ∀ before call after, more = before ++ call :: after →
          rets[before.length]? = some (decide (call.1 ∉ (calls ++ before).map Prod.fst)) := by
  induction more generalizing index calls addr words chain h with
  | nil =>
    refine Or.inr ⟨[], index, addr, words, chain, h, rfl, (List.append_nil calls).symm ▸ layout, rfl, ?_⟩
    intro before call after split
    simp at split
  | cons call more ih =>
    rw [List.length_cons] at enough
    rw [HashIndex.insertAll]
    rcases layout.insertRecord supply garbage call.1 call.2 (Nat.lt_of_le_of_lt (Nat.le_add_right ..) enough) with
      failed | ⟨index', addr', words', chain', h', ran, layout'⟩
    · left
      simp only [failed, bind, Except.bind]
    · simp only [ran, bind, Except.bind]
      rcases ih layout' (by rw [List.length_append, List.length_singleton]; omega) with
        failed | ⟨rets, index'', addr'', words'', chain'', h'', ran', layout'', length, answers⟩
      · left
        simp only [failed]
      · refine Or.inr ⟨decide (inserted call.1 calls = []) :: rets, index'', addr'', words'', chain'', h'', ?_, ?_, ?_, ?_⟩
        · simp only [ran']
          rfl
        · simpa using layout''
        · rw [List.length_cons, List.length_cons, length]
        · intro before call' after split
          cases before with
          | nil =>
            obtain ⟨rfl, -⟩ := List.cons.inj split
            simp only [List.length_nil, List.getElem?_cons_zero, List.append_nil, Option.some.injEq, decide_eq_decide]
            rw [← inserted_pos, List.length_pos_iff, not_not]
          | cons first before =>
            obtain ⟨rfl, rest⟩ := List.cons.inj split
            have answer := answers before call' after rest
            rwa [List.append_assoc] at answer

/-- What the bucket array provides: the slots of its tree and a word per bucket, found by way of the
slots in every heap. -/
def Placed (buckets : GAddrArray) (count : Nat) (slots : Set (Nat × Nat)) (addr : Loc → Nat) (words : Loc → List Nat)
    (h : Heap) : Prop :=
  h.Ok ∧ Objects h { x | Alive slots count [] x } addr words ∧ (∀ b, (words (.header b)).length = 1) ∧
    ∀ g : Heap, (∀ k i, (k, i) ∈ slots →
        g.readWords (addr (.slot k i)) (words (.slot k i)).length = words (.slot k i)) →
      ∀ b < count, buckets.getElementGAddr b g = some (addr (.header b))

/-- An allocator with room for 16384 bytes at each address. -/
def spaced : Supply := ⟨fun n => 16384 * (n + 1), fun _ _ => 0⟩

end Gam.Database.HashIndex

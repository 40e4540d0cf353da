import Mathlib.Data.List.Forall2

/-!
# Batches of messages

Messages are sent in one packet with a separator between two of them. The receiver decodes one after the
other and each time goes on behind what it has consumed and the separator. When the decoder consumes what
the encoder wrote, every message of a batch is recovered.
-/

namespace Gam.Batch

variable {σ α β : Type}

/-- The loop over a packet of `size` symbols, from `consumed` on. -/
def decodeFrom (decode : List σ → β × Nat) (buf : List σ) (size consumed : Nat) : List β :=
  if consumed < size then
    let (message, len) := decode (buf.drop consumed)
    message :: decodeFrom decode buf size (consumed + len + 1)
  else []
termination_by size - consumed

/-- The messages in one packet. -/
def pack (separator : σ) (encode : α → List σ) (messages : List α) : List σ := [separator].intercalate (messages.map encode)

/-- A message is recovered from its encoding and what follows it, and no more is consumed. -/
def Reads (separator : σ) (encode : α → List σ) (decode : List σ → β × Nat) (same : α → β → Prop) (message : α) : Prop :=
  encode message ≠ [] ∧ ∀ rest, ∃ out, decode (encode message ++ separator :: rest) = (out, (encode message).length) ∧ same message out

variable {separator : σ} {encode : α → List σ} {decode : List σ → β × Nat} {same : α → β → Prop}

theorem pack_cons (separator : σ) (encode : α → List σ) (message next : α) (rest : List α) :
    pack separator encode (message :: next :: rest) = encode message ++ separator :: pack separator encode (next :: rest) := by
  simp [pack, List.intercalate_cons_cons]

/-- One turn of the loop. -/
theorem decodeFrom_cons {buf : List σ} {size consumed len : Nat} {out : β} (inside : consumed < size)
    (read : decode (buf.drop consumed) = (out, len)) :
    decodeFrom decode buf size consumed = out :: decodeFrom decode buf size (consumed + len + 1) := by
  rw [decodeFrom, if_pos inside, read]

/-- The turn that is at a message. -/
theorem decodeFrom_step {message : α} (reads : Reads separator encode decode same message) (before later : List σ) (size : Nat)
    (inside : before.length < size) :
    ∃ out, same message out ∧ decodeFrom decode (before ++ (encode message ++ separator :: later)) size before.length =
      out :: decodeFrom decode (before ++ (encode message ++ separator :: later)) size (before.length + (encode message).length + 1) := by
  obtain ⟨out, read, equal⟩ := reads.2 later
  refine ⟨out, equal, decodeFrom_cons inside ?_⟩
  rw [List.drop_left, read]

/-- The messages are recovered from wherever in the buffer they start. -/
theorem decodeFrom_pack {messages : List α} (reads : ∀ m ∈ messages, Reads separator encode decode same m)
    (before old : List σ) : ∃ outs, decodeFrom decode (before ++ (pack separator encode messages ++ separator :: old))
        (before.length + (pack separator encode messages).length) before.length = outs ∧ List.Forall₂ same messages outs := by
  induction messages generalizing before with
  | nil =>
    refine ⟨[], ?_, .nil⟩
    rw [decodeFrom, if_neg (by simp [pack])]
  | cons message rest ih =>
    have own := reads message List.mem_cons_self
    have positive : 0 < (encode message).length := List.length_pos_iff.mpr own.1
    cases rest with
    | nil =>
      have single : pack separator encode [message] = encode message := by simp [pack]
      rw [single]
      obtain ⟨out, equal, stepped⟩ := decodeFrom_step own before old (before.length + (encode message).length) (by omega)
      refine ⟨[out], ?_, .cons equal .nil⟩
      rw [stepped, decodeFrom, if_neg (by omega)]
    | cons next rest =>
      obtain ⟨outs, looped, others⟩ := ih (fun m member => reads m (List.mem_cons_of_mem _ member))
        (before ++ (encode message ++ [separator]))
      rw [pack_cons]
      generalize pack separator encode (next :: rest) = later at looped
      obtain ⟨out, equal, stepped⟩ := decodeFrom_step own before (later ++ separator :: old)
        (before.length + (encode message ++ separator :: later).length) (by simp only [List.length_append]; omega)
      refine ⟨out :: outs, ?_, .cons equal others⟩
      -- the rest of the loop starts behind this message and the separator
      have buffer : before ++ (encode message ++ separator :: later ++ separator :: old) =
          before ++ (encode message ++ separator :: (later ++ separator :: old)) := by simp
      have shifted : before ++ (encode message ++ [separator]) ++ (later ++ separator :: old) =
          before ++ (encode message ++ separator :: (later ++ separator :: old)) := by simp
      have size : (before ++ (encode message ++ [separator])).length + later.length =
          before.length + (encode message ++ separator :: later).length := by
        simp only [List.length_append, List.length_cons, List.length_nil]
        omega
      have start : (before ++ (encode message ++ [separator])).length = before.length + (encode message).length + 1 := by
        simp only [List.length_append, List.length_singleton]
        omega
      rw [shifted, size, start] at looped
      rw [buffer, stepped, looped]

/-- Outputs that are all there are the outputs under `some`. -/
theorem exists_of_forall₂_some {γ : Type} {same : α → γ → Prop} {messages : List α} {outs : List (Option γ)}
    (all : List.Forall₂ (fun message out => ∃ read, out = some read ∧ same message read) messages outs) :
    ∃ reads, outs = reads.map some ∧ List.Forall₂ same messages reads := by
  induction all with
  | nil => exact ⟨[], rfl, .nil⟩
  | cons head _ ih =>
    obtain ⟨read, rfl, equal⟩ := head
    obtain ⟨reads, rfl, others⟩ := ih
    exact ⟨read :: reads, rfl, .cons equal others⟩

end Gam.Batch

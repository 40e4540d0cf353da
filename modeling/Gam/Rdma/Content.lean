import Gam.Rdma.Carried

/-!
# The bytes in the send slots

The bytes of a group of requests lie in the slot of the work request that carries it, and stay there
while other slots are written.
-/

namespace Gam.Rdma

/-- The bytes of a send. -/
def RdmaRequest.data (r : RdmaRequest) : List UInt8 :=
  match r.src with
  | .heap data => data
  | _ => []

/-- A send that fits into a slot with the closing zero byte. -/
def RdmaRequest.Fits (r : RdmaRequest) : Prop := r.op = .send → r.len + 1 ≤ maxRequestSize

/-- The bytes of a group of sends, with a zero byte between two of them. -/
def wire (g : List RdmaRequest) : List UInt8 := [0].intercalate (g.map RdmaRequest.data)

theorem wire_singleton (r : RdmaRequest) : wire [r] = r.data := by
  simp [wire, List.intercalate]

theorem wire_snoc {g : List RdmaRequest} (some : g ≠ []) (r : RdmaRequest) :
    wire (g ++ [r]) = wire g ++ [0] ++ r.data := by
  unfold wire
  induction g with
  | nil => exact absurd rfl some
  | cons first rest ih =>
    cases rest with
    | nil => simp [List.intercalate]
    | cons second rest =>
      have := ih (by simp)
      simp only [List.map_cons, List.cons_append, List.map_append, List.map_nil, List.intercalate_cons_cons] at this ⊢
      simp only [this, List.append_assoc]

/-- The slot of a send holds the bytes of its group. -/
def Holds (mem : Memory) (w : SendWr) (g : List RdmaRequest) : Prop :=
  w.opcode = .send → ∃ i, w.addr = .slot i ∧ w.length ≤ maxRequestSize ∧
    mem.load (slotAddr i) w.length = wire g

/-- The slots of `sq` are the same in both memories. -/
def Kept (sq : List SendWr) (mem mem' : Memory) : Prop :=
  ∀ i ∈ slots sq, ∀ k ≤ maxRequestSize, mem'.load (slotAddr i) k = mem.load (slotAddr i) k

variable {sq : List SendWr} {mem mem' mem'' : Memory} {w : SendWr} {g : List RdmaRequest}

theorem Kept.refl : Kept sq mem mem := fun _ _ _ _ => rfl

theorem Kept.trans (first : Kept sq mem mem') (second : Kept sq mem' mem'') : Kept sq mem mem'' :=
  fun i member k small => (second i member k small).trans (first i member k small)

theorem Kept.mono {sq' : List SendWr} (kept : Kept sq mem mem') (fewer : slots sq' ⊆ slots sq) : Kept sq' mem mem' :=
  fun i member => kept i (fewer member)

/-- A copy into one slot keeps the others. -/
theorem kept_store {j off : Nat} {data : List UInt8} (fresh : j ∉ slots sq)
    (small : off + data.length ≤ maxRequestSize) : Kept sq mem (mem.store (slotAddr j + off) data) := by
  intro i member k room
  apply Memory.load_store_apart
  have other : i ≠ j := fun same => fresh (same ▸ member)
  simp only [slotAddr, maxRequestSize] at small room ⊢
  omega

theorem Holds.kept (holds : Holds mem w g) (kept : Kept [w] mem mem') : Holds mem' w g := by
  intro send
  obtain ⟨i, slot, small, bytes⟩ := holds send
  refine ⟨i, slot, small, ?_⟩
  rw [kept i (by simp [slots, SendWr.slot?, slot]) _ small, bytes]

theorem holds_kept {wrs : List SendWr} {groups : List (List RdmaRequest)}
    (holds : List.Forall₂ (Holds mem) wrs groups) (kept : Kept wrs mem mem') :
    List.Forall₂ (Holds mem') wrs groups := by
  induction holds with
  | nil => exact .nil
  | @cons w g wrs groups first _ ih =>
    have whole : slots (w :: wrs) = slots [w] ++ slots wrs := by
      rw [← slots_append, List.singleton_append]
    refine .cons (first.kept (kept.mono ?_)) (ih (kept.mono ?_))
    · rw [whole]
      exact List.subset_append_left _ _
    · rw [whole]
      exact List.subset_append_right _ _

/-- The bytes of a request of the queue. -/
theorem bytes_placed (ctx : RdmaContext) {r : RdmaRequest} (placed : r.Placed)
    (send : r.op = .send) : ctx.bytes r.src r.len = r.data ∧ r.data.length = r.len := by
  simp only [RdmaRequest.Placed, send] at placed
  obtain ⟨data, id, signaled, rfl⟩ := placed
  simp [RdmaContext.bytes, RdmaRequest.data]

/-- A send copied into a fresh slot is held there. -/
theorem holds_store {r : RdmaRequest} {data : List UInt8} {j : Nat}
    (addr : w.addr = .slot j) (length : w.length = data.length) (same : r.data = data)
    (fits : data.length ≤ maxRequestSize) (more : List UInt8) :
    Holds (mem.store (slotAddr j) (data ++ more)) w [r] := by
  intro _
  refine ⟨j, addr, by omega, ?_⟩
  rw [length, Memory.load_store_front rfl, wire_singleton, same]

/-- A send copied behind the group in a slot joins it. -/
theorem Holds.join {ctx : RdmaContext} {r : RdmaRequest} {i : Nat}
    (holds : Holds ctx.sendBuf w g) (nonempty : g ≠ []) (send : w.opcode = .send)
    (slot : w.addr = .slot i) (placed : r.Placed) (op : r.op = .send)
    (room : w.length + r.len + 1 + 1 ≤ maxRequestSize) :
    Holds (ctx.join i w.length r) { w with length := w.length + (1 + r.len) } (g ++ [r]) := by
  obtain ⟨j, place, _, bytes⟩ := holds send
  obtain rfl : i = j := by
    rw [slot] at place
    exact Src.slot.inj place
  obtain ⟨copied, length⟩ := bytes_placed ctx placed op
  intro _
  refine ⟨i, slot, by simp only; omega, ?_⟩
  have separated := Memory.load_store_behind [0] bytes
  have whole := Memory.load_store_behind r.data separated
  rw [wire_snoc nonempty, ← whole]
  simp only [RdmaContext.join, copied, List.length_singleton, length, Nat.add_assoc]

end Gam.Rdma

import Gam.Codec
import Gam.Intervals
import Gam.Memory

/-!
# A heap with an arbitrary allocator

Byte memory with the regions that are allocated in it. Which address an allocation returns and what
freed memory holds afterwards is up to a `Supply`; the heap remembers whether the allocator kept its
side (`sound`: every region it returned was fresh) and whether the program kept its own (`wild`: a
write outside the live regions or a free of what is not live).
-/

namespace Gam

structure Region where
  start : Nat
  len : Nat
deriving DecidableEq, Repr

namespace Region

def stop (r : Region) : Nat := r.start + r.len

/-- Two regions that lie apart. -/
def Apart (r q : Region) : Prop := r.stop ≤ q.start ∨ q.stop ≤ r.start

instance (r q : Region) : Decidable (r.Apart q) := inferInstanceAs (Decidable (_ ∨ _))

theorem Apart.symm {r q : Region} (apart : r.Apart q) : q.Apart r := Or.symm apart

instance : Std.Symm Apart := ⟨fun _ _ => Apart.symm⟩

/-- Does the region hold the `len` bytes at `p`? -/
def Holds (r : Region) (p len : Nat) : Prop := r.start ≤ p ∧ p + len ≤ r.stop

instance (r : Region) (p len : Nat) : Decidable (r.Holds p len) :=
  inferInstanceAs (Decidable (_ ∧ _))

/-- Pieces of regions that lie apart lie apart. -/
theorem Apart.pieces {r r' : Region} {p p' len len' : Nat} (apart : r.Apart r') (inside : r.Holds p len)
    (inside' : r'.Holds p' len') : Region.Apart ⟨p, len⟩ ⟨p', len'⟩ := by
  simp only [Apart, Holds, stop] at *
  omega

/-- Slot `a` of a region of `n` slots of a given size. -/
theorem slot_holds {p size a n : Nat} (below : a < n) : Region.Holds ⟨p, size * n⟩ (p + a * size) size := by
  have room : a * size + size ≤ size * n := by
    rw [← Nat.succ_mul, Nat.mul_comm size]
    exact Nat.mul_le_mul_right size below
  simp only [Holds, stop]
  omega

theorem slots_apart {p size a b : Nat} (different : a ≠ b) :
    Region.Apart ⟨p + a * size, size⟩ ⟨p + b * size, size⟩ := by
  have before : ∀ {a b : Nat}, a < b → a * size + size ≤ b * size := fun lower => by
    rw [← Nat.succ_mul]
    exact Nat.mul_le_mul_right size lower
  simp only [Apart, stop]
  rcases Nat.lt_or_gt_of_ne different with lower | higher
  · have ordered := before lower
    omega
  · have ordered := before higher
    omega

/-- A region that can be handed out beside the live ones. -/
def Fresh (r : Region) (live : List Region) : Prop :=
  0 < r.start ∧ r.stop ≤ 2 ^ 64 ∧ ∀ q ∈ live, r.Apart q

instance (r : Region) (live : List Region) : Decidable (r.Fresh live) :=
  inferInstanceAs (Decidable (_ ∧ _ ∧ _))

end Region

/-- What a program cannot control: the address of the `n`-th allocation and what memory holds after
the `n`-th free. -/
structure Supply where
  place : Nat → Nat
  junk : Nat → Memory

structure Heap where
  mem : Memory
  live : List Region
  tick : Nat
  sound : Bool
  wild : Bool

namespace Heap

def alloc (supply : Supply) (size : Nat) (h : Heap) : Nat × Heap :=
  let r : Region := ⟨supply.place h.tick, size⟩
  (r.start, { h with
    live := r :: h.live
    tick := h.tick + 1
    sound := h.sound && decide (r.Fresh h.live) })

/-- Why a run ends early: the allocator broke its side, an assertion failed, a loop ran too long, or
the language does not say what happens. -/
inductive Stop
  | memory | assertion | loop | undefined
deriving DecidableEq, Repr

/-- `alloc` for programs that cannot go on without memory. -/
def malloc (supply : Supply) (size : Nat) (h : Heap) : Except Stop (Nat × Heap) :=
  if (h.alloc supply size).2.sound then .ok (h.alloc supply size) else .error .memory

def write (p : Nat) (data : List UInt8) (h : Heap) : Heap :=
  { h with
    mem := h.mem.store p data
    wild := h.wild || !h.live.any fun r => decide (r.Holds p data.length) }

def free (supply : Supply) (p : Nat) (h : Heap) : Heap :=
  match h.live.find? fun r => decide (r.start = p) with
  | none => { h with wild := true }
  | some r => { h with
      mem := fun a => if r.start ≤ a ∧ a < r.stop then supply.junk h.tick a else h.mem a
      live := h.live.erase r
      tick := h.tick + 1 }

/-- A word of 8 bytes. -/
def readWord (h : Heap) (p : Nat) : Nat := valueOf (h.mem.load p 8)

def writeWord (p n : Nat) (h : Heap) : Heap := h.write p (bytesOf 8 n)

/-- Live regions lie apart from each other, inside the address space. -/
structure Ok (h : Heap) : Prop where
  apart : h.live.Pairwise Region.Apart
  placed : ∀ r ∈ h.live, 0 < r.start ∧ r.stop ≤ 2 ^ 64
  tame : h.wild = false

variable {h : Heap} {supply : Supply} {p q n size : Nat} {data : List UInt8} {r : Region}

@[simp] theorem alloc_mem : (h.alloc supply size).2.mem = h.mem := rfl

@[simp] theorem write_live : (h.write p data).live = h.live := rfl

@[simp] theorem write_sound : (h.write p data).sound = h.sound := rfl

@[simp] theorem writeWord_live : (h.writeWord p n).live = h.live := rfl

theorem alloc_live : (h.alloc supply size).2.live = ⟨(h.alloc supply size).1, size⟩ :: h.live := rfl

theorem alloc_fresh (sound : (h.alloc supply size).2.sound = true) :
    h.sound = true ∧ Region.Fresh ⟨(h.alloc supply size).1, size⟩ h.live := by
  simpa [alloc] using sound

theorem Ok.alloc (ok : h.Ok) (sound : (h.alloc supply size).2.sound = true) : (h.alloc supply size).2.Ok := by
  obtain ⟨positive, bounded, apart⟩ := (alloc_fresh sound).2
  refine ⟨List.pairwise_cons.mpr ⟨apart, ok.apart⟩, ?_, ok.tame⟩
  intro r member
  rcases List.mem_cons.mp member with rfl | member
  · exact ⟨positive, bounded⟩
  · exact ok.placed r member

theorem Ok.write (ok : h.Ok) (member : r ∈ h.live) (inside : r.Holds p data.length) : (h.write p data).Ok := by
  refine ⟨ok.apart, ok.placed, ?_⟩
  have covered : (h.live.any fun r => decide (r.Holds p data.length)) = true :=
    List.any_eq_true.mpr ⟨r, member, by simpa using inside⟩
  simp [Heap.write, ok.tame, covered]

theorem Ok.writeWord (ok : h.Ok) (member : r ∈ h.live) (inside : r.Holds p 8) : (h.writeWord p n).Ok :=
  ok.write member (by rwa [length_bytesOf])

theorem readWord_writeWord (small : n < 2 ^ 64) : (h.writeWord p n).readWord p = n := by
  have loaded : (h.mem.store p (bytesOf 8 n)).load p (bytesOf 8 n).length = bytesOf 8 n := Memory.load_store
  rw [length_bytesOf] at loaded
  rw [readWord, writeWord, Heap.write, loaded, valueOf_bytesOf small]

/-- What lies apart from a written word stays. -/
theorem load_writeWord {len : Nat} (apart : q + len ≤ p ∨ p + 8 ≤ q) :
    (h.writeWord p n).mem.load q len = h.mem.load q len :=
  Memory.load_store_apart (by rwa [length_bytesOf])

theorem readWord_writeWord_apart (apart : q + 8 ≤ p ∨ p + 8 ≤ q) : (h.writeWord p n).readWord q = h.readWord q := by
  rw [readWord, load_writeWord apart, readWord]

/-- The region that starts at a given place, in a heap whose regions lie apart. -/
theorem Ok.find_start (ok : h.Ok) (member : r ∈ h.live) (filled : 0 < r.len) (others : ∀ q ∈ h.live, 0 < q.len) :
    (h.live.find? fun q => decide (q.start = r.start)) = some r := by
  cases found : h.live.find? fun q => decide (q.start = r.start) with
  | none =>
    have missed := List.find?_eq_none.mp found r member
    simp at missed
  | some q =>
    have same : q.start = r.start := by simpa using List.find?_some found
    have listed := List.mem_of_find?_eq_some found
    by_contra different
    have apart := ok.apart.forall listed member fun equal => different (congrArg some equal)
    have filled' := others q listed
    unfold Region.Apart Region.stop at apart
    omega

theorem Ok.nodup (ok : h.Ok) (filled : ∀ q ∈ h.live, 0 < q.len) : h.live.Nodup := by
  refine ok.apart.imp_of_mem fun {r q} member _ apart same => ?_
  subst same
  have positive := filled r member
  simp only [Region.Apart, Region.stop] at apart
  omega

/-- Freeing a live region removes it and nothing else. -/
theorem Ok.free (ok : h.Ok) (supply : Supply) (filled : ∀ q ∈ h.live, 0 < q.len) (member : r ∈ h.live) :
    (h.free supply r.start).Ok ∧ (∀ q, q ∈ (h.free supply r.start).live ↔ q ∈ h.live ∧ q ≠ r) ∧
      ∀ a, a < r.start ∨ r.stop ≤ a → (h.free supply r.start).mem a = h.mem a := by
  have found := ok.find_start member (filled r member) filled
  have listed : ∀ q, q ∈ h.live.erase r ↔ q ∈ h.live ∧ q ≠ r := fun q => by
    rw [(ok.nodup filled).mem_erase_iff, and_comm]
  simp only [Heap.free, found]
  refine ⟨⟨ok.apart.sublist List.erase_sublist, fun q there => ok.placed q ((listed q).mp there).1, ok.tame⟩, listed, ?_⟩
  intro a away
  exact if_neg (by omega)

end Heap

end Gam

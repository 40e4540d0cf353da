import Mathlib.Data.List.Perm.Basic
import Gam.Lock.Range

/-!
# Threads that lock ranges

Any number of threads call `GAlloc::Lock`, `GAlloc::UnLock` and their `Try_` forms. Locks on single
addresses are assumed to exclude: a request is granted only when it is compatible with the locks
granted for the same address. Everything else about ranges is `RangeCall`.
-/

namespace Gam

/-- A lock on one address. -/
structure Grant (Thread : Type) where
  thread : Thread
  key : Word
  exclusive : Bool
deriving DecidableEq, Repr

/-- A call in progress. `exclusive` is the kind of the locks it takes or gives back. -/
structure ActiveCall where
  call : RangeCall
  exclusive : Bool
  pc : RangePc

/-- The locks granted, and for each thread the ranges it holds and the call it is in. -/
structure RangeSys (Thread : Type) where
  grants : List (Grant Thread)
  held : Thread → List RangeCall
  active : Thread → Option ActiveCall

namespace RangeSys
variable {Thread : Type} [DecidableEq Thread] {s s' : RangeSys Thread} {t : Thread}

def init : RangeSys Thread := ⟨[], fun _ => [], fun _ => none⟩

/-- May a lock on `key` be granted beside the others? -/
def Compatible (grants : List (Grant Thread)) (key : Word) (exclusive : Bool) : Prop :=
  ∀ g ∈ grants, key = g.key → exclusive = false ∧ g.exclusive = false

/-- A thread gives back a lock on `key`; one that excludes is the only one there. -/
def release (t : Thread) (key : Word) (grants : List (Grant Thread)) : List (Grant Thread) :=
  if ⟨t, key, true⟩ ∈ grants then grants.erase ⟨t, key, true⟩ else grants.erase ⟨t, key, false⟩

/-- The thread is now in the call `a`, or in none. -/
def setActive (s : RangeSys Thread) (t : Thread) (a : Option ActiveCall) : RangeSys Thread :=
  { s with active := Function.update s.active t a }

def setHeld (s : RangeSys Thread) (t : Thread) (ranges : List RangeCall) : RangeSys Thread :=
  { s with held := Function.update s.held t ranges }

/-- The thread goes on with the answer to its request, and the locks granted are now `grants`. -/
def proceed (s : RangeSys Thread) (t : Thread) (a : ActiveCall) (failed : Bool)
    (grants : List (Grant Thread)) : RangeSys Thread :=
  { s.setActive t (some { a with pc := a.call.resume failed a.pc }) with grants }

inductive Step (s : RangeSys Thread) : RangeSys Thread → Prop
  | lock (t : Thread) (call : RangeCall) : s.active t = none → call.op ≠ .unlock → call.Fits →
      Step s (s.setActive t (some ⟨call, decide (call.op = .wlock), .acquire 0⟩))
  | unlock (t : Thread) (call range : RangeCall) : s.active t = none → call.op = .unlock →
      range ∈ s.held t → call.addr = range.addr → call.count = range.count →
      Step s ((s.setHeld t ((s.held t).erase range)).setActive t (some ⟨call, decide (range.op = .wlock), .acquire 0⟩))
  | grant (t : Thread) (a : ActiveCall) (r : LockRequest) : s.active t = some a →
      a.call.request a.pc = some r → r.op ≠ .unlock → Compatible s.grants r.addr a.exclusive →
      Step s (s.proceed t a false (⟨t, r.addr, a.exclusive⟩ :: s.grants))
  | refuse (t : Thread) (a : ActiveCall) (r : LockRequest) : s.active t = some a →
      a.call.request a.pc = some r → r.op ≠ .unlock → r.tryLock = true →
      Step s (s.proceed t a true s.grants)
  | giveBack (t : Thread) (a : ActiveCall) (r : LockRequest) : s.active t = some a →
      a.call.request a.pc = some r → r.op = .unlock →
      Step s (s.proceed t a false (release t r.addr s.grants))
  | succeed (t : Thread) (a : ActiveCall) : s.active t = some a → a.pc = .done 0 →
      a.call.op ≠ .unlock → Step s ((s.setHeld t (a.call :: s.held t)).setActive t none)
  | leave (t : Thread) (a : ActiveCall) (ret : Int) : s.active t = some a → a.pc = .done ret →
      (ret ≠ 0 ∨ a.call.op = .unlock) → Step s (s.setActive t none)

inductive Reach : RangeSys Thread → Prop
  | init : Reach init
  | step {s s' : RangeSys Thread} : Reach s → Step s s' → Reach s'

end RangeSys

namespace RangeCall
variable {call : RangeCall} {pc : RangePc} {bag : List Word} {i j : Nat}

/-- The keys a call holds on the way: those it took so far, those it has not yet given back. -/
inductive Owns (call : RangeCall) : RangePc → List Word → Prop
  | taking {i : Nat} : call.op ≠ .unlock → i ≤ call.size → Owns call (call.takePc i) (call.keys.take i)
  | undoing {i j : Nat} : call.op ≠ .unlock → j ≤ i → i < call.size →
      Owns call (undoPc i j) ((call.keys.take i).drop j)
  | giving {i : Nat} : call.op = .unlock → i ≤ call.size → Owns call (call.takePc i) (call.keys.drop i)

theorem keys_getElem? (below : i < call.size) : call.keys[i]? = some (call.key i) := by
  rw [keys, List.getElem?_map, List.getElem?_range below]
  rfl

theorem keys_take_succ (below : i < call.size) : call.keys.take (i + 1) = call.keys.take i ++ [call.key i] := by
  rw [List.take_add_one, keys_getElem? below]
  rfl

theorem keys_drop (below : i < call.size) : call.keys.drop i = call.key i :: call.keys.drop (i + 1) := by
  have inside : i < call.keys.length := by simpa [keys] using below
  rw [List.drop_eq_getElem_cons inside]
  congr 1
  exact Option.some.inj ((List.getElem?_eq_getElem inside).symm.trans (keys_getElem? below))

theorem length_keys : call.keys.length = call.size := by simp [keys]

/-- A call that sends a lock request adds its key to what it holds, if it is granted. -/
theorem Owns.lock (fits : call.Fits) (owns : call.Owns pc bag) {r : LockRequest}
    (sends : call.request pc = some r) (locks : r.op ≠ .unlock) :
    call.Owns (call.resume false pc) (bag ++ [r.addr]) ∧ call.Owns (call.resume true pc) bag := by
  cases owns with
  | @taking i kind below =>
    rcases Nat.lt_or_eq_of_le below with inside | past
    · rw [request_takePc fits inside] at sends
      cases sends
      rw [resume_takePc fits inside, resume_takePc_failed fits inside kind]
      exact ⟨keys_take_succ inside ▸ .taking kind inside, .undoing kind (Nat.zero_le i) inside⟩
    · rw [past] at sends
      simp [takePc, request] at sends
  | @undoing i j kind before below =>
    rcases Nat.lt_or_eq_of_le before with inside | past
    · rw [request_undoPc inside] at sends
      cases sends
      exact absurd rfl locks
    · simp [past, undoPc, request] at sends
  | @giving i kind below =>
    rcases Nat.lt_or_eq_of_le below with inside | past
    · rw [request_takePc fits inside] at sends
      cases sends
      exact absurd kind locks
    · rw [past] at sends
      simp [takePc, request] at sends

/-- A call that sends an unlock request holds its key, and holds the others afterwards. -/
theorem Owns.unlock (fits : call.Fits) (owns : call.Owns pc bag) {r : LockRequest}
    (sends : call.request pc = some r) (unlocks : r.op = .unlock) :
    ∃ rest, bag = r.addr :: rest ∧ call.Owns (call.resume false pc) rest := by
  cases owns with
  | @taking i kind below =>
    rcases Nat.lt_or_eq_of_le below with inside | past
    · rw [request_takePc fits inside] at sends
      cases sends
      exact absurd unlocks kind
    · rw [past] at sends
      simp [takePc, request] at sends
  | @undoing i j kind before below =>
    rcases Nat.lt_or_eq_of_le before with inside | past
    · rw [request_undoPc inside] at sends
      cases sends
      rw [resume_undoPc inside (Nat.lt_trans below fits.few)]
      refine ⟨_, ?_, .undoing kind inside below⟩
      rw [List.drop_take, List.drop_take, keys_drop (Nat.lt_trans inside below),
        show i - j = (i - (j + 1)) + 1 by omega, List.take_succ_cons]
    · simp [past, undoPc, request] at sends
  | @giving i kind below =>
    rcases Nat.lt_or_eq_of_le below with inside | past
    · rw [request_takePc fits inside] at sends
      cases sends
      rw [resume_takePc fits inside]
      exact ⟨_, keys_drop inside, .giving kind inside⟩
    · rw [past] at sends
      simp [takePc, request] at sends

/-- A call that returned holds all keys of its range, or none. -/
theorem Owns.done {ret : Int} (owns : call.Owns (.done ret) bag) :
    bag = if ret = 0 ∧ call.op ≠ .unlock then call.keys else [] := by
  generalize at_pc : RangePc.done ret = pc at owns
  cases owns with
  | @taking i kind below =>
    unfold takePc at at_pc
    split at at_pc
    · cases at_pc
    · next past =>
      cases at_pc
      rw [if_pos ⟨rfl, kind⟩, List.take_of_length_le (by rw [length_keys]; omega)]
  | @undoing i j kind before below =>
    unfold undoPc at at_pc
    split at at_pc
    · next all =>
      cases at_pc
      simp [all]
    · split at at_pc <;> cases at_pc
  | @giving i kind below =>
    unfold takePc at at_pc
    split at at_pc
    · cases at_pc
    · next past =>
      cases at_pc
      rw [if_neg fun h => h.2 kind, List.drop_eq_nil_iff, length_keys]
      omega

end RangeCall

end Gam

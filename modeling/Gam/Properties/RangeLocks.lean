import Gam.Lock.Threads

/-! A lock on a range is taken as a whole or not at all. -/

namespace Gam.RangeCall
variable {call : RangeCall} {refused : Nat → Bool} {i j n : Nat}

/-- The log entry of a lock taken, and of one given back. -/
def took (call : RangeCall) (key : Word) : LockRequest × Bool := (⟨call.op, key, call.tryLock⟩, false)

def gaveBack (call : RangeCall) (key : Word) : LockRequest × Bool := (⟨.unlock, key, call.tryLock⟩, false)

end Gam.RangeCall

import Gam.Described
import Gam.Play

/-! What the home asks of the owner of a block finds the block there. -/

namespace Gam
variable {Node : Type} [DecidableEq Node]

section block
variable {b : Block Node} {s : BlockState Node} {a : Abs Node} {n src : Node} {c : Command Node}

end block

namespace Sys
variable {mem : Block Node → Data} {s : Sys Node} {b : Block Node} {src client n : Node} {c : Command Node}

/-- Worker 1 owns a block of worker 0 when worker 2 misses it. -/
def forwardedRead : Sys Nat :=
  (init fun _ _ => 0).play
    [.issue (ask 0 1 0 .write false), .run 0 fun _ => 0, .run 7 fun _ => 0, .run 0 fun _ => 0,
      .run 0 fun _ => 0, .deliver ⟨0, 0⟩ 1 0, .deliver ⟨0, 0⟩ 0 1, .deliver ⟨0, 0⟩ 0 1,
      .run 0 fun _ => 0, .run 0 fun _ => 0, .run 0 fun _ => 0,
      .issue (ask 1 2 0 .read false), .run 0 fun _ => 0, .run 8 fun _ => 0, .run 0 fun _ => 0,
      .run 0 fun _ => 0, .deliver ⟨0, 0⟩ 2 0]

end Sys

end Gam

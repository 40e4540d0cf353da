import Gam.Protocol

/-! What the home thinks of every worker is right: `Consistent`, and every step of the
protocol keeps it. -/

namespace Gam

open Function
variable {Node : Type} [DecidableEq Node]

namespace Home
variable {ph ph' : Phase Node} {answer : Answer} {n : Node}

/-- The owner `o` of a block with a command under way. Until it has agreed it owns the block;
after that it has kept a shared copy (`keep`) or nothing at all. -/
def OwnerFits (keep : Bool) (o : GAddr Node) (answer : Answer) (n : Node) (ph : Phase Node) : Prop :=
  (n ≠ o.wid → ¬ ph.Exclusive) ∧
    (n = o.wid → match answer with
      | .acked true => ¬ ph.Exclusive ∧ (keep = true → ph.Shares o.off)
      | _ => ph.Owns o.off)

/-- A worker whose forwarded read the home works on; it is on its own once the owner has
answered. -/
def ReaderFits (r : Remote Node) (flag : Flag) (answer : Answer) (ph : Phase Node) : Prop :=
  match answer with
  | .opened => ph.IsServed r flag
  | .acked ok => ¬ ph.Waits ∧ (ok = true → ph.Shares r.ptr)

/-- A worker whose forwarded write the home works on. -/
def WriterFits (r : Remote Node) (flag : Flag) (o : GAddr Node) (answer : Answer) (ph : Phase Node) : Prop :=
  match answer with
  | .opened => ph.IsServed r flag
  | .acked ok => ph.IsHanded r flag o.wid ok

/-- The workers of a shared list. Those that have agreed to an invalidation may be anywhere. -/
def ListFits (L : List (GAddr Node)) (answer : Node → Option Answer) (n : Node) (ph : Phase Node) : Prop :=
  ¬ ph.Exclusive ∧ ∀ p, ⟨n, p⟩ ∈ L → answer n ≠ some (.acked true) → ph.Shares p

/-- Worker `n` in phase `ph` does what the home thinks it does. -/
def Fits : Home Node → Node → Phase Node → Prop
  | .unshared, _, ph => ¬ ph.Exclusive ∧ ¬ ph.Waits
  | .shared L, n, ph => ListFits L (fun _ => none) n ph ∧ ¬ ph.Waits
  | .dirty o, n, ph => OwnerFits false o .opened n ph ∧ ¬ ph.Waits
  | .fetchShared _ _ _ o answer, n, ph => OwnerFits true o answer n ph ∧ ¬ ph.Waits
  | .readForward r _ flag o answer, n, ph =>
    OwnerFits true o answer n ph ∧ (n ≠ r.wid → ¬ ph.Waits) ∧ (n = r.wid → ReaderFits r flag answer ph)
  | .fetchInvalidate _ _ _ o answer, n, ph => OwnerFits false o answer n ph ∧ ¬ ph.Waits
  | .writeForward r _ flag o answer, n, ph =>
    OwnerFits false o answer n ph ∧ (n ≠ r.wid → ¬ ph.Waits) ∧ (n = r.wid → WriterFits r flag o answer ph)
  | .invalidate _ _ _ L answer _, n, ph => ListFits L answer n ph ∧ ¬ ph.Waits
  | .invalidateForward r _ flag L answer _, n, ph =>
    ListFits L answer n ph ∧ (n ≠ r.wid → ¬ ph.Waits) ∧ (n = r.wid → ph.IsServed r flag)

/-- The books of an invalidation round: answers are outstanding, from listed workers other
than the requester, and from all of them as long as nobody has refused. -/
structure RoundOk (L : List (GAddr Node)) (answer : Node → Option Answer) (requester : Option Node)
    (status : Status) : Prop where
  listed : ∀ n, (answer n).isSome → n ∈ L.map GAddr.wid ∧ some n ≠ requester
  open_ : ∃ n, (answer n).isSome
  all : status = .success → ∀ a ∈ L, some a.wid ≠ requester → (answer a.wid).isSome
  refused : status ≠ .success → ∃ a ∈ L, some a.wid ≠ requester ∧ answer a.wid = none
  kind : status = .success ∨ status = .lockFailed

/-- A shared list names workers other than the home, each once. -/
structure ListOk (h : Node) (L : List (GAddr Node)) : Prop where
  nodup : (L.map GAddr.wid).Nodup
  away : ∀ a ∈ L, a.wid ≠ h

def WellFormed (h : Node) : Home Node → Prop
  | .unshared => True
  | .shared L => ListOk h L ∧ L ≠ []
  | .dirty o | .fetchShared _ _ _ o _ | .fetchInvalidate _ _ _ o _ => o.wid ≠ h
  | .readForward r _ _ o _ => o.wid ≠ h ∧ r.wid ≠ h ∧ r.wid ≠ o.wid ∧ r.op = .read
  | .writeForward r _ _ o _ => o.wid ≠ h ∧ r.wid ≠ h ∧ r.wid ≠ o.wid ∧ r.op ≠ .read
  | .invalidate _ _ _ L answer status => ListOk h L ∧ RoundOk L answer none status
  | .invalidateForward r _ _ L answer status =>
    ListOk h L ∧ RoundOk L answer (some r.wid) status ∧ r.wid ≠ h ∧ r.op ≠ .read

end Home

/-- A change of phase the home need not hear about. -/
structure Phase.Moves (ph ph' : Phase Node) : Prop where
  owns : ∀ p, ph.Owns p → ph'.Owns p
  shares : ∀ p, ph.Shares p → ph'.Shares p
  exclusive : ph'.Exclusive → ph.Exclusive
  waits : ph'.Waits → ph.Waits
  served : ∀ r flag, ph.IsServed r flag → ph'.IsServed r flag
  handed : ∀ r flag o ok, ph.IsHanded r flag o ok → ph'.IsHanded r flag o ok
  wellFormed : ph.WellFormed → ph'.WellFormed

namespace Home

theorem OwnerFits.move {keep : Bool} {o : GAddr Node} (moves : ph.Moves ph') (fits : OwnerFits keep o answer n ph) :
    OwnerFits keep o answer n ph' := by
  refine ⟨fun other h => fits.1 other (moves.exclusive h), fun same => ?_⟩
  have mine := fits.2 same
  cases answer with
  | opened => exact moves.owns _ mine
  | acked ok =>
    cases ok with
    | false => exact moves.owns _ mine
    | true => exact ⟨fun h => mine.1 (moves.exclusive h), fun h => moves.shares _ (mine.2 h)⟩

theorem ListFits.move {L : List (GAddr Node)} {answer : Node → Option Answer}
    (moves : ph.Moves ph') (fits : ListFits L answer n ph) : ListFits L answer n ph' :=
  ⟨fun h => fits.1 (moves.exclusive h), fun p listed open_ => moves.shares p (fits.2 p listed open_)⟩

theorem ReaderFits.move {r : Remote Node} {flag : Flag}
    (moves : ph.Moves ph') (fits : ReaderFits r flag answer ph) : ReaderFits r flag answer ph' := by
  cases answer with
  | opened => exact moves.served _ _ fits
  | acked ok => exact ⟨fun h => fits.1 (moves.waits h), fun h => moves.shares _ (fits.2 h)⟩

theorem WriterFits.move {r : Remote Node} {flag : Flag} {o : GAddr Node}
    (moves : ph.Moves ph') (fits : WriterFits r flag o answer ph) : WriterFits r flag o answer ph' := by
  cases answer with
  | opened => exact moves.served _ _ fits
  | acked ok => exact moves.handed _ _ _ _ fits

theorem Fits.move {home : Home Node} (moves : ph.Moves ph') (fits : home.Fits n ph) : home.Fits n ph' := by
  have waits : ¬ ph.Waits → ¬ ph'.Waits := fun h h' => h (moves.waits h')
  cases home with
  | unshared => exact ⟨fun h => fits.1 (moves.exclusive h), waits fits.2⟩
  | shared L => exact ⟨fits.1.move moves, waits fits.2⟩
  | dirty o => exact ⟨fits.1.move moves, waits fits.2⟩
  | fetchShared rq id flag o answer => exact ⟨fits.1.move moves, waits fits.2⟩
  | fetchInvalidate rq id flag o answer => exact ⟨fits.1.move moves, waits fits.2⟩
  | invalidate rq id flag L answer status => exact ⟨fits.1.move moves, waits fits.2⟩
  | readForward r id flag o answer =>
    exact ⟨fits.1.move moves, fun h => waits (fits.2.1 h), fun h => (fits.2.2 h).move moves⟩
  | writeForward r id flag o answer =>
    exact ⟨fits.1.move moves, fun h => waits (fits.2.1 h), fun h => (fits.2.2 h).move moves⟩
  | invalidateForward r id flag L answer status =>
    exact ⟨fits.1.move moves, fun h => waits (fits.2.1 h), fun h => moves.served _ _ (fits.2.2 h)⟩

end Home

/-- Home and workers agree. -/
structure Consistent (b : Block Node) (a : Abs Node) : Prop where
  home : a.home.WellFormed b.wid
  phase : ∀ n, n ≠ b.wid → (a.phase n).WellFormed
  fits : ∀ n, n ≠ b.wid → a.home.Fits n (a.phase n)

namespace Consistent
variable {b : Block Node} {a a' : Abs Node}

theorem init (b : Block Node) (mem : Data) : Consistent b (Abs.init mem) :=
  ⟨trivial, fun _ _ => trivial, fun _ _ => ⟨id, id⟩⟩

/-- Only the phases and the home matter. -/
theorem congr (inv : Consistent b a) (home : a'.home = a.home) (phase : a'.phase = a.phase) : Consistent b a' := by
  refine ⟨?_, ?_, ?_⟩
  · rw [home]; exact inv.home
  · rw [phase]; exact inv.phase
  · rw [home, phase]; exact inv.fits

/-- One worker moves on by itself. -/
theorem move (inv : Consistent b a) {ph : Phase Node} (moves : (a.phase n).Moves ph)
    (home : a'.home = a.home) (phase : a'.phase = update a.phase n ph) : Consistent b a' := by
  refine ⟨?_, fun m away => ?_, fun m away => ?_⟩
  · rw [home]; exact inv.home
  · rw [phase]
    by_cases same : m = n
    · subst m; rw [update_self]; exact moves.wellFormed (inv.phase n away)
    · rw [update_of_ne same]; exact inv.phase m away
  · rw [home, phase]
    by_cases same : m = n
    · subst m; rw [update_self]; exact (inv.fits n away).move moves
    · rw [update_of_ne same]; exact inv.fits m away

end Consistent

end Gam

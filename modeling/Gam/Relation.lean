import Gam.Mail
import Gam.Protocol

/-! When a block state is one that the abstract protocol describes: `Rel`. -/

namespace Gam
variable {Node : Type} [DecidableEq Node]

/-- Everything a block state says about worker `n`. -/
structure Side (Node : Type) where
  line : Option (CacheLine Node)
  pending : List (Pending Node)
  completions : List Nat
  mail : Mail Node
  /-- Data on its way to the line, from each worker. -/
  lines : Node → List (Nat × Data)
  /-- Messages on their way to the home. -/
  out : List (Msg Node)
  /-- What the worker has postponed and what is on its way from the home, oldest first. -/
  inbox : List (Msg Node)

def BlockState.side (b : Block Node) (s : BlockState Node) (n : Node) : Side Node where
  line := s.line n
  pending := s.pending n
  completions := s.completions n
  mail := s.mail b n
  lines := fun o => lines (s.chan o n)
  out := msgs (s.chan n b.wid)
  inbox := (s.toServe n).map Prod.snd ++ msgs (s.chan b.wid n)

/-- Everything the abstract protocol says about worker `n`. -/
structure Local (Node : Type) where
  phase : Phase Node
  cmd : Cmd Node
  raw : Data
  copy : Data
  locks : Locks Node

@[simp] def Abs.local (a : Abs Node) (n : Node) : Local Node :=
  ⟨a.phase n, a.home.cmd n, a.raw n, a.copy n, a.locks n⟩

/-- The worker that sends, or has sent, the data for the line, and the line. -/
@[simp] def Phase.source (h : Node) : Phase Node → Option (Node × Nat)
  | .miss _ ptr _ _ _ (.reply true) => some (h, ptr)
  | .miss _ ptr _ _ _ (.peer o true) => some (o, ptr)
  | .miss _ ptr _ _ _ (.hand o true false _) => some (o, ptr)
  | _ => none

@[simp] def Msg.isImm : Msg Node → Bool
  | .reply (.imm _) => true
  | _ => false

@[simp] def Msg.isWriteBack : Msg Node → Bool
  | .request (.writeBack _ _) => true
  | _ => false

/-- Nobody writes a block back after it has agreed to give it up. -/
def Punctual (out : List (Msg Node)) : Prop :=
  out.Pairwise fun x y => x.isImm = true → y.isWriteBack = false

/-- The home answers a worker before it asks something of it. -/
def Timely (inbox : List (Msg Node)) : Prop :=
  inbox.Pairwise fun x y => x.command?.isSome = true → y.reply? = none

namespace Timely
variable {inbox more : List (Msg Node)}

theorem sublist (timely : Timely inbox) (sub : more.Sublist inbox) : Timely more :=
  List.Pairwise.sublist sub timely

/-- Nothing the home asks later comes ahead of an answer. -/
theorem append_silent (timely : Timely inbox) (silent : ∀ y ∈ more, y.reply? = none) : Timely (inbox ++ more) :=
  List.pairwise_append.mpr
    ⟨timely, List.pairwise_of_forall_mem_list fun _ _ y member _ => silent y member,
      fun _ _ y member _ => silent y member⟩

/-- An answer to a worker that is asked nothing. -/
theorem append_quiet (quiet : ∀ x ∈ inbox, x.command? = none) (quiet' : ∀ x ∈ more, x.command? = none) :
    Timely (inbox ++ more) := by
  refine List.pairwise_of_forall_mem_list fun x member y _ asks => ?_
  have none_ : x.command? = none := (List.mem_append.mp member).elim (quiet x) (quiet' x)
  simp [none_] at asks

end Timely

/-- What a buffer holds once the data `ds` has landed in it. -/
def settle (ds : List Data) (d : Data) : Data := ds.foldl (fun _ d => d) d

@[simp] theorem settle_nil (d : Data) : settle [] d = d := rfl

@[simp] theorem settle_cons (d d' : Data) (ds : List Data) : settle (d' :: ds) d = settle ds d' := rfl

@[simp] theorem settle_append (ds ds' : List Data) (d : Data) :
    settle (ds ++ ds') d = settle ds' (settle ds d) := List.foldl_append

/-- A worker is as the abstract protocol has it. -/
structure Side.Shows (h : Node) (sd : Side Node) (x : Local Node) : Prop where
  line : sd.line = x.phase.line.map fun l => ⟨l.2, l.1, x.locks, x.raw⟩
  bare : x.phase.line = none → x.locks = ∅
  pending : sd.pending = x.phase.pending
  completions : sd.completions = x.phase.completions
  mail : sd.mail = x.phase.mail x.cmd
  lines : ∀ o, ∀ l ∈ sd.lines o, x.phase.source h = some (o, l.1)
  landed : (x.phase.source h).elim x.raw (fun o => settle ((sd.lines o.1).map Prod.snd) x.raw) = x.copy
  punctual : Punctual sd.out
  timely : Timely sd.inbox

/-- The worker that owns the block according to the directory. -/
def Home.owner : Home Node → Option Node
  | .dirty o | .fetchShared _ _ _ o _ | .readForward _ _ _ o _ | .fetchInvalidate _ _ _ o _
  | .writeForward _ _ _ o _ => some o.wid
  | .unshared | .shared _ | .invalidate _ _ _ _ _ _ | .invalidateForward _ _ _ _ _ _ => none

/-- An entry in `DIR_UNSHARED` is only stored for its locks. -/
def Directory.Kept (entry : Option (DirEntry Node)) : Prop :=
  ∀ e, entry = some e → e.state = .unshared → e.locks.isBlockLocked = true

theorem Directory.kept_of_state {entry : Option (DirEntry Node)} (state : getState entry ≠ .unshared) : Kept entry := by
  intro e stored unshared
  subst stored
  exact absurd unshared state

theorem Directory.kept_of_locked {e : DirEntry Node} (locked : e.locks.isBlockLocked = true) : Kept (some e) := by
  intro e' stored _
  cases stored
  exact locked

/-- The directory entry says what the home is doing. -/
structure EntryOk (entry : Option (DirEntry Node)) (home : Home Node) (locks : Locks Node) : Prop where
  state : Directory.getState entry = home.dirState
  sharers : Directory.getSList entry = home.sharers
  locks : Directory.getLocks entry = locks
  kept : Directory.Kept entry

/-- The home is as the abstract protocol has it. -/
structure HomeRel (b : Block Node) (s : BlockState Node) (a : Abs Node) : Prop where
  entry : EntryOk s.entry a.home a.dirLocks
  pending : s.pending b.wid = a.home.pending
  line : s.line b.wid = none
  completions : s.completions b.wid = []
  chan : s.chan b.wid b.wid = []
  clients : ∀ e ∈ s.toServe b.wid, e.1 ≠ b.wid
  writers : ∀ n, mems (s.chan n b.wid) ≠ [] → a.home.owner = some n
  mem : a.home.owner.elim s.mem (fun o => settle (mems (s.chan o b.wid)) s.mem) = a.mem

/-- The block state is the one that `a` describes. -/
structure Rel (b : Block Node) (s : BlockState Node) (a : Abs Node) : Prop where
  home : HomeRel b s a
  node : ∀ n, n ≠ b.wid → (s.side b n).Shows b.wid (a.local n)
  framed : s.AllFramed

theorem Rel.init (b : Block Node) (mem : Data) : Rel b (BlockState.init mem) (Abs.init mem) := by
  refine ⟨⟨⟨rfl, rfl, rfl, fun _ h => by cases h⟩, rfl, rfl, rfl, rfl, by simp [BlockState.init], ?_, rfl⟩, fun n away => ?_,
    fun _ _ => trivial⟩
  · intro n h
    exact absurd rfl h
  · constructor <;> try rfl
    · exact fun _ => rfl
    · simp [BlockState.side, BlockState.mail, BlockState.init, Abs.init, Phase.mail, Home.cmd, Cmd.commands, Cmd.acks, queued, ordered, strayRequests, strayCommands]
    · simp [BlockState.side, BlockState.init]
    · exact List.Pairwise.nil
    · exact List.Pairwise.nil

end Gam

import Gam.Invariant
import Gam.Lts

/-! What the labels of the abstract protocol say about the application requests: whose they are, and
which of them the workers and the home work for. -/

namespace Gam

open Function
variable {Node : Type} [DecidableEq Node]

/-- The application request an output is about. -/
def Out.req? : Out Node → Option (Req Node)
  | .served rq _ | .applied rq | .granted rq | .refused rq | .released rq | .sent rq | .postponed rq
  | .decremented rq | .replied rq | .notify rq => some rq
  | .process _ => none

/-- What a request an output is about has asked for. -/
@[simp] def Out.Fits : Out Node → Prop
  | .served rq _ => rq.op = .read
  | .applied rq => rq.op = .write
  | .granted rq => rq.op = .rlock ∨ rq.op = .wlock
  | .released rq => rq.op = .unlock
  | .refused rq | .sent rq | .postponed rq | .decremented rq | .replied rq | .notify rq =>
    rq.Reads ∨ rq.Writes
  | .process _ => True

/-- The request a miss works for, with its flags. -/
def Phase.request : Phase Node → Option (AccessOp × Flag × Req Node)
  | .miss op _ _ flag rq _ => some (op, flag, rq)
  | _ => none

/-- The request of its own the home works for, with its flags; `true` for a fetched copy. -/
def Home.request : Home Node → Option (Bool × Flag × Req Node)
  | .fetchShared rq _ flag _ _ => some (true, flag, rq)
  | .fetchInvalidate rq _ flag _ _ => some (false, flag, rq)
  | .invalidate rq _ flag _ _ _ => some (false, flag, rq)
  | _ => none

section
variable {b : Block Node} {a : Abs Node} (inv : Consistent b a) {n : Node} (away : n ≠ b.wid) {op : AccessOp}
    {ptr id : Nat} {flag : Flag} {rq : Req Node} {stage : Stage Node}
    (phase : a.phase n = .miss op ptr id flag rq stage)
include b a inv n away op ptr id flag rq stage phase

/-- A read that was answered worked for a read. -/
theorem Consistent.readAnswer_op {res : Bool} (answer : (a.phase n).ReadAnswer res) : op = .read := by
  have formed := inv.phase n away
  rw [phase] at answer formed
  cases stage with
  | reply ok => exact answer.1
  | peer o ok => exact formed
  | _ => exact answer.elim

theorem Consistent.lastAnswer_op {res : Bool} (answer : (a.phase n).LastAnswer res) : op ≠ .read := by
  have formed := inv.phase n away
  rw [phase] at answer formed
  cases stage with
  | reply ok => exact answer.1
  | hand o ok got home => exact formed.1
  | _ => exact answer.elim

end

theorem Req.op_of_reads {rq : Req Node} (reads : rq.Reads) (locked : rq.flag.locked = true) : rq.op = .rlock := by
  rcases reads with op | op
  · simp [Req.flag, op] at locked
  · exact op

theorem Req.op_of_reads' {rq : Req Node} (reads : rq.Reads) (unlocked : rq.flag.locked = false) : rq.op = .read := by
  rcases reads with op | op
  · exact op
  · simp [Req.flag, op] at unlocked

theorem Req.op_of_writes' {rq : Req Node} (writes : rq.Writes) (unlocked : rq.flag.locked = false) :
    rq.op = .write := by
  rcases writes with op | op
  · exact op
  · simp [Req.flag, op] at unlocked

theorem Req.op_of_writes {rq : Req Node} (writes : rq.Writes) (locked : rq.flag.locked = true) : rq.op = .wlock := by
  rcases writes with op | op
  · simp [Req.flag, op] at locked
  · exact op

/-- Everyone works for requests of its own threads, and for what they asked. -/
structure Carried (g : Guard Node) (b : Block Node) (a : Abs Node) : Prop where
  miss : ∀ n op flag rq, (a.phase n).request = some (op, flag, rq) →
    g.req n rq ∧ flag = rq.flag ∧ if op = .read then rq.Reads else rq.Writes
  home : ∀ copy flag rq, a.home.request = some (copy, flag, rq) →
    g.req b.wid rq ∧ flag = rq.flag ∧ if copy = true then rq.Reads else rq.Writes

namespace Carried
variable {g : Guard Node} {b : Block Node} {a a' : Abs Node}

theorem init (mem : Data) : Carried g b (Abs.init mem) where
  miss := fun _ _ _ _ h => by cases h
  home := fun _ _ _ h => by cases h

/-- A step that starts nothing new. -/
theorem keep (carried : Carried g b a)
    (miss : ∀ n, (a'.phase n).request = (a.phase n).request ∨ (a'.phase n).request = none)
    (home : a'.home.request = a.home.request ∨ a'.home.request = none) : Carried g b a' where
  miss := fun n op flag rq h => by
    rcases miss n with same | none_
    · exact carried.miss n op flag rq (same ▸ h)
    · rw [none_] at h; cases h
  home := fun copy flag rq h => by
    rcases home with same | none_
    · exact carried.home copy flag rq (same ▸ h)
    · rw [none_] at h; cases h

theorem starts (carried : Carried g b a) {n : Node} {op : AccessOp} {ptr id : Nat} {rq : Req Node}
    {stage : Stage Node} (mine : g.req n rq) (kind : if op = .read then rq.Reads else rq.Writes)
    (phase : a'.phase = update a.phase n (.miss op ptr id rq.flag rq stage))
    (home : a'.home = a.home) : Carried g b a' where
  miss := fun m op' flag rq' h => by
    rw [phase] at h
    by_cases same : m = n
    · subst m
      simp only [update_self, Phase.request, Option.some.injEq, Prod.mk.injEq] at h
      obtain ⟨rfl, rfl, rfl⟩ := h
      exact ⟨mine, rfl, kind⟩
    · rw [update_of_ne same] at h
      exact carried.miss m op' flag rq' h
  home := fun copy flag rq' h => carried.home copy flag rq' (home ▸ h)

theorem startsHome (carried : Carried g b a) {copy : Bool} {rq : Req Node} (mine : g.req b.wid rq)
    (kind : if copy = true then rq.Reads else rq.Writes) (phase : a'.phase = a.phase)
    (home : a'.home.request = some (copy, rq.flag, rq)) : Carried g b a' where
  miss := fun m op flag rq' h => carried.miss m op flag rq' (phase ▸ h)
  home := fun copy' flag rq' h => by
    rw [home] at h
    obtain ⟨rfl, rfl, rfl⟩ : copy = copy' ∧ rq.flag = flag ∧ rq = rq' := by simpa using h
    exact ⟨mine, rfl, kind⟩

theorem update_keep {n : Node} {ph : Phase Node}
    (same : ph.request = (a.phase n).request ∨ ph.request = none) (m : Node) :
    (update a.phase n ph m).request = (a.phase m).request ∨ (update a.phase n ph m).request = none := by
  by_cases here : m = n
  · subst m; simpa using same
  · simp [here]

theorem homeWritten {rq : Req Node} {flag : Flag} {outs : List (Out Node)}
    (written : Abs.HomeWritten b rq flag a outs a') : a'.home = a.home ∧ a'.phase = a.phase := by
  cases written <;> exact ⟨rfl, rfl⟩

theorem invalidated {n : Node} {ph : Phase Node} (gives : Abs.Invalidated g a n ph) :
    ph.request = (a.phase n).request ∨ ph.request = none := by
  cases gives with
  | drops => exact Or.inr rfl
  | lacks ai phase => rw [phase]; exact Or.inl rfl
  | evicts ptr id phase => rw [phase]; exact Or.inl rfl
  | writes op ptr id flag rq stage phase => rw [phase]; exact Or.inl rfl

theorem clear_request {x : GAddr Node} (settled : a.home.Settled) :
    (a.home.clear x).request = a.home.request ∨ (a.home.clear x).request = none := by
  right
  cases home : a.home with
  | unshared => rfl
  | shared L => simp only [Home.clear]; split <;> rfl
  | dirty o => simp only [Home.clear]; split <;> rfl
  | _ => rw [home] at settled; exact settled.elim

/-- The owner answers a forwarded request: it gives up or keeps the block, and the requester goes on. -/
theorem forwarded (carried : Carried g b a) {o : Node} {r : Remote Node} {flag : Flag} {rq : Req Node}
    {ph : Phase Node} {stage : Stage Node} (phase : a.phase r.wid = .miss r.op r.ptr r.id flag rq .served)
    (gives : ph.request = none ∨ ph = a.phase o) (phases : a'.phase = update (update a.phase o ph) r.wid
      (.miss r.op r.ptr r.id flag rq stage)) (home : a'.home.request = none) : Carried g b a' := by
  refine carried.keep (fun m => ?_) (Or.inr home)
  rw [phases]
  by_cases requester : m = r.wid
  · subst m
    left
    simp [phase, Phase.request]
  · rw [update_of_ne requester]
    refine update_keep ?_ m
    rcases gives with none_ | same
    · exact Or.inr none_
    · rw [same]; exact Or.inl rfl

theorem step {outs : List (Out Node)} (carried : Carried g b a) (step : Abs.Step g b a outs a') : Carried g b a' := by
  have keeps : ∀ {o : GAddr Node} {ph : Phase Node},
      (a.phase o.wid = .dirty o.off ∧ ph = .shared o.off) ∨
        (∃ id', a.phase o.wid = .evicting o.off id') ∧ ph = a.phase o.wid →
      ph.request = none ∨ ph = a.phase o.wid := by
    rintro o ph (⟨-, rfl⟩ | ⟨-, same⟩)
    · exact Or.inl rfl
    · exact Or.inr same
  have gives : ∀ {o : GAddr Node} {ph : Phase Node} {newId : Nat} {flag : Flag},
      (a.phase o.wid = .dirty o.off ∧ (a.locks o.wid).isBlockLocked = false ∧ ph = .leaving o.off newId flag) ∨
        (∃ id', a.phase o.wid = .evicting o.off id') ∧ ph = a.phase o.wid →
      ph.request = none ∨ ph = a.phase o.wid := by
    rintro o ph newId flag (⟨-, -, rfl⟩ | ⟨-, same⟩)
    · exact Or.inl rfl
    · exact Or.inr same
  have owner : ∀ {o : GAddr Node} {ph : Phase Node}, ph.request = none ∨ ph = a.phase o.wid →
      ph.request = (a.phase o.wid).request ∨ ph.request = none := by
    rintro o ph (none_ | same)
    · exact Or.inr none_
    · exact Or.inl (by rw [same])
  cases step with
  -- something new is asked for
  | miss n rq away mine op ptr id d ai phase fetch kind => exact carried.starts mine kind rfl rfl
  | upgrade n rq away mine ptr id d phase kind =>
    exact carried.starts mine (by simpa using kind) rfl rfl
  | fetchShared rq mine kind id o dirty => exact carried.startsHome mine (by simpa using kind) rfl rfl
  | fetchInvalidate rq mine kind id o dirty =>
    exact carried.startsHome mine (by simpa using kind) rfl rfl
  | invalidate rq mine kind id L shared => exact carried.startsHome mine (by simpa using kind) rfl rfl
  -- the owner answers
  | fetched rq id flag o ph home h =>
    exact carried.keep (update_keep (owner (keeps h))) (Or.inl (by rw [home]; rfl))
  | taken rq id flag o ph newId home h =>
    exact carried.keep (update_keep (owner (gives h))) (Or.inl (by rw [home]; rfl))
  | readForwardAnswered r id flag o ph home rq phase h =>
    exact carried.forwarded phase (keeps h) rfl rfl
  | writeForwardAnswered r id flag o ph newId home rq phase h =>
    exact carried.forwarded phase (gives h) rfl rfl
  -- the home is done
  | takeDone rq id flag o outs a' home written =>
    obtain ⟨homeEq, phaseEq⟩ := homeWritten written
    exact carried.keep (fun m => Or.inl (by rw [phaseEq]; rfl)) (Or.inr (by rw [homeEq]; rfl))
  | invalidateDone rq id flag L answer n outs a' home acked last written =>
    obtain ⟨homeEq, phaseEq⟩ := homeWritten written
    exact carried.keep (fun m => Or.inl (by rw [phaseEq]; rfl)) (Or.inr (by rw [homeEq]; rfl))
  -- invalidation rounds
  | invalidated rq id flag L answer status n ph home asked h =>
    exact carried.keep (update_keep (invalidated h)) (Or.inl (by rw [home]; rfl))
  | invalidatedForward r id flag L answer status n ph home asked h =>
    exact carried.keep (update_keep (invalidated h)) (Or.inr rfl)
  | dropped c away ptr settled phase =>
    exact carried.keep (update_keep (Or.inr rfl)) (clear_request settled)
  | droppedFirst c away ptr settled op ptr' id flag rq phase =>
    exact carried.keep (update_keep (Or.inl (by rw [phase]; rfl))) (clear_request settled)
  | writtenBack c away ptr id settled phase =>
    exact carried.keep (update_keep (Or.inr rfl)) (clear_request settled)
  -- everything else goes on with the same request, or ends it
  | _ =>
    refine carried.keep ?_ ?_
    · first
        | exact fun m => Or.inl rfl
        | exact update_keep (Or.inr rfl)
        | exact update_keep (Or.inl (by simp [*, Phase.request]))
    · first
        | exact Or.inl rfl
        | exact Or.inr rfl
        | exact Or.inl (by simp [*, Home.request])

/-- A request that appears in a label is one that somebody may ask. -/
theorem label {outs : List (Out Node)} (carried : Carried g b a) (step : Abs.Step g b a outs a') :
    ∀ o ∈ outs, ∀ rq, o.req? = some rq → ∃ n, g.req n rq := by
  have missed : ∀ {n : Node} {op : AccessOp} {ptr id : Nat} {flag : Flag} {rq : Req Node}
      {stage : Stage Node}, a.phase n = .miss op ptr id flag rq stage → ∃ n, g.req n rq :=
    fun {n op _ _ flag rq _} phase => ⟨n, (carried.miss n op flag rq (by rw [phase]; rfl)).1⟩
  have homed : ∀ {copy : Bool} {flag : Flag} {rq : Req Node},
      a.home.request = some (copy, flag, rq) → ∃ n, g.req n rq :=
    fun h => ⟨_, (carried.home _ _ _ h).1⟩
  have one : ∀ {rq : Req Node} {outs : List (Out Node)}, (∃ n, g.req n rq) →
      (∀ o ∈ outs, ∀ rq', o.req? = some rq' → rq' = rq) →
      ∀ o ∈ outs, ∀ rq', o.req? = some rq' → ∃ n, g.req n rq' := by
    intro rq outs valid only o member rq' h
    rw [only o member rq' h]
    exact valid
  cases step with
  | takeDone rq id flag o outs a' home written =>
    refine one (homed (by rw [home]; rfl)) ?_
    cases written <;> simp [Out.req?, eq_comm]
  | invalidateDone rq id flag L answer n outs a' home acked last written =>
    refine one (homed (by rw [home]; rfl)) ?_
    cases written <;> simp [Out.req?, eq_comm]
  | fetchDone rq id flag o home | fetchLockDone rq id flag o home | fetchFailed rq id flag o home
  | takeFailed rq id flag o home =>
    refine one (homed (by rw [home]; rfl)) ?_
    simp [Out.req?, BlockState.giveUp, eq_comm]
  | invalidateFailed rq id flag L answer status n ok home =>
    refine one (homed (by rw [home]; rfl)) ?_
    simp [Out.req?, BlockState.giveUp, eq_comm]
  | _ =>
    first
      | (simp [Out.req?]; done)
      | (refine one ⟨_, by assumption⟩ ?_; simp [Out.req?, eq_comm])
      | (refine one (missed (by assumption)) ?_; simp [Out.req?, BlockState.giveUp, eq_comm])

/-- Outputs suit the requests they are about. -/
theorem fits {outs : List (Out Node)} (carried : Carried g b a) (inv : Consistent b a)
    (step : Abs.Step g b a outs a') : ∀ o ∈ outs, o.Fits := by
  have missed : ∀ {n : Node} {op : AccessOp} {ptr id : Nat} {flag : Flag} {rq : Req Node}
      {stage : Stage Node}, a.phase n = .miss op ptr id flag rq stage →
      flag = rq.flag ∧ if op = .read then rq.Reads else rq.Writes :=
    fun {n op _ _ flag rq _} phase => (carried.miss n op flag rq (by rw [phase]; rfl)).2
  have written : ∀ {a a' : Abs Node} {rq : Req Node} {flag : Flag} {outs : List (Out Node)},
      flag = rq.flag → rq.Writes → Abs.HomeWritten b rq flag a outs a' → ∀ o ∈ outs, o.Fits := by
    intro a a' rq flag outs flagged writes done
    cases done with
    | applied unlocked => simp [writes, Req.op_of_writes' writes (flagged ▸ unlocked)]
    | granted locked => simp [writes, Req.op_of_writes writes (flagged ▸ locked)]
    | waits => simp [writes]
  cases step with
  | readHit n rq away mine op => simp [op]
  | readUpgrading n rq away mine op => simp [op]
  | writeHit n rq away mine op => simp [op]
  | rLockHit n rq away mine op => simp [op]
  | wLockHit n rq away mine op => simp [op]
  | refused n rq mine tried lock =>
    have kind : rq.Reads ∨ rq.Writes := lock.imp Or.inr Or.inr
    simpa using kind
  | postponed n rq mine kind => simpa using kind
  | unLock n rq away mine op => simp [op]
  | unLockNothing n rq mine op => simp [op]
  | homeUnLock rq mine op => simp [op]
  | miss n rq away mine op ptr id d ai phase fetch kind =>
    split at kind <;> simp [kind]
  | upgrade n rq away mine ptr id d phase kind => simp [kind]
  | readDone n rq away op ptr id flag stage phase answer unlocked =>
    obtain ⟨flagged, kind⟩ := missed phase
    rw [if_pos (inv.readAnswer_op away phase answer)] at kind
    simp [kind, Req.op_of_reads' kind (flagged ▸ unlocked)]
  | rLockDone n rq away op ptr id flag stage phase answer locked =>
    obtain ⟨flagged, kind⟩ := missed phase
    rw [if_pos (inv.readAnswer_op away phase answer)] at kind
    simp [kind, Req.op_of_reads kind (flagged ▸ locked)]
  | rLockLost n rq away op ptr id flag stage phase answer
  | readFailed n rq away op ptr id flag stage phase answer =>
    obtain ⟨flagged, kind⟩ := missed phase
    rw [if_pos (inv.readAnswer_op away phase answer)] at kind
    simp [kind]
  | writeDone n rq away op ptr id flag stage phase answer unlocked =>
    obtain ⟨flagged, kind⟩ := missed phase
    rw [if_neg (inv.lastAnswer_op away phase answer)] at kind
    simp [kind, Req.op_of_writes' kind (flagged ▸ unlocked)]
  | wLockDone n rq away op ptr id flag stage phase answer locked =>
    obtain ⟨flagged, kind⟩ := missed phase
    rw [if_neg (inv.lastAnswer_op away phase answer)] at kind
    simp [kind, Req.op_of_writes kind (flagged ▸ locked)]
  | wLockWaits n rq away op ptr id flag stage phase answer =>
    obtain ⟨flagged, kind⟩ := missed phase
    rw [if_neg (inv.lastAnswer_op away phase answer)] at kind
    simp [kind]
  | writeFailed n rq away ptr id flag stage phase | undoUpgrade n rq away ptr id flag stage phase =>
    obtain ⟨flagged, kind⟩ := missed phase
    simp [BlockState.giveUp, show rq.Writes by simpa using kind]
  | homeRead rq mine op | homeWrite rq mine op | homeRLock rq mine op | homeWLock rq mine op =>
    simp [op]
  | fetchShared rq mine kind | fetchInvalidate rq mine kind | invalidate rq mine kind =>
    simp [kind]
  | fetchDone rq id flag o home unlocked =>
    obtain ⟨-, flagged, kind⟩ := carried.home true flag rq (by rw [home]; rfl)
    simp only [if_true] at kind
    simp [kind, Req.op_of_reads' kind (flagged ▸ unlocked)]
  | fetchLockDone rq id flag o home locked =>
    obtain ⟨-, flagged, kind⟩ := carried.home true flag rq (by rw [home]; rfl)
    simp only [if_true] at kind
    simp [kind, Req.op_of_reads kind (flagged ▸ locked)]
  | fetchFailed rq id flag o home =>
    obtain ⟨-, flagged, kind⟩ := carried.home true flag rq (by rw [home]; rfl)
    simp only [if_true] at kind
    simp [kind]
  | takeDone rq id flag o outs a' home done =>
    obtain ⟨-, flagged, kind⟩ := carried.home false flag rq (by rw [home]; rfl)
    exact written flagged (by simpa using kind) done
  | invalidateDone rq id flag L answer n outs a' home acked last done =>
    obtain ⟨-, flagged, kind⟩ := carried.home false flag rq (by rw [home]; rfl)
    exact written flagged (by simpa using kind) done
  | takeFailed rq id flag o home | invalidateFailed rq id flag L answer status n ok home =>
    obtain ⟨-, flagged, kind⟩ := carried.home false flag rq (by rw [home]; rfl)
    simp [BlockState.giveUp, show rq.Writes by simpa using kind]
  | _ => simp

end Carried

theorem Home.Idle.settled {home : Home Node} (idle : home.Idle) : home.Settled := by
  cases home with
  | unshared | shared L => trivial
  | _ => exact idle.elim

/-- Whenever the home has ended what it was doing, its queues are served again. -/
theorem Abs.Step.settles {g : Guard Node} {b : Block Node} {a a' : Abs Node} {outs : List (Out Node)}
    (step : Abs.Step g b a outs a') (moving : ¬ a.home.Settled) (settled : a'.home.Settled) :
    .process b.wid ∈ outs := by
  cases step with
  | takeDone rq id flag o outs a' home written | invalidateDone rq id flag L answer n outs a' home acked last written =>
    cases written <;> simp
  | readServed c away ptr id flag rq phase idle => exact absurd idle.settled moving
  | _ =>
    first
      | exact absurd settled moving
      | exact settled.elim
      | (simp [BlockState.giveUp]; done)
      | (exfalso; simp_all [Home.Settled])

end Gam

import Gam.Simulation.Tell

/-! The home serves the requests of caching workers. -/

namespace Gam

open BlockState Function
variable {Node : Type} [DecidableEq Node]
variable {id ptr : Nat} {x : Msg Node}

def Request.isAccess : Request → Bool
  | .access _ _ _ _ => true
  | _ => false

def Msg.isAccess : Msg Node → Bool
  | .request r => r.isAccess
  | _ => false

/-- A home that is not in transition has nothing but misses and upgrades left to serve. -/
def Calm (b : Block Node) (s : BlockState Node) : Prop :=
  s.dirState.inTransition = true ∨ ∀ e ∈ s.toServe b.wid, e.2.isAccess = true

namespace Phase
variable {ph : Phase Node} {r : Request} {rest : List Request}

/-- An access is always the last request of a worker. -/
theorem requests_append {before : List Request} (eq : ph.requests = before ++ r :: rest)
    (accesses : ∀ x ∈ before, x.isAccess = true) : before = [] := by
  cases before with
  | nil => rfl
  | cons x before =>
    have access := accesses x (by simp)
    exfalso
    rw [List.cons_append] at eq
    cases ph with
    | absent ai => cases ai <;> simp at eq
    | evicting ptr id => simp at eq
    | miss op ptr id flag rq stage =>
      cases stage with
      | sent ai =>
        cases ai with
        | none => simp at eq
        | some p =>
          simp only [Phase.requests, Option.toList_some, List.map_cons, List.map_nil,
            List.cons_append, List.nil_append, List.cons.injEq] at eq
          rw [← eq.1] at access
          cases access
      | _ => simp at eq
    | _ => simp at eq

theorem requests_access {op : AccessOp} {flag : Flag} (eq : ph.requests = .access op id ptr flag :: rest) :
    rest = [] ∧ ∃ rq, ph = .miss op ptr id flag rq (.sent none) := by
  cases ph with
  | absent ai => cases ai <;> simp at eq
  | miss op' ptr' id' flag' rq stage =>
    cases stage with
    | sent ai =>
      cases ai with
      | none =>
        simp only [Phase.requests, Option.toList_none, List.map_nil, List.nil_append,
          List.cons.injEq, Request.access.injEq] at eq
        obtain ⟨⟨rfl, rfl, rfl, rfl⟩, rfl⟩ := eq
        exact ⟨rfl, rq, rfl⟩
      | some p => simp at eq
    | _ => simp at eq
  | _ => simp at eq

theorem requests_writeBack (eq : ph.requests = .writeBack id ptr :: rest) : rest = [] ∧ ph = .evicting ptr id := by
  cases ph with
  | absent ai => cases ai <;> simp at eq
  | evicting ptr' id' =>
    simp only [Phase.requests, List.cons.injEq, Request.writeBack.injEq] at eq
    obtain ⟨⟨rfl, rfl⟩, rfl⟩ := eq
    exact ⟨rfl, rfl⟩
  | miss op' ptr' id' flag' rq stage =>
    cases stage with
    | sent ai => cases ai <;> simp at eq
    | _ => simp at eq
  | _ => simp at eq

theorem requests_activeInvalidate {ptr : Nat} (eq : ph.requests = .activeInvalidate ptr :: rest) :
    (ph = .absent (some ptr) ∧ rest = []) ∨ ∃ op ptr' id flag rq, ph = .miss op ptr' id flag rq (.sent (some ptr)) ∧
        rest = [.access op id ptr' flag] := by
  cases ph with
  | absent ai =>
    cases ai with
    | none => simp at eq
    | some p =>
      simp only [Phase.requests, Option.toList_some, List.map_cons, List.map_nil, List.cons.injEq,
        Request.activeInvalidate.injEq] at eq
      obtain ⟨rfl, rfl⟩ := eq
      exact Or.inl ⟨rfl, rfl⟩
  | miss op' ptr' id' flag' rq stage =>
    cases stage with
    | sent ai =>
      cases ai with
      | none => simp at eq
      | some p =>
        simp only [Phase.requests, Option.toList_some, List.map_cons, List.map_nil,
          List.cons_append, List.nil_append, List.cons.injEq, Request.activeInvalidate.injEq] at eq
        obtain ⟨rfl, rfl⟩ := eq
        exact Or.inr ⟨_, _, _, _, _, rfl, rfl⟩
    | _ => simp at eq
  | _ => simp at eq

end Phase

variable {g : Guard Node} {b : Block Node} {s : BlockState Node} {a : Abs Node} {c : Node}
variable {q : List (Node × Msg Node)} {r : Request}

theorem Rel.client_away (rel : Rel b (s.extend b.wid ((c, x) :: q)) a) : c ≠ b.wid :=
  rel.home.clients (c, x) (by simp)

section
variable (rel : Rel b (s.extend b.wid ((c, .request r) :: q)) a) (away : c ≠ b.wid)
include rel away

/-- The request of worker `c` that the home takes up is the first one it has. -/
theorem Rel.first_request (calm : Calm b s) (settled : s.dirState.inTransition ≠ true) :
    queued c (s.toServe b.wid) = [] ∧ ∃ rest, (a.phase c).requests = r :: rest := by
  have requests := congrArg Mail.requests (rel.node c away).mail
  have eq : (a.phase c).requests = queued c (s.toServe b.wid) ++ r ::
      (queued c q ++ (msgs (s.chan c b.wid)).filterMap Msg.request?) := by
    simpa [BlockState.side, BlockState.mail, Phase.mail, queued] using requests.symm
  have first : queued c (s.toServe b.wid) = [] := by
    refine Phase.requests_append eq fun x member => ?_
    obtain ⟨e, listed, found⟩ := List.mem_filterMap.mp member
    have access := (calm.resolve_left settled) e listed
    split at found
    · cases request : e.2 <;> simp_all [Msg.isAccess]
    · cases found
  exact ⟨first, _, by rw [eq, first]; rfl⟩

/-- The home takes up a request of worker `c`. -/
theorem Rel.takeUp (first : queued c (s.toServe b.wid) = []) : Almost b (s.extend b.wid q) a c
      { (a.phase c).mail (a.home.cmd c) with requests := (a.phase c).requests.tail } := by
  have shows := rel.node c away
  refine ⟨⟨rel.home.entry, rel.home.pending, rel.home.line, rel.home.completions, rel.home.chan,
    fun e member => ?_, rel.home.writers, rel.home.mem⟩, fun n notHome other => ?_,
    ⟨shows.line, shows.bare, shows.pending, shows.completions, rfl, shows.lines, shows.landed,
      shows.punctual, shows.timely.sublist (s.inbox_extend b c b.wid _ q)⟩, ?_, rel.framed⟩
  · refine rel.home.clients e ?_
    simp only [extend_toServe, update_self, List.mem_append, List.mem_cons] at member ⊢
    exact member.imp_right Or.inr
  · have shows := rel.node n notHome
    have mail := s.mail_extend_home_of_ne b n c (.request r) q notHome (Ne.symm other)
    exact ⟨shows.line, shows.bare, shows.pending, shows.completions, mail.trans shows.mail,
      shows.lines, shows.landed, shows.punctual,
      shows.timely.sublist (s.inbox_extend b n b.wid (c, .request r) q)⟩
  · have mail : (s.extend b.wid ((c, .request r) :: q)).mail b c = (a.phase c).mail (a.home.cmd c) :=
      shows.mail
    rw [mail_extend_home_self _ _ _ r _ away first, mail]
    rfl

/-- The home takes up a request of worker `c` and sends it `items`. -/
theorem Rel.answer (first : queued c (s.toServe b.wid) = []) (settled : a.home.Settled) (ph : Phase Node)
    {items : List (Item Node)} {copy : Data} {a' : Abs Node} (batch : Framed items)
    (requests : (a.phase c).requests = r :: ph.requests) (line : ph.line = (a.phase c).line)
    (pending : ph.pending = (a.phase c).pending) (completions : ph.completions = (a.phase c).completions)
    (replies : ph.replies = (a.phase c).replies ++ (msgs items).filterMap Msg.reply?)
    (others : ∀ m ∈ msgs items, m.command? = none ∧ m.request? = none)
    (peer : ph.peer = (a.phase c).peer) (source : (a.phase c).source b.wid = none)
    (data : lines items = [] ∧ copy = a.copy c ∨
      ∃ ptr, lines items = [(ptr, copy)] ∧ ph.source b.wid = some (b.wid, ptr))
    (home : a'.home = a.home) (dirLocks : a'.dirLocks = a.dirLocks) (mem : a'.mem = a.mem)
    (rest : ∀ m, m ≠ c → a'.local m = a.local m) (mine : a'.local c = ⟨ph, a.home.cmd c, a.raw c, copy, a.locks c⟩) :
    Rel b ((s.extend b.wid q).send b.wid c items) a' := by
  refine (rel.takeUp away first).tell away ph batch line pending completions others
    (by simp [(Home.quiet_of_settled settled).2, Cmd.commands]) ?_ ?_ home dirLocks mem rest mine
  · simp [-Phase.requests, -Phase.replies, -Phase.peer, Phase.mail, requests, replies, peer]
  · rcases data with ⟨noData, same⟩ | ⟨ptr, sent, target⟩
    · exact Or.inl ⟨noData, same, Or.inr source⟩
    · exact Or.inr ⟨ptr, source, sent, target⟩

end

/-! ### Misses and upgrades -/

section access
variable {op : AccessOp} {id ptr : Nat} {flag : Flag} {rq : Req Node}

section
variable (rel : Rel b (s.extend b.wid ((c, .request (.access op id ptr flag)) :: q)) a) (away : c ≠ b.wid)
    (first : queued c (s.toServe b.wid) = []) (settled : a.home.Settled)
    (phase : a.phase c = .miss op ptr id flag rq (.sent none))
include rel away first settled phase

/-- The home takes up an access and answers it. -/
theorem Rel.answerAccess (ok : Bool) : Rel b ((s.extend b.wid q).send b.wid c [.msg (.reply (op.answer id ok))])
      (a.setPhase c (.miss op ptr id flag rq (.reply ok))) := by
  refine rel.answer away first settled (.miss op ptr id flag rq (.reply ok)) trivial ?_ ?_ ?_ ?_ ?_ ?_ ?_ ?_
    (Or.inl ⟨rfl, rfl⟩) rfl rfl rfl (fun m other => by simp [update_of_ne other]) (by simp)
  all_goals simp [phase]

/-- The home takes up an access and answers it with the block. -/
theorem Rel.answerData (d : Data) :
    Rel b ((s.extend b.wid q).send b.wid c [.line ptr d, .msg (.reply (op.answer id true))])
      ((a.setPhase c (.miss op ptr id flag rq (.reply true))).post c d) := by
  refine rel.answer away first settled (.miss op ptr id flag rq (.reply true))
    ⟨⟨_, _, rfl, rfl⟩, trivial⟩ ?_ ?_ ?_ ?_ ?_ ?_ ?_ ?_ (Or.inr ⟨ptr, rfl, rfl⟩) rfl rfl rfl
    (fun m other => by simp [update_of_ne other]) (by simp)
  all_goals simp [phase]

/-- The home takes up an access that it cannot answer by itself. -/
theorem Rel.accept : Rel b (s.extend b.wid q) (a.setPhase c (.miss op ptr id flag rq .served)) := by
  have nothing : (s.extend b.wid q).send b.wid c [] = s.extend b.wid q := by
    simp only [BlockState.send, List.append_nil, ite_self]
  rw [← nothing]
  refine rel.answer away first settled (.miss op ptr id flag rq .served) trivial ?_ ?_ ?_ ?_ ?_ ?_ ?_ ?_
    (Or.inl ⟨rfl, rfl⟩) rfl rfl rfl (fun m other => by simp [update_of_ne other]) (by simp)
  all_goals simp [phase]

end

/-- `ProcessRemoteRead`. -/
theorem Rel.processRemoteRead (rel : Rel b (s.extend b.wid ((c, .request (.access .read id ptr flag)) :: q)) a)
    (inv : Consistent b a) (calm : Calm b s) (newId : Nat) :
    Matched g b ((s.processRemoteRead b c id ptr flag newId).extend b.wid q, []) a := by
  have away := rel.client_away
  unfold BlockState.processRemoteRead
  by_cases moving : s.dirState.inTransition = true
  · simp only [if_pos moving, extend_addToServe]
    exact .stay rel
  · simp only [if_neg moving]
    obtain ⟨first, rest, requests⟩ := rel.first_request away calm moving
    obtain ⟨-, rq, phase⟩ := Phase.requests_access requests
    have state : s.dirState = a.home.dirState := rel.dirState
    have settled : a.home.Settled := Home.settled_of_dirState (state ▸ moving)
    have locks : s.dirLocks = a.dirLocks := rel.dirLocks
    have sharers : s.sharers = a.home.sharers := rel.sharers
    by_cases dirty : s.dirState = .dirty
    · obtain ⟨o, home⟩ := Home.dirty_of_dirState (state.symm.trans dirty)
      rw [home] at sharers
      simp only [dirty, ne_eq, not_true_eq_false, if_false, sharers, Home.sharers]
      exact .single (.readForwarded c away ptr id flag rq newId o phase home)
        ((rel.accept away first settled phase).askOwner (inv.owner_away home) home rfl rfl rfl rfl fun _ => rfl)
    · simp only [dirty, ne_eq, not_false_eq_true, if_true]
      have idle : a.home.Idle := Home.idle_of_dirState (state ▸ moving) (state ▸ dirty)
      have unowned := Home.owner_of_idle idle
      refine .tried (fun tried => .single (.readRefused c away ptr id flag rq phase idle tried)
        (rel.answerAccess away first settled phase false)) (fun _ _ => ?_) fun locked => ?_
      · rw [extend_addToServe]
        exact .stay rel
      · have mem : s.mem = a.mem := (rel.no_writers unowned).2
        rw [mem]
        refine .single (.readServed c away ptr id flag rq phase idle (by simpa [locks] using locked)) ?_
        exact (rel.answerData away first settled phase a.mem).setEntry (rel.home.entry.toShared idle ⟨c, ptr⟩)
          (by cases home : a.home <;> simp_all [Home.pending, Home.Idle])
          (fun n _ => by cases home : a.home <;> simp_all [Home.cmd, Home.Idle])
          (Or.inl unowned.symm)

theorem Home.unshared_of_settled {home : Home Node} (settled : home.dirState.inTransition ≠ true)
    (unowned : home.dirState ≠ .dirty) (unlisted : home.dirState ≠ .shared) : home = .unshared := by
  cases home with
  | unshared => rfl
  | shared L => exact absurd rfl unlisted
  | dirty o => exact absurd rfl unowned
  | _ => exact absurd rfl settled

/-- The entry of a home that nobody works for hands the block to a new owner. -/
theorem Rel.toOwner (rel : Rel b s a) (idle : a.home.Idle) (x : GAddr Node) :
    Rel b (s.setEntry (Directory.toDirty x s.entry)) (a.setHome (.dirty x)) := by
  refine rel.setEntry (EntryOk.toDirty rel.home.entry.locks x) ?_ (fun n _ => ?_)
    (Or.inr (rel.no_writers (Home.owner_of_idle idle)).1)
  · cases home : a.home <;> simp_all [Home.pending, Home.Idle]
  · cases home : a.home <;> simp_all [Home.cmd, Home.Idle]

/-- `ProcessRemoteWrite`. -/
theorem Rel.processRemoteWrite (rel : Rel b (s.extend b.wid ((c, .request (.access op id ptr flag)) :: q)) a)
    (inv : Consistent b a) (calm : Calm b s) (write : op ≠ .read) (newId : Nat) :
    Matched g b ((s.processRemoteWrite b c op id ptr flag newId).extend b.wid q, []) a := by
  have away := rel.client_away
  obtain ⟨granted, refused⟩ := AccessOp.answer_write write id
  unfold BlockState.processRemoteWrite BlockState.grantOwnership
  by_cases moving : s.dirState.inTransition = true
  · simp only [if_pos moving, extend_addToServe]
    exact .stay rel
  simp only [if_neg moving]
  obtain ⟨first, rest, requests⟩ := rel.first_request away calm moving
  obtain ⟨-, rq, phase⟩ := Phase.requests_access requests
  have state : s.dirState = a.home.dirState := rel.dirState
  have settled : a.home.Settled := Home.settled_of_dirState (state ▸ moving)
  have locks : s.dirLocks = a.dirLocks := rel.dirLocks
  have sharers : s.sharers = a.home.sharers := rel.sharers
  by_cases dirty : s.dirState = .dirty
  · obtain ⟨o, home⟩ := Home.dirty_of_dirState (state.symm.trans dirty)
    rw [home] at sharers
    simp only [dirty, ne_eq, not_true_eq_false, if_false, sharers, Home.sharers]
    exact .single (.writeForwarded c away op ptr id flag rq newId o phase write home)
      ((rel.accept away first settled phase).askOwner (inv.owner_away home) home rfl rfl rfl rfl fun _ => rfl)
  simp only [if_pos (show s.dirState ≠ .dirty from dirty)]
  have idle : a.home.Idle := Home.idle_of_dirState (state ▸ moving) (state ▸ dirty)
  refine .tried (fun tried => ?_) (fun _ _ => ?_) fun locked => ?_
  · rw [← refused]
    exact .single (.writeRefused c away op ptr id flag rq phase write idle tried)
      (rel.answerAccess away first settled phase false)
  · rw [extend_addToServe]
    exact .stay rel
  have unlocked : a.dirLocks.isBlockLocked = false := by simpa [locks] using locked
  rw [← granted]
  by_cases shared : s.dirState = .shared
  · simp only [if_pos shared]
    obtain ⟨L, home⟩ := Home.shared_of_dirState (state.symm.trans shared)
    rw [home] at sharers
    simp only [sharers, Home.sharers]
    by_cases alone : ((L.map GAddr.wid).filter fun n => decide (n ≠ c)).isEmpty = true
    · simp only [if_pos alone, List.nil_append]
      refine .single (.upgradeGranted c away op ptr id flag rq L phase write home ?_ unlocked)
        ((rel.answerAccess away first settled phase true).toOwner idle ⟨c, ptr⟩)
      intro x member
      by_contra other
      have : x.wid ∈ (L.map GAddr.wid).filter fun n => decide (n ≠ c) := by
        simpa [other] using ⟨x, member, rfl⟩
      rw [List.isEmpty_iff.mp alone] at this
      cases this
    · simp only [if_neg alone]
      have wf := inv.home
      rw [home] at wf
      have others : ∃ x ∈ L, x.wid ≠ c := by
        obtain ⟨y, member⟩ := List.exists_mem_of_ne_nil _ (fun h => alone (List.isEmpty_iff.mpr h))
        obtain ⟨listed, ne⟩ := List.mem_filter.mp member
        obtain ⟨x, inL, rfl⟩ := List.mem_map.mp listed
        exact ⟨x, inL, by simpa using ne⟩
      refine .single (.writeInvalidates c away op ptr id flag rq newId L phase write home others unlocked) ?_
      have count : Home.outstanding L
          (Home.askAll ((L.map GAddr.wid).filter fun n => decide (n ≠ c))) =
            ((L.map GAddr.wid).filter fun n => decide (n ≠ c)).length := by
        rw [Home.outstanding, ← List.countP_eq_length_filter, List.countP_map]
        congr 1
        refine List.countP_congr fun x member => ?_
        have listed : x.wid ∈ L.map GAddr.wid := List.mem_map.mpr ⟨x, member, rfl⟩
        simp only [Home.askAll, List.mem_filter, listed, true_and, Function.comp_apply]
        by_cases same : x.wid = c <;> simp [same]
      refine (rel.accept away first settled phase).ask (by simp [home, Home.dirState])
        (by rw [Abs.setPhase_home, home]; rfl) (fun n => by rw [Abs.setPhase_home, home]; rfl)
        (fun n member => ?_) (wf.1.nodup.filter _) rfl (by rw [Abs.setPhase_home, home]; rfl)
        (by rw [Home.pending, count]) (by rw [Abs.setPhase_home, home]; rfl) (fun n => ?_)
      · obtain ⟨x, listed, rfl⟩ := List.mem_map.mp (List.mem_filter.mp member).1
        exact wf.1.away x listed
      · by_cases member : n ∈ (L.map GAddr.wid).filter fun n => decide (n ≠ c)
        · simp only [Home.cmd, Home.askAll, if_pos member]; rfl
        · simp only [Home.cmd, Home.askAll, if_neg member]; rfl
  · simp only [if_neg shared]
    have home := Home.unshared_of_settled (state ▸ moving) (state ▸ dirty) (state ▸ shared)
    have mem : s.mem = a.mem := (rel.no_writers (Home.owner_of_idle idle)).2
    rw [mem]
    exact .single (.writeGranted c away op ptr id flag rq phase write home unlocked)
      ((rel.answerData away first settled phase a.mem).toOwner idle ⟨c, ptr⟩)

end access

/-! ### Evictions -/

/-- A line leaves the directory. -/
theorem Rel.clear (rel : Rel b s a) (settled : a.home.Settled) (x : GAddr Node)
    (owner : a.home = .dirty x → ∀ n, mems (s.chan n b.wid) = []) :
    Rel b (s.setEntry (Directory.clear x s.entry)) (a.setHome (a.home.clear x)) := by
  refine rel.setEntry (rel.home.entry.clear settled x)
    ((Home.clear_quiet settled).1.trans (Home.quiet_of_settled settled).1.symm)
    (fun n _ => ((Home.clear_quiet settled).2 n).trans ((Home.quiet_of_settled settled).2 n).symm) ?_
  by_cases mine : a.home = .dirty x
  · exact Or.inr (owner mine)
  · left
    cases home : a.home with
    | unshared => rfl
    | shared L => dsimp only; split <;> rfl
    | dirty o =>
      have other : o ≠ x := fun same => mine (by rw [home, same])
      simp only [if_neg other]
    | _ => rfl

/-- `ProcessRemoteEvictShared`. -/
theorem Rel.processRemoteEvictShared {ptr : Nat}
    (rel : Rel b (s.extend b.wid ((c, .request (.activeInvalidate ptr)) :: q)) a)
    (inv : Consistent b a) (calm : Calm b s) :
    Matched g b ((s.processRemoteEvictShared b c ptr).extend b.wid q, []) a := by
  have away := rel.client_away
  unfold BlockState.processRemoteEvictShared
  by_cases moving : s.dirState.inTransition = true
  · simp only [if_pos moving, extend_addToServe]
    exact .stay rel
  simp only [if_neg moving]
  obtain ⟨first, rest, requests⟩ := rel.first_request away calm moving
  have state : s.dirState = a.home.dirState := rel.dirState
  have settled : a.home.Settled := Home.settled_of_dirState (state ▸ moving)
  -- a worker that has dropped its copy is not the owner
  have notOwner : a.home ≠ .dirty ⟨c, ptr⟩ := by
    intro home
    have fits := inv.fits c away
    rw [home] at fits
    have owns := fits.1.2 rfl
    rcases Phase.requests_activeInvalidate requests with ⟨phase, -⟩ | ⟨op, ptr', id, flag, rq, phase, -⟩ <;>
      · rw [phase] at owns
        exact owns
  have nothing : (s.extend b.wid q).send b.wid c [] = s.extend b.wid q := by
    simp only [BlockState.send, List.append_nil, ite_self]
  rcases Phase.requests_activeInvalidate requests with ⟨phase, -⟩ | ⟨op, ptr', id, flag, rq, phase, -⟩
  · have next : Rel b (s.extend b.wid q) (a.setPhase c (.absent none)) := by
      rw [← nothing]
      refine rel.answer away first settled (.absent none) trivial ?_ ?_ ?_ ?_ ?_ ?_ ?_ ?_
        (Or.inl ⟨rfl, rfl⟩) rfl rfl rfl (fun m other => by simp [update_of_ne other]) (by simp)
      all_goals simp [phase]
    exact .single (.dropped c away ptr settled phase)
      (next.clear settled ⟨c, ptr⟩ fun home => absurd home notOwner)
  · have next : Rel b (s.extend b.wid q) (a.setPhase c (.miss op ptr' id flag rq (.sent none))) := by
      rw [← nothing]
      refine rel.answer away first settled (.miss op ptr' id flag rq (.sent none)) trivial
        ?_ ?_ ?_ ?_ ?_ ?_ ?_ ?_
        (Or.inl ⟨rfl, rfl⟩) rfl rfl rfl (fun m other => by simp [update_of_ne other]) (by simp)
      all_goals simp [phase]
    exact .single (.droppedFirst c away ptr settled op ptr' id flag rq phase)
      (next.clear settled ⟨c, ptr⟩ fun home => absurd home notOwner)

/-- Nothing is on its way to the memory of a home that takes up the write-back of its owner. -/
theorem Rel.written_back (rel : Rel b (s.extend b.wid ((c, .request (.writeBack id ptr)) :: q)) a) (away : c ≠ b.wid)
    (first : queued c (s.toServe b.wid) = []) (phase : a.phase c = .evicting ptr id)
    (home : a.home = .dirty ⟨c, ptr⟩) (n : Node) : mems (s.chan n b.wid) = [] := by
  by_contra some_
  have owner := rel.home.writers n some_
  rw [home] at owner
  obtain rfl : c = n := Option.some.inj owner
  refine some_ ((rel.framed c b.wid).mems_eq_nil fun x member => ?_)
  have mail := (rel.node c away).mail
  have acks : (msgs (s.chan c b.wid)).filterMap Msg.reply? = [] := by
    simpa [BlockState.side, BlockState.mail, Phase.mail, home, Home.cmd, Cmd.acks] using
      congrArg Mail.acks mail
  have requests : (msgs (s.chan c b.wid)).filterMap Msg.request? = [] := by
    have all := congrArg Mail.requests mail
    simp only [BlockState.side, BlockState.mail, extend_toServe, update_self,
      extend_chan, Phase.mail, Abs.local, phase, Phase.requests, queued,
      List.filterMap_append] at all
    simp only [queued] at first
    rw [first] at all
    simp only [List.filterMap_cons, if_true, Msg.request?_request, List.nil_append, List.cons_append,
      List.cons.injEq, true_and, List.append_eq_nil_iff] at all
    exact all.2
  cases x with
  | command c => rfl
  | reply r =>
    have := List.filterMap_eq_nil_iff.mp acks _ member
    cases this
  | request r =>
    have := List.filterMap_eq_nil_iff.mp requests _ member
    cases this

/-- `ProcessRemoteEvictDirty`. -/
theorem Rel.processRemoteEvictDirty
    (rel : Rel b (s.extend b.wid ((c, .request (.writeBack id ptr)) :: q)) a) (calm : Calm b s) :
    Matched g b ((s.processRemoteEvictDirty b c id ptr).extend b.wid q, []) a := by
  have away := rel.client_away
  unfold BlockState.processRemoteEvictDirty
  by_cases moving : s.dirState.inTransition = true
  · simp only [if_pos moving, extend_addToServe]
    exact .stay rel
  simp only [if_neg moving]
  obtain ⟨first, rest, requests⟩ := rel.first_request away calm moving
  have state : s.dirState = a.home.dirState := rel.dirState
  have settled : a.home.Settled := Home.settled_of_dirState (state ▸ moving)
  obtain ⟨-, phase⟩ := Phase.requests_writeBack requests
  have next : Rel b ((s.extend b.wid q).send b.wid c [.msg (.reply (.imm id))])
      (a.setPhase c (.evicted ptr id)) := by
    refine rel.answer away first settled (.evicted ptr id) trivial ?_ ?_ ?_ ?_ ?_ ?_ ?_ ?_
      (Or.inl ⟨rfl, rfl⟩) rfl rfl rfl (fun m other => by simp [update_of_ne other]) (by simp)
    all_goals simp [phase]
  refine .single (.writtenBack c away ptr id settled phase)
    (next.clear settled ⟨c, ptr⟩ fun home n => ?_)
  simpa [Ne.symm away] using rel.written_back away first phase home n

/-- Entries for caching workers in the queue of the home are requests. -/
theorem Rel.is_request (rel : Rel b (s.extend b.wid ((c, x) :: q)) a) : ∃ r, x = .request r := by
  have stray := congrArg Mail.stray (rel.node c rel.client_away).mail
  cases x with
  | request r => exact ⟨r, rfl⟩
  | command d => simp [BlockState.side, BlockState.mail, Phase.mail, strayRequests] at stray
  | reply r => simp [BlockState.side, BlockState.mail, Phase.mail, strayRequests] at stray

/-- The home processes what worker `c` has asked for. -/
theorem Rel.serveRequest (rel : Rel b (s.extend b.wid ((c, x) :: q)) a)
    (inv : Consistent b a) (calm : Calm b s) (newId : Nat) :
    Matched g b ((s.processRequest b b.wid c x newId).extend b.wid q, []) a := by
  obtain ⟨r, rfl⟩ := rel.is_request
  cases r with
  | access op id ptr flag =>
    cases op with
    | read => exact rel.processRemoteRead inv calm newId
    | write => exact rel.processRemoteWrite inv calm (by decide) newId
    | writePermissionOnly => exact rel.processRemoteWrite inv calm (by decide) newId
  | activeInvalidate ptr => exact rel.processRemoteEvictShared inv calm
  | writeBack id ptr => exact rel.processRemoteEvictDirty calm

namespace Calm

/-- What the home leaves in its queue keeps it calm. -/
theorem addToServe (calm : Calm b s)
    (access : s.dirState.inTransition = true ∨ x.isAccess = true) : Calm b (s.addToServe b.wid c x) := by
  rcases calm with moving | accesses
  · exact Or.inl moving
  · rcases access with moving | access
    · exact Or.inl moving
    · refine Or.inr fun e member => ?_
      simp only [addToServe_toServe, update_self, List.mem_append, List.mem_singleton] at member
      rcases member with member | rfl
      · exact accesses e member
      · exact access

/-- A settled home can do anything that leaves its queue alone. -/
theorem of_settled (calm : Calm b s) (settled : s.dirState.inTransition ≠ true) {s' : BlockState Node}
    (toServe : s'.toServe b.wid = s.toServe b.wid) : Calm b s' :=
  Or.inr (by rw [toServe]; exact calm.resolve_left settled)

theorem processRequest (calm : Calm b s) (r : Request) (newId : Nat) :
    Calm b (s.processRequest b b.wid c (.request r) newId) := by
  by_cases moving : s.dirState.inTransition = true
  · have waits : s.processRequest b b.wid c (.request r) newId = s.addToServe b.wid c (.request r) := by
      cases r with
      | access op id ptr flag =>
        cases op <;> simp [BlockState.processRequest, BlockState.processRemoteRead,
          BlockState.processRemoteWrite, moving]
      | activeInvalidate ptr =>
        simp [BlockState.processRequest, BlockState.processRemoteEvictShared, moving]
      | writeBack id ptr =>
        simp [BlockState.processRequest, BlockState.processRemoteEvictDirty, moving]
    rw [waits]
    exact calm.addToServe (Or.inl moving)
  · have served : ∀ s', s'.toServe b.wid = s.toServe b.wid → Calm b s' := fun s' =>
      calm.of_settled moving
    have waits : r.isAccess = true → Calm b (s.addToServe b.wid c (.request r)) := fun access =>
      calm.addToServe (Or.inr access)
    cases r with
    | access op id ptr flag =>
      cases op <;>
        · simp only [BlockState.processRequest, BlockState.processRemoteRead,
            BlockState.processRemoteWrite, BlockState.grantOwnership, if_neg moving]
          repeat' split
          all_goals first | exact waits rfl | exact served _ rfl
    | activeInvalidate ptr =>
      simp only [BlockState.processRequest, BlockState.processRemoteEvictShared, if_neg moving]
      exact served _ rfl
    | writeBack id ptr =>
      simp only [BlockState.processRequest, BlockState.processRemoteEvictDirty, if_neg moving]
      exact served _ rfl

end Calm

end Gam

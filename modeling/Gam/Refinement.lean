import Gam.Lts
import Gam.Simulation.Command
import Gam.Simulation.Answer
import Gam.Simulation.Hear
import Gam.Simulation.Serve

/-! Every step of the code on one block is a run of the abstract protocol with the same labels. -/

namespace Gam
variable {Node : Type} [DecidableEq Node]
variable {g : Guard Node} {b : Block Node} {s : BlockState Node} {a : Abs Node}

/-- What the assumptions `g` have to say about an event. -/
def Permits (g : Guard Node) (b : Block Node) (s : BlockState Node) (a : Abs Node) : BlockState.Event Node → Prop
  | .request n rq _ =>
    g.req n rq ∧ (rq.op = .read → n ≠ b.wid → s.hitsMoving n = true → g.hit a n rq)
  | .unLock n rq => g.req n rq
  | .deliver src dst _ =>
    ∀ m rest, s.chan src dst = .msg m :: rest →
      (∀ r, m = .reply r → dst ≠ b.wid → s.undoesUpgrade b dst src r = true → g.undo a dst) ∧
      ∀ c, m = .command c → s.acksLocked dst c = true → g.ack a dst
  | .serveRemote n _ =>
    ∀ e ∈ s.toServe n, ∀ c, e.2 = .command c → s.acksLocked n c = true → g.ack a n
  | .evict _ _ | .complete _ | .takeLocal _ => True

/-- Messages reach a home that has cleared its queue, and only an `UNLOCK` unlocks. -/
def Ready (b : Block Node) (s : BlockState Node) : BlockState.Event Node → Prop
  | .deliver _ dst _ => dst = b.wid → Calm b s
  | .unLock _ rq => rq.op = .unlock
  | _ => True

/-- The result of an event is reached by a run of the abstract protocol. -/
def Refines (g : Guard Node) (b : Block Node) (res : BlockState Node × List (Out Node)) (a : Abs Node) : Prop :=
  ∃ a', Lts.Run (Abs.Step g b) a res.2 a' ∧ Rel b res.1 a'

theorem Matched.refines {res : BlockState Node × List (Out Node)} (matched : Matched g b res a) :
    Refines g b res a := by
  obtain ⟨a', step, rel⟩ := matched
  rcases step with ⟨silent, rfl⟩ | step
  · exact ⟨a', by rw [silent]; exact .refl, rel⟩
  · exact ⟨a', .single step, rel⟩

theorem Consistent.run {outs : List (Out Node)} {a' : Abs Node} (inv : Consistent b a)
    (run : Lts.Run (Abs.Step g b) a outs a') : Consistent b a' :=
  run.invariant inv fun _ _ _ inv step => inv.step step

/-! ### Local requests -/

theorem Rel.localRequest (rel : Rel b s a) (inv : Consistent b a) {n : Node} {rq : Req Node}
    (mine : g.req n rq) (allowed : rq.op = .read → n ≠ b.wid → s.hitsMoving n = true → g.hit a n rq)
    (fresh : Fresh) : Matched g b (s.localRequest b n rq fresh) a := by
  unfold BlockState.localRequest
  by_cases isHome : n = b.wid
  · subst isHome
    simp only [if_true]
    cases op : rq.op with
    | read => exact rel.homeRead inv mine op fresh
    | write => exact rel.homeWrite inv mine op fresh
    | rlock => exact rel.homeRLock inv mine op fresh
    | wlock => exact rel.homeWLock inv mine op fresh
    | unlock | mfence | sfence => exact .stay rel
  · simp only [if_neg isHome]
    cases op : rq.op with
    | read =>
      refine rel.cacheRead isHome mine op (fun l line moving => allowed op isHome ?_) fresh
      simpa [BlockState.hitsMoving, line] using moving
    | write => exact rel.cacheWrite isHome mine op fresh
    | rlock => exact rel.cacheRLock isHome mine op fresh
    | wlock => exact rel.cacheWLock isHome mine op fresh
    | unlock | mfence | sfence => exact .stay rel

/-! ### Queues -/

/-- A caching worker has never postponed more than one command. -/
theorem Rel.only_entry {n : Node} {e : Node × Msg Node} {q : List (Node × Msg Node)}
    (rel : Rel b (s.extend n (e :: q)) a) (away : n ≠ b.wid) : q = [] := by
  obtain ⟨c, rfl⟩ := rel.is_command away
  have opened := rel.only_command away
  cases q with
  | nil => rfl
  | cons e' q =>
    have shifted : s.extend n ((b.wid, .command c) :: e' :: q) =
        (s.extend n [(b.wid, .command c)]).extend n (e' :: q) := by
      simp [BlockState.extend]
    have rel' := rel
    rw [shifted] at rel'
    obtain ⟨c', rfl⟩ := rel'.is_command away
    have commands := congrArg Mail.commands (rel.node n away).mail
    simp [BlockState.side, BlockState.mail, Phase.mail, opened, Cmd.commands, ordered,
      List.append_eq_cons_iff] at commands

/-- The home processes what it had postponed. -/
theorem Rel.serveAtHome (q : List (Node × Msg Node)) (newId : Nat)
    (rel : Rel b (s.extend b.wid q) a) (inv : Consistent b a) (calm : Calm b s) : Refines g b ((q.foldl
      (fun acc entry => (acc.1.processRequest b b.wid entry.1 entry.2 acc.2, acc.2 + 1)) (s, newId)).1, []) a := by
  induction q generalizing s a newId with
  | nil =>
    rw [BlockState.extend_nil] at rel
    exact ⟨a, .refl, rel⟩
  | cons e q ih =>
    obtain ⟨r, request⟩ := rel.is_request
    obtain ⟨a', run, rel'⟩ := (rel.serveRequest (g := g) inv calm newId).refines
    have calm' : Calm b (s.processRequest b b.wid e.1 e.2 newId) := by
      rw [request]
      exact calm.processRequest r newId
    obtain ⟨a'', run', rel''⟩ := ih (newId + 1) rel' (inv.run run) calm'
    exact ⟨a'', run.trans run', rel''⟩

/-- `ProcessToServeRequest`, the remote part. -/
theorem Rel.serveRemote (rel : Rel b s a) (inv : Consistent b a) (n : Node) (newId : Nat)
    (allowed : ∀ e ∈ s.toServe n, ∀ c, e.2 = .command c → s.acksLocked n c = true → g.ack a n) :
    Refines g b (s.serveRemote b n newId, []) a := by
  have whole : Rel b ((s.clearToServe n).extend n (s.toServe n)) a := by
    rw [BlockState.clearToServe_extend]
    exact rel
  unfold BlockState.serveRemote
  by_cases isHome : n = b.wid
  · subst isHome
    exact whole.serveAtHome (s.toServe b.wid) newId inv (Or.inr (by simp))
  · cases queue : s.toServe n with
    | nil =>
      rw [queue, BlockState.extend_nil] at whole
      exact ⟨a, .refl, whole⟩
    | cons e q =>
      rw [queue] at whole
      obtain rfl := whole.only_entry isHome
      have served := whole.serveCommand (g := g) inv isHome newId (allowed e (by simp [queue]))
      rw [BlockState.extend_nil] at served
      exact served.refines

/-! ### Messages -/

/-- A message is taken from its channel and processed as if it had been postponed before. -/
theorem Rel.arrive {src dst : Node} {m : Msg Node} {rest : List (Item Node)} (rel : Rel b s a)
    (front : s.chan src dst = .msg m :: rest) (fresh : m.reply? = none) :
    Rel b ((s.setChan src dst rest).extend dst [(src, m)]) a := by
  have mems_eq : ∀ k, mems ((s.setChan src dst rest).chan k b.wid) = mems (s.chan k b.wid) := by
    intro k
    by_cases here : k = src ∧ b.wid = dst
    · obtain ⟨rfl, rfl⟩ := here; simp [front]
    · simp [here]
  have lines_eq : ∀ k n, lines ((s.setChan src dst rest).chan k n) = lines (s.chan k n) := by
    intro k n
    by_cases here : k = src ∧ n = dst
    · obtain ⟨rfl, rfl⟩ := here; simp [front]
    · simp [here]
  by_cases atHome : dst = b.wid
  · subst atHome
    have away : src ≠ b.wid := by
      rintro rfl
      rw [rel.home.chan] at front
      cases front
    refine ⟨⟨rel.home.entry, rel.home.pending, rel.home.line, rel.home.completions, ?_, ?_, ?_, ?_⟩,
      fun n notHome => ?_, rel.framed.pop front⟩
    · simpa [Ne.symm away] using rel.home.chan
    · intro e member
      rcases List.mem_append.mp (by simpa using member : e ∈ s.toServe b.wid ++ [(src, m)]) with old | new
      · exact rel.home.clients e old
      · obtain rfl := List.mem_singleton.mp new
        exact away
    · intro n some_
      exact rel.home.writers n (mems_eq n ▸ some_)
    · have mem := rel.home.mem
      simp only [← mems_eq] at mem
      exact mem
    · have shows := rel.node n notHome
      exact {
        line := shows.line
        bare := shows.bare
        pending := shows.pending
        completions := shows.completions
        mail := (s.mail_arrive_home b n src notHome front fresh).trans shows.mail
        lines := fun o x member => by
          refine shows.lines o x (?_ : x ∈ lines (s.chan o n))
          rw [← lines_eq]
          exact member
        landed := by
          have landed := shows.landed
          simp only [BlockState.side, ← lines_eq] at landed
          exact landed
        punctual := by
          refine List.Pairwise.sublist ?_ shows.punctual
          by_cases same : n = src
          · subst n; simp [BlockState.side, front]
          · simp [BlockState.side, same]
        timely := by
          have timely := shows.timely
          simpa [BlockState.side, notHome] using timely }
  · have fromHome : src = b.wid := by
      by_contra other
      have peer := congrFun (congrArg Mail.peer (rel.node dst atHome).mail) src
      have list : (a.phase dst).peer src = m :: msgs rest := by
        simpa [BlockState.side, BlockState.mail, Phase.mail, other, front] using peer.symm
      obtain ⟨-, r, rfl⟩ := Phase.peer_singleton list
      cases fresh
    subst fromHome
    refine ⟨⟨rel.home.entry, rel.home.pending, rel.home.line, rel.home.completions, ?_, ?_, ?_, ?_⟩,
      fun n notHome => ?_, rel.framed.pop front⟩
    · simpa [Ne.symm atHome] using rel.home.chan
    · simpa [Ne.symm atHome] using rel.home.clients
    · intro n some_
      exact rel.home.writers n (mems_eq n ▸ some_)
    · have mem := rel.home.mem
      simp only [← mems_eq] at mem
      exact mem
    · have shows := rel.node n notHome
      exact {
        line := shows.line
        bare := shows.bare
        pending := shows.pending
        completions := shows.completions
        mail := (s.mail_arrive_worker b n dst atHome notHome front fresh).trans shows.mail
        lines := fun o x member => by
          refine shows.lines o x (?_ : x ∈ lines (s.chan o n))
          rw [← lines_eq]
          exact member
        landed := by
          have landed := shows.landed
          simp only [BlockState.side, ← lines_eq] at landed
          exact landed
        punctual := by
          have punctual := shows.punctual
          simpa [BlockState.side, notHome] using punctual
        timely := by
          have timely := shows.timely
          by_cases same : n = dst
          · subst n; simpa [BlockState.side, front] using timely
          · simpa [BlockState.side, same] using timely }

/-- Data reaches the home memory, or a place where nobody looks at it. -/
theorem Rel.popData {src dst : Node} {item : Item Node} {rest : List (Item Node)} (rel : Rel b s a)
    (front : s.chan src dst = item :: rest) (data : item.msg? = none) (noLine : dst ≠ b.wid → item.line? = none) :
    Rel b ((s.setChan src dst rest).setMem (if dst = b.wid then item.mem?.getD s.mem else s.mem)) a := by
  have out : ∀ n, msgs ((s.setChan src dst rest).chan n b.wid) = msgs (s.chan n b.wid) := by
    intro n
    by_cases here : n = src ∧ b.wid = dst
    · obtain ⟨rfl, rfl⟩ := here
      simp [front, msgs, data]
    · simp [here]
  have inbox : ∀ n, msgs ((s.setChan src dst rest).chan b.wid n) = msgs (s.chan b.wid n) := by
    intro n
    by_cases here : b.wid = src ∧ n = dst
    · obtain ⟨rfl, rfl⟩ := here
      simp [front, msgs, data]
    · simp [here]
  have lines_eq : ∀ k n, n ≠ b.wid → lines ((s.setChan src dst rest).chan k n) = lines (s.chan k n) := by
    intro k n away
    by_cases here : k = src ∧ n = dst
    · obtain ⟨rfl, rfl⟩ := here
      simp [front, lines, noLine away]
    · simp [here]
  have others : ∀ k, k ≠ src ∨ dst ≠ b.wid →
      (s.setChan src dst rest).chan k b.wid = s.chan k b.wid := by
    intro k different
    have : ¬ (k = src ∧ b.wid = dst) := fun h => different.elim (· h.1) (· h.2.symm)
    simp [this]
  refine ⟨⟨rel.home.entry, rel.home.pending, rel.home.line, rel.home.completions, ?_, rel.home.clients,
    fun n some_ => ?_, ?_⟩, fun n notHome => ?_, rel.framed.pop front⟩
  · by_cases here : b.wid = src ∧ b.wid = dst
    · rw [← here.1, ← here.2, rel.home.chan] at front
      cases front
    · simpa [here] using rel.home.chan
  · by_cases here : n = src ∧ b.wid = dst
    · obtain ⟨rfl, rfl⟩ := here
      refine rel.home.writers n fun none_ => some_ ?_
      rw [front, mems, List.filterMap_cons] at none_
      cases mem : item.mem? with
      | none => simpa [mem, mems] using none_
      | some d => simp [mem] at none_
    · exact rel.home.writers n (by simpa [here] using some_)
  · have mem := rel.home.mem
    by_cases atHome : dst = b.wid
    · subst atHome
      rw [if_pos rfl]
      cases holder : a.home.owner with
      | none =>
        have nobody : item.mem? = none := by
          cases carried : item.mem? with
          | none => rfl
          | some d =>
            have writer := rel.home.writers src (by simp [front, mems, carried])
            rw [holder] at writer
            cases writer
        simpa [holder, nobody] using mem
      | some o =>
        by_cases same : o = src
        · subst o
          cases carried : item.mem? with
          | none => simpa [holder, front, mems, List.filterMap_cons, carried] using mem
          | some d => simpa [holder, front, mems, List.filterMap_cons, carried] using mem
        · have nobody : item.mem? = none := by
            cases carried : item.mem? with
            | none => rfl
            | some d =>
              have writer := rel.home.writers src (by simp [front, mems, carried])
              rw [holder] at writer
              exact absurd (Option.some.inj writer) same
          simpa [holder, nobody, same] using mem
    · rw [if_neg atHome]
      cases holder : a.home.owner with
      | none => simpa [holder] using mem
      | some o =>
        simp only [holder, Option.elim_some] at mem ⊢
        rw [← mem]
        exact congrArg (fun items => settle (mems items) s.mem) (others o (Or.inr atHome))
  · have shows := rel.node n notHome
    exact {
      line := shows.line
      bare := shows.bare
      pending := shows.pending
      completions := shows.completions
      mail := (s.mail_pop_data b n front data).trans shows.mail
      lines := fun o x member => by
        refine shows.lines o x (?_ : x ∈ lines (s.chan o n))
        rw [← lines_eq o n notHome]
        exact member
      landed := by
        have landed := shows.landed
        simp only [BlockState.side, ← lines_eq _ n notHome] at landed
        exact landed
      punctual := by
        have punctual := shows.punctual
        simp only [BlockState.side, ← out] at punctual
        exact punctual
      timely := by
        have timely := shows.timely
        simp only [BlockState.side, ← inbox] at timely
        exact timely }

/-- The oldest item of a channel arrives. -/
theorem Rel.deliver (rel : Rel b s a) (inv : Consistent b a) (src dst : Node) (newId : Nat)
    (allowed : Permits g b s a (.deliver src dst newId)) (ready : dst = b.wid → Calm b s) :
    Refines g b (s.deliver b src dst newId) a := by
  unfold BlockState.deliver
  cases front : s.chan src dst with
  | nil => exact ⟨a, .refl, rel⟩
  | cons item rest =>
    by_cases atHome : dst = b.wid
    · subst atHome
      have away : src ≠ b.wid := by
        rintro rfl
        rw [rel.home.chan] at front
        cases front
      have data : item.msg? = none → Rel b ((s.setChan src b.wid rest).setMem (item.mem?.getD s.mem)) a := by
        intro none_
        simpa using rel.popData front none_ (fun h => absurd rfl h)
      cases item with
      | mem d =>
        simp only [if_true]
        exact ⟨a, .refl, data rfl⟩
      | line ptr d =>
        simp only [rel.home.line]
        exact ⟨a, .refl, data rfl⟩
      | msg m =>
        cases reply : m.reply? with
        | some r =>
          cases m with
          | reply r => exact (rel.homeHears inv away front).refines
          | _ => cases reply
        | none =>
          have served := (rel.arrive front reply).serveRequest (g := g) inv (ready rfl) newId
          rw [BlockState.extend_nil] at served
          cases m with
          | reply r => cases reply
          | _ => exact served.refines
    · cases item with
      | mem d =>
        simp only [if_neg atHome]
        have rel' := rel.popData front rfl fun _ => rfl
        rw [if_neg atHome] at rel'
        exact ⟨a, .refl, rel'⟩
      | line ptr d =>
        obtain ⟨l, line, same, landed⟩ := rel.land (g := g) atHome front
        simp only [line, if_pos same]
        exact landed.refines
      | msg m =>
        obtain ⟨undo, ack⟩ := allowed m rest front
        cases reply : m.reply? with
        | some r =>
          cases m with
          | reply r => exact (rel.workerReply inv atHome front (undo r rfl atHome)).refines
          | _ => cases reply
        | none =>
          have served := (rel.arrive front reply).serveCommand (g := g) inv atHome newId ack
          rw [BlockState.extend_nil] at served
          cases m with
          | reply r => cases reply
          | _ => exact served.refines

/-- One event on a block is a run of the abstract protocol. -/
theorem Rel.step (rel : Rel b s a) (inv : Consistent b a) (ev : BlockState.Event Node)
    (allowed : Permits g b s a ev) (ready : Ready b s ev) : Refines g b (s.step b ev) a := by
  cases ev with
  | request n rq fresh => exact (rel.localRequest inv allowed.1 allowed.2 fresh).refines
  | unLock n rq =>
    by_cases isHome : n = b.wid
    · subst isHome
      exact (rel.homeUnLock allowed ready).refines
    · exact (rel.cacheUnLock isHome allowed ready).refines
  | evict n newId => exact (rel.evict inv n newId).refines
  | deliver src dst newId => exact rel.deliver inv src dst newId allowed ready
  | complete n => exact (rel.complete n).refines
  | takeLocal n => exact ⟨a, .refl, rel.home.congr rfl rfl rfl rfl rfl rfl rfl (fun _ => rfl) rfl rfl rfl, rel.node,
      rel.framed⟩
  | serveRemote n newId => exact rel.serveRemote inv n newId allowed

end Gam

import Gam.Simulation.Home

/-! A caching worker answers what the home asks of it. -/

namespace Gam
variable {Node : Type} [DecidableEq Node]
variable {b : Block Node} {s s' : BlockState Node} {a : Abs Node} {n : Node}
variable {q : List (Node × Msg Node)} {c : Command Node}

/-- A worker in the middle of things takes up the one command the home has for it. -/
theorem Rel.only_command (rel : Rel b (s.extend n ((b.wid, .command c) :: q)) a) (away : n ≠ b.wid) :
    a.home.cmd n = .opened c := by
  have commands := congrArg Mail.commands (rel.node n away).mail
  have listed : c ∈ (a.home.cmd n).commands := by
    rw [show (a.home.cmd n).commands = _ from commands.symm]
    simp [BlockState.side, BlockState.mail, ordered]
  cases cmd : a.home.cmd n with
  | opened c' =>
    rw [cmd] at listed
    rw [List.mem_singleton.mp listed]
  | quiet => rw [cmd] at listed; cases listed
  | acked r => rw [cmd] at listed; cases listed

/-- By then it has heard everything the home had to say before. -/
theorem Rel.unanswered (rel : Rel b (s.extend n ((b.wid, .command c) :: q)) a) (away : n ≠ b.wid) :
    (a.phase n).replies = [] := by
  have shows := rel.node n away
  have replies : (msgs (s.chan b.wid n)).filterMap Msg.reply? = (a.phase n).replies :=
    congrArg Mail.replies shows.mail
  rw [← replies, List.filterMap_eq_nil_iff]
  intro y member
  refine (List.pairwise_append.mp shows.timely).2.2 (.command c) ?_ y member rfl
  simp

/-- Worker `n` has answered with `reply`, and the home is otherwise as before. -/
structure Home.Answers (before after : Home Node) (n : Node) (reply : Reply) : Prop where
  state : after.dirState = before.dirState
  sharers : after.sharers = before.sharers
  pending : after.pending = before.pending
  owner : after.owner = before.owner
  cmd : ∀ m, after.cmd m = if m = n then .acked reply else before.cmd m

/-- Worker `n` answers a command with `reply`, after the data `items` brings. -/
theorem Rel.ack (rel : Rel b (s.extend n ((b.wid, .command c) :: q)) a) (away : n ≠ b.wid)
    (items : List (Item Node)) (mem : Data) {home : Home Node} {reply : Reply} (batch : Framed items)
    (only : msgs items = [.reply reply]) (answers : Home.Answers a.home home n reply)
    (data : mems items = [] ∧ mem = a.mem ∨ mems items = [mem] ∧ a.home.owner = some n) :
    Rel b ((s.extend n q).send n b.wid items) ((a.setHome home).setMem mem) := by
  obtain ⟨state, sharers, pending, owner, cmd⟩ := answers
  have opened := rel.only_command away
  refine ⟨?_, fun m notHome => ?_, ?_⟩
  · exact {
      entry := rel.home.entry.congr state sharers
      pending := rel.home.pending.trans pending.symm
      line := rel.home.line
      completions := rel.home.completions
      chan := by simpa [Ne.symm away] using rel.home.chan
      clients := by simpa [Ne.symm away] using rel.home.clients
      writers := fun m some_ => by
        refine owner.trans ?_
        by_cases same : m = n
        · subst m
          rcases data with ⟨none_, -⟩ | ⟨-, mine⟩
          · exact rel.home.writers n (by simpa [none_] using some_)
          · exact mine
        · exact rel.home.writers m (by simpa [same] using some_)
      mem := by
        have old := rel.home.mem
        rw [Abs.setMem_home, Abs.setHome_home, owner]
        rcases data with ⟨none_, rfl⟩ | ⟨one, mine⟩
        · cases holder : a.home.owner with
          | none => simpa [holder] using old
          | some o =>
            by_cases same : o = n
            · subst o; simpa [holder, none_] using old
            · simpa [holder, same] using old
        · simp [mine, one] }
  · by_cases same : m = n
    · subst m
      have shows := rel.node n away
      have mail : (s.extend n ((b.wid, .command c) :: q)).mail b n =
          (a.phase n).mail (a.home.cmd n) := shows.mail
      have one : ((s.extend n ((b.wid, .command c) :: q)).mail b n).commands = [c] := by
        rw [mail, opened]; rfl
      rw [BlockState.side_send_out _ _ _ _ away, BlockState.mail_send_to_home _ _ _ _ away]
      exact {
        line := shows.line
        bare := shows.bare
        pending := shows.pending
        completions := shows.completions
        mail := by
          rw [BlockState.mail_extend_self _ _ _ _ _ away one, mail]
          simp [Phase.mail, cmd, only, opened, Cmd.acks, Cmd.commands]
        lines := shows.lines
        landed := shows.landed
        punctual := by
          rw [only]
          refine List.pairwise_append.mpr ⟨shows.punctual, List.pairwise_singleton _ _, ?_⟩
          intro x _ y member
          simp [List.mem_singleton.mp member]
        timely := shows.timely.sublist (s.inbox_extend b n n _ q) }
    · have shows := rel.node m notHome
      have loc : ((a.setHome home).setMem mem).local m = a.local m := by simp [cmd, same]
      rw [loc, BlockState.side_send_of_ne _ _ _ _ notHome (fun h => absurd h.symm same)]
      have mail := s.mail_extend_of_ne b m n (b.wid, .command c) q away same
      exact ⟨shows.line, shows.bare, shows.pending, shows.completions, mail.trans shows.mail,
        shows.lines, shows.landed, shows.punctual, shows.timely.sublist (s.inbox_extend b m n _ q)⟩
  · exact (show (s.extend n q).AllFramed from rel.framed).send _ _ batch

/-- Worker `n` enters phase `ph`, and only its line, its pending works and its completions
change. -/
theorem Rel.become (rel : Rel b s a) (away : n ≠ b.wid) (ph : Phase Node) (t : Locks Node) {a' : Abs Node}
    (frame : s' = { s with line := s'.line, pending := s'.pending, completions := s'.completions })
    (others : ∀ m, m ≠ n → s'.line m = s.line m ∧ s'.pending m = s.pending m ∧ s'.completions m = s.completions m)
    (line : s'.line n = ph.line.map fun x => ⟨x.2, x.1, t, a.raw n⟩)
    (bare : ph.line = none → t = ∅) (pending : s'.pending n = ph.pending)
    (completions : s'.completions n = ph.completions) (requests : ph.requests = (a.phase n).requests)
    (replies : ph.replies = (a.phase n).replies) (peer : ph.peer = (a.phase n).peer)
    (old : (a.phase n).source b.wid = none) (new : ph.source b.wid = none)
    (home : a'.home = a.home) (dirLocks : a'.dirLocks = a.dirLocks) (memEq : a'.mem = a.mem)
    (rest : ∀ m, m ≠ n → a'.local m = a.local m)
    (mine : a'.local n = ⟨ph, a.home.cmd n, a.raw n, a.copy n, t⟩) : Rel b s' a' := by
  have chan : s'.chan = s.chan := by rw [frame]
  have toServe : s'.toServe = s.toServe := by rw [frame]
  have entry : s'.entry = s.entry := by rw [frame]
  have mem : s'.mem = s.mem := by rw [frame]
  have mail : ∀ m, s'.mail b m = s.mail b m := fun m => by simp only [BlockState.mail, chan, toServe]
  have atHome := others b.wid (Ne.symm away)
  refine rel.only (n := n) (rel.home.congr entry atHome.2.1 atHome.1 atHome.2.2 (by rw [chan])
    (by rw [toServe]) mem (fun _ => by rw [chan]) home dirLocks memEq)
    (by intro x y; rw [chan]; exact rel.framed x y) (fun m _ other => ?_) (fun _ => ?_)
  · obtain ⟨lineEq, pendingEq, completionsEq⟩ := others m other
    exact ⟨by simp [BlockState.side, lineEq, pendingEq, completionsEq, mail, chan, toServe], rest m other⟩
  · have shows := rel.node n away
    rw [mine]
    exact {
      line := line
      bare := bare
      pending := pending
      completions := completions
      mail := by
        have eq : s.mail b n = (a.phase n).mail (a.home.cmd n) := shows.mail
        simp only [BlockState.side, mail, eq, Phase.mail, requests, replies, peer]
      lines := fun o x member => by
        have found := shows.lines o x (by simpa [BlockState.side, chan] using member)
        cases old.symm.trans found
      landed := by simpa [-Phase.source, old, new] using shows.landed
      punctual := by simpa [BlockState.side, chan] using shows.punctual
      timely := by simpa [BlockState.side, chan, toServe] using shows.timely }

/-- Worker `o` answers the request of worker `m` that the home has forwarded to it. -/
theorem Rel.handOver (rel : Rel b s a) {o m : Node} (away : o ≠ b.wid) (notHome : m ≠ b.wid)
    {op : AccessOp} {ptr id : Nat} {flag : Flag} {rq : Req Node} {stage : Stage Node}
    {copy : Data} {a' : Abs Node} (items : List (Item Node)) (ok : Bool)
    (phase : a.phase m = .miss op ptr id flag rq .served) (next : stage = .peer o ok ∨ stage = .hand o ok false .due)
    (batch : Framed items) (only : msgs items = [.reply (op.handOver id ok)])
    (data : lines items = [] ∧ copy = a.copy m ∨ lines items = [(ptr, copy)] ∧ ok = true)
    (home : a'.home = a.home) (dirLocks : a'.dirLocks = a.dirLocks) (mem : a'.mem = a.mem)
    (rest : ∀ x, x ≠ m → a'.local x = a.local x)
    (mine : a'.local m = ⟨.miss op ptr id flag rq stage, a.home.cmd m, a.raw m, copy, a.locks m⟩) :
    Rel b (s.send o m items) a' := by
  have shows := rel.node m notHome
  have mail : s.mail b m = (a.phase m).mail (a.home.cmd m) := shows.mail
  have none_ : ∀ x, lines (s.chan x m) = [] := by
    intro x
    refine List.eq_nil_iff_forall_not_mem.mpr fun l member => ?_
    have found := shows.lines x l member
    simp [phase] at found
  have raw : a.raw m = a.copy m := by simpa [phase] using shows.landed
  refine rel.only (n := m) (rel.home.congr rfl rfl rfl rfl (by simp [Ne.symm away]) rfl rfl
    (fun x => by simp [Ne.symm notHome]) home dirLocks mem) (rel.framed.send _ _ batch)
    (fun x _ other => ⟨BlockState.side_send_of_ne _ _ _ _ other (fun _ => notHome), rest x other⟩)
    (fun _ => ?_)
  rw [mine, BlockState.side_send_in _ _ _ _ _ notHome, BlockState.mail_send_peer _ _ _ _ _ notHome away]
  exact {
    line := by simpa [phase] using shows.line
    bare := fun h => by simp at h
    pending := by
      rcases next with rfl | rfl <;>
        simpa [phase] using shows.pending
    completions := by simpa [phase] using shows.completions
    mail := by
      rcases next with rfl | rfl <;>
        · simp [Phase.mail, mail, phase, only]
          funext x
          by_cases same : x = o <;> simp [same]
    lines := fun x l member => by
      by_cases same : x = o
      · subst x
        rcases data with ⟨noData, -⟩ | ⟨sent, rfl⟩
        · simp [BlockState.side, none_, noData] at member
        · obtain rfl : l = (ptr, copy) := by simpa [BlockState.side, none_, sent] using member
          rcases next with rfl | rfl <;> rfl
      · simp [BlockState.side, none_, same] at member
    landed := by
      rcases data with ⟨noData, rfl⟩ | ⟨sent, rfl⟩
      · cases ok <;> rcases next with rfl | rfl <;>
          simp [BlockState.side, none_, noData, raw]
      · rcases next with rfl | rfl <;> simp [BlockState.side, none_, sent]
    punctual := shows.punctual
    timely := by simpa [away] using shows.timely }

/-! ### The owner -/

/-- The command that worker `n` has not answered yet. -/
inductive Home.Asks (n : Node) : Home Node → Command Node → Prop
  | fetchShared (rq : Req Node) (id : Nat) (flag : Flag) (o : GAddr Node) (mine : n = o.wid) :
    Asks n (.fetchShared rq id flag o .opened) ⟨.fetchAndShared, id, flag⟩
  | readForward (r : Remote Node) (id : Nat) (flag : Flag) (o : GAddr Node) (mine : n = o.wid) :
    Asks n (.readForward r id flag o .opened) ⟨.readForward r.ptr r.id r.wid, id, flag⟩
  | fetchInvalidate (rq : Req Node) (id : Nat) (flag : Flag) (o : GAddr Node) (mine : n = o.wid) :
    Asks n (.fetchInvalidate rq id flag o .opened) ⟨.fetchAndInvalidate, id, flag⟩
  | writeForward (r : Remote Node) (id : Nat) (flag : Flag) (o : GAddr Node) (mine : n = o.wid) :
    Asks n (.writeForward r id flag o .opened) ⟨.writeForward r.ptr r.id r.wid, id, flag⟩
  | invalidate (rq : Req Node) (id : Nat) (flag : Flag) (L : List (GAddr Node))
    (answer : Node → Option Answer) (status : Status) (asked : answer n = some .opened) :
    Asks n (.invalidate rq id flag L answer status) ⟨.invalidate, id, flag⟩
  | invalidateForward (r : Remote Node) (id : Nat) (flag : Flag) (L : List (GAddr Node))
    (answer : Node → Option Answer) (status : Status) (asked : answer n = some .opened) :
    Asks n (.invalidateForward r id flag L answer status) ⟨.invalidateForward, id, flag⟩

theorem Answer.cmd_opened {answer : Answer} {c c' : Command Node} {refusal : Reply}
    (opened : answer.cmd c refusal = .opened c') : answer = .opened ∧ c' = c := by
  cases answer with
  | opened => cases opened; exact ⟨rfl, rfl⟩
  | acked ok => cases ok <;> cases opened

theorem Home.cmdTo_opened {o : GAddr Node} {c c' : Command Node} {refusal : Reply} {answer : Answer}
    (opened : Home.cmdTo o c refusal answer n = .opened c') : n = o.wid ∧ answer = .opened ∧ c' = c := by
  unfold Home.cmdTo at opened
  split at opened
  · next mine => exact ⟨mine, Answer.cmd_opened opened⟩
  · cases opened

theorem Home.asks_of_opened {home : Home Node} (opened : home.cmd n = .opened c) : home.Asks n c := by
  cases home with
  | unshared | shared L | dirty o => cases opened
  | fetchShared rq id flag o answer =>
    obtain ⟨mine, rfl, rfl⟩ := Home.cmdTo_opened opened
    exact .fetchShared rq id flag o mine
  | readForward r id flag o answer =>
    obtain ⟨mine, rfl, rfl⟩ := Home.cmdTo_opened opened
    exact .readForward r id flag o mine
  | fetchInvalidate rq id flag o answer =>
    obtain ⟨mine, rfl, rfl⟩ := Home.cmdTo_opened opened
    exact .fetchInvalidate rq id flag o mine
  | writeForward r id flag o answer =>
    obtain ⟨mine, rfl, rfl⟩ := Home.cmdTo_opened opened
    exact .writeForward r id flag o mine
  | invalidate rq id flag L answer status =>
    cases asked : answer n with
    | none => simp [Home.cmd, asked] at opened
    | some x =>
      simp only [Home.cmd, asked, Option.elim_some] at opened
      obtain ⟨rfl, rfl⟩ := Answer.cmd_opened opened
      exact .invalidate rq id flag L answer status asked
  | invalidateForward r id flag L answer status =>
    cases asked : answer n with
    | none => simp [Home.cmd, asked] at opened
    | some x =>
      simp only [Home.cmd, asked, Option.elim_some] at opened
      obtain ⟨rfl, rfl⟩ := Answer.cmd_opened opened
      exact .invalidateForward r id flag L answer status asked

/-- The line of a worker that owns the block. -/
theorem Rel.owner_line (rel : Rel b s a) (away : n ≠ b.wid) (wf : (a.phase n).WellFormed) {p : Nat}
    (owns : (a.phase n).Owns p) : ∃ l, s.line n = some l ∧ l.locks = a.locks n ∧ l.data = a.raw n ∧
      (l.state = .toDirty ∨ l.state = .dirty ∧ a.phase n = .dirty p ∨
        l.state = .toInvalid ∧ ∃ id, a.phase n = .evicting p id) := by
  have line : s.line n = (a.phase n).line.map fun x => ⟨x.2, x.1, a.locks n, a.raw n⟩ :=
    (rel.node n away).line
  cases phase : a.phase n with
  | dirty ptr =>
    rw [phase] at line owns
    obtain rfl : ptr = p := owns
    exact ⟨_, line, rfl, rfl, Or.inr (Or.inl ⟨rfl, rfl⟩)⟩
  | evicting ptr id =>
    rw [phase] at line owns
    obtain rfl : ptr = p := owns
    exact ⟨_, line, rfl, rfl, Or.inr (Or.inr ⟨rfl, id, rfl⟩)⟩
  | miss op ptr id flag rq stage =>
    rw [phase] at line owns wf
    have write : op ≠ .read := by
      cases stage with
      | reply ok =>
        cases ok with
        | true => exact owns.1
        | false => exact owns.elim
      | hand o ok got home => exact wf.1
      | _ => exact owns.elim
    exact ⟨_, line, rfl, rfl, Or.inl (if_neg write)⟩
  | _ => rw [phase] at owns; exact owns.elim

end Gam

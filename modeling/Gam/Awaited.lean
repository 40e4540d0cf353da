import Gam.Simulation.Answer

/-! Every answer on its way, every completion and all data for a line is awaited where it goes. -/

namespace Gam
variable {Node : Type} [DecidableEq Node]

namespace Phase
variable {ph : Phase Node} {r : Reply}

theorem answer_id (op : AccessOp) (id : Nat) (ok : Bool) : (op.answer id ok).id = id := by
  cases op <;> cases ok <;> rfl

theorem handOver_id (op : AccessOp) (id : Nat) (ok : Bool) : (op.handOver id ok).id = id := by
  cases ok
  · exact answer_id op id false
  · rfl

theorem awaits_reply (member : r ∈ ph.replies) : ∃ p, ph.pending = [p] ∧ p.id = r.id := by
  cases ph with
  | evicted ptr id =>
    cases List.mem_singleton.mp member
    exact ⟨_, rfl, rfl⟩
  | miss op ptr id flag rq stage =>
    refine ⟨_, rfl, ?_⟩
    cases stage with
    | reply ok =>
      cases List.mem_singleton.mp member
      exact (answer_id op id ok).symm
    | hand o ok got home =>
      cases home with
      | onWay =>
        cases List.mem_singleton.mp member
        rfl
      | _ => cases member
    | _ => cases member
  | _ => cases member

theorem awaits_peer {o : Node} (member : .reply r ∈ ph.peer o) : ∃ p, ph.pending = [p] ∧ p.id = r.id := by
  cases ph with
  | miss op ptr id flag rq stage =>
    refine ⟨_, rfl, ?_⟩
    have handed : ∀ {o' : Node} {ok : Bool},
        .reply r ∈ (if o = o' then [.reply (op.handOver id ok)] else [] : List (Msg Node)) → id = r.id := by
      intro o' ok listed
      split at listed
      · cases List.mem_singleton.mp listed
        exact (handOver_id op id ok).symm
      · cases listed
    cases stage with
    | peer o' ok => exact handed member
    | hand o' ok got home =>
      cases got with
      | false => exact handed member
      | true => cases member
    | _ => cases member
  | _ => cases member

end Phase

/-- The work request at the home that an answer is for. -/
theorem Home.awaits_ack {home : Home Node} {n : Node} {r : Reply} (acked : home.cmd n = .acked r) :
    ∃ p, home.pending = [p] ∧ p.id = r.id := by
  have to_one : ∀ {o : GAddr Node} {c : Command Node} {refusal : Reply} {answer : Answer},
      refusal.id = c.id → cmdTo o c refusal answer n = .acked r → c.id = r.id := by
    intro o c refusal answer same told
    unfold cmdTo at told
    split at told
    · cases answer with
      | opened => cases told
      | acked ok =>
        cases ok <;> cases told
        · exact same.symm
        · rfl
    · cases told
  have to_many : ∀ {c : Command Node} {refusal : Reply} {answer : Option Answer},
      refusal.id = c.id → answer.elim .quiet (Answer.cmd c refusal) = .acked r → c.id = r.id := by
    intro c refusal answer same told
    cases answer with
    | none => cases told
    | some answer =>
      cases answer with
      | opened => cases told
      | acked ok =>
        cases ok <;> cases told
        · exact same.symm
        · rfl
  cases home with
  | unshared | shared | dirty => cases acked
  | fetchShared | readForward | fetchInvalidate | writeForward => exact ⟨_, rfl, to_one rfl acked⟩
  | invalidate | invalidateForward => exact ⟨_, rfl, to_many rfl acked⟩

section rel
variable {b : Block Node} {s : BlockState Node} {a : Abs Node} {n src : Node} {r : Reply}

theorem mem_msgs {items : List (Item Node)} {m : Msg Node} : m ∈ msgs items ↔ .msg m ∈ items := by
  constructor
  · intro member
    obtain ⟨item, listed, same⟩ := List.mem_filterMap.mp member
    cases item <;> cases same
    exact listed
  · exact fun listed => List.mem_filterMap.mpr ⟨_, listed, rfl⟩

theorem mem_lines {items : List (Item Node)} {ptr : Nat} {d : Data} (listed : .line ptr d ∈ items) :
    (ptr, d) ∈ lines items :=
  List.mem_filterMap.mpr ⟨_, listed, rfl⟩

theorem BlockState.getPending_of_singleton {p : Pending Node} (only : s.pending n = [p]) :
    s.getPending n p.id = some p := by
  simp [getPending, only]

/-- Every answer on its way has its work request where it goes, and no other is open there. -/
theorem Rel.reply_awaited (rel : Rel b s a) (listed : .msg (.reply r) ∈ s.chan src n) :
    ∃ p, s.pending n = [p] ∧ p.id = r.id := by
  have member := mem_msgs.mpr listed
  by_cases home : n = b.wid
  · subst home
    have away : src ≠ b.wid := by
      rintro rfl
      rw [rel.home.chan] at listed
      cases listed
    have acks : (msgs (s.chan src b.wid)).filterMap Msg.reply? = (a.home.cmd src).acks :=
      congrArg Mail.acks (rel.node src away).mail
    have told : r ∈ (a.home.cmd src).acks := by
      rw [← acks]
      exact List.mem_filterMap.mpr ⟨_, member, rfl⟩
    cases cmd : a.home.cmd src with
    | acked r' =>
      rw [cmd] at told
      cases List.mem_singleton.mp told
      rw [rel.home.pending]
      exact Home.awaits_ack cmd
    | _ => rw [cmd] at told; cases told
  · have shows := rel.node n home
    have pending : s.pending n = (a.phase n).pending := shows.pending
    rw [pending]
    by_cases mine : src = b.wid
    · subst mine
      have replies : (msgs (s.chan b.wid n)).filterMap Msg.reply? = (a.phase n).replies :=
        congrArg Mail.replies shows.mail
      refine Phase.awaits_reply ?_
      rw [← replies]
      exact List.mem_filterMap.mpr ⟨_, member, rfl⟩
    · have peer : (if src = b.wid then [] else msgs (s.chan src n)) = (a.phase n).peer src :=
        congrFun (congrArg Mail.peer shows.mail) src
      rw [if_neg mine] at peer
      refine Phase.awaits_peer (?_ : _ ∈ (a.phase n).peer src)
      rw [← peer]
      exact member

/-- Data on its way to a line finds that line. -/
theorem Rel.data_awaited (rel : Rel b s a) (away : n ≠ b.wid) {ptr : Nat} {d : Data}
    (listed : .line ptr d ∈ s.chan src n) : ∃ l, s.line n = some l ∧ l.ptr = ptr := by
  have shows := rel.node n away
  have source : (a.phase n).source b.wid = some (src, ptr) := shows.lines src (ptr, d) (mem_lines listed)
  have line : s.line n = (a.phase n).line.map fun l => ⟨l.2, l.1, a.locks n, a.raw n⟩ := shows.line
  cases phase : a.phase n with
  | miss op ptr' id flag rq stage =>
    rw [phase] at line source
    refine ⟨_, line, ?_⟩
    cases stage with
    | reply ok => cases ok <;> cases source; rfl
    | peer o ok => cases ok <;> cases source; rfl
    | hand o ok got home => cases ok <;> cases got <;> cases source; rfl
    | _ => cases source
  | _ => rw [phase] at source; cases source

/-- A completion finds its work request. -/
theorem Rel.completion_awaited (rel : Rel b s a) {id : Nat} (listed : id ∈ s.completions n) :
    ∃ p, s.pending n = [p] ∧ p.id = id ∧ p.op = .pendingInvalidate := by
  by_cases home : n = b.wid
  · subst home
    rw [rel.home.completions] at listed
    cases listed
  · have shows := rel.node n home
    have pending : s.pending n = (a.phase n).pending := shows.pending
    have completions : s.completions n = (a.phase n).completions := shows.completions
    rw [completions] at listed
    rw [pending]
    cases phase : a.phase n with
    | leaving ptr id' flag =>
      rw [phase] at listed
      cases List.mem_singleton.mp listed
      exact ⟨_, rfl, rfl, rfl⟩
    | _ => rw [phase] at listed; cases listed

end rel

end Gam

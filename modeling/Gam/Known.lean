import Gam.Described
import Gam.Fences

/-! Only requests that were issued are on their way, in every state of every run. -/

namespace Gam
variable {Node : Type} [DecidableEq Node]

/-- The requests of a fixed history, and no other assumption. -/
def Terms.logged (log : List (Entry Node)) : Terms Node := { (Terms.any : Terms Node) with
  req := fun rq => .issued rq ∈ log }

theorem Terms.logged_meets {log : List (Entry Node)} {s : Sys Node} {act : Sys.Act Node}
    (issued : ∀ rq, act = .issue rq → .issued rq ∈ log) : (Terms.logged log).Meets s act where
  issue := issued
  event := fun b ev _ a _ asks => by
    cases ev with
    | request n rq fresh => exact ⟨asks n rq rfl, fun _ _ _ => trivial⟩
    | unLock n rq => exact asks n rq rfl
    | deliver src dst newId => exact fun m rest _ => ⟨fun _ _ _ _ => trivial, fun _ _ _ => trivial⟩
    | serveRemote n newId => exact fun e _ c _ _ => trivial
    | evict | complete | takeLocal => trivial

namespace Sys
variable {s s' : Sys Node} {act : Act Node} {ok : Sys Node → Act Node → Prop} {mem : Block Node → Data}

/-- The history grows, but by no request that is issued. -/
def Grows (s s' : Sys Node) : Prop := ∃ entries, s'.log = entries ++ s.log ∧ entries.filterMap Entry.issued? = []

theorem Grows.of_log (same : s'.log = s.log) : Grows s s' := ⟨[], same, rfl⟩

theorem Grows.trans {mid : Sys Node} (first : Grows s mid) (second : Grows mid s') : Grows s s' := by
  obtain ⟨entries, log, none_⟩ := first
  obtain ⟨entries', log', none_'⟩ := second
  exact ⟨entries' ++ entries, by rw [log', log, List.append_assoc], by rw [List.filterMap_append, none_, none_']; rfl⟩

theorem Grows.suffix (grows : Grows s s') : s.log <:+ s'.log := by
  obtain ⟨entries, log, -⟩ := grows
  exact ⟨entries, log.symm⟩

theorem Grows.issues (grows : Grows s s') : s'.issues = s.issues := by
  obtain ⟨entries, log, none_⟩ := grows
  rw [Sys.issues, log, List.filterMap_append, none_, List.nil_append]
  rfl

theorem Quiet.grows (quiet : Quiet s s') : Grows s s' := by
  obtain ⟨entries, log, plain⟩ := quiet.log
  refine ⟨entries, log, List.filterMap_eq_nil_iff.mpr fun e member => ?_⟩
  have := plain e member
  cases e <;> first | rfl | exact this.elim

theorem Enters.grows {rq : Req Node} (enters : Enters s rq s') : Grows s s' := by
  cases enters with
  | passes quiet free =>
    refine Grows.trans ?_ quiet.grows
    simp only [begins]
    split
    · exact .of_log rfl
    · exact ⟨[.started rq], rfl, rfl⟩
  | waits f result => exact .of_log (by rw [result]; rfl)

theorem fencedRound_log (th : Thread Node) : (s.fencedRound th).log = s.log := by
  unfold fencedRound
  simp only []
  repeat' split
  all_goals rfl

theorem perform_grows {task : Task Node} (aims : task.Aims) (ptr : Nat) (data : Data)
    (queue : s.Queued) : Grows s (s.perform ptr data task) := by
  cases task with
  | start rq => exact processLocalRequest_enters.grows
  | replay rq => exact processLocalRequest_enters.grows (s := s.setWork rq.rid _)
  | block rq i => exact (blockRound_quiet aims ptr data).grows
  | leave rq => exact (leave_quiet ptr data).grows
  | serveLocal b n => exact (serveLocal_quiet ptr data (queue b n)).grows
  | serveRemote b n => exact (serveRemote_quiet ptr data n).grows
  | notify rq =>
    rcases notify_turn s rq with quiet | ⟨mid, quiet, -, result⟩
    · exact quiet.grows
    · simp only [perform, result]
      exact quiet.grows
  | fenced th => exact .of_log (fencedRound_log th)
  | popFenced th => exact .of_log rfl

/-- Only `issue` issues requests. -/
theorem step_grows (aimed : s.Aimed) (queue : s.Queued)
    (next : s.step act = some s') (other : ∀ rq, act ≠ .issue rq) : Grows s s' := by
  cases step_takes next with
  | issue => exact absurd rfl (other _)
  | block n k => exact (((Quiet.refl s).draw n k).block _).grows
  | @run ptr data task rest todo =>
    exact perform_grows (s := { s with todo := rest }) (aimed task (by rw [todo]; simp)) ptr data queue

theorem step_log (aimed : s.Aimed) (queue : s.Queued)
    (next : s.step act = some s') : s.log <:+ s'.log := by
  by_cases issue : ∃ rq, act = .issue rq
  · obtain ⟨rq, rfl⟩ := issue
    rw [(issue_issued next).log]
    exact List.suffix_cons _ _
  · exact (step_grows aimed queue next fun rq same => issue ⟨rq, same⟩).suffix

/-- Along a run, only requests of its history are issued. -/
theorem Reach.logged (reach : Reach ok mem s) : ∀ log, s.log <:+ log →
    Reach (fun s act => ok s act ∧ ∀ rq, act = .issue rq → .issued rq ∈ log) mem s := by
  induction reach with
  | init => exact fun _ _ => .init
  | @step s s' act reach allowed next ih =>
    intro log later
    obtain ⟨abs, sim⟩ := reach.sim fun s act _ => Terms.any_meets s act
    have d := sim.described
    have grows := step_log d.aimed (fun b n rq member => (d.queue b n rq member).2) next
    refine .step (ih log (grows.trans later)) ⟨allowed, ?_⟩ next
    rintro rq rfl
    refine later.subset ?_
    rw [(issue_issued next).log]
    exact List.mem_cons_self

theorem mem_issues_of_logged {rq : Req Node} (logged : .issued rq ∈ s.log) : rq ∈ s.issues :=
  List.mem_reverse.mpr (List.mem_filterMap.mpr ⟨_, logged, rfl⟩)

/-- What is on its way in a reachable state was issued. -/
theorem Reach.known (reach : Reach ok mem s) : ∃ abs, Described (Terms.logged s.log) s abs := by
  obtain ⟨abs, sim⟩ := (reach.logged s.log (List.suffix_refl _)).sim
    (t := Terms.logged s.log) fun s act allowed => Terms.logged_meets allowed.2
  exact ⟨abs, sim.described⟩

end Sys

/-- A run of the cluster and of the abstract protocol is a run of the cluster. -/
theorem Sim.reach {t : Terms Node} {ok : Sys Node → Sys.Act Node → Prop} {mem : Block Node → Data}
    {s : Sys Node} {abs : Block Node → Abs Node} (sim : Sim t ok mem s abs) : Sys.Reach ok mem s := by
  induction sim with
  | init => exact .init
  | step _ _ allowed next _ _ ih => exact ih.step allowed next

end Gam

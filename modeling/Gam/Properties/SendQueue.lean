import Gam.Rdma.Run

/-!
# The send queue of a connection

What the counters, the ring of send slots and the queue of pending requests guarantee along every
run of submissions, transmissions and completions.
-/

namespace Gam.Rdma

variable {c : Config} {ctx : RdmaContext} {sq : List SendWr} {l : Link}

/-- The work requests posted so far, oldest first. -/
def Link.posted (l : Link) : List SendWr := (l.completed ++ l.sent ++ l.waiting).map (·.wr)

/-- A batch that is not open has a signalled work request. -/
theorem exists_signaled {s w : Nat} (more : openFrom s w sq ≠
    (s + (slots sq).length, w + (sq.length - (slots sq).length))) : ∃ x ∈ sq, x.signaled = true := by
  by_contra none
  push Not at none
  exact more (openFrom_unsignaled fun x member => by simpa using none x member)

/-- The open batch is smaller than what may be outstanding, so a busy device has a signalled work
request. -/
theorem Serving.signaled_outstanding (serving : Serving c ctx sq)
    (waits : ctx.pendingRequests ≠ []) : ∃ x ∈ sq, x.signaled = true := by
  have busy := serving.busy waits
  have unsignaled := serving.unsignaled
  have limit := c.unsignaled_le
  have fewer : (slots sq).length ≤ sq.length := length_slots_le
  apply exists_signaled (s := 0) (w := 0)
  intro whole
  rw [whole] at unsignaled
  omega

/-- A work request that answers for `r`: it is signalled if `r` is, and then its completion carries
the id of `r`. -/
def Answers (w : SendWr) (r : RdmaRequest) : Prop :=
  (r.signaled = true → w.signaled = true) ∧ (w.signaled = true → w.id = r.id)

/-- The signalled requests of a group are at its front, so each has a work request of its own. -/
theorem answers_of_carries {wrs : List SendWr} {groups : List (List RdmaRequest)}
    (carries : List.Forall₂ Carries wrs groups) : ∃ firsts, List.Forall₂ Answers wrs firsts ∧
      firsts.filter (·.signaled) = groups.flatten.filter (·.signaled) := by
  induction carries with
  | nil => exact ⟨[], .nil, rfl⟩
  | @cons w g wrs groups first _ ih =>
    obtain ⟨firsts, answers, same⟩ := ih
    cases g with
    | nil => exact first.elim
    | cons r joined =>
      obtain ⟨_, marked, named, quiet, _⟩ := first
      have none : joined.filter (·.signaled) = [] := by
        rw [List.filter_eq_nil_iff]
        intro m member
        simp [(quiet m member).2.2]
      refine ⟨r :: firsts, .cons ⟨marked, named⟩ answers, ?_⟩
      rw [List.flatten_cons, List.filter_append, List.filter_cons, List.filter_cons, none, same]
      split <;> simp

/-- What every run guarantees: at most `max_pending_msg` requests are outstanding; no two of them
share a slot and the slot handed out next is used by none; while requests are queued some signalled
request is outstanding; the work requests and the queue carry what was submitted, each request once;
each signalled request is queued or has its own work request, signalled and with its id; and the
completions are those of the signalled work requests completed so far, one for each. -/
structure Link.Orderly (c : Config) (acts : List Act) (l : Link) : Prop where
  bounded : l.outstanding.length ≤ c.maxPendingMsg
  apart : (slots l.outstanding).Nodup
  fresh : ∀ i ctx, l.ctx.getFreeSlot_ c = some (i, ctx) → i ∉ slots l.outstanding
  signaled : l.ctx.pendingRequests ≠ [] → ∃ w ∈ l.outstanding, w.signaled = true
  carried : ∃ groups, List.Forall₂ Carries l.posted groups ∧
    groups.flatten ++ l.ctx.pendingRequests = acts.filterMap Act.request
  answered : ∃ firsts, List.Forall₂ Answers l.posted firsts ∧
    firsts.filter (·.signaled) ++ l.ctx.pendingRequests.filter (·.signaled) =
      (acts.filterMap Act.request).filter (·.signaled)
  completions : l.completions = ((l.completed.map (·.wr)).filter (·.signaled)).map (·.id)

theorem Link.Sound.carried (sound : l.Sound c) : ∃ groups, List.Forall₂ Carries l.posted groups ∧
      groups.flatten ++ l.ctx.pendingRequests = l.submitted := by
  obtain ⟨past, coming, accounts⟩ := sound.accounts
  refine ⟨past ++ coming, ?_, accounts.flat⟩
  rw [Link.posted, List.map_append]
  exact List.rel_append accounts.sent accounts.waiting

theorem Link.Sound.orderly {acts : List Act} (sound : l.Sound c)
    (submitted : l.submitted = acts.filterMap Act.request) : l.Orderly c acts where
  bounded := sound.serving.bound
  apart := sound.serving.slots_nodup
  fresh := by
    intro i ctx given
    have steady := sound.serving
    rw [steady.getFreeSlot_eq] at given
    split at given
    · cases given
    · rename_i idle
      obtain ⟨rfl, _⟩ := Prod.mk.inj (Option.some.inj given)
      exact (steady.slotHead_fresh (Nat.lt_of_le_of_ne steady.bound idle)).1
  signaled := sound.serving.signaled_outstanding
  carried := by
    rw [← submitted]
    exact sound.carried
  answered := by
    obtain ⟨groups, carries, flat⟩ := sound.carried
    obtain ⟨firsts, answers, same⟩ := answers_of_carries carries
    refine ⟨firsts, answers, ?_⟩
    rw [same, ← List.filter_append, flat, submitted]
  completions := sound.completions

/-- Every run goes through and is orderly, and from its end the device alone can go on until the
queue is empty and every signalled work request has completed. -/
theorem Link.run_orderly (c : Config) (acts : List Act) : ∃ l, Link.init.run c acts = some l ∧ l.Orderly c acts ∧
      ∃ more l', DeviceOnly more ∧ l.run c more = some l' ∧ l'.Orderly c acts ∧
        l'.ctx.pendingRequests = [] ∧ ∀ w ∈ l'.outstanding, w.signaled = false := by
  obtain ⟨l, ran, sound, submitted⟩ := Link.Sound.init.run (c := c) acts
  rw [Link.init, List.nil_append] at submitted
  refine ⟨l, ran, sound.orderly submitted, ?_⟩
  obtain ⟨more, l', device, drained, _, idle⟩ := sound.drain
  obtain ⟨sound', same⟩ := device.submitted sound drained
  refine ⟨more, l', device, drained, sound'.orderly (same.trans submitted), ?_, idle⟩
  by_contra waits
  obtain ⟨w, member, marked⟩ := sound'.serving.signaled_outstanding waits
  rw [idle w member] at marked
  cases marked

end Gam.Rdma

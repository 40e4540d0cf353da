import Gam.Rdma.Sound

/-!
# Runs of a connection

The invariant along every run, and that the device can always work off what is posted and queued.
-/

namespace Gam.Rdma

variable {c : Config} {l l' : Link}

theorem Link.Sound.step (sound : l.Sound c) (act : Act) : ∃ l', l.step c act = some l' ∧ l'.Sound c ∧
      l'.submitted = l.submitted ++ act.request.toList := by
  cases asked : act.request with
  | some r =>
    obtain ⟨l', stepped, sound', grown⟩ := sound.submit (Act.request_placed asked)
    exact ⟨l', by simpa only [Link.step, asked] using stepped, sound', grown⟩
  | none =>
    have same : ∃ l', l.step c act = some l' ∧ l'.Sound c ∧ l'.submitted = l.submitted := by
      cases act with
      | send data id signaled => simp [Act.request] at asked
      | write dest src len id signaled => simp [Act.request] at asked
      | writeWithImm dest src len imm id signaled => simp [Act.request] at asked
      | transmit => exact sound.transmit
      | complete => exact sound.complete
    simpa using same

theorem Link.run_cons {act : Act} {acts : List Act} (stepped : l.step c act = some l') :
    l.run c (act :: acts) = l'.run c acts := by
  simp [Link.run, List.foldlM_cons, stepped]

theorem Link.run_append {acts more : List Act} (first : l.run c acts = some l') :
    l.run c (acts ++ more) = l'.run c more := by
  simp only [Link.run] at first ⊢
  rw [List.foldlM_append, first]
  rfl

/-- Every run goes through, and `submitted` is the list of what was submitted in it. -/
theorem Link.Sound.run (sound : l.Sound c) (acts : List Act) : ∃ l', l.run c acts = some l' ∧ l'.Sound c ∧
      l'.submitted = l.submitted ++ acts.filterMap Act.request := by
  induction acts generalizing l with
  | nil => exact ⟨l, rfl, sound, by simp⟩
  | cons act acts ih =>
    obtain ⟨l₁, stepped, sound₁, grown⟩ := sound.step act
    obtain ⟨l₂, ran, sound₂, whole⟩ := ih sound₁
    refine ⟨l₂, (Link.run_cons stepped).trans ran, sound₂, ?_⟩
    rw [whole, grown, List.append_assoc]
    cases asked : act.request <;> simp [asked]

/-! ## Working off -/

/-- Events of the device only. -/
def DeviceOnly (acts : List Act) : Prop := ∀ act ∈ acts, act.request = none

theorem DeviceOnly.append {acts more : List Act} (first : DeviceOnly acts)
    (second : DeviceOnly more) : DeviceOnly (acts ++ more) := by
  intro act member
  rcases List.mem_append.mp member with earlier | later
  · exact first act earlier
  · exact second act later

theorem DeviceOnly.submitted {acts : List Act} (device : DeviceOnly acts) (sound : l.Sound c)
    (ran : l.run c acts = some l') : l'.Sound c ∧ l'.submitted = l.submitted := by
  obtain ⟨l₁, same, sound₁, grown⟩ := sound.run acts
  obtain rfl : l₁ = l' := Option.some.inj (same.symm.trans ran)
  refine ⟨sound₁, ?_⟩
  have none : acts.filterMap Act.request = [] := List.filterMap_eq_nil_iff.mpr device
  rw [grown, none, List.append_nil]

/-- The device can transmit all that is posted. -/
theorem Link.Sound.flush (sound : l.Sound c) : ∃ acts l', DeviceOnly acts ∧ l.run c acts = some l' ∧ l'.waiting = [] ∧
      l'.sent = l.sent ++ l.waiting ∧ l'.completed = l.completed ∧ l'.ctx = l.ctx := by
  induction waits : l.waiting generalizing l with
  | nil => exact ⟨[], l, by simp [DeviceOnly], rfl, waits, by simp, rfl, rfl⟩
  | cons p rest ih =>
    obtain ⟨l₁, stepped, sound₁, _⟩ := sound.transmit
    obtain ⟨packet, rfl⟩ : ∃ packet, l₁ = { l with
        sent := l.sent ++ [p]
        waiting := rest
        received := l.received ++ [packet] } := by
      simp only [Link.transmit, waits] at stepped
      cases given : p.packet l.ctx.sendBuf with
      | none => simp [given] at stepped
      | some packet => exact ⟨packet, by simpa [given] using stepped.symm⟩
    obtain ⟨acts, l₂, device, ran, empty, sent, completed, same⟩ := ih sound₁ rfl
    have once : l.step c .transmit = some { l with
        sent := l.sent ++ [p]
        waiting := rest
        received := l.received ++ [packet] } := stepped
    refine ⟨.transmit :: acts, l₂, ?_, (Link.run_cons once).trans ran, empty, ?_, completed, same⟩
    · intro act member
      rcases List.mem_cons.mp member with rfl | later
      · rfl
      · exact device act later
    · simpa using sent

/-- What is completed is part of what was submitted. -/
theorem Link.Sound.completed_le (sound : l.Sound c) : l.completed.length ≤ l.submitted.length := by
  obtain ⟨past, coming, accounts⟩ := sound.accounts
  have nonempty : ∀ {ws : List SendWr} {gs : List (List RdmaRequest)},
      List.Forall₂ Carries ws gs → ws.length ≤ gs.flatten.length := by
    intro ws gs carries
    induction carries with
    | nil => exact Nat.le_refl _
    | @cons w g ws gs first _ ih =>
      have some : 0 < g.length := List.length_pos_iff.mpr first.nonempty
      simp only [List.length_cons, List.flatten_cons, List.length_append]
      omega
  have fewer := nonempty accounts.sent
  rw [← accounts.flat]
  simp only [List.length_map, List.length_append, List.flatten_append] at fewer ⊢
  omega

/-- With a signalled work request transmitted there is a completion. -/
theorem Link.Sound.complete_grows (sound : l.Sound c) {p : Posted} (member : p ∈ l.sent)
    (marked : p.wr.signaled = true) :
    ∃ l', l.step c .complete = some l' ∧ l.completed.length < l'.completed.length := by
  obtain ⟨l', stepped, _, _⟩ := sound.complete
  refine ⟨l', stepped, ?_⟩
  cases found : l.sent.dropWhile (fun p => !p.wr.signaled) with
  | nil =>
    have plain := List.dropWhile_eq_nil_iff.mp found p member
    simp [marked] at plain
  | cons q rest =>
    simp only [Link.complete, found] at stepped
    cases completes : l.ctx.sendComp c q.wr.wrId with
    | none => simp [completes] at stepped
    | some out =>
      simp only [completes, Option.some.injEq] at stepped
      rw [← stepped]
      simp

/-- From every state the device can go on until nothing is queued and no completion is due. -/
theorem Link.Sound.drain (sound : l.Sound c) : ∃ acts l', DeviceOnly acts ∧ l.run c acts = some l' ∧ l'.waiting = [] ∧
      ∀ w ∈ l'.outstanding, w.signaled = false := by
  -- each completion leaves less of what was submitted to complete
  induction left : l.submitted.length - l.completed.length using Nat.strong_induction_on
    generalizing l with
  | _ n ih =>
    obtain ⟨acts, l₁, device, ran, empty, sent, completed, same⟩ := sound.flush
    obtain ⟨sound₁, submitted⟩ := device.submitted sound ran
    by_cases idle : ∀ w ∈ l₁.outstanding, w.signaled = false
    · exact ⟨acts, l₁, device, ran, empty, idle⟩
    · push Not at idle
      obtain ⟨w, member, marked⟩ := idle
      obtain ⟨p, transmitted, rfl⟩ : ∃ p ∈ l₁.sent, p.wr = w := by
        simpa [Link.outstanding, empty] using member
      obtain ⟨l₂, stepped, grows⟩ := sound₁.complete_grows transmitted (by simpa using marked)
      have one : DeviceOnly [.complete] := by simp [DeviceOnly, Act.request]
      have once : l₁.run c [.complete] = some l₂ := Link.run_cons stepped
      obtain ⟨sound₂, submitted₂⟩ := one.submitted sound₁ once
      have fewer := sound₂.completed_le
      rw [submitted₂, submitted] at fewer
      obtain ⟨more, l₃, device₃, ran₃, empty₃, idle₃⟩ := ih
        (l₂.submitted.length - l₂.completed.length)
        (by rw [submitted₂, submitted, ← left]; rw [completed] at grows; omega) sound₂ rfl
      refine ⟨acts ++ [.complete] ++ more, l₃, (device.append one).append device₃, ?_, empty₃, idle₃⟩
      rw [List.append_assoc, Link.run_append ran, Link.run_append once, ran₃]

end Gam.Rdma

import Gam.Rdma.Slots

/-! The receive slots are accounted for as long as every request that is posted is accepted. -/

namespace Gam.Rdma.Resource

variable {inuse commBuf headInit n rounds count head slot i : Nat} {slots : List Bool} {rr : List Nat} {r : Resource}

/-- A slot that `PostRecv` may take. -/
def isFree (slots : List Bool) (i : Nat) : Bool := slots[i]? == some false

theorem advance_eq (inside : head < inuse) : advance inuse head = (head + 1) % inuse := by
  unfold advance
  split
  · next last => rw [last, Nat.mod_self]
  · next => rw [Nat.mod_eq_of_lt (by omega)]

/-- The loop takes free slots, in one turn around the ring, as long as there are enough. -/
theorem fillRequests_ok (inside : head < inuse) (turn : count ≤ inuse) (start : headInit = (head + count) % inuse)
    (enoughRounds : count ≤ rounds) (registered : inuse ≤ slots.length) (regions : slots.length = commBuf * recvSlotStep)
    (few : rr.length ≤ n) (enough : n - rr.length ≤ (Ring.window inuse head count).countP (isFree slots)) :
    ∃ slots' head' new, fillRequests inuse commBuf headInit n rounds slots head rr = .ok (slots', head', rr ++ new) ∧
      (rr ++ new).length = n ∧ slots'.length = slots.length ∧ head' < inuse ∧ new.Nodup ∧
      (∀ i ∈ new, i ∈ Ring.window inuse head count ∧ slots[i]? = some false) ∧
      ∀ i, slots'[i]? = if i ∈ new then some true else slots[i]? := by
  induction count generalizing head rounds slots rr with
  | zero =>
    have full : rr.length = n := by
      rw [Ring.window_zero, List.countP_nil] at enough
      omega
    refine ⟨slots, head, [], ?_, by simpa using full, rfl, inside, List.nodup_nil, by simp, by simp⟩
    cases rounds <;> rw [fillRequests, if_pos full, List.append_nil]
  | succ count ih =>
    by_cases full : rr.length = n
    · refine ⟨slots, head, [], ?_, by simpa using full, rfl, inside, List.nodup_nil, by simp, by simp⟩
      cases rounds <;> rw [fillRequests, if_pos full, List.append_nil]
    · obtain ⟨rounds, rfl⟩ := Nat.exists_eq_succ_of_ne_zero (show rounds ≠ 0 by omega)
      have next : (head + 1) % inuse < inuse := Nat.mod_lt _ (by omega)
      have start' : headInit = ((head + 1) % inuse + count) % inuse := by
        rw [start, Nat.mod_add_mod]
        congr 1
        omega
      have apart : head ∉ Ring.window inuse ((head + 1) % inuse) count := by
        have nodup : (Ring.window inuse head (count + 1)).Nodup := Ring.nodup_window turn
        rw [Ring.window_cons inside] at nodup
        exact (List.nodup_cons.mp nodup).1
      rw [Ring.window_cons inside, List.countP_cons] at enough
      rw [fillRequests, if_neg full, advance_eq inside]
      have there : slots[head]? = some slots[head] := List.getElem?_eq_getElem (by omega)
      rw [there]
      cases occupied : slots[head] with
      | true =>
        rw [occupied] at there
        -- another slot of this turn is free, so the head has not come around
        have more : count ≠ 0 := by
          rintro rfl
          simp only [Ring.window_zero, List.countP_nil, isFree, there] at enough
          have : n - rr.length = 0 := by simpa using enough
          omega
        have around : (head + 1) % inuse ≠ headInit := by
          intro same
          rw [start'] at same
          have zero : 0 = count := Ring.offset_injective (show 0 < inuse by omega) (show count < inuse by omega)
            (show ((head + 1) % inuse + 0) % inuse = ((head + 1) % inuse + count) % inuse by
              rw [Nat.add_zero, Nat.mod_eq_of_lt next]; exact same)
          omega
        have free : (if isFree slots head = true then 1 else 0) = 0 := by rw [isFree, there]; rfl
        rw [free, Nat.add_zero] at enough
        obtain ⟨slots', head', new, ran, length, sizes, inside', nodup, listed, marks⟩ :=
          ih next (Nat.le_of_succ_le turn) start' (Nat.le_of_succ_le_succ enoughRounds) registered regions few enough
        simp only [if_neg around]
        exact ⟨slots', head', new, ran, length, sizes, inside', nodup,
          fun i member => ⟨by rw [Ring.window_cons inside]; exact List.mem_cons_of_mem _ (listed i member).1,
            (listed i member).2⟩, marks⟩
      | false =>
        rw [occupied] at there
        have region : head / recvSlotStep < commBuf := Nat.div_lt_of_lt_mul (by rw [Nat.mul_comm]; omega)
        have others : ∀ i, i ≠ head → (slots.set head true)[i]? = slots[i]? := fun i other =>
          List.getElem?_set_ne (Ne.symm other)
        have same : (Ring.window inuse ((head + 1) % inuse) count).countP (isFree (slots.set head true)) =
            (Ring.window inuse ((head + 1) % inuse) count).countP (isFree slots) := by
          refine List.countP_congr fun i member => ?_
          rw [isFree, isFree, others i fun equal => apart (equal ▸ member)]
        have one : (if isFree slots head = true then 1 else 0) ≤ 1 := by split <;> omega
        have sizes' : (slots.set head true).length = slots.length := List.length_set
        obtain ⟨slots', head', new, ran, length, sizes, inside', nodup, listed, marks⟩ :=
          ih next (Nat.le_of_succ_le turn) start' (Nat.le_of_succ_le_succ enoughRounds) (sizes'.symm ▸ registered) (sizes'.trans regions)
            (show (rr ++ [head]).length ≤ n by rw [List.length_append, List.length_singleton]; omega)
            (by rw [same, List.length_append, List.length_singleton]; omega)
        have fresh : head ∉ new := fun member => apart (listed head member).1
        simp only [if_pos region]
        refine ⟨slots', head', head :: new, ?_, ?_, by rw [sizes, List.length_set], inside',
          List.nodup_cons.mpr ⟨fresh, nodup⟩, ?_, ?_⟩
        · rw [ran, List.append_assoc, List.singleton_append]
        · rw [← length, List.append_assoc, List.singleton_append]
        · intro i member
          rw [Ring.window_cons inside]
          rcases List.mem_cons.mp member with rfl | member
          · exact ⟨List.mem_cons_self, there⟩
          · obtain ⟨ahead, free⟩ := listed i member
            rw [others i fun equal => apart (equal ▸ ahead)] at free
            exact ⟨List.mem_cons_of_mem _ ahead, free⟩
        · intro i
          rw [marks]
          by_cases first : i = head
          · subst first
            rw [if_neg fresh, if_pos List.mem_cons_self, List.getElem?_set_self (by omega)]
          · rw [others i first]
            simp only [List.mem_cons, first, false_or]

/-- A whole turn around the ring. -/
theorem fillRequests_turn (inside : head < inuse) (registered : inuse ≤ slots.length)
    (regions : slots.length = commBuf * recvSlotStep) (enough : n ≤ (List.range inuse).countP (isFree slots)) :
    ∃ slots' head' new, fillRequests inuse commBuf head n (2 * inuse) slots head [] = .ok (slots', head', new) ∧
      new.length = n ∧ slots'.length = slots.length ∧ head' < inuse ∧ new.Nodup ∧
      (∀ i ∈ new, i < inuse ∧ slots[i]? = some false) ∧ ∀ i, slots'[i]? = if i ∈ new then some true else slots[i]? := by
  have start : head = (head + inuse) % inuse := by rw [Nat.add_mod_right, Nat.mod_eq_of_lt inside]
  have whole : (Ring.window inuse head inuse).Perm (List.range inuse) := Ring.window_perm
  obtain ⟨slots', head', new, ran, length, sizes, inside', nodup, listed, marks⟩ :=
    fillRequests_ok inside (Nat.le_refl inuse) start (show inuse ≤ 2 * inuse by omega) registered regions
      (show ([] : List Nat).length ≤ n from Nat.zero_le n) (by rw [whole.countP_eq]; exact enough)
  exact ⟨slots', head', new, ran, length, sizes, inside', nodup,
    fun i member => ⟨List.mem_range.mp (whole.mem_iff.mp (listed i member).1), (listed i member).2⟩, marks⟩

/-- `recv_posted` counts the requests in the receive queue, no slot is posted or handed out twice, and every
other slot is free for the next `PostRecv`. -/
structure Accounted (r : Resource) : Prop where
  counted : r.recvPosted = r.posted.length
  once : (r.posted ++ r.taken).Nodup
  inside : ∀ i ∈ r.posted ++ r.taken, i < r.slotInuse
  kept : ∀ i < r.slotInuse, r.slots[i]? = some (decide (i ∈ r.posted ++ r.taken))

/-- What the calls rely on beside. -/
structure Steady (r : Resource) : Prop extends Accounted r where
  depth : r.posted.length ≤ r.rxDepth
  registered : r.slotInuse ≤ r.slots.length
  regions : r.slots.length = r.commBuf * recvSlotStep
  unused : ∀ i, r.slotInuse ≤ i → i < r.slots.length → r.slots[i]? = some false
  head : r.slotHead < r.slotInuse ∨ r.slotHead = 0

theorem steady_new (rxDepth : Nat) : Steady (new rxDepth) :=
  { counted := rfl
    once := List.nodup_nil
    inside := fun _ member => absurd member List.not_mem_nil
    kept := fun _ below => absurd below (Nat.not_lt_zero _)
    depth := Nat.zero_le _
    registered := Nat.le_refl _
    regions := rfl
    unused := fun _ _ below => absurd below (Nat.not_lt_zero _)
    head := Or.inr rfl }

/-- The free slots among those in use. -/
def freeCount (r : Resource) : Nat := (List.range r.slotInuse).countP (isFree r.slots)

/-- The device accepts what is posted, `PostRecv` finds enough free slots, a slot is given back after it was
handed out and while there is room in the receive queue, and a completion is one of a posted request. -/
def Allowed (r : Resource) : Call → Prop
  | .regCommSlot _ => True
  | .postRecv n accepted => min n (r.rxDepth - r.posted.length) ≤ r.freeCount ∧ min n (r.rxDepth - r.posted.length) ≤ accepted
  | .postRecvSlot slot accepted => slot ∈ r.taken ∧ r.posted.length < r.rxDepth ∧ accepted = true
  | .recvComp slot => slot ∈ r.posted

instance (r : Resource) (c : Call) : Decidable (r.Allowed c) := by
  cases c <;> unfold Allowed <;> infer_instance

def AllAllowed : Resource → List Call → Prop
  | _, [] => True
  | r, c :: calls => r.Allowed c ∧ ∀ r' ret, r.call c = .ok (r', ret) → AllAllowed r' calls

namespace Steady

theorem regCommSlot (steady : Steady r) (slot : Nat) : Steady (r.regCommSlot slot) := by
  have registered := steady.registered
  have head : r.slotHead < r.slotInuse + slot ∨ r.slotHead = 0 := steady.head.imp_left fun before => by omega
  have listed : ∀ i, r.slotInuse ≤ i → decide (i ∈ r.posted ++ r.taken) = false := fun i beyond => by
    refine decide_eq_false fun member => ?_
    have below := steady.inside i member
    omega
  have kept : ∀ i < r.slots.length, r.slots[i]? = some (decide (i ∈ r.posted ++ r.taken)) := fun i there => by
    by_cases below : i < r.slotInuse
    · exact steady.kept i below
    · rw [steady.unused i (by omega) there, listed i (by omega)]
  unfold Resource.regCommSlot
  split
  · next room =>
    exact { steady with
      inside := fun i member => Nat.lt_add_right slot (steady.inside i member)
      kept := fun i below => kept i (by simp only at below; omega)
      registered := by simp only; omega
      unused := fun i beyond there => steady.unused i (by simp only at beyond; omega) there
      head }
  · next full =>
    have enough : r.slotInuse + slot - r.slots.length ≤ newRegions r.slots.length (r.slotInuse + slot) * recvSlotStep := by
      unfold newRegions recvSlotStep
      omega
    have added : ∀ i, r.slots.length ≤ i →
        i < r.slots.length + newRegions r.slots.length (r.slotInuse + slot) * recvSlotStep →
        (r.slots ++ List.replicate (newRegions r.slots.length (r.slotInuse + slot) * recvSlotStep) false)[i]? = some false :=
      fun i beyond there => by
        rw [List.getElem?_append_right beyond, List.getElem?_replicate, if_pos (by omega)]
    exact { steady with
      inside := fun i member => Nat.lt_add_right slot (steady.inside i member)
      kept := fun i below => by
        simp only at below ⊢
        by_cases there : i < r.slots.length
        · rw [List.getElem?_append_left there, kept i there]
        · rw [added i (by omega) (by omega), listed i (by omega)]
      registered := by
        simp only [List.length_append, List.length_replicate]
        omega
      regions := by
        simp only [List.length_append, List.length_replicate, steady.regions, Nat.add_mul]
      unused := fun i beyond there => by
        simp only [List.length_append, List.length_replicate] at beyond there ⊢
        exact added i (by omega) there
      head }

/-- Slots go from the receive queue to the application and back. -/
theorem moved {posted taken : List Nat} (steady : Steady r) (same : (posted ++ taken).Perm (r.posted ++ r.taken))
    (depth : posted.length ≤ r.rxDepth) : Steady { r with recvPosted := posted.length, posted, taken } :=
  { steady with
    counted := rfl
    once := same.nodup_iff.mpr steady.once
    inside := fun i member => steady.inside i (same.mem_iff.mp member)
    kept := fun i below => (steady.kept i below).trans (congrArg some (decide_eq_decide.mpr same.mem_iff.symm))
    depth }

theorem recvComp (steady : Steady r) (posted : slot ∈ r.posted) : Steady (r.recvComp slot) := by
  have length := List.length_erase_of_mem posted
  have some := List.length_pos_of_mem posted
  have depth := steady.depth
  have counted := steady.counted
  have same : r.recvComp slot =
      { r with recvPosted := (r.posted.erase slot).length, posted := r.posted.erase slot, taken := slot :: r.taken } := by
    rw [Resource.recvComp, show r.recvPosted - 1 = (r.posted.erase slot).length by omega]
  rw [same]
  refine steady.moved ?_ (by omega)
  exact List.perm_middle.trans ((List.perm_cons_erase posted).symm.append_right r.taken)

theorem postRecvSlot (steady : Steady r) (taken : slot ∈ r.taken) (room : r.posted.length < r.rxDepth) :
    ∃ r', r.postRecvSlot slot true = .ok (r', 1) ∧ Steady r' := by
  have counted := steady.counted
  have below := steady.inside slot (List.mem_append_right _ taken)
  have region : slot / recvSlotStep < r.commBuf := by
    refine Nat.div_lt_of_lt_mul ?_
    rw [Nat.mul_comm, ← steady.regions]
    exact Nat.lt_of_lt_of_le below steady.registered
  have length : (r.posted ++ [slot]).length = r.posted.length + 1 := by simp
  refine ⟨{ r with recvPosted := (r.posted ++ [slot]).length, posted := r.posted ++ [slot], taken := r.taken.erase slot },
    ?_, steady.moved ?_ (by omega)⟩
  · unfold Resource.postRecvSlot
    simp only
    rw [if_neg (by omega), if_pos region, if_pos trivial, show r.recvPosted + 1 = (r.posted ++ [slot]).length by omega]
  · rw [List.append_assoc, List.singleton_append]
    exact (List.perm_cons_erase taken).symm.append_left r.posted

/-- `PostRecv` posts free slots and returns their number. -/
theorem postRecv {accepted : Nat} (steady : Steady r) (enough : min n (r.rxDepth - r.posted.length) ≤ r.freeCount)
    (all : min n (r.rxDepth - r.posted.length) ≤ accepted) :
    ∃ r', r.postRecv n accepted = .ok (r', (r'.posted.length : Int) - r.posted.length) ∧ Steady r' := by
  have counted := steady.counted
  have depth := steady.depth
  have limit : (if (n : Int) > r.rxDepth - r.recvPosted then (r.rxDepth - r.recvPosted).toNat else n) =
      min n (r.rxDepth - r.posted.length) := by
    split <;> omega
  unfold Resource.postRecv
  simp only [limit]
  have room : min n (r.rxDepth - r.posted.length) ≤ r.rxDepth - r.posted.length := Nat.min_le_right ..
  generalize min n (r.rxDepth - r.posted.length) = m at *
  by_cases nothing : m = 0
  · exact ⟨r, by rw [if_pos nothing, Int.sub_self], steady⟩
  · rw [if_neg nothing]
    have some : 0 < r.slotInuse := by
      by_contra zero
      rw [freeCount, show r.slotInuse = 0 by omega] at enough
      exact nothing (Nat.le_zero.mp enough)
    have head : r.slotHead < r.slotInuse := by
      rcases steady.head with below | zero
      · exact below
      · omega
    obtain ⟨slots', head', new, ran, length, sizes, inside, nodup, listed, marks⟩ :=
      fillRequests_turn head steady.registered steady.regions enough
    have bad : new[accepted]? = none := List.getElem?_eq_none (by omega)
    have taken : new.take accepted = new := List.take_of_length_le (by omega)
    have total : (r.posted ++ new).length = r.posted.length + m := by rw [List.length_append, length]
    refine ⟨{ r with slots := slots', slotHead := head', recvPosted := r.recvPosted + m, posted := r.posted ++ new }, ?_, ?_⟩
    · simp only [ran, bind, Except.bind, bad, taken, pure, Except.pure, total, length]
      congr 2
      omega
    · have unmarked : ∀ i ∈ new, i ∉ r.posted ++ r.taken := fun i member listed' => by
        have free := (listed i member).2
        rw [steady.kept i (listed i member).1, Option.some.injEq, decide_eq_false_iff_not] at free
        exact free listed'
      have moved : (r.posted ++ new ++ r.taken).Perm (new ++ (r.posted ++ r.taken)) := by
        rw [← List.append_assoc]
        exact List.perm_append_comm.append_right r.taken
      exact { steady with
        counted := by simp only [total]; omega
        once := moved.nodup_iff.mpr (List.nodup_append.mpr ⟨nodup, steady.once,
          fun i member j member' same => unmarked i member (same ▸ member')⟩)
        inside := fun i member => by
          rcases List.mem_append.mp (moved.mem_iff.mp member) with fresh | old
          · exact (listed i fresh).1
          · exact steady.inside i old
        kept := fun i below => by
          simp only [marks, moved.mem_iff, List.mem_append (s := new)]
          by_cases fresh : i ∈ new
          · simp [fresh]
          · rw [if_neg fresh, steady.kept i below]
            simp [fresh]
        depth := by simp only [total]; omega
        registered := by simp only [sizes]; exact steady.registered
        regions := by simp only [sizes]; exact steady.regions
        unused := fun i beyond there => by
          simp only [marks, sizes] at beyond there ⊢
          rw [if_neg fun member => absurd (listed i member).1 (by omega)]
          exact steady.unused i beyond there
        head := Or.inl inside }

/-- One call. -/
theorem call {c : Call} (steady : Steady r) (allowed : r.Allowed c) : ∃ r' ret, r.call c = .ok (r', ret) ∧ Steady r' ∧
      ∀ n accepted, c = .postRecv n accepted → ret = (r'.posted.length : Int) - r.posted.length := by
  cases c with
  | regCommSlot slot => exact ⟨_, 0, rfl, steady.regCommSlot slot, nofun⟩
  | postRecv n accepted =>
    obtain ⟨r', ran, steady'⟩ := steady.postRecv allowed.1 allowed.2
    exact ⟨r', _, ran, steady', fun _ _ _ => rfl⟩
  | postRecvSlot slot accepted =>
    obtain ⟨taken, room, rfl⟩ := allowed
    obtain ⟨r', ran, steady'⟩ := steady.postRecvSlot taken room
    exact ⟨r', 1, ran, steady', nofun⟩
  | recvComp slot => exact ⟨_, 0, rfl, steady.recvComp allowed, nofun⟩

/-- A run of calls. -/
theorem run (steady : Steady r) (calls : List Call) (allowed : AllAllowed r calls) :
    ∃ last log, r.run calls = .ok (last, log) ∧ Steady last ∧
      ∀ n accepted ret posted, (.postRecv n accepted, ret, posted) ∈ log → ret = posted := by
  induction calls generalizing r with
  | nil => exact ⟨r, [], rfl, steady, nofun⟩
  | cons c calls ih =>
    obtain ⟨r', ret, ran, steady', counted⟩ := steady.call allowed.1
    obtain ⟨last, log, rest, steady'', counted'⟩ := ih steady' (allowed.2 r' ret ran)
    refine ⟨last, (c, ret, (r'.posted.length : Int) - r.posted.length) :: log, ?_, steady'', ?_⟩
    · simp only [Resource.run, ran, rest, bind, Except.bind, pure, Except.pure]
    · intro n accepted ret' posted member
      rcases List.mem_cons.mp member with first | later
      · obtain ⟨same, rfl, rfl⟩ := by simpa only [Prod.mk.injEq] using first
        exact counted n accepted same.symm
      · exact counted' n accepted ret' posted later

end Steady

/-- In every run of allowed calls the slots are accounted for, and each `PostRecv` returns the number of
requests that it posted. -/
theorem run_accounted (rxDepth : Nat) (calls : List Call) (allowed : AllAllowed (new rxDepth) calls) :
    ∃ r log, (new rxDepth).run calls = .ok (r, log) ∧ Accounted r ∧
      ∀ n accepted ret posted, (.postRecv n accepted, ret, posted) ∈ log → ret = posted := by
  obtain ⟨r, log, ran, steady, counted⟩ := (steady_new rxDepth).run calls allowed
  exact ⟨r, log, ran, steady.toAccounted, counted⟩

/-- Two slots are posted, one is received and given back. -/
theorem run_accounted_two : ∃ r log,
    (new 4).run [.regCommSlot 2, .postRecv 2 2, .recvComp 0, .postRecvSlot 0 true] = .ok (r, log) ∧ Accounted r ∧
      ∀ n accepted ret posted, (.postRecv n accepted, ret, posted) ∈ log → ret = posted := by
  apply run_accounted 4
  refine ⟨trivial, fun r₁ ret₁ ran₁ => ?_⟩
  obtain ⟨rfl, -⟩ := Prod.mk.inj (Except.ok.inj ran₁)
  refine ⟨by decide, fun r₂ ret₂ ran₂ => ?_⟩
  obtain ⟨rfl, -⟩ := Prod.mk.inj (Except.ok.inj ran₂)
  refine ⟨by decide, fun r₃ ret₃ ran₃ => ?_⟩
  obtain ⟨rfl, -⟩ := Prod.mk.inj (Except.ok.inj ran₃)
  exact ⟨by decide, fun _ _ _ => trivial⟩

/-- If the first of two requests is rejected, and the head has come around to its slot, nothing is taken back:
two requests are counted and reported that were not posted, and both slots are lost. If only the second is
rejected, `recv_posted` is one too many. -/
theorem postRecv_rejected :
    ((new 4).run [.regCommSlot 2, .postRecv 2 0]).map (fun x => (x.1.posted, x.1.recvPosted, x.1.slots.take 2, x.2)) =
      .ok ([], 2, [true, true], [(.regCommSlot 2, 0, 0), (.postRecv 2 0, 2, 0)]) ∧
    ((new 4).run [.regCommSlot 2, .postRecv 2 1]).map (fun x => (x.1.posted, x.1.recvPosted)) = .ok ([0], 2) :=
  ⟨rfl, rfl⟩

end Gam.Rdma.Resource

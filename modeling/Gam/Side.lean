import Gam.Relation

/-! How the elementary updates of a block state change what it says about one worker. -/

namespace Gam.BlockState

open Function
variable {Node : Type} [DecidableEq Node] (b : Block Node) (s : BlockState Node) (n m : Node)

@[simp] theorem side_setEntry (entry : Option (DirEntry Node)) :
    (s.setEntry entry).side b n = s.side b n := rfl

@[simp] theorem side_setMem (d : Data) : (s.setMem d).side b n = s.side b n := rfl

@[simp] theorem side_addToServeLocal (rq : Req Node) :
    (s.addToServeLocal m rq).side b n = s.side b n := rfl

@[simp] theorem side_takeLocal : (s.takeLocal m).side b n = s.side b n := rfl

/-! ### The worker itself -/

theorem side_setLine_self (l : Option (CacheLine Node)) :
    (s.setLine n l).side b n = { s.side b n with line := l } := by
  simp [side]

@[simp] theorem side_setLine_of_ne (l : Option (CacheLine Node)) (other : n ≠ m) :
    (s.setLine m l).side b n = s.side b n := by
  simp [side, update_of_ne other]

theorem side_addPending_self (p : Pending Node) :
    (s.addPending n p).side b n = { s.side b n with pending := p :: (s.side b n).pending } := by
  simp [side]

@[simp] theorem side_addPending_of_ne (p : Pending Node) (other : n ≠ m) :
    (s.addPending m p).side b n = s.side b n := by
  simp [side, update_of_ne other]

/-- What is taken up is not in the inbox any more. -/
theorem inbox_extend (x : Node × Msg Node) (q : List (Node × Msg Node)) :
    ((s.extend m q).side b n).inbox.Sublist ((s.extend m (x :: q)).side b n).inbox := by
  refine List.Sublist.append ?_ (List.Sublist.refl _)
  by_cases same : n = m
  · subst n
    simp
  · simp [same]

/-! ### Sending -/

theorem side_send_out (items : List (Item Node)) (away : n ≠ b.wid) :
    (s.send n b.wid items).side b n =
      { s.side b n with
        mail := (s.send n b.wid items).mail b n
        out := (s.side b n).out ++ msgs items } := by
  simp [side, away]

theorem side_send_in (items : List (Item Node)) (away : n ≠ b.wid) :
    (s.send m n items).side b n =
      { s.side b n with
        mail := (s.send m n items).mail b n
        lines := update (s.side b n).lines m ((s.side b n).lines m ++ lines items)
        inbox := (s.side b n).inbox ++ if m = b.wid then msgs items else [] } := by
  have lines_eq : (fun o => lines ((s.send m n items).chan o n)) =
      update (s.side b n).lines m ((s.side b n).lines m ++ lines items) := by
    funext o
    by_cases same : o = m
    · subst o; simp [side]
    · simp [side, same]
  simp only [side, lines_eq]
  by_cases mine : m = b.wid <;> simp [Ne.symm away, mine, eq_comm]

@[simp] theorem side_send_of_ne {src dst : Node} (items : List (Item Node)) (other : n ≠ dst)
    (source : src = n → dst ≠ b.wid) : (s.send src dst items).side b n = s.side b n := by
  have toHome : ¬ (n = src ∧ b.wid = dst) := fun same => source same.1.symm same.2.symm
  simp [side, mail_send_of_ne b s n items other source, other, toHome]

theorem side_broadcast (dsts : List Node) (c : Command Node) (away : n ≠ b.wid) :
    (s.broadcast b.wid dsts (.command c)).side b n =
      { s.side b n with
        mail := (s.broadcast b.wid dsts (.command c)).mail b n
        inbox := (s.side b n).inbox ++ (dsts.filter fun d => decide (d = n)).map fun _ => .command c } := by
  have lines_eq : (fun o => lines ((s.broadcast b.wid dsts (.command c)).chan o n)) =
      (s.side b n).lines := by
    funext o
    by_cases same : o = b.wid
    · have none_ : ∀ k : Nat, lines (List.replicate k (Item.msg (.command c) : Item Node)) = [] :=
        fun k => List.filterMap_replicate_of_none rfl
      simp [side, same, List.map_const', none_]
    · simp [side, same]
  have sent : ∀ k : Nat, msgs (List.replicate k (Item.msg (.command c) : Item Node)) =
      List.replicate k (.command c) := fun k => List.filterMap_replicate_of_some rfl
  simp only [side, lines_eq]
  simp [away, sent]

/-! ### Receiving -/

theorem side_pop_out {rest : List (Item Node)} (away : n ≠ b.wid) :
    (s.setChan n b.wid rest).side b n =
      { s.side b n with
        mail := (s.setChan n b.wid rest).mail b n
        out := msgs rest } := by
  simp [side, away]

theorem side_pop_in {rest : List (Item Node)} (away : n ≠ b.wid) :
    (s.setChan m n rest).side b n =
      { s.side b n with
        mail := (s.setChan m n rest).mail b n
        lines := update (s.side b n).lines m (lines rest)
        inbox := (s.toServe n).map Prod.snd ++ msgs (if m = b.wid then rest else s.chan b.wid n) } := by
  have lines_eq : (fun o => lines ((s.setChan m n rest).chan o n)) =
      update (s.side b n).lines m (lines rest) := by
    funext o
    by_cases same : o = m
    · subst o; simp
    · simp [side, same]
  simp only [side, lines_eq]
  by_cases mine : m = b.wid <;> simp [Ne.symm away, mine, eq_comm]

/-- What has arrived is not in the inbox any more. -/
theorem inbox_pop {item : Item Node} {rest : List (Item Node)} (front : s.chan m n = item :: rest) :
    ((s.setChan m n rest).side b n).inbox.Sublist (s.side b n).inbox := by
  refine List.Sublist.append (List.Sublist.refl _) ?_
  by_cases mine : b.wid = m
  · subst m
    simp only [setChan_chan, and_self, if_true, front]
    exact (List.sublist_cons_self item rest).filterMap _
  · simp [mine]

/-- A worker that is asked nothing has no command in its inbox. -/
theorem inbox_quiet (commands : (s.mail b n).commands = []) (stray : (s.mail b n).stray = 0) :
    ∀ x ∈ (s.side b n).inbox, x.command? = none := by
  obtain ⟨queue, channel⟩ := List.append_eq_nil_iff.mp commands
  intro x member
  rcases List.mem_append.mp member with waits | arrives
  · obtain ⟨e, listed, rfl⟩ := List.mem_map.mp waits
    have orderly : strayCommands b.wid (s.toServe n) = 0 := by
      simp only [mail] at stray
      omega
    have proper := List.countP_eq_zero.mp orderly e listed
    have silent := List.filterMap_eq_nil_iff.mp queue e listed
    by_cases mine : e.1 = b.wid
    · simpa [mine] using silent
    · simp [mine] at proper
  · exact List.filterMap_eq_nil_iff.mp channel x arrives

@[simp] theorem side_setChan_of_ne {src dst : Node} (items : List (Item Node)) (other : n ≠ dst)
    (source : src = n → dst ≠ b.wid) : (s.setChan src dst items).side b n = s.side b n := by
  have toHome : ¬ (n = src ∧ b.wid = dst) := fun same => source same.1.symm same.2.symm
  simp [side, mail_setChan_of_ne b s n items other source, other, toHome]

end Gam.BlockState

import Gam.Simulation.Home

/-! The home tells a caching worker something. -/

namespace Gam
variable {Node : Type} [DecidableEq Node]
variable {g : Guard Node} {b : Block Node} {s : BlockState Node} {a : Abs Node} {c : Node}

/-- The relation up to the mail of worker `c`, which is `mail`: the home has just taken up a
request of it. -/
structure Almost (b : Block Node) (s : BlockState Node) (a : Abs Node) (c : Node) (mail : Mail Node) : Prop where
  home : HomeRel b s a
  node : ∀ n, n ≠ b.wid → n ≠ c → (s.side b n).Shows b.wid (a.local n)
  self : ({ s.side b c with mail := (a.phase c).mail (a.home.cmd c) } : Side Node).Shows b.wid (a.local c)
  mail : s.mail b c = mail
  framed : s.AllFramed

theorem Rel.almost (rel : Rel b s a) (away : c ≠ b.wid) : Almost b s a c ((a.phase c).mail (a.home.cmd c)) where
  home := rel.home
  node := fun n notHome _ => rel.node n notHome
  self := by
    have shows := rel.node c away
    exact ⟨shows.line, shows.bare, shows.pending, shows.completions, rfl, shows.lines, shows.landed,
      shows.punctual, shows.timely⟩
  mail := (rel.node c away).mail
  framed := rel.framed

/-- The home sends `items` to worker `c`, which is in phase `ph` then. -/
theorem Almost.tell {mail : Mail Node} (rel : Almost b s a c mail) (away : c ≠ b.wid) (ph : Phase Node)
    {items : List (Item Node)} {copy : Data} {a' : Abs Node} (batch : Framed items)
    (line : ph.line = (a.phase c).line) (pending : ph.pending = (a.phase c).pending)
    (completions : ph.completions = (a.phase c).completions)
    (others : ∀ m ∈ msgs items, m.command? = none ∧ m.request? = none) (quiet : (a.home.cmd c).commands = [])
    (mailEq : { mail with replies := mail.replies ++ (msgs items).filterMap Msg.reply? } = ph.mail (a.home.cmd c))
    (data : (lines items = [] ∧ copy = a.copy c ∧
        (ph.source b.wid = (a.phase c).source b.wid ∨ (a.phase c).source b.wid = none)) ∨
      ∃ ptr, (a.phase c).source b.wid = none ∧ lines items = [(ptr, copy)] ∧
        ph.source b.wid = some (b.wid, ptr))
    (home : a'.home = a.home) (dirLocks : a'.dirLocks = a.dirLocks) (mem : a'.mem = a.mem)
    (rest : ∀ m, m ≠ c → a'.local m = a.local m)
    (mine : a'.local c = ⟨ph, a.home.cmd c, a.raw c, copy, a.locks c⟩) :
    Rel b (s.send b.wid c items) a' := by
  have shows := rel.self
  refine ⟨rel.home.congr rfl rfl rfl rfl (by simp [Ne.symm away]) rfl rfl
    (fun m => by simp [Ne.symm away]) home dirLocks mem, fun m notHome => ?_, rel.framed.send _ _ batch⟩
  by_cases same : m = c
  · subst m
    have idle : (a.phase c).source b.wid = none → (∀ o, lines (s.chan o c) = []) ∧ a.raw c = a.copy c := by
      intro source
      refine ⟨fun o => List.eq_nil_iff_forall_not_mem.mpr fun x member => ?_, ?_⟩
      · have found : (a.phase c).source b.wid = _ := shows.lines o x member
        rw [source] at found
        cases found
      · simpa [-Phase.source, source] using shows.landed
    rw [mine, BlockState.side_send_in _ _ _ _ _ notHome, BlockState.mail_send_from_home _ _ _ _ notHome]
    exact {
      line := by rw [line]; exact shows.line
      bare := fun h => shows.bare (line.symm.trans h)
      pending := by rw [pending]; exact shows.pending
      completions := by rw [completions]; exact shows.completions
      mail := by
        have noCommand : (msgs items).filterMap Msg.command? = [] :=
          List.filterMap_eq_nil_iff.mpr fun x member => (others x member).1
        have noRequest : (msgs items).countP (fun m => m.request?.isSome) = 0 :=
          List.countP_eq_zero.mpr fun x member => by simp [(others x member).2]
        rw [rel.mail]
        simpa [noCommand, noRequest] using mailEq
      lines := fun o x member => by
        rcases data with ⟨noData, -, source⟩ | ⟨ptr, source, sent, target⟩
        · have old : x ∈ lines (s.chan o c) := by
            by_cases isHome : o = b.wid
            · subst o; simpa [BlockState.side, noData] using member
            · simpa [BlockState.side, isHome] using member
          rcases source with same | source
          · rw [show (Local.phase _) = ph from rfl, same]
            exact shows.lines o x old
          · rw [(idle source).1] at old
            cases old
        · have none_ := (idle source).1
          by_cases isHome : o = b.wid
          · subst o
            obtain rfl : x = (ptr, copy) := by simpa [BlockState.side, none_, sent] using member
            exact target
          · simp [BlockState.side, none_, isHome] at member
      landed := by
        rcases data with ⟨noData, rfl, source⟩ | ⟨ptr, source, sent, target⟩
        · have linesEq : Function.update (s.side b c).lines b.wid ((s.side b c).lines b.wid ++ lines items) =
              (s.side b c).lines := by simp [noData]
          rw [linesEq]
          rcases source with same | source
          · rw [show (Local.phase _) = ph from rfl, same]
            exact shows.landed
          · obtain ⟨none_, raw⟩ := idle source
            cases found : ph.source b.wid with
            | none => exact raw
            | some o => simp [BlockState.side, none_, raw]
        · simp [-Phase.source, BlockState.side, (idle source).1, sent, target]
      punctual := shows.punctual
      timely := by
        refine Timely.append_quiet (BlockState.inbox_quiet b s c ?_ ?_) fun x member => ?_
        · rw [rel.mail, ← quiet]
          exact congrArg Mail.commands mailEq
        · rw [rel.mail]
          exact congrArg Mail.stray mailEq
        · rw [if_pos rfl] at member
          exact (others x member).1 }
  · rw [rest m same, BlockState.side_send_of_ne _ _ _ _ same (fun h => absurd h.symm notHome)]
    exact rel.node m notHome same

end Gam

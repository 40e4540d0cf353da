import Mathlib.Tactic.Ring
import Gam.Invariant

/-! The books the home keeps: its owner, its list of sharers and the count of outstanding
answers, as commands are answered and heard. -/

namespace Gam

open Function
variable {Node : Type} [DecidableEq Node]

namespace Home
variable {L : List (GAddr Node)} {answer : Node → Option Answer} {n : Node}
variable {ph : Phase Node} {h : Node} {requester : Option Node} {o x : GAddr Node} {keep keep' : Bool}
  {home : Home Node} {status : Status}

theorem OwnerFits.opened (fits : OwnerFits keep o .opened n ph) : OwnerFits keep' o .opened n ph := fits

/-- A refusal leaves the owner where it was. -/
theorem OwnerFits.refused (fits : OwnerFits keep o .opened n ph) : OwnerFits keep' o (.acked false) n ph := fits

theorem OwnerFits.restored (fits : OwnerFits keep o (.acked false) n ph) : OwnerFits keep' o .opened n ph := fits

/-- Once the owner has agreed nobody can write. -/
theorem OwnerFits.released {keep : Bool} (fits : OwnerFits keep o (.acked true) n ph) : ¬ ph.Exclusive := by
  by_cases same : n = o.wid
  · exact (fits.2 same).1
  · exact fits.1 same

theorem Fits.not_waits_of_settled (settled : home.Settled) (fits : home.Fits n ph) : ¬ ph.Waits := by
  cases home <;> first | exact fits.2 | exact settled.elim

theorem Fits.not_exclusive_of_idle (idle : home.Idle) (fits : home.Fits n ph) : ¬ ph.Exclusive := by
  cases home <;> first | exact fits.1.1 | exact fits.1 | exact idle.elim

theorem Fits.shares_of_idle (idle : home.Idle)
    (fits : home.Fits n ph) {p : Nat} (listed : ⟨n, p⟩ ∈ home.sharers) : ph.Shares p := by
  cases home with
  | unshared => simp [sharers] at listed
  | shared L => exact fits.1.2 p listed (by simp)
  | _ => exact idle.elim

theorem ListOk.filter (ok : ListOk h L) (p : GAddr Node → Bool) : ListOk h (L.filter p) :=
  ⟨(List.filter_sublist.map _).nodup ok.nodup, fun x hx => ok.away x (List.mem_of_mem_filter hx)⟩

theorem ListOk.hear (ok : ListOk h L) (m : Node) (agreed : Bool) : ListOk h (Home.hear L m agreed) := by
  cases agreed with
  | false => exact ok
  | true =>
    exact ⟨(List.eraseP_sublist.map _).nodup ok.nodup, fun x hx => ok.away x (List.mem_of_mem_eraseP hx)⟩

/-- The list around one of its workers. -/
theorem ListOk.split (ok : ListOk h L) (listed : n ∈ L.map GAddr.wid) :
    ∃ x L₁ L₂, x.wid = n ∧ L = L₁ ++ x :: L₂ ∧ Home.hear L n true = L₁ ++ L₂ ∧ ∀ y ∈ L₁ ++ L₂, y.wid ≠ n := by
  obtain ⟨z, member, same⟩ := List.mem_map.mp listed
  obtain ⟨x, L₁, L₂, before, mine, eq, erased⟩ :=
    List.exists_of_eraseP (p := fun a => decide (a.wid = n)) member (by simpa using same)
  have mine : x.wid = n := by simpa using mine
  refine ⟨x, L₁, L₂, mine, eq, erased, fun y hy => ?_⟩
  rcases List.mem_append.mp hy with hy | hy
  · simpa using before y hy
  · have nodup := ok.nodup
    rw [eq, List.map_append, List.map_cons, List.nodup_append] at nodup
    have notin := (List.nodup_cons.mp nodup.2.1).1
    exact fun h => notin (List.mem_map.mpr ⟨y, hy, by rw [h, mine]⟩)

/-- Hearing one worker takes one off the count. -/
theorem ListOk.outstanding_heard (ok : ListOk h L) (listed : n ∈ L.map GAddr.wid)
    (open_ : (answer n).isSome) (agreed : Bool) :
    outstanding (Home.hear L n agreed) (heard answer n) = outstanding L answer - 1 := by
  obtain ⟨x, L₁, L₂, mine, eq, erased, rest⟩ := ok.split listed
  have same : ∀ M : List (GAddr Node), (∀ y ∈ M, y.wid ≠ n) →
      M.countP (fun a => (heard answer n a.wid).isSome) = M.countP fun a => (answer a.wid).isSome := by
    intro M notin
    refine List.countP_congr fun y hy => ?_
    rw [heard, update_of_ne (notin y hy)]
  have first := same L₁ fun y hy => rest y (List.mem_append_left _ hy)
  have second := same L₂ fun y hy => rest y (List.mem_append_right _ hy)
  have whole : outstanding L answer = (L₁.countP (fun a => (answer a.wid).isSome) : Int)
      + (L₂.countP (fun a => (answer a.wid).isSome) : Int) + 1 := by
    rw [outstanding, eq, List.countP_append, List.countP_cons]
    simp only [mine, open_, if_true]
    push_cast
    ring
  rw [whole]
  cases agreed with
  | true =>
    rw [outstanding, erased, List.countP_append, first, second]
    push_cast
    ring
  | false =>
    have silent : (heard answer n x.wid).isSome = false := by simp [heard, mine]
    rw [outstanding, Home.hear, eq]
    simp only [Bool.false_eq_true, if_false, List.countP_append, List.countP_cons, first, second, silent]
    push_cast
    ring

theorem RoundOk.answered (round : RoundOk L answer requester status) (asked : answer n = some .opened) (ok : Bool) :
    RoundOk L (update answer n (some (.acked ok))) requester status := by
  have some_iff : ∀ m, (update answer n (some (.acked ok)) m).isSome = (answer m).isSome := by
    intro m
    by_cases same : m = n
    · subst m; simp [asked]
    · simp [same]
  constructor
  · intro m h; exact round.listed m (by rwa [some_iff] at h)
  · obtain ⟨m, h⟩ := round.open_; exact ⟨m, by rwa [some_iff]⟩
  · intro h x member other; rw [some_iff]; exact round.all h x member other
  · intro h
    obtain ⟨x, member, other, silent⟩ := round.refused h
    refine ⟨x, member, other, ?_⟩
    have ne : x.wid ≠ n := by intro same; rw [same, asked] at silent; cases silent
    rw [update_of_ne ne]; exact silent
  · exact round.kind

/-- A worker that is still listed after someone else was heard. -/
theorem mem_hear {ok : Bool} (member : x ∈ L) (other : x.wid ≠ n) : x ∈ hear L n ok := by
  cases ok with
  | false => exact member
  | true => exact (List.mem_eraseP_of_neg (by simpa using other)).mpr member

theorem mem_of_mem_hear {ok : Bool} (member : x ∈ hear L n ok) : x ∈ L := by
  cases ok with
  | false => exact member
  | true => exact List.mem_of_mem_eraseP member

/-- Whoever has agreed is not listed any more. -/
theorem ListOk.not_mem_hear (ok : ListOk h L) (member : x ∈ Home.hear L n true) : x.wid ≠ n := by
  by_cases listed : n ∈ L.map GAddr.wid
  · obtain ⟨_, L₁, L₂, -, -, erased, rest⟩ := ok.split listed
    rw [erased] at member
    exact rest x member
  · exact fun same => listed (List.mem_map.mpr ⟨x, mem_of_mem_hear member, same⟩)

/-- The round goes on after an answer that was not the last. -/
theorem RoundOk.heard (list : ListOk h L)
    (round : RoundOk L answer requester status) {ok : Bool} (acked : answer n = some (.acked ok))
    (more : outstanding L answer ≠ 1) : RoundOk (hear L n ok) (Home.heard answer n) requester (verdict status ok) := by
  have busy : (answer n).isSome := by simp [acked]
  have mine := round.listed n busy
  have others : ∀ m, m ≠ n → Home.heard answer n m = answer m := fun m ne =>
    update_of_ne ne _ _
  constructor
  · intro m h
    have ne : m ≠ n := by rintro rfl; simp [Home.heard] at h
    rw [others m ne] at h
    obtain ⟨listed, notReq⟩ := round.listed m h
    obtain ⟨x, member, rfl⟩ := List.mem_map.mp listed
    exact ⟨List.mem_map.mpr ⟨x, mem_hear member ne, rfl⟩, notReq⟩
  · have left := list.outstanding_heard mine.1 busy ok
    have positive : 0 < (hear L n ok).countP fun a => (Home.heard answer n a.wid).isSome := by
      have nonneg : 0 ≤ outstanding (hear L n ok) (Home.heard answer n) := Int.natCast_nonneg _
      have : 0 < outstanding (hear L n ok) (Home.heard answer n) := by omega
      exact Int.natCast_pos.mp this
    obtain ⟨x, -, h⟩ := List.countP_pos_iff.mp positive
    exact ⟨x.wid, h⟩
  · intro good x member notReq
    cases ok with
    | false => simp [verdict] at good
    | true =>
      have ne := list.not_mem_hear member
      rw [others _ ne]
      exact round.all good x (mem_of_mem_hear member) notReq
  · intro bad
    cases ok with
    | false =>
      obtain ⟨x, member, rfl⟩ := List.mem_map.mp mine.1
      exact ⟨x, member, mine.2, by simp [Home.heard]⟩
    | true =>
      obtain ⟨x, member, notReq, silent⟩ := round.refused bad
      have ne : x.wid ≠ n := by intro same; rw [same, acked] at silent; cases silent
      exact ⟨x, mem_hear member ne, notReq, by rw [others _ ne]; exact silent⟩
  · cases ok with
    | false => exact Or.inr rfl
    | true => exact round.kind

/-- After the last answer nobody else is asked. -/
theorem RoundOk.last (list : ListOk h L) (round : RoundOk L answer requester status) (mine : (answer n).isSome)
    (last : outstanding L answer = 1) {m : Node} (ne : m ≠ n) : answer m = none := by
  by_contra busy
  have some_ : (answer m).isSome := Option.isSome_iff_ne_none.mpr busy
  have left := list.outstanding_heard (round.listed n mine).1 mine false
  rw [last] at left
  have none_ : L.countP (fun a => (Home.heard answer n a.wid).isSome) = 0 := by
    simpa [outstanding, hear] using left
  obtain ⟨x, member, rfl⟩ := List.mem_map.mp (round.listed m some_).1
  have := List.countP_eq_zero.mp none_ x member
  rw [Home.heard, update_of_ne ne] at this
  exact this some_

end Home

end Gam

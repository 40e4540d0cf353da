import Mathlib.Algebra.Order.BigOperators.Group.Finset
import Gam.Database.SyncInvariant

/-! The barrier, and what the collections and broadcasts of the partitions give. -/

namespace Gam.Database.ClusterSync

open Function

variable {V : Type} {x : Setup V} {s t : System V} {p q i j k : Nat} {v : V}

/-! ## Fences -/

/-- The operations with which the fences of a program start. -/
def fenceStarts : List Call → Nat → List Nat
  | [], _ => []
  | .fence :: calls, n => n :: fenceStarts calls (n + 2)
  | _ :: calls, n => fenceStarts calls (n + 1)

/-- A fence is a collection and then a broadcast. -/
theorem fence_ops {calls : List Call} {n c : Nat} (member : c ∈ fenceStarts calls n) :
    n ≤ c ∧ (calls.flatMap Call.ops)[c - n]? = some .collect ∧ (calls.flatMap Call.ops)[c - n + 1]? = some .broadcast := by
  induction calls generalizing n with
  | nil => cases member
  | cons call calls ih =>
    have single : ∀ op, Call.ops call = [op] → c ∈ fenceStarts calls (n + 1) →
        n ≤ c ∧ ((call :: calls).flatMap Call.ops)[c - n]? = some .collect ∧
          ((call :: calls).flatMap Call.ops)[c - n + 1]? = some .broadcast := by
      intro op one later
      obtain ⟨least, collect, broadcast⟩ := ih later
      rw [List.flatMap_cons, one, List.singleton_append, show c - n = c - (n + 1) + 1 by omega,
        List.getElem?_cons_succ, List.getElem?_cons_succ]
      exact ⟨by omega, collect, broadcast⟩
    cases call with
    | fence =>
      rcases List.mem_cons.mp member with rfl | later
      · rw [Nat.sub_self]
        exact ⟨Nat.le_refl _, rfl, rfl⟩
      · obtain ⟨least, collect, broadcast⟩ := ih later
        rw [List.flatMap_cons, show c - n = c - (n + 2) + 2 by omega]
        exact ⟨by omega, collect, broadcast⟩
    | masterCollect => exact single _ rfl member
    | masterBroadcast => exact single _ rfl member

/-- A partition is behind its fence only after every partition has sent its flag. -/
theorem Inv.fence {c : Nat} (inv : Inv x s) (start : c ∈ fenceStarts x.calls 0) (listed : p < x.num)
    (returned : c + 2 ≤ (s.part p).op) (inside : q < x.num) : c < (s.part q).op := by
  obtain ⟨_, collect, broadcast⟩ := fence_ops start
  rw [Nat.sub_zero] at collect broadcast
  have positive : 0 < x.num := Nat.zero_lt_of_lt listed
  have master : c < (s.part 0).op := by
    by_cases zero : p = 0
    · rw [← zero]
      omega
    · have after := ((inv.holds p listed).received zero (c + 1) broadcast (by omega)).2
      omega
  by_cases zero : q = 0
  · rw [zero]
    exact master
  · exact ((inv.holds 0 positive).collected rfl c q collect inside (Or.inl master)).2 zero

/-! ## No partition is left waiting -/

/-- A key is asked for in vain only if its partition has not come so far. -/
theorem Inv.missing (inv : Inv x s) (quiet : s.toMaster i = []) (listed : i < x.num) (writes : x.Writes i j)
    (asked : q ∈ s.toServe (x.key j i)) : (s.part i).op ≤ j := by
  by_contra before
  rcases (inv.holds i listed).made j (by omega) writes with sent | found
  · rw [quiet] at sent
    cases sent
  · rw [inv.quiet _ (by rw [found]; exact Option.some_ne_none _)] at asked
    cases asked

theorem serve_some {r : Request V} {rest : List (Request V)} (head : s.toMaster p = r :: rest) :
    ∃ t, s.serve p = some t := by
  unfold System.serve
  rw [head]
  cases r with
  | put key v => exact ⟨_, rfl⟩
  | get key =>
    dsimp only
    split <;> exact ⟨_, rfl⟩

theorem act_some (runs : (s.part p).waiting = false) (before : (s.part p).op < x.ops.length) :
    ∃ t, s.act x p = some t := by
  simp only [System.act, runs, if_neg Bool.false_ne_true, List.getElem?_eq_getElem before]
  cases x.ops[(s.part p).op] with
  | collect =>
    dsimp only
    split
    · split
      · split <;> exact ⟨_, rfl⟩
      · exact ⟨_, rfl⟩
    · exact ⟨_, rfl⟩
  | broadcast =>
    dsimp only
    split <;> exact ⟨_, rfl⟩

theorem receive_some {rest : List V} (head : s.toWorker p = v :: rest) (before : (s.part p).op < x.ops.length) :
    ∃ t, s.receive x p = some t := by
  unfold System.receive
  rw [head, List.getElem?_eq_getElem before]
  cases x.ops[(s.part p).op] <;> exact ⟨_, rfl⟩

/-- A state in which nothing can happen. -/
structure Stuck (x : Setup V) (s : System V) : Prop where
  inv : Inv x s
  stuck : ∀ t, ¬s.Step x t

namespace Stuck

theorem noRequest (stuck : Stuck x s) (listed : p < x.num) : s.toMaster p = [] := by
  cases head : s.toMaster p with
  | nil => rfl
  | cons r rest =>
    obtain ⟨t, serves⟩ := serve_some head
    exact absurd (.serve listed serves) (stuck.stuck t)

theorem waits (stuck : Stuck x s) (listed : p < x.num) (before : (s.part p).op < x.ops.length) :
    (s.part p).waiting = true := by
  by_contra runs
  obtain ⟨t, acts⟩ := act_some (eq_false_of_ne_true runs) before
  exact absurd (.act listed acts) (stuck.stuck t)

/-- The request of a waiting partition is postponed. -/
theorem postponed (stuck : Stuck x s) (listed : p < x.num) (waits : (s.part p).waiting = true)
    (before : (s.part p).op < x.ops.length) : p ∈ s.toServe (wanted x s p) := by
  have tokens := (stuck.inv.holds p listed).tokens
  have empty : s.toWorker p = [] := by
    cases head : s.toWorker p with
    | nil => rfl
    | cons v rest =>
      obtain ⟨t, receives⟩ := receive_some head before
      exact absurd (.receive listed receives) (stuck.stuck t)
  rw [stuck.noRequest listed, empty, waits, if_pos rfl] at tokens
  exact List.count_pos_iff.mp (by simp only [List.countP_nil, List.length_nil] at tokens; omega)

/-- A partition other than the master waits for a broadcast that the master has not come to. -/
theorem behind (stuck : Stuck x s) (listed : p < x.num) (other : p ≠ 0) (waits : (s.part p).waiting = true) :
    x.ops[(s.part p).op]? = some .broadcast ∧ (s.part 0).op ≤ (s.part p).op := by
  have here := ((stuck.inv.holds p listed).reads waits).2 other
  have asked := stuck.postponed listed waits (List.getElem?_eq_some_iff.mp here).1
  rw [wanted, Partition.slot, if_neg other] at asked
  have positive : 0 < x.num := Nat.zero_lt_of_lt listed
  exact ⟨here, stuck.inv.missing (stuck.noRequest positive) positive (Or.inr ⟨here, rfl⟩) asked⟩

/-- The master does not wait: the partition that it waits for would wait for an earlier broadcast of the master. -/
theorem master_runs (stuck : Stuck x s) (positive : 0 < x.num) : (s.part 0).waiting = false := by
  by_contra waits
  have waits := eq_true_of_ne_false waits
  obtain ⟨here, other, inside⟩ := ((stuck.inv.holds 0 positive).reads waits).1 rfl
  have before := (List.getElem?_eq_some_iff.mp here).1
  have asked := stuck.postponed positive waits before
  rw [wanted, Partition.slot, if_pos rfl] at asked
  have later := stuck.inv.missing (stuck.noRequest inside) inside (Or.inl ⟨here, by omega⟩) asked
  obtain ⟨broadcast, ahead⟩ := stuck.behind inside (by omega) (stuck.waits inside (by omega))
  rw [show (s.part (s.part 0).round).op = (s.part 0).op by omega, here] at broadcast
  cases broadcast

/-- Every partition has finished its program. -/
theorem finished (stuck : Stuck x s) (listed : p < x.num) :
    (s.part p).op = x.ops.length ∧ (s.part p).waiting = false := by
  have positive : 0 < x.num := Nat.zero_lt_of_lt listed
  have master := stuck.master_runs positive
  have bound := (stuck.inv.holds p listed).bound
  have ended : x.ops.length ≤ (s.part 0).op := by
    by_contra before
    have waits := stuck.waits positive (by omega)
    rw [master] at waits
    cases waits
  have runs : (s.part p).waiting = false := by
    by_cases zero : p = 0
    · rw [zero]
      exact master
    · by_contra waits
      obtain ⟨broadcast, ahead⟩ := stuck.behind listed zero (eq_true_of_ne_false waits)
      have before := (List.getElem?_eq_some_iff.mp broadcast).1
      omega
  refine ⟨?_, runs⟩
  by_contra unfinished
  have waits := stuck.waits listed (by omega)
  rw [runs] at waits
  cases waits

end Stuck

/-! ## Every run ends -/

/-- How far a partition that waits is from its answer. -/
def stage (s : System V) (p : Nat) : Nat :=
  if (s.part p).waiting then if s.toWorker p ≠ [] then 1 else if 0 < (s.toMaster p).countP isGet then 3 else 2
  else 4

/-- What is still to be done for a partition. -/
def weight (x : Setup V) (s : System V) (p : Nat) : Nat :=
  5 * (s.part p).rest x + (s.toMaster p).countP (fun r => !isGet r) + stage s p

def work (x : Setup V) (s : System V) : Nat := ∑ p ∈ Finset.range x.num, weight x s p

theorem work_lt (listed : p < x.num) (others : ∀ q < x.num, q ≠ p → weight x t q ≤ weight x s q)
    (less : weight x t p < weight x s p) : work x t < work x s := by
  refine Finset.sum_lt_sum (fun q inside => ?_) ⟨p, Finset.mem_range.mpr listed, less⟩
  by_cases same : q = p
  · rw [same]
    exact Nat.le_of_lt less
  · exact others q (Finset.mem_range.mp inside) same

theorem stage_bounds (s : System V) (p : Nat) : 1 ≤ stage s p ∧ stage s p ≤ 4 := by
  unfold stage
  split
  · split
    · omega
    · split <;> omega
  · omega

/-- The weight depends on what belongs to the partition. -/
theorem weight_congr (part : t.part p = s.part p) (toMaster : t.toMaster p = s.toMaster p)
    (toWorker : t.toWorker p = s.toWorker p) : weight x t p = weight x s p := by
  simp only [weight, stage, part, toMaster, toWorker]

theorem Inv.goes_work (inv : Inv x s) (listed : p < x.num) (goes : Goes x s p t) : work x t < work x s := by
  cases goes with
  | get runs reads =>
    refine work_lt listed (fun q _ other => Nat.le_of_eq (weight_congr (update_of_ne other _ _)
      (update_of_ne other _ _) rfl)) ?_
    obtain ⟨_, empty⟩ := (inv.holds p listed).idle runs
    have own : (s.get p (wanted x s p)).part p = { s.part p with waiting := true } := update_self ..
    have toMaster : (s.get p (wanted x s p)).toMaster p = s.toMaster p ++ [.get (wanted x s p)] := update_self ..
    have before : stage s p = 4 := by rw [stage, runs, if_neg Bool.false_ne_true]
    have after : stage (s.get p (wanted x s p)) p = 3 := by
      rw [stage, own, toMaster, List.countP_append, show (s.get p (wanted x s p)).toWorker p = [] from empty]
      simp [isGet]
    have puts : ((s.get p (wanted x s p)).toMaster p).countP (fun r => !isGet r) =
        (s.toMaster p).countP (fun r => !isGet r) := by
      rw [toMaster, List.countP_append]
      rfl
    rw [weight, weight, before, after, puts, own]
    show _ + _ + 3 < _
    exact Nat.lt_succ_self _
  | advance advances =>
    rename_i part puts
    refine work_lt listed (fun q _ other => Nat.le_of_eq (weight_congr (update_of_ne other _ _)
      (update_of_ne other _ _) (update_of_ne other _ _))) ?_
    have own : (advanced s p part puts).part p = part := update_self ..
    have toMaster : (advanced s p part puts).toMaster p = s.toMaster p ++ puts := update_self ..
    have few : puts.countP (fun r => !isGet r) ≤ 1 := Nat.le_trans List.countP_le_length advances.few
    have before := (stage_bounds s p).1
    have after := (stage_bounds (advanced s p part puts) p).2
    have less := advances.less
    rw [weight, weight, own, toMaster, List.countP_append]
    omega

/-- An answer on the way brings a partition closer to its answer. -/
theorem stage_le {answers : List V} (part : t.part p = s.part p)
    (gets : (t.toMaster p).countP isGet = (s.toMaster p).countP isGet) (toWorker : t.toWorker p = s.toWorker p ++ answers) :
    stage t p ≤ stage s p := by
  by_cases empty : t.toWorker p = []
  · have before : s.toWorker p = [] := (List.append_eq_nil_iff.mp (toWorker ▸ empty)).1
    simp only [stage, part, gets, empty, before, Nat.le_refl]
  · have least := (stage_bounds s p).1
    cases waits : (s.part p).waiting with
    | true =>
      have now : stage t p = 1 := by rw [stage, part, waits, if_pos rfl, if_pos empty]
      rwa [now]
    | false => simp only [stage, part, waits, if_neg Bool.false_ne_true, Nat.le_refl]

/-- A `GET` that is taken next: the partition is as far from its answer as can be. -/
theorem Inv.asked_work {key : UInt64} {rest : List (Request V)} {answer : List V} {postponed : List Nat} (inv : Inv x s)
    (listed : p < x.num) (head : s.toMaster p = .get key :: rest) :
    weight x (servedGet s p key rest answer postponed) p < weight x s p := by
  obtain ⟨_, waits, none, _, empty⟩ := (inv.holds p listed).asked head
  have toMaster : (servedGet s p key rest answer postponed).toMaster p = rest := update_self ..
  have part : (servedGet s p key rest answer postponed).part p = s.part p := rfl
  have puts : (s.toMaster p).countP (fun r => !isGet r) = rest.countP (fun r => !isGet r) := by
    rw [head, List.countP_cons_of_neg (by simp [isGet])]
  have before : stage s p = 3 := by simp [stage, waits, empty, head, isGet]
  have after : stage (servedGet s p key rest answer postponed) p ≤ 2 := by
    rw [stage, part, waits, if_pos rfl, toMaster, none, if_neg (Nat.lt_irrefl 0)]
    split <;> omega
  rw [weight, weight, toMaster, part, puts, before]
  omega

theorem Inv.serve_work (inv : Inv x s) (listed : p < x.num) (serves : s.serve p = some t) : work x t < work x s := by
  cases serve_cases serves with
  | @put key v rest head =>
    have toMaster : (servedPut s p key v rest).toMaster p = rest := update_self ..
    have same : ∀ q, q ≠ p → (servedPut s p key v rest).toMaster q = s.toMaster q := fun q other =>
      update_of_ne other _ _
    refine work_lt listed (fun q _ other => ?_) ?_
    · have closer := stage_le (s := s) (t := servedPut s p key v rest) (p := q) rfl (by rw [same q other]) rfl
      rw [weight, weight, same q other]
      exact Nat.add_le_add_left closer _
    · have closer := stage_le (s := s) (t := servedPut s p key v rest) (p := p) rfl (by
        rw [toMaster, head, List.countP_cons_of_neg Bool.false_ne_true]) rfl
      have puts : (s.toMaster p).countP (fun r => !isGet r) = rest.countP (fun r => !isGet r) + 1 := by
        rw [head, List.countP_cons_of_pos rfl]
      rw [weight, weight, toMaster, puts, show (servedPut s p key v rest).part p = s.part p from rfl]
      omega
  | answered head found =>
    exact work_lt listed (fun q _ other => Nat.le_of_eq (weight_congr rfl (update_of_ne other _ _)
      (update_of_ne other _ _))) (inv.asked_work listed head)
  | postponed head missing =>
    exact work_lt listed (fun q _ other => Nat.le_of_eq (weight_congr rfl (update_of_ne other _ _)
      (update_of_ne other _ _))) (inv.asked_work listed head)

theorem Inv.work_step (inv : Inv x s) (next : s.Step x t) : work x t < work x s := by
  cases next with
  | act listed acts => exact inv.goes_work listed ((inv.holds _ listed).act listed acts)
  | serve listed serves => exact inv.serve_work listed serves
  | receive listed receives => exact inv.goes_work listed ((inv.holds _ listed).receive receives)

/-- In every interleaving: no partition is behind a fence before all have entered it, every collection gives the master the value
of each partition, every broadcast gives the other partitions the value of the master, and the system does not stop
before all partitions have finished, which they do after a bounded number of steps. -/
theorem synchronised (x : Setup V) (bounded : x.Bounded) (s : System V) (reachable : s.Reachable x) :
    (∀ k c : Nat, (fenceStarts x.calls 0)[k]? = some c → ∀ p < x.num, c + 2 ≤ (s.part p).op → ∀ q < x.num, c < (s.part q).op) ∧
    (∀ j, x.ops[j]? = some .collect → j < (s.part 0).op → ∀ i < x.num, (s.part 0).collected j i = some (x.value i j)) ∧
    (∀ j, x.ops[j]? = some .broadcast → ∀ p < x.num, p ≠ 0 → j < (s.part p).op → (s.part p).received j = some (x.value 0 j)) ∧
    ((∀ t, ¬s.Step x t) → ∀ p < x.num, (s.part p).op = x.ops.length ∧ (s.part p).waiting = false) ∧
    ∀ t, s.Step x t → work x t < work x s := by
  have inv := inv_reachable bounded reachable
  refine ⟨fun k c start p listed returned q inside => ?_, fun j op before i inside => ?_, fun j op p listed other before => ?_,
    fun stuck p listed => Stuck.finished ⟨inv, stuck⟩ listed, fun t next => inv.work_step next⟩
  · exact inv.fence (List.mem_of_getElem? start) listed returned inside
  · exact ((inv.holds 0 (Nat.zero_lt_of_lt inside)).collected rfl j i op inside (Or.inl before)).1
  · exact ((inv.holds p listed).received other j op before).1

/-- Two servers. -/
def pair : ClusterConfig := ⟨[⟨"host", 1⟩, ⟨"host", 2⟩], by decide⟩

def oneFence : Setup Bool := ⟨pair, [.fence], fun _ _ => false⟩

/-- Both partitions come through a fence. -/
theorem synchronised_pair : ∃ s : System Bool, s.Reachable oneFence ∧ 2 ≤ (s.part 1).op ∧ 0 < (s.part 0).op := by
  have run : ∃ s : System Bool, s.Reachable oneFence ∧ 2 ≤ (s.part 1).op := by
    refine ⟨_, .step (.step (.step (.step (.step (.step (.step (.step (.step (.step (.step (.step .start
      (.act (p := 0) (by decide) rfl)) (.act (p := 0) (by decide) rfl)) (.act (p := 1) (by decide) rfl))
      (.serve (p := 0) (by decide) rfl)) (.serve (p := 1) (by decide) rfl)) (.receive (p := 0) (by decide) rfl))
      (.act (p := 0) (by decide) rfl)) (.act (p := 0) (by decide) rfl)) (.act (p := 1) (by decide) rfl))
      (.serve (p := 0) (by decide) rfl)) (.serve (p := 1) (by decide) rfl)) (.receive (p := 1) (by decide) rfl), ?_⟩
    decide
  obtain ⟨s, reachable, returned⟩ := run
  exact ⟨s, reachable, returned, (synchronised oneFence (by unfold Setup.Bounded; decide) s reachable).1 0 0 rfl 1 (by decide) returned 0 (by decide)⟩

/-! ## Keys that come around -/

/-- More collections than there are keys for two partitions. -/
def manyCollects : Setup Nat := ⟨pair, List.replicate (2 ^ 63 + 1) .masterCollect, fun _ j => j⟩

theorem manyCollects_ops (inside : j < 2 ^ 63 + 1) : manyCollects.ops[j]? = some .collect := by
  have all : ∀ n, (List.replicate n Call.masterCollect).flatMap Call.ops = List.replicate n .collect := by
    intro n
    induction n with
    | zero => rfl
    | succ n ih => rw [List.replicate_succ, List.flatMap_cons, ih]; rfl
  rw [Setup.ops, manyCollects, all, List.getElem?_replicate, if_pos inside]

/-- The second partition puts a value while nothing else is on the way. -/
theorem serve_put (part : Nat → Partition Nat) (kvs : UInt64 → Option Nat) (key : UInt64) (v : Nat) :
    System.serve 1 (System.put 2 1 key v ⟨part, fun _ => [], fun _ => [], kvs, fun _ => []⟩) =
      some ⟨update part 1 ((part 1).next 2), fun _ => [], fun _ => [], update kvs key (some v), fun _ => []⟩ := by
  have toMaster : update (update (fun _ : Nat => []) 1 [Request.put key v]) 1 [] =
      fun _ => ([] : List (Request Nat)) := by
    rw [update_idem]
    exact update_eq_self 1 _
  have toServe : update (fun _ => []) key [] = fun _ : UInt64 => ([] : List Nat) := update_eq_self ..
  show some (System.mk _ (update (update (fun _ : Nat => []) 1 [Request.put key v]) 1 []) _ _
    (update (fun _ => []) key [])) = _
  rw [toMaster, toServe]
  rfl

/-- The second partition can put its values before the master collects the first one. -/
theorem runs_ahead (n : Nat) (few : n ≤ 2 ^ 63 + 1) : ∃ s : System Nat, s.Reachable manyCollects ∧
    s.part 0 = Partition.start ∧ (s.part 1).op = n ∧ (s.part 1).syncKey = UInt64.ofNat (2 * n) ∧
    (s.part 1).waiting = false ∧ s.toMaster = (fun _ => []) ∧ s.toWorker = (fun _ => []) ∧ s.toServe = (fun _ => []) ∧
    ∀ m, n = m + 1 → s.kvs (UInt64.ofNat (2 * m) + 1) = some m := by
  induction n with
  | zero => exact ⟨System.start, .start, rfl, rfl, rfl, rfl, rfl, rfl, rfl, nofun⟩
  | succ n ih =>
    obtain ⟨⟨part, _, _, kvs, _⟩, reachable, master, op, sync, runs, rfl, rfl, rfl, _⟩ := ih (by omega)
    dsimp only at master op sync runs
    have acts : System.act manyCollects 1 ⟨part, fun _ => [], fun _ => [], kvs, fun _ => []⟩ =
        some (System.put 2 1 (UInt64.ofNat (2 * n) + 1) n ⟨part, fun _ => [], fun _ => [], kvs, fun _ => []⟩) := by
      simp only [System.act, runs, if_neg Bool.false_ne_true, op, manyCollects_ops (show n < 2 ^ 63 + 1 by omega), sync]
      rfl
    have own : update part 1 ((part 1).next 2) 1 = (part 1).next 2 := update_self ..
    refine ⟨_, .step (.step reachable (.act (by decide) acts)) (.serve (by decide) (serve_put part kvs _ n)), ?_, ?_, ?_, ?_,
      rfl, rfl, rfl, ?_⟩
    · dsimp only
      rw [update_of_ne Nat.zero_ne_one]
      exact master
    · dsimp only
      rw [own, Partition.next, op]
    · dsimp only
      rw [own, Partition.next, sync, Nat.mul_add, UInt64.ofNat_add]
    · dsimp only
      rw [own, Partition.next, runs]
    · intro m equal
      obtain rfl : n = m := by omega
      exact update_self ..

/-- The master collects from the second partition what is stored under the key of the first collection. -/
theorem collects_stored (s : System Nat) (v : Nat) (reachable : s.Reachable manyCollects) (master : s.part 0 = Partition.start)
    (toMaster : s.toMaster 0 = []) (toWorker : s.toWorker 0 = []) (stored : s.kvs 1 = some v) :
    ∃ t : System Nat, t.Reachable manyCollects ∧ (t.part 0).op = 1 ∧ (t.part 0).collected 0 1 = some v := by
  have here := manyCollects_ops (show 0 < 2 ^ 63 + 1 by decide)
  have own : s.act manyCollects 0 = some (s.setPart 0 (Partition.start.store 0)) := by
    simp only [System.act, master, Partition.start, here]
    rfl
  have asks : (s.setPart 0 (Partition.start.store 0)).act manyCollects 0 =
      some ((s.setPart 0 (Partition.start.store 0)).get 0 1) := by
    simp only [System.act, System.setPart, update_self, Partition.start, Partition.store, here]
    rfl
  let asked := (s.setPart 0 (Partition.start.store 0)).get 0 1
  have served : asked.serve 0 = some (System.reply 0 v { asked with toMaster := update asked.toMaster 0 [] }) := by
    have request : asked.toMaster 0 = [.get 1] := by
      simp only [asked, System.get, System.setPart, System.send, update_self, toMaster, List.nil_append]
    have found : asked.kvs 1 = some v := stored
    simp only [System.serve, request, found]
  let answered := System.reply 0 v { asked with toMaster := update asked.toMaster 0 [] }
  have part : answered.part 0 = { (Partition.start : Partition Nat).store 0 with waiting := true } := by
    simp only [answered, asked, System.reply, System.get, System.send, System.setPart, update_self]
  have answer : answered.toWorker 0 = [v] := by
    show update s.toWorker 0 (s.toWorker 0 ++ [v]) 0 = [v]
    rw [update_self, toWorker, List.nil_append]
  have received : answered.receive manyCollects 0 = some ({ answered with
      toWorker := update answered.toWorker 0 [] }.setPart 0 (((Partition.start : Partition Nat).store 0).store v)) := by
    simp only [System.receive, answer, part, Partition.start, Partition.store, here]
  let collected := { answered with toWorker := update answered.toWorker 0 [] }.setPart 0
    (((Partition.start : Partition Nat).store 0).store v)
  have ends : collected.act manyCollects 0 =
      some (collected.setPart 0 ((((Partition.start : Partition Nat).store 0).store v).next 2)) := by
    simp only [System.act, collected, System.setPart, update_self, Partition.start, Partition.store, here]
    rfl
  have positive : 0 < manyCollects.num := by decide
  refine ⟨_, .step (.step (.step (.step (.step reachable (.act positive own)) (.act positive asks)) (.serve positive served))
    (.receive positive received)) (.act positive ends), ?_, ?_⟩
  · simp only [System.setPart, update_self]
    rfl
  · simp only [System.setPart, update_self]
    rfl

/-- The key of the first collection is the key of a later one, whose value the master gets. -/
theorem collect_overwritten : ∃ s : System Nat, s.Reachable manyCollects ∧ (s.part 0).op = 1 ∧
    (s.part 0).collected 0 1 = some (2 ^ 63) ∧ manyCollects.value 1 0 = 0 := by
  obtain ⟨s, reachable, master, _, _, _, toMaster, toWorker, _, stored⟩ := runs_ahead (2 ^ 63 + 1) (Nat.le_refl _)
  have around : s.kvs 1 = some (2 ^ 63) := stored (2 ^ 63) rfl
  obtain ⟨t, reachable', op, value⟩ := collects_stored s (2 ^ 63) reachable master (by rw [toMaster]) (by rw [toWorker]) around
  exact ⟨t, reachable', op, value, rfl⟩

end Gam.Database.ClusterSync

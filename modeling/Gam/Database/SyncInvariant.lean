import Mathlib.Data.List.Count
import Mathlib.Data.List.Nodup
import Gam.Database.ClusterSync

/-!
# The invariant of the synchronisation

For every partition: where its requests and answers are, and what its operations have given it. Each key
is used by one partition in one operation, so that an answer is the value that was asked for.
-/

namespace Gam.Database.ClusterSync

open Function

variable {V : Type} {x : Setup V} {s t : System V} {p q i j k : Nat} {v : V}

/-! ## Partitions -/

theorem getMyPartitionId_eq (c : ClusterConfig) (inside : p < c.servers.length) :
    c.getMyPartitionId c.servers[p] = p := by
  have found : c.servers.findIdx? (· = c.servers[p]) = some p := by
    rw [List.findIdx?_eq_some_iff_getElem]
    refine ⟨inside, by simp, fun j before => ?_⟩
    simp only [decide_eq_true_eq]
    intro same
    exact absurd ((List.Nodup.getElem_inj_iff c.once).mp same) (Nat.ne_of_lt before)
  rw [ClusterConfig.getMyPartitionId, found, Option.getD_some]

theorem isMaster_eq (c : ClusterConfig) (inside : p < c.servers.length) : c.isMaster c.servers[p] = decide (p = 0) := by
  have first : c.servers.head? = some c.servers[0] := by rw [List.head?_eq_getElem?, List.getElem?_eq_getElem]
  rw [ClusterConfig.isMaster, first]
  exact decide_eq_decide.mpr ⟨fun same => ((List.Nodup.getElem_inj_iff c.once).mp (Option.some.inj same)).symm, fun zero => by
    subst zero; rfl⟩

theorem Setup.partitionId_eq (listed : p < x.num) : x.partitionId p = p := by
  have inside : p < x.config.servers.length := listed
  rw [Setup.partitionId, List.getElem?_eq_getElem inside, Option.map_some, Option.getD_some, getMyPartitionId_eq]

theorem Setup.isMaster_eq (listed : p < x.num) : x.isMaster p = decide (p = 0) := by
  have inside : p < x.config.servers.length := listed
  rw [Setup.isMaster, List.getElem?_eq_getElem inside, Option.map_some, Option.getD_some, ClusterSync.isMaster_eq]

/-- The keys of the program are different numbers of 64 bits. -/
def Setup.Bounded (x : Setup V) : Prop := x.ops.length * x.num ≤ 2 ^ 64

/-- The key of partition `i` in operation `j`. -/
def Setup.key (x : Setup V) (j i : Nat) : UInt64 := UInt64.ofNat (j * x.num + i)

/-- Partition `i` puts its value in operation `j`. -/
def Setup.Writes (x : Setup V) (i j : Nat) : Prop :=
  (x.ops[j]? = some .collect ∧ i ≠ 0) ∨ (x.ops[j]? = some .broadcast ∧ i = 0)

theorem Setup.Writes.lt (writes : x.Writes i j) : j < x.ops.length := by
  rcases writes with ⟨op, _⟩ | ⟨op, _⟩ <;> exact (List.getElem?_eq_some_iff.mp op).1

/-- No two operations and partitions share a key. -/
theorem Setup.Bounded.key_inj (bounded : x.Bounded) {i' j' : Nat} (listed : i < x.num) (listed' : i' < x.num)
    (before : j < x.ops.length) (before' : j' < x.ops.length) (same : x.key j i = x.key j' i') : j = j' ∧ i = i' := by
  have small : ∀ {a b : Nat}, a < x.num → b < x.ops.length → b * x.num + a < 2 ^ 64 := by
    intro a b inside earlier
    have next : (b + 1) * x.num ≤ x.ops.length * x.num := Nat.mul_le_mul_right _ earlier
    rw [Nat.add_mul, Nat.one_mul] at next
    unfold Setup.Bounded at bounded
    omega
  have numbers : j * x.num + i = j' * x.num + i' := by
    have equal := congrArg UInt64.toNat same
    rwa [Setup.key, Setup.key, UInt64.toNat_ofNat', UInt64.toNat_ofNat', Nat.mod_eq_of_lt (small listed before),
      Nat.mod_eq_of_lt (small listed' before')] at equal
  have positive : 0 < x.num := Nat.zero_lt_of_lt listed
  have high := congrArg (· / x.num) numbers
  have low := congrArg (· % x.num) numbers
  simp only [Nat.mul_comm _ x.num, Nat.mul_add_div positive, Nat.mul_add_mod, Nat.div_eq_of_lt listed, Nat.div_eq_of_lt listed',
    Nat.mod_eq_of_lt listed, Nat.mod_eq_of_lt listed', Nat.add_zero] at high low
  exact ⟨high, low⟩

/-! ## The invariant -/

/-- The partition whose value a partition reads next. -/
def Partition.slot (p : Nat) (part : Partition V) : Nat := if p = 0 then part.round else 0

/-- The key that a partition reads next. -/
def wanted (x : Setup V) (s : System V) (p : Nat) : UInt64 := x.key (s.part p).op ((s.part p).slot p)

def isGet : Request V → Bool
  | .put _ _ => false
  | .get _ => true

/-- A partition waits only in an operation that reads. -/
def Reads (x : Setup V) (p : Nat) (part : Partition V) : Prop :=
  (p = 0 → x.ops[part.op]? = some .collect ∧ 0 < part.round ∧ part.round < x.num) ∧
    (p ≠ 0 → x.ops[part.op]? = some .broadcast)

/-- What holds of each partition: its counters, its requests on the way, those that are postponed and the answers on the
way, and what its operations have given it. -/
structure Holds (x : Setup V) (s : System V) (p : Nat) : Prop where
  sync : (s.part p).syncKey = UInt64.ofNat ((s.part p).op * x.num)
  bound : (s.part p).op ≤ x.ops.length
  round : (s.part p).round ≤ x.num
  first : p ≠ 0 → (s.part p).round = 0
  reads : (s.part p).waiting = true → Reads x p (s.part p)
  puts : ∀ key v, .put key v ∈ s.toMaster p → ∃ j < (s.part p).op, x.Writes p j ∧ key = x.key j p ∧ v = x.value p j
  made : ∀ j < (s.part p).op, x.Writes p j → .put (x.key j p) (x.value p j) ∈ s.toMaster p ∨
    s.kvs (x.key j p) = some (x.value p j)
  gets : ∀ key, .get key ∈ s.toMaster p → key = wanted x s p
  served : ∀ key, p ∈ s.toServe key → key = wanted x s p ∧ (s.part p).waiting = true
  answers : ∀ v ∈ s.toWorker p, v = x.value ((s.part p).slot p) (s.part p).op ∧
    (s.part p).op < (s.part ((s.part p).slot p)).op
  tokens : (s.toMaster p).countP isGet + (s.toServe (wanted x s p)).count p + (s.toWorker p).length =
    if (s.part p).waiting then 1 else 0
  collected : p = 0 → ∀ j i, x.ops[j]? = some .collect → i < x.num →
    j < (s.part p).op ∨ (j = (s.part p).op ∧ i < (s.part p).round) →
    (s.part p).collected j i = some (x.value i j) ∧ (i ≠ 0 → j < (s.part i).op)
  received : p ≠ 0 → ∀ j, x.ops[j]? = some .broadcast → j < (s.part p).op →
    (s.part p).received j = some (x.value 0 j) ∧ j < (s.part 0).op

/-- What holds of the whole system. -/
structure Inv (x : Setup V) (s : System V) : Prop where
  holds : ∀ p < x.num, Holds x s p
  stored : ∀ key v, s.kvs key = some v → ∃ i < x.num, ∃ j < (s.part i).op, x.Writes i j ∧ key = x.key j i ∧ v = x.value i j
  quiet : ∀ key, s.kvs key ≠ none → s.toServe key = []
  listed : ∀ key, ∀ p ∈ s.toServe key, p < x.num

theorem inv_start : Inv x System.start where
  holds p _ :=
    { sync := by simp [System.start, Partition.start]
      bound := Nat.zero_le _
      round := Nat.zero_le _
      first := fun _ => rfl
      reads := nofun
      puts := nofun
      made := nofun
      gets := nofun
      served := nofun
      answers := nofun
      tokens := rfl
      collected := fun _ j i _ _ before => by
        simp only [System.start, Partition.start] at before
        omega
      received := nofun }
  stored := nofun
  quiet := fun _ some => absurd rfl some
  listed := nofun

/-- A partition that a step leaves alone: other partitions only go on, and what is stored stays. -/
theorem Holds.frame (holds : Holds x s p) (part : t.part p = s.part p) (toMaster : t.toMaster p = s.toMaster p)
    (toWorker : t.toWorker p = s.toWorker p) (toServe : ∀ key, (t.toServe key).count p = (s.toServe key).count p)
    (kvs : ∀ key v, s.kvs key = some v → t.kvs key = some v) (later : ∀ i, (s.part i).op ≤ (t.part i).op) :
    Holds x t p := by
  have same : wanted x t p = wanted x s p := by rw [wanted, wanted, part]
  exact
    { sync := part ▸ holds.sync
      bound := part ▸ holds.bound
      round := part ▸ holds.round
      first := part ▸ holds.first
      reads := part ▸ holds.reads
      puts := by rw [part, toMaster]; exact holds.puts
      made := fun j before writes => by
        rw [part] at before
        rw [toMaster]
        exact (holds.made j before writes).imp_right (kvs _ _)
      gets := by rw [same, toMaster]; exact holds.gets
      served := fun key member => by
        rw [← List.count_pos_iff, toServe, List.count_pos_iff] at member
        rw [same, part]
        exact holds.served key member
      answers := fun v member => by
        rw [toWorker] at member
        rw [part]
        exact (holds.answers v member).imp_right fun before => Nat.lt_of_lt_of_le before (later _)
      tokens := by rw [toMaster, toWorker, same, toServe, part]; exact holds.tokens
      collected := fun zero j i op inside before => by
        rw [part] at before ⊢
        exact (holds.collected zero j i op inside before).imp_right fun rest other =>
          Nat.lt_of_lt_of_le (rest other) (later i)
      received := fun other j op before => by
        rw [part] at before ⊢
        exact (holds.received other j op before).imp_right fun rest => Nat.lt_of_lt_of_le rest (later 0) }

/-- A partition with no request at the master process. -/
structure Idle (s : System V) (p : Nat) : Prop where
  gets : (s.toMaster p).countP isGet = 0
  served : ∀ key, p ∉ s.toServe key

theorem Holds.idle (holds : Holds x s p) (runs : (s.part p).waiting = false) : Idle s p ∧ s.toWorker p = [] := by
  have tokens := holds.tokens
  rw [runs, if_neg Bool.false_ne_true] at tokens
  refine ⟨⟨by omega, fun key member => ?_⟩, List.eq_nil_of_length_eq_zero (by omega)⟩
  have waits := (holds.served key member).2
  rw [runs] at waits
  cases waits

/-- A partition whose answer is on the way. -/
theorem Holds.answered {rest : List V} (holds : Holds x s p) (answer : s.toWorker p = v :: rest) :
    Idle s p ∧ rest = [] ∧ (s.part p).waiting = true := by
  have tokens := holds.tokens
  rw [answer, List.length_cons] at tokens
  have waits : (s.part p).waiting = true := by
    cases same : (s.part p).waiting with
    | true => rfl
    | false =>
      rw [same, if_neg Bool.false_ne_true] at tokens
      omega
  rw [waits, if_pos rfl] at tokens
  refine ⟨⟨by omega, fun key member => ?_⟩, List.eq_nil_of_length_eq_zero (by omega), waits⟩
  have one := List.count_pos_iff.mpr ((holds.served key member).1 ▸ member)
  omega

/-- The parts of the program that a partition has still to finish. -/
def Partition.rest (x : Setup V) (part : Partition V) : Nat := (x.ops.length - part.op) * (x.num + 2) - part.round

/-- A partition goes on: it finishes a part of its operation and may send requests `puts`, but waits for nothing. -/
structure Advances (x : Setup V) (s : System V) (p : Nat) (part : Partition V) (puts : List (Request V)) : Prop where
  idle : Idle s p
  runs : part.waiting = false
  later : (s.part p).op ≤ part.op
  less : part.rest x < (s.part p).rest x
  few : puts.length ≤ 1
  sync : part.syncKey = UInt64.ofNat (part.op * x.num)
  bound : part.op ≤ x.ops.length
  round : part.round ≤ x.num
  first : p ≠ 0 → part.round = 0
  sent : ∀ r ∈ puts, ∃ j < part.op, x.Writes p j ∧ r = .put (x.key j p) (x.value p j)
  made : ∀ j, (s.part p).op ≤ j → j < part.op → x.Writes p j → .put (x.key j p) (x.value p j) ∈ puts
  collected : p = 0 → ∀ j i, x.ops[j]? = some .collect → i < x.num →
    j < part.op ∨ (j = part.op ∧ i < part.round) →
    part.collected j i = some (x.value i j) ∧ (i ≠ 0 → j < (s.part i).op)
  received : p ≠ 0 → ∀ j, x.ops[j]? = some .broadcast → j < part.op →
    part.received j = some (x.value 0 j) ∧ j < (s.part 0).op

/-- The system after that. -/
def advanced (s : System V) (p : Nat) (part : Partition V) (puts : List (Request V)) : System V :=
  { s with
    part := update s.part p part
    toMaster := update s.toMaster p (s.toMaster p ++ puts)
    toWorker := update s.toWorker p [] }

theorem Inv.advance {part : Partition V} {puts : List (Request V)} (inv : Inv x s) (listed : p < x.num)
    (advances : Advances x s p part puts) : Inv x (advanced s p part puts) := by
  have old := inv.holds p listed
  have own : (advanced s p part puts).part p = part := update_self ..
  have others : ∀ q, q ≠ p → (advanced s p part puts).part q = s.part q := fun q other =>
    update_of_ne other _ _
  have later : ∀ i, (s.part i).op ≤ ((advanced s p part puts).part i).op := fun i => by
    by_cases same : i = p
    · rw [same, own]
      exact advances.later
    · exact Nat.le_of_eq (by rw [others i same])
  have noGet : puts.countP isGet = 0 := List.countP_eq_zero.mpr fun r member => by
    obtain ⟨j, _, _, rfl⟩ := advances.sent r member
    exact Bool.false_ne_true
  have toMaster : (advanced s p part puts).toMaster p = s.toMaster p ++ puts := update_self ..
  have toWorker : (advanced s p part puts).toWorker p = [] := update_self ..
  refine ⟨fun q inside => ?_, fun key v found => ?_, inv.quiet, inv.listed⟩
  · by_cases same : q = p
    · subst same
      exact
        { sync := by rw [own]; exact advances.sync
          bound := by rw [own]; exact advances.bound
          round := by rw [own]; exact advances.round
          first := by rw [own]; exact advances.first
          reads := fun waits => by rw [own, advances.runs] at waits; cases waits
          puts := fun key v member => by
            rw [own]
            rcases List.mem_append.mp (toMaster ▸ member) with before | new
            · obtain ⟨j, done, rest⟩ := old.puts key v before
              exact ⟨j, Nat.lt_of_lt_of_le done advances.later, rest⟩
            · obtain ⟨j, done, writes, same⟩ := advances.sent _ new
              obtain ⟨rfl, rfl⟩ := Request.put.inj same
              exact ⟨j, done, writes, rfl, rfl⟩
          made := fun j before writes => by
            rw [own] at before
            rw [toMaster, List.mem_append]
            by_cases done : j < (s.part q).op
            · exact (old.made j done writes).imp_left Or.inl
            · exact Or.inl (Or.inr (advances.made j (by omega) before writes))
          gets := fun key member => by
            have none := advances.idle.gets
            have one : 0 < ((s.toMaster q) ++ puts).countP isGet :=
              List.countP_pos_iff.mpr ⟨_, toMaster ▸ member, rfl⟩
            rw [List.countP_append] at one
            omega
          served := fun key member => absurd member (advances.idle.served key)
          answers := fun v member => by rw [toWorker] at member; cases member
          tokens := by
            rw [toMaster, toWorker, own, advances.runs, List.countP_append, advances.idle.gets, noGet,
              show (advanced s q part puts).toServe = s.toServe from rfl,
              List.count_eq_zero_of_not_mem (advances.idle.served _)]
            rfl
          collected := fun zero j i op inside' before => by
            rw [own] at before ⊢
            exact (advances.collected zero j i op inside' before).imp_right fun rest other =>
              Nat.lt_of_lt_of_le (rest other) (later i)
          received := fun other j op before => by
            rw [own] at before ⊢
            exact (advances.received other j op before).imp_right fun rest => Nat.lt_of_lt_of_le rest (later 0) }
    · exact (inv.holds q inside).frame (others q same) (update_of_ne same _ _) (update_of_ne same _ _)
        (fun _ => rfl) (fun _ _ found => found) later
  · obtain ⟨i, inside, j, done, rest⟩ := inv.stored key v found
    exact ⟨i, inside, j, Nat.lt_of_lt_of_le done (later i), rest⟩

theorem Holds.key_eq (holds : Holds x s p) (i : Nat) : (s.part p).syncKey + UInt64.ofNat i = x.key (s.part p).op i := by
  rw [holds.sync, Setup.key, UInt64.ofNat_add]

theorem Holds.next_sync (holds : Holds x s p) :
    (s.part p).syncKey + UInt64.ofNat x.num = UInt64.ofNat (((s.part p).op + 1) * x.num) := by
  rw [holds.sync, Nat.succ_mul, UInt64.ofNat_add]

/-- An operation ends. -/
theorem Holds.next (holds : Holds x s p) {op : Op} {part : Partition V} {puts : List (Request V)} (idle : Idle s p)
    (here : x.ops[(s.part p).op]? = some op) (runs : part.waiting = false) (counter : part.op = (s.part p).op + 1)
    (sync : part.syncKey = (s.part p).syncKey + UInt64.ofNat x.num) (round : part.round = 0)
    (few : puts.length ≤ 1) (sent : ∀ r ∈ puts, x.Writes p (s.part p).op ∧ r = .put (x.key (s.part p).op p) (x.value p (s.part p).op))
    (made : x.Writes p (s.part p).op → .put (x.key (s.part p).op p) (x.value p (s.part p).op) ∈ puts)
    (collected : p = 0 → op = .collect → ∀ i < x.num, part.collected (s.part p).op i = some (x.value i (s.part p).op) ∧
      (i ≠ 0 → (s.part p).op < (s.part i).op))
    (collected' : ∀ j < (s.part p).op, part.collected j = (s.part p).collected j)
    (received : p ≠ 0 → op = .broadcast → part.received (s.part p).op = some (x.value 0 (s.part p).op) ∧
      (s.part p).op < (s.part 0).op)
    (received' : ∀ j < (s.part p).op, part.received j = (s.part p).received j) : Advances x s p part puts where
  idle := idle
  runs := runs
  later := by omega
  less := by
    have inside := (List.getElem?_eq_some_iff.mp here).1
    have most := holds.round
    have split : (x.ops.length - (s.part p).op) * (x.num + 2) =
        (x.ops.length - ((s.part p).op + 1)) * (x.num + 2) + (x.num + 2) := by
      rw [← Nat.succ_mul]
      congr 1
      omega
    simp only [Partition.rest, counter, round]
    omega
  few := few
  sync := by rw [sync, counter, holds.next_sync]
  bound := by
    have inside := (List.getElem?_eq_some_iff.mp here).1
    omega
  round := by omega
  first := fun _ => round
  sent := fun r member => ⟨(s.part p).op, by omega, sent r member⟩
  made := fun j least before writes => by
    obtain rfl : j = (s.part p).op := by omega
    exact made writes
  collected := fun zero j i op' inside before => by
    have before : j < (s.part p).op ∨ j = (s.part p).op := by omega
    rcases before with earlier | rfl
    · rw [collected' j earlier]
      exact holds.collected zero j i op' inside (Or.inl earlier)
    · rw [here, Option.some.injEq] at op'
      exact collected zero op' i inside
  received := fun other j op' before => by
    have before : j < (s.part p).op ∨ j = (s.part p).op := by omega
    rcases before with earlier | rfl
    · rw [received' j earlier]
      exact holds.received other j op' earlier
    · rw [here, Option.some.injEq] at op'
      exact received other op'

/-- A value is stored in the array of a collection. -/
theorem Holds.store (holds : Holds x s 0) {part : Partition V} (idle : Idle s 0)
    (here : x.ops[(s.part 0).op]? = some .collect) (inside : (s.part 0).round < x.num)
    (value : v = x.value (s.part 0).round (s.part 0).op)
    (done : (s.part 0).round ≠ 0 → (s.part 0).op < (s.part (s.part 0).round).op)
    (same : part = { (s.part 0).store v with waiting := false }) : Advances x s 0 part [] := by
  subst same
  exact
    { idle
      runs := rfl
      later := Nat.le_refl _
      less := by
        have before := (List.getElem?_eq_some_iff.mp here).1
        have some : x.num + 2 ≤ (x.ops.length - (s.part 0).op) * (x.num + 2) := Nat.le_mul_of_pos_left _ (by omega)
        simp only [Partition.rest, Partition.store]
        omega
      few := Nat.zero_le _
      sync := holds.sync
      bound := holds.bound
      round := inside
      first := fun other => absurd rfl other
      sent := nofun
      made := fun j least before => absurd before (Nat.not_lt.mpr least)
      collected := fun zero j i op' inside' before => by
        simp only [Partition.store] at before ⊢
        by_cases last : j = (s.part 0).op ∧ i = (s.part 0).round
        · obtain ⟨rfl, rfl⟩ := last
          rw [update_self, update_self, value]
          exact ⟨rfl, done⟩
        · have earlier : j < (s.part 0).op ∨ (j = (s.part 0).op ∧ i < (s.part 0).round) := by omega
          have old := holds.collected zero j i op' inside' earlier
          by_cases equal : j = (s.part 0).op
          · subst equal
            rw [update_self, update_of_ne (by omega)]
            exact old
          · rw [update_of_ne equal]
            exact old
      received := fun other => absurd rfl other }

theorem advanced_nil {part : Partition V} (empty : s.toWorker p = []) : advanced s p part [] = s.setPart p part := by
  have same : update s.toWorker p [] = s.toWorker := by rw [← empty, update_eq_self]
  simp only [advanced, System.setPart, List.append_nil, update_eq_self, same]

theorem advanced_put {key : UInt64} (empty : s.toWorker p = []) :
    advanced s p ((s.part p).next x.num) [.put key v] = s.put x.num p key v := by
  have same : update s.toWorker p [] = s.toWorker := by rw [← empty, update_eq_self]
  simp only [advanced, System.put, System.send, System.setPart, same]

theorem advanced_receive {part : Partition V} :
    advanced s p part [] = { s with toWorker := update s.toWorker p [] }.setPart p part := by
  simp only [advanced, System.setPart, List.append_nil, update_eq_self]

/-- A `Get` is sent. -/
theorem Inv.get (inv : Inv x s) (listed : p < x.num) (runs : (s.part p).waiting = false) (reads : Reads x p (s.part p)) :
    Inv x (s.get p (wanted x s p)) := by
  have old := inv.holds p listed
  obtain ⟨idle, empty⟩ := old.idle runs
  have own : (s.get p (wanted x s p)).part p = { s.part p with waiting := true } := update_self ..
  have others : ∀ q, q ≠ p → (s.get p (wanted x s p)).part q = s.part q := fun q other => update_of_ne other _ _
  have ops : ∀ i, ((s.get p (wanted x s p)).part i).op = (s.part i).op := fun i => by
    by_cases same : i = p
    · rw [same, own]
    · rw [others i same]
  have toMaster : (s.get p (wanted x s p)).toMaster p = s.toMaster p ++ [.get (wanted x s p)] := update_self ..
  have same : wanted x (s.get p (wanted x s p)) p = wanted x s p := by rw [wanted, own]; rfl
  refine ⟨fun q inside => ?_, fun key v found => ?_, inv.quiet, inv.listed⟩
  · by_cases self : q = p
    · subst self
      exact
        { sync := by rw [own]; exact old.sync
          bound := by rw [own]; exact old.bound
          round := by rw [own]; exact old.round
          first := by rw [own]; exact old.first
          reads := fun _ => by rw [own]; exact reads
          puts := fun key v member => by
            rw [own]
            rcases List.mem_append.mp (toMaster ▸ member) with before | new
            · exact old.puts key v before
            · cases List.mem_singleton.mp new
          made := fun j before writes => by
            rw [own] at before
            rw [toMaster, List.mem_append]
            exact (old.made j before writes).imp_left Or.inl
          gets := fun key member => by
            rw [same]
            rcases List.mem_append.mp (toMaster ▸ member) with before | new
            · exact old.gets key before
            · exact Request.get.inj (List.mem_singleton.mp new)
          served := fun key member => absurd member (idle.served key)
          answers := fun v member => by
            have member : v ∈ s.toWorker q := member
            rw [empty] at member
            cases member
          tokens := by
            rw [toMaster, own, same, List.countP_append, idle.gets, show (s.get q (wanted x s q)).toWorker q = [] from empty,
              show (s.get q (wanted x s q)).toServe = s.toServe from rfl, List.count_eq_zero_of_not_mem (idle.served _)]
            rfl
          collected := fun zero j i op inside' before => by
            rw [own] at before ⊢
            rw [ops]
            exact old.collected zero j i op inside' before
          received := fun other j op before => by
            rw [own] at before ⊢
            rw [ops]
            exact old.received other j op before }
    · exact (inv.holds q inside).frame (others q self) (update_of_ne self _ _) rfl (fun _ => rfl)
        (fun _ _ found => found) fun i => Nat.le_of_eq (ops i).symm
  · obtain ⟨i, inside, j, done, rest⟩ := inv.stored key v found
    exact ⟨i, inside, j, by rw [ops]; exact done, rest⟩

/-- What a partition does when it acts or gets an answer. -/
inductive Goes (x : Setup V) (s : System V) (p : Nat) : System V → Prop
  | get (runs : (s.part p).waiting = false) (reads : Reads x p (s.part p)) : Goes x s p (s.get p (wanted x s p))
  | advance {part : Partition V} {puts : List (Request V)} (advances : Advances x s p part puts) :
    Goes x s p (advanced s p part puts)

theorem Inv.goes (inv : Inv x s) (listed : p < x.num) (goes : Goes x s p t) : Inv x t := by
  cases goes with
  | get runs reads => exact inv.get listed runs reads
  | advance advances => exact inv.advance listed advances

theorem Holds.act (holds : Holds x s p) (listed : p < x.num) (acts : s.act x p = some t) : Goes x s p t := by
  unfold System.act at acts
  simp only [Setup.partitionId_eq listed, Setup.isMaster_eq listed, decide_eq_true_eq] at acts
  split at acts
  · cases acts
  · next runs =>
    have runs := eq_false_of_ne_true runs
    obtain ⟨idle, empty⟩ := holds.idle runs
    split at acts
    · cases acts
    · next here =>
      by_cases zero : p = 0
      · subst zero
        rw [if_pos rfl] at acts
        split at acts
        · next inside =>
          split at acts
          · next other =>
            obtain rfl := Option.some.inj acts
            rw [holds.key_eq]
            exact .get runs ⟨fun _ => ⟨here, by omega, inside⟩, fun other => absurd rfl other⟩
          · next first =>
            obtain rfl := Option.some.inj acts
            rw [← advanced_nil empty]
            have first : (s.part 0).round = 0 := by omega
            refine .advance (holds.store idle here inside (by rw [first]) (fun other => absurd first other) ?_)
            simp only [Partition.store, runs]
        · next last =>
          obtain rfl := Option.some.inj acts
          rw [← advanced_nil empty]
          have round := holds.round
          refine .advance (holds.next idle here runs rfl rfl rfl (Nat.zero_le _) nofun ?_ (fun _ _ i inside =>
            holds.collected rfl _ i here inside (Or.inr ⟨rfl, by omega⟩)) (fun _ _ => rfl) (fun other => absurd rfl other)
            fun _ _ => rfl)
          rintro (⟨_, other⟩ | ⟨broadcast, _⟩)
          · exact absurd rfl other
          · rw [here] at broadcast
            cases broadcast
      · rw [if_neg zero] at acts
        obtain rfl := Option.some.inj acts
        rw [← advanced_put empty, holds.key_eq]
        have writes : x.Writes p (s.part p).op := Or.inl ⟨here, zero⟩
        exact .advance (holds.next idle here runs rfl rfl rfl (Nat.le_refl _)
          (fun r member => ⟨writes, List.mem_singleton.mp member⟩) (fun _ => List.mem_singleton.mpr rfl)
          (fun equal => absurd equal zero) (fun _ _ => rfl) nofun fun _ _ => rfl)
    · next here =>
      by_cases zero : p = 0
      · subst zero
        rw [if_pos rfl] at acts
        obtain rfl := Option.some.inj acts
        rw [← advanced_put empty, holds.key_eq]
        have writes : x.Writes 0 (s.part 0).op := Or.inr ⟨here, rfl⟩
        exact .advance (holds.next idle here runs rfl rfl rfl (Nat.le_refl _)
          (fun r member => ⟨writes, List.mem_singleton.mp member⟩) (fun _ => List.mem_singleton.mpr rfl)
          (fun _ => nofun) (fun _ _ => rfl) (fun other => absurd rfl other) fun _ _ => rfl)
      · rw [if_neg zero] at acts
        obtain rfl := Option.some.inj acts
        rw [holds.key_eq]
        have same : x.key (s.part p).op 0 = wanted x s p := by rw [wanted, Partition.slot, if_neg zero]
        rw [same]
        exact .get runs ⟨fun equal => absurd equal zero, fun _ => here⟩

/-- What a waiting partition reads is a key of the program. -/
theorem Holds.wanted_inj (holds : Holds x s q) (bounded : x.Bounded) (inside : q < x.num) (waits : (s.part q).waiting = true)
    (listed : i < x.num) (before : j < x.ops.length) (same : x.key j i = wanted x s q) :
    (s.part q).op = j ∧ (s.part q).slot q = i := by
  obtain ⟨master, worker⟩ := holds.reads waits
  have slot : (s.part q).slot q < x.num ∧ (s.part q).op < x.ops.length := by
    unfold Partition.slot
    split
    · next zero => exact ⟨(master zero).2.2, (List.getElem?_eq_some_iff.mp (master zero).1).1⟩
    · next other => exact ⟨Nat.zero_lt_of_lt inside, (List.getElem?_eq_some_iff.mp (worker other)).1⟩
  have equal := bounded.key_inj listed slot.1 before slot.2 same
  exact ⟨equal.1.symm, equal.2.symm⟩

theorem foldl_reply (l : List Nat) (s : System V) :
    l.foldl (fun s q => s.reply q v) s = { s with toWorker := fun q => s.toWorker q ++ List.replicate (l.count q) v } := by
  induction l generalizing s with
  | nil => simp
  | cons p l ih =>
    rw [List.foldl_cons, ih, System.reply]
    simp only [System.mk.injEq, true_and, and_true]
    funext q
    by_cases same : q = p
    · subst same
      rw [update_self, List.count_cons_self, List.append_assoc, List.singleton_append, List.replicate_succ]
    · rw [update_of_ne same, List.count_cons_of_ne (Ne.symm same)]

/-- The system after the master process took a `PUT`. -/
def servedPut (s : System V) (p : Nat) (key : UInt64) (v : V) (rest : List (Request V)) : System V :=
  { s with
    toMaster := update s.toMaster p rest
    kvs := update s.kvs key (some v)
    toWorker := fun q => s.toWorker q ++ List.replicate ((s.toServe key).count q) v
    toServe := update s.toServe key [] }

/-- The system after the master process took a `GET`, which it answered or postponed. -/
def servedGet (s : System V) (p : Nat) (key : UInt64) (rest : List (Request V)) (answer : List V) (postponed : List Nat) :
    System V :=
  { s with
    toMaster := update s.toMaster p rest
    toWorker := update s.toWorker p (s.toWorker p ++ answer)
    toServe := update s.toServe key (s.toServe key ++ postponed) }

inductive Served (s : System V) (p : Nat) : System V → Prop
  | put {key : UInt64} {v : V} {rest : List (Request V)} (head : s.toMaster p = .put key v :: rest) :
    Served s p (servedPut s p key v rest)
  | answered {key : UInt64} {v : V} {rest : List (Request V)} (head : s.toMaster p = .get key :: rest)
    (found : s.kvs key = some v) : Served s p (servedGet s p key rest [v] [])
  | postponed {key : UInt64} {rest : List (Request V)} (head : s.toMaster p = .get key :: rest)
    (missing : s.kvs key = none) : Served s p (servedGet s p key rest [] [p])

theorem serve_cases (serves : s.serve p = some t) : Served s p t := by
  unfold System.serve at serves
  split at serves
  · cases serves
  · next key v rest head =>
    obtain rfl := Option.some.inj serves
    rw [foldl_reply]
    exact .put head
  · next key rest head =>
    dsimp only at serves
    split at serves
    · next v found =>
      obtain rfl := Option.some.inj serves
      have done := Served.answered head found
      simp only [servedGet, List.append_nil, update_eq_self] at done
      exact done
    · next missing =>
      obtain rfl := Option.some.inj serves
      have done := Served.postponed head missing
      simp only [servedGet, List.append_nil, update_eq_self] at done
      exact done

theorem Inv.servePut {key : UInt64} {rest : List (Request V)} (inv : Inv x s) (bounded : x.Bounded) (listed : p < x.num)
    (head : s.toMaster p = .put key v :: rest) : Inv x (servedPut s p key v rest) := by
  unfold servedPut
  obtain ⟨j, done, writes, rfl, rfl⟩ := (inv.holds p listed).puts key v (by rw [head]; exact List.mem_cons_self)
  -- another put of the same key would be the same operation of the same partition
  have kvs : ∀ i j', i < x.num → x.Writes i j' → s.kvs (x.key j' i) = some (x.value i j') →
      update s.kvs (x.key j p) (some (x.value p j)) (x.key j' i) = some (x.value i j') := by
    intro i j' inside writes' found
    by_cases same : x.key j' i = x.key j p
    · obtain ⟨rfl, rfl⟩ := bounded.key_inj inside listed writes'.lt writes.lt same
      rw [update_self]
    · rw [update_of_ne same, found]
  have fewer : ∀ q r, r ∈ update s.toMaster p rest q → r ∈ s.toMaster q := by
    intro q r member
    by_cases same : q = p
    · subst same
      rw [update_self] at member
      rw [head]
      exact List.mem_cons_of_mem _ member
    · rwa [update_of_ne same] at member
  have gets : ∀ q, (update s.toMaster p rest q).countP isGet = (s.toMaster q).countP isGet := by
    intro q
    by_cases same : q = p
    · subst same
      rw [update_self, head, List.countP_cons_of_neg Bool.false_ne_true]
    · rw [update_of_ne same]
  refine ⟨fun q inside => ?_, fun key v found => ?_, fun key found => ?_, fun key q member => ?_⟩
  · have old := inv.holds q inside
    exact
      { old with
        puts := fun key v member => old.puts key v (fewer q _ member)
        made := fun j' before writes' => by
          rcases old.made j' before writes' with sent | found
          · by_cases same : q = p
            · subst same
              rw [head] at sent
              rcases List.mem_cons.mp sent with now | later
              · obtain ⟨equal, value⟩ := Request.put.inj now
                simp only [equal, value, update_self, or_true]
              · simp only [update_self]
                exact Or.inl later
            · simp only [update_of_ne same]
              exact Or.inl sent
          · exact Or.inr (kvs q j' inside writes' found)
        gets := fun key member => old.gets key (fewer q _ member)
        served := fun key member => by
          by_cases same : key = x.key j p
          · simp only [same, update_self, List.not_mem_nil] at member
          · simp only [update_of_ne same] at member
            exact old.served key member
        answers := fun v member => by
          rcases List.mem_append.mp member with before | now
          · exact old.answers v before
          · obtain ⟨some, rfl⟩ := List.mem_replicate.mp now
            obtain ⟨key, waits⟩ := old.served _ (List.count_pos_iff.mp (Nat.pos_of_ne_zero some))
            obtain ⟨op, slot⟩ := old.wanted_inj bounded inside waits listed writes.lt key
            simp only [op, slot]
            exact ⟨trivial, done⟩
        tokens := by
          have tokens := old.tokens
          show (update s.toMaster p rest q).countP isGet +
            (update s.toServe (x.key j p) [] (wanted x s q)).count q +
            (s.toWorker q ++ List.replicate ((s.toServe (x.key j p)).count q) (x.value p j)).length =
            if (s.part q).waiting then 1 else 0
          rw [gets, List.length_append, List.length_replicate]
          by_cases same : wanted x s q = x.key j p
          · rw [same] at tokens ⊢
            rw [update_self, List.count_nil]
            omega
          · have absent : (s.toServe (x.key j p)).count q = 0 := List.count_eq_zero_of_not_mem fun member =>
              same (old.served _ member).1.symm
            rw [update_of_ne same, absent]
            exact tokens }
  · by_cases same : key = x.key j p
    · simp only [same, update_self, Option.some.injEq] at found
      exact ⟨p, listed, j, done, writes, same, found.symm⟩
    · simp only [update_of_ne same] at found
      exact inv.stored key v found
  · by_cases same : key = x.key j p
    · simp only [same, update_self]
    · simp only [update_of_ne same] at found ⊢
      exact inv.quiet key found
  · by_cases same : key = x.key j p
    · simp only [same, update_self, List.not_mem_nil] at member
    · simp only [update_of_ne same] at member
      exact inv.listed key q member

/-- A partition whose `GET` is the next request on its connection. -/
theorem Holds.asked {key : UInt64} {rest : List (Request V)} (holds : Holds x s p) (head : s.toMaster p = .get key :: rest) :
    key = wanted x s p ∧ (s.part p).waiting = true ∧ rest.countP isGet = 0 ∧ (s.toServe key).count p = 0 ∧
      s.toWorker p = [] := by
  have same : key = wanted x s p := holds.gets key (by rw [head]; exact List.mem_cons_self)
  have tokens := holds.tokens
  rw [head, List.countP_cons_of_pos rfl, ← same] at tokens
  have waits : (s.part p).waiting = true := by
    cases equal : (s.part p).waiting with
    | true => rfl
    | false =>
      rw [equal, if_neg Bool.false_ne_true] at tokens
      omega
  rw [waits, if_pos rfl] at tokens
  exact ⟨same, waits, by omega, by omega, List.eq_nil_of_length_eq_zero (by omega)⟩

theorem Inv.serveGet {key : UInt64} {rest : List (Request V)} {answer : List V} {postponed : List Nat} (inv : Inv x s)
    (bounded : x.Bounded) (listed : p < x.num) (head : s.toMaster p = .get key :: rest)
    (outcome : (∃ v, s.kvs key = some v ∧ answer = [v] ∧ postponed = []) ∨ (s.kvs key = none ∧ answer = [] ∧ postponed = [p])) :
    Inv x (servedGet s p key rest answer postponed) := by
  unfold servedGet
  have old := inv.holds p listed
  obtain ⟨same, waits, none, unserved, empty⟩ := old.asked head
  have inside' : ∀ q ∈ postponed, q = p ∧ s.kvs key = Option.none := by
    rcases outcome with ⟨_, _, _, rfl⟩ | ⟨found, _, rfl⟩
    · exact nofun
    · exact fun q member => ⟨List.mem_singleton.mp member, found⟩
  have served : ∀ key' q, q ∈ update s.toServe key (s.toServe key ++ postponed) key' →
      q ∈ s.toServe key' ∨ (key' = key ∧ q = p) := by
    intro key' q member
    by_cases equal : key' = key
    · subst equal
      rw [update_self] at member
      exact (List.mem_append.mp member).imp_right fun now => ⟨rfl, (inside' q now).1⟩
    · rw [update_of_ne equal] at member
      exact Or.inl member
  refine ⟨fun q inside => ?_, inv.stored, fun key' found => ?_, fun key' q member => ?_⟩
  · by_cases self : q = p
    · subst self
      have toWorker : update s.toWorker q (s.toWorker q ++ answer) q = answer := by
        rw [update_self, empty, List.nil_append]
      exact
        { old with
          puts := fun key' v member => old.puts key' v (by
            simp only [update_self] at member
            rw [head]
            exact List.mem_cons_of_mem _ member)
          made := fun j before writes => by
            refine (old.made j before writes).imp_left fun sent => ?_
            rw [head] at sent
            simp only [update_self]
            exact (List.mem_cons.mp sent).resolve_left nofun
          gets := fun key' member => by
            simp only [update_self] at member
            have one : 0 < rest.countP isGet := List.countP_pos_iff.mpr ⟨_, member, rfl⟩
            omega
          served := fun key' member => by
            rcases served key' q member with before | ⟨rfl, _⟩
            · exact old.served key' before
            · exact ⟨same, waits⟩
          answers := fun v member => by
            simp only [toWorker] at member
            rcases outcome with ⟨v', found, rfl, _⟩ | ⟨_, rfl, _⟩
            · obtain rfl := List.mem_singleton.mp member
              obtain ⟨i, within, j, done, writes, rfl, rfl⟩ := inv.stored key v found
              obtain ⟨op, slot⟩ := old.wanted_inj bounded inside waits within writes.lt same
              simp only [op, slot]
              exact ⟨trivial, done⟩
            · cases member
          tokens := by
            show (update s.toMaster q rest q).countP isGet +
              (update s.toServe key (s.toServe key ++ postponed) (wanted x s q)).count q +
              (update s.toWorker q (s.toWorker q ++ answer) q).length = if (s.part q).waiting then 1 else 0
            rw [toWorker, ← same, update_self, update_self, List.count_append, none, unserved, waits]
            rcases outcome with ⟨_, _, rfl, rfl⟩ | ⟨_, rfl, rfl⟩
            · rfl
            · simp }
    · refine (inv.holds q inside).frame rfl (update_of_ne self _ _) (update_of_ne self _ _)
        (fun key' => ?_) (fun _ _ found => found) fun i => Nat.le_refl _
      by_cases equal : key' = key
      · subst equal
        have absent : postponed.count q = 0 := List.count_eq_zero_of_not_mem fun member => self (inside' q member).1
        simp only [update_self, List.count_append, absent, Nat.add_zero]
      · simp only [update_of_ne equal]
  · by_cases equal : key' = key
    · subst equal
      have before := inv.quiet key' found
      rcases outcome with ⟨_, _, _, rfl⟩ | ⟨missing, _, _⟩
      · simp only [update_self, before, List.append_nil]
      · exact absurd missing found
    · simp only [update_of_ne equal]
      exact inv.quiet key' found
  · rcases served key' q member with before | ⟨_, rfl⟩
    · exact inv.listed key' q before
    · exact listed

theorem Inv.serve (inv : Inv x s) (bounded : x.Bounded) (listed : p < x.num) (serves : s.serve p = some t) : Inv x t := by
  cases serve_cases serves with
  | put head => exact inv.servePut bounded listed head
  | answered head found => exact inv.serveGet bounded listed head (Or.inl ⟨_, found, rfl, rfl⟩)
  | postponed head missing => exact inv.serveGet bounded listed head (Or.inr ⟨missing, rfl, rfl⟩)

/-- The answer to a `Get` arrives. -/
theorem Holds.receive (holds : Holds x s p) (receives : s.receive x p = some t) : Goes x s p t := by
  unfold System.receive at receives
  split at receives
  · next v rest head here =>
    obtain rfl := Option.some.inj receives
    obtain ⟨idle, rfl, waits⟩ := holds.answered head
    obtain ⟨value, done⟩ := holds.answers v (by rw [head]; exact List.mem_cons_self)
    obtain ⟨master, worker⟩ := holds.reads waits
    by_cases zero : p = 0
    · subst zero
      have slot : (s.part 0).slot 0 = (s.part 0).round := if_pos rfl
      rw [slot] at value done
      rw [← advanced_receive]
      exact .advance (holds.store idle here (master rfl).2.2 value (fun _ => done) rfl)
    · have broadcast := worker zero
      rw [here] at broadcast
      cases broadcast
  · next v rest head here =>
    obtain rfl := Option.some.inj receives
    obtain ⟨idle, rfl, waits⟩ := holds.answered head
    obtain ⟨value, done⟩ := holds.answers v (by rw [head]; exact List.mem_cons_self)
    obtain ⟨master, worker⟩ := holds.reads waits
    have other : p ≠ 0 := by
      intro zero
      have collect := (master zero).1
      rw [here] at collect
      cases collect
    have slot : (s.part p).slot p = 0 := if_neg other
    rw [slot] at value done
    rw [← advanced_receive]
    refine .advance (holds.next idle here rfl rfl rfl rfl (Nat.zero_le _) nofun ?_ (fun zero => absurd zero other) (fun _ _ => rfl)
      (fun _ _ => ?_) fun j before => ?_)
    · rintro (⟨collect, _⟩ | ⟨_, zero⟩)
      · rw [here] at collect
        cases collect
      · exact absurd zero other
    · rw [← value]
      exact ⟨update_self .., done⟩
    · exact update_of_ne (by omega) _ _
  · cases receives

theorem Inv.step (inv : Inv x s) (bounded : x.Bounded) (next : s.Step x t) : Inv x t := by
  cases next with
  | act listed acts => exact inv.goes listed ((inv.holds _ listed).act listed acts)
  | serve listed serves => exact inv.serve bounded listed serves
  | receive listed receives => exact inv.goes listed ((inv.holds _ listed).receive receives)

theorem inv_reachable (bounded : x.Bounded) (reachable : s.Reachable x) : Inv x s := by
  induction reachable with
  | start => exact inv_start
  | step _ next ih => exact ih.step bounded next

end Gam.Database.ClusterSync

import Gam.Lock.Threads

/-! When locks on ranges exclude each other. -/

namespace Gam.RangeSys
variable {Thread : Type} [DecidableEq Thread] {s s' : RangeSys Thread} {t u : Thread}
  {grants : List (Grant Thread)} {held : List RangeCall} {key : Word} {e : Bool}
variable {grants' : List (Grant Thread)} {active : Option ActiveCall}

/-- The keys of the ranges that are held in one way. -/
def heldKeys (held : List RangeCall) (e : Bool) : List Word :=
  held.flatMap fun range => if decide (range.op = .wlock) = e then range.keys else []

/-- The locks granted to a thread are those of the ranges it holds and those of its call. -/
def Accounted (t : Thread) (grants : List (Grant Thread)) (held : List RangeCall) : Option ActiveCall → Prop
  | none => ∀ key e, grants.count ⟨t, key, e⟩ = (heldKeys held e).count key
  | some a => a.call.Fits ∧ (a.call.op ≠ .unlock → a.exclusive = decide (a.call.op = .wlock)) ∧
    ∃ bag, a.call.Owns a.pc bag ∧ ∀ key e,
      grants.count ⟨t, key, e⟩ = (heldKeys held e).count key + if a.exclusive = e then bag.count key else 0

/-- Two locks on one address. -/
def Beside (g g' : Grant Thread) : Prop := g.key = g'.key → g.exclusive = false ∧ g'.exclusive = false

structure Sound (s : RangeSys Thread) : Prop where
  beside : s.grants.Pairwise Beside
  fits : ∀ t, ∀ range ∈ s.held t, range.Fits
  accounted : ∀ t, Accounted t s.grants (s.held t) (s.active t)

theorem count_heldKeys_cons (range : RangeCall) : (heldKeys (range :: held) e).count key =
    (heldKeys held e).count key + if decide (range.op = .wlock) = e then range.keys.count key else 0 := by
  rw [heldKeys, List.flatMap_cons, List.count_append, Nat.add_comm, heldKeys]
  split <;> rfl

theorem count_heldKeys_erase {range : RangeCall} (member : range ∈ held) :
    (heldKeys held e).count key = (heldKeys (held.erase range) e).count key +
      if decide (range.op = .wlock) = e then range.keys.count key else 0 := by
  rw [← count_heldKeys_cons]
  exact ((List.perm_cons_erase member).flatMap_right _).count_eq key

/-- A thread's account only depends on its own locks. -/
theorem Accounted.of_counts
    (same : ∀ key e, grants'.count ⟨t, key, e⟩ = grants.count ⟨t, key, e⟩)
    (accounted : Accounted t grants held active) : Accounted t grants' held active := by
  cases active with
  | none => intro key e; rw [same, accounted]
  | some a =>
    obtain ⟨fits, kind, bag, owns, counts⟩ := accounted
    exact ⟨fits, kind, bag, owns, fun key e => by rw [same, counts]⟩

theorem count_release_other {key' : Word} (different : u ≠ t) :
    (release t key grants).count ⟨u, key', e⟩ = grants.count ⟨u, key', e⟩ := by
  unfold release
  split <;> exact List.count_erase_of_ne (by simp [different])

theorem release_sublist : (release t key grants).Sublist grants := by
  unfold release
  split <;> exact List.erase_sublist

instance : Std.Symm (@Beside Thread) := ⟨fun _ _ beside same => (beside same.symm).symm⟩

/-- What is released is the lock the thread has on the key. -/
theorem release_eq (beside : grants.Pairwise Beside) (member : (⟨t, key, e⟩ : Grant Thread) ∈ grants) :
    release t key grants = grants.erase ⟨t, key, e⟩ := by
  cases e with
  | true => rw [release, if_pos member]
  | false =>
    rw [release, if_neg]
    intro exclusive
    have both := beside.forall member exclusive (by simp) rfl
    cases both.2

theorem Sound.init : Sound (init : RangeSys Thread) :=
  ⟨.nil, fun _ _ member => absurd member List.not_mem_nil, fun _ _ _ => rfl⟩

/-- A step of thread `t` is sound when its own account is. -/
theorem Sound.update {ranges : List RangeCall}
    (sound : Sound s) (beside : grants'.Pairwise Beside) (fits : ∀ range ∈ ranges, range.Fits)
    (own : Accounted t grants' ranges active)
    (others : ∀ u, u ≠ t → ∀ key e, grants'.count ⟨u, key, e⟩ = s.grants.count ⟨u, key, e⟩) :
    Sound ⟨grants', Function.update s.held t ranges, Function.update s.active t active⟩ := by
  refine ⟨beside, fun u => ?_, fun u => ?_⟩ <;> by_cases same : u = t
  · subst same
    simpa using fits
  · simpa [Function.update_of_ne same] using sound.fits u
  · subst same
    simpa using own
  · simp only [Function.update_of_ne same]
    exact (sound.accounted u).of_counts (others u same)

theorem Sound.updateActive
    (sound : Sound s) (beside : grants'.Pairwise Beside) (own : Accounted t grants' (s.held t) active)
    (others : ∀ u, u ≠ t → ∀ key e, grants'.count ⟨u, key, e⟩ = s.grants.count ⟨u, key, e⟩) :
    Sound ⟨grants', s.held, Function.update s.active t active⟩ := by
  simpa using sound.update beside (sound.fits t) own others

theorem keys_congr {call range : RangeCall} (addr : call.addr = range.addr) (count : call.count = range.count) :
    call.keys = range.keys ∧ (range.Fits → call.Fits) := by
  obtain ⟨_, _, _, _⟩ := call
  obtain ⟨_, _, _, _⟩ := range
  simp only at addr count
  subst addr count
  exact ⟨rfl, fun ⟨nonempty, bounded, few⟩ => ⟨nonempty, bounded, few⟩⟩

theorem Sound.step (sound : Sound s) (step : Step s s') : Sound s' := by
  cases step with
  | lock t call idle kind fits =>
    have account := sound.accounted t
    rw [idle] at account
    refine sound.updateActive sound.beside ?_ fun _ _ _ _ => rfl
    refine ⟨fits, fun _ => rfl, [], ?_, fun key e => by simpa using account key e⟩
    have owns := RangeCall.Owns.taking kind (Nat.zero_le call.size)
    rwa [RangeCall.takePc_zero] at owns
  | unlock t call range idle kind member addr count =>
    have account := sound.accounted t
    rw [idle] at account
    obtain ⟨keys, fits⟩ := keys_congr addr count
    refine sound.update sound.beside (fun _ kept => sound.fits t _ (List.mem_of_mem_erase kept)) ?_
      fun _ _ _ _ => rfl
    refine ⟨fits (sound.fits t range member), fun locks => absurd kind locks, call.keys, ?_, fun key e => ?_⟩
    · have owns := RangeCall.Owns.giving kind (Nat.zero_le call.size)
      rwa [RangeCall.takePc_zero] at owns
    · show s.grants.count _ = _
      rw [account key e, count_heldKeys_erase member, keys]
  | grant t a r busy sends locks compatible =>
    have account := sound.accounted t
    rw [busy] at account
    obtain ⟨fits, kind, bag, owns, counts⟩ := account
    refine sound.updateActive (List.pairwise_cons.mpr ⟨compatible, sound.beside⟩) ?_ ?_
    · refine ⟨fits, kind, bag ++ [r.addr], (owns.lock fits sends locks).1, fun key e => ?_⟩
      rw [List.count_cons, counts, List.count_append]
      by_cases same : a.exclusive = e <;> by_cases here : r.addr = key <;> simp [same, here, Nat.add_assoc]
    · intro u different key e
      rw [List.count_cons_of_ne (by simp [Ne.symm different])]
  | refuse t a r busy sends locks tries =>
    have account := sound.accounted t
    rw [busy] at account
    obtain ⟨fits, kind, bag, owns, counts⟩ := account
    refine sound.updateActive sound.beside ?_ fun _ _ _ _ => rfl
    exact ⟨fits, kind, bag, (owns.lock fits sends locks).2, counts⟩
  | giveBack t a r busy sends unlocks =>
    have account := sound.accounted t
    rw [busy] at account
    obtain ⟨fits, kind, bag, owns, counts⟩ := account
    obtain ⟨rest, rfl, owns'⟩ := owns.unlock fits sends unlocks
    have member : (⟨t, r.addr, a.exclusive⟩ : Grant Thread) ∈ s.grants := by
      rw [← List.count_pos_iff, counts]
      simp
    refine sound.updateActive (sound.beside.sublist release_sublist) ?_ ?_
    · refine ⟨fits, kind, rest, owns', fun key e => ?_⟩
      rw [release_eq sound.beside member, List.count_erase, counts, List.count_cons]
      by_cases same : a.exclusive = e <;> by_cases here : r.addr = key <;> simp [same, here]
    · intro u different key e
      exact count_release_other different
  | succeed t a busy at_end locks =>
    have account := sound.accounted t
    rw [busy] at account
    obtain ⟨fits, kind, bag, owns, counts⟩ := account
    rw [at_end] at owns
    have all := owns.done
    rw [if_pos ⟨rfl, locks⟩] at all
    refine sound.update sound.beside ?_ ?_ fun _ _ _ _ => rfl
    · intro range member
      rcases List.mem_cons.mp member with rfl | member
      · exact fits
      · exact sound.fits t range member
    · intro key e
      show s.grants.count _ = _
      rw [counts, count_heldKeys_cons, all, kind locks]
  | leave t a ret busy at_end failed =>
    have account := sound.accounted t
    rw [busy] at account
    obtain ⟨fits, kind, bag, owns, counts⟩ := account
    rw [at_end] at owns
    have none_left := owns.done
    rw [if_neg (by rintro ⟨zero, locks⟩; exact failed.elim (· zero) locks)] at none_left
    refine sound.updateActive sound.beside ?_ fun _ _ _ _ => rfl
    intro key e
    rw [counts, none_left]
    simp

theorem Reach.sound (reach : Reach s) : Sound s := by
  induction reach with
  | init => exact .init
  | step _ step sound => exact sound.step step

/-- A key of a held range is locked by the thread that holds the range. -/
theorem Sound.granted (sound : Sound s) {range : RangeCall} (holds : range ∈ s.held t) (member : key ∈ range.keys) :
    (⟨t, key, decide (range.op = .wlock)⟩ : Grant Thread) ∈ s.grants := by
  have listed : 0 < (heldKeys (s.held t) (decide (range.op = .wlock))).count key := by
    rw [List.count_pos_iff]
    exact List.mem_flatMap.mpr ⟨range, holds, by simpa using member⟩
  have account := sound.accounted t
  rw [← List.count_pos_iff]
  cases active : s.active t with
  | none =>
    rw [active] at account
    rw [account]
    exact listed
  | some a =>
    rw [active] at account
    obtain ⟨_, _, _, _, counts⟩ := account
    rw [counts]
    exact Nat.add_pos_left listed _

/-- In every state of any number of threads: while one holds a write lock on a range, another one
holds a lock on an overlapping range only if the two ranges start at different addresses and no
block starts in both. Two ranges that start at the same address, or overlap in the start of a block,
are never locked together. -/
theorem Reach.ranges_excluded (reach : Reach s) (range range' : RangeCall) (different : t ≠ u)
    (writes : range ∈ s.held t) (exclusive : range.op = .wlock) (locks : range' ∈ s.held u) : range.addr ≠ range'.addr ∧
    ∀ x, x % blockSize = 0 → ¬ (range.addr.toNat ≤ x ∧ x < range.addr.toNat + range.count.toNat ∧
        range'.addr.toNat ≤ x ∧ x < range'.addr.toNat + range'.count.toNat) := by
  have sound := reach.sound
  have fits := sound.fits t range writes
  have fits' := sound.fits u range' locks
  -- a common key would be locked twice, once exclusively
  have apart : ∀ key ∈ range.keys, key ∉ range'.keys := by
    intro key member member'
    have first := sound.granted writes member
    have second := sound.granted locks member'
    have both := sound.beside.forall first second (by simp [different]) rfl
    simp [exclusive] at both
  constructor
  · intro same
    refine apart range.addr ((RangeCall.mem_keys fits).mpr (Or.inl rfl)) ?_
    exact (RangeCall.mem_keys fits').mpr (Or.inl same)
  · rintro x aligned ⟨low, high, low', high'⟩
    have bounded := fits.bounded
    have value : (BitVec.ofNat 64 x).toNat = x := by
      rw [BitVec.toNat_ofNat]
      omega
    have is_key : ∀ {c : RangeCall}, c.Fits → c.addr.toNat ≤ x → x < c.addr.toNat + c.count.toNat →
        BitVec.ofNat 64 x ∈ c.keys := by
      intro c fits low high
      rw [RangeCall.mem_keys fits, value, ← BitVec.toNat_inj, value]
      omega
    exact apart _ (is_key fits low high) (is_key fits' low' high')

/-- A thread locks a range inside one block. -/
theorem Reach.lockOne (reach : Reach s) (call : RangeCall) (idle : s.active t = none)
    (kind : call.op ≠ .unlock) (fits : call.Fits) (single : call.size = 1)
    (compatible : Compatible s.grants call.addr (decide (call.op = .wlock))) :
    Reach ⟨⟨t, call.addr, decide (call.op = .wlock)⟩ :: s.grants,
      Function.update s.held t (call :: s.held t), Function.update s.active t none⟩ := by
  have inside : 0 < call.size := by rw [single]; exact Nat.one_pos
  have sends := RangeCall.request_takePc fits inside
  have ends : call.resume false (.acquire 0) = .done 0 := by
    have next := RangeCall.resume_takePc fits inside
    rw [RangeCall.takePc_zero] at next
    rw [next, RangeCall.takePc, single, if_neg (Nat.lt_irrefl 1)]
  rw [RangeCall.takePc_zero] at sends
  have started := reach.step (.lock t call idle kind fits)
  have granted := started.step (.grant t _ _ (Function.update_self ..) sends kind compatible)
  have returned := granted.step (.succeed t ⟨call, decide (call.op = .wlock), call.resume false (.acquire 0)⟩
    (Function.update_self ..) (by dsimp only; exact ends) kind)
  simpa [setHeld, setActive, proceed, RangeCall.key] using returned

/-- The first 100 bytes of the memory of worker 1, and 100 bytes from the 50th on. -/
def front : RangeCall := ⟨.wlock, 0x1000000000000, 100, false⟩

def middle : RangeCall := ⟨.wlock, 0x1000000000032, 100, false⟩

def twoWriters : RangeSys (Fin 2) :=
  ⟨[⟨1, middle.addr, true⟩, ⟨0, front.addr, true⟩],
    Function.update (Function.update (fun _ => []) 0 [front]) 1 [middle], fun _ => none⟩

theorem reach_twoWriters : Reach twoWriters := by
  have first := Reach.init.lockOne (t := (0 : Fin 2)) front rfl (by decide)
    ⟨by decide, by decide, by decide⟩ (by decide) (fun _ member => absurd member List.not_mem_nil)
  have second := first.lockOne (t := 1) middle (by simp [init]) (by decide)
    ⟨by decide, by decide, by decide⟩ (by decide) (by simp [Compatible, init, middle, front])
  simpa [init, twoWriters, front, middle] using second

/-- Both write locks are held although the ranges overlap: the two ranges have different first
addresses in one block. -/
theorem ranges_overlap : Reach twoWriters ∧ front ∈ twoWriters.held 0 ∧ front.op = .wlock ∧
    middle ∈ twoWriters.held 1 ∧ middle.op = .wlock ∧ front.addr.toNat ≤ middle.addr.toNat ∧
    middle.addr.toNat < front.addr.toNat + front.count.toNat :=
  ⟨reach_twoWriters, List.mem_singleton.mpr rfl, rfl, List.mem_singleton.mpr rfl, rfl, by decide, by decide⟩

theorem ranges_excluded_twoWriters : front.addr ≠ middle.addr :=
  (Reach.ranges_excluded reach_twoWriters (t := 0) (u := 1) front middle (by decide)
    (List.mem_singleton.mpr rfl) rfl (List.mem_singleton.mpr rfl)).1

end Gam.RangeSys

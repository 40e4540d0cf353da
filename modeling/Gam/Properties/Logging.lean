import Gam.Logging

/-!
# The log file and the buffer

`write` appends the wrong parts of the buffer when the part to be flushed goes around its end, and the whole
buffer when there is nothing to flush; and a buffer filled to its last byte looks empty. As long as none of
this happens, the file and the unflushed part of the buffer are the records of all calls.
-/

namespace Gam.Logging

variable {cap turns pos : Nat} {buf : Nat → UInt8} {bytes : List UInt8}
variable {parts : List (List UInt8)}

/-! ## Copying to the buffer -/

theorem stored_memcpy (fits : pos + bytes.length ≤ cap) : Ring.Stored cap buf (memcpy buf pos bytes) pos bytes := by
  constructor
  · intro i inside
    rw [Nat.mod_eq_of_lt (by omega), memcpy, if_pos (by omega), Nat.add_sub_cancel_left,
      List.getD_eq_getElem?_getD, List.getElem?_eq_getElem inside, Option.getD_some]
  · intro cell outside
    rw [memcpy, if_neg]
    rintro ⟨first, last⟩
    refine outside (Ring.mem_window.mpr ⟨cell - pos, by omega, ?_⟩)
    rw [Nat.add_sub_of_le first, Nat.mod_eq_of_lt (by omega)]

/-- The bytes are in the ring from `spos` on, and the result is the position behind them. -/
theorem writeToBuf_spec (inside : pos < cap) (small : bytes.length ≤ cap) :
    Ring.Stored cap buf (writeToBuf cap buf bytes pos).1 pos bytes ∧ (writeToBuf cap buf bytes pos).2 = (pos + bytes.length) % cap := by
  rw [writeToBuf]
  by_cases straight : pos + bytes.length < cap
  · rw [if_pos straight]
    exact ⟨stored_memcpy (Nat.le_of_lt straight), (Nat.mod_eq_of_lt straight).symm⟩
  · rw [if_neg straight]
    have first : (bytes.take (cap - pos)).length = cap - pos := by
      rw [List.length_take]
      omega
    have around : (pos + (bytes.take (cap - pos)).length) % cap = 0 := by
      rw [first, Nat.add_sub_of_le (Nat.le_of_lt inside), Nat.mod_self]
    have low : Ring.Stored cap buf (memcpy buf pos (bytes.take (cap - pos))) pos (bytes.take (cap - pos)) :=
      stored_memcpy (by omega)
    have high : Ring.Stored cap (memcpy buf pos (bytes.take (cap - pos)))
        (memcpy (memcpy buf pos (bytes.take (cap - pos))) 0 (bytes.drop (cap - pos)))
        ((pos + (bytes.take (cap - pos)).length) % cap) (bytes.drop (cap - pos)) := by
      rw [around]
      exact stored_memcpy (by rw [List.length_drop]; omega)
    have both := low.append high (by rw [List.length_drop]; omega)
    rw [List.take_append_drop] at both
    refine ⟨both, ?_⟩
    have behind : (pos + bytes.length) % cap = pos + bytes.length - cap := by
      rw [Nat.mod_eq_sub_mod (by omega), Nat.mod_eq_of_lt (by omega)]
    rw [behind]
    dsimp only
    omega

/-- All copies of a call. -/
theorem stored_writeAll (inside : pos < cap) (small : parts.flatten.length ≤ cap) :
    Ring.Stored cap buf (writeAll cap buf parts pos) pos parts.flatten := by
  induction parts generalizing buf pos with
  | nil => exact ⟨fun i outside => absurd outside (Nat.not_lt_zero i), fun _ _ => rfl⟩
  | cons bytes rest ih =>
    rw [List.flatten_cons, List.length_append] at small
    obtain ⟨first, behind⟩ : Ring.Stored cap buf (writeToBuf cap buf bytes pos).1 pos bytes ∧
        (writeToBuf cap buf bytes pos).2 = (pos + bytes.length) % cap := writeToBuf_spec inside (by omega)
    have next : (writeToBuf cap buf bytes pos).2 < cap := behind ▸ Nat.mod_lt _ (by omega)
    have later : Ring.Stored cap (writeToBuf cap buf bytes pos).1
        (writeAll cap (writeToBuf cap buf bytes pos).1 rest (writeToBuf cap buf bytes pos).2)
        (writeToBuf cap buf bytes pos).2 rest.flatten := ih next (by omega)
    rw [writeAll, List.flatten_cons]
    exact first.append (behind ▸ later) small

/-! ## The positions -/

/-- The positions are in the buffer, and the file and the unflushed part are what was logged. -/
structure Inv (cap : Nat) (log : Log) (logged : List UInt8) : Prop where
  inside : log.spos < cap
  bound : log.epos ≤ cap
  exact : log.file ++ log.unflushed cap = logged

variable {log : Log} {logged : List UInt8}

/-- The next byte goes behind the unflushed part. -/
theorem behind_used (inside : log.spos < cap) : (log.epos % cap + log.used cap) % cap = log.spos := by
  have start : log.epos % cap < cap := Nat.mod_lt _ (by omega)
  rw [Log.used, Nat.add_mod_mod, Nat.add_sub_of_le (by omega), Nat.add_mod_right, Nat.mod_eq_of_lt inside]

/-- What is not unflushed is free. -/
theorem distance_eq (inside : log.spos < cap) (bound : log.epos ≤ cap) :
    distance cap log.spos log.epos = cap - log.used cap := by
  rcases Nat.lt_or_eq_of_le bound with below | top
  · rw [distance, Log.used, Nat.mod_eq_of_lt below]
    by_cases wrapped : log.spos < log.epos
    · rw [if_pos wrapped, Nat.mod_eq_of_lt (by omega)]
      omega
    · rw [if_neg wrapped, Nat.mod_eq_sub_mod (by omega), Nat.mod_eq_of_lt (by omega)]
      omega
  · rw [distance, Log.used, top, Nat.mod_self, if_pos inside, Nat.sub_zero, Nat.add_mod_right, Nat.mod_eq_of_lt inside]

theorem used_straight (inside : log.spos < cap) (straight : log.Straight cap) : log.used cap = log.spos - log.epos % cap := by
  have start : log.epos % cap < log.spos := straight
  rw [Log.used, Nat.mod_eq_sub_mod (by omega), Nat.mod_eq_of_lt (by omega)]
  omega

/-! ## One event -/

theorem Inv.new (positive : 0 < cap) (buf : Nat → UInt8) : Inv cap (Log.new cap buf) [] := by
  refine ⟨positive, Nat.le_refl cap, ?_⟩
  simp [Log.new, Log.unflushed, Log.used, Ring.contents]

/-- A part that does not go around is one slice. -/
theorem contents_straight {start count : Nat} (fits : start + count ≤ cap) : Ring.contents cap buf start count = slice buf start count := by
  rw [Ring.contents, Ring.window, slice, List.map_map]
  refine List.map_congr_left fun i member => ?_
  have below : i < count := List.mem_range.mp member
  rw [Function.comp_apply, Nat.mod_eq_of_lt (by omega)]

theorem used_write (inside : log.spos < cap) : (write cap log).used cap = 0 := by
  rw [write, Log.used, Nat.mod_eq_of_lt inside, Nat.add_sub_cancel_left, Nat.mod_self]

/-- After a flush the whole buffer is free. -/
theorem distance_write (cap : Nat) (log : Log) : distance cap (write cap log).spos (write cap log).epos = cap := by
  rw [write, distance, if_neg (Nat.lt_irrefl _), Nat.add_sub_cancel_left]

/-- A flush of a part that does not go around. -/
theorem Inv.write (h : Inv cap log logged) (straight : log.Straight cap) : Inv cap (write cap log) logged := by
  refine ⟨h.inside, Nat.le_of_lt h.inside, ?_⟩
  have start : log.epos % cap < log.spos := straight
  have flushed : log.unflushed cap = slice log.buf (log.epos % cap) (log.spos - log.epos % cap) := by
    have inside := h.inside
    rw [Log.unflushed, used_straight h.inside straight, contents_straight (by omega)]
  have rest : (Logging.write cap log).unflushed cap = [] := by
    rw [Log.unflushed, used_write h.inside]
    rfl
  rw [rest, List.append_nil, ← h.exact, flushed, Logging.write, if_pos start]

/-- The state after a call that finds enough room at once. -/
def appended (cap : Nat) (log : Log) (parts : List (List UInt8)) : Log :=
  { log with buf := writeAll cap log.buf parts log.spos, spos := (log.spos + parts.flatten.length) % cap }

theorem Inv.appended (h : Inv cap log logged)
    (room : parts.flatten.length < distance cap log.spos log.epos) :
    Inv cap (appended cap log parts) (logged ++ parts.flatten) ∧
      ∀ cell ∈ log.cells cap, (appended cap log parts).buf cell = log.buf cell := by
  rw [distance_eq h.inside h.bound] at room
  have fits : log.used cap + parts.flatten.length ≤ cap := by omega
  have stored : Ring.Stored cap log.buf (Logging.appended cap log parts).buf ((log.epos % cap + log.used cap) % cap) parts.flatten := by
    rw [behind_used h.inside]
    exact stored_writeAll h.inside (by omega)
  have positive : 0 < cap := by omega
  refine ⟨⟨Nat.mod_lt _ positive, h.bound, ?_⟩, stored.keeps fits⟩
  have used : (Logging.appended cap log parts).used cap = log.used cap + parts.flatten.length := by
    have start : log.epos % cap < cap := Nat.mod_lt _ positive
    have sum : (log.spos + parts.flatten.length) % cap + cap - log.epos % cap =
        (log.spos + parts.flatten.length) % cap + (cap - log.epos % cap) := by omega
    rw [← Nat.mod_eq_of_lt (show log.used cap + parts.flatten.length < cap by omega), Logging.appended, Log.used, Log.used]
    dsimp only
    rw [sum, Nat.mod_add_mod, Nat.mod_add_mod]
    congr 1
    omega
  rw [Log.unflushed, used, ← h.exact, List.append_assoc]
  exact congrArg (log.file ++ ·) (stored.contents_add fits)

theorem append_room (room : parts.flatten.length ≤ distance cap log.spos log.epos) :
    append cap (turns + 1) log parts parts.flatten.length = some (appended cap log parts) := by
  rw [append, reserve, if_pos room]
  rfl

/-- Without enough room the call flushes first, and then finds the whole buffer free. -/
theorem append_flush (small : parts.flatten.length < cap)
    (full : distance cap log.spos log.epos < parts.flatten.length) :
    append cap (turns + 2) log parts parts.flatten.length = some (appended cap (write cap log) parts) := by
  have room : parts.flatten.length ≤ distance cap (write cap log).spos (write cap log).epos := by
    rw [distance_write]
    exact Nat.le_of_lt small
  have again : append cap (turns + 1) (write cap log) parts parts.flatten.length = _ := append_room room
  rw [append, reserve, if_neg (Nat.not_le_of_lt full)]
  exact again

/-- A call copies the parts of its record. -/
theorem step_call (cap turns : Nat) (log : Log) {e : Event} (call : e ≠ .flush) :
    ∃ parts, parts.flatten = e.record ∧ step cap turns log e = append cap turns log parts parts.flatten.length := by
  cases e with
  | logWrite addr bytes =>
    refine ⟨[bytesOf 8 addr.toNat, bytesOf 8 bytes.length, bytes], by simp [Event.record], ?_⟩
    rw [step, logWrite]
    congr 1
    simp
    omega
  | logOwner node addr =>
    refine ⟨[bytesOf 8 addr.toNat, bytesOf 8 (ownerId node).toNat], by simp [Event.record], ?_⟩
    rw [step, logOwner]
    simp
  | flush => exact absurd rfl call

/-- A call is admitted by the size of its record. -/
theorem admitted_call {e : Event} (call : e ≠ .flush) (admitted : e.Admitted cap log) :
    e.record.length ≠ distance cap log.spos log.epos ∧ (distance cap log.spos log.epos < e.record.length → log.Straight cap) := by
  cases e with
  | flush => exact absurd rfl call
  | _ => exact admitted

theorem length_file_write (cap : Nat) (log : Log) : (write cap log).file.length =
    log.file.length + if log.epos % cap < log.spos then log.spos - log.epos % cap else cap - log.spos + log.epos % cap := by
  rw [write]
  by_cases straight : log.epos % cap < log.spos <;> simp [straight, slice]

theorem file_write_ne (straight : log.Straight cap) : (write cap log).file ≠ log.file := by
  have start : log.epos % cap < log.spos := straight
  intro same
  have lengths := congrArg List.length same
  rw [length_file_write, if_pos start] at lengths
  omega

/-- An admitted event returns, adds its record, and leaves what is not flushed. -/
theorem Inv.step (h : Inv cap log logged) (enough : 2 ≤ turns) {e : Event} (small : e.record.length < cap)
    (admitted : e.Admitted cap log) : ∃ log', step cap turns log e = some log' ∧ Inv cap log' (logged ++ e.record) ∧
      (log'.file = log.file → ∀ cell ∈ log.cells cap, log'.buf cell = log.buf cell) := by
  obtain ⟨turns, rfl⟩ := Nat.exists_eq_add_of_le' enough
  by_cases flush : e = .flush
  · subst flush
    refine ⟨_, rfl, ?_, fun _ _ _ => rfl⟩
    rw [Event.record, List.append_nil]
    exact h.write admitted
  · obtain ⟨other, straight⟩ := admitted_call flush admitted
    obtain ⟨parts, record, stepped⟩ := step_call cap (turns + 2) log flush
    rw [← record] at small other straight ⊢
    rw [stepped]
    by_cases room : parts.flatten.length ≤ distance cap log.spos log.epos
    · obtain ⟨kept, same⟩ := h.appended (Nat.lt_of_le_of_ne room other)
      exact ⟨_, append_room room, kept, fun _ => same⟩
    · have full := Nat.lt_of_not_le room
      refine ⟨_, append_flush small full, ?_, fun same => absurd same (file_write_ne (straight full))⟩
      have free : parts.flatten.length < distance cap (Logging.write cap log).spos (Logging.write cap log).epos := by
        rw [distance_write]
        exact small
      exact ((h.write (straight full)).appended free).1

/-! ## Runs -/

/-- From a state with the invariant on, admitted events return and add their records. -/
theorem Inv.run (h : Inv cap log logged) (enough : 2 ≤ turns) {events : List Event} (small : ∀ e ∈ events, e.record.length < cap)
    (admitted : AllAdmitted cap turns log events) :
    ∃ log', run cap turns log events = some log' ∧ Inv cap log' (logged ++ (events.map Event.record).flatten) := by
  induction events generalizing log logged with
  | nil => exact ⟨log, rfl, by simpa using h⟩
  | cons e rest ih =>
    obtain ⟨next, stepped, kept, _⟩ := h.step enough (small e List.mem_cons_self) admitted.1
    obtain ⟨final, ran, last⟩ := ih kept (fun e member => small e (List.mem_cons_of_mem _ member)) (admitted.2 next stepped)
    refine ⟨final, ?_, ?_⟩
    · rw [Logging.run, stepped]
      exact ran
    · simpa [List.append_assoc] using last

theorem AllAdmitted.append {first second : List Event} (admitted : AllAdmitted cap turns log (first ++ second)) :
    AllAdmitted cap turns log first ∧ ∀ log', run cap turns log first = some log' → AllAdmitted cap turns log' second := by
  induction first generalizing log with
  | nil =>
    refine ⟨trivial, fun log' same => ?_⟩
    cases same
    exact admitted
  | cons e rest ih =>
    refine ⟨⟨admitted.1, fun next stepped => (ih (admitted.2 next stepped)).1⟩, fun log' ran => ?_⟩
    rw [run, Option.bind_eq_some_iff] at ran
    obtain ⟨next, stepped, later⟩ := ran
    exact (ih (admitted.2 next stepped)).2 log' later

end Gam.Logging

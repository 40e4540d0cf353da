import Gam.Dht.Client

/-!
# The format of entries and buckets

What is written to an entry is read back from it, and a bucket is its ten entries and the address of the
next one.
-/

namespace Gam.Dht

open Function

namespace Entry

/-! ## Entries -/

@[simp] theorem length_bytes (e : Entry) : e.bytes.length = entrySize := by
  rw [bytes, List.length_append, length_bytesOf, length_bytesOf]
  rfl

theorem ofBytes_bytes (e : Entry) (rest : List UInt8) : ofBytes (e.bytes ++ rest) = e := by
  rw [bytes, List.append_assoc, ofBytes, List.take_left' (length_bytesOf ..), List.drop_left' (length_bytesOf ..),
    List.take_left' (length_bytesOf ..), valueOf_bytesOf e.etag.toNat_lt, valueOf_bytesOf e.addr.toNat_lt,
    UInt32.ofNat_toNat, UInt64.ofNat_toNat]

variable {t t' size : UInt32} (addr : UInt64)

/-- The parts of a tag do not overlap. -/
theorem etag_update (small : t.toNat < 2 ^ 11) (short : size.toNat < 2 ^ 20) :
    (update t size addr).etag.toNat = 2 ^ 31 + (t.toNat * 2 ^ 20 + size.toNat) := by
  have low : (size &&& 0xfffff).toNat = size.toNat := by
    rw [UInt32.toNat_and]
    exact (Nat.and_two_pow_sub_one_eq_mod _ 20).trans (Nat.mod_eq_of_lt short)
  have middle : (t <<< 20).toNat = t.toNat <<< 20 := by
    rw [UInt32.toNat_shiftLeft]
    refine Nat.mod_eq_of_lt ?_
    rw [Nat.shiftLeft_eq]
    show t.toNat * 2 ^ 20 < 2 ^ 32
    omega
  have inner : t.toNat <<< 20 ||| size.toNat = t.toNat * 2 ^ 20 + size.toNat := by
    rw [← Nat.shiftLeft_add_eq_or_of_lt short, Nat.shiftLeft_eq]
  have outer : 1 <<< 31 ||| (t.toNat * 2 ^ 20 + size.toNat) = 2 ^ 31 + (t.toNat * 2 ^ 20 + size.toNat) := by
    rw [← Nat.shiftLeft_add_eq_or_of_lt (by omega : t.toNat * 2 ^ 20 + size.toNat < 2 ^ 31), Nat.shiftLeft_eq, Nat.one_mul]
  rw [update, UInt32.or_assoc, UInt32.toNat_or, UInt32.toNat_or, low, middle, inner]
  exact outer

theorem toNat_mask (x : UInt32) : (x &&& 0x7fffffff).toNat = x.toNat % 2 ^ 31 := by
  rw [UInt32.toNat_and]
  exact Nat.and_two_pow_sub_one_eq_mod _ 31

theorem toNat_tag (x : UInt32) : ((x &&& 0x7fffffff) >>> 20).toNat = x.toNat % 2 ^ 31 / 2 ^ 20 := by
  rw [UInt32.toNat_shiftRight, toNat_mask, Nat.shiftRight_eq_div_pow]
  rfl

theorem parse_update (small : t.toNat < 2 ^ 11) (short : size.toNat < 2 ^ 20) : (update t size addr).parse = (t, size, addr) := by
  have etag := etag_update addr small short
  refine Prod.ext ?_ (Prod.ext ?_ rfl)
  · apply UInt32.toNat_inj.mp
    show (((update t size addr).etag &&& 0x7fffffff) >>> 20).toNat = t.toNat
    rw [toNat_tag, etag]
    omega
  · apply UInt32.toNat_inj.mp
    show (((update t size addr).etag &&& 0x7fffffff) &&& 0xfffff).toNat = size.toNat
    rw [UInt32.toNat_and, toNat_mask, etag]
    refine (Nat.and_two_pow_sub_one_eq_mod _ 20).trans ?_
    omega

theorem containTag_update (small : t.toNat < 2 ^ 11) (short : size.toNat < 2 ^ 20) : (update t size addr).containTag = true := by
  have etag := etag_update addr small short
  refine decide_eq_true fun zero => ?_
  rw [zero] at etag
  have positive : (0 : UInt32).toNat = 0 := rfl
  omega

/-- An entry matches its own tag only. -/
theorem matchTag_update (small : t.toNat < 2 ^ 11) (short : size.toNat < 2 ^ 20) : (update t size addr).matchTag t' = decide (t' = t) := by
  have contains := containTag_update addr small short
  have tag := congrArg Prod.fst (parse_update addr small short)
  rw [containTag] at contains
  rw [matchTag, contains, Bool.true_and]
  show decide ((update t size addr).parse.1 = t') = decide (t' = t)
  rw [tag]
  exact decide_eq_decide.mpr eq_comm

/-- An empty entry. -/
def empty : Entry := ⟨0, 0⟩

/-- A removed entry, which carries the tag zero. -/
def removed : Entry := update 0 0 0

end Entry

/-! ## Buckets -/

section Flat

variable {w n j : Nat} {f : Nat → List UInt8}

theorem length_flatMap_range' (width : ∀ i, (f i).length = w) (start : Nat) : ((List.range' start n).flatMap f).length = n * w := by
  rw [List.length_flatMap, List.map_congr_left fun i _ => width i, List.map_const', List.sum_replicate_nat, List.length_range']

/-- The strings before position `j`, and those from it on. -/
theorem flatMap_range_split (f : Nat → List UInt8) (below : j ≤ n) :
    (List.range n).flatMap f = (List.range' 0 j).flatMap f ++ (List.range' j (n - j)).flatMap f := by
  have split : List.range n = List.range' 0 j ++ List.range' j (n - j) := by
    rw [List.range_eq_range', ← Nat.add_sub_of_le below, ← List.range'_append_1, Nat.zero_add, Nat.add_sub_cancel_left]
  rw [split, List.flatMap_append]

theorem take_flatMap_range (width : ∀ i, (f i).length = w) (below : j ≤ n) (rest : List UInt8) :
    ((List.range n).flatMap f ++ rest).take (j * w) = (List.range' 0 j).flatMap f := by
  rw [flatMap_range_split f below, List.append_assoc, List.take_left' (length_flatMap_range' width 0)]

theorem drop_flatMap_range (width : ∀ i, (f i).length = w) (below : j ≤ n) (rest : List UInt8) :
    ((List.range n).flatMap f ++ rest).drop (j * w) = (List.range' j (n - j)).flatMap f ++ rest := by
  rw [flatMap_range_split f below, List.append_assoc, List.drop_left' (length_flatMap_range' width 0)]

end Flat

/-- The bytes of a bucket with the given entries and next bucket. -/
def bucketBytes (entries : Nat → Entry) (next : Nat) : List UInt8 :=
  (List.range bktSlot).flatMap (fun pos => (entries pos).bytes) ++ bytesOf 8 next

variable {entries : Nat → Entry} {nxt pos : Nat}

theorem length_entries (entries : Nat → Entry) : ((List.range bktSlot).flatMap fun pos => (entries pos).bytes).length = entrySize * bktSlot := by
  rw [List.range_eq_range', length_flatMap_range' (fun pos => (entries pos).length_bytes), Nat.mul_comm]

@[simp] theorem length_bucketBytes : (bucketBytes entries nxt).length = bktSize := by
  rw [bucketBytes, List.length_append, length_entries, length_bytesOf]
  rfl

theorem slot_bucketBytes (inside : pos < bktSlot) : slot (bucketBytes entries nxt) pos = entries pos := by
  rw [slot, bucketBytes, drop_flatMap_range (fun pos => (entries pos).length_bytes) inside.le,
    ← Nat.sub_add_cancel (Nat.sub_pos_of_lt inside), List.range'_succ, List.flatMap_cons, List.append_assoc, Entry.ofBytes_bytes]

theorem next_bucketBytes (small : nxt < 2 ^ 64) : next (bucketBytes entries nxt) = nxt := by
  rw [next, bucketBytes, List.drop_left' (length_entries entries), List.take_of_length_le (length_bytesOf ..).le, valueOf_bytesOf small]

theorem setNext_bucketBytes (nxt' : Nat) : setNext (bucketBytes entries nxt) nxt' = bucketBytes entries nxt' := by
  rw [setNext, bucketBytes, List.take_left' (length_entries entries), bucketBytes]

theorem setSlot_bucketBytes (inside : pos < bktSlot) (e : Entry) :
    setSlot (bucketBytes entries nxt) pos e = bucketBytes (update entries pos e) nxt := by
  have width : ∀ (es : Nat → Entry) pos, (es pos).bytes.length = entrySize := fun es pos => (es pos).length_bytes
  have before : ∀ i ∈ List.range' 0 pos, (update entries pos e i).bytes = (entries i).bytes := by
    intro i member
    rw [update_of_ne]
    have := List.mem_range'_1.mp member
    omega
  have after : ∀ i ∈ List.range' (pos + 1) (bktSlot - (pos + 1)), (update entries pos e i).bytes = (entries i).bytes := by
    intro i member
    rw [update_of_ne]
    have := List.mem_range'_1.mp member
    omega
  rw [setSlot, ← Nat.succ_mul, bucketBytes, take_flatMap_range (width entries) inside.le, drop_flatMap_range (width entries) inside,
    bucketBytes, flatMap_range_split (fun i => (update entries pos e i).bytes) inside.le,
    ← Nat.sub_add_cancel (Nat.sub_pos_of_lt inside), List.range'_succ, List.flatMap_cons, update_self,
    List.flatMap_congr before, Nat.sub_sub, List.flatMap_congr after]
  simp only [List.append_assoc]

/-- Memory that is zero is a bucket with empty entries only. -/
theorem bucketBytes_empty : bucketBytes (fun _ => Entry.empty) 0 = List.replicate bktSize 0 := by decide +kernel

/-! ## Where a scan stops -/

variable {stops : Entry → Bool} {bkt : List UInt8}

theorem scan_found (inside : pos < bktSlot) (here : stops (slot bkt pos) = true) (before : ∀ i < pos, stops (slot bkt i) = false) :
    scan stops bkt = pos := by
  have found : (List.range bktSlot).find? (fun pos => stops (slot bkt pos)) = some pos := by
    rw [List.find?_range_eq_some]
    exact ⟨here, List.mem_range.mpr inside, fun i below => by rw [before i below]; rfl⟩
  rw [scan, found]
  rfl

theorem scan_none (nowhere : ∀ i < bktSlot, stops (slot bkt i) = false) : scan stops bkt = bktSlot := by
  have none : (List.range bktSlot).find? (fun pos => stops (slot bkt pos)) = none := by
    rw [List.find?_range_eq_none]
    intro i below
    rw [nowhere i below]
    rfl
  rw [scan, none]
  rfl

end Gam.Dht

import Mathlib.Data.Nat.Digits.Defs
import QuantileMonitor.Ingest.Record

/-!
# Records on the wire

A buffer is taken apart at every sixteenth byte. Each block is a record, which its first four and its last
eight bytes make up; a rest that is shorter than a record is one error at the end. So decoding undoes
encoding, whatever the padding, and buffers of whole records are decoded one after the other.
-/

namespace QuantileMonitor.Ingest

theorem littleEndian_eq_ofDigits (bytes : List UInt8) :
    littleEndian bytes = Nat.ofDigits 256 (bytes.map UInt8.toNat) := by
  induction bytes with
  | nil => rfl
  | cons b bytes ih =>
    rw [List.map_cons, Nat.ofDigits_cons, ← ih]
    rfl

theorem littleEndian_lt (bytes : List UInt8) : littleEndian bytes < 256 ^ bytes.length := by
  rw [littleEndian_eq_ofDigits, ← List.length_map UInt8.toNat]
  refine Nat.ofDigits_lt_base_pow_length (by decide) fun n hn => ?_
  obtain ⟨b, -, rfl⟩ := List.mem_map.mp hn
  exact b.toNat_lt

theorem length_toLittleEndian (n k : Nat) : (toLittleEndian n k).length = k := by
  induction k generalizing n with
  | zero => rfl
  | succ k ih => simp [toLittleEndian, ih]

theorem littleEndian_toLittleEndian (n k : Nat) : littleEndian (toLittleEndian n k) = n % 256 ^ k := by
  induction k generalizing n with
  | zero => simp [toLittleEndian, littleEndian, Nat.mod_one]
  | succ k ih =>
    have hcons : littleEndian (toLittleEndian n (k + 1)) =
        n.toUInt8.toNat + 256 * littleEndian (toLittleEndian (n / 256) k) := rfl
    have hlow : n.toUInt8.toNat = n % 256 := by simp
    rw [hcons, ih, hlow, Nat.pow_succ', Nat.mod_mul]

namespace Record

theorem toNat_entity_ofBytes (bytes : List UInt8) :
    (ofBytes bytes).entity.toNat = littleEndian (bytes.take 4) := by
  have hlt := littleEndian_lt (bytes.take 4)
  have hpow : 256 ^ (bytes.take 4).length ≤ 256 ^ 4 := Nat.pow_le_pow_right (by decide) (by simp)
  exact UInt32.toNat_ofNat_of_lt' (hlt.trans_le hpow)

theorem toNat_elapsed_ofBytes (bytes : List UInt8) :
    (ofBytes bytes).elapsed.toNat = littleEndian ((bytes.drop 8).take 8) := by
  have hlt := littleEndian_lt ((bytes.drop 8).take 8)
  have hpow : 256 ^ ((bytes.drop 8).take 8).length ≤ 256 ^ 8 := Nat.pow_le_pow_right (by decide) (by simp)
  exact UInt64.toNat_ofNat_of_lt' (hlt.trans_le hpow)

theorem ofBytes_congr {bytes other : List UInt8} (hentity : bytes.take 4 = other.take 4)
    (helapsed : (bytes.drop 8).take 8 = (other.drop 8).take 8) : ofBytes bytes = ofBytes other := by
  rw [ofBytes, ofBytes, hentity, helapsed]

theorem ofBytes_append {bytes : List UInt8} (h : size ≤ bytes.length) (more : List UInt8) :
    ofBytes (bytes ++ more) = ofBytes bytes := by
  rw [size] at h
  apply ofBytes_congr
  · rw [List.take_append_of_le_length (by omega)]
  · rw [List.drop_append_of_le_length (by omega), List.take_append_of_le_length (by simp; omega)]

theorem length_toBytes (r : Record) (padding : UInt32) : (r.toBytes padding).length = size := by
  simp [toBytes, length_toLittleEndian, size]

theorem ofBytes_toBytes (r : Record) (padding : UInt32) : ofBytes (r.toBytes padding) = r := by
  have hentity : (r.toBytes padding).take 4 = toLittleEndian r.entity.toNat 4 := by
    rw [toBytes, List.append_assoc, List.take_left' (length_toLittleEndian _ _)]
  have helapsed : ((r.toBytes padding).drop 8).take 8 = toLittleEndian r.elapsed.toNat 8 := by
    rw [toBytes, List.drop_left' (by simp [length_toLittleEndian]),
      List.take_of_length_le (length_toLittleEndian _ _).le]
  have hentity' : r.entity.toNat % 256 ^ 4 = r.entity.toNat := Nat.mod_eq_of_lt r.entity.toNat_lt
  have helapsed' : r.elapsed.toNat % 256 ^ 8 = r.elapsed.toNat := Nat.mod_eq_of_lt r.elapsed.toNat_lt
  rw [ofBytes, hentity, helapsed, littleEndian_toLittleEndian, littleEndian_toLittleEndian, hentity',
    helapsed']
  simp

def leftOver (n : Nat) : List (Except RecordError Record) := if n = 0 then [] else [.error (.trailing n)]

theorem all_of_short {bytes : List UInt8} (h : bytes.length < size) : all bytes = leftOver bytes.length := by
  rw [all, if_pos h, leftOver]
  simp only [List.isEmpty_iff, List.length_eq_zero_iff]

theorem all_of_long {bytes : List UInt8} (h : size ≤ bytes.length) :
    all bytes = .ok (ofBytes bytes) :: all (bytes.drop size) := by
  rw [all, if_neg (Nat.not_lt.mpr h)]

theorem all_eq (bytes : List UInt8) :
    all bytes = ((List.range (bytes.length / size)).map fun i => .ok (ofBytes (bytes.drop (size * i)))) ++
      leftOver (bytes.length % size) := by
  by_cases h : bytes.length < size
  · rw [all_of_short h, Nat.div_eq_of_lt h, Nat.mod_eq_of_lt h]
    rfl
  · rw [Nat.not_lt] at h
    have hdiv : bytes.length / size = (bytes.drop size).length / size + 1 := by
      rw [List.length_drop]
      exact Nat.div_eq_sub_div (by decide) h
    have hmod : bytes.length % size = (bytes.drop size).length % size := by
      rw [List.length_drop]
      exact Nat.mod_eq_sub_mod h
    rw [all_of_long h, all_eq (bytes.drop size), hdiv, hmod, List.range_succ_eq_map]
    simp only [List.map_cons, List.map_map, List.cons_append, Nat.mul_zero, List.drop_zero]
    congr 2
    apply List.map_congr_left
    intro i _
    simp only [Function.comp_apply, List.drop_drop, Nat.mul_succ, Nat.add_comm]
termination_by bytes.length
decreasing_by
  simp only [List.length_drop, size] at *
  omega

theorem all_append {bytes : List UInt8} (h : size ∣ bytes.length) (more : List UInt8) :
    all (bytes ++ more) = all bytes ++ all more := by
  by_cases hshort : bytes.length < size
  · obtain rfl : bytes = [] := List.length_eq_zero_iff.mp (Nat.eq_zero_of_dvd_of_lt h hshort)
    rw [all_of_short hshort]
    rfl
  · rw [Nat.not_lt] at hshort
    have hrest : size ∣ (bytes.drop size).length := by
      rw [List.length_drop]
      exact Nat.dvd_sub h (Nat.dvd_refl size)
    have hlong : size ≤ (bytes ++ more).length := by simp; omega
    rw [all_of_long hlong, all_of_long hshort, ofBytes_append hshort, List.drop_append_of_le_length hshort,
      all_append hrest, List.cons_append]
termination_by bytes.length
decreasing_by
  simp only [List.length_drop, size] at *
  omega

def encode (records : List (Record × UInt32)) : List UInt8 :=
  records.flatMap fun (r, padding) => r.toBytes padding

theorem all_toBytes (r : Record) (padding : UInt32) : all (r.toBytes padding) = [.ok r] := by
  have hlength := length_toBytes r padding
  rw [all_of_long hlength.ge, ofBytes_toBytes, List.drop_of_length_le hlength.le, all_of_short (by decide)]
  rfl

theorem all_encode_append (records : List (Record × UInt32)) (tail : List UInt8) :
    all (encode records ++ tail) = records.map (fun (r, _) => .ok r) ++ all tail := by
  induction records with
  | nil => rfl
  | cons record records ih =>
    obtain ⟨r, padding⟩ := record
    have hwhole : size ∣ (r.toBytes padding).length := by rw [length_toBytes]
    have hcons : encode ((r, padding) :: records) = r.toBytes padding ++ encode records := rfl
    rw [hcons, List.append_assoc, all_append hwhole, all_toBytes, ih]
    rfl

/-- A record whose bytes all lie in the buffer, so many records from its start. -/
structure Stands (bytes : List UInt8) (i : Nat) (r : Record) : Prop where
  inside : size * i + size ≤ bytes.length
  entity : r.entity.toNat =
    Nat.ofDigits 256 ((bytes.extract (size * i) (size * i + 4)).map UInt8.toNat)
  elapsed : r.elapsed.toNat =
    Nat.ofDigits 256 ((bytes.extract (size * i + 8) (size * i + 16)).map UInt8.toNat)

theorem ofBytes_stands {bytes : List UInt8} {i : Nat} (h : i < bytes.length / size) :
    Stands bytes i (ofBytes (bytes.drop (size * i))) where
  inside := by
    have hle := Nat.mul_le_of_le_div size (i + 1) bytes.length h
    rw [Nat.mul_comm, Nat.mul_succ] at hle
    exact hle
  entity := by
    rw [toNat_entity_ofBytes, littleEndian_eq_ofDigits, List.extract_eq_take_drop, Nat.add_sub_cancel_left]
  elapsed := by
    rw [toNat_elapsed_ofBytes, littleEndian_eq_ofDigits, List.drop_drop, List.extract_eq_take_drop]
    simp [Nat.add_sub_add_left]

/-- Buffers of one length that differ in padding only. -/
def SameNumbers (bytes other : List UInt8) : Prop :=
  bytes.length = other.length ∧
    ∀ j < bytes.length, ¬(4 ≤ j % size ∧ j % size < 8) → bytes[j]? = other[j]?

instance (bytes other : List UInt8) : Decidable (SameNumbers bytes other) :=
  inferInstanceAs (Decidable (_ ∧ _))

theorem SameNumbers.ofBytes_eq {bytes other : List UInt8} (h : SameNumbers bytes other) (i : Nat) :
    ofBytes (bytes.drop (size * i)) = ofBytes (other.drop (size * i)) := by
  have hfield : ∀ start count, start + count ≤ 4 ∨ 8 ≤ start ∧ start + count ≤ size →
      ((bytes.drop (size * i)).drop start).take count = ((other.drop (size * i)).drop start).take count := by
    intro start count hrange
    apply List.ext_getElem?
    intro j
    simp only [List.getElem?_take, List.getElem?_drop, List.drop_drop]
    split
    next hj =>
      by_cases hinside : size * i + start + j < bytes.length
      · apply h.2 _ hinside
        simp only [size] at hrange ⊢
        omega
      · rw [List.getElem?_eq_none (Nat.not_lt.mp hinside),
          List.getElem?_eq_none (h.1 ▸ Nat.not_lt.mp hinside)]
    next => rfl
  apply ofBytes_congr
  · exact hfield 0 4 (by decide)
  · exact hfield 8 8 (by decide)

theorem SameNumbers.all_eq {bytes other : List UInt8} (h : SameNumbers bytes other) : all bytes = all other := by
  rw [Record.all_eq bytes, Record.all_eq other, h.1]
  simp only [h.ofBytes_eq]

/-- Decoding finds every whole record where it stands and tells of the rest. It undoes encoding, padding does
not matter to it, and it goes on after whole records as if they were not there. A single record is the first
of all, and is there if and only if the buffer is long enough. -/
theorem decoding_undoes_encoding :
    (∀ bytes, ∃ records : List Record, all bytes = records.map .ok ++ leftOver (bytes.length % size) ∧
      records.length = bytes.length / size ∧ ∀ i (h : i < records.length), Stands bytes i records[i]) ∧
    (∀ bytes other, SameNumbers bytes other → all bytes = all other) ∧
    (∀ records tail, tail.length < size →
      all (encode records ++ tail) = records.map (fun (r, _) => .ok r) ++ leftOver tail.length) ∧
    (∀ bytes more, size ∣ bytes.length → all (bytes ++ more) = all bytes ++ all more) ∧
    ∀ bytes, (size ≤ bytes.length → ∃ r, first bytes = .ok r ∧ (all bytes).head? = some (.ok r)) ∧
      (bytes.length < size → first bytes = .error (.truncated bytes.length)) := by
  refine ⟨fun bytes => ?_, fun bytes other h => h.all_eq, fun records tail h => ?_,
    fun bytes more h => all_append h more, fun bytes => ⟨fun h => ?_, fun h => ?_⟩⟩
  · refine ⟨(List.range (bytes.length / size)).map fun i => ofBytes (bytes.drop (size * i)), ?_, by simp, ?_⟩
    · rw [all_eq, List.map_map]
      rfl
    · intro i hi
      rw [List.getElem_map, List.getElem_range]
      exact ofBytes_stands (by simpa using hi)
  · rw [all_encode_append, all_of_short h]
  · exact ⟨ofBytes bytes, if_neg (Nat.not_lt.mpr h), by rw [all_of_long h]; rfl⟩
  · exact if_pos h

def pair : List (Record × UInt32) := [(⟨0x10300001, 123456⟩, 0xdeadbeef), (⟨7, 9⟩, 0)]

def repadded : List (Record × UInt32) := [(⟨0x10300001, 123456⟩, 1), (⟨7, 9⟩, 0xffffffff)]

theorem decoding_undoes_encoding_pair :
    all (encode pair ++ [1, 2, 3, 4, 5]) = [.ok ⟨0x10300001, 123456⟩, .ok ⟨7, 9⟩, .error (.trailing 5)] ∧
      all (encode repadded) = all (encode pair) ∧
      all (encode pair ++ encode repadded) = all (encode pair) ++ all (encode pair) ∧
      (∃ r, first (encode pair) = .ok r ∧ (all (encode pair)).head? = some (.ok r)) ∧
      first [1, 2, 3, 4, 5] = .error (.truncated 5) := by
  obtain ⟨-, hsame, htail, happend, hfirst⟩ := decoding_undoes_encoding
  have hpadding : all (encode repadded) = all (encode pair) := hsame _ _ (by decide)
  refine ⟨htail pair _ (by decide), hpadding, ?_, (hfirst (encode pair)).1 (by decide), ?_⟩
  · rw [happend _ _ (by decide), hpadding]
  · exact (hfirst [1, 2, 3, 4, 5]).2 (by decide)

end Record

end QuantileMonitor.Ingest

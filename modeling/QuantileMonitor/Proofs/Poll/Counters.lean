import QuantileMonitor.Poll.Depth
import QuantileMonitor.Proofs.Text.Numeral

/-!
# The two counters of a depth file

The file holds two numerals with blanks between them and around them, as UTF-8 text. Just these bytes have a
depth, the sum of the counters up to the largest value; all others count as depth 0.
-/

namespace QuantileMonitor.Poll

open Text

/-- The text of two counters, each of them a word of 64 bits. -/
def Counters (text : List Char) (reads writes : Nat) : Prop :=
  ∃ before first between second after, text = before ++ first ++ between ++ second ++ after ∧
    Blank before ∧ Numeral first reads ∧ Blank between ∧ between ≠ [] ∧ Numeral second writes ∧ Blank after ∧
    reads < Word.bound ∧ writes < Word.bound

def Holds (bytes : ByteArray) (reads writes : Nat) : Prop :=
  ∃ text : List Char, bytes = text.utf8Encode ∧ Counters text reads writes

variable {text : List Char} {bytes : ByteArray} {reads writes reads' writes' : Nat}

theorem counters_iff : Counters text reads writes ↔ ∃ first second, fields text = [first, second] ∧
    unsigned? Word.bound first = some reads ∧ unsigned? Word.bound second = some writes := by
  simp only [unsigned?_eq_some_iff, fields_eq_pair_iff]
  constructor
  · rintro ⟨before, first, between, second, after, htext, hbefore, hfirst, hbetween, hne, hsecond, hafter,
      hreads, hwrites⟩
    exact ⟨first, second, ⟨before, between, after, htext, hbefore, hfirst.solid, hbetween, hne,
      hsecond.solid, hafter⟩, ⟨hfirst, hreads⟩, hsecond, hwrites⟩
  · rintro ⟨first, second, ⟨before, between, after, htext, hbefore, -, hbetween, hne, -, hafter⟩,
      ⟨hfirst, hreads⟩, hsecond, hwrites⟩
    exact ⟨before, first, between, second, after, htext, hbefore, hfirst, hbetween, hne, hsecond, hafter,
      hreads, hwrites⟩

theorem Counters.depthOfText (h : Counters text reads writes) :
    depthOfText text = Word.addSat reads writes := by
  obtain ⟨first, second, hfields, hfirst, hsecond⟩ := counters_iff.mp h
  rw [Poll.depthOfText, hfields]
  dsimp only
  rw [hfirst, hsecond]

theorem depthOfText_of_no_counters (h : ∀ reads writes, ¬Counters text reads writes) :
    depthOfText text = 0 := by
  rw [depthOfText]
  split
  next first second hfields =>
    split
    next reads writes hfirst hsecond =>
      exact absurd (counters_iff.mpr ⟨first, second, hfields, hfirst, hsecond⟩) (h reads writes)
    next => rfl
  next => rfl

theorem Counters.unique (h : Counters text reads writes) (h' : Counters text reads' writes') :
    reads = reads' ∧ writes = writes' := by
  obtain ⟨first, second, hfields, hfirst, hsecond⟩ := counters_iff.mp h
  obtain ⟨first', second', hfields', hfirst', hsecond'⟩ := counters_iff.mp h'
  rw [hfields] at hfields'
  cases hfields'
  rw [hfirst] at hfirst'
  rw [hsecond] at hsecond'
  exact ⟨Option.some.inj hfirst', Option.some.inj hsecond'⟩

theorem utf8Encode_injective {text' : List Char} (h : text.utf8Encode = text'.utf8Encode) : text = text' := by
  rw [← String.toByteArray_ofList, ← String.toByteArray_ofList, String.toByteArray_inj] at h
  exact String.ofList_injective h

theorem depthOfBytes_utf8Encode (text : List Char) : depthOfBytes text.utf8Encode = depthOfText text := by
  have hread : String.fromUTF8? text.utf8Encode = some (String.ofList text) := by
    rw [String.fromUTF8?, dif_pos ByteArray.isValidUTF8_utf8Encode, Option.some.injEq,
      ← String.toByteArray_inj, String.toByteArray_ofList]
    rfl
  rw [depthOfBytes, hread]
  dsimp only
  rw [String.toList_ofList]

theorem depthOfBytes_of_invalid (h : ¬bytes.IsValidUTF8) : depthOfBytes bytes = 0 := by
  have hread : String.fromUTF8? bytes = none := by rw [String.fromUTF8?, dif_neg h]
  rw [depthOfBytes, hread]

theorem holds_utf8Encode_iff : Holds text.utf8Encode reads writes ↔ Counters text reads writes := by
  constructor
  · rintro ⟨text', htext, h⟩
    rwa [utf8Encode_injective htext]
  · intro h
    exact ⟨text, rfl, h⟩

theorem Holds.unique (h : Holds bytes reads writes) (h' : Holds bytes reads' writes') :
    reads = reads' ∧ writes = writes' := by
  obtain ⟨text, rfl, hcounters⟩ := h
  exact hcounters.unique (holds_utf8Encode_iff.mp h')

theorem Holds.depthOfBytes (h : Holds bytes reads writes) :
    depthOfBytes bytes = Word.addSat reads writes := by
  obtain ⟨text, rfl, hcounters⟩ := h
  rw [depthOfBytes_utf8Encode, hcounters.depthOfText]

theorem depthOfBytes_of_no_counters (h : ∀ reads writes, ¬Holds bytes reads writes) :
    depthOfBytes bytes = 0 := by
  by_cases hvalid : bytes.IsValidUTF8
  · obtain ⟨text, rfl⟩ := hvalid
    rw [depthOfBytes_utf8Encode]
    exact depthOfText_of_no_counters fun reads writes hcounters =>
      h reads writes (holds_utf8Encode_iff.mpr hcounters)
  · exact depthOfBytes_of_invalid hvalid

theorem exists_holds (h : depthOfBytes bytes ≠ 0) : ∃ reads writes, Holds bytes reads writes := by
  by_contra hnone
  push Not at hnone
  exact h (depthOfBytes_of_no_counters hnone)

/-- The depth of any bytes: that of their counters if they hold two, and 0 if not. -/
theorem depth_of_counters (bytes : ByteArray) :
    (∀ reads writes, Holds bytes reads writes → depthOfBytes bytes = min (reads + writes) Word.top) ∧
      ((∀ reads writes, ¬Holds bytes reads writes) → depthOfBytes bytes = 0) :=
  ⟨fun _ _ h => h.depthOfBytes, depthOfBytes_of_no_counters⟩

theorem depth_of_counters_edges :
    Holds " +3\u00a018446744073709551615\n".toList.utf8Encode 3 18446744073709551615 ∧
      depthOfBytes " +3\u00a018446744073709551615\n".toList.utf8Encode = 18446744073709551615 ∧
      (∀ reads writes, ¬Holds "-1 2\n".toList.utf8Encode reads writes) ∧
      depthOfBytes "-1 2\n".toList.utf8Encode = 0 := by
  have hholds : Holds " +3\u00a018446744073709551615\n".toList.utf8Encode 3 18446744073709551615 :=
    holds_utf8Encode_iff.mpr (counters_iff.mpr
      ⟨"+3".toList, "18446744073709551615".toList, by decide +kernel, by decide +kernel, by decide +kernel⟩)
  have hnone : ∀ reads writes, ¬Holds "-1 2\n".toList.utf8Encode reads writes := by
    intro reads writes h
    obtain ⟨first, second, hfields, hfirst, -⟩ := counters_iff.mp (holds_utf8Encode_iff.mp h)
    have htwo : fields "-1 2\n".toList = ["-1".toList, "2".toList] := by decide +kernel
    rw [htwo] at hfields
    cases hfields
    have hminus : unsigned? Word.bound "-1".toList = none := by decide +kernel
    rw [hminus] at hfirst
    cases hfirst
  exact ⟨hholds, (depth_of_counters _).1 _ _ hholds, hnone, (depth_of_counters _).2 hnone⟩

end QuantileMonitor.Poll

import QuantileMonitor.Proofs.Quantile.Contents

/-!
# Merged sketches

A merge holds what both sketches hold. As no bucket is kept for a key that was never added, what a sketch
holds determines it up to order: it is the same sketch in whatever way its values came together.
-/

namespace QuantileMonitor.Quantile

namespace Bins

variable {b other : Bins}

def Filled (b : Bins) : Prop := ∀ k : Nat, b[k]? ≠ some 0

theorem filled_empty : Filled empty := by
  intro k
  simp [empty]

theorem Filled.add (h : b.Filled) (k : Nat) {n : Nat} (hn : 0 < n) : (b.add k n).Filled := by
  intro j
  rw [getElem?_add]
  by_cases hj : k = j
  · simp [hj]
    omega
  · simpa [hj] using h j

theorem Filled.foldl_add (h : b.Filled) {counts : List (Nat × Nat)} (hcounts : ∀ e ∈ counts, 0 < e.2) :
    (counts.foldl (fun b e => b.add e.1 e.2) b).Filled := by
  induction counts generalizing b with
  | nil => exact h
  | cons e counts ih =>
    obtain ⟨hfirst, hrest⟩ := List.forall_mem_cons.mp hcounts
    exact ih (h.add e.1 hfirst) hrest

theorem union_eq_foldl (b other : Bins) :
    b.union other = other.toList.foldl (fun b e => b.add e.1 e.2) b := by
  rw [union, Std.ExtTreeMap.foldl_eq_foldl_toList]

theorem Filled.union (hb : b.Filled) (hother : other.Filled) : (b.union other).Filled := by
  rw [union_eq_foldl]
  refine hb.foldl_add fun e he => Nat.pos_of_ne_zero fun hzero => hother e.1 ?_
  have hentry := Std.ExtTreeMap.mem_toList_iff_getElem?_eq_some.mp he
  rw [hentry, hzero]

theorem spread_foldl_add (b : Bins) (counts : List (Nat × Nat)) :
    (counts.foldl (fun b e => b.add e.1 e.2) b).spread.Perm (b.spread ++ expand counts) := by
  induction counts generalizing b with
  | nil => simp [expand]
  | cons e counts ih =>
    obtain ⟨k, n⟩ := e
    rw [List.foldl_cons, expand_cons, ← List.append_assoc]
    exact (ih (b.add k n)).trans
      (((spread_add b k n).trans List.perm_append_comm).append_right (expand counts))

theorem spread_union (b other : Bins) : (b.union other).spread.Perm (b.spread ++ other.spread) := by
  rw [union_eq_foldl]
  exact spread_foldl_add b other.toList

theorem Filled.getElem?_eq (h : b.Filled) (k : Nat) :
    b[k]? = if b.countOf k = 0 then none else some (b.countOf k) := by
  rw [countOf, Std.ExtTreeMap.getD_eq_getD_getElem?]
  cases hentry : b[k]? with
  | none => rfl
  | some n =>
    have hn : n ≠ 0 := by
      rintro rfl
      exact h k hentry
    simp [hn]

theorem Filled.eq_of_perm (hb : b.Filled) (hother : other.Filled) (h : b.spread.Perm other.spread) :
    b = other := by
  refine Std.ExtTreeMap.ext_getElem? fun k => ?_
  have hcount : b.countOf k = other.countOf k := by
    rw [← count_spread, ← count_spread, h.count_eq]
  rw [hb.getElem?_eq, hother.getElem?_eq, hcount]

end Bins

theorem positives_append (values others : List Nat) :
    positives (values ++ others) = positives values ++ positives others := List.filter_append ..

theorem ranked_eq_of_perm {values others : List Nat} (h : values.Perm others) :
    ranked values = ranked others :=
  ranked_eq (ranked_ascending others) ((ranked_perm others).trans h.symm)

theorem min?_eq_of_perm {values others : List Nat} (h : values.Perm others) :
    values.min? = others.min? := by
  rw [← ranked_getElem?_first, ← ranked_getElem?_first, ranked_eq_of_perm h]

theorem max?_eq_of_perm {values others : List Nat} (h : values.Perm others) :
    values.max? = others.max? := by
  rw [← ranked_getElem?_last, ← ranked_getElem?_last, ranked_eq_of_perm h, h.length_eq]

theorem max?_append (values others : List Nat) :
    (values ++ others).max?.getD 0 = max (values.max?.getD 0) (others.max?.getD 0) := by
  induction others using List.reverseRecOn with
  | nil => simp
  | append_singleton others v ih =>
    rw [← List.append_assoc, max?_concat, max?_concat, Option.getD_some, Option.getD_some, ih,
      Nat.max_assoc]

namespace Sketch

variable {key : Nat → Nat} {s t : Sketch} {values others : List Nat}

theorem lesser_assoc (a b c : Option Nat) : lesser (lesser a b) c = lesser a (lesser b c) := by
  cases a <;> cases b <;> cases c <;> simp [lesser, Nat.min_assoc]

theorem min?_append (values others : List Nat) :
    (values ++ others).min? = lesser values.min? others.min? := by
  induction others using List.reverseRecOn with
  | nil =>
    rw [List.append_nil]
    cases values.min? <;> rfl
  | append_singleton others v ih =>
    rw [← List.append_assoc, ← lesser_min?, ← lesser_min?, ih, lesser_assoc]

theorem Holds.merge (hs : Holds key s values) (ht : Holds key t others) :
    Holds key (s.merge t) (values ++ others) where
  count := by rw [Sketch.merge, hs.count, ht.count, List.length_append]
  zeros := by rw [Sketch.merge, hs.zeros, ht.zeros, List.count_append]
  keys := by
    rw [positives_append, List.map_append]
    exact (Bins.spread_union s.bins t.bins).trans (hs.keys.append ht.keys)
  least := by rw [Sketch.merge, hs.least, ht.least, positives_append, min?_append]
  greatest := by rw [Sketch.merge, hs.greatest, ht.greatest, max?_append]

theorem copy_eq (s : Sketch) : s.copy = s := by
  rw [copy, Bins.empty_union]

/-- A sketch of some values, with no bucket that they do not need. -/
structure Tallies (key : Nat → Nat) (s : Sketch) (values : List Nat) : Prop extends
    Holds key s values where
  filled : s.bins.Filled

theorem empty_tallies (key : Nat → Nat) : Tallies key empty [] := ⟨empty_holds key, Bins.filled_empty⟩

namespace Tallies

theorem insert (h : Tallies key s values) (v : Nat) :
    Tallies key (s.insert key v) (values ++ [v]) := by
  refine ⟨h.toHolds.insert v, ?_⟩
  rw [Sketch.insert]
  by_cases hv : v = 0
  · rw [if_pos hv]
    exact h.filled
  · rw [if_neg hv]
    exact h.filled.add (key v) Nat.one_pos

theorem merge (hs : Tallies key s values) (ht : Tallies key t others) :
    Tallies key (s.merge t) (values ++ others) :=
  ⟨hs.toHolds.merge ht.toHolds, hs.filled.union ht.filled⟩

theorem foldl_insert (h : Tallies key s values) (more : List Nat) :
    Tallies key (more.foldl (Sketch.insert key) s) (values ++ more) := by
  induction more generalizing s values with
  | nil => simpa using h
  | cons v more ih =>
    rw [List.append_cons]
    exact ih (h.insert v)

theorem unique (hs : Tallies key s values) (ht : Tallies key t others) (h : values.Perm others) :
    s = t := by
  have hpositives : (positives values).Perm (positives others) := h.filter _
  have hbins : s.bins = t.bins := by
    refine hs.filled.eq_of_perm ht.filled (hs.keys.trans ?_)
    exact (hpositives.map key).trans ht.keys.symm
  have hcount : s.count = t.count := by rw [hs.count, ht.count, h.length_eq]
  have hzeros : s.zeros = t.zeros := by rw [hs.zeros, ht.zeros, h.count_eq]
  have hleast : s.least = t.least := by rw [hs.least, ht.least, min?_eq_of_perm hpositives]
  have hgreatest : s.greatest = t.greatest := by rw [hs.greatest, ht.greatest, max?_eq_of_perm h]
  rcases s with ⟨bins, zeros, count, least, greatest⟩
  rcases t with ⟨bins', zeros', count', least', greatest'⟩
  simp only at hbins hcount hzeros hleast hgreatest
  rw [hbins, hcount, hzeros, hleast, hgreatest]

end Tallies

end Sketch

end QuantileMonitor.Quantile

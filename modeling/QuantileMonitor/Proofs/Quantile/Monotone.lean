import QuantileMonitor.Proofs.Quantile.Accuracy

/-!
# When quantiles ascend

The smallest and the largest positive value answer for themselves, while the ranks between them are
answered with the numbers of buckets, and such a number may lie beyond either extreme. So the quantiles
of a sketch ascend exactly if no bucket that answers does so, and in any case up to the factor of its
accuracy.
-/

namespace QuantileMonitor.Quantile

theorem index_mono {p q : Rat} (hpq : p ≤ q) (count : Nat) : index p count ≤ index q count :=
  Nat.floor_le_floor (mul_le_mul_of_nonneg_right hpq (Nat.cast_nonneg _))

theorem index_share {i count : Nat} (hi : i < count) :
    0 ≤ (i : Rat) / (count - 1 : Nat) ∧ (i : Rat) / (count - 1 : Nat) ≤ 1 ∧
      index ((i : Rat) / (count - 1 : Nat)) count = i := by
  have hle : (i : Rat) ≤ (count - 1 : Nat) := by exact_mod_cast Nat.le_sub_one_of_lt hi
  refine ⟨by positivity, div_le_one_of_le₀ hle (Nat.cast_nonneg _), ?_⟩
  rw [index]
  by_cases hlast : count - 1 = 0
  · have hzero : i = 0 := by omega
    simp [hlast, hzero]
  · have hne : ((count - 1 : Nat) : Rat) ≠ 0 := by exact_mod_cast hlast
    rw [div_mul_cancel₀ _ hne, Nat.floor_natCast]

structure Grid.Ascending (g : Grid Rat) : Prop where
  key : ∀ v w, 0 < v → v ≤ w → g.key v ≤ g.key w
  value : ∀ j k, j ≤ k → g.value j ≤ g.value k
  nonneg : ∀ k, 0 ≤ g.value k

theorem Grid.geometric_ascending {factor : Rat} (h : 1 < factor) : (geometric factor).Ascending := by
  have hcentre : 0 ≤ 2 / (1 + factor) := div_nonneg (by norm_num) (by linarith)
  refine ⟨fun v w _ => key_mono h, ?_, ?_⟩
  · intro j k hjk
    exact mul_le_mul_of_nonneg_right (pow_le_pow_right₀ h.le hjk) hcentre
  · intro k
    exact mul_nonneg (pow_nonneg (by linarith) k) hcentre

namespace Sketch

def reading (g : Grid Rat) (values : List Nat) (i v : Nat) : Rat :=
  if i ≤ values.count 0 ∨ i + 1 = values.length then (v : Rat) else g.value (g.key v)

/-- No bucket that answers for an inner rank has a number beyond the smallest or the largest positive
value by more than a factor. -/
def Framed (g : Grid Rat) (factor : Rat) (values : List Nat) : Prop :=
  ∀ i v, values.count 0 < i → i + 1 < values.length → (ranked values)[i]? = some v →
    ∀ least ∈ (positives values).min?, ∀ greatest ∈ values.max?,
      (least : Rat) ≤ factor * g.value (g.key v) ∧ g.value (g.key v) ≤ factor * greatest

section Ascent

variable {g : Grid Rat} {s : Sketch} {values : List Nat} {factor : Rat}

theorem reading_of_border {i : Nat} (h : i ≤ values.count 0 ∨ i + 1 = values.length) (v : Nat) :
    reading g values i v = v := if_pos h

theorem reading_of_inner {i : Nat} (h : ¬(i ≤ values.count 0 ∨ i + 1 = values.length)) (v : Nat) :
    reading g values i v = g.value (g.key v) := if_neg h

theorem mem_positives_of_inner {i v : Nat} (hi : values.count 0 ≤ i)
    (hv : (ranked values)[i]? = some v) : v ∈ positives values := by
  rw [ranked_getElem?_positive hi] at hv
  exact mem_ranked.mp (List.mem_of_getElem? hv)

theorem Framed.reading_le (h : Framed g factor values) (hfactor : 1 ≤ factor) (hg : g.Ascending)
    {i j v w : Nat} (hij : i ≤ j) (hv : (ranked values)[i]? = some v)
    (hw : (ranked values)[j]? = some w) :
    reading g values i v ≤ factor * reading g values j w := by
  have hvw : (v : Rat) ≤ w := by exact_mod_cast ranked_le hij hv hw
  have hj : j < values.length := by
    rw [← length_ranked]
    exact (List.getElem?_eq_some_iff.mp hw).1
  have hne : values ≠ [] := List.ne_nil_of_length_pos (Nat.zero_lt_of_lt hj)
  by_cases hi : i ≤ values.count 0 ∨ i + 1 = values.length
  · rw [reading_of_border hi]
    by_cases hborder : j ≤ values.count 0 ∨ j + 1 = values.length
    · rw [reading_of_border hborder]
      exact hvw.trans (le_mul_of_one_le_left (Nat.cast_nonneg w) hfactor)
    · -- The lower rank is one of those up to the smallest positive value.
      rw [reading_of_inner hborder]
      obtain ⟨least, hleast, hfirst⟩ := exists_least (by omega : values.count 0 < values.length)
      obtain ⟨greatest, hgreatest⟩ := exists_greatest hne
      have hvl : (v : Rat) ≤ least := by exact_mod_cast ranked_le (by omega) hv hfirst
      exact hvl.trans (h j w (by omega) (by omega) hw least hleast greatest hgreatest).1
  · rw [reading_of_inner hi]
    by_cases hborder : j ≤ values.count 0 ∨ j + 1 = values.length
    · rw [reading_of_border hborder]
      have hend : j = values.length - 1 := by omega
      rw [hend, ranked_getElem?_last] at hw
      obtain ⟨least, hleast, -⟩ := exists_least (by omega : values.count 0 < values.length)
      exact (h i v (by omega) (by omega) hv least hleast w hw).2
    · rw [reading_of_inner hborder]
      have hpos := (mem_positives.mp (mem_positives_of_inner (by omega) hv)).2
      have hkeys := hg.key v w hpos (ranked_le hij hv hw)
      exact (hg.value _ _ hkeys).trans (le_mul_of_one_le_left (hg.nonneg _) hfactor)

theorem quantile_of_count_zero (g : Grid Rat) (h : s.count = 0) (q : Rat) :
    s.quantile g q = none := if_pos h

variable (h : Holds g.key s values) (hg : g.Ascending)
include h hg

theorem Holds.quantile_reading (hvalues : values ≠ []) {q : Rat} (hq0 : 0 ≤ q) (hq1 : q ≤ 1) :
    s.quantile g q = (ranked values)[index q values.length]?.map
      (reading g values (index q values.length)) := by
  refine h.quantile_eq (fun v hv w _ hvw => ?_) hvalues hq0 hq1
  exact hg.key v w (mem_positives.mp hv).2 hvw

theorem Holds.quantile_share {i v : Nat} (hv : (ranked values)[i]? = some v) :
    s.quantile g ((i : Rat) / (values.length - 1 : Nat)) = some (reading g values i v) := by
  have hi : i < values.length := by
    rw [← length_ranked]
    exact (List.getElem?_eq_some_iff.mp hv).1
  obtain ⟨h0, h1, hindex⟩ := index_share hi
  have hne : values ≠ [] := List.ne_nil_of_length_pos (Nat.zero_lt_of_lt hi)
  rw [h.quantile_reading hg hne h0 h1, hindex, hv, Option.map_some]

theorem Holds.ascends_iff (hfactor : 1 ≤ factor) :
    (∀ p q : Rat, 0 ≤ p → p ≤ q → q ≤ 1 → ∀ r ∈ s.quantile g p, ∀ t ∈ s.quantile g q,
      r ≤ factor * t) ↔ Framed g factor values := by
  constructor
  · intro hascends i v hi hend hv least hleast greatest hgreatest
    -- An inner rank is asked against the first positive rank and against the last rank.
    obtain ⟨m, hm, hfirst⟩ := exists_least (by omega : values.count 0 < values.length)
    obtain rfl : m = least := Option.some.inj (hm.symm.trans hleast)
    have hlast : (ranked values)[values.length - 1]? = some greatest :=
      (ranked_getElem?_last values).trans hgreatest
    have hinner := h.quantile_share hg hv
    rw [reading_of_inner (by omega)] at hinner
    have hlow := h.quantile_share hg hfirst
    rw [reading_of_border (by omega)] at hlow
    have hhigh := h.quantile_share hg hlast
    rw [reading_of_border (by omega)] at hhigh
    have hshare : ∀ {a b : Nat}, a ≤ b →
        (a : Rat) / (values.length - 1 : Nat) ≤ (b : Rat) / (values.length - 1 : Nat) :=
      fun hab => div_le_div_of_nonneg_right (by exact_mod_cast hab) (Nat.cast_nonneg _)
    obtain ⟨hzero, -, -⟩ := index_share (by omega : values.count 0 < values.length)
    obtain ⟨hi0, hi1, -⟩ := index_share (by omega : i < values.length)
    obtain ⟨-, hone, -⟩ := index_share (by omega : values.length - 1 < values.length)
    exact ⟨hascends _ _ hzero (hshare hi.le) hi1 _ hlow _ hinner,
      hascends _ _ hi0 (hshare (by omega)) hone _ hinner _ hhigh⟩
  · intro hframed p q hp hpq hq r hr t ht
    have hne : values ≠ [] := by
      rintro rfl
      rw [quantile_of_count_zero g h.count] at hr
      cases hr
    rw [h.quantile_reading hg hne hp (hpq.trans hq)] at hr
    rw [h.quantile_reading hg hne (hp.trans hpq) hq] at ht
    obtain ⟨v, hv, rfl⟩ := Option.map_eq_some_iff.mp hr
    obtain ⟨w, hw, rfl⟩ := Option.map_eq_some_iff.mp ht
    exact hframed.reading_le hfactor hg (index_mono hpq _) hv hw

theorem Holds.quantile_mem_range
    (hascends : ∀ p q : Rat, 0 ≤ p → p ≤ q → q ≤ 1 → ∀ r ∈ s.quantile g p, ∀ t ∈ s.quantile g q,
      r ≤ t) {q : Rat} (hq0 : 0 ≤ q) (hq1 : q ≤ 1) :
    ∀ r ∈ s.quantile g q, ∀ least ∈ values.min?, ∀ greatest ∈ values.max?,
      (least : Rat) ≤ r ∧ r ≤ greatest := by
  intro r hr least hleast greatest hgreatest
  have hfirst : (ranked values)[0]? = some least := (ranked_getElem?_first values).trans hleast
  have hlast : (ranked values)[values.length - 1]? = some greatest :=
    (ranked_getElem?_last values).trans hgreatest
  have hlength : 0 < values.length := by
    rw [← length_ranked]
    exact (List.getElem?_eq_some_iff.mp hfirst).1
  have hlow := h.quantile_share hg hfirst
  rw [reading_of_border (by omega), Nat.cast_zero, zero_div] at hlow
  have hhigh := h.quantile_share hg hlast
  rw [reading_of_border (by omega)] at hhigh
  by_cases hone : values.length - 1 = 0
  · -- A single value answers every quantile.
    have hindex : index q values.length = 0 := by
      have := index_lt hq1 hlength
      omega
    have hsame : least = greatest := by
      rw [hone] at hlast
      exact Option.some.inj (hfirst.symm.trans hlast)
    rw [h.quantile_reading hg (List.ne_nil_of_length_pos hlength) hq0 hq1, hindex, hfirst,
      Option.map_some, reading_of_border (by omega)] at hr
    obtain rfl := Option.some.inj hr
    exact ⟨le_refl _, by rw [hsame]⟩
  · have hne : ((values.length - 1 : Nat) : Rat) ≠ 0 := by exact_mod_cast hone
    rw [div_self hne] at hhigh
    exact ⟨hascends 0 q (le_refl 0) hq0 hq1 _ hlow r hr,
      hascends q 1 hq0 hq1 (le_refl 1) r hr _ hhigh⟩

end Ascent

theorem framed_of_accurate {g : Grid Rat} {alpha : Rat} (halpha : 0 < alpha)
    (hnear : ∀ v : Nat, 0 < v → (v : Rat) * (1 - innerAccuracy alpha) ≤ g.value (g.key v) ∧
      g.value (g.key v) ≤ (v : Rat) * (1 + innerAccuracy alpha)) (values : List Nat) :
    Framed g (1 + alpha) values := by
  intro i v hi _ hv least hleast greatest hgreatest
  have hone : 0 < 1 + alpha := by linarith
  have hmem := mem_positives.mp (mem_positives_of_inner hi.le hv)
  obtain ⟨hlow, hhigh⟩ := hnear v hmem.2
  obtain ⟨hlow, hhigh⟩ := within_of_near halpha (Nat.cast_nonneg v) hlow hhigh
  rw [div_le_iff₀' hone] at hlow
  have hleast' : (least : Rat) ≤ v := by
    exact_mod_cast (List.min?_eq_some_iff.mp hleast).2 v (mem_positives.mpr hmem)
  have hgreatest' : (v : Rat) ≤ greatest := by
    exact_mod_cast (List.max?_eq_some_iff.mp hgreatest).2 v hmem.1
  refine ⟨hleast'.trans hlow, hhigh.trans ?_⟩
  rw [mul_comm]
  exact mul_le_mul_of_nonneg_left hgreatest' hone.le

/-- A sketch that holds a value answers every quantile. The answers ascend up to the factor of its
accuracy, and they ascend and lie between the smallest and the largest value exactly if no bucket that
answers for an inner rank has its number beyond the smallest or the largest positive value. -/
theorem run_quantile_ascends_iff {alpha : Rat} (halpha : 0 < alpha) (changes : List Change) :
    let g := Grid.geometric (1 + growth (innerAccuracy alpha))
    let s := run g.key changes
    let values := Change.latest changes
    (∀ q : Rat, 0 ≤ q → q ≤ 1 → ((s.quantile g q).isSome ↔ values ≠ [])) ∧
      (∀ p q : Rat, 0 ≤ p → p ≤ q → q ≤ 1 → ∀ r ∈ s.quantile g p, ∀ t ∈ s.quantile g q,
        r ≤ (1 + alpha) * t) ∧
      (((∀ p q : Rat, 0 ≤ p → p ≤ q → q ≤ 1 → ∀ r ∈ s.quantile g p, ∀ t ∈ s.quantile g q, r ≤ t) ∧
          ∀ q : Rat, 0 ≤ q → q ≤ 1 → ∀ r ∈ s.quantile g q,
            ∀ least ∈ values.min?, ∀ greatest ∈ values.max?, (least : Rat) ≤ r ∧ r ≤ greatest) ↔
        Framed g 1 values) := by
  intro g s values
  have hg : g.Ascending := Grid.geometric_ascending (by rw [growth_innerAccuracy halpha]; linarith)
  have h : Holds g.key s values := run_holds g.key changes
  have hexact : (∀ p q : Rat, 0 ≤ p → p ≤ q → q ≤ 1 → ∀ r ∈ s.quantile g p,
      ∀ t ∈ s.quantile g q, r ≤ t) ↔ Framed g 1 values := by
    rw [← h.ascends_iff hg (le_refl 1)]
    simp only [one_mul]
  refine ⟨fun q _ _ => h.quantile_isSome_iff g q, ?_, ?_, ?_⟩
  · exact (h.ascends_iff hg (by linarith)).mpr
      (framed_of_accurate halpha (Grid.geometric_near halpha) values)
  · exact fun hordered => hexact.mp hordered.1
  · exact fun hframed => ⟨hexact.mpr hframed,
      fun q hq0 hq1 => h.quantile_mem_range hg (hexact.mpr hframed) hq0 hq1⟩

theorem run_quantile_ascends_iff_percent :
    let s := run (Grid.geometric (1 + growth (innerAccuracy (1 / 100)))).key
      [.value 900, .value 1, .value 7]
    (0 : Rat) < 1 / 100 ∧ ∀ p q : Rat, 0 ≤ p → p ≤ q → q ≤ 1 →
      ∀ r ∈ s.quantile (Grid.geometric (1 + growth (innerAccuracy (1 / 100)))) p,
      ∀ t ∈ s.quantile (Grid.geometric (1 + growth (innerAccuracy (1 / 100)))) q, r ≤ t := by
  intro s
  have hpercent : (0 : Rat) < 1 / 100 := by norm_num
  obtain ⟨-, -, hiff⟩ := run_quantile_ascends_iff hpercent [.value 900, .value 1, .value 7]
  refine ⟨hpercent, (hiff.mpr ?_).1⟩
  have hranked : ranked [900, 1, 7] = [1, 7, 900] := ranked_eq (by decide) (by decide)
  intro i v hi hend hv least hleast greatest hgreatest
  have hzeros : ([900, 1, 7] : List Nat).count 0 = 0 := by decide
  have hvalues : Change.latest [.value 900, .value 1, .value 7] = [900, 1, 7] := rfl
  rw [hvalues] at hi hend hv hleast hgreatest
  rw [hzeros] at hi
  have hone : i = 1 := by
    have hlength : ([900, 1, 7] : List Nat).length = 3 := rfl
    omega
  rw [hranked, hone] at hv
  obtain rfl : 7 = v := Option.some.inj hv
  obtain rfl : 1 = least := Option.some.inj hleast
  obtain rfl : 900 = greatest := Option.some.inj hgreatest
  obtain ⟨hlow, hhigh⟩ := Grid.geometric_near hpercent 7 (by norm_num)
  rw [innerAccuracy_rat] at hlow hhigh ⊢
  norm_num at hlow hhigh ⊢
  constructor <;> linarith

/-- Three ones: the first answers for itself, the second as its bucket, which lies below it. -/
theorem quantile_descends :
    let g := Grid.geometric (1 + growth (innerAccuracy (1 / 100)))
    let s := run g.key [.value 1, .value 1, .value 1]
    s.quantile g 0 = some 1 ∧ s.quantile g (1 / 2) = some (100 / 101) ∧
      ¬∀ p q : Rat, 0 ≤ p → p ≤ q → q ≤ 1 → ∀ r ∈ s.quantile g p, ∀ t ∈ s.quantile g q, r ≤ t := by
  intro g s
  have hfactor : 1 + growth (innerAccuracy (1 / 100 : Rat)) = 51 / 50 := by
    rw [growth_innerAccuracy (by norm_num)]
    norm_num
  have hg : g.Ascending := Grid.geometric_ascending (by rw [hfactor]; norm_num)
  have h : Holds g.key s [1, 1, 1] := run_holds g.key [.value 1, .value 1, .value 1]
  have hranked : ranked [1, 1, 1] = [1, 1, 1] := ranked_eq (by decide) (by decide)
  have hkey : g.key 1 = 0 := Nat.sInf_eq_zero.mpr (.inl (by simp))
  have hvalue : g.value 0 = 100 / 101 := by
    have hvalue : g.value 0 = (1 + growth (innerAccuracy (1 / 100 : Rat))) ^ 0 *
        (2 / (1 + (1 + growth (innerAccuracy (1 / 100 : Rat))))) := rfl
    rw [hvalue, hfactor]
    norm_num
  have hfirst : s.quantile g 0 = some 1 := by
    have hshare := h.quantile_share hg (i := 0) (v := 1) (by rw [hranked]; rfl)
    rw [reading_of_border (by decide)] at hshare
    simpa using hshare
  have hsecond : s.quantile g (1 / 2) = some (100 / 101) := by
    have hshare := h.quantile_share hg (i := 1) (v := 1) (by rw [hranked]; rfl)
    rw [reading_of_inner (by decide), hkey, hvalue] at hshare
    simpa using hshare
  refine ⟨hfirst, hsecond, fun hascends => ?_⟩
  have hle := hascends 0 (1 / 2) (le_refl 0) (by norm_num) (by norm_num) 1 hfirst _ hsecond
  norm_num at hle

end Sketch

end QuantileMonitor.Quantile

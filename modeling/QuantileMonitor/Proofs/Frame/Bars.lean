import QuantileMonitor.Frame.Table
import QuantileMonitor.Proofs.Rounding

/-!
# Bars

A bar is a run of full cells, a run of shaded ones and a run of dashes. How many cells a value takes is
rounded once over the rationals and at every step in doubles; in both a larger value takes no fewer, so a
bar does not get shorter when the depth rises.
-/

namespace QuantileMonitor.Frame

open Scalar

theorem length_bar (current longTerm width : ℕ) : (bar current longTerm width).length = width := by
  rw [bar, List.length_map, List.length_range']

theorem bar_succ (current longTerm width : ℕ) :
    bar current longTerm (width + 1) =
      bar current longTerm width ++ [barCell current longTerm (width + 1)] := by
  rw [bar, bar, List.range'_1_concat, List.map_append, Nat.add_comm 1]
  rfl

theorem bar_eq (current longTerm width : ℕ) :
    bar current longTerm width = List.replicate (min current width) '█' ++
      List.replicate (min longTerm width - min current width) '░' ++
      List.replicate (width - max (min current width) (min longTerm width)) '-' := by
  induction width with
  | zero => simp [bar]
  | succ width ih =>
    rw [bar_succ, ih, barCell]
    split_ifs with hfull hshaded
    · have hnone : min longTerm width - width = 0 := by omega
      have hnone' : min longTerm (width + 1) - (width + 1) = 0 := by omega
      simp [min_eq_right hfull, min_eq_right (Nat.le_of_succ_le hfull), hnone, hnone',
        List.replicate_succ']
    · have hcurrent : min current width = current := by omega
      have hcurrent' : min current (width + 1) = current := by omega
      have hmore : width + 1 - current = width - current + 1 := by omega
      simp [hcurrent, hcurrent', hmore, min_eq_right hshaded, min_eq_right (Nat.le_of_succ_le hshaded),
        List.replicate_succ']
    · have hcurrent : min current width = current := by omega
      have hcurrent' : min current (width + 1) = current := by omega
      have hlongTerm : min longTerm width = longTerm := by omega
      have hlongTerm' : min longTerm (width + 1) = longTerm := by omega
      have hmore : width + 1 - max current longTerm = width - max current longTerm + 1 := by omega
      simp [hcurrent, hcurrent', hlongTerm, hlongTerm', hmore, List.replicate_succ']

theorem count_full (current longTerm width : ℕ) :
    (bar current longTerm width).count '█' = min current width := by
  simp [bar_eq, List.count_replicate]

theorem count_dash (current longTerm width : ℕ) :
    (bar current longTerm width).count '-' = width - max (min current width) (min longTerm width) := by
  simp [bar_eq, List.count_replicate]

/-- One bar has no fewer full cells than the other, and no more dashes. -/
def NoShorter (short long : List Char) : Prop :=
  short.count '█' ≤ long.count '█' ∧ long.count '-' ≤ short.count '-'

theorem bar_noShorter {current current' : ℕ} (longTerm width : ℕ) (h : current ≤ current') :
    NoShorter (bar current longTerm width) (bar current' longTerm width) := by
  have hmin : min current width ≤ min current' width := min_le_min_right width h
  constructor
  · simpa only [count_full] using hmin
  · rw [count_dash, count_dash]
    omega

theorem clamp_mono {lo hi x y : ℚ} (hle : lo ≤ hi) (h : x ≤ y) : clamp lo hi x ≤ clamp lo hi y := by
  unfold clamp
  split_ifs <;> linarith

theorem clamp_of_nonneg {hi x : ℚ} (h : 0 ≤ x) : clamp 0 hi x = min hi x := by
  rw [clamp, if_neg h.not_gt, min_def_lt]

section Exact

variable {value value' full full' : ℚ} {width : ℕ}

theorem scaled_rat (hvalue : 0 ≤ value) (hfull : 0 < full) :
    scaled value full width = min width ⌊value * width / full + 1 / 2⌋₊ := by
  have hnonneg : 0 ≤ value * width / full + 1 / 2 := by positivity
  rw [scaled, half_rat, ofNat_rat, ofNat_rat, Nat.cast_zero, div_mul_eq_mul_div, clamp_of_nonneg hnonneg,
    whole_rat, Nat.floor_mono.map_min, Nat.floor_natCast]

theorem scaled_le_width (hvalue : 0 ≤ value) (hfull : 0 < full) : scaled value full width ≤ width := by
  rw [scaled_rat hvalue hfull]
  exact min_le_left _ _

theorem scaled_mono (hvalue : 0 ≤ value) (hfull : 0 < full) (h : value ≤ value') :
    scaled value full width ≤ scaled value' full width := by
  rw [scaled_rat hvalue hfull, scaled_rat (hvalue.trans h) hfull]
  gcongr

theorem scaled_anti (hvalue : 0 ≤ value) (hfull : 0 < full) (h : full ≤ full') :
    scaled value full' width ≤ scaled value full width := by
  rw [scaled_rat hvalue hfull, scaled_rat hvalue (hfull.trans_le h)]
  gcongr

theorem scaled_eq_width (hfull : 0 < full) (h : full ≤ value) : scaled value full width = width := by
  rw [scaled_rat (hfull.le.trans h) hfull]
  refine min_eq_left (Nat.le_floor ?_)
  have hshare : (width : ℚ) ≤ value * width / full := by
    rw [le_div_iff₀ hfull, mul_comm]
    gcongr
  linarith

end Exact

section Doubles

open Double

variable {depth depth' full width : ℕ}

/-- The cells before they are cut, rounded at every step. -/
def roundedCells (depth full width : ℕ) : ℚ :=
  rounded (rounded (rounded (rounded depth / rounded full) * rounded width) +
    rounded (rounded (1 : ℕ) / rounded (2 : ℕ)))

theorem roundedCells_mono (h : depth ≤ depth') :
    roundedCells depth full width ≤ roundedCells depth' full width := by
  have hfull := rounded_nonneg full
  have hwidth := rounded_nonneg width
  have hhalf := rounded_nonneg (rounded (1 : ℕ) / rounded (2 : ℕ))
  have hdepth : rounded depth ≤ rounded depth' := rounded_mono (Nat.cast_nonneg _) (Nat.cast_le.mpr h)
  have hshare : rounded (rounded depth / rounded full) ≤ rounded (rounded depth' / rounded full) :=
    rounded_mono (div_nonneg (rounded_nonneg _) hfull) (by gcongr)
  have hcells : rounded (rounded (rounded depth / rounded full) * rounded width) ≤
      rounded (rounded (rounded depth' / rounded full) * rounded width) :=
    rounded_mono (mul_nonneg (rounded_nonneg _) hwidth) (by gcongr)
  exact rounded_mono (add_nonneg (rounded_nonneg _) hhalf) (by gcongr)

theorem stands_cells (hdepth : depth < Word.bound) (hpos : 0 < full) (hfull : full < Word.bound)
    (hwidth : width < Word.bound) :
    Stands 193 (ofNat depth / ofNat full * ofNat width + half) (roundedCells depth full width) := by
  have hshare := (stands_ofNat hdepth).div (stands_ofNat hfull) (rounded_pos (Nat.cast_pos.mpr hpos)).ne'
    (by decide)
  have hcells := hshare.mul (stands_ofNat hwidth) (by decide)
  exact hcells.add (stands_half.mono (by decide)) (by decide)

theorem scaled_double (hdepth : depth < Word.bound) (hpos : 0 < full) (hfull : full < Word.bound)
    (hwidth : width < Word.bound) :
    scaled (ofNat depth : Float) (ofNat full) width =
      min ⌊clamp (rounded (0 : ℕ)) (rounded width) (roundedCells depth full width)⌋₊ (Word.bound - 1) :=
  (((stands_ofNat (by decide)).mono (by decide)).clamp ((stands_ofNat hwidth).mono (by decide))
    (stands_cells hdepth hpos hfull hwidth)).whole

theorem scaled_double_mono (h : depth ≤ depth') (hdepth : depth' < Word.bound) (hpos : 0 < full)
    (hfull : full < Word.bound) (hwidth : width < Word.bound) :
    scaled (ofNat depth : Float) (ofNat full) width ≤ scaled (ofNat depth' : Float) (ofNat full) width := by
  have hclamp : clamp (rounded (0 : ℕ)) (rounded width) (roundedCells depth full width) ≤
      clamp (rounded (0 : ℕ)) (rounded width) (roundedCells depth' full width) :=
    clamp_mono (rounded_mono le_rfl (Nat.cast_le.mpr (Nat.zero_le width))) (roundedCells_mono h)
  rw [scaled_double (h.trans_lt hdepth) hpos hfull hwidth, scaled_double hdepth hpos hfull hwidth]
  gcongr

theorem barCells_eq_scaled {value full : Float} (hfull : ¬full ≤ 0) (hvalue : value.isFinite) (width : ℕ) :
    barCells value full width = scaled value full width := by
  rw [barCells, hvalue]
  exact if_neg (by simpa using hfull)

theorem barCells_eq_zero {value full : Float} (h : full ≤ 0 ∨ value.isFinite = false) (width : ℕ) :
    barCells value full width = 0 := by
  rw [barCells]
  refine if_pos ?_
  rcases h with hfull | hvalue
  · simp [hfull]
  · simp [hvalue]

theorem barCells_ofNat (hdepth : depth < Word.bound) (hpos : 0 < full) (hfull : full < Word.bound)
    (width : ℕ) :
    barCells (ofNat depth) (ofNat full) width = scaled (ofNat depth : Float) (ofNat full) width :=
  barCells_eq_scaled ((stands_ofNat hfull).not_le_zero (rounded_pos (Nat.cast_pos.mpr hpos)))
    (stands_ofNat hdepth).isFinite width

theorem barCells_mono (h : depth ≤ depth') (hdepth : depth' < Word.bound) (hfull : full < Word.bound)
    (hwidth : width < Word.bound) :
    barCells (ofNat depth) (ofNat full) width ≤ barCells (ofNat depth') (ofNat full) width := by
  obtain rfl | hpos := Nat.eq_zero_or_pos full
  · have hempty : (ofNat 0 : Float) ≤ 0 := by decide
    rw [barCells_eq_zero (.inl hempty)]
    exact Nat.zero_le _
  · rw [barCells_ofNat (h.trans_lt hdepth) hpos hfull, barCells_ofNat hdepth hpos hfull]
    exact scaled_double_mono h hdepth hpos hfull hwidth

end Doubles

theorem Options.queueBar_noShorter {γ : Type} (o : Options) {gauge gauge' : Option Gauge} {key : EntityKey}
    (s : EntityStats γ) (hwidth : o.barWidth < Word.bound)
    (hscale : ∀ scale ∈ o.fullScale, scale.2 < Word.bound)
    (h : (now gauge key).getD 0 ≤ (now gauge' key).getD 0) (hdepth : (now gauge' key).getD 0 < Word.bound) :
    NoShorter (o.queueBar gauge key s) (o.queueBar gauge' key s) := by
  have hfull : (o.fullScale.lookup key).getD o.barWidth < Word.bound := by
    cases hlookup : o.fullScale.lookup key with
    | none => exact hwidth
    | some full =>
      obtain ⟨before, after, hscales, -⟩ := List.lookup_eq_some_iff.mp hlookup
      exact hscale (key, full) (by simp [hscales])
  exact bar_noShorter _ _ (barCells_mono h hdepth hfull hwidth)

/-- A bar has the width that was asked for and is full, shaded and dashed in this order. Over the rationals
the cells of a value are its share of the width to the nearest cell, at most all of them: no fewer for a
larger value, no more for a larger scale. The bar of a queue has the cells of its depth and those of its
99th percentile, computed alike in doubles, and none where the scale is not positive or the value not finite.
So a bar does not get shorter when the depth rises, and as doubles round the same way in every step, neither
does the one that is drawn. -/
theorem bar_shape {γ : Type} :
    (∀ current longTerm width : ℕ,
      bar current longTerm width = List.replicate (min current width) '█' ++
          List.replicate (min longTerm width - min current width) '░' ++
          List.replicate (width - max (min current width) (min longTerm width)) '-' ∧
        (bar current longTerm width).length = width) ∧
      (∀ (value full : ℚ) (width : ℕ), 0 ≤ value → 0 < full →
        scaled value full width = min width ⌊value * width / full + 1 / 2⌋₊ ∧
          scaled value full width ≤ width ∧
          (∀ value', value ≤ value' → scaled value full width ≤ scaled value' full width) ∧
          (∀ full', full ≤ full' → scaled value full' width ≤ scaled value full width) ∧
          (full ≤ value → scaled value full width = width)) ∧
      (∀ (depth depth' full : ℚ) (longTerm width : ℕ), 0 ≤ depth → depth ≤ depth' → 0 < full →
        NoShorter (bar (scaled depth full width) longTerm width)
          (bar (scaled depth' full width) longTerm width)) ∧
      (∀ (value full : Float) (width : ℕ),
        (¬full ≤ 0 → value.isFinite → barCells value full width = scaled value full width) ∧
          (full ≤ 0 ∨ value.isFinite = false → barCells value full width = 0)) ∧
      (∀ (o : Options) (gauge : Option Gauge) (key : EntityKey) (s : EntityStats γ),
        let full := (o.fullScale.lookup key).getD o.barWidth
        let depth := (gauge.bind (·.get? key)).getD 0
        let cells := fun value : Float => barCells value (ofNat full) o.barWidth
        o.queueBar gauge key s =
            bar (cells (ofNat depth)) (cells ((s.lifetime.quantile 0.99).getD 0)) o.barWidth ∧
          (o.queueBar gauge key s).length = o.barWidth ∧
          (0 < full → full < Word.bound → depth < Word.bound →
            cells (ofNat depth) = scaled (ofNat depth : Float) (ofNat full) o.barWidth)) ∧
      ∀ (o : Options) (gauge gauge' : Option Gauge) (key : EntityKey) (s : EntityStats γ),
        o.barWidth < Word.bound → (∀ scale ∈ o.fullScale, scale.2 < Word.bound) →
        (Options.now gauge key).getD 0 ≤ (Options.now gauge' key).getD 0 →
        (Options.now gauge' key).getD 0 < Word.bound →
        NoShorter (o.queueBar gauge key s) (o.queueBar gauge' key s) := by
  refine ⟨fun current longTerm width => ⟨bar_eq _ _ _, length_bar _ _ _⟩, ?_, ?_, ?_, ?_, ?_⟩
  · intro value full width hvalue hfull
    exact ⟨scaled_rat hvalue hfull, scaled_le_width hvalue hfull, fun _ => scaled_mono hvalue hfull,
      fun _ => scaled_anti hvalue hfull, scaled_eq_width hfull⟩
  · intro depth depth' full longTerm width hdepth h hfull
    exact bar_noShorter longTerm width (scaled_mono hdepth hfull h)
  · intro value full width
    exact ⟨fun hfull hvalue => barCells_eq_scaled hfull hvalue width, fun h => barCells_eq_zero h width⟩
  · intro o gauge key s full depth cells
    exact ⟨rfl, length_bar _ _ _, fun hpos hfull hdepth => barCells_ofNat hdepth hpos hfull o.barWidth⟩
  · intro o gauge gauge' key s hwidth hscale h hdepth
    exact o.queueBar_noShorter s hwidth hscale h hdepth

def tenCells : Options where
  heading := "Queue"
  view := .queue
  percentiles := [99]
  showTop := false
  batch := true
  interval := .zero
  strategy := ""
  barWidth := 10
  fullScale := [(.group 0, 4)]

def depthGauge (depth : ℕ) : Gauge := ⟨#[.group 0], #[depth]⟩

theorem now_depthGauge (depth : ℕ) : Options.now (some (depthGauge depth)) (.group 0) = some depth := by
  have hfirst : (#[EntityKey.group 0]).idxOf? (.group 0) = some 0 := by
    rw [List.idxOf?_toArray]
    decide
  simp [Options.now, Gauge.get?, Gauge.load, depthGauge, hfirst]

theorem bar_shape_half_cell :
    let s : EntityStats (List ℕ) := .empty (.reservoir 2) ([], [])
    scaled (3 : ℚ) 4 10 = 8 ∧ scaled (5 : ℚ) 4 10 = 10 ∧
      tenCells.queueBar (some (depthGauge 3)) (.group 0) s = bar 8 0 10 ∧
      NoShorter (tenCells.queueBar (some (depthGauge 3)) (.group 0) s)
        (tenCells.queueBar (some (depthGauge 5)) (.group 0) s) := by
  intro s
  obtain ⟨-, hcells, -, -, hbar, hdrawn⟩ := @bar_shape (List ℕ)
  refine ⟨?_, ?_, ?_, ?_⟩
  · rw [(hcells 3 4 10 (by norm_num) (by norm_num)).1]
    norm_num
  · exact (hcells 5 4 10 (by norm_num) (by norm_num)).2.2.2.2 (by norm_num)
  · have hdepth : barCells (ofNat 3) (ofNat 4) 10 = 8 := by decide +kernel
    have hlongTerm : barCells 0 (ofNat 4) 10 = 0 := by decide +kernel
    have hnow : ((some (depthGauge 3)).bind (·.get? (.group 0))).getD 0 = 3 :=
      congrArg (·.getD 0) (now_depthGauge 3)
    have hscale : (tenCells.fullScale.lookup (.group 0)).getD tenCells.barWidth = 4 := by decide
    have hquantile : (s.lifetime.quantile 0.99).getD 0 = 0 := rfl
    have hbar := (hbar tenCells (some (depthGauge 3)) (.group 0) s).1
    rw [hnow, hscale, hquantile] at hbar
    exact hbar.trans (congrArg₂ (bar · · 10) hdepth hlongTerm)
  · refine hdrawn _ _ _ _ s (by decide) (by decide) ?_ ?_
    · rw [now_depthGauge, now_depthGauge]
      decide
    · rw [now_depthGauge]
      decide

end QuantileMonitor.Frame

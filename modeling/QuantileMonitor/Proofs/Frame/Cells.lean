import QuantileMonitor.Frame.Table
import QuantileMonitor.Proofs.Frame.Texts
import QuantileMonitor.Proofs.Window.Replay

/-!
# What the columns tell

The columns of a table are set down here once, with what each is headed by and what it has to tell of the
values of a window. The headings and the cells of a table are made up in loops of their own, one by view
and in the queue view one for each; that they agree on the columns is what has to be shown.
-/

namespace QuantileMonitor

open Quantile

structure Window.Reports {γ : Type} (strategy : Strategy) (w : Window γ) (values : List ℕ) : Prop where
  exact : w.exact = figures values
  top : w.top.values = largest Top.size values
  quantile : strategy.check = .ok () → ∀ q, w.quantile q = none ↔ values = []
  quantile_nil : values = [] → ∀ q, w.quantile q = none

theorem Window.Shows.snapshot_reports {γ : Type} {strategy : Strategy} {w : Window γ} {values : List ℕ}
    (h : w.Shows strategy values) : w.snapshot.Reports strategy values where
  exact := h.exact
  top := h.top
  quantile hcheck q := by
    have hsome := h.estimator.quantile_isSome_iff hcheck q
    rw [quantile_snapshot, Window.quantile, ← Option.not_isSome_iff_eq_none, hsome, not_not]
  quantile_nil hnil q := by
    rw [quantile_snapshot, Window.quantile, ← Option.not_isSome_iff_eq_none]
    exact fun hsome => h.estimator.ne_nil_of_quantile hsome hnil

section Reports

variable {γ : Type} {strategy : Strategy} {w : Window γ} {values : List ℕ}

theorem Window.Reports.min_eq (h : w.Reports strategy values) (hne : values ≠ []) :
    values.min? = some w.exact.min := by
  obtain ⟨least, hleast⟩ := Option.ne_none_iff_exists'.mp (mt List.min?_eq_none_iff.mp hne)
  rw [h.exact, hleast, Window.Exact.min, figures, hleast, Option.getD_some]

theorem Window.Reports.max_eq (h : w.Reports strategy values) (hne : values ≠ []) :
    values.max? = some w.exact.max := by
  obtain ⟨greatest, hgreatest⟩ := Option.ne_none_iff_exists'.mp (mt List.max?_eq_none_iff.mp hne)
  rw [h.exact, hgreatest, figures, hgreatest, Option.getD_some]

end Reports

namespace Frame

open Decimal Scalar
open Window (figures largest Top.size)

inductive Column
  | average
  | percentile (p : Float)
  | least
  | below (places : ℕ)
  | greatest
  | current
  | utilization

/-- The average comes after the first median, and at the end if there is none. -/
def withAverage {α : Type} (f : Float → α) (average : α) : List Float → List α
  | [] => [average]
  | p :: rest => f p :: if p == 50 then average :: rest.map f else withAverage f average rest

def Options.columns (o : Options) : List Column :=
  match o.view with
  | .latency =>
    [.average] ++ o.percentiles.map .percentile ++ [.least] ++
      (if o.showTop then [.below 4, .below 3, .below 2, .below 1] else []) ++ [.greatest]
  | .queue => .current :: .utilization :: withAverage .percentile .average o.percentiles

inductive Quantity
  | latency (us : ℕ)
  | depth (x : Float)
  | amount (n : ℕ)
  | share (x : Float)

def Quantity.Shown : Quantity → List Char → Prop
  | latency us => LatencyText us
  | depth x => Fixed 2 x
  | amount n => (· = Nat.toDigits 10 n)
  | share x => ShareText x

theorem Quantity.Shown.ne_dash {q : Quantity} {text : List Char} (h : q.Shown text) : text ≠ ['-'] := by
  cases q with
  | latency us => exact LatencyText.ne_dash h
  | depth x => exact fixedText_ne_dash h
  | amount n =>
    rw [show text = Nat.toDigits 10 n from h]
    exact toDigits_ne_dash n
  | share x => exact ShareText.ne_dash h

/-- A cell shows its quantity, or a dash where there is none. -/
def Tells : Option Quantity → List Char → Prop
  | none, text => text = ['-']
  | some q, text => q.Shown text

theorem Tells.dash_iff {q : Option Quantity} {text : List Char} (h : Tells q text) :
    text = ['-'] ↔ q = none := by
  cases q with
  | none => exact iff_of_true h rfl
  | some q => exact iff_of_false h.ne_dash nofun

def View.quantity : View → Float → Quantity
  | latency => fun x => .latency (whole x.round)
  | queue => .depth

def perValue (n : ℕ) (values : List ℕ) : Option Float :=
  if values = [] then none else some (ofNat n / ofNat values.length)

namespace Column

def Headed (view : View) (text : List Char) : Column → Prop
  | average =>
    text = match view with
      | .latency => "avg".toList
      | .queue => "Avg".toList
  | percentile p => PercentileText p text
  | least => text = "min".toList
  | below places => text = "max-".toList ++ Nat.toDigits 10 places
  | greatest => text = "max".toList
  | current => text = "Current".toList
  | utilization => text = "Util".toList

def quantity (view : View) (values : List ℕ) (quantile : Float → Option Float) (now : Option ℕ) :
    Column → Option Quantity
  | average => (perValue (min values.sum (2 ^ 64 - 1)) values).map view.quantity
  | percentile p => (quantile (p / 100)).map view.quantity
  | least => values.min?.map .latency
  | below places => (ranked values).reverse[places]?.map .latency
  | greatest => values.max?.map .latency
  | current => now.map .amount
  | utilization => (perValue (values.countP (0 < ·)) values).map .share

/-- A rank that the values do not reach, a current value that is not known, or no values. -/
def Missing (values : List ℕ) (now : Option ℕ) : Column → Prop
  | below places => values.length ≤ places
  | current => now = none
  | average | percentile _ | least | greatest | utilization => values = []

variable {γ : Type} {strategy : Strategy} {w : Window γ} {values : List ℕ}

theorem perValue_eq_none_iff (n : ℕ) (values : List ℕ) : perValue n values = none ↔ values = [] := by
  rw [perValue]
  split_ifs with hnil <;> simp [hnil]

theorem quantity_eq_none_iff (h : w.Reports strategy values) (hcheck : strategy.check = .ok ())
    (view : View) (now : Option ℕ) (c : Column) :
    c.quantity view values w.quantile now = none ↔ c.Missing values now := by
  cases c with
  | average | utilization => rw [quantity, Option.map_eq_none_iff, perValue_eq_none_iff, Missing]
  | percentile p => rw [quantity, Option.map_eq_none_iff, h.quantile hcheck, Missing]
  | least => rw [quantity, Option.map_eq_none_iff, List.min?_eq_none_iff, Missing]
  | below places =>
    rw [quantity, Option.map_eq_none_iff, List.getElem?_eq_none_iff, List.length_reverse, length_ranked,
      Missing]
  | greatest => rw [quantity, Option.map_eq_none_iff, List.max?_eq_none_iff, Missing]
  | current => rw [quantity, Option.map_eq_none_iff, Missing]

end Column

theorem forall₂_map {α β δ : Type} {R : α → β → Prop} {f : δ → α} {g : δ → β} (h : ∀ x, R (f x) (g x))
    (l : List δ) : List.Forall₂ R (l.map f) (l.map g) :=
  List.forall₂_map_left_iff.mpr (List.forall₂_map_right_iff.mpr (List.forall₂_same.mpr fun x _ => h x))

theorem forall₂_withAverage {α β : Type} {R : α → β → Prop} {f : Float → α} {g : Float → β} {a : α} {b : β}
    (h : ∀ p, R (f p) (g p)) (hab : R a b) (percentiles : List Float) :
    List.Forall₂ R (withAverage f a percentiles) (withAverage g b percentiles) := by
  induction percentiles with
  | nil => exact .cons hab .nil
  | cons p rest ih =>
    rw [withAverage, withAverage]
    split_ifs
    · exact .cons (h p) (.cons hab (forall₂_map h rest))
    · exact .cons (h p) ih

theorem loop_eq_map {α : Type} (f : Float → α) (average : α) {j n : ℕ} (h : j < n) (percentiles : List Float) :
    ((percentiles.zipIdx n).flatMap fun (p, i) => f p :: if some i = some j then [average] else []) =
      percentiles.map f := by
  induction percentiles generalizing n with
  | nil => rfl
  | cons p rest ih =>
    have hne : some n ≠ some j := fun heq => h.ne' (Option.some.inj heq)
    rw [List.zipIdx_cons, List.flatMap_cons, ih (h.trans (Nat.lt_succ_self n))]
    dsimp only
    rw [if_neg hne]
    rfl

theorem loop_eq_withAverage {α : Type} (f : Float → α) (average : α) (percentiles : List Float) (n : ℕ)
    {position : Option ℕ} (h : position = (percentiles.findIdx? (· == 50)).map (· + n)) :
    ((percentiles.zipIdx n).flatMap fun (p, i) => f p :: if some i = position then [average] else []) ++
        (if position.isNone then [average] else []) =
      withAverage f average percentiles := by
  induction percentiles generalizing n with
  | nil =>
    rw [h]
    rfl
  | cons p rest ih =>
    rw [List.zipIdx_cons, List.flatMap_cons, List.append_assoc, withAverage]
    dsimp only
    rw [List.findIdx?_cons] at h
    by_cases hmedian : p == 50
    · rw [if_pos hmedian, Option.map_some, Nat.zero_add] at h
      rw [h, if_pos hmedian, if_pos rfl, loop_eq_map f average (Nat.lt_succ_self n), Option.isNone_some,
        if_neg Bool.false_ne_true, List.append_nil]
      rfl
    · have hrest : position = (rest.findIdx? (· == 50)).map (· + (n + 1)) := by
        rw [h, if_neg hmedian, Option.map_map]
        refine Option.map_congr fun i _ => ?_
        rw [Function.comp_apply, Nat.add_assoc, Nat.add_comm 1 n]
      have hlater : some n ≠ position := by
        rw [hrest]
        intro hsome
        obtain ⟨i, -, hi⟩ := Option.map_eq_some_iff.mp hsome.symm
        omega
      rw [if_neg hmedian, if_neg hlater, ih (n + 1) hrest]
      rfl

theorem Options.averagePosition_eq (o : Options) :
    o.averagePosition = (o.percentiles.findIdx? (· == 50)).map (· + 0) := by
  simp [averagePosition]

theorem Options.headings_queue {o : Options} (h : o.view = .queue) :
    o.headings = "Current" :: "Util" :: withAverage percentile "Avg" o.percentiles := by
  rw [headings, h, ← loop_eq_withAverage percentile "Avg" o.percentiles 0 o.averagePosition_eq]
  dsimp only
  rw [List.append_assoc, List.zipIdx_map, List.flatMap_map]
  rfl

theorem Options.headings_headed (o : Options) :
    List.Forall₂ (fun c heading => c.Headed o.view heading.toList) o.columns o.headings := by
  cases hview : o.view with
  | latency =>
    rw [columns, headings, hview]
    refine List.rel_append (List.rel_append (List.rel_append (List.rel_append ?_ ?_) ?_) ?_) ?_
    · exact .cons rfl .nil
    · refine forall₂_map (fun p => ?_) o.percentiles
      exact percentile_text p
    · exact .cons rfl .nil
    · split_ifs
      · exact .cons rfl (.cons rfl (.cons rfl (.cons rfl .nil)))
      · exact .nil
    · exact .cons rfl .nil
  | queue =>
    rw [columns, headings_queue hview, hview]
    refine .cons rfl (.cons rfl (forall₂_withAverage (fun p => ?_) ?_ o.percentiles))
    · exact percentile_text p
    · rfl

section Cells

variable {γ : Type} {strategy : Strategy} {w : Window γ} {values : List ℕ}

theorem tells_orDash {α : Type} {text : α → String} {q : α → Quantity} (h : ∀ x, (q x).Shown (text x).toList)
    (x : Option α) : Tells (x.map q) (orDash text x).toList := by
  cases x with
  | none => exact (rfl : "-".toList = ['-'])
  | some x => exact h x

theorem mean_eq (h : w.Reports strategy values) :
    w.exact.mean = perValue (min values.sum (2 ^ 64 - 1)) values := by
  rw [h.exact, perValue]
  simp only [← List.length_eq_zero_iff]
  rfl

theorem utilization_eq (h : w.Reports strategy values) :
    w.exact.utilization = perValue (values.countP (0 < ·)) values := by
  rw [h.exact, perValue]
  simp only [← List.length_eq_zero_iff]
  rfl

theorem latency?_tells (x : Option Float) :
    Tells (x.map View.latency.quantity) (latency? x).toList := by
  refine tells_orDash (fun x => ?_) x
  exact latency_text (whole x.round)

theorem depth_tells (x : Option Float) : Tells (x.map View.queue.quantity) (depth x).toList := by
  refine tells_orDash (fun x => ?_) x
  exact fixed_text two_ne_zero x

theorem share_tells (x : Option Float) : Tells (x.map .share) (share x).toList := by
  refine tells_orDash (fun x => ?_) x
  exact ⟨_, fixed_text one_ne_zero (x * 100), String.toList_append ..⟩

theorem Options.queueCells_eq (o : Options) (gauge : Option Gauge) (key : EntityKey) (w : Window γ) :
    o.queueCells gauge key w = orDash toString (now gauge key) :: share w.exact.utilization ::
      withAverage (fun p => depth (w.quantile (p / 100))) (depth w.exact.mean) o.percentiles := by
  rw [queueCells, ← loop_eq_withAverage _ _ o.percentiles 0 o.averagePosition_eq, List.append_assoc]
  rfl

theorem Options.queueCells_tell (h : w.Reports strategy values) {o : Options} (hview : o.view = .queue)
    (gauge : Option Gauge) (key : EntityKey) :
    List.Forall₂ (fun c cell => Tells (c.quantity .queue values w.quantile (now gauge key)) cell.toList)
      o.columns (o.queueCells gauge key w) := by
  rw [columns, hview, queueCells_eq]
  refine .cons ?_ (.cons ?_ (forall₂_withAverage (fun p => ?_) ?_ o.percentiles))
  · exact tells_orDash toList_toString (now gauge key)
  · rw [utilization_eq h]
    exact share_tells _
  · exact depth_tells _
  · rw [mean_eq h]
    exact depth_tells _

theorem latency_tells {v : Option ℕ} {us : ℕ} (h : v = some us) :
    Tells (v.map .latency) (latency us).toList := by
  rw [h]
  exact latency_text us

theorem getElem?_largest {n i : ℕ} (hi : i < n) (values : List ℕ) :
    (largest n values).reverse[i]? = (ranked values).reverse[i]? := by
  rw [largest, ← length_ranked values, ← List.take_reverse, List.getElem?_take_of_lt hi]

theorem forall₂_rank {l : List ℕ} {n : ℕ} (h : l.length ≤ n) {rank : ℕ → Option ℕ}
    (hrank : ∀ i < n, l.reverse[i]? = rank i) :
    List.Forall₂ (fun i cell => Tells ((rank i).map .latency) cell.toList) (List.range n).reverse
      (List.replicate (n - l.length) "-" ++ l.map latency) := by
  rw [List.forall₂_iff_get]
  refine ⟨by simp; omega, fun k hk _ => ?_⟩
  have hkn : k < n := by simpa using hk
  simp only [List.get_eq_getElem, List.getElem_reverse, List.getElem_range, List.length_range]
  rw [List.getElem_append, ← hrank _ (by omega)]
  split_ifs with hpad
  · have hnone : l.reverse[n - 1 - k]? = none := by
      rw [List.length_replicate] at hpad
      rw [List.getElem?_eq_none_iff, List.length_reverse]
      omega
    rw [hnone, List.getElem_replicate]
    exact (rfl : "-".toList = ['-'])
  · rw [List.length_replicate] at hpad
    have hindex : l.length - 1 - (n - 1 - k) = k - (n - l.length) := by omega
    rw [List.getElem_map]
    refine latency_tells ?_
    rw [List.getElem?_reverse (by omega), hindex, List.getElem?_eq_getElem (by omega)]
    simp only [List.length_replicate]

theorem forall₂_below (h : w.top.values = largest Top.size values) (quantile : Float → Option Float)
    (now : Option ℕ) :
    List.Forall₂ (fun c cell => Tells (Column.quantity .latency values quantile now c) cell.toList)
      [.below 4, .below 3, .below 2, .below 1]
      (List.replicate (4 - (w.top.values.take (w.top.values.length - 1)).length) "-" ++
        (w.top.values.take (w.top.values.length - 1)).map latency) := by
  have hsize : w.top.values.length ≤ 5 := by
    rw [h, Window.length_largest]
    exact Nat.min_le_left _ _
  have hrank : ∀ i < 4, (w.top.values.take (w.top.values.length - 1)).reverse[i]? =
      (ranked values).reverse[i + 1]? := by
    intro i hi
    rw [← List.dropLast_eq_take, ← List.tail_reverse, List.getElem?_tail, h]
    exact getElem?_largest (Nat.succ_lt_succ hi) values
  have hplaces : [.below 4, .below 3, .below 2, .below 1] =
      (List.range 4).reverse.map fun i => Column.below (i + 1) := rfl
  rw [hplaces, List.forall₂_map_left_iff]
  exact forall₂_rank (by rw [List.length_take]; omega) hrank

theorem Options.ne_current_of_mem_columns {o : Options} (hview : o.view = .latency) {c : Column}
    (hc : c ∈ o.columns) : c ≠ .current := by
  rw [columns, hview] at hc
  rintro rfl
  dsimp only at hc
  split_ifs at hc <;> simp at hc

theorem Column.quantity_nil {c : Column} (hc : c ≠ .current) (view : View) {quantile : Float → Option Float}
    (hquantile : ∀ q, quantile q = none) (now : Option ℕ) : c.quantity view [] quantile now = none := by
  cases c with
  | current => exact absurd rfl hc
  | percentile p => rw [quantity, hquantile, Option.map_none]
  | below places => rw [quantity, List.getElem?_eq_none (by simp [length_ranked]), Option.map_none]
  | average | least | greatest | utilization => rfl

theorem Options.latencyCells_tell (h : w.Reports strategy values) {o : Options} (hview : o.view = .latency)
    (now : Option ℕ) :
    List.Forall₂ (fun c cell => Tells (c.quantity .latency values w.quantile now) cell.toList)
      o.columns (o.latencyCells w) := by
  have hcount : w.exact.count = values.length := by
    rw [h.exact]
    rfl
  rw [latencyCells]
  by_cases hempty : w.exact.count = 0
  · obtain rfl : values = [] := List.eq_nil_of_length_eq_zero (hcount.symm.trans hempty)
    rw [if_pos hempty, ← o.headings_headed.length_eq, ← List.map_const', List.forall₂_map_right_iff,
      List.forall₂_same]
    intro c hc
    rw [Column.quantity_nil (ne_current_of_mem_columns hview hc) _ (h.quantile_nil rfl)]
    exact (rfl : "-".toList = ['-'])
  · have hne : values ≠ [] := by
      rintro rfl
      exact hempty hcount
    rw [if_neg hempty, columns, hview]
    refine List.rel_append (List.rel_append (List.rel_append (List.rel_append ?_ ?_) ?_) ?_) ?_
    · refine .cons ?_ .nil
      rw [mean_eq h]
      exact latency?_tells _
    · refine forall₂_map (fun p => ?_) o.percentiles
      exact latency?_tells _
    · exact .cons (latency_tells (h.min_eq hne)) .nil
    · split_ifs
      · exact forall₂_below h.top _ now
      · exact .nil
    · exact .cons (latency_tells (h.max_eq hne)) .nil

theorem Options.cells_tell (h : w.Reports strategy values) (o : Options) (gauge : Option Gauge)
    (key : EntityKey) :
    List.Forall₂ (fun c cell => Tells (c.quantity o.view values w.quantile (now gauge key)) cell.toList)
      o.columns (o.cells gauge key w) := by
  cases hview : o.view with
  | latency =>
    rw [cells, hview]
    exact latencyCells_tell h hview (now gauge key)
  | queue =>
    rw [cells, hview]
    exact queueCells_tell h hview gauge key

end Cells

end Frame

end QuantileMonitor

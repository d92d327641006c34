import QuantileMonitor.Proofs.Frame.Bars
import QuantileMonitor.Proofs.Frame.Cells
import QuantileMonitor.Proofs.Registry.Isolation

/-!
# Rows under their headers

A line of a table is a name, texts to the right of their columns, and what comes after them. So the place
of a text is where its column begins, moved by what the texts before it have too much, in a row as in the
header; and a row is as long as a rule but for what its cells and its count have too much.
-/

namespace QuantileMonitor.Frame

open Window (largest getLast?_largest largest_ascending Top.size)

/-- From a place on, a line has a text to the right of a field. -/
def StandsAt (line : List Char) (place width : ℕ) (text : String) : Prop :=
  ∃ before after, line = before ++ (List.replicate (width - text.length) ' ' ++ text.toList) ++ after ∧
    before.length = place

/-- The characters that single texts have too much for columns of eight. -/
def excess (texts : List String) : ℕ := (texts.map fun text => text.length - 8).sum

section Lines

variable {line label tail : List Char} {texts : List String} {text : String} {place width k : ℕ}

theorem StandsAt.append_right (h : StandsAt line place width text) (right : List Char) :
    StandsAt (line ++ right) place width text := by
  obtain ⟨before, after, rfl, hplace⟩ := h
  exact ⟨before, after ++ right, by rw [List.append_assoc], hplace⟩

theorem StandsAt.append_left (h : StandsAt line place width text) (left : List Char) :
    StandsAt (left ++ line) (left.length + place) width text := by
  obtain ⟨before, after, rfl, rfl⟩ := h
  exact ⟨left ++ before, after, by simp only [List.append_assoc], List.length_append⟩

theorem standsAt_leftpad (width : ℕ) (text : String) :
    StandsAt (text.toList.leftpad width ' ') 0 width text :=
  ⟨[], [], by simp [List.leftpad, String.length_toList], rfl⟩

theorem length_inColumns (texts : List String) :
    (inColumns texts).length = 9 * texts.length + excess texts := by
  induction texts with
  | nil => rfl
  | cons text texts ih =>
    have hsplit : inColumns (text :: texts) =
        ' ' :: text.toList.leftpad columnWidth ' ' ++ inColumns texts := rfl
    have hexcess : excess (text :: texts) = (text.length - 8) + excess texts := List.sum_cons
    rw [hsplit, List.length_append, ih, List.length_cons, List.length_leftpad, String.length_toList, hexcess,
      List.length_cons, columnWidth]
    omega

theorem inColumns_append (before after : List String) (text : String) :
    inColumns (before ++ text :: after) =
      inColumns before ++ [' '] ++ text.toList.leftpad 8 ' ' ++ inColumns after := by
  simp [inColumns, columnWidth]

theorem inColumns_standsAt (h : texts[k]? = some text) :
    StandsAt (inColumns texts) (9 * k + 1 + excess (texts.take k)) 8 text := by
  obtain ⟨hk, rfl⟩ := List.getElem?_eq_some_iff.mp h
  have hsplit : texts.take k ++ texts[k] :: texts.drop (k + 1) = texts := by
    rw [← List.drop_eq_getElem_cons hk, List.take_append_drop]
  have hplace : (inColumns (texts.take k) ++ [' ']).length = 9 * k + 1 + excess (texts.take k) := by
    rw [List.length_append, length_inColumns, List.length_take_of_le hk.le, List.length_singleton]
    omega
  have hstands := (standsAt_leftpad 8 texts[k]).append_left (inColumns (texts.take k) ++ [' '])
  rw [hplace, Nat.add_zero] at hstands
  have hline := hstands.append_right (inColumns (texts.drop (k + 1)))
  rwa [← inColumns_append, hsplit] at hline

theorem text_standsAt (hlabel : label.length = 12) (h : texts[k]? = some text) (tail : List Char) :
    StandsAt (label ++ [' ', '│'] ++ inColumns texts ++ tail) (15 + 9 * k + excess (texts.take k)) 8
      text := by
  have hplace : 15 + 9 * k + excess (texts.take k) =
      (label ++ [' ', '│']).length + (9 * k + 1 + excess (texts.take k)) := by
    rw [List.length_append, hlabel, List.length_cons, List.length_singleton]
    omega
  rw [hplace]
  exact ((inColumns_standsAt h).append_left _).append_right tail

theorem last_standsAt (hlabel : label.length = 12) (texts : List String) (last : String) (tail : List Char) :
    StandsAt (label ++ [' ', '│'] ++ inColumns texts ++ [' ', '│', ' '] ++ last.toList.leftpad 9 ' ' ++ tail)
      (17 + 9 * texts.length + excess texts) 9 last := by
  have hplace : 17 + 9 * texts.length + excess texts =
      (label ++ [' ', '│'] ++ inColumns texts ++ [' ', '│', ' ']).length + 0 := by
    simp only [List.length_append, hlabel, length_inColumns, List.length_cons, List.length_nil]
    omega
  rw [hplace]
  exact ((standsAt_leftpad 9 last).append_left _).append_right tail

end Lines

theorem excess_eq_zero {texts : List String} (h : ∀ text ∈ texts, text.length ≤ 8) : excess texts = 0 := by
  refine List.sum_eq_zero fun n hn => ?_
  obtain ⟨text, htext, rfl⟩ := List.mem_map.mp hn
  exact Nat.sub_eq_zero_of_le (h text htext)

theorem exists_of_forall₂ {α β : Type} {R : α → β → Prop} {l : List α} {l' : List β}
    (h : List.Forall₂ R l l') {k : ℕ} {a : α} (hk : l[k]? = some a) : ∃ b, l'[k]? = some b ∧ R a b := by
  obtain ⟨hlt, rfl⟩ := List.getElem?_eq_some_iff.mp hk
  have hlt' : k < l'.length := h.length_eq ▸ hlt
  exact ⟨l'[k], List.getElem?_eq_getElem hlt', h.get hlt hlt'⟩

variable {γ : Type} {strategy : Quantile.Strategy}

namespace Options

theorem length_label (period : Period) : (period.label.toList.rightpad nameWidth ' ').length = 12 := by
  cases period <;> rfl

theorem length_name (name : String) :
    ((name.toList.take nameWidth).rightpad nameWidth ' ').length = 12 := by
  rw [List.length_rightpad, List.length_take, nameWidth]
  omega

theorem heading_standsAt {o : Options} {k : ℕ} {heading : String} (h : o.headings[k]? = some heading)
    (period : Period) :
    StandsAt (o.header period) (15 + 9 * k + excess (o.headings.take k)) 8 heading := by
  rw [header, List.append_assoc, List.append_assoc]
  exact text_standsAt (length_label period) h _

theorem samples_standsAt (o : Options) (period : Period) :
    StandsAt (o.header period) (17 + 9 * o.headings.length + excess o.headings) 9 "samples" :=
  last_standsAt (length_label period) o.headings "samples" _

theorem cell_standsAt {o : Options} {gauge : Option Gauge} {key : EntityKey} {s : EntityStats γ}
    {period : Period} {k : ℕ} {cell : String} (h : (o.cells gauge key (period.window s))[k]? = some cell)
    (name : String) :
    StandsAt (o.row gauge period name key s)
      (15 + 9 * k + excess ((o.cells gauge key (period.window s)).take k)) 8 cell := by
  rw [row, List.append_assoc, List.append_assoc]
  exact text_standsAt (length_name name) h _

theorem count_standsAt (o : Options) (gauge : Option Gauge) (period : Period) (name : String)
    (key : EntityKey) (s : EntityStats γ) :
    let cells := o.cells gauge key (period.window s)
    StandsAt (o.row gauge period name key s) (17 + 9 * cells.length + excess cells) 9
      (count (period.window s).exact.count) :=
  last_standsAt (length_name name) _ _ _

theorem length_row {o : Options} {gauge : Option Gauge} {period : Period} {key : EntityKey}
    {s : EntityStats γ} (h : (o.cells gauge key (period.window s)).length = o.headings.length)
    (name : String) :
    (o.row gauge period name key s).length = o.lineWidth + excess (o.cells gauge key (period.window s)) +
      ((count (period.window s).exact.count).length - 9) := by
  rw [row]
  simp only [List.length_append, length_name, length_inColumns, h, List.length_leftpad, String.length_toList,
    List.length_cons, List.length_nil, countWidth]
  rw [lineWidth, nameWidth, columnWidth, countWidth]
  cases o.view with
  | latency => simp; omega
  | queue => simp [queueBar, length_bar]; omega

theorem take_row (o : Options) (gauge : Option Gauge) (period : Period) (name : String)
    (key : EntityKey) (s : EntityStats γ) :
    (o.row gauge period name key s).take 12 = (name.toList.take 12).rightpad 12 ' ' := by
  simp only [row, List.append_assoc]
  exact List.take_left' (length_name name)

theorem bar_suffix {o : Options} (hview : o.view = .queue) (gauge : Option Gauge) (period : Period)
    (name : String) (key : EntityKey) (s : EntityStats γ) :
    ∃ before, o.row gauge period name key s = before ++ '[' :: o.queueBar gauge key s ++ [']'] := by
  have hsuffix : ∀ front : List Char, front ++ ([' ', ' ', '['] ++ o.queueBar gauge key s ++ [']']) =
      front ++ [' ', ' '] ++ '[' :: o.queueBar gauge key s ++ [']'] := fun front => by
    simp only [List.append_assoc, List.cons_append, List.nil_append]
  rw [row, if_pos hview]
  exact ⟨_, hsuffix _⟩

end Options

def Period.values (changes : List Change) : Period → List ℕ
  | interval => Change.latest changes
  | lifetime => Change.recorded changes

section Run

variable [Draws γ]

open Registry (history)

theorem reports_of_mem_entities {draws : EntityKey → γ × γ} {start time : Instant}
    {calls : List Registry.Call} {key : EntityKey} {s : EntityStats γ}
    (hmem : (key, s) ∈ (((Registry.empty strategy draws start).run calls).snapshot time).entities)
    (period : Period) :
    (period.window s).Reports strategy (period.values (history key calls)) := by
  obtain ⟨-, rfl⟩ := (Registry.mem_entities_run_iff strategy draws start calls time key s).mp hmem
  cases period with
  | interval => exact (EntityStats.interval_replay_shows strategy _ _).snapshot_reports
  | lifetime => exact (EntityStats.lifetime_replay_shows strategy _ _).snapshot_reports

/-- The row of an entity under the header of its table. Every column has its heading, and under it the cell
with what it has to tell, a dash only where there is nothing to tell; both stand in their places, which are
moved by no more than what is too wide before them. The last columns of the largest values ascend to the
maximum. The row is as long as a rule but for what cells and the count have too much, whatever the name. -/
theorem rows_line_up (draws : EntityKey → γ × γ) (start time : Instant) (calls : List Registry.Call)
    (o : Options) (gauge : Option Gauge) (period : Period) {key : EntityKey} {s : EntityStats γ}
    (hmem : (key, s) ∈ (((Registry.empty strategy draws start).run calls).snapshot time).entities)
    (name : String) :
    let values := period.values (history key calls)
    let w := period.window s
    let now := gauge.bind (·.get? key)
    let cells := o.cells gauge key w
    let header := o.header period
    let row := o.row gauge period name key s
    cells.length = o.headings.length ∧ cells.length = o.columns.length ∧
      (∀ (k : ℕ) (c : Column), o.columns[k]? = some c → ∃ heading cell,
        o.headings[k]? = some heading ∧ cells[k]? = some cell ∧
          c.Headed o.view heading.toList ∧ Tells (c.quantity o.view values w.quantile now) cell.toList ∧
          (strategy.check = .ok () → (cell = "-" ↔ c.Missing values now)) ∧
          StandsAt header (15 + 9 * k + excess (o.headings.take k)) 8 heading ∧
          StandsAt row (15 + 9 * k + excess (cells.take k)) 8 cell) ∧
      (w.top.values = largest 5 values ∧ w.top.values.Pairwise (· ≤ ·) ∧
        w.top.values.getLast? = values.max?) ∧
      (∃ number, CountText values.length number.toList ∧
        StandsAt header (17 + 9 * cells.length + excess o.headings) 9 "samples" ∧
        StandsAt row (17 + 9 * cells.length + excess cells) 9 number ∧
        row.length = o.lineWidth + excess cells + (number.length - 9) ∧
        ((∀ cell ∈ cells, cell.length ≤ 8) → number.length ≤ 9 → row.length = o.lineWidth)) ∧
      row.take 12 = (name.toList.take 12).rightpad 12 ' ' ∧
      (o.view = .queue → ∃ before, row = before ++ '[' :: o.queueBar gauge key s ++ [']']) := by
  intro values w now cells header row
  have hreports : w.Reports strategy values := reports_of_mem_entities hmem period
  have htells := Options.cells_tell hreports o gauge key
  have hcolumns : cells.length = o.columns.length := htells.length_eq.symm
  have hheadings : cells.length = o.headings.length := hcolumns.trans o.headings_headed.length_eq
  have hcount : w.exact.count = values.length := by
    rw [hreports.exact]
    rfl
  refine ⟨hheadings, hcolumns, ?_, ?_, ?_, ?_, ?_⟩
  · intro k c hc
    obtain ⟨heading, hheading, hheaded⟩ := exists_of_forall₂ o.headings_headed hc
    obtain ⟨cell, hcell, htell⟩ := exists_of_forall₂ htells hc
    refine ⟨heading, cell, hheading, hcell, hheaded, htell, fun hcheck => ?_,
      Options.heading_standsAt hheading period, Options.cell_standsAt hcell name⟩
    have hdash : cell = "-" ↔ cell.toList = ['-'] := String.toList_inj.symm
    exact (hdash.trans htell.dash_iff).trans (Column.quantity_eq_none_iff hreports hcheck o.view now c)
  · rw [hreports.top]
    exact ⟨rfl, largest_ascending _ _, getLast?_largest (by decide) values⟩
  · have hlength : row.length = o.lineWidth + excess cells + ((count w.exact.count).length - 9) :=
      Options.length_row hheadings name
    rw [hcount] at hlength
    refine ⟨count values.length, count_text values.length, ?_, ?_, hlength, fun hcells hnumber => ?_⟩
    · rw [hheadings]
      exact o.samples_standsAt period
    · rw [← hcount]
      exact o.count_standsAt gauge period name key s
    · rw [hlength, excess_eq_zero hcells, Nat.sub_eq_zero_of_le hnumber]
      rfl
  · exact o.take_row gauge period name key s
  · exact fun hview => Options.bar_suffix hview gauge period name key s

def topView : Options where
  heading := "Latency"
  view := .latency
  percentiles := [50]
  showTop := true
  batch := true
  interval := .zero
  strategy := ""
  barWidth := 0
  fullScale := []

def medianView : Options := { tenCells with percentiles := [50, 99] }

def depthCalls : List Registry.Call := [.record (.group 0) 3, .record (.group 0) 0, .record (.group 0) 5]

def depthStats : EntityStats (List ℕ) :=
  (EntityStats.replay (.histogram 15) ([], []) (history (.group 0) depthCalls)).snapshot

theorem medianView_cells : medianView.cells (some (depthGauge 3)) (.group 0) depthStats.lifetime =
    ["3", "66.7%", "3.00", "2.67", "4.96"] := by
  decide +kernel

/-- The largest of three values is in the last column of the one view, and their average comes after the
median in the other. -/
theorem rows_line_up_two_views :
    let r : Registry (List ℕ) := (Registry.empty (.histogram 15) (fun _ => ([], [])) 0).run depthCalls
    let gauge := some (depthGauge 3)
    (.group 0, depthStats) ∈ (r.snapshot 2).entities ∧
      (let cells := topView.cells gauge (.group 0) depthStats.interval
      StandsAt (topView.header .interval) (78 + excess (topView.headings.take 7)) 8 "max" ∧
        StandsAt (topView.row gauge .interval "render" (.group 0) depthStats)
          (78 + excess (cells.take 7)) 8 "5µs") ∧
      (let row := medianView.row gauge .lifetime "render" (.group 0) depthStats
      StandsAt (medianView.header .lifetime) (42 + excess (medianView.headings.take 3)) 8 "Avg" ∧
        StandsAt row 42 8 "2.67" ∧ row.length = medianView.lineWidth ∧
        String.ofList row =
          "render       │        3    66.7%     3.00     2.67     4.96 │         3  [████████░░]") := by
  intro r gauge
  have hmem : (.group 0, depthStats) ∈ (r.snapshot 2).entities :=
    (Registry.mem_entities_run_iff _ _ 0 depthCalls 2 (.group 0) _).mpr ⟨by decide, rfl⟩
  refine ⟨hmem, ?_, ?_⟩
  · obtain ⟨-, -, hlined, -⟩ := rows_line_up _ 0 2 depthCalls topView gauge .interval hmem "render"
    obtain ⟨heading, cell, -, -, hheaded, htells, -, hheader, hrow⟩ := hlined 7 .greatest rfl
    obtain rfl : heading = "max" := String.toList_inj.mp hheaded
    obtain rfl : cell = "5µs" := String.toList_inj.mp htells
    exact ⟨hheader, hrow⟩
  · obtain ⟨-, -, hlined, -, ⟨number, hnumber, -, -, -, hwidth⟩, -⟩ :=
      rows_line_up _ 0 2 depthCalls medianView gauge .lifetime hmem "render"
    have hmedian : ((50 : Float) == 50) = true := by decide +kernel
    have haverage : medianView.columns[3]? = some .average := by
      simp [Options.columns, medianView, tenCells, withAverage, hmedian]
    obtain ⟨heading, cell, -, hcell, hheaded, -, -, hheader, hrow⟩ := hlined 3 .average haverage
    have hcells : medianView.cells gauge (.group 0) (Period.lifetime.window depthStats) =
        ["3", "66.7%", "3.00", "2.67", "4.96"] := medianView_cells
    rw [hcells] at hcell hrow hwidth
    obtain rfl : heading = "Avg" := String.toList_inj.mp hheaded
    obtain rfl : "2.67" = cell := Option.some.inj hcell
    obtain rfl : number = "3" := String.toList_inj.mp hnumber
    exact ⟨hheader, hrow, hwidth (by decide) (by decide), by decide +kernel⟩

end Run

end QuantileMonitor.Frame

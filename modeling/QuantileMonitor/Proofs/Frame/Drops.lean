import Mathlib.Algebra.GroupWithZero.Nat
import QuantileMonitor.Frame.Screen

/-!
# Drops told in frames

A frame first reads the totals, then takes the drops that no frame has told, and is written last; samples
may be dropped at any point in between. What it took is told only if it is written and if the totals that
it had read were not zero. Whatever the order of events, the drops told, those on their way, those not
taken yet and those lost make up all drops.
-/

namespace QuantileMonitor.Frame

open Device Ingest

variable {γ : Type}

structure Sight (γ : Type) where
  tree : SysTree
  clock : String
  gauge : Option Gauge
  snapshot : Snapshot γ

structure Report where
  frame : String
  totals : Totals
  recent : Nat
  meanwhile : Nat
  written : Bool

theorem dropNote_eq_empty_iff (dropped recent : Nat) : dropNote dropped recent = "" ↔ dropped = 0 := by
  rw [dropNote]
  split
  next h => simp [h]
  next h =>
    refine iff_of_false (fun hnote => ?_) h
    have hlength := congrArg String.length hnote
    have hbegin : " | Dropped: ".length = 12 := by decide
    simp only [String.length_append, hbegin, String.length_empty] at hlength
    omega

theorem Options.text_append (o : Options) (above below : List (List Char)) (line : List Char) :
    o.text (above ++ line :: below) =
      o.text above ++ String.ofList line ++ ("\n" ++ String.ofList (below.flatMap (· ++ ['\n']))) := by
  apply String.toList_injective
  simp [text]

theorem Screen.build_note (s : Screen) (v : Sight γ) (totals : Totals) (recent : Nat) :
    ∃ before after, (s.build v.tree v.clock v.gauge v.snapshot totals recent).1 =
      before ++ dropNote totals.dropped recent ++ after := by
  obtain ⟨head, rest, hsummary⟩ : ∃ head rest, summary s.last v.snapshot totals recent =
      head ++ dropNote totals.dropped recent ++ rest := ⟨_, _, rfl⟩
  have hline : (summary s.last v.snapshot totals recent).toList ∈
      s.options.lines v.clock v.gauge (s.names.all v.tree (v.snapshot.entities.map (·.1))).1 v.snapshot
        (summary s.last v.snapshot totals recent) := by
    simp [Options.lines]
  obtain ⟨above, below, hlines⟩ := List.append_of_mem hline
  refine ⟨s.options.text above ++ head,
    rest ++ ("\n" ++ String.ofList (below.flatMap (· ++ ['\n']))), ?_⟩
  rw [build]
  dsimp only
  rw [hlines, Options.text_append, String.ofList_toList, hsummary]
  simp only [String.append_assoc]

namespace Report

def Tells (f : Report) : Prop := f.written = true ∧ dropNote f.totals.dropped f.recent ≠ ""

theorem tells_iff (f : Report) : f.Tells ↔ f.written = true ∧ f.totals.dropped ≠ 0 := by
  rw [Tells, Ne, dropNote_eq_empty_iff]

instance (f : Report) : Decidable f.Tells := decidable_of_iff _ (tells_iff f).symm

def told (f : Report) : Nat := if f.Tells then f.recent else 0

def untold (f : Report) : Nat := if f.Tells then 0 else f.recent

theorem told_add_untold (f : Report) : f.told + f.untold = f.recent := by
  rw [told, untold]
  split <;> omega

theorem untold_eq_zero_iff (f : Report) :
    f.untold = 0 ↔ (f.recent ≠ 0 → f.written = true ∧ f.totals.dropped ≠ 0) := by
  rw [← tells_iff, untold]
  split
  next h => simp [h]
  next h => simp [h]

/-- The note stands in the frame as it is, and tells no more drops than there were. -/
structure Faithful (f : Report) : Prop where
  note : ∃ before after, f.frame = before ++ dropNote f.totals.dropped f.recent ++ after
  recent : f.recent ≤ f.totals.dropped + f.meanwhile

end Report

inductive Act (γ : Type)
  | drop
  | look
  | build (sight : Sight γ)
  | write (ending : Ending)

def Act.isDrop : Act γ → Bool
  | .drop => true
  | _ => false

inductive Step
  | idle
  | reading (totals : Totals)
  | writing (report : Report)

def Step.taken : Step → Nat
  | .writing report => report.recent
  | _ => 0

structure Reporter where
  screen : Screen
  output : Output
  counters : Counters
  step : Step
  frames : List Report

namespace Reporter

def start (options : Options) (names : Names) : Reporter :=
  ⟨.start options names, .start, .zero, .idle, []⟩

def act (r : Reporter) : Act γ → Reporter
  | .drop => { r with counters := r.counters.drop }
  | .look =>
    match r.step with
    | .idle => { r with step := .reading r.counters.totals }
    | _ => r
  | .build s =>
    match r.step with
    | .reading totals =>
      let (recent, counters) := r.counters.takeDropped
      let (frame, screen) := r.screen.build s.tree s.clock s.gauge s.snapshot totals recent
      let report : Report := ⟨frame, totals, recent, counters.totals.dropped - totals.dropped, false⟩
      { r with screen, counters, step := .writing report }
    | _ => r
  | .write ending =>
    match r.step with
    | .writing report =>
      let written := r.output.isOpen && ending = .written
      { r with
        output := r.output.write ending report.frame
        step := .idle
        frames := r.frames ++ [{ report with written }] }
    | _ => r

def run (r : Reporter) (acts : List (Act γ)) : Reporter := acts.foldl act r

theorem run_render {r : Reporter} (h : r.step = .idle) (s : Sight γ) (ending : Ending) :
    let drawn := r.screen.render s.tree s.clock s.gauge s.snapshot r.counters
    let r' := r.run [.look, .build s, .write ending]
    r'.screen = drawn.2.1 ∧ r'.counters = drawn.2.2 ∧ r'.output = r.output.write ending drawn.1 := by
  obtain ⟨screen, output, counters, step, frames⟩ := r
  cases h
  exact ⟨rfl, rfl, rfl⟩

def told (r : Reporter) : Nat := (r.frames.map (·.told)).sum

def untold (r : Reporter) : Nat := (r.frames.map (·.untold)).sum

structure Accounts (drops : Nat) (r : Reporter) : Prop where
  dropped : r.counters.totals.dropped = drops
  total : r.told + r.counters.unreported + r.step.taken + r.untold = drops
  read : ∀ totals, r.step = .reading totals → totals.dropped ≤ drops
  under : ∀ f, r.step = .writing f → f.Faithful
  drawn : ∀ f ∈ r.frames, f.Faithful
  written : r.output.frames = r.frames.countP (·.written)

theorem start_accounts (options : Options) (names : Names) : Accounts 0 (start options names) where
  dropped := rfl
  total := rfl
  read := nofun
  under := nofun
  drawn := nofun
  written := rfl

namespace Accounts

variable {drops : Nat} {r : Reporter}

theorem drop (h : Accounts drops r) : Accounts (drops + 1) (r.act (.drop : Act γ)) where
  dropped := congrArg (· + 1) h.dropped
  total := by
    have htotal := h.total
    simp only [act, told, untold, Counters.drop] at htotal ⊢
    omega
  read := fun totals hstep => Nat.le_succ_of_le (h.read totals hstep)
  under := h.under
  drawn := h.drawn
  written := h.written

theorem look (h : Accounts drops r) : Accounts drops (r.act (.look : Act γ)) := by
  rw [act]
  split
  next hstep =>
    have htotal := h.total
    rw [hstep] at htotal
    refine ⟨h.dropped, htotal, ?_, nofun, h.drawn, h.written⟩
    rintro totals ⟨⟩
    exact Nat.le_of_eq h.dropped
  next => exact h

theorem build (h : Accounts drops r) (s : Sight γ) : Accounts drops (r.act (.build s)) := by
  rw [act]
  split
  next totals hstep =>
    have htotal := h.total
    have hread := h.read totals hstep
    have hdropped := h.dropped
    rw [hstep] at htotal
    refine ⟨hdropped, ?_, nofun, ?_, h.drawn, h.written⟩
    · simp only [told, untold, Counters.takeDropped, Step.taken] at htotal ⊢
      omega
    · rintro f ⟨⟩
      refine ⟨r.screen.build_note s totals r.counters.unreported, ?_⟩
      dsimp only [Counters.takeDropped]
      omega
  next => exact h

theorem write (h : Accounts drops r) (ending : Ending) :
    Accounts drops (r.act (.write ending : Act γ)) := by
  rw [act]
  split
  next f hstep =>
    have htotal := h.total
    have hunder := h.under f hstep
    rw [hstep] at htotal
    refine ⟨h.dropped, ?_, nofun, nofun, ?_, ?_⟩
    · -- What the frame took counts as told or as untold from now on.
      have hsplit := Report.told_add_untold { f with written := r.output.isOpen && ending = .written }
      simp only [told, untold, List.map_append, List.sum_append, List.map_cons, List.map_nil,
        List.sum_singleton, Step.taken] at htotal hsplit ⊢
      omega
    · intro f' hf'
      rcases List.mem_append.mp hf' with hf' | hf'
      · exact h.drawn f' hf'
      · rw [List.mem_singleton.mp hf']
        exact ⟨hunder.note, hunder.recent⟩
    · have hwritten := h.written
      rw [List.countP_append, ← hwritten, Output.write]
      cases hopen : r.output.isOpen with
      | false => simp
      | true => cases ending <;> simp
  next => exact h

theorem act (h : Accounts drops r) (a : Act γ) :
    Accounts (drops + [a].countP Act.isDrop) (r.act a) := by
  cases a with
  | drop => exact h.drop
  | look => exact h.look
  | build s => exact h.build s
  | write ending => exact h.write ending

theorem run (h : Accounts drops r) (acts : List (Act γ)) :
    Accounts (drops + acts.countP Act.isDrop) (r.run acts) := by
  induction acts generalizing drops r with
  | nil => exact h
  | cons a acts ih =>
    have hrest := ih (h.act a)
    rw [Nat.add_assoc, ← List.countP_append, List.singleton_append] at hrest
    exact hrest

theorem untold_eq_zero_iff (r : Reporter) :
    r.untold = 0 ↔ ∀ f ∈ r.frames, f.recent ≠ 0 → f.written = true ∧ f.totals.dropped ≠ 0 := by
  rw [untold]
  induction r.frames with
  | nil => simp
  | cons f frames ih =>
    rw [List.map_cons, List.sum_cons, Nat.add_eq_zero_iff, ih, Report.untold_eq_zero_iff,
      List.forall_mem_cons]

end Accounts

/-- In every run all drops are told, not taken yet, on their way or untold. Between frames those told and
those not taken yet are all drops exactly if each frame that took some was written and had not read a zero.
It had read a zero only if what it took fell between its readings. A frame without drops in between is what
the screen renders at once. -/
theorem drops_told_iff (options : Options) (names : Names) (acts : List (Act γ)) :
    let r := (start options names).run acts
    let drops := acts.countP Act.isDrop
    r.counters.totals.dropped = drops ∧ r.output.frames = r.frames.countP (·.written) ∧
      r.told + r.counters.unreported + r.step.taken + r.untold = drops ∧
      (r.step = .idle → (r.told + r.counters.unreported = drops ↔
        ∀ f ∈ r.frames, f.recent ≠ 0 → f.written = true ∧ f.totals.dropped ≠ 0)) ∧
      (∀ f ∈ r.frames, f.Faithful) ∧
      (r.step = .idle → ∀ (s : Sight γ) ending,
        let drawn := r.screen.render s.tree s.clock s.gauge s.snapshot r.counters
        let r' := r.run [.look, .build s, .write ending]
        r'.screen = drawn.2.1 ∧ r'.counters = drawn.2.2 ∧
          r'.output = r.output.write ending drawn.1) := by
  intro r drops
  have h : Accounts (0 + drops) r := (start_accounts options names).run acts
  rw [Nat.zero_add] at h
  have htotal := h.total
  refine ⟨h.dropped, h.written, htotal, fun hidle => ?_, h.drawn, run_render⟩
  have htaken : r.step.taken = 0 := by
    rw [hidle]
    rfl
  rw [← Accounts.untold_eq_zero_iff]
  omega

def plain : Options := ⟨"", .latency, [], false, true, .zero, "", 0, []⟩

def nothing : Sight (List Nat) := ⟨⟨"", .empty⟩, "", none, ⟨0, 0, 0, 0, []⟩⟩

/-- A drop is lost by a frame that cannot be written, and by one that reads the totals before the drop and
takes it afterwards. The frame that follows does not make up for it. -/
theorem drop_goes_untold :
    let first := start plain (.ofGroups [])
    let failing := first.run
      [.drop, .look, .build nothing, .write .failed, .look, .build nothing, .write .written]
    let between := first.run
      [.look, .drop, .build nothing, .write .written, .look, .build nothing, .write .written]
    (failing.step = .idle ∧ failing.counters.totals.dropped = 1 ∧
      failing.told + failing.counters.unreported = 0) ∧
    between.step = .idle ∧ between.counters.totals.dropped = 1 ∧
      between.told + between.counters.unreported = 0 :=
  ⟨⟨rfl, rfl, rfl⟩, rfl, rfl, rfl⟩

end Reporter

end QuantileMonitor.Frame

import QuantileMonitor.Proofs.Text.Fields

/-!
# Lines

A text has no line feed, or it begins with a line that ends at its first one. Where a line stands is said
by the text before it, which is empty or ends with a line feed, and by what follows it: a line feed, one
with a carriage return before it, or nothing.
-/

namespace QuantileMonitor.Text

def StartsLine (before : List Char) : Prop := ∀ c ∈ before.getLast?, c = '\n'

def EndsLine (after : List Char) : Prop := after = [] ∨ ['\n'] <+: after ∨ ['\r', '\n'] <+: after

structure LineAt (text before line : List Char) : Prop where
  starts : StartsLine before
  whole : '\n' ∉ line
  inside : ∃ after, text = before ++ line ++ after ∧ EndsLine after

variable {s line before after rest start : List Char}

/-- One line after the other, up to the last one, which no line feed ends. -/
@[elab_as_elim]
theorem lineInduction {motive : List Char → Prop} (last : ∀ line, '\n' ∉ line → motive line)
    (more : ∀ line rest, '\n' ∉ line → motive rest → motive (line ++ '\n' :: rest)) (s : List Char) :
    motive s := by
  induction hn : s.length using Nat.strong_induction_on generalizing s with
  | _ n ih =>
    by_cases h : '\n' ∈ s
    · obtain ⟨line, rest, rfl, hline⟩ := List.eq_append_cons_of_mem h
      rw [List.length_append, List.length_cons] at hn
      exact more line rest hline (ih rest.length (by omega) rest rfl)
    · exact last s h

theorem splitOn_append_cons {separator : Char} (h : separator ∉ s) (rest : List Char) :
    splitOn separator (s ++ separator :: rest) = s :: splitOn separator rest := by
  induction s with
  | nil => simp [splitOn]
  | cons c s ih =>
    obtain ⟨hc, hs⟩ := not_or.mp fun hin => h (List.mem_cons.mpr hin)
    rw [List.cons_append, splitOn, if_neg (Ne.symm hc), ih hs]

theorem splitOn_ne_nil (separator : Char) (s : List Char) : splitOn separator s ≠ [] := by
  rw [splitOn_eq]
  exact List.splitOn_ne_nil separator s

theorem lines_of_not_mem (h : '\n' ∉ s) : lines s = if s.isEmpty then [] else [s] := by
  rw [lines, splitOn_of_not_mem h, endLines]

theorem lines_append_cons (h : '\n' ∉ line) (rest : List Char) :
    lines (line ++ '\n' :: rest) = dropReturn line :: lines rest := by
  obtain ⟨piece, pieces, hpieces⟩ := List.exists_cons_of_ne_nil (splitOn_ne_nil '\n' rest)
  rw [lines, splitOn_append_cons h, hpieces, endLines, ← hpieces, lines]
  exact List.cons_ne_nil piece pieces

theorem eq_of_append_cons_eq {s' rest' : List Char} (h : '\n' ∉ s) (h' : '\n' ∉ s')
    (heq : s ++ '\n' :: rest = s' ++ '\n' :: rest') : s = s' ∧ rest = rest' := by
  have hcut : ∀ {t : List Char} (more : List Char), '\n' ∉ t →
      (t ++ '\n' :: more).takeWhile (· ≠ '\n') = t := by
    intro t more ht
    rw [List.takeWhile_append_of_pos fun c hc => by simpa using ne_of_mem_of_not_mem hc ht]
    simp
  have hs : s = s' := by rw [← hcut rest h, heq, hcut rest' h']
  subst hs
  simpa using heq

theorem StartsLine.eq_nil (h : StartsLine before) (hbefore : '\n' ∉ before) : before = [] := by
  rcases List.eq_nil_or_concat before with rfl | ⟨front, c, rfl⟩
  · rfl
  · have hc : c = '\n' := h c (by simp)
    exact absurd (by simp [hc]) hbefore

theorem EndsLine.eq_nil (h : EndsLine after) (hafter : '\n' ∉ after) : after = [] := by
  obtain h | ⟨more, rfl⟩ | ⟨more, rfl⟩ := h
  · exact h
  · exact absurd (by simp) hafter
  · exact absurd (by simp) hafter

theorem startsLine_append_cons : StartsLine (s ++ '\n' :: before) ↔ StartsLine before := by
  rcases List.eq_nil_or_concat before with rfl | ⟨front, c, rfl⟩
  · simp [StartsLine]
  · simp [StartsLine, List.getLast?_append, List.getLast?_cons]

theorem lineAt_iff_of_not_mem (h : '\n' ∉ s) : LineAt s before line ↔ before = [] ∧ line = s := by
  constructor
  · rintro ⟨hstarts, -, after, rfl, hends⟩
    simp only [List.mem_append, not_or] at h
    rw [hstarts.eq_nil h.1.1, hends.eq_nil h.2]
    simp
  · rintro ⟨rfl, rfl⟩
    exact ⟨nofun, h, [], by simp, .inl rfl⟩

def Ended (line s : List Char) : Prop := line = s ∨ line ++ ['\r'] = s

theorem LineAt.ended (h : '\n' ∉ s) (hline : LineAt (s ++ '\n' :: rest) [] line) : Ended line s := by
  obtain ⟨-, hwhole, after, heq, hends⟩ := hline
  rw [List.nil_append] at heq
  obtain rfl | ⟨more, rfl⟩ | ⟨more, rfl⟩ := hends
  · rw [List.append_nil] at heq
    exact absurd (by simp [← heq]) hwhole
  · exact .inl (eq_of_append_cons_eq h hwhole heq).1.symm
  · have hreturn : '\n' ∉ line ++ ['\r'] := by simp [hwhole]
    have heq' : s ++ '\n' :: rest = (line ++ ['\r']) ++ '\n' :: more := by simpa using heq
    exact .inr (eq_of_append_cons_eq h hreturn heq').1.symm

theorem Ended.lineAt (h : '\n' ∉ s) (hline : Ended line s) (rest : List Char) :
    LineAt (s ++ '\n' :: rest) [] line := by
  obtain rfl | rfl := hline
  · exact ⟨nofun, h, '\n' :: rest, by simp, .inr (.inl ⟨rest, rfl⟩)⟩
  · rw [List.mem_append, not_or] at h
    exact ⟨nofun, h.1, '\r' :: '\n' :: rest, by simp, .inr (.inr ⟨rest, rfl⟩)⟩

theorem lineAt_append_cons_iff (h : '\n' ∉ s) : LineAt (s ++ '\n' :: rest) before line ↔
    before = [] ∧ Ended line s ∨ ∃ before', before = s ++ '\n' :: before' ∧ LineAt rest before' line := by
  constructor
  · intro hline
    by_cases hbefore : '\n' ∈ before
    · obtain ⟨front, before, rfl, hfront⟩ := List.eq_append_cons_of_mem hbefore
      obtain ⟨hstarts, hwhole, after, heq, hends⟩ := hline
      have heq' : s ++ '\n' :: rest = front ++ '\n' :: (before ++ line ++ after) := by simpa using heq
      obtain ⟨rfl, rfl⟩ := eq_of_append_cons_eq h hfront heq'
      exact .inr ⟨before, rfl, startsLine_append_cons.mp hstarts, hwhole, after, rfl, hends⟩
    · obtain rfl := hline.starts.eq_nil hbefore
      exact .inl ⟨rfl, hline.ended h⟩
  · rintro (⟨rfl, hended⟩ | ⟨before, rfl, hstarts, hwhole, after, rfl, hends⟩)
    · exact hended.lineAt h rest
    · exact ⟨startsLine_append_cons.mpr hstarts, hwhole, after, by simp, hends⟩

theorem dropStart?_eq_some_iff : dropStart? start s = some rest ↔ s = start ++ rest := by
  induction start generalizing s with
  | nil => simp [dropStart?, eq_comm]
  | cons p start ih =>
    cases s with
    | nil => simp [dropStart?]
    | cons c s =>
      rw [dropStart?, List.cons_append, List.cons.injEq]
      split_ifs with hp
      · simp [ih, hp]
      · simp [Ne.symm hp]

end QuantileMonitor.Text

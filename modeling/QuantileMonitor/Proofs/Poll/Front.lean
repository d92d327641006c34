import QuantileMonitor.Poll.Poller
import QuantileMonitor.Proofs.Poll.Counters

/-!
# The front of a depth file

Only the first bytes of a file are read, so its depth is the depth of its front. That is the depth of the
whole file if the file is short, and otherwise just when both have depth 0, or when what is left over goes on
with the second counter by nothing that matters: by blanks, or by digits that do not change the sum.
-/

namespace QuantileMonitor.Poll

open Text

/-- Behind two counters: digits that make the second one longer, if the text does end in it, and blanks. -/
def GoesOn (text more : List Char) (writes writes' : Nat) : Prop :=
  ∃ digits after, more = digits ++ after ∧ Digits digits ∧ Blank after ∧
    (digits ≠ [] → ∀ c ∈ text.getLast?, c.isDigit = true) ∧ Nat.ofDigitChars 10 digits writes = writes'

variable {text more head second after : List Char} {reads writes reads' writes' : Nat}

def Leads (head : List Char) (reads : Nat) : Prop :=
  ClosesWord head ∧ ∃ first, fields head = [first] ∧ Numeral first reads ∧ reads < Word.bound

theorem Leads.fields_append (h : Leads head reads) (rest : List Char) :
    ∃ first, fields (head ++ rest) = first :: fields rest ∧ Numeral first reads ∧ reads < Word.bound := by
  obtain ⟨hcloses, first, hfirst, hreads, hlt⟩ := h
  exact ⟨first, by rw [Text.fields_append hcloses, hfirst]; rfl, hreads, hlt⟩

theorem counters_iff_leads : Counters text reads writes ↔ ∃ head second after,
    text = head ++ (second ++ after) ∧ Leads head reads ∧ Numeral second writes ∧ writes < Word.bound ∧
      Blank after := by
  constructor
  · rintro ⟨before, first, between, second, after, rfl, hbefore, hfirst, hbetween, hne, hsecond, hafter,
      hreads, hwrites⟩
    have hfields : fields (before ++ first ++ between) = [first] :=
      fields_eq_cons_iff.mpr
        ⟨before, between, rfl, hbefore, hfirst.solid, hbetween.endsWord, fields_eq_nil_iff.mpr hbetween⟩
    exact ⟨_, second, after, by simp, ⟨hbetween.closesWord hne _, first, hfields, hfirst, hreads⟩, hsecond,
      hwrites, hafter⟩
  · rintro ⟨head, second, after, rfl, hhead, hsecond, hwrites, hafter⟩
    obtain ⟨first, hfields, hfirst, hreads⟩ := hhead.fields_append (second ++ after)
    rw [fields_solid_append hsecond.solid hafter.endsWord, fields_eq_nil_iff.mpr hafter] at hfields
    exact counters_iff.mpr ⟨first, second, hfields, unsigned?_eq_some_iff.mpr ⟨hfirst, hreads⟩,
      unsigned?_eq_some_iff.mpr ⟨hsecond, hwrites⟩⟩

theorem Counters.append (h : Counters text reads writes) (hmore : GoesOn text more writes writes')
    (hlt : writes' < Word.bound) : Counters (text ++ more) reads writes' := by
  obtain ⟨head, second, after, rfl, hhead, hsecond, hwrites, hafter⟩ := counters_iff_leads.mp h
  obtain ⟨digits, after', rfl, hdigits, hafter', hlast, rfl⟩ := hmore
  apply counters_iff_leads.mpr
  by_cases hnone : digits = []
  · subst hnone
    exact ⟨head, second, after ++ after', by simp, hhead, hsecond, hwrites, hafter.append hafter'⟩
  · -- A digit can only follow where no blank stands behind the second counter.
    obtain rfl : after = [] := by
      rcases List.eq_nil_or_concat after with hnil | ⟨after, c, rfl⟩
      · exact hnil
      · have hc := hlast hnone c (by simp)
        have hblank := hafter c (by simp)
        rw [isBlank_of_isDigit hc] at hblank
        cases hblank
    exact ⟨head, second ++ digits, after', by simp, hhead, hsecond.append hdigits, hlt, hafter'⟩

theorem Counters.goesOn (h : Counters text reads writes) (hlong : Counters (text ++ more) reads' writes') :
    reads' = reads ∧ writes' < Word.bound ∧ GoesOn text more writes writes' := by
  obtain ⟨head, second, after, rfl, hhead, hsecond, -, hafter⟩ := counters_iff_leads.mp h
  obtain ⟨first', second', hfields', hfirst', hsecond'⟩ := counters_iff.mp hlong
  rw [unsigned?_eq_some_iff] at hfirst' hsecond'
  obtain ⟨first, hfields, hfirst, -⟩ := hhead.fields_append (second ++ after ++ more)
  rw [← List.append_assoc, hfields'] at hfields
  obtain ⟨rfl, hrest⟩ := List.cons.inj hfields
  refine ⟨hfirst'.1.unique hfirst, hsecond'.2, ?_⟩
  by_cases hnone : after = []
  · -- The second counter is still open: a run of further characters belongs to it.
    subst hnone
    obtain ⟨run, rest, rfl, hrun, hends⟩ := exists_run more
    have hsolid : Solid (second ++ run) := by
      refine ⟨by simp [hsecond.solid.1], fun c hc => ?_⟩
      exact (List.mem_append.mp hc).elim (hsecond.solid.2 c) (hrun c)
    rw [List.append_nil, ← List.append_assoc, fields_solid_append hsolid hends] at hrest
    obtain ⟨rfl, hnil⟩ := List.cons.inj hrest
    obtain ⟨hdigits, hvalue⟩ := (numeral_append_iff hsecond).mp hsecond'.1
    refine ⟨run, rest, rfl, hdigits, fields_eq_nil_iff.mp hnil.symm, fun _ => ?_, hvalue⟩
    rw [List.append_nil, List.getLast?_append_of_ne_nil head hsecond.solid.1]
    exact hsecond.isDigit_getLast
  · rw [Text.fields_append (hafter.closesWord hnone second), fields_solid_append hsecond.solid hafter.endsWord,
      fields_eq_nil_iff.mpr hafter] at hrest
    obtain ⟨rfl, hnil⟩ := List.cons.inj hrest
    have hblank : Blank more := fields_eq_nil_iff.mp hnil.symm
    exact ⟨[], more, rfl, nofun, hblank, fun h => absurd rfl h, hsecond.unique hsecond'.1⟩

variable {front rest : ByteArray}

theorem holds_append_iff (h : Holds front reads writes) :
    Holds (front ++ rest) reads' writes' ↔ reads' = reads ∧ writes' < Word.bound ∧
      ∃ text more, front = text.utf8Encode ∧ rest = more.utf8Encode ∧ GoesOn text more writes writes' := by
  obtain ⟨text, rfl, hcounters⟩ := h
  constructor
  · rintro ⟨whole, hwhole, hlong⟩
    obtain ⟨more, rfl⟩ := List.isPrefix_of_utf8Encode_append_eq_utf8Encode rest hwhole
    rw [List.utf8Encode_append, ByteArray.append_right_inj] at hwhole
    obtain ⟨hreads, hlt, hmore⟩ := hcounters.goesOn hlong
    exact ⟨hreads, hlt, text, more, rfl, hwhole, hmore⟩
  · rintro ⟨rfl, hlt, text', more, htext, rfl, hmore⟩
    obtain rfl := utf8Encode_injective htext
    exact ⟨text ++ more, List.utf8Encode_append.symm, hcounters.append hmore hlt⟩

def Idle (bytes : ByteArray) : Prop := ∀ reads writes, Holds bytes reads writes → reads = 0 ∧ writes = 0

theorem idle_iff (bytes : ByteArray) : Idle bytes ↔ depthOfBytes bytes = 0 := by
  constructor
  · intro h
    by_contra hne
    obtain ⟨reads, writes, hholds⟩ := exists_holds hne
    obtain ⟨rfl, rfl⟩ := h reads writes hholds
    exact hne hholds.depthOfBytes
  · intro h reads writes hholds
    rw [hholds.depthOfBytes, Word.addSat, Word.top, Word.bound] at h
    omega

/-- What stands behind the front leaves the sum of its counters as it is: the second one does not change, or
the sum was at its limit already. -/
def Survives (front rest : ByteArray) : Prop :=
  ∃ reads writes writes' text more, Holds front reads writes ∧ front = text.utf8Encode ∧
    rest = more.utf8Encode ∧ GoesOn text more writes writes' ∧ writes' < Word.bound ∧
    (writes' = writes ∨ Word.top ≤ reads + writes)

theorem GoesOn.le (h : GoesOn text more writes writes') : writes ≤ writes' := by
  obtain ⟨digits, -, -, -, -, -, rfl⟩ := h
  rw [Nat.ofDigitChars_eq_ofDigitChars_zero]
  exact (Nat.le_mul_of_pos_left writes (Nat.pow_pos (by decide))).trans (Nat.le_add_right _ _)

theorem depth_front_eq_iff (front rest : ByteArray) :
    depthOfBytes front = depthOfBytes (front ++ rest) ↔
      Idle front ∧ Idle (front ++ rest) ∨ Survives front rest := by
  rw [idle_iff, idle_iff]
  constructor
  · intro h
    by_cases hzero : depthOfBytes front = 0
    · exact .inl ⟨hzero, h ▸ hzero⟩
    · obtain ⟨reads, writes, hfront⟩ := exists_holds hzero
      obtain ⟨reads', writes', hwhole⟩ := exists_holds (h ▸ hzero)
      rw [hfront.depthOfBytes, hwhole.depthOfBytes, Word.addSat, Word.addSat] at h
      obtain ⟨rfl, hlt, text, more, htext, hrest, hmore⟩ := (holds_append_iff hfront).mp hwhole
      have hle := hmore.le
      exact .inr ⟨reads', writes, writes', text, more, hfront, htext, hrest, hmore, hlt, by omega⟩
  · rintro (⟨hfront, hwhole⟩ | ⟨reads, writes, writes', text, more, hfront, htext, hrest, hmore, hlt, hsum⟩)
    · rw [hfront, hwhole]
    · have hwhole := (holds_append_iff hfront).mpr ⟨rfl, hlt, text, more, htext, hrest, hmore⟩
      have hle := hmore.le
      rw [hfront.depthOfBytes, hwhole.depthOfBytes, Word.addSat, Word.addSat]
      omega

def seen (bytes : ByteArray) : ByteArray := bytes.extract 0 readSize

def unseen (bytes : ByteArray) : ByteArray := bytes.extract readSize bytes.size

variable {files : Files} {s : Source} {bytes : ByteArray}

theorem seen_append_unseen (bytes : ByteArray) : seen bytes ++ unseen bytes = bytes := by
  rw [seen, unseen, ByteArray.extract_append_extract, Nat.zero_min, ByteArray.extract_zero_max_size]

theorem seen_of_short (h : bytes.size ≤ readSize) : seen bytes = bytes := by
  rw [seen, ← Nat.max_eq_left h, ByteArray.extract_zero_max_size]

theorem read_eq (hcontent : files.content s.node = .ok bytes) : s.read files = depthOfBytes (seen bytes) := by
  rw [Source.read, hcontent]
  rfl

theorem seen_utf8Encode_append {start : List Char} (h : start.utf8Encode.size = readSize)
    (rest : List Char) : seen (start ++ rest).utf8Encode = start.utf8Encode := by
  rw [seen, List.utf8Encode_append]
  exact ByteArray.extract_append_eq_left h.symm

/-- A short file is read as a whole. Otherwise the reading is the depth of the file if and only if front and
file both have no depth, or what is left over does not matter. The front alone decides whether the reading
is 0, whatever the whole file holds. -/
theorem read_eq_depth_iff (hcontent : files.content s.node = .ok bytes) :
    (bytes.size ≤ readSize → s.read files = depthOfBytes bytes) ∧
    (s.read files = depthOfBytes bytes ↔
      Idle (seen bytes) ∧ Idle bytes ∨ Survives (seen bytes) (unseen bytes)) ∧
    (s.read files = 0 ↔ Idle (seen bytes)) := by
  rw [read_eq hcontent]
  refine ⟨fun hshort => by rw [seen_of_short hshort], ?_, (idle_iff _).symm⟩
  have hiff := depth_front_eq_iff (seen bytes) (unseen bytes)
  rwa [seen_append_unseen] at hiff

def twoCounters : List Char := "1 2".toList ++ List.replicate 61 ' '

def onlyFile (bytes : ByteArray) : Files := ⟨[(["a"], .file 0)], #[bytes]⟩

def onlySource : Source := ⟨.device ⟨8388608⟩, .file 0⟩

theorem content_onlyFile (bytes : ByteArray) : (onlyFile bytes).content onlySource.node = .ok bytes := rfl

theorem counters_twoCounters : Counters twoCounters 1 2 :=
  counters_iff.mpr ⟨['1'], ['2'], by decide +kernel, by decide, by decide⟩

theorem size_twoCounters : twoCounters.utf8Encode.size = readSize := by decide +kernel

theorem read_eq_depth_iff_line_end :
    onlySource.read (onlyFile (twoCounters ++ ['\n']).utf8Encode) =
        depthOfBytes (twoCounters ++ ['\n']).utf8Encode ∧
      onlySource.read (onlyFile (twoCounters ++ ['\n']).utf8Encode) ≠ 0 := by
  have hseen := seen_utf8Encode_append size_twoCounters ['\n']
  have hunseen : unseen (twoCounters ++ ['\n']).utf8Encode = ['\n'].utf8Encode := by
    rw [← ByteArray.append_right_inj twoCounters.utf8Encode, ← hseen, seen_append_unseen, hseen,
      List.utf8Encode_append]
  have hholds : Holds twoCounters.utf8Encode 1 2 := holds_utf8Encode_iff.mpr counters_twoCounters
  obtain ⟨-, hdepth, hzero⟩ := read_eq_depth_iff (content_onlyFile (twoCounters ++ ['\n']).utf8Encode)
  rw [hseen] at hdepth hzero
  rw [hunseen] at hdepth
  refine ⟨hdepth.mpr (.inr ?_), fun h => ?_⟩
  · have hblank : Blank ['\n'] := List.forall_mem_singleton.mpr (by decide)
    have hends : GoesOn twoCounters ['\n'] 2 2 := ⟨[], ['\n'], rfl, nofun, hblank, nofun, rfl⟩
    exact ⟨1, 2, 2, twoCounters, ['\n'], hholds, rfl, rfl, hends, by decide, .inl rfl⟩
  · exact absurd (hzero.mp h 1 2 hholds).1 (by decide)

/-- Three numbers are no counters, and yet the file has a reading: the third number is not read. -/
theorem third_number_not_read :
    (∀ reads writes, ¬Holds (twoCounters ++ ['3', '\n']).utf8Encode reads writes) ∧
      depthOfBytes (twoCounters ++ ['3', '\n']).utf8Encode = 0 ∧
      onlySource.read (onlyFile (twoCounters ++ ['3', '\n']).utf8Encode) = 3 := by
  have hnone : ∀ reads writes, ¬Holds (twoCounters ++ ['3', '\n']).utf8Encode reads writes := by
    intro reads writes h
    obtain ⟨first, second, hfields, -⟩ := counters_iff.mp (holds_utf8Encode_iff.mp h)
    have hthree : fields (twoCounters ++ ['3', '\n']) = [['1'], ['2'], ['3']] := by decide +kernel
    rw [hthree] at hfields
    cases hfields
  refine ⟨hnone, depthOfBytes_of_no_counters hnone, ?_⟩
  rw [read_eq (content_onlyFile _), seen_utf8Encode_append size_twoCounters, depthOfBytes_utf8Encode,
    counters_twoCounters.depthOfText]
  rfl

end QuantileMonitor.Poll

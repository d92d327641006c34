import Mathlib.Algebra.BigOperators.Ring.Finset
import Mathlib.Algebra.Group.Action.Defs
import Mathlib.Combinatorics.Enumerative.DoubleCounting
import Mathlib.Data.List.GetD
import Mathlib.Data.List.Perm.Basic
import Mathlib.Data.Nat.Choose.Basic
import Mathlib.Data.Set.Card
import Mathlib.Order.Interval.Finset.Nat
import QuantileMonitor.Proofs.Quantile.Sampling

/-!
# The sample is uniform

Every choice below the bound of its draw is free. Among all sequences of such choices every set of
arrivals that fills the reservoir is left in it by the same number of sequences, the factorial of the
number of draws, so all arrivals are kept by the same share of the sequences.
-/

namespace QuantileMonitor.Quantile

open Finset Nat

namespace Choices

open Reservoir (slots slots_concat)

/-- All sequences of choices after the first arrivals: the next one is below the number of arrivals
with its own. -/
def sequences (capacity : Nat) : Nat → Finset (List Nat)
  | 0 => {[]}
  | m + 1 => (sequences capacity m ×ˢ range (capacity + m + 1)).image fun p => p.1 ++ [p.2]

theorem mem_sequences {capacity m : Nat} {choices : List Nat} :
    choices ∈ sequences capacity m ↔
      List.Forall₂ (· < ·) choices (List.range' (capacity + 1) m) := by
  induction m generalizing choices with
  | zero => rw [sequences, mem_singleton, List.range'_zero, List.forall₂_nil_right_iff]
  | succ m ih =>
    have hlast : capacity + 1 + m = capacity + m + 1 := by omega
    rw [sequences, mem_image, List.range'_1_concat, hlast]
    constructor
    · rintro ⟨⟨init, d⟩, hmem, rfl⟩
      obtain ⟨hinit, hd⟩ := mem_product.mp hmem
      exact List.rel_append (ih.mp hinit) (.cons (mem_range.mp hd) .nil)
    · intro h
      have hinit := List.forall₂_take_append _ _ _ h
      have htail := List.forall₂_drop_append _ _ _ h
      obtain ⟨d, rest, hd, hrest, hdrop⟩ := List.forall₂_cons_right_iff.mp htail
      obtain rfl := List.forall₂_nil_right_iff.mp hrest
      refine ⟨(choices.take _, d), mem_product.mpr ⟨ih.mpr hinit, mem_range.mpr hd⟩, ?_⟩
      rw [← hdrop, List.take_append_drop]

theorem length_of_mem_sequences {capacity m : Nat} {choices : List Nat}
    (h : choices ∈ sequences capacity m) : choices.length = m := by
  rw [(mem_sequences.mp h).length_eq, List.length_range']

theorem card_filter_sequences_succ (capacity m : Nat) (p : List Nat → Prop) [DecidablePred p] :
    #{choices ∈ sequences capacity (m + 1) | p choices} =
      ∑ init ∈ sequences capacity m, #{d ∈ range (capacity + m + 1) | p (init ++ [d])} := by
  have hinjective : Function.Injective fun e : List Nat × Nat => e.1 ++ [e.2] := by
    rintro ⟨l, d⟩ ⟨l', d'⟩ heq
    obtain ⟨hl, hd⟩ := List.append_inj' heq rfl
    exact Prod.ext hl (List.singleton_inj.mp hd)
  rw [sequences, filter_image, card_image_of_injective _ hinjective, card_filter, sum_product]
  simp only [card_filter]

theorem card_sequences (capacity m : Nat) :
    capacity ! * #(sequences capacity m) = (capacity + m)! := by
  induction m with
  | zero => simp [sequences]
  | succ m ih =>
    have hsucc := card_filter_sequences_succ capacity m fun _ => True
    simp only [filter_true, sum_const, card_range, smul_eq_mul] at hsucc
    rw [hsucc, ← mul_assoc, ih, ← add_assoc, factorial_succ, mul_comm]

theorem slots_of_mem {capacity m : Nat} {choices : List Nat}
    (h : choices ∈ sequences capacity m) :
    (slots capacity choices).length = capacity ∧ (slots capacity choices).Nodup ∧
      ∀ i ∈ slots capacity choices, i < capacity + m := by
  induction m generalizing choices with
  | zero =>
    obtain rfl := mem_singleton.mp h
    exact ⟨List.length_range, List.nodup_range, fun i hi => List.mem_range.mp hi⟩
  | succ m ih =>
    obtain ⟨⟨init, d⟩, hmem, rfl⟩ := mem_image.mp h
    obtain ⟨hinit, -⟩ := mem_product.mp hmem
    obtain ⟨hlength, hnodup, hbound⟩ := ih hinit
    rw [slots_concat, length_of_mem_sequences hinit]
    refine ⟨by rw [List.length_set, hlength], ?_, ?_⟩
    · exact hnodup.set fun hn => Nat.lt_irrefl _ (hbound _ hn)
    · intro i hi
      rcases List.mem_or_eq_of_mem_set hi with hold | rfl
      · have := hbound i hold
        omega
      · omega

section Arrival

variable {l : List Nat} {n : Nat} {T : Finset Nat}

theorem toFinset_set_eq_iff (hnodup : l.Nodup) (hfresh : n ∉ l) (hn : n ∈ T) {d : Nat}
    (hd : d < l.length) :
    (l.set d n).toFinset = T ↔ l[d] ∉ T.erase n ∧ l.toFinset = insert l[d] (T.erase n) := by
  have hset : (l.set d n).toFinset = insert n (l.eraseIdx d).toFinset := by
    rw [List.toFinset_eq_of_perm _ _ (List.set_perm_cons_eraseIdx hd n), List.toFinset_cons]
  have hperm := List.getElem_cons_eraseIdx_perm hd
  have hl : l.toFinset = insert l[d] (l.eraseIdx d).toFinset := by
    rw [← List.toFinset_eq_of_perm _ _ hperm, List.toFinset_cons]
  have hout : l[d] ∉ (l.eraseIdx d).toFinset := by
    rw [List.mem_toFinset]
    exact (List.nodup_cons.mp (hperm.nodup_iff.mpr hnodup)).1
  have hfresh' : n ∉ (l.eraseIdx d).toFinset := by
    rw [List.mem_toFinset]
    exact fun h => hfresh (List.mem_of_mem_eraseIdx h)
  rw [hset, hl]
  constructor
  · rintro rfl
    rw [erase_insert hfresh']
    exact ⟨hout, rfl⟩
  · rintro ⟨hmem, heq⟩
    have hrest : (l.eraseIdx d).toFinset = T.erase n := by
      rw [← erase_insert hout, heq, erase_insert hmem]
    rw [hrest, insert_erase hn]

theorem card_choices_of_mem (hnodup : l.Nodup) (hbound : ∀ i ∈ l, i < n) (hlength : l.length ≤ n)
    (hn : n ∈ T) :
    #{d ∈ range (n + 1) | (l.set d n).toFinset = T} =
      #{x ∈ range n \ T.erase n | l.toFinset = insert x (T.erase n)} := by
  have hfresh : n ∉ l := fun h => Nat.lt_irrefl _ (hbound n h)
  have hreach : ∀ d, (l.set d n).toFinset = T → d < l.length := by
    intro d heq
    by_contra hd
    rw [List.set_eq_of_length_le (Nat.le_of_not_lt hd)] at heq
    exact hfresh (List.mem_toFinset.mp (heq ▸ hn))
  refine card_nbij (fun d => l.getD d 0) ?_ ?_ ?_
  · intro d hd
    obtain ⟨-, heq⟩ := mem_filter.mp hd
    have hlt := hreach d heq
    obtain ⟨hout, hl⟩ := (toFinset_set_eq_iff hnodup hfresh hn hlt).mp heq
    have hvalue : l.getD d 0 = l[d] := List.getD_eq_getElem _ _ hlt
    simp only [hvalue]
    exact mem_filter.mpr
      ⟨mem_sdiff.mpr ⟨mem_range.mpr (hbound _ (List.getElem_mem hlt)), hout⟩, hl⟩
  · intro d hd d' hd' heq
    have hlt := hreach d (mem_filter.mp hd).2
    have hlt' := hreach d' (mem_filter.mp hd').2
    dsimp only at heq
    rw [List.getD_eq_getElem _ _ hlt, List.getD_eq_getElem _ _ hlt'] at heq
    exact (hnodup.getElem_inj_iff).mp heq
  · intro x hx
    obtain ⟨hmem, hl⟩ := mem_filter.mp hx
    have hin : x ∈ l := List.mem_toFinset.mp (hl ▸ mem_insert_self x _)
    obtain ⟨d, hlt, rfl⟩ := List.getElem_of_mem hin
    refine ⟨d, mem_filter.mpr ⟨mem_range.mpr (by omega), ?_⟩, List.getD_eq_getElem _ _ hlt⟩
    exact (toFinset_set_eq_iff hnodup hfresh hn hlt).mpr ⟨(mem_sdiff.mp hmem).2, hl⟩

theorem card_choices_of_notMem (hn : n ∉ T) :
    #{d ∈ range (n + 1) | (l.set d n).toFinset = T} =
      if l.toFinset = T then n + 1 - l.length else 0 := by
  have hbeyond : ∀ d, (l.set d n).toFinset = T ↔ l.length ≤ d ∧ l.toFinset = T := by
    intro d
    rcases Nat.lt_or_ge d l.length with hd | hd
    · have hmem : n ∈ (l.set d n).toFinset := List.mem_toFinset.mpr (List.mem_set hd n)
      constructor
      · intro heq
        exact absurd (heq ▸ hmem) hn
      · rintro ⟨hle, -⟩
        omega
    · rw [List.set_eq_of_length_le hd]
      exact ⟨fun h => ⟨hd, h⟩, fun h => h.2⟩
  simp only [hbeyond]
  split_ifs with hl
  · have hIco : {d ∈ range (n + 1) | l.length ≤ d ∧ l.toFinset = T} = Ico l.length (n + 1) := by
      ext d
      simp only [mem_filter, mem_range, mem_Ico, hl, and_true]
      exact And.comm
    rw [hIco, Nat.card_Ico]
  · simp only [hl, and_false, filter_false, card_empty]

end Arrival

theorem card_keeping (capacity m : Nat) (T : Finset Nat) (hT : T ⊆ range (capacity + m))
    (hcard : #T = capacity) :
    #{choices ∈ sequences capacity m | (slots capacity choices).toFinset = T} = m ! := by
  induction m generalizing T with
  | zero =>
    have heq : T = range capacity := eq_of_subset_of_card_le hT (by rw [card_range, hcard])
    have hnil : (slots capacity []).toFinset = T := by
      rw [heq]
      exact List.toFinset_range capacity
    rw [sequences, filter_singleton, if_pos hnil, card_singleton, factorial_zero]
  | succ m ih =>
    have hinit : ∀ init ∈ sequences capacity m,
        #{d ∈ range (capacity + m + 1) | (slots capacity (init ++ [d])).toFinset = T} =
          #{d ∈ range (capacity + m + 1) |
            ((slots capacity init).set d (capacity + m)).toFinset = T} := by
      intro init hinit
      simp only [slots_concat, length_of_mem_sequences hinit]
    rw [card_filter_sequences_succ, sum_congr rfl hinit]
    by_cases hn : capacity + m ∈ T
    -- The last arrival took the slot of a value that is not in the set: the sequences before it are
    -- counted once for each such value.
    · have hstep : ∀ init ∈ sequences capacity m,
          #{d ∈ range (capacity + m + 1) |
            ((slots capacity init).set d (capacity + m)).toFinset = T} =
          #{x ∈ range (capacity + m) \ T.erase (capacity + m) |
            (slots capacity init).toFinset = insert x (T.erase (capacity + m))} := by
        intro init hinit
        obtain ⟨hlength, hnodup, hbound⟩ := slots_of_mem hinit
        exact card_choices_of_mem hnodup hbound (by omega) hn
      have hrest : T.erase (capacity + m) ⊆ range (capacity + m) := by
        intro i hi
        obtain ⟨hne, hi⟩ := mem_erase.mp hi
        have := mem_range.mp (hT hi)
        exact mem_range.mpr (by omega)
      have hrestCard : #(T.erase (capacity + m)) + 1 = capacity := by
        rw [card_erase_add_one hn, hcard]
      have hkept : ∀ x ∈ range (capacity + m) \ T.erase (capacity + m),
          #{init ∈ sequences capacity m |
            (slots capacity init).toFinset = insert x (T.erase (capacity + m))} = m ! := by
        intro x hx
        obtain ⟨hx, hout⟩ := mem_sdiff.mp hx
        exact ih _ (insert_subset hx hrest) (by rw [card_insert_of_notMem hout, hrestCard])
      have hswap := sum_card_bipartiteAbove_eq_sum_card_bipartiteBelow
        (s := sequences capacity m) (t := range (capacity + m) \ T.erase (capacity + m))
        fun init x => (slots capacity init).toFinset = insert x (T.erase (capacity + m))
      simp only [bipartiteAbove, bipartiteBelow] at hswap
      rw [sum_congr rfl hstep, hswap, sum_congr rfl hkept, sum_const, smul_eq_mul,
        card_sdiff_of_subset hrest, card_range, factorial_succ]
      congr 1
      omega
    -- It found no slot: the set was kept before, and `m + 1` of the choices are beyond the slots.
    · have hstep : ∀ init ∈ sequences capacity m,
          #{d ∈ range (capacity + m + 1) |
            ((slots capacity init).set d (capacity + m)).toFinset = T} =
          (m + 1) * if (slots capacity init).toFinset = T then 1 else 0 := by
        intro init hinit
        obtain ⟨hlength, -, -⟩ := slots_of_mem hinit
        rw [card_choices_of_notMem hn, hlength, mul_ite, mul_one, mul_zero]
        congr 1
        omega
      have hold : T ⊆ range (capacity + m) := by
        intro i hi
        have := mem_range.mp (hT hi)
        have hne : i ≠ capacity + m := fun h => hn (h ▸ hi)
        exact mem_range.mpr (by omega)
      rw [sum_congr rfl hstep, ← mul_sum, ← card_filter, ih T hold hcard, factorial_succ]

theorem card_filter_kept (capacity m : Nat) (p : Finset Nat → Prop) [DecidablePred p] :
    #{choices ∈ sequences capacity m | p (slots capacity choices).toFinset} =
      #{T ∈ powersetCard capacity (range (capacity + m)) | p T} * m ! := by
  have hmaps : Set.MapsTo (fun choices => (slots capacity choices).toFinset)
      ({choices ∈ sequences capacity m | p (slots capacity choices).toFinset} : Finset (List Nat))
      ({T ∈ powersetCard capacity (range (capacity + m)) | p T} : Finset (Finset Nat)) := by
    intro choices hchoices
    obtain ⟨hmem, hp⟩ := mem_filter.mp hchoices
    obtain ⟨hlength, hnodup, hbound⟩ := slots_of_mem hmem
    refine mem_filter.mpr ⟨mem_powersetCard.mpr ⟨fun i hi => ?_, ?_⟩, hp⟩
    · exact mem_range.mpr (hbound i (List.mem_toFinset.mp hi))
    · rw [List.toFinset_card_of_nodup hnodup, hlength]
  rw [card_eq_sum_card_fiberwise hmaps, card_eq_sum_ones, sum_mul]
  refine sum_congr rfl fun T hT => ?_
  obtain ⟨hT, hp⟩ := mem_filter.mp hT
  obtain ⟨hsub, hcard⟩ := mem_powersetCard.mp hT
  rw [one_mul, ← card_keeping capacity m T hsub hcard, filter_filter]
  congr 1
  refine filter_congr fun choices _ => ⟨fun h => h.2, fun h => ⟨h ▸ hp, h⟩⟩

theorem card_powersetCard_mem {n i : Nat} (hi : i < n) (k : Nat) :
    #{T ∈ powersetCard k (range n) | i ∈ T} * n = k * n.choose k := by
  cases k with
  | zero => simp
  | succ k =>
    have hi' := mem_range.mpr hi
    have hfamily : #{T ∈ powersetCard (k + 1) (range n) | i ∈ T} =
        #(powersetCard k ((range n).erase i)) := by
      refine card_nbij' (fun T => T.erase i) (fun S => insert i S) ?_ ?_ ?_ ?_
      · intro T hT
        obtain ⟨hT, hmem⟩ := mem_filter.mp hT
        obtain ⟨hsub, hcard⟩ := mem_powersetCard.mp hT
        refine mem_powersetCard.mpr ⟨erase_subset_erase i hsub, ?_⟩
        rw [card_erase_of_mem hmem, hcard, Nat.add_sub_cancel]
      · intro S hS
        obtain ⟨hsub, hcard⟩ := mem_powersetCard.mp hS
        have hout : i ∉ S := fun h => notMem_erase i _ (hsub h)
        refine mem_filter.mpr ⟨mem_powersetCard.mpr ⟨?_, ?_⟩, mem_insert_self i S⟩
        · exact insert_subset hi' (hsub.trans (erase_subset i _))
        · rw [card_insert_of_notMem hout, hcard]
      · intro T hT
        exact insert_erase (mem_filter.mp hT).2
      · intro S hS
        have hout : i ∉ S := fun h => notMem_erase i _ ((mem_powersetCard.mp hS).1 h)
        exact erase_insert hout
    obtain ⟨n, rfl⟩ := Nat.exists_eq_add_of_lt hi
    rw [hfamily, card_powersetCard, card_erase_of_mem hi', card_range, Nat.add_sub_cancel, mul_comm,
      add_one_mul_choose_eq, mul_comm]

theorem card_containing (capacity m : Nat) {i : Nat} (hi : i < capacity + m) :
    #{choices ∈ sequences capacity m | i ∈ slots capacity choices} * (capacity + m) =
      capacity * #(sequences capacity m) := by
  have hall := card_filter_kept capacity m fun _ => True
  have hmem := card_filter_kept capacity m fun T => i ∈ T
  simp only [filter_true, card_powersetCard, card_range] at hall
  simp only [List.mem_toFinset] at hmem
  rw [hmem, hall, mul_right_comm, card_powersetCard_mem hi, mul_assoc]

end Choices

namespace Reservoir

open Choices

variable (r : Reservoir Tape)

section Full

variable {r} {xs : List Nat} (h : r.capacity ≤ xs.length)

include h

theorem asked_takeAll (choices : List Nat) :
    (r.takeAll choices xs).draws.asked =
      List.range' (r.capacity + 1) (xs.length - r.capacity) := by
  obtain ⟨-, -, -, hdraws, -⟩ := takeAll_range_of_full r choices (xs.length - r.capacity)
  rw [draws_takeAll, ← Nat.add_sub_of_le h, hdraws, Nat.add_sub_cancel_left]

theorem free_iff (choices : List Nat) :
    r.Free xs choices ↔ choices ∈ sequences r.capacity (xs.length - r.capacity) := by
  rw [Free, asked_takeAll h, mem_sequences]

theorem kept_eq_slots {choices : List Nat} (hfree : r.Free xs choices) :
    r.kept choices xs.length = slots r.capacity choices := by
  have hlength := length_of_mem_sequences ((free_iff h choices).mp hfree)
  obtain ⟨-, -, -, -, hslots⟩ := takeAll_range_of_full r choices (xs.length - r.capacity)
  rw [kept, ← Nat.add_sub_of_le h, hslots (Nat.le_of_eq hlength.symm), List.take_of_length_le]
  exact Nat.le_of_eq hlength

theorem ncard_free (p : List Nat → Prop) [DecidablePred p] :
    {choices | r.Free xs choices ∧ p (r.kept choices xs.length)}.ncard =
      #{choices ∈ sequences r.capacity (xs.length - r.capacity) |
        p (slots r.capacity choices)} := by
  rw [← Set.ncard_coe_finset]
  congr 1
  ext choices
  rw [Set.mem_ofPred_eq, mem_coe, mem_filter, ← free_iff h]
  exact and_congr_right fun hfree => by rw [kept_eq_slots h hfree]

end Full

/-- After a reset, what a full reservoir keeps is the arrivals at the positions that its choices leave
it. Each set of positions of the right size is left by equally many of the free sequences of choices,
and so each position by the same share of them. -/
theorem kept_uniform (xs : List Nat) (h : r.capacity ≤ xs.length) :
    (∀ choices, (r.takeAll choices xs).samples.toList =
      (r.kept choices xs.length).map fun i => xs.getD i 0) ∧
    (∀ choices, (r.takeAll choices xs).draws.asked =
      List.range' (r.capacity + 1) (xs.length - r.capacity)) ∧
    {choices | r.Free xs choices}.ncard = xs.length ! / r.capacity ! ∧
    (∀ T ⊆ range xs.length, #T = r.capacity →
      {choices | r.Free xs choices ∧ (r.kept choices xs.length : Multiset Nat) = T.val}.ncard =
        (xs.length - r.capacity)!) ∧
    ∀ i < xs.length,
      {choices | r.Free xs choices ∧ i ∈ r.kept choices xs.length}.ncard * xs.length =
        r.capacity * {choices | r.Free xs choices}.ncard := by
  have hall : {choices | r.Free xs choices}.ncard =
      #(sequences r.capacity (xs.length - r.capacity)) := by
    rw [← Set.ncard_coe_finset]
    congr 1
    ext choices
    exact free_iff h choices
  have hsum := Nat.add_sub_of_le h
  refine ⟨fun choices => samples_takeAll r choices xs, asked_takeAll h, ?_, fun T hT hcard => ?_,
    fun i hi => ?_⟩
  · have hcount := card_sequences r.capacity (xs.length - r.capacity)
    rw [hsum] at hcount
    rw [hall, ← hcount, Nat.mul_div_cancel_left _ (factorial_pos _)]
  · rw [ncard_free h fun l => (l : Multiset Nat) = T.val,
      ← card_keeping _ _ T (by rwa [hsum]) hcard]
    congr 1
    refine filter_congr fun choices hmem => ?_
    obtain ⟨-, hnodup, -⟩ := slots_of_mem hmem
    rw [← Finset.val_inj, List.toFinset_val, hnodup.dedup]
  · have hcount := card_containing r.capacity (xs.length - r.capacity) (i := i) (by omega)
    rw [hsum] at hcount
    rw [ncard_free h fun l => i ∈ l, hall, hcount]

theorem kept_uniform_of_three :
    let r := empty 2 (Tape.mk [] [])
    r.capacity ≤ [5, 5, 8].length ∧ {choices | r.Free [5, 5, 8] choices}.ncard = 3 ∧
      {choices | r.Free [5, 5, 8] choices ∧ (r.kept choices 3 : Multiset Nat) = {0, 2}}.ncard = 1 := by
  obtain ⟨-, -, hall, hset, -⟩ := kept_uniform (empty 2 (Tape.mk [] [])) [5, 5, 8] (by decide)
  exact ⟨by decide, hall, hset {0, 2} (by decide) rfl⟩

end Reservoir

end QuantileMonitor.Quantile

import KorshCore.Util.RangesSet
import Mathlib.Algebra.Ring.Nat
import Mathlib.Data.Finset.Card

/-!
# Runs of calls on a set of ranges

`CRangesSet::Remove`, `CRangesSet::Size` and any sequence of `Add` and `Remove`
on a new `CRangesSet`, next to the same calls on a finite set of 64-bit
numbers.
-/

namespace KorshCore

open List

namespace CRangesSet

/-- `CRangesSet::Size`, on the ranges. -/
def total (ranges : List Range) : UInt64 :=
  ranges.foldl (fun result i => result + (i.stop - i.first)) 0

def size (s : CRangesSet) : UInt64 := total s.ranges

/-- The range that `Remove` takes out: the one at `lower_bound` if it starts at
`value`, otherwise the one before, which must be there. -/
def current (s : CRangesSet) (value : UInt64) : Option Range :=
  match (s.rest value).head? with
  | some it => if it.first = value then some it else (s.before value).getLast?
  | none => (s.before value).getLast?

/-- A part of the range taken out is put back unless it is empty. -/
def insertPart (first stop : UInt64) (ranges : List Range) : Option (List Range) :=
  if first = stop then some ranges else insertRange ⟨first, stop⟩ ranges

/-- How `CRangesSet::Remove` ends. -/
inductive RemoveResult where
  | absent
  | removed (s : CRangesSet)
  | assertionFailed
  deriving DecidableEq, Repr

def remove (s : CRangesSet) (value : UInt64) : RemoveResult :=
  if !s.contains value then .absent
  else
    match s.current value with
    | none => .assertionFailed
    | some r =>
      match (insertPart r.first value (s.ranges.erase r)).bind (insertPart (value + 1) r.stop) with
      | some ranges => .removed ⟨ranges⟩
      | none => .assertionFailed

/-! ## `Size` -/

section Total

variable {ranges other : List Range} {value : UInt64}

theorem foldl_total (n : UInt64) :
    ranges.foldl (fun result i => result + (i.stop - i.first)) n = n + total ranges := by
  induction ranges generalizing n with
  | nil => exact (UInt64.add_zero n).symm
  | cons r ranges ih =>
    simp only [total, foldl_cons]
    rw [ih, ih (0 + _), UInt64.zero_add, UInt64.add_assoc]

theorem total_append : total (ranges ++ other) = total ranges + total other := by
  rw [total, foldl_append, foldl_total]
  rfl

theorem total_cons (r : Range) : total (r :: ranges) = (r.stop - r.first) + total ranges := by
  rw [total, foldl_cons, foldl_total, UInt64.zero_add]

theorem total_perm (h : ranges.Perm other) : total ranges = total other := by
  induction h with
  | nil => rfl
  | cons r _ ih => rw [total_cons, total_cons, ih]
  | swap => simp only [total_cons]; grind
  | trans _ _ ih ih' => exact ih.trans ih'

theorem total_mergeBefore {first : UInt64} (h : mergeBefore value ranges = (other, first)) :
    total ranges = total other + (value - first) := by
  unfold mergeBefore at h
  cases hlast : ranges.getLast? with
  | none =>
    rw [hlast] at h
    cases h
    grind
  | some prev =>
    simp only [hlast] at h
    split_ifs at h with htouch <;> cases h
    · nth_rw 1 [← dropLast_append_getLast? prev hlast]
      rw [total_append, total_cons, htouch]
      exact congrArg _ (UInt64.add_zero _)
    · grind

theorem total_mergeRest {stop : UInt64} (h : mergeRest value ranges = (other, stop)) :
    total ranges = (stop - (value + 1)) + total other := by
  cases ranges with
  | nil =>
    cases h
    grind
  | cons next ranges =>
    simp only [mergeRest] at h
    split_ifs at h with htouch <;> cases h
    · rw [total_cons, htouch]
    · grind

theorem total_insertRange {r : Range} (h : insertRange r ranges = some other) :
    total other = (r.stop - r.first) + total ranges := by
  unfold insertRange at h
  split_ifs at h
  cases h
  rw [total_append, total_cons, ← total_perm (filter_append_perm (·.lt r) ranges), total_append]
  grind

theorem size_of_add {s s' : CRangesSet} (h : s.add value = .added s') : s'.size = s.size + 1 := by
  unfold add at h
  split_ifs at h
  rcases hmb : mergeBefore value (s.before value) with ⟨before, first⟩
  rcases hmr : mergeRest value (s.rest value) with ⟨rest, stop⟩
  have hall := total_perm (filter_append_perm (·.lt ⟨value, value⟩) s.ranges)
  have hbefore := total_mergeBefore hmb
  have hrest := total_mergeRest hmr
  rw [total_append] at hall
  simp only [hmb, hmr] at h
  cases hinsert : insertRange ⟨first, stop⟩ (before ++ rest) with
  | none => simp [hinsert] at h
  | some ranges =>
    rw [hinsert] at h
    cases h
    have htotal := total_insertRange hinsert
    rw [total_append] at htotal
    unfold CRangesSet.before at hbefore
    unfold CRangesSet.rest at hrest
    show total ranges = total s.ranges + 1
    grind

end Total

/-! ## `Remove` -/

section Remove

variable {s : CRangesSet} {value first stop : UInt64} {r : Range} {before rest : List Range}

theorem Canonical.split (hs : s.Canonical) (hr : r ∈ s.ranges) :
    ∃ before rest, s.ranges = before ++ r :: rest ∧
      (∀ x ∈ before, x.stop < r.first) ∧ ∀ x ∈ rest, r.stop < x.first := by
  obtain ⟨before, rest, hsplit⟩ := append_of_mem hr
  have hapart := hs.apart
  rw [hsplit, pairwise_append, pairwise_cons] at hapart
  exact ⟨before, rest, hsplit, fun x hx => hapart.2.2 x hx r mem_cons_self, hapart.2.1.1⟩

theorem Canonical.current_eq (hs : s.Canonical) (hr : r ∈ s.ranges)
    (hmem : r.Mem value) : s.current value = some r := by
  -- no two ranges hold one number
  have hsame : ∀ it ∈ s.ranges, it.Mem value → some it = some r := by
    intro it hit hvalue
    obtain ⟨before, rest, hsplit, hbefore, hrest⟩ := hs.split hr
    rw [hsplit, mem_append, mem_cons] at hit
    unfold Range.Mem at hmem hvalue
    rcases hit with hit | rfl | hit
    · have := hbefore it hit
      grind
    · rfl
    · have := hrest it hit
      grind
  have hcontains := (contains_iff hs).mpr ⟨r, hr, hmem⟩
  simp only [contains, Bool.or_eq_true, Option.any_eq_true, beq_iff_eq,
    Bool.and_eq_true, decide_eq_true_eq] at hcontains
  have hlast : (∀ it, (s.rest value).head? = some it → it.first ≠ value) →
      (s.before value).getLast? = some r := by
    intro hnot
    rcases hcontains with ⟨it, hhead, hfirst⟩ | ⟨prev, hprev, hvalue⟩
    · exact absurd hfirst (hnot it hhead)
    · rw [hprev]
      exact hsame prev (hs.mem_before.mp (mem_of_mem_getLast? hprev)).1 hvalue
  unfold current
  cases hhead : (s.rest value).head? with
  | none =>
    refine hlast fun it hit => ?_
    rw [hhead] at hit
    cases hit
  | some it =>
    have hit := (hs.mem_rest.mp (mem_of_mem_head? hhead)).1
    by_cases hfirst : it.first = value
    · simp only [if_pos hfirst]
      exact hsame it hit ⟨UInt64.le_of_eq hfirst, hfirst ▸ hs.nonempty it hit⟩
    · simp only [if_neg hfirst]
      refine hlast fun it' hit' => ?_
      rw [hhead] at hit'
      exact Option.some.inj hit' ▸ hfirst

def part (first stop : UInt64) : List Range :=
  if first = stop then [] else [⟨first, stop⟩]

theorem mem_part : r ∈ part first stop ↔ first ≠ stop ∧ r = ⟨first, stop⟩ := by
  unfold part
  split_ifs with h <;> simp [h]

theorem exists_part {w : UInt64} : (∃ x ∈ part first stop, x.Mem w) ↔ first ≤ w ∧ w < stop := by
  simp only [mem_part, Range.Mem]
  grind

theorem total_part : total (part first stop) = stop - first := by
  unfold part
  split_ifs with h
  · rw [h, UInt64.sub_self]
    rfl
  · rw [total_cons]
    exact UInt64.add_zero _

theorem pairwise_part {R : Range → Range → Prop} : (part first stop).Pairwise R := by
  unfold part
  split_ifs <;> simp

theorem insertPart_between (hle : first ≤ stop)
    (hbefore : ∀ x ∈ before, x.first < first) (hrest : ∀ x ∈ rest, stop < x.first) :
    insertPart first stop (before ++ rest) = some (before ++ (part first stop ++ rest)) := by
  unfold insertPart part
  split_ifs with h
  · rfl
  · exact insertRange_between (UInt64.lt_of_le_of_ne hle h) hbefore hrest

theorem exists_remove (hs : s.Canonical) (hmem : s.Mem value) :
    ∃ s', s.remove value = .removed s' ∧ s'.Canonical ∧
      (∀ w, s'.Mem w ↔ w ≠ value ∧ s.Mem w) ∧ s'.size + 1 = s.size := by
  obtain ⟨r, hr, hvalue⟩ := hmem
  obtain ⟨before, rest, hsplit, hbefore, hrest⟩ := hs.split hr
  have hnonempty : ∀ x ∈ before ++ r :: rest, x.first < x.stop := hsplit ▸ hs.nonempty
  have hapart : (before ++ r :: rest).Pairwise _ := hsplit ▸ hs.apart
  have hfirst := hvalue.1
  have hstop : value + 1 ≤ r.stop := by
    have := hvalue.2
    grind
  have hsucc : value < value + 1 := by
    have := hvalue.2
    grind
  have hbefore' : ∀ x ∈ before, x.first < r.first := fun x hx =>
    UInt64.lt_trans (hnonempty x (mem_append_left _ hx)) (hbefore x hx)
  have herase : s.ranges.erase r = before ++ rest := by
    rw [hsplit, erase_append_right _ fun h =>
      UInt64.lt_irrefl _ (hbefore' r h), erase_cons_head]
  have hleft : insertPart r.first value (before ++ rest)
      = some (before ++ (part r.first value ++ rest)) :=
    insertPart_between hfirst hbefore' fun x hx =>
      UInt64.lt_trans hvalue.2 (hrest x hx)
  have hright : insertPart (value + 1) r.stop (before ++ (part r.first value ++ rest))
      = some (before ++ part r.first value ++ (part (value + 1) r.stop ++ rest)) := by
    rw [← append_assoc]
    refine insertPart_between hstop (fun x hx => ?_) hrest
    rcases mem_append.mp hx with hx | hx
    · have := hbefore' x hx
      grind
    · rw [(mem_part.mp hx).2]
      exact UInt64.lt_of_le_of_lt hfirst hsucc
  refine ⟨⟨before ++ part r.first value ++ (part (value + 1) r.stop ++ rest)⟩,
    ?_, ⟨?_, ?_⟩, fun w => ?_, ?_⟩
  · have hcontains := (contains_iff hs).mpr ⟨r, hr, hvalue⟩
    simp [remove, hcontains, hs.current_eq hr hvalue, herase, hleft, hright]
  · intro x hx
    simp only [mem_append, mem_part] at hx
    rcases hx with (hx | ⟨hne, rfl⟩) | ⟨hne, rfl⟩ | hx
    · exact hnonempty x (mem_append_left _ hx)
    · exact UInt64.lt_of_le_of_ne hfirst hne
    · exact UInt64.lt_of_le_of_ne hstop hne
    · exact hnonempty x (mem_append_right _ (mem_cons_of_mem _ hx))
  · simp only [pairwise_append, pairwise_part, mem_append, mem_part]
    grind
  · have hrange : r.Mem w ↔ (r.first ≤ w ∧ w < value) ∨ w = value ∨
        (value + 1 ≤ w ∧ w < r.stop) := by
      unfold Range.Mem at hvalue ⊢
      grind
    -- the other ranges do not hold `value`
    have hB : (∃ x ∈ before, x.Mem w) → w < value := by
      rintro ⟨x, hx, -, hlt⟩
      have := hbefore x hx
      grind
    have hR : (∃ x ∈ rest, x.Mem w) → value < w := by
      rintro ⟨x, hx, hle, -⟩
      have := hrest x hx
      have := hvalue.2
      grind
    have hold : s.Mem w ↔ (∃ x ∈ before, x.Mem w) ∨ r.Mem w ∨ ∃ x ∈ rest, x.Mem w := by
      simp only [Mem, hsplit, mem_append, mem_cons, or_and_right, exists_or, exists_eq_left]
    rw [hold]
    simp only [Mem, mem_append, or_and_right, exists_or, exists_part]
    grind
  · show total _ + 1 = total s.ranges
    rw [hsplit]
    simp only [total_append, total_part, total_cons]
    grind

end Remove

/-! ## Runs -/

inductive Call where
  | add (value : UInt64)
  | remove (value : UInt64)
  deriving DecidableEq, Repr

def call (s : CRangesSet) : Call → Option (Bool × CRangesSet)
  | .add value =>
    match s.add value with
    | .present => some (false, s)
    | .added s' => some (true, s')
    | .assertionFailed => none
  | .remove value =>
    match s.remove value with
    | .absent => some (false, s)
    | .removed s' => some (true, s')
    | .assertionFailed => none

def Call.onSet (S : Finset UInt64) : Call → Finset UInt64
  | .add value => insert value S
  | .remove value => S.erase value

structure Shows (s : CRangesSet) (S : Finset UInt64) : Prop where
  canonical : s.Canonical
  contains : ∀ value, s.contains value = true ↔ value ∈ S
  size : s.size.toNat = S.card

/-- At every point of a run the ranges show the finite set, and each call
returns whether it changes that set. -/
def BehavesAs : CRangesSet → Finset UInt64 → List Call → Prop
  | s, S, [] => s.Shows S
  | s, S, c :: calls => s.Shows S ∧
    ∃ s', s.call c = some (decide (c.onSet S ≠ S), s') ∧ BehavesAs s' (c.onSet S) calls

variable {s s' : CRangesSet} {S : Finset UInt64} {value : UInt64}

theorem shows_empty : empty.Shows ∅ := ⟨canonical_empty, by simp [contains, empty, before, rest],
  rfl⟩

theorem BehavesAs.shows {calls : List Call} (h : BehavesAs s S calls) : s.Shows S := by
  cases calls with
  | nil => exact h
  | cons c calls => exact h.1

theorem Canonical.not_mem_maxValue (_hs : s.Canonical) : ¬ s.Mem maxValue := by
  rintro ⟨r, -, -, hlt⟩
  unfold maxValue at hlt
  grind

theorem Shows.mem_iff (h : s.Shows S) : s.Mem value ↔ value ∈ S :=
  (contains_iff h.canonical).symm.trans (h.contains value)

theorem card_lt_of_notMem (hmax : maxValue ∉ S) : S.card < 2 ^ 64 := by
  have hle : (insert maxValue S).card ≤ (Finset.range (2 ^ 64)).card :=
    Finset.card_le_card_of_injOn UInt64.toNat
      (fun w _ => Finset.mem_coe.mpr (Finset.mem_range.mpr w.toNat_lt))
      fun _ _ _ _ h => UInt64.toNat_inj.mp h
  rw [Finset.card_insert_of_notMem hmax, Finset.card_range] at hle
  exact hle

theorem Shows.add (h : s.Shows S) (hmax : value ≠ maxValue) :
    ∃ s', s.call (.add value) = some (decide (insert value S ≠ S), s') ∧
      s'.Shows (insert value S) := by
  by_cases hmem : value ∈ S
  · refine ⟨s, ?_, by rwa [Finset.insert_eq_of_mem hmem]⟩
    simp [call, add_present h.canonical (h.mem_iff.mpr hmem), hmem]
  · obtain ⟨s', hadd, hs', hiff⟩ := exists_add h.canonical hmax (fun hm => hmem (h.mem_iff.mp hm))
    refine ⟨s', ?_, hs', fun w => ?_, ?_⟩
    · simp [call, hadd, hmem]
    · rw [contains_iff hs', hiff, h.mem_iff, Finset.mem_insert]
    · have hroom : (insert value S).card < 2 ^ 64 := card_lt_of_notMem fun hm =>
        hs'.not_mem_maxValue ((hiff maxValue).mpr
          ((Finset.mem_insert.mp hm).imp_right h.mem_iff.mpr))
      rw [Finset.card_insert_of_notMem hmem] at hroom ⊢
      rw [size_of_add hadd, UInt64.toNat_add, h.size]
      exact Nat.mod_eq_of_lt hroom

theorem Shows.remove (h : s.Shows S) :
    ∃ s', s.call (.remove value) = some (decide (S.erase value ≠ S), s') ∧
      s'.Shows (S.erase value) := by
  by_cases hmem : value ∈ S
  · obtain ⟨s', hremove, hs', hiff, hsize⟩ := exists_remove h.canonical (h.mem_iff.mpr hmem)
    refine ⟨s', ?_, hs', fun w => ?_, ?_⟩
    · simp [call, hremove, hmem]
    · rw [contains_iff hs', hiff, h.mem_iff, Finset.mem_erase]
    · have hcount := congrArg UInt64.toNat hsize
      rw [UInt64.toNat_add, h.size, UInt64.toNat_one] at hcount
      have hpos := Finset.card_pos.mpr ⟨value, hmem⟩
      have hlt := s'.size.toNat_lt
      rw [Finset.card_erase_of_mem hmem]
      omega
  · refine ⟨s, ?_, by rwa [Finset.erase_eq_of_notMem hmem]⟩
    have hnot : s.contains value = false :=
      Bool.eq_false_iff.mpr fun hc => hmem ((h.contains value).mp hc)
    simp [call, CRangesSet.remove, hnot, hmem]

theorem Shows.call (h : s.Shows S) {c : Call} (hc : c ≠ .add maxValue) :
    ∃ s', s.call c = some (decide (c.onSet S ≠ S), s') ∧ s'.Shows (c.onSet S) := by
  cases c with
  | add value => exact h.add fun hv => hc (congrArg Call.add hv)
  | remove value => exact h.remove

theorem Shows.behavesAs_iff (h : s.Shows S) (calls : List Call) :
    BehavesAs s S calls ↔ Call.add maxValue ∉ calls := by
  induction calls generalizing s S with
  | nil => simpa [BehavesAs] using h
  | cons c calls ih =>
    by_cases hc : c = .add maxValue
    · subst hc
      refine iff_of_false ?_ (by simp)
      rintro ⟨-, s', -, hrest⟩
      -- the finite set now holds the number that no canonical set holds
      exact hrest.shows.canonical.not_mem_maxValue
        (hrest.shows.mem_iff.mpr (Finset.mem_insert_self maxValue S))
    · obtain ⟨s', hcall, hs'⟩ := h.call hc
      simp only [BehavesAs, hcall, mem_cons, not_or]
      constructor
      · rintro ⟨-, _, heq, hrest⟩
        cases heq
        exact ⟨Ne.symm hc, (ih hs').mp hrest⟩
      · rintro ⟨-, hnot⟩
        exact ⟨h, s', rfl, (ih hs').mpr hnot⟩

/-- A run of calls on a new `CRangesSet` behaves as the same run on a finite
set, exactly if it never adds the largest number. -/
theorem behavesAs_finset_iff (calls : List Call) :
    BehavesAs empty ∅ calls ↔ Call.add maxValue ∉ calls :=
  shows_empty.behavesAs_iff calls

/-- `Add` of the largest number says that it was added, `Contains` denies it,
and a second `Add` fails its assertion. -/
theorem add_maxValue_lost : ∃ s, empty.call (.add maxValue) = some (true, s) ∧
      s.contains maxValue = false ∧ s.call (.add maxValue) = none :=
  ⟨⟨[⟨maxValue, 0⟩]⟩, by decide⟩

/-! ## The ranges of a set -/

section Unique

variable {r r' : Range}

theorem Canonical.eq_or_apart (hs : s.Canonical) (hr : r ∈ s.ranges) (hr' : r' ∈ s.ranges) :
    r' = r ∨ r'.stop < r.first ∨ r.stop < r'.first := by
  obtain ⟨before, rest, hsplit, hbefore, hrest⟩ := hs.split hr
  rw [hsplit, mem_append, mem_cons] at hr'
  rcases hr' with h | h | h
  · exact .inr (.inl (hbefore r' h))
  · exact .inl h
  · exact .inr (.inr (hrest r' h))

theorem Canonical.le_of_overlap (hs : s.Canonical) (hsub : ∀ w, s'.Mem w → s.Mem w)
    (hr : r ∈ s.ranges) (hr' : r' ∈ s'.ranges) (hv : r.Mem value) (hv' : r'.Mem value) :
    r.first ≤ r'.first ∧ r'.stop ≤ r.stop := by
  have hinside (w : UInt64) (hw : r'.Mem w) : ∃ x ∈ s.ranges, x.Mem w := hsub w ⟨r', hr', hw⟩
  unfold Range.Mem at *
  -- a number of `r'` just outside of `r` would be in a range of `s` that touches `r`
  constructor
  · by_contra hlt
    obtain ⟨x, hx, hw⟩ := hinside (r.first - 1) (by grind)
    have := hs.eq_or_apart hr hx
    grind
  · by_contra hlt
    obtain ⟨x, hx, hw⟩ := hinside r.stop (by grind)
    have := hs.eq_or_apart hr hx
    grind

theorem Canonical.subset (hs : s.Canonical) (hs' : s'.Canonical)
    (h : ∀ w, s.Mem w ↔ s'.Mem w) : s.ranges ⊆ s'.ranges := by
  intro r hr
  have hfirst : r.Mem r.first := ⟨UInt64.le_refl _, hs.nonempty r hr⟩
  obtain ⟨r', hr', hmem⟩ := (h r.first).mp ⟨r, hr, hfirst⟩
  have hle := hs.le_of_overlap (fun w => (h w).mpr) hr hr' hfirst hmem
  have hge := hs'.le_of_overlap (fun w => (h w).mp) hr' hr hmem hfirst
  have heq : r = r' := by
    cases r
    cases r'
    grind
  rwa [heq]

theorem Canonical.nodup (hs : s.Canonical) : s.ranges.Nodup :=
  hs.apart.imp_of_mem fun ha _ hab heq => by
    have := hs.nonempty _ ha
    grind

theorem Canonical.eq_of_mem_iff (hs : s.Canonical) (hs' : s'.Canonical)
    (h : ∀ w, s.Mem w ↔ s'.Mem w) : s = s' := by
  have hperm : s.ranges ~ s'.ranges := (perm_ext_iff_of_nodup hs.nodup hs'.nodup).mpr
    fun _ => ⟨(hs.subset hs' h ·), (hs'.subset hs (fun w => (h w).symm) ·)⟩
  have heq : s.ranges = s'.ranges := hperm.eq_of_pairwise (fun a b ha hb hab hba => by
    have := hs.nonempty a ha
    have := hs'.nonempty b hb
    grind) hs.apart hs'.apart
  exact congrArg CRangesSet.mk heq

end Unique

def run : CRangesSet → List Call → Option CRangesSet
  | s, [] => some s
  | s, c :: calls => (s.call c).bind fun answer => answer.2.run calls

theorem Shows.run (h : s.Shows S) {calls : List Call} (hmax : Call.add maxValue ∉ calls) :
    ∃ s', s.run calls = some s' ∧ s'.Shows (calls.foldl Call.onSet S) := by
  induction calls generalizing s S with
  | nil => exact ⟨s, rfl, h⟩
  | cons c calls ih =>
    obtain ⟨hc, hcalls⟩ := not_or.mp (mt mem_cons.mpr hmax)
    obtain ⟨s', hcall, hs'⟩ := h.call (Ne.symm hc)
    obtain ⟨t, hrun, ht⟩ := ih hs' hcalls
    exact ⟨t, by rw [CRangesSet.run, hcall]; exact hrun, ht⟩

/-- Whatever calls lead to a set of numbers, and in whatever order, they leave
the same ranges. -/
theorem run_eq_of_onSet_eq {calls calls' : List Call} (hmax : Call.add maxValue ∉ calls)
    (hmax' : Call.add maxValue ∉ calls')
    (h : calls.foldl Call.onSet ∅ = calls'.foldl Call.onSet ∅) :
    ∃ s, empty.run calls = some s ∧ empty.run calls' = some s := by
  obtain ⟨s, hrun, hs⟩ := shows_empty.run hmax
  obtain ⟨s', hrun', hs'⟩ := shows_empty.run hmax'
  have heq : s = s' := hs.canonical.eq_of_mem_iff hs'.canonical fun w => by
    rw [hs.mem_iff, hs'.mem_iff, h]
  exact ⟨s, hrun, heq ▸ hrun'⟩

theorem run_eq_of_onSet_eq_pair : ∃ s,
    empty.run [.add 5, .add 7, .add 6, .remove 5] = some s ∧ empty.run [.add 7, .add 6] = some s :=
  run_eq_of_onSet_eq (by decide) (by decide) (by decide)

end CRangesSet

end KorshCore

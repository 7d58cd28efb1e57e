import Mathlib.Data.List.Basic
import Mathlib.Data.List.Pairwise

/-!
# Sets of ranges of 64-bit numbers

`util/ranges_set.cpp`: `CRangesSet` keeps a set of `uint64_t` as the half-open
ranges it is made of. The `std::set` of ranges is the list of its elements in
their order, and `value + 1` wraps around as it does in the source.
-/

namespace KorshCore

open List

/-- `CRangesSet::Range`, the numbers from `first` up to, but not including,
`stop`. The source calls them `begin` and `end`. -/
structure Range where
  first : UInt64
  stop : UInt64
  deriving DecidableEq, Repr

namespace Range

/-- `Range::operator<`. -/
def lt (r other : Range) : Bool :=
  if r.first != other.first then r.first < other.first else r.stop < other.stop

def Mem (value : UInt64) (r : Range) : Prop := r.first ≤ value ∧ value < r.stop

end Range

structure CRangesSet where
  ranges : List Range
  deriving DecidableEq, Repr

namespace CRangesSet

def empty : CRangesSet := ⟨[]⟩

def isEmpty (s : CRangesSet) : Bool := s.ranges.isEmpty

/-- The ranges before `lower_bound({value, value})`. -/
def before (s : CRangesSet) (value : UInt64) : List Range :=
  s.ranges.filter fun r => r.lt ⟨value, value⟩

/-- The ranges from `lower_bound({value, value})` on. -/
def rest (s : CRangesSet) (value : UInt64) : List Range :=
  s.ranges.filter fun r => !r.lt ⟨value, value⟩

def contains (s : CRangesSet) (value : UInt64) : Bool :=
  ((s.rest value).head?.any fun it => it.first == value) ||
    (s.before value).getLast?.any fun prev =>
      prev.first ≤ value && value < prev.stop

/-- `ranges.insert`, or nothing where the range is there already. -/
def insertRange (r : Range) (ranges : List Range) : Option (List Range) :=
  if r ∈ ranges then none
  else some (ranges.filter (·.lt r) ++ r :: ranges.filter (!·.lt r))

/-- How `CRangesSet::Add` ends: with its answer and the set, or at the failed
assertion that the new range was not there. -/
inductive AddResult where
  | present
  | added (s : CRangesSet)
  | assertionFailed
  deriving DecidableEq, Repr

/-- The range before `value`, if it ends there, is taken out and the new
range starts where it did. -/
def mergeBefore (value : UInt64) (ranges : List Range) : List Range × UInt64 :=
  match ranges.getLast? with
  | some prev =>
    if prev.stop = value then (ranges.dropLast, prev.first) else (ranges, value)
  | none => (ranges, value)

/-- The range after `value`, if it starts there, is taken out and the new
range ends where it did. -/
def mergeRest (value : UInt64) : List Range → List Range × UInt64
  | next :: ranges =>
    if next.first = value + 1 then (ranges, next.stop)
    else (next :: ranges, value + 1)
  | [] => ([], value + 1)

def add (s : CRangesSet) (value : UInt64) : AddResult :=
  if s.contains value then .present
  else
    let (before, first) := mergeBefore value (s.before value)
    let (rest, stop) := mergeRest value (s.rest value)
    match insertRange ⟨first, stop⟩ (before ++ rest) with
    | some ranges => .added ⟨ranges⟩
    | none => .assertionFailed

def Mem (s : CRangesSet) (value : UInt64) : Prop :=
  ∃ r ∈ s.ranges, r.Mem value

/-- The ranges are not empty, are in order and do not touch. -/
structure Canonical (s : CRangesSet) : Prop where
  nonempty : ∀ r ∈ s.ranges, r.first < r.stop
  apart : s.ranges.Pairwise fun r next => r.stop < next.first

theorem canonical_empty : Canonical empty :=
  ⟨fun _ h => absurd h not_mem_nil, Pairwise.nil⟩

theorem not_mem_empty (value : UInt64) : ¬ empty.Mem value := by
  rintro ⟨r, hr, -⟩
  cases hr

/-- `std::numeric_limits<uint64_t>::max()`. -/
def maxValue : UInt64 := 0xffffffffffffffff

/-! ## Where `lower_bound` cuts -/

section Canonical

variable {s : CRangesSet} {value : UInt64} {r : Range}

theorem lt_value_iff (hr : r.first < r.stop) : r.lt ⟨value, value⟩ = true ↔ r.first < value := by
  unfold Range.lt
  split_ifs with h
  · simp
  · simp only [decide_eq_true_eq]
    grind

variable {ranges : List Range}

theorem no_number_between {value : UInt64} (w : UInt64) : ¬ (value ≤ w ∧ w < value) :=
  fun h => UInt64.not_lt.mpr h.1 h.2

theorem insertRange_between {before rest : List Range}
    (hr : r.first < r.stop) (hbefore : ∀ x ∈ before, x.first < r.first)
    (hrest : ∀ x ∈ rest, r.stop < x.first) :
    insertRange r (before ++ rest) = some (before ++ r :: rest) := by
  have hlt : ∀ x ∈ before, x.lt r = true := by
    intro x hx
    have := hbefore x hx
    simp only [Range.lt]
    grind
  have hge : ∀ x ∈ rest, x.lt r = false := by
    intro x hx
    have := hrest x hx
    simp only [Range.lt]
    grind
  have hnew : r ∉ before ++ rest := by
    rw [mem_append]
    rintro (hmem | hmem)
    · exact UInt64.lt_irrefl _ (hbefore r hmem)
    · have := hrest r hmem
      grind
  rw [insertRange, if_neg hnew, filter_append, filter_append,
    filter_eq_self.mpr hlt, filter_eq_nil_iff.mpr (by simp_all),
    filter_eq_nil_iff.mpr (by simp_all), filter_eq_self.mpr (by simp_all)]
  simp

section

variable (hs : s.Canonical)
include hs

theorem Canonical.mem_before : r ∈ s.before value ↔ r ∈ s.ranges ∧ r.first < value := by
  simp only [before, mem_filter]
  exact and_congr_right fun hr => lt_value_iff (hs.nonempty r hr)

theorem Canonical.mem_rest : r ∈ s.rest value ↔ r ∈ s.ranges ∧ value ≤ r.first := by
  simp only [rest, mem_filter, Bool.not_eq_true']
  refine and_congr_right fun hr => ?_
  rw [← Bool.not_eq_true, lt_value_iff (hs.nonempty r hr), UInt64.not_lt]

theorem Canonical.stop_lt_of_dropLast {prev : Range} (hlast : (s.before value).getLast? = some prev)
    (hr : r ∈ (s.before value).dropLast) : r.stop < prev.first := by
  have hsplit : s.before value = (s.before value).dropLast ++ [prev] :=
    (dropLast_append_getLast? prev hlast).symm
  have hapart := hs.apart.sublist (filter_sublist (p := fun r =>
    r.lt ⟨value, value⟩))
  change (s.before value).Pairwise _ at hapart
  rw [hsplit, pairwise_append] at hapart
  exact hapart.2.2 r hr prev (mem_singleton_self prev)

theorem Canonical.stop_lt_of_tail {next : Range}
    (hrest : s.rest value = next :: ranges) (hr : r ∈ ranges) : next.stop < r.first := by
  have hapart := hs.apart.sublist (filter_sublist (p := fun r =>
    !r.lt ⟨value, value⟩))
  change (s.rest value).Pairwise _ at hapart
  rw [hrest, pairwise_cons] at hapart
  exact hapart.1 r hr

theorem Canonical.mem_iff {w : UInt64} :
    s.Mem w ↔ (∃ r ∈ s.before value, r.Mem w) ∨ ∃ r ∈ s.rest value, r.Mem w := by
  constructor
  · rintro ⟨r, hr, hw⟩
    by_cases hlt : r.first < value
    · exact .inl ⟨r, hs.mem_before.mpr ⟨hr, hlt⟩, hw⟩
    · exact .inr ⟨r, hs.mem_rest.mpr ⟨hr, UInt64.not_lt.mp hlt⟩, hw⟩
  · rintro (⟨r, hr, hw⟩ | ⟨r, hr, hw⟩)
    · exact ⟨r, (hs.mem_before.mp hr).1, hw⟩
    · exact ⟨r, (hs.mem_rest.mp hr).1, hw⟩

theorem contains_iff : s.contains value = true ↔ s.Mem value := by
  simp only [contains, Bool.or_eq_true, Option.any_eq_true, beq_iff_eq,
    Bool.and_eq_true, decide_eq_true_eq]
  constructor
  · rintro (⟨it, hhead, hfirst⟩ | ⟨prev, hlast, hmem⟩)
    · have hit := (hs.mem_rest.mp (mem_of_mem_head? hhead)).1
      exact ⟨it, hit, UInt64.le_of_eq hfirst, hfirst ▸ hs.nonempty it hit⟩
    · have hprev := (hs.mem_before.mp (mem_of_mem_getLast? hlast)).1
      exact ⟨prev, hprev, hmem⟩
  · rw [hs.mem_iff]
    rintro (⟨r, hr, hmem⟩ | ⟨r, hr, hmem⟩)
    · right
      obtain ⟨prev, hlast⟩ : ∃ prev, (s.before value).getLast? = some prev :=
        Option.ne_none_iff_exists'.mp fun h => by
          rw [getLast?_eq_none_iff.mp h] at hr
          cases hr
      refine ⟨prev, hlast, ?_⟩
      rw [← dropLast_append_getLast? prev hlast, mem_append, mem_singleton] at hr
      rcases hr with hr | rfl
      · -- An earlier range stops before the last one starts.
        have hstop := hs.stop_lt_of_dropLast hlast hr
        have hprev := (hs.mem_before.mp (mem_of_mem_getLast? hlast)).2
        unfold Range.Mem at hmem
        grind
      · exact hmem
    · left
      cases hrest : s.rest value with
      | nil =>
        rw [hrest] at hr
        cases hr
      | cons next ranges =>
        refine ⟨next, rfl, ?_⟩
        have hnext := hs.mem_rest.mp (hrest ▸ mem_cons_self)
        rw [hrest, mem_cons] at hr
        rcases hr with rfl | hr
        · exact UInt64.le_antisymm hmem.1 hnext.2
        · have hstop := hs.stop_lt_of_tail hrest hr
          have hfirst := hs.nonempty next hnext.1
          unfold Range.Mem at hmem
          grind

/-! ## `Add` -/

/-- What taking out the range before leaves: ranges that stop before the new
one, and the numbers of the range taken out. -/
theorem Canonical.mergeBefore_spec (hnot : ¬ s.Mem value)
    {first : UInt64} (h : mergeBefore value (s.before value) = (ranges, first)) :
    ranges.Sublist (s.before value) ∧ first ≤ value ∧ (∀ r ∈ ranges, r.stop < first) ∧
      ∀ w, (∃ r ∈ s.before value, r.Mem w) ↔ (first ≤ w ∧ w < value) ∨ ∃ r ∈ ranges, r.Mem w := by
  -- A range before `value` that does not hold it stops there or earlier.
  have hstop : ∀ r ∈ s.before value, r.stop ≤ value := by
    intro r hr
    obtain ⟨hmem, hfirst⟩ := hs.mem_before.mp hr
    by_contra hlt
    exact hnot ⟨r, hmem, UInt64.le_of_lt hfirst, UInt64.not_le.mp hlt⟩
  unfold mergeBefore at h
  cases hlast : (s.before value).getLast? with
  | none =>
    rw [hlast] at h
    cases h
    have hnil := getLast?_eq_none_iff.mp hlast
    refine ⟨Sublist.refl _, UInt64.le_refl _, ?_, fun w => ?_⟩
    · simp [hnil]
    · exact (or_iff_right (no_number_between w)).symm
  | some prev =>
    have hprev := hs.mem_before.mp (mem_of_mem_getLast? hlast)
    have hsplit := (dropLast_append_getLast? prev hlast).symm
    rw [hlast] at h
    by_cases htouch : prev.stop = value
    · simp only [if_pos htouch] at h
      cases h
      refine ⟨dropLast_sublist _, UInt64.le_of_lt hprev.2,
        fun r hr => hs.stop_lt_of_dropLast hlast hr, fun w => ?_⟩
      rw [hsplit]
      simp only [mem_append, mem_singleton, or_and_right, exists_or,
        exists_eq_left, dropLast_concat]
      rw [or_comm, Range.Mem, htouch]
    · simp only [if_neg htouch] at h
      cases h
      refine ⟨Sublist.refl _, UInt64.le_refl _, fun r hr => ?_, fun w => ?_⟩
      · rw [hsplit, mem_append, mem_singleton] at hr
        rcases hr with hr | rfl
        · have := hs.stop_lt_of_dropLast hlast hr
          have := hprev.2
          grind
        · exact UInt64.lt_of_le_of_ne (hstop r (mem_of_mem_getLast? hlast)) htouch
      · exact (or_iff_right (no_number_between w)).symm

theorem Canonical.mergeRest_spec (hmax : value ≠ maxValue) (hnot : ¬ s.Mem value) {stop : UInt64}
    (h : mergeRest value (s.rest value) = (ranges, stop)) :
    ranges.Sublist (s.rest value) ∧ value < stop ∧ (∀ r ∈ ranges, stop < r.first) ∧
      ∀ w, (∃ r ∈ s.rest value, r.Mem w) ↔ (value + 1 ≤ w ∧ w < stop) ∨ ∃ r ∈ ranges, r.Mem w := by
  have hsucc : value < value + 1 := by
    unfold maxValue at hmax
    grind
  -- A range from `value` on that does not hold it starts later.
  have hfirst : ∀ r ∈ s.rest value, value + 1 ≤ r.first := by
    intro r hr
    obtain ⟨hmem, hle⟩ := hs.mem_rest.mp hr
    have hne : value ≠ r.first := fun heq =>
      hnot ⟨r, hmem, UInt64.le_of_eq heq.symm, heq ▸ hs.nonempty r hmem⟩
    grind
  cases hrest : s.rest value with
  | nil =>
    rw [hrest] at h
    cases h
    exact ⟨Sublist.refl _, hsucc, by simp, fun w =>
      (or_iff_right (no_number_between w)).symm⟩
  | cons next tail =>
    have hnext : next ∈ s.rest value := hrest ▸ mem_cons_self
    have hnonempty := hs.nonempty next (hs.mem_rest.mp hnext).1
    rw [hrest] at h
    unfold mergeRest at h
    by_cases htouch : next.first = value + 1
    · simp only [if_pos htouch] at h
      cases h
      refine ⟨sublist_cons_self _ _, by grind, fun r hr => hs.stop_lt_of_tail hrest hr, fun w => ?_⟩
      simp only [mem_cons, or_and_right, exists_or, exists_eq_left]
      rw [Range.Mem, htouch]
    · simp only [if_neg htouch] at h
      cases h
      refine ⟨Sublist.refl _, hsucc, fun r hr => ?_, fun w =>
        (or_iff_right (no_number_between w)).symm⟩
      have hlt : value + 1 < next.first :=
        UInt64.lt_of_le_of_ne (hfirst next hnext) (Ne.symm htouch)
      rcases mem_cons.mp hr with rfl | hr
      · exact hlt
      · have := hs.stop_lt_of_tail hrest hr
        grind

theorem add_present (hmem : s.Mem value) : s.add value = .present :=
  if_pos ((contains_iff hs).mpr hmem)

theorem exists_add (hmax : value ≠ maxValue) (hnot : ¬ s.Mem value) :
    ∃ s', s.add value = .added s' ∧ s'.Canonical ∧ ∀ w, s'.Mem w ↔ w = value ∨ s.Mem w := by
  rcases hmb : mergeBefore value (s.before value) with ⟨before, first⟩
  rcases hmr : mergeRest value (s.rest value) with ⟨rest, stop⟩
  obtain ⟨hsubB, hfirst, hB, hmemB⟩ := hs.mergeBefore_spec hnot hmb
  obtain ⟨hsubR, hstop, hR, hmemR⟩ := hs.mergeRest_spec hmax hnot hmr
  have hnew : first < stop := UInt64.lt_of_le_of_lt hfirst hstop
  have hnonemptyB : ∀ r ∈ before, r.first < r.stop := fun r hr =>
    hs.nonempty r (hs.mem_before.mp (hsubB.subset hr)).1
  have hnonemptyR : ∀ r ∈ rest, r.first < r.stop := fun r hr =>
    hs.nonempty r (hs.mem_rest.mp (hsubR.subset hr)).1
  have hinsert : insertRange ⟨first, stop⟩ (before ++ rest)
      = some (before ++ ⟨first, stop⟩ :: rest) :=
    insertRange_between hnew (fun r hr => UInt64.lt_trans (hnonemptyB r hr) (hB r hr)) hR
  refine ⟨⟨before ++ ⟨first, stop⟩ :: rest⟩, ?_, ⟨?_, ?_⟩, fun w => ?_⟩
  · have hcontains : ¬ s.contains value = true := fun h =>
      hnot ((contains_iff hs).mp h)
    simp only [add, if_neg hcontains, hmb, hmr, hinsert]
  · intro r hr
    rcases mem_append.mp hr with hr | hr
    · exact hnonemptyB r hr
    · rcases mem_cons.mp hr with rfl | hr
      · exact hnew
      · exact hnonemptyR r hr
  · refine pairwise_append.mpr ⟨hs.apart.sublist (hsubB.trans filter_sublist), pairwise_cons.mpr
          ⟨hR, hs.apart.sublist (hsubR.trans filter_sublist)⟩, ?_⟩
    intro r hr next hnext
    rcases mem_cons.mp hnext with rfl | hnext
    · exact hB r hr
    · have := hB r hr
      have := hR next hnext
      grind
  · -- The new range is what came before `value`, `value` and what came after.
    have hrange : Range.Mem w ⟨first, stop⟩ ↔ (first ≤ w ∧ w < value) ∨ w = value ∨
        (value + 1 ≤ w ∧ w < stop) := by
      unfold Range.Mem
      grind
    rw [hs.mem_iff, hmemB, hmemR]
    simp only [Mem, mem_append, mem_cons, or_and_right, exists_or, exists_eq_left, hrange]
    rw [← propext_iff]
    ac_rfl

end

end Canonical

end CRangesSet

end KorshCore

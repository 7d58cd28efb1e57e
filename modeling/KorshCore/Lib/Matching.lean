import Mathlib.Data.List.Destutter
import Mathlib.Data.List.Perm.Subperm

/-!
# Looking for expected entries in a list

Two searches for a list of expected entries, and what they leave out. One looks
for each entry anywhere (`⊆`). The other, `scan`, goes through the list once
with a cursor that stays on the entry it has just found.
-/

namespace Matching

open List

open scoped List

variable {α : Type} [DecidableEq α]

/-! ## The cursor -/

/-- Find the entries in order; the cursor stays on the one found. -/
def scan : List α → List α → Bool
  | [], _ => true
  | a :: as, outs =>
    match outs.dropWhile (· ≠ a) with
    | [] => false
    | found :: rest => scan as (found :: rest)

theorem cons_sublist_iff_dropWhile (a : α) (as : List α) : ∀ outs : List α,
    a :: as <+ outs ↔ a :: as <+ outs.dropWhile (· ≠ a)
  | [] => by simp
  | b :: outs => by
    by_cases h : b = a
    · subst h
      simp
    · have hne : a ≠ b := fun hab => h hab.symm
      rw [dropWhile_cons_of_pos (by simpa using h), ← cons_sublist_iff_dropWhile a as outs]
      constructor
      · intro hsub
        cases hsub with
        | cons _ hsub => exact hsub
        | cons_cons _ _ => exact absurd rfl hne
      · exact fun hsub => hsub.cons b

theorem dropWhile_ne_eq_cons {a b : α} {outs rest : List α}
    (h : outs.dropWhile (· ≠ a) = b :: rest) : b = a := by
  have hhead := head?_dropWhile_not (fun x => decide (x ≠ a)) outs
  rw [h] at hhead
  simpa using hhead

theorem destutter'_eq_cons (a : α) : ∀ as : List α, ∃ tail, as.destutter' (· ≠ ·) a = a :: tail
  | [] => ⟨[], rfl⟩
  | b :: as => by
    by_cases hab : a = b
    · subst hab
      rw [destutter'_cons_neg _ (by simp)]
      exact destutter'_eq_cons a as
    · exact ⟨_, destutter'_cons_pos _ hab⟩

theorem scan_cons_iff : ∀ (as : List α) (a : α) (rest : List α),
    scan as (a :: rest) = true ↔ as.destutter' (· ≠ ·) a <+ a :: rest
  | [], a, rest => by simp [scan]
  | b :: as, a, rest => by
    by_cases hab : a = b
    · subst hab
      rw [destutter'_cons_neg _ (by simp), ← scan_cons_iff as a rest]
      simp [scan]
    · have hdrop : (a :: rest).dropWhile (· ≠ b) = rest.dropWhile (· ≠ b) :=
        dropWhile_cons_of_pos (by simpa using hab)
      rw [destutter'_cons_pos _ hab, cons_sublist_cons, scan, hdrop]
      obtain ⟨tail, htail⟩ := destutter'_eq_cons b as
      rw [htail, cons_sublist_iff_dropWhile, ← htail]
      split
      · next hnil =>
        rw [hnil, htail]
        simp
      · next found rest' hfound =>
        obtain rfl := dropWhile_ne_eq_cons hfound
        rw [hfound, scan_cons_iff]

theorem scan_iff (as outs : List α) : scan as outs = true ↔ as.destutter (· ≠ ·) <+ outs := by
  cases as with
  | nil => simp [scan]
  | cons a as =>
    obtain ⟨tail, htail⟩ := destutter'_eq_cons a as
    rw [destutter_cons', htail, cons_sublist_iff_dropWhile, ← htail, scan]
    split
    · next hnil =>
      rw [hnil, htail]
      simp
    · next found rest hfound =>
      obtain rfl := dropWhile_ne_eq_cons hfound
      rw [hfound, scan_cons_iff]

/-! ## Multiplicities -/

theorem subperm_append {as bs outs : List α} (hnodup : as.Nodup)
    (hdisjoint : as.Disjoint bs) (hchain : bs.IsChain (· ≠ ·))
    (has : as ⊆ outs) (hbs : bs.destutter (· ≠ ·) <+ outs) : as ++ bs <+~ outs := by
  rw [destutter_of_isChain _ bs hchain] at hbs
  rw [subperm_ext_iff]
  intro x hx
  rw [count_append]
  by_cases hxa : x ∈ as
  · have hxb : x ∉ bs := fun hxb => hdisjoint hxa hxb
    rw [count_eq_one_of_mem hnodup hxa, count_eq_zero_of_not_mem hxb]
    exact one_le_count_iff.mpr (has hxa)
  · rw [count_eq_zero_of_not_mem hxa, Nat.zero_add]
    exact hbs.count_le x

def cover (as bs : List α) : List α :=
  (as.dedup.filter (· ∉ bs)) ++ bs.destutter (· ≠ ·)

theorem mem_destutter' {x : α} : ∀ (as : List α) (a : α),
    x ∈ as.destutter' (· ≠ ·) a ↔ x = a ∨ x ∈ as
  | [], a => by simp
  | b :: as, a => by
    by_cases hab : a = b
    · subst hab
      rw [destutter'_cons_neg _ (by simp), mem_destutter' as a]
      simp
    · rw [destutter'_cons_pos _ hab, mem_cons, mem_destutter' as b, mem_cons]

theorem mem_destutter {x : α} (bs : List α) : x ∈ bs.destutter (· ≠ ·) ↔ x ∈ bs := by
  cases bs with
  | nil => simp
  | cons b bs => rw [destutter_cons', mem_destutter', mem_cons]

theorem subset_cover (as bs : List α) : as ⊆ cover as bs := by
  intro x hx
  unfold cover
  rw [mem_append, mem_destutter, mem_filter, mem_dedup]
  by_cases hxb : x ∈ bs
  · exact .inr hxb
  · exact .inl ⟨hx, by simpa using hxb⟩

theorem destutter_sublist_cover (as bs : List α) : bs.destutter (· ≠ ·) <+ cover as bs :=
  sublist_append_right _ _

theorem cover_subperm {as bs outs : List α} (has : as ⊆ outs)
    (hbs : bs.destutter (· ≠ ·) <+ outs) : cover as bs <+~ outs := by
  rw [subperm_ext_iff]
  intro x hx
  unfold cover at hx ⊢
  rw [count_append]
  by_cases hxb : x ∈ bs
  · have hnot : x ∉ as.dedup.filter (· ∉ bs) := by
      simp [hxb]
    rw [count_eq_zero_of_not_mem hnot, Nat.zero_add]
    exact hbs.count_le x
  · have hnot : x ∉ bs.destutter (· ≠ ·) := fun hmem =>
      hxb ((mem_destutter bs).mp hmem)
    have hxa : x ∈ as := by
      rcases mem_append.mp hx with hmem | hmem
      · exact mem_dedup.mp (mem_filter.mp hmem).1
      · exact absurd hmem hnot
    have hone : (as.dedup.filter (· ∉ bs)).count x ≤ 1 :=
      nodup_iff_count_le_one.mp ((nodup_dedup as).filter _) x
    have houts : 1 ≤ outs.count x := one_le_count_iff.mpr (has hxa)
    rw [count_eq_zero_of_not_mem hnot]
    omega

theorem exists_count_cover_lt {as as' bs bs' : List α} (has : as' <+ as)
    (hbs : bs' <+ bs) (h : ¬(as' = as ∧ bs' = bs ∧ as.Nodup ∧ as.Disjoint bs ∧
      bs.IsChain (· ≠ ·))) : ∃ x, (cover as' bs').count x < (as ++ bs).count x := by
  by_contra hnone
  push Not at hnone
  apply h
  -- every part of the cover is as long as it can be
  have hlength : (as ++ bs).length ≤ (cover as' bs').length :=
    (subperm_ext_iff.mpr fun x _ => hnone x).length_le
  have hdedup := dedup_sublist as'
  have hfilter : (as'.dedup.filter (· ∉ bs')) <+ as'.dedup := filter_sublist
  have hdestutter := destutter_sublist (· ≠ ·) bs'
  have hdedupLength := hdedup.length_le
  have hfilterLength := hfilter.length_le
  have hdestutterLength := hdestutter.length_le
  have hbsLength := hbs.length_le
  unfold cover at hlength
  rw [length_append, length_append] at hlength
  obtain rfl := has.eq_of_length_le (by omega)
  obtain rfl := hbs.eq_of_length_le (by omega)
  have hsame := hdedup.eq_of_length_le (by omega)
  have hall := hfilter.eq_of_length_le (by omega)
  refine ⟨rfl, rfl, dedup_eq_self.mp hsame, ?_, ?_⟩
  · intro x hx
    have hmem := filter_eq_self.mp hall x (mem_dedup.mpr hx)
    simpa using hmem
  · exact (destutter_eq_self_iff _ bs').mp (hdestutter.eq_of_length_le (by omega))

end Matching

import Mathlib.Algebra.BigOperators.Group.List.Basic
import Mathlib.Algebra.Ring.Int.Defs
import Mathlib.Order.Lattice

/-!
# Maps that are kept in the order of their keys

`SortedMap K V` is an ordered map: a list of entries whose keys increase, with
the order as a field. `insert` replaces the entry of a key, `erase` removes it,
and `lowerBound` is the rest of the entries from a key on.

* Look-ups. `find_insert` and `find_erase` give them after an operation, and
  `ext_find` says that a map is what its look-ups are.
* Iteration. `mem_lowerBound` and `sorted_lowerBound` say what an iterator that is
  set to a key goes through.
* Sums. `total_insert` and `total_erase` keep a running sum over the entries.
* Folds. `lookup_foldl_entries` is the look-up after all entries were written.
-/

structure SortedMap (K V : Type) [LinearOrder K] where
  entries : List (K × V)
  sorted : entries.Pairwise fun a b => a.1 < b.1

namespace SortedMap

open List Prod Option

variable {K V : Type} [LinearOrder K]

def empty : SortedMap K V := ⟨[], .nil⟩

def find (m : SortedMap K V) (k : K) : Option V :=
  (m.entries.find? fun e => e.1 = k).map snd

def contains (m : SortedMap K V) (k : K) : Bool := (m.find k).isSome

def keys (m : SortedMap K V) : List K := m.entries.map fst

/-- The entries from the first key that is not below `k`. -/
def lowerBound (m : SortedMap K V) (k : K) : List (K × V) :=
  m.entries.dropWhile fun e => e.1 < k

def insertEntry (k : K) (v : V) : List (K × V) → List (K × V)
  | [] => [(k, v)]
  | e :: l =>
    if k < e.1 then (k, v) :: e :: l
    else if e.1 < k then e :: insertEntry k v l
    else (k, v) :: l

theorem mem_insertEntry {k : K} {v : V} {x : K × V} : ∀ {l : List (K × V)},
    x ∈ insertEntry k v l → x = (k, v) ∨ x ∈ l
  | [], h => .inl (mem_singleton.mp h)
  | e :: l, h => by
    unfold insertEntry at h
    split_ifs at h
    · exact mem_cons.mp h
    · rcases mem_cons.mp h with rfl | h
      · exact .inr mem_cons_self
      · rcases mem_insertEntry h with h | h
        · exact .inl h
        · exact .inr (mem_cons_of_mem _ h)
    · rcases mem_cons.mp h with h | h
      · exact .inl h
      · exact .inr (mem_cons_of_mem _ h)

theorem sorted_insertEntry (k : K) (v : V) {l : List (K × V)}
    (h : l.Pairwise fun a b => a.1 < b.1) : (insertEntry k v l).Pairwise fun a b => a.1 < b.1 := by
  induction l with
  | nil => exact pairwise_singleton _ _
  | cons e l ih =>
    obtain ⟨hfirst, hrest⟩ := pairwise_cons.mp h
    unfold insertEntry
    split_ifs with hlt hgt
    · refine pairwise_cons.mpr ⟨fun x hx => ?_, h⟩
      rcases mem_cons.mp hx with rfl | hx
      · exact hlt
      · exact hlt.trans (hfirst x hx)
    · refine pairwise_cons.mpr ⟨fun x hx => ?_, ih hrest⟩
      rcases mem_insertEntry hx with rfl | hx
      · exact hgt
      · exact hfirst x hx
    · have heq : e.1 = k := le_antisymm (not_lt.mp hlt) (not_lt.mp hgt)
      exact pairwise_cons.mpr ⟨fun x hx => heq ▸ hfirst x hx, hrest⟩

def insert (m : SortedMap K V) (k : K) (v : V) : SortedMap K V :=
  ⟨insertEntry k v m.entries, sorted_insertEntry k v m.sorted⟩

def erase (m : SortedMap K V) (k : K) : SortedMap K V :=
  ⟨m.entries.filter fun e => e.1 ≠ k, m.sorted.filter _⟩

/-! ## Lookups -/

variable {m : SortedMap K V}

theorem find_eq_some_iff {k : K} {v : V} : m.find k = some v ↔ (k, v) ∈ m.entries := by
  obtain ⟨l, hl⟩ := m
  show (l.find? fun e => e.1 = k).map snd = some v ↔ (k, v) ∈ l
  induction l with
  | nil => simp
  | cons e l ih =>
    obtain ⟨hfirst, hrest⟩ := pairwise_cons.mp hl
    by_cases hk : e.1 = k
    · have hnot : (k, v) ∉ l := fun hmem => (hfirst (k, v) hmem).ne hk
      simp only [find?_cons, hk, decide_true, map_some, mem_cons, hnot, or_false, some.injEq]
      constructor
      · intro hv
        rw [← hk, ← hv]
      · intro he
        rw [← he]
    · have hne : (k, v) ≠ e := fun heq => hk (heq ▸ rfl)
      simp only [find?_cons, hk, decide_false, mem_cons, hne, false_or]
      exact ih hrest

theorem contains_iff_mem_keys {k : K} : m.contains k = true ↔ k ∈ m.keys := by
  unfold contains keys
  rw [isSome_iff_exists, List.mem_map]
  constructor
  · intro ⟨v, hv⟩
    exact ⟨(k, v), find_eq_some_iff.mp hv, rfl⟩
  · intro ⟨e, he, hk⟩
    exact ⟨e.2, find_eq_some_iff.mpr (hk ▸ he)⟩

variable (m : SortedMap K V)

theorem find_insert (k k' : K) (v : V) :
    (m.insert k v).find k' = if k' = k then some v else m.find k' := by
  obtain ⟨l, hl⟩ := m
  show ((insertEntry k v l).find? fun e => e.1 = k').map snd
    = if k' = k then some v else (l.find? fun e => e.1 = k').map snd
  induction l with
  | nil =>
    by_cases hk : k = k'
    · simp [insertEntry, hk]
    · simp [insertEntry, hk, Ne.symm hk]
  | cons e l ih =>
    obtain ⟨-, hrest⟩ := pairwise_cons.mp hl
    unfold insertEntry
    by_cases hlt : k < e.1
    · rw [if_pos hlt]
      by_cases hk : k = k'
      · simp [hk]
      · simp [find?_cons, hk, Ne.symm hk]
    rw [if_neg hlt]
    by_cases hgt : e.1 < k
    · rw [if_pos hgt]
      by_cases he : e.1 = k'
      · have hne : k' ≠ k := fun heq => hgt.ne (he.trans heq)
        simp [he, hne]
      · simpa [find?_cons, he] using ih hrest
    · rw [if_neg hgt]
      have heq : e.1 = k := le_antisymm (not_lt.mp hlt) (not_lt.mp hgt)
      by_cases hk : k = k'
      · simp [hk]
      · simp [hk, Ne.symm hk, heq]

theorem find_erase (k k' : K) : (m.erase k).find k' = if k' = k then none else m.find k' := by
  unfold find erase
  rw [find?_filter]
  split_ifs with hk
  · rw [map_eq_none_iff, find?_eq_none]
    intro e _
    simp [hk]
  · congr 2
    funext e
    by_cases he : e.1 = k'
    · simp [he, hk]
    · simp [he]

theorem ext_find {m m' : SortedMap K V} (h : ∀ k, m.find k = m'.find k) : m = m' := by
  have hmem : ∀ e, e ∈ m.entries ↔ e ∈ m'.entries := by
    intro e
    rw [← find_eq_some_iff (k := e.1) (v := e.2), h, find_eq_some_iff]
  have hnodup : ∀ m : SortedMap K V, m.entries.Nodup := fun m =>
    m.sorted.imp fun {a b} hlt heq => hlt.ne (by rw [heq])
  have hperm := (perm_ext_iff_of_nodup (hnodup m) (hnodup m')).mpr hmem
  have heq : m.entries = m'.entries :=
    hperm.eq_of_pairwise (fun a b _ _ hab hba => absurd (hab.trans hba) (lt_irrefl _))
      m.sorted m'.sorted
  cases m
  cases m'
  cases heq
  rfl

theorem mem_lowerBound {m : SortedMap K V} {k : K} {e : K × V} :
    e ∈ m.lowerBound k ↔ e ∈ m.entries ∧ k ≤ e.1 := by
  obtain ⟨l, hl⟩ := m
  show e ∈ l.dropWhile (fun e => e.1 < k) ↔ e ∈ l ∧ k ≤ e.1
  induction l with
  | nil => simp
  | cons first l ih =>
    obtain ⟨hfirst, hrest⟩ := pairwise_cons.mp hl
    by_cases hlt : first.1 < k
    · rw [dropWhile_cons_of_pos (by simpa using hlt), ih hrest, mem_cons]
      constructor
      · intro ⟨hmem, hle⟩
        exact ⟨.inr hmem, hle⟩
      · intro ⟨hmem, hle⟩
        rcases hmem with rfl | hmem
        · exact absurd hlt (not_lt.mpr hle)
        · exact ⟨hmem, hle⟩
    · rw [dropWhile_cons_of_neg (by simpa using hlt)]
      refine ⟨fun hmem => ⟨hmem, ?_⟩, And.left⟩
      rcases mem_cons.mp hmem with rfl | hmem
      · exact not_lt.mp hlt
      · exact (not_lt.mp hlt).trans (hfirst e hmem).le

theorem sorted_lowerBound (k : K) : (m.lowerBound k).Pairwise fun a b => a.1 < b.1 :=
  m.sorted.sublist (dropWhile_sublist _)

/-! ## Folds -/

def total (cost : K → V → Int) (m : SortedMap K V) : Int :=
  (m.entries.map fun e => cost e.1 e.2).sum

def costOf (cost : K → V → Int) (m : SortedMap K V) (k : K) : Int :=
  match m.find k with
  | some v => cost k v
  | none => 0

theorem total_erase (cost : K → V → Int) (m : SortedMap K V) (k : K) :
    (m.erase k).total cost = m.total cost - m.costOf cost k := by
  obtain ⟨l, hl⟩ := m
  show ((l.filter fun e => e.1 ≠ k).map fun e => cost e.1 e.2).sum
    = (l.map fun e => cost e.1 e.2).sum - match (l.find? fun e => e.1 = k).map snd with
        | some v => cost k v
        | none => 0
  induction l with
  | nil => rfl
  | cons e l ih =>
    obtain ⟨hfirst, hrest⟩ := pairwise_cons.mp hl
    by_cases he : e.1 = k
    · have hkeep : (l.filter fun e => decide (e.1 ≠ k)) = l := by
        refine filter_eq_self.mpr fun x hx => decide_eq_true ?_
        exact fun heq => (hfirst x hx).ne (he.trans heq.symm)
      rw [filter_cons_of_neg (by simpa using he), hkeep]
      simp [he]
    · have hrec := ih hrest
      simp only [find?_cons, he, decide_false, filter_cons, ne_eq,
        not_false_eq_true, decide_true, if_true, map_cons, sum_cons]
      rw [hrec]
      omega

theorem total_insert (cost : K → V → Int) (m : SortedMap K V) (k : K) (v : V) :
    (m.insert k v).total cost = m.total cost - m.costOf cost k + cost k v := by
  obtain ⟨l, hl⟩ := m
  show ((insertEntry k v l).map fun e => cost e.1 e.2).sum = (l.map fun e => cost e.1 e.2).sum
      - (match (l.find? fun e => e.1 = k).map snd with
        | some v => cost k v
        | none => 0) + cost k v
  induction l with
  | nil => simp [insertEntry]
  | cons e l ih =>
    obtain ⟨hfirst, hrest⟩ := pairwise_cons.mp hl
    unfold insertEntry
    by_cases hlt : k < e.1
    · have hnone : ((e :: l).find? fun e => e.1 = k) = none := by
        refine find?_eq_none.mpr fun x hx => ?_
        rcases mem_cons.mp hx with rfl | hx
        · simpa using hlt.ne'
        · simpa using (hlt.trans (hfirst x hx)).ne'
      rw [if_pos hlt, hnone]
      simp only [map_none, map_cons, sum_cons]
      omega
    rw [if_neg hlt]
    by_cases hgt : e.1 < k
    · rw [if_pos hgt, find?_cons, decide_eq_false hgt.ne]
      simp only [map_cons, sum_cons]
      rw [ih hrest]
      omega
    · have heq : e.1 = k := le_antisymm (not_lt.mp hlt) (not_lt.mp hgt)
      rw [if_neg hgt, find?_cons, decide_eq_true heq]
      simp only [map_some, map_cons, sum_cons, heq]
      omega

theorem lookup_foldl_entries {C A : Type} {lookup : C → K → A} {step : C → K × V → C}
    {g : V → A} (h : ∀ c e k, lookup (step c e) k = if k = e.1 then g e.2 else lookup c k)
    (m : SortedMap K V) (c : C) (k : K) :
    lookup (m.entries.foldl step c) k = ((m.find k).map g).getD (lookup c k) := by
  obtain ⟨l, hl⟩ := m
  show lookup (l.foldl step c) k = (((l.find? fun e => e.1 = k).map snd).map g).getD (lookup c k)
  induction l generalizing c with
  | nil => rfl
  | cons e l ih =>
    obtain ⟨hfirst, hrest⟩ := pairwise_cons.mp hl
    rw [foldl_cons, ih _ hrest, h]
    by_cases he : e.1 = k
    · have hnone : (l.find? fun e => e.1 = k) = none := by
        refine find?_eq_none.mpr fun x hx => ?_
        simpa using fun heq : x.1 = k => (hfirst x hx).ne (he.trans heq.symm)
      simp [he, hnone]
    · simp [he, Ne.symm he]

end SortedMap

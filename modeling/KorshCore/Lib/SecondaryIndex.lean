import Mathlib.Data.List.Nodup
import Mathlib.Data.List.Perm.Basic

/-!
# Secondary indexes of a collection

A collection of items has an index: each item contributes the entries `f a`,
and the index holds the entries of all items (`Indexes`), in any order.
-/

namespace SecondaryIndex

open List Prod Option

variable {α E K V : Type}

/-! ## Maps -/

section Maps

variable [DecidableEq K]

def emplace (m : List (K × V)) (entry : K × V) : List (K × V) :=
  if entry.1 ∈ m.map fst then m else m ++ [entry]

def emplaceAll (m entries : List (K × V)) : List (K × V) :=
  entries.foldl emplace m

def find (m : List (K × V)) (k : K) : Option V :=
  (m.find? fun entry => entry.1 = k).map snd

def eraseBy (key : E → K) (m : List E) (ks : List K) : List E :=
  m.filter fun x => !decide (key x ∈ ks)

def eraseKeys (m : List (K × V)) (ks : List K) : List (K × V) :=
  eraseBy fst m ks

def eraseEntries [DecidableEq V] (m entries : List (K × V)) : List (K × V) :=
  eraseBy id m entries

theorem eraseBy_nil (key : E → K) (m : List E) : eraseBy key m [] = m := by
  simp [eraseBy]

theorem mem_of_find {m : List (K × V)} {k : K} {v : V} (h : find m k = some v) : (k, v) ∈ m := by
  obtain ⟨⟨k', v'⟩, hfind, rfl⟩ := map_eq_some_iff.mp h
  have hkey : k' = k := by simpa using find?_some hfind
  exact hkey ▸ mem_of_find?_eq_some hfind

theorem find_eq_none_iff {m : List (K × V)} {k : K} : find m k = none ↔ ∀ x ∈ m, x.1 ≠ k := by
  simp [find]

theorem emplaceAll_of_new : ∀ {entries m : List (K × V)},
    (entries.map fst).Nodup → (∀ x ∈ m, ∀ y ∈ entries, x.1 ≠ y.1) →
    emplaceAll m entries = m ++ entries
  | [], m, _, _ => (append_nil m).symm
  | entry :: entries, m, hnodup, hnew => by
    rw [map_cons, nodup_cons] at hnodup
    have hfirst : emplace m entry = m ++ [entry] := by
      refine if_neg fun hmem => ?_
      obtain ⟨x, hx, heq⟩ := mem_map.mp hmem
      exact hnew x hx entry mem_cons_self heq
    have hrest : emplaceAll (m ++ [entry]) entries = m ++ [entry] ++ entries := by
      refine emplaceAll_of_new hnodup.2 fun x hx y hy heq => ?_
      rcases mem_append.mp hx with hx | hx
      · exact hnew x hx y (mem_cons_of_mem _ hy) heq
      · rw [mem_singleton.mp hx] at heq
        exact hnodup.1 (heq ▸ mem_map_of_mem (f := fst) hy)
    rw [emplaceAll, foldl_cons, hfirst]
    exact hrest.trans (by simp)

end Maps

/-! ## Exact indexes -/

/-- The index holds the entries of the items and nothing else. -/
def Indexes (f : α → List E) (items : List α) (m : List E) : Prop :=
  m.Perm (items.flatMap f)

/-- Items erase the keys `ks`. Neither of the two erases an entry of the other. -/
def Apart (key : E → K) (f : α → List E) (ks : α → List K) (a b : α) : Prop :=
  (∀ x ∈ f a, key x ∉ ks b) ∧ ∀ x ∈ f b, key x ∉ ks a

theorem Apart.symm {key : E → K} {f : α → List E} {ks : α → List K} {a b : α}
    (h : Apart key f ks a b) : Apart key f ks b a :=
  And.symm h

theorem Apart.of_names {O : Type} {key : E → K} {f : α → List E} {ks : α → List K} {a b : α}
    (owner : K → O) {name : α → O} (hf : ∀ {a x}, x ∈ f a → owner (key x) = name a)
    (hks : ∀ {a k}, k ∈ ks a → owner k = name a) (h : name a ≠ name b) : Apart key f ks a b := by
  refine ⟨fun x hx hmem => h ?_, fun x hx hmem => h ?_⟩
  · rw [← hf hx, hks hmem]
  · rw [← hf hx, hks hmem]

/-- Items erase their own entries, and no entry of an item that `R` tells apart. -/
structure Keyed (R : α → α → Prop) (key : E → K) (f : α → List E) (ks : α → List K) : Prop where
  own : ∀ {a}, ∀ x ∈ f a, key x ∈ ks a
  apart : ∀ {a b}, R a b → Apart key f ks a b

variable {f g : α → List E} {items : List α} {m : List E} {a : α} {R : α → α → Prop}
  {ks : α → List K}

theorem Indexes.nil (f : α → List E) : Indexes f [] [] := Perm.nil

theorem Indexes.mem_iff (h : Indexes f items m) {x : E} : x ∈ m ↔ ∃ a ∈ items, x ∈ f a :=
  (Perm.mem_iff h).trans mem_flatMap

theorem Indexes.congr (h : Indexes f items m) (hfg : ∀ a ∈ items, f a = g a) :
    Indexes g items m := by
  unfold Indexes at *
  rwa [flatMap_congr hfg] at h

theorem Indexes.eq_nil (h : Indexes f items m) (hnil : ∀ a ∈ items, f a = []) : m = [] :=
  Perm.eq_nil (h.trans (Perm.of_eq (flatMap_eq_nil_iff.mpr hnil)))

theorem Indexes.append (h : Indexes f items m) (a : α) : Indexes f (items ++ [a]) (m ++ f a) := by
  unfold Indexes
  rw [flatMap_append, flatMap_singleton]
  exact Perm.append_right _ h

theorem Indexes.add [DecidableEq K] {f : α → List (K × V)} {m : List (K × V)}
    (h : Indexes f items m) (hkeyed : Keyed R fst f ks) (hapart : ∀ b ∈ items, R b a)
    (hnodup : ((f a).map fst).Nodup) : Indexes f (items ++ [a]) (emplaceAll m (f a)) := by
  rw [emplaceAll_of_new hnodup]
  · exact h.append a
  · intro x hx y hy heq
    obtain ⟨b, hb, hx⟩ := h.mem_iff.mp hx
    exact (hkeyed.apart (hapart b hb)).1 x hx (heq ▸ hkeyed.own y hy)

theorem Indexes.filter [DecidableEq K] {key : E → K} {ks : List K} {keep : α → Bool}
    (h : Indexes f items m) (hown : ∀ b ∈ items, keep b = false → ∀ x ∈ f b, key x ∈ ks)
    (hothers : ∀ b ∈ items, keep b = true → ∀ x ∈ f b, key x ∉ ks) :
    Indexes f (items.filter keep) (eraseBy key m ks) := by
  refine (Perm.filter _ h).trans (Perm.of_eq ?_)
  clear h
  induction items with
  | nil => rfl
  | cons b items ih =>
    have hrest := ih (fun b' hb' => hown b' (mem_cons_of_mem _ hb'))
      fun b' hb' => hothers b' (mem_cons_of_mem _ hb')
    rw [flatMap_cons, filter_append, hrest]
    cases hkeep : keep b with
    | true =>
      rw [filter_cons_of_pos hkeep]
      congr 1
      refine filter_eq_self.mpr fun x hx => ?_
      rw [decide_eq_false (hothers b mem_cons_self hkeep x hx)]
      rfl
    | false =>
      rw [filter_cons_of_neg (by simp [hkeep])]
      refine (congrArg (· ++ _) (filter_eq_nil_iff.mpr fun x hx => ?_)).trans (nil_append _)
      rw [decide_eq_true (hown b mem_cons_self hkeep x hx)]
      decide

theorem Indexes.remove [DecidableEq K] {key : E → K} {keep : α → Bool}
    (h : Indexes f items m) (hkeyed : Keyed R key f ks)
    (hitem : ∀ b ∈ items, keep b = false → b = a) (hapart : ∀ b ∈ items, keep b = true → R b a) :
    Indexes f (items.filter keep) (eraseBy key m (ks a)) :=
  h.filter (fun b hb hkeep => hitem b hb hkeep ▸ hkeyed.own)
    fun b hb hkeep => (hkeyed.apart (hapart b hb hkeep)).1

theorem Indexes.eraseOne [BEq E] [LawfulBEq E] (h : Indexes f items m) (hnodup : items.Nodup)
    (ha : a ∈ items) {x : E} (hf : f a = [x]) (hg : g a = [])
    (hothers : ∀ b ∈ items, b ≠ a → g b = f b) : Indexes g items (m.erase x) := by
  obtain ⟨before, after, rfl⟩ := append_of_mem ha
  have hfresh : a ∉ before ++ after := (nodup_cons.mp ((perm_middle.nodup_iff).mp hnodup)).1
  have hcongr (part : List α) (hsub : part ⊆ before ++ after) :
      part.flatMap g = part.flatMap f := by
    refine flatMap_congr fun b hb => hothers b ?_ fun heq => hfresh (heq ▸ hsub hb)
    exact (perm_middle.mem_iff).mpr (mem_cons_of_mem _ (hsub hb))
  have hg' : (before ++ a :: after).flatMap g = before.flatMap f ++ after.flatMap f := by
    rw [flatMap_append, flatMap_cons, hg, nil_append, hcongr before (subset_append_left _ _),
      hcongr after (subset_append_right _ _)]
  have hf' : (before ++ a :: after).flatMap f = before.flatMap f ++ x :: after.flatMap f := by
    rw [flatMap_append, flatMap_cons, hf]
    rfl
  have hmiddle := (h.trans (Perm.of_eq hf')).trans perm_middle
  have herase := hmiddle.erase x
  rw [erase_cons_head] at herase
  exact herase.trans (Perm.of_eq hg'.symm)

theorem Indexes.find_single [DecidableEq K] {m : List (K × V)} {key : α → K}
    {value : α → V} (h : Indexes (fun a => [(key a, value a)]) items m) (ha : a ∈ items)
    (hunique : ∀ b ∈ items, key b = key a → b = a) : find m (key a) = some (value a) := by
  cases hfind : find m (key a) with
  | none =>
    have hmem : (key a, value a) ∈ m := h.mem_iff.mpr ⟨a, ha, mem_singleton_self _⟩
    exact absurd rfl (find_eq_none_iff.mp hfind _ hmem)
  | some v =>
    obtain ⟨b, hb, hv⟩ := h.mem_iff.mp (mem_of_find hfind)
    rw [mem_singleton, mk.injEq] at hv
    rw [hv.2, hunique b hb hv.1.symm]

theorem Indexes.find_remembered {L : Type} [DecidableEq K] [DecidableEq L] {on : Bool}
    {key : α → K} {entries : α → List (L × V)} {keys : List (K × List L)} {m : List (L × V)}
    (hkeys : Indexes (fun a => if on then [(key a, (entries a).map fst)] else []) items keys)
    (hm : Indexes (fun a => if on then entries a else []) items m) (ha : a ∈ items)
    (hunique : ∀ b ∈ items, key b = key a → b = a) :
    find keys (key a) = some ((if on then entries a else []).map fst) ∨
      find keys (key a) = none ∧ keys = [] ∧ m = [] := by
  cases on with
  | true => exact .inl (hkeys.find_single ha hunique)
  | false =>
    have hnil : keys = [] := hkeys.eq_nil fun _ _ => rfl
    exact .inr ⟨by rw [hnil]; rfl, hnil, hm.eq_nil fun _ _ => rfl⟩

end SecondaryIndex

import KorshCore.Lib.KeyedMap
import Mathlib.Algebra.Order.Group.Multiset

/-!
# Keys with one holder and a reference count

`Holdings K P` records for each key who holds it and how often. A key has at
most one holder, and a holder may have the same key several times.
-/

abbrev Holdings (K P : Type) := KeyedMap K (P × Nat)

namespace Holdings

open Except Multiset Function Option

variable {K P : Type} [DecidableEq K]

/-- Record one more `k` for `p`. -/
def add [DecidableEq P] (m : Holdings K P) (p : P) (k : K) : Option (Holdings K P) :=
  match m.lookup k with
  | none => some (m.insert k (p, 1))
  | some (q, n) => if q = p then some (m.insert k (p, n + 1)) else none

/-- Record one `k` less for `p`. -/
def delete [DecidableEq P] (m : Holdings K P) (p : P) (k : K) : Option (Holdings K P) :=
  match m.lookup k with
  | none => none
  | some (q, n) =>
    if q = p then
      if n = 1 then some (m.erase k) else some (m.insert k (p, n - 1))
    else none

/-- `m` records the bags `has p`, with their holders and counts. -/
def Exact (m : Holdings K P) (has : P → Multiset K) : Prop :=
  ∀ k p n, m.lookup k = some (p, n) ↔ 0 < n ∧ (has p).count k = n

variable {m m' : Holdings K P} {has : P → Multiset K} {p q : P} {k : K}

theorem exact_empty : Exact (∅ : Holdings K P) fun _ => 0 := by
  intro k p n
  simp only [AList.lookup_empty, count_zero, reduceCtorEq, false_iff]
  omega

namespace Exact

theorem lookup_of_mem (h : Exact m has) (hk : k ∈ has p) : m.lookup k = some (p, (has p).count k) :=
  (h k p _).mpr ⟨count_pos.mpr hk, rfl⟩

theorem mem_of_lookup {n : Nat} (h : Exact m has) (hk : m.lookup k = some (p, n)) : k ∈ has p := by
  obtain ⟨hpos, hcount⟩ := (h k p n).mp hk
  exact count_pos.mp (hcount ▸ hpos)

theorem lookup_eq_none_iff (h : Exact m has) : m.lookup k = none ↔ ∀ p, k ∉ has p := by
  constructor
  · intro hnone p hmem
    rw [h.lookup_of_mem hmem] at hnone
    cases hnone
  · intro hfree
    cases hk : m.lookup k with
    | none => rfl
    | some e => exact absurd (h.mem_of_lookup hk) (hfree e.1)

theorem holder_unique (h : Exact m has) (hp : k ∈ has p) (hq : k ∈ has q) : p = q := by
  have hsame := (h.lookup_of_mem hp).symm.trans (h.lookup_of_mem hq)
  exact (Prod.mk.inj (some.inj hsame)).1

theorem lookup_eq (h : Exact m has) (h' : Exact m' has) (k : K) : m.lookup k = m'.lookup k := by
  cases hk : m.lookup k with
  | none => exact (h'.lookup_eq_none_iff.mpr (h.lookup_eq_none_iff.mp hk)).symm
  | some e => exact ((h' k e.1 e.2).mpr ((h k e.1 e.2).mp hk)).symm

variable [DecidableEq P]

private theorem set_entry (h : Exact m has) (hfree : ∀ q, q ≠ p → k ∉ has q)
    {bag : Multiset K} (hother : ∀ k', k' ≠ k → bag.count k' = (has p).count k')
    (hsame : ∀ k', k' ≠ k → m'.lookup k' = m.lookup k')
    (hself : ∀ q n, m'.lookup k = some (q, n) ↔ q = p ∧ 0 < n ∧ bag.count k = n) :
    Exact m' (update has p bag) := by
  intro k' q n
  by_cases hk : k' = k
  · subst hk
    rw [hself]
    by_cases hq : q = p
    · subst hq
      rw [update_self]
      simp only [true_and]
    · rw [update_of_ne hq, count_eq_zero.mpr (hfree q hq)]
      constructor
      · rintro ⟨heq, _⟩
        exact absurd heq hq
      · rintro ⟨hpos, hzero⟩
        omega
  · rw [hsame k' hk, h k' q n]
    by_cases hq : q = p
    · subst hq
      rw [update_self, hother k' hk]
    · rw [update_of_ne hq]

end Exact

variable [DecidableEq P]

theorem exists_add_iff (h : Exact m has) :
    (∃ m', add m p k = some m') ↔ ∀ q, q ≠ p → k ∉ has q := by
  unfold add
  cases hk : m.lookup k with
  | none =>
    have hfree := h.lookup_eq_none_iff.mp hk
    exact ⟨fun _ q _ => hfree q, fun _ => ⟨_, rfl⟩⟩
  | some e =>
    have hmem := h.mem_of_lookup hk
    dsimp only
    split_ifs with heq
    · refine ⟨fun _ q hq hmem' => hq ?_, fun _ => ⟨_, rfl⟩⟩
      exact (h.holder_unique hmem' hmem).trans heq
    · simp only [exists_false, false_iff]
      exact fun hfree => hfree e.1 heq hmem

theorem Exact.add (h : Exact m has) (hadd : Holdings.add m p k = some m') :
    Exact m' (update has p (k ::ₘ has p)) := by
  have hfree := (exists_add_iff h).mp ⟨m', hadd⟩
  unfold Holdings.add at hadd
  -- the new entry counts one more than the bag did
  have hinsert : m' = m.insert k (p, (has p).count k + 1) := by
    cases hk : m.lookup k with
    | none =>
      rw [hk] at hadd
      rw [← some.inj hadd, count_eq_zero.mpr (h.lookup_eq_none_iff.mp hk p)]
    | some e =>
      rw [hk] at hadd
      dsimp only at hadd
      split_ifs at hadd with heq
      rw [← some.inj hadd, ((h k p e.2).mp (heq ▸ hk)).2]
  subst hinsert
  refine h.set_entry (k := k) hfree ?_ ?_ ?_
  · exact fun k' hk' => count_cons_of_ne hk' _
  · exact fun k' hk' => AList.lookup_insert_ne hk'
  · intro q n
    rw [AList.lookup_insert, count_cons_self, some.injEq, Prod.mk.injEq]
    constructor
    · rintro ⟨rfl, rfl⟩
      exact ⟨rfl, Nat.succ_pos _, rfl⟩
    · rintro ⟨rfl, _, rfl⟩
      exact ⟨rfl, rfl⟩

theorem exists_delete_iff (h : Exact m has) : (∃ m', delete m p k = some m') ↔ k ∈ has p := by
  unfold delete
  cases hk : m.lookup k with
  | none =>
    have hfree := h.lookup_eq_none_iff.mp hk p
    simp only [reduceCtorEq, exists_false, false_iff]
    exact hfree
  | some e =>
    have hmem := h.mem_of_lookup hk
    dsimp only
    split_ifs with heq hone
    · exact ⟨fun _ => heq ▸ hmem, fun _ => ⟨_, rfl⟩⟩
    · exact ⟨fun _ => heq ▸ hmem, fun _ => ⟨_, rfl⟩⟩
    · simp only [exists_false, false_iff]
      exact fun hmem' => heq (h.holder_unique hmem hmem')

theorem Exact.delete (h : Exact m has) (hdelete : Holdings.delete m p k = some m') :
    Exact m' (update has p ((has p).erase k)) := by
  have hmem := (exists_delete_iff h).mp ⟨m', hdelete⟩
  have hfree : ∀ q, q ≠ p → k ∉ has q := fun q hq hmem' =>
    hq (h.holder_unique hmem' hmem)
  unfold Holdings.delete at hdelete
  rw [h.lookup_of_mem hmem] at hdelete
  dsimp only at hdelete
  refine h.set_entry (k := k) hfree ?_ ?_ ?_
  · exact fun k' hk' => count_erase_of_ne hk' _
  · intro k' hk'
    split_ifs at hdelete <;> rw [← some.inj hdelete]
    · exact AList.lookup_erase_ne hk'
    · exact AList.lookup_insert_ne hk'
  · intro q n
    have hpos := count_pos.mpr hmem
    rw [count_erase_self]
    split_ifs at hdelete with hone <;> rw [← some.inj hdelete]
    · rw [AList.lookup_erase]
      simp only [reduceCtorEq, false_iff]
      omega
    · rw [AList.lookup_insert, some.injEq, Prod.mk.injEq]
      constructor
      · rintro ⟨rfl, rfl⟩
        exact ⟨rfl, by omega, rfl⟩
      · rintro ⟨rfl, _, rfl⟩
        exact ⟨rfl, rfl⟩

/-! ## Programs that change one bag -/

section Replaces

variable {ε : Type}

/-- `f` takes the keys `old` out of the bag of `p` and puts the keys `new`
in. It goes through if `C` holds and nobody else holds one of `new`. -/
structure Replaces (f : Holdings K P → Except ε (Holdings K P)) (p : P)
    (old new : Multiset K) (C : Prop) : Prop where
  exact : ∀ {m m' has rest}, Exact m (Function.update has p (rest + old)) →
    f m = .ok m' → Exact m' (Function.update has p (rest + new))
  progress : ∀ {m has rest}, Exact m (Function.update has p (rest + old)) →
    C → (∀ k ∈ new, ∀ q, q ≠ p → k ∉ has q) → ∃ m', f m = .ok m'

namespace Replaces

variable {f g : Holdings K P → Except ε (Holdings K P)}
  {old new old' new' : Multiset K} {C C' : Prop}

theorem skip (p : P) (bag : Multiset K) : Replaces (ok : _ → Except ε _) p bag bag True where
  exact h hf := ok.inj hf ▸ h
  progress _ _ _ := ⟨_, rfl⟩

theorem add (e : ε) (p : P) (k : K) : Replaces (fun m => ofOption e (m.add p k)) p 0 {k} True where
  exact := by
    intro m m' has rest h hf
    have hnew := h.add (ofOption_eq_ok_iff.mp hf)
    rw [update_idem, update_self, add_zero] at hnew
    rwa [add_comm, singleton_add]
  progress := by
    intro m has rest h _ hfree
    obtain ⟨m', hm'⟩ := (exists_add_iff (p := p) (k := k) h).mpr (by
      intro q hq
      rw [update_of_ne hq]
      exact hfree k (mem_singleton_self k) q hq)
    exact ⟨m', ofOption_eq_ok_iff.mpr hm'⟩

theorem delete (e : ε) (p : P) (k : K) :
    Replaces (fun m => ofOption e (m.delete p k)) p {k} 0 True where
  exact := by
    intro m m' has rest h hf
    have hnew := h.delete (ofOption_eq_ok_iff.mp hf)
    rw [update_idem, update_self, add_comm, singleton_add, erase_cons_head] at hnew
    rwa [add_zero]
  progress := by
    intro m has rest h _ _
    obtain ⟨m', hm'⟩ := (exists_delete_iff (p := p) (k := k) h).mpr (by
      rw [update_self]
      exact mem_add.mpr (.inr (mem_singleton_self k)))
    exact ⟨m', ofOption_eq_ok_iff.mpr hm'⟩

theorem fail (e : ε) (p : P) (old new : Multiset K) :
    Replaces (fun _ => error e) p old new False where
  exact := by
    intro _ _ _ _ _ hf
    cases hf
  progress := by
    intro _ _ _ _ hC
    exact hC.elim

section

variable (hf : Replaces f p old new C)
include hf

theorem bind (hg : Replaces g p old' new' C') :
    Replaces (fun m => f m >>= g) p (old + old') (new + new') (C ∧ C') where
  exact := by
    intro m m' has rest h hrun
    obtain ⟨m₁, hm₁, hrest⟩ := bind_eq_ok_iff.mp hrun
    rw [← add_assoc, add_right_comm] at h
    have h₁ := hf.exact h hm₁
    rw [add_right_comm] at h₁
    have h₂ := hg.exact h₁ hrest
    rwa [add_assoc] at h₂
  progress := by
    intro m has rest h hC hfree
    rw [← add_assoc, add_right_comm] at h
    obtain ⟨m₁, hm₁⟩ := hf.progress h hC.1 fun k hk =>
      hfree k (mem_add.mpr (.inl hk))
    have h₁ := hf.exact h hm₁
    rw [add_right_comm] at h₁
    obtain ⟨m₂, hm₂⟩ := hg.progress h₁ hC.2 fun k hk =>
      hfree k (mem_add.mpr (.inr hk))
    exact ⟨m₂, bind_eq_ok_iff.mpr ⟨m₁, hm₁, hm₂⟩⟩

theorem weaken (hC : C' → C) : Replaces f p old new C' where
  exact := hf.exact
  progress h hC' := hf.progress h (hC hC')

theorem exact_bag (h : Exact m has) (hbag : has p = old) (hrun : f m = .ok m') :
    Exact m' (update has p new) := by
  rw [← update_eq_self p has, hbag, ← zero_add old] at h
  have hnew := hf.exact h hrun
  rwa [zero_add] at hnew

theorem progress_bag (h : Exact m has) (hbag : has p = old) (hC : C)
    (hfree : ∀ k ∈ new, ∀ q, q ≠ p → k ∉ has q) : ∃ m', f m = .ok m' := by
  rw [← update_eq_self p has, hbag, ← zero_add old] at h
  exact hf.progress h hC hfree

end

end Replaces

end Replaces

end Holdings

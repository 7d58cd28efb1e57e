import Mathlib.Data.Nat.EvenOddRec
import Mathlib.Data.Nat.Bits
import Mathlib.Tactic.Linarith
import Mathlib.Tactic.Positivity
import Mathlib.Tactic.Ring

/-!
# Full binary trees and their frontiers

The nodes of the infinite binary tree over a sequence of leaves, level by
level: `node combine leaf d i` is the `i`-th node of level `d`, and `combine`
is told the level of its arguments.
-/

namespace MerkleTree

open List

variable {α : Type} (combine : α → α → Nat → α) (leaf : Nat → α)

/-! ## Nodes -/

/-- The `i`-th node of level `d`. -/
def node (leaf : Nat → α) : Nat → Nat → α
  | 0, i => leaf i
  | d + 1, i => combine (node leaf d (2 * i)) (node leaf d (2 * i + 1)) d

@[simp] theorem node_zero (i : Nat) : node combine leaf 0 i = leaf i := rfl

theorem node_succ (d i : Nat) : node combine leaf (d + 1) i
    = combine (node combine leaf d (2 * i)) (node combine leaf d (2 * i + 1)) d :=
  rfl

variable {leaf} in
theorem node_congr {leaf' : Nat → α} : ∀ {d i : Nat},
    (∀ j, i * 2 ^ d ≤ j → j < (i + 1) * 2 ^ d → leaf j = leaf' j) →
    node combine leaf d i = node combine leaf' d i
  | 0, i, h => h i (by simp) (by simp)
  | d + 1, i, h => by
    have hpow : 2 ^ (d + 1) = 2 * 2 ^ d := by rw [pow_succ, mul_comm]
    rw [node_succ, node_succ, node_congr (d := d) (i := 2 * i),
      node_congr (d := d) (i := 2 * i + 1)]
    · intro j hlow hhigh
      refine h j ?_ ?_ <;> rw [hpow] <;> nlinarith
    · intro j hlow hhigh
      refine h j ?_ ?_ <;> rw [hpow] <;> nlinarith

theorem node_shift : ∀ (d k i : Nat),
    node combine (fun j => leaf (k * 2 ^ d + j)) d i = node combine leaf d (k + i)
  | 0, k, i => by simp
  | d + 1, k, i => by
    have hstart : (fun j => leaf (k * 2 ^ (d + 1) + j)) = fun j => leaf (2 * k * 2 ^ d + j) := by
      funext j
      congr 2
      rw [pow_succ]
      ring
    rw [node_succ, hstart, node_shift d, node_shift d]
    congr 2
    · ring
    · ring

/-! ## Padding -/

/-- The first `n` leaves, and `u` for all others. -/
def padded (u : α) (n : Nat) : Nat → α := fun i => if i < n then leaf i else u

theorem node_padded_of_full {u : α} {n d i : Nat} (h : (i + 1) * 2 ^ d ≤ n) :
    node combine (padded leaf u n) d i = node combine leaf d i :=
  node_congr combine fun _ _ hlt => if_pos (lt_of_lt_of_le hlt h)

/-- The roots of empty subtrees over the leaf `u`. -/
structure EmptyRoots (u : α) (emptyRoot : Nat → α) : Prop where
  zero : emptyRoot 0 = u
  succ : ∀ d, emptyRoot (d + 1) = combine (emptyRoot d) (emptyRoot d) d

variable {combine} in
theorem EmptyRoots.node_eq {u : α} {emptyRoot : Nat → α}
    (h : EmptyRoots combine u emptyRoot) : ∀ d i, node combine (fun _ => u) d i = emptyRoot d
  | 0, _ => h.zero.symm
  | d + 1, i => by
    rw [node_succ, h.node_eq d, h.node_eq d, h.succ]

variable {combine} in
theorem EmptyRoots.node_padded {u : α} {emptyRoot : Nat → α}
    (h : EmptyRoots combine u emptyRoot) {n d i : Nat} (hempty : n ≤ i * 2 ^ d) :
    node combine (padded leaf u n) d i = emptyRoot d := by
  rw [← h.node_eq d i]
  exact node_congr combine fun j hle _ =>
    if_neg (not_lt.mpr (le_trans hempty hle))

/-! ## Frontiers -/

/-- The left siblings on the way up from the `p`-th node of level `d`: an
entry per level until the way is leftmost, empty where it comes from the
left. -/
def frontier (d p : Nat) : List (Option α) :=
  if p = 0 then []
  else (if p % 2 = 1 then some (node combine leaf d (p - 1)) else none) :: frontier (d + 1) (p / 2)
termination_by p
decreasing_by omega

@[simp] theorem frontier_zero (d : Nat) : frontier combine leaf d 0 = [] := by
  rw [frontier, if_pos rfl]

theorem frontier_even {q : Nat} (hq : 0 < q) (d : Nat) :
    frontier combine leaf d (2 * q) = none :: frontier combine leaf (d + 1) q := by
  rw [frontier, if_neg (by omega), if_neg (by omega)]
  congr 2
  omega

theorem frontier_odd (d q : Nat) : frontier combine leaf d (2 * q + 1)
    = some (node combine leaf d (2 * q)) :: frontier combine leaf (d + 1) q := by
  rw [frontier, if_neg (by omega), if_pos (by omega)]
  congr 2
  omega

variable {leaf} in
theorem frontier_congr {leaf' : Nat → α} : ∀ {d p : Nat}, (∀ j, j < p * 2 ^ d → leaf j = leaf' j) →
    frontier combine leaf d p = frontier combine leaf' d p := by
  intro d p
  induction p using Nat.evenOddRec generalizing d with
  | h0 => intro _; simp
  | h_even q ih =>
    intro h
    by_cases hq : q = 0
    · simp [hq]
    · rw [frontier_even _ _ (by omega), frontier_even _ _ (by omega), ih]
      intro j hj
      refine h j ?_
      rw [pow_succ] at hj
      linarith
  | h_odd q ih =>
    intro h
    rw [frontier_odd, frontier_odd, ih, node_congr combine]
    · intro j _ hj
      exact h j hj
    · intro j hj
      refine h j ?_
      rw [pow_succ] at hj
      have hpos : 0 < 2 ^ d := by positivity
      linarith

theorem length_frontier_le {k : Nat} : ∀ {d p : Nat}, p < 2 ^ k →
    (frontier combine leaf d p).length ≤ k := by
  intro d p
  induction p using Nat.evenOddRec generalizing d k with
  | h0 => intro _; simp
  | h_even q ih =>
    intro hp
    by_cases hq : q = 0
    · simp [hq]
    · cases k with
      | zero => omega
      | succ k =>
        rw [frontier_even combine leaf (by omega)]
        have hbound : q < 2 ^ k := by rw [pow_succ] at hp; omega
        exact Nat.succ_le_succ (ih hbound)
  | h_odd q ih =>
    intro hp
    cases k with
    | zero => simp at hp
    | succ k =>
      rw [frontier_odd]
      have hbound : q < 2 ^ k := by rw [pow_succ] at hp; omega
      exact Nat.succ_le_succ (ih hbound)

theorem frontier_complete_iff {k : Nat} : ∀ {d p : Nat}, ((frontier combine leaf d p).length = k ∧
      (frontier combine leaf d p).all Option.isSome = true) ↔ p = 2 ^ k - 1 := by
  intro d p
  induction p using Nat.evenOddRec generalizing d k with
  | h0 =>
    cases k with
    | zero => simp
    | succ k =>
      have hpos : 0 < 2 ^ k := by positivity
      simp [pow_succ]
      omega
  | h_even q ih =>
    by_cases hq : q = 0
    · subst hq
      cases k with
      | zero => simp
      | succ k =>
        have hpos : 0 < 2 ^ k := by positivity
        simp [pow_succ]
        omega
    · rw [frontier_even combine leaf (by omega)]
      cases k with
      | zero => simp [hq]
      | succ k =>
        rw [pow_succ]
        simp
        omega
  | h_odd q ih =>
    rw [frontier_odd]
    cases k with
    | zero => simp
    | succ k =>
      have hpos : 0 < 2 ^ k := by positivity
      have hcount := ih (d := d + 1) (k := k)
      simp only [length_cons, Nat.add_right_cancel_iff, all_cons, Option.isSome_some, Bool.true_and]
      rw [hcount]
      omega

/-! ## Authentication paths -/

def steps : (turns d p : Nat) → List (Bool × α)
  | 0, _, _ => []
  | turns + 1, d, p =>
    (if p % 2 = 1 then (true, node combine leaf d (p - 1))
      else (false, node combine leaf d (p + 1))) :: steps turns (d + 1) (p / 2)

theorem steps_even (turns d q : Nat) : steps combine leaf (turns + 1) d (2 * q)
    = (false, node combine leaf d (2 * q + 1)) :: steps combine leaf turns (d + 1) q := by
  rw [steps, if_neg (by omega), show 2 * q / 2 = q by omega]

theorem steps_odd (turns d q : Nat) : steps combine leaf (turns + 1) d (2 * q + 1)
      = (true, node combine leaf d (2 * q)) :: steps combine leaf turns (d + 1) q := by
  rw [steps, if_pos (by omega), show (2 * q + 1) / 2 = q by omega, Nat.add_sub_cancel]

theorem length_steps : ∀ (turns d p : Nat), (steps combine leaf turns d p).length = turns
  | 0, _, _ => rfl
  | turns + 1, d, p => by rw [steps, length_cons, length_steps]

/-- Combine a node of level `d` with the siblings, one after the other. -/
def climb : (d : Nat) → α → List (Bool × α) → α
  | _, x, [] => x
  | d, x, (true, sibling) :: rest => climb (d + 1) (combine sibling x d) rest
  | d, x, (false, sibling) :: rest => climb (d + 1) (combine x sibling d) rest

theorem climb_steps : ∀ {turns d p : Nat}, p < 2 ^ turns →
    climb combine d (node combine leaf d p) (steps combine leaf turns d p)
      = node combine leaf (d + turns) 0
  | 0, d, p, hp => by
    obtain rfl : p = 0 := by simpa using hp
    rfl
  | turns + 1, d, p, hp => by
    rcases Nat.even_or_odd' p with ⟨q, rfl | rfl⟩
    · rw [steps_even, climb, ← node_succ combine leaf, climb_steps (by omega),
        Nat.add_right_comm, add_assoc]
    · rw [steps_odd, climb, ← node_succ combine leaf, climb_steps (by omega),
        Nat.add_right_comm, add_assoc]

theorem map_fst_steps : ∀ (turns d p : Nat), (steps combine leaf turns d p).map Prod.fst
      = (range turns).map p.testBit
  | 0, _, _ => rfl
  | turns + 1, d, p => by
    have htail : (range turns).map (fun i => p.testBit (i + 1))
        = (range turns).map (p / 2).testBit :=
      map_congr_left fun i _ => Nat.testBit_succ p i
    rw [steps, map_cons, map_fst_steps, range_succ_eq_map, map_cons, map_map]
    congr 1
    · split_ifs with h <;> simp [h]
    · exact htail.symm

end MerkleTree

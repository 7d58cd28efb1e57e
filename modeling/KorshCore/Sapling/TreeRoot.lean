import KorshCore.Lib.MerkleTree
import KorshCore.Sapling.IncrementalMerkleTree
import Mathlib.Tactic.IntervalCases

/-!
# The incremental tree refines the full tree

After `n` leaves were appended, an `IncrementalMerkleTree` holds the last pair
of leaves and the frontier above it (`treeOf`). `size` shifts in a 32-bit
`int`, so it counts only up to `2 ^ 31` leaves.
-/

namespace KorshCore.IncrementalMerkleTree

open MerkleTree List Except

variable {H : MerkleHash} {leaf : Nat → Uint256}

/-! ## The tree after `n` leaves -/

/-- The tree after the first `n` leaves of the sequence. -/
def treeOf (H : MerkleHash) (leaf : Nat → Uint256) : Nat → IncrementalMerkleTree
  | 0 => empty
  | p + 1 => ⟨some (leaf (2 * (p / 2))), if p % 2 = 1 then some (leaf p) else none,
    frontier H.combine leaf 1 (p / 2)⟩

theorem treeOf_succ (p : Nat) : treeOf H leaf (p + 1) =
    ⟨some (leaf (2 * (p / 2))), if p % 2 = 1 then some (leaf p) else none,
      frontier H.combine leaf 1 (p / 2)⟩ := rfl

/-- A full pair is carried up the frontier like a one up a binary number. -/
theorem propagate_frontier : ∀ {turns i p : Nat},
    (frontier H.combine leaf (i + 1) p).length < turns →
    propagate H turns i (frontier H.combine leaf (i + 1) p) (node H.combine leaf (i + 1) p)
      = frontier H.combine leaf (i + 1) (p + 1) := by
  intro turns i p
  induction p using Nat.evenOddRec generalizing turns i with
  | h0 =>
    intro hturns
    obtain ⟨turns, rfl⟩ := Nat.exists_eq_succ_of_ne_zero (Nat.ne_zero_of_lt hturns)
    rw [frontier_zero, show 0 + 1 = 2 * 0 + 1 from rfl, frontier_odd, frontier_zero]
    rfl
  | h_even q ih =>
    intro hturns
    obtain ⟨turns, rfl⟩ := Nat.exists_eq_succ_of_ne_zero (Nat.ne_zero_of_lt hturns)
    rw [frontier_odd]
    by_cases hq : q = 0
    · subst hq
      rw [frontier_zero, frontier_zero]
      rfl
    · rw [frontier_even _ _ (by omega)]
      rfl
  | h_odd q ih =>
    intro hturns
    obtain ⟨turns, rfl⟩ := Nat.exists_eq_succ_of_ne_zero (Nat.ne_zero_of_lt hturns)
    rw [frontier_odd] at hturns
    rw [frontier_odd, show 2 * q + 1 + 1 = 2 * (q + 1) by ring,
      frontier_even _ _ (by omega), propagate, ← node_succ H.combine leaf,
      ih (Nat.lt_of_succ_lt_succ hturns)]

variable {depth : Nat} {n : Nat}

theorem isComplete_treeOf (hdepth : 1 ≤ depth) :
    (treeOf H leaf n).isComplete depth = true ↔ n = 2 ^ depth := by
  obtain ⟨d, rfl⟩ : ∃ d, depth = d + 1 := ⟨depth - 1, by omega⟩
  have hpos : 0 < 2 ^ d := by positivity
  cases n with
  | zero =>
    have hne : (0 : Nat) ≠ 2 ^ (d + 1) := by positivity
    simp [treeOf, isComplete, empty, hne]
  | succ p =>
    have hfrontier := frontier_complete_iff H.combine leaf (k := d) (d := 1) (p := p / 2)
    have hright : (if p % 2 = 1 then some (leaf p) else none).isSome = true ↔ p % 2 = 1 := by
      split_ifs with h <;> simp [h]
    unfold treeOf isComplete
    simp only [Option.isSome_some, Bool.true_and, Bool.and_eq_true, hright,
      Nat.add_sub_cancel, beq_iff_eq, and_assoc]
    rw [hfrontier]
    omega

theorem append_treeOf (hdepth : 1 ≤ depth) (hn : n < 2 ^ depth) :
    (treeOf H leaf n).append H depth (leaf n) = .ok (treeOf H leaf (n + 1)) := by
  have hroom : ¬(treeOf H leaf n).isComplete depth = true := by
    rw [isComplete_treeOf hdepth]
    omega
  unfold append
  rw [if_neg hroom]
  cases n with
  | zero => simp [treeOf, empty]
  | succ p =>
    by_cases hp : p % 2 = 1
    · -- the pair is full and moves into the frontier
      have hnode : H.combine (leaf (2 * (p / 2))) (leaf p) 0 = node H.combine leaf 1 (p / 2) := by
        rw [node_succ]
        congr 2
        omega
      have hlength : (frontier H.combine leaf 1 (p / 2)).length < depth := by
        obtain ⟨d, rfl⟩ : ∃ d, depth = d + 1 := ⟨depth - 1, by omega⟩
        exact Nat.lt_succ_of_le (length_frontier_le H.combine leaf (by omega))
      have hhalf : (p + 1) / 2 = p / 2 + 1 := by omega
      have hleaf : 2 * (p / 2 + 1) = p + 1 := by omega
      simp only [treeOf, hp, if_true, hnode, propagate_frontier hlength, hhalf, hleaf]
      rw [if_neg (by omega)]
    · have hhalf : (p + 1) / 2 = p / 2 := by omega
      simp only [treeOf, hp, if_false, hhalf]
      rw [if_pos (by omega)]

theorem append_treeOf_eq_error (hdepth : 1 ≤ depth) (obj : Uint256) :
    (treeOf H leaf n).append H depth obj = .error .treeIsFull ↔ n = 2 ^ depth := by
  have hcomplete : (treeOf H leaf n).isComplete depth = true ↔ n = 2 ^ depth :=
    isComplete_treeOf hdepth
  rw [← hcomplete]
  unfold append
  split_ifs with hfull
  · simp only [hfull]
  · simp only [hfull]
    split <;> simp

variable {depth : Nat}

theorem append_treeOf_full (hdepth : 1 ≤ depth) (obj : Uint256) :
    (treeOf H leaf (2 ^ depth)).append H depth obj = .error .treeIsFull := by
  unfold append
  rw [if_pos ((isComplete_treeOf hdepth).mpr rfl)]

/-! ## The root -/

/-- The filler provides the right siblings on the way up from the `p`-th node
of level `d`, for `turns` levels. -/
def Feeds (H : MerkleHash) (leaf : Nat → Uint256) : (turns d p : Nat) → List Uint256 → Prop
  | 0, _, _, _ => True
  | turns + 1, d, p, filler =>
    if p % 2 = 1 then Feeds H leaf turns (d + 1) (p / 2) filler
    else (nextFiller H d filler).1 = node H.combine leaf d (p + 1) ∧
      Feeds H leaf turns (d + 1) (p / 2) (nextFiller H d filler).2

variable {filler : List Uint256}

theorem feeds_even {turns d q : Nat} : Feeds H leaf (turns + 1) d (2 * q) filler ↔
      (nextFiller H d filler).1 = node H.combine leaf d (2 * q + 1) ∧
      Feeds H leaf turns (d + 1) q (nextFiller H d filler).2 := by
  rw [Feeds, if_neg (by omega), show 2 * q / 2 = q by omega]

theorem feeds_odd {turns d q : Nat} :
    Feeds H leaf (turns + 1) d (2 * q + 1) filler ↔ Feeds H leaf turns (d + 1) q filler := by
  rw [Feeds, if_pos (by omega), show (2 * q + 1) / 2 = q by omega]

theorem rootFill_eq : ∀ {turns d : Nat} {filler : List Uint256}, Feeds H leaf turns d 0 filler →
    rootFill H turns d (node H.combine leaf d 0) filler = node H.combine leaf (d + turns) 0
  | 0, _, _, _ => rfl
  | turns + 1, d, filler, h => by
    obtain ⟨hnext, hrest⟩ := feeds_even (q := 0).mp h
    simp only [rootFill, hnext]
    have hnode : H.combine (node H.combine leaf d 0)
        (node H.combine leaf d (2 * 0 + 1)) d = node H.combine leaf (d + 1) 0 := rfl
    rw [hnode, rootFill_eq hrest, show d + 1 + turns = d + (turns + 1) by ring]

theorem rootParents_eq {turns d p : Nat} (hp : p < 2 ^ turns) (h : Feeds H leaf turns d p filler) :
    let up := rootParents H (frontier H.combine leaf d p) d (node H.combine leaf d p) filler
    rootFill H (d + turns - up.1) up.1 up.2.1 up.2.2 = node H.combine leaf (d + turns) 0 := by
  have hedge : ∀ {turns d : Nat} {filler}, Feeds H leaf turns d 0 filler →
      rootFill H (d + turns - d) d (node H.combine leaf d 0) filler
        = node H.combine leaf (d + turns) 0 := by
    intro turns d filler h
    rw [Nat.add_sub_cancel_left]
    exact rootFill_eq h
  induction turns generalizing d p filler with
  | zero =>
    obtain rfl : p = 0 := by omega
    rw [frontier_zero]
    exact hedge h
  | succ turns ih =>
    rcases Nat.even_or_odd' p with ⟨q, rfl | rfl⟩
    · obtain rfl | hq := q.eq_zero_or_pos
      · rw [frontier_zero]
        exact hedge h
      · obtain ⟨hnext, hrest⟩ := feeds_even.mp h
        rw [frontier_even _ _ hq, show d + (turns + 1) = d + 1 + turns by ring]
        simp only [rootParents, hnext, ← node_succ H.combine leaf]
        exact ih (by omega) hrest
    · rw [frontier_odd, show d + (turns + 1) = d + 1 + turns by ring]
      simp only [rootParents, ← node_succ H.combine leaf]
      exact ih (by omega) (feeds_odd.mp h)

theorem rootWith_treeOf {p : Nat} (hdepth : 1 ≤ depth)
    (hp : p < 2 ^ depth) (h : Feeds H leaf depth 0 p filler) :
    (treeOf H leaf (p + 1)).rootWith H depth filler = node H.combine leaf depth 0 := by
  obtain ⟨turns, rfl⟩ : ∃ k, depth = k + 1 := ⟨depth - 1, by omega⟩
  rcases Nat.even_or_odd' p with ⟨q, rfl | rfl⟩
  · obtain ⟨hnext, hrest⟩ := feeds_even.mp h
    have hup := rootParents_eq (by omega) hrest
    rw [show 0 + 1 + turns = turns + 1 by ring] at hup
    have hright : ¬2 * q % 2 = 1 := by omega
    have hhalf : 2 * q / 2 = q := by omega
    simp only [rootWith, treeOf, hright, hhalf, if_false, hnext]
    exact hup
  · have hup := rootParents_eq (by omega) (feeds_odd.mp h)
    rw [show 0 + 1 + turns = turns + 1 by ring] at hup
    have hright : (2 * q + 1) % 2 = 1 := by omega
    have hhalf : (2 * q + 1) / 2 = q := by omega
    simp only [rootWith, treeOf, hright, hhalf, if_true]
    exact hup

variable {u : Uint256}

theorem feeds_nil (hempty : EmptyRoots H.combine u H.emptyRoot) :
    ∀ {turns d p : Nat}, n ≤ (p + 1) * 2 ^ d → Feeds H (padded leaf u n) turns d p []
  | 0, _, _, _ => trivial
  | turns + 1, d, p, hn => by
    have hup : n ≤ (p / 2 + 1) * 2 ^ (d + 1) := by
      have hhalf : p + 1 ≤ (p / 2 + 1) * 2 := by omega
      calc n ≤ (p + 1) * 2 ^ d := hn
        _ ≤ (p / 2 + 1) * 2 * 2 ^ d := Nat.mul_le_mul_right _ hhalf
        _ = (p / 2 + 1) * 2 ^ (d + 1) := by ring
    unfold Feeds
    split_ifs
    · exact feeds_nil hempty hup
    · exact ⟨(hempty.node_padded leaf hn).symm, feeds_nil hempty hup⟩

theorem treeOf_congr {leaf' : Nat → Uint256}
    (h : ∀ j < n, leaf j = leaf' j) : treeOf H leaf n = treeOf H leaf' n := by
  cases n with
  | zero => rfl
  | succ p =>
    have hfrontier : frontier H.combine leaf 1 (p / 2) = frontier H.combine leaf' 1 (p / 2) := by
      refine frontier_congr H.combine fun j hj => h j ?_
      omega
    have hleft : leaf (2 * (p / 2)) = leaf' (2 * (p / 2)) := h _ (by omega)
    rw [treeOf_succ, treeOf_succ, hfrontier, hleft, h p (by omega)]

theorem root_treeOf (hempty : EmptyRoots H.combine u H.emptyRoot) (hdepth : 1 ≤ depth)
    (hn : n ≤ 2 ^ depth) :
    (treeOf H leaf n).rootWith H depth [] = node H.combine (padded leaf u n) depth 0 := by
  cases n with
  | zero =>
    have hfeeds : Feeds H (padded leaf u 0) (depth - 1) 1 0 [] := feeds_nil hempty (by omega)
    have hfill := rootFill_eq hfeeds
    rw [show 1 + (depth - 1) = depth by omega] at hfill
    rw [← hfill]
    show rootFill H (depth - 1) 1 (H.combine (H.emptyRoot 0) (H.emptyRoot 0) 0) [] = _
    rw [hempty.zero]
    rfl
  | succ p =>
    have hsame : treeOf H leaf (p + 1) = treeOf H (padded leaf u (p + 1)) (p + 1) :=
      treeOf_congr fun j hj => (if_pos hj).symm
    rw [hsame]
    exact rootWith_treeOf hdepth (by omega) (feeds_nil hempty (by simp))

/-! ## The size -/

theorem shiftOne_of_lt {k : Nat} (hk : k < 31) : shiftOne k = some (BitVec.ofNat 64 (2 ^ k)) := by
  interval_cases k <;> rfl

theorem shiftOne_sign :
    shiftOne 31 = some (BitVec.ofNat 64 (2 ^ 31) - BitVec.ofNat 64 (2 ^ 32)) := by
  decide

theorem shiftOne_of_ge {k : Nat} (hk : 32 ≤ k) : shiftOne k = none :=
  if_neg (by omega)

theorem mul_add_lt_iff {q m b : Nat} (hb : 0 < b) :
    q * (2 * b) + b < m * (2 * b) ↔ q * (2 * b) < m * (2 * b) := by
  constructor
  · omega
  · intro h
    have hq : q + 1 ≤ m := Nat.lt_of_mul_lt_mul_right h
    have hle := Nat.mul_le_mul_right (2 * b) hq
    rw [add_mul] at hle
    omega

/-- The bit at 31 is counted with its sign, and those above are undefined. -/
theorem sizeParents_frontier {d i p : Nat} {ret : BitVec 64} :
    sizeParents (frontier H.combine leaf d p) i ret =
      if p * 2 ^ (i + 1) < 2 ^ 31 then some (ret + BitVec.ofNat 64 (p * 2 ^ (i + 1)))
      else if p * 2 ^ (i + 1) < 2 ^ 32 then
        some (ret + BitVec.ofNat 64 (p * 2 ^ (i + 1)) - BitVec.ofNat 64 (2 ^ 32)) else none := by
  induction p using Nat.evenOddRec generalizing d i ret with
  | h0 => simp [sizeParents]
  | h_even q ih =>
    by_cases hq : q = 0
    · simp [hq, sizeParents]
    · have hpow : 2 * q * 2 ^ (i + 1) = q * 2 ^ (i + 1 + 1) := by
        rw [pow_succ _ (i + 1)]
        ring
      rw [frontier_even _ _ (by omega), sizeParents, ih, hpow]
  | h_odd q ih =>
    have hpow : 2 ^ (i + 1 + 1) = 2 * 2 ^ (i + 1) := by rw [pow_succ]; ring
    have hvalue : (2 * q + 1) * 2 ^ (i + 1) = q * (2 * 2 ^ (i + 1)) + 2 ^ (i + 1) := by
      ring
    rw [frontier_odd, sizeParents]
    rcases Nat.lt_trichotomy (i + 1) 31 with hlow | hsign | hhigh
    · -- an ordinary bit: both thresholds are multiples of the next power
      have hpos : 0 < 2 ^ (i + 1) := by positivity
      have h31 : q * (2 * 2 ^ (i + 1)) < 2 ^ 31 ↔ q * (2 * 2 ^ (i + 1)) + 2 ^ (i + 1) < 2 ^ 31 := by
        have hsplit : 2 ^ 31 = 2 ^ (29 - i) * (2 * 2 ^ (i + 1)) := by
          rw [← pow_succ', ← pow_add]
          congr 1
          omega
        rw [hsplit]
        exact (mul_add_lt_iff hpos).symm
      have h32 : q * (2 * 2 ^ (i + 1)) < 2 ^ 32 ↔ q * (2 * 2 ^ (i + 1)) + 2 ^ (i + 1) < 2 ^ 32 := by
        have hsplit : 2 ^ 32 = 2 ^ (30 - i) * (2 * 2 ^ (i + 1)) := by
          rw [← pow_succ', ← pow_add]
          congr 1
          omega
        rw [hsplit]
        exact (mul_add_lt_iff hpos).symm
      have hadd : ret + BitVec.ofNat 64 (2 ^ (i + 1)) + BitVec.ofNat 64 (q * (2 * 2 ^ (i + 1)))
            = ret + BitVec.ofNat 64 (q * (2 * 2 ^ (i + 1)) + 2 ^ (i + 1)) := by
        rw [BitVec.ofNat_add, BitVec.add_assoc, BitVec.add_comm (BitVec.ofNat 64 _)]
      rw [shiftOne_of_lt hlow]
      show sizeParents _ (i + 1) _ = _
      rw [ih, hvalue, hpow, hadd]
      exact if_congr h31 rfl (if_congr h32 rfl rfl)
    · obtain rfl : i = 30 := by omega
      rw [shiftOne_sign]
      show sizeParents _ 31 _ = _
      rw [ih]
      by_cases hq : q = 0
      · subst hq
        rw [if_pos (by decide), if_neg (by decide), if_pos (by decide)]
        simp only [Nat.zero_mul, Nat.mul_zero, zero_add, Nat.one_mul,
          BitVec.add_zero, BitVec.sub_eq_add_neg, BitVec.add_assoc]
      · rw [if_neg (by omega), if_neg (by omega), if_neg (by omega), if_neg (by omega)]
    · have hbig : 2 ^ 32 ≤ (2 * q + 1) * 2 ^ (i + 1) := by
        calc 2 ^ 32 ≤ 2 ^ (i + 1) := Nat.pow_le_pow_right (by omega) (by omega)
          _ ≤ (2 * q + 1) * 2 ^ (i + 1) := Nat.le_mul_of_pos_left _ (by omega)
      rw [shiftOne_of_ge (by omega), if_neg (by omega), if_neg (by omega)]
      rfl

theorem size_treeOf_succ (p : Nat) : (treeOf H leaf (p + 1)).size =
    if p / 2 * 2 < 2 ^ 31 then some (BitVec.ofNat 64 (p + 1))
    else if p / 2 * 2 < 2 ^ 32 then some (BitVec.ofNat 64 (p + 1) - BitVec.ofNat 64 (2 ^ 32))
    else none := by
  have hpair : ((if (some (leaf (2 * (p / 2)))).isSome then 1 else 0) +
      if (if p % 2 = 1 then some (leaf p) else none).isSome then 1 else 0
        : BitVec 64) = BitVec.ofNat 64 (p % 2 + 1) := by
    rcases Nat.mod_two_eq_zero_or_one p with h | h <;> simp [h]
  have hsum : p % 2 + 1 + p / 2 * 2 ^ (0 + 1) = p + 1 := by omega
  have hadd : BitVec.ofNat 64 (p % 2 + 1)
      + BitVec.ofNat 64 (p / 2 * 2 ^ (0 + 1)) = BitVec.ofNat 64 (p + 1) := by
    rw [← BitVec.ofNat_add, hsum]
  rw [treeOf_succ, size]
  rw [hpair, sizeParents_frontier, hadd]
  rfl

theorem size_treeOf_iff (n : Nat) :
    (treeOf H leaf n).size.map BitVec.toNat = some n ↔ n ≤ 2 ^ 31 := by
  cases n with
  | zero => simp [treeOf, size, empty, sizeParents]
  | succ p =>
    rw [size_treeOf_succ]
    split_ifs with hlow hsign
    · have hfits : p + 1 < 2 ^ 64 := by omega
      simp only [Option.map_some, BitVec.toNat_ofNat, Nat.mod_eq_of_lt hfits, true_iff]
      omega
    · have hbig : ¬p + 1 ≤ 2 ^ 31 := by omega
      have hfits : p + 1 < 2 ^ 64 := by omega
      simp only [Option.map_some, Option.some.injEq, BitVec.toNat_sub,
        BitVec.toNat_ofNat, Nat.mod_eq_of_lt hfits, hbig, iff_false]
      omega
    · have hbig : ¬p + 1 ≤ 2 ^ 31 := by omega
      simp only [Option.map_none, reduceCtorEq, hbig]

/-! ## Appending a sequence of leaves -/

def pairCount : List (Option Uint256) → Nat
  | [] => 0
  | parent :: parents => (if parent.isSome then 1 else 0) + 2 * pairCount parents

/-- The number of leaves, without the limits of `size`. -/
def leafCount (tree : IncrementalMerkleTree) : Nat :=
  (if tree.left.isSome then 1 else 0) + (if tree.right.isSome then 1 else 0)
    + 2 * pairCount tree.parents

theorem pairCount_frontier (d p : Nat) : pairCount (frontier H.combine leaf d p) = p := by
  induction p using Nat.evenOddRec generalizing d with
  | h0 => simp [pairCount]
  | h_even q ih =>
    by_cases hq : q = 0
    · simp [hq, pairCount]
    · rw [frontier_even _ _ (by omega), pairCount, ih]
      simp
  | h_odd q ih =>
    rw [frontier_odd, pairCount, ih]
    simp
    omega

theorem leafCount_treeOf (n : Nat) : (treeOf H leaf n).leafCount = n := by
  cases n with
  | zero => rfl
  | succ p =>
    rw [treeOf_succ, leafCount, pairCount_frontier]
    rcases Nat.mod_two_eq_zero_or_one p with h | h
    · simp only [h, Option.isSome_some, if_true, zero_ne_one, if_false,
        Option.isSome_none, Bool.false_eq_true]
      omega
    · simp only [h, Option.isSome_some, if_true]
      omega

theorem last_treeOf (p : Nat) : (treeOf H leaf (p + 1)).last = .ok (leaf p) := by
  rw [treeOf_succ, last]
  rcases Nat.mod_two_eq_zero_or_one p with h | h
  · have hleft : 2 * (p / 2) = p := by omega
    simp [h, hleft]
  · simp [h]

def appendAll (H : MerkleHash) (depth : Nat) (leaves : List Uint256) :
    Except TreeError IncrementalMerkleTree :=
  leaves.foldlM (fun tree obj => tree.append H depth obj) empty

/-- The list is a part of the sequence, from its `n`-th leaf on. -/
def ReadsFrom (leaf : Nat → Uint256) : Nat → List Uint256 → Prop
  | _, [] => True
  | n, obj :: leaves => obj = leaf n ∧ ReadsFrom leaf (n + 1) leaves

theorem readsFrom_getD (u : Uint256) : ∀ (front back rest : List Uint256),
    ReadsFrom (fun i => (front ++ (back ++ rest)).getD i u) front.length back
  | _, [], _ => trivial
  | front, obj :: back, rest => by
    have htail := readsFrom_getD u (front ++ [obj]) back rest
    rw [append_assoc, length_append] at htail
    exact ⟨by simp, htail⟩

theorem foldlM_append_treeOf (hdepth : 1 ≤ depth) :
    ∀ {leaves : List Uint256} {n : Nat}, n ≤ 2 ^ depth → ReadsFrom leaf n leaves →
    leaves.foldlM (fun tree obj => tree.append H depth obj) (treeOf H leaf n)
      = if n + leaves.length ≤ 2 ^ depth then .ok (treeOf H leaf (n + leaves.length))
        else .error .treeIsFull
  | [], n, hn, _ => by
    rw [length_nil, Nat.add_zero, if_pos hn]
    rfl
  | _ :: leaves, n, hn, ⟨rfl, hrest⟩ => by
    rw [foldlM_cons, length_cons, show n + (leaves.length + 1) = n + 1 + leaves.length by ring]
    rcases Nat.lt_or_ge n (2 ^ depth) with hroom | hfull
    · rw [append_treeOf hdepth hroom, ok_bind, foldlM_append_treeOf hdepth hroom hrest]
    · obtain rfl : n = 2 ^ depth := by omega
      rw [append_treeOf_full hdepth, error_bind, if_neg (by omega)]

theorem appendAll_eq_of_readsFrom (hdepth : 1 ≤ depth) {leaves : List Uint256}
    (hleaves : ReadsFrom leaf 0 leaves) :
    appendAll H depth leaves = if leaves.length ≤ 2 ^ depth then .ok (treeOf H leaf leaves.length)
    else .error .treeIsFull := by
  unfold appendAll
  rw [show empty = treeOf H leaf 0 from rfl,
    foldlM_append_treeOf hdepth zero_le hleaves, zero_add]

theorem appendAll_eq (hdepth : 1 ≤ depth) (u : Uint256) (leaves : List Uint256) :
    appendAll H depth leaves = if leaves.length ≤ 2 ^ depth then
      .ok (treeOf H (fun i => leaves.getD i u) leaves.length) else .error .treeIsFull := by
  have hleaves := readsFrom_getD u [] leaves []
  rw [append_nil] at hleaves
  exact appendAll_eq_of_readsFrom hdepth hleaves

theorem leafCount_of_appendAll (hdepth : 1 ≤ depth) {leaves : List Uint256}
    {tree : IncrementalMerkleTree} (h : appendAll H depth leaves = .ok tree) :
    tree.leafCount = leaves.length := by
  rw [appendAll_eq hdepth 0] at h
  split_ifs at h
  rw [← ok.inj h, leafCount_treeOf]

/-- Leaves appended to an empty tree of any depth: `append` throws exactly
when the tree is full, and otherwise the tree has the root of the full tree
over the padded leaves and the last leaf. `size` is right up to `2 ^ 31`
leaves, and no further. -/
theorem appendAll_refines (hempty : EmptyRoots H.combine u H.emptyRoot)
    {depth : Nat} (hdepth : 1 ≤ depth) (leaves : List Uint256) :
    (2 ^ depth < leaves.length → appendAll H depth leaves = .error .treeIsFull) ∧
    (leaves.length ≤ 2 ^ depth → ∃ tree, appendAll H depth leaves = .ok tree ∧
      (∀ obj, tree.append H depth obj = .error .treeIsFull ↔ leaves.length = 2 ^ depth) ∧
      tree.rootWith H depth [] = node H.combine (fun i => leaves.getD i u) depth 0 ∧
      tree.last = leaves.getLast?.elim (.error .treeHasNoCursor) .ok ∧
      (tree.size.map BitVec.toNat = some leaves.length ↔ leaves.length ≤ 2 ^ 31)) := by
  have hrun := appendAll_eq (H := H) hdepth u leaves
  refine ⟨fun hlong => ?_, fun hfits => ?_⟩
  · rw [hrun, if_neg (by omega)]
  · rw [if_pos hfits] at hrun
    refine ⟨_, hrun, fun obj => ?_, ?_, ?_, size_treeOf_iff _⟩
    · exact append_treeOf_eq_error hdepth obj
    · rw [root_treeOf hempty hdepth hfits]
      congr 1
      funext i
      unfold padded
      split_ifs with hi
      · rfl
      · simp [getD, hi]
    · rcases leaves.eq_nil_or_concat with rfl | ⟨front, obj, rfl⟩
      · rfl
      · rw [length_concat, last_treeOf]
        simp

/-- A hash for examples: the leaves of a subtree one after the other, a byte each. -/
def byteHash : MerkleHash := ⟨fun a b d => a <<< (8 * 2 ^ d) + b, fun _ => 0⟩

theorem emptyRoots_byteHash : EmptyRoots byteHash.combine 0 byteHash.emptyRoot :=
  ⟨rfl, fun _ => by simp [byteHash]⟩

theorem appendAll_refines_three : ∃ tree, appendAll byteHash 2 [5, 6, 7] = .ok tree ∧
    tree.rootWith byteHash 2 [] = 0x05060700 ∧ tree.last = .ok 7 ∧
    tree.size.map BitVec.toNat = some 3 := by
  obtain ⟨tree, hrun, _, hroot, hlast, hsize⟩ :=
    (appendAll_refines emptyRoots_byteHash (by decide : 1 ≤ 2) [5, 6, 7]).2 (by decide)
  exact ⟨tree, hrun, hroot.trans (by decide +kernel), hlast, hsize.mpr (by decide)⟩

/-- One leaf more than `2 ^ 31` in a Sapling tree, and `size` reads the bit
of its parent as a sign. -/
theorem size_of_two_pow_31_add_one : ∃ tree,
    appendAll byteHash saplingTreeDepth (List.replicate (2 ^ 31 + 1) 0) = .ok tree ∧
    tree.size = some (BitVec.ofNat 64 18446744071562067969) := by
  have hrun := appendAll_eq (H := byteHash) (by decide : 1 ≤ saplingTreeDepth) 0
    (replicate (2 ^ 31 + 1) 0)
  rw [length_replicate] at hrun
  refine ⟨_, hrun, ?_⟩
  rw [size_treeOf_succ]
  decide

end KorshCore.IncrementalMerkleTree

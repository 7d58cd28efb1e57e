import KorshCore.Sapling.TreeRoot

/-!
# Witnesses follow the tree

A witness is taken when its leaf is the newest one and is then told every
further leaf. The siblings on the right of the leaf are filled one after the
other, from the lowest level up: `Tracks` says which are complete and how far
the next one has grown.
-/

namespace KorshCore.IncrementalWitness

open MerkleTree IncrementalMerkleTree List Option

variable {H : MerkleHash} {leaf : Nat → Uint256} {u : Uint256}

/-! ## The right siblings -/

/-- The leaves from `s` on. -/
def leavesFrom (leaf : Nat → Uint256) (s : Nat) : Nat → Uint256 :=
  fun j => leaf (s + j)

/-- After `n` leaves, the siblings on the right of the way up from the `p`-th
node of level `d`, for `turns` levels: those that are complete, and a cursor
for the first one that is not. -/
inductive Tracks (H : MerkleHash) (leaf : Nat → Uint256) (n : Nat) :
    (turns d p : Nat) → (filled : List Uint256) →
    (cursor : Option IncrementalMerkleTree) → (cursorDepth : Nat) → Prop
  | top {d p c} (hn : n = (p + 1) * 2 ^ d) : Tracks H leaf n 0 d p [] none c
  | right {turns d p filled cursor c}
      (above : Tracks H leaf n turns (d + 1) p filled cursor c) :
      Tracks H leaf n (turns + 1) d (2 * p + 1) filled cursor c
  | full {turns d p filled cursor c}
      (above : Tracks H leaf n turns (d + 1) p filled cursor c) :
      Tracks H leaf n (turns + 1) d (2 * p) (node H.combine leaf d (2 * p + 1) :: filled) cursor c
  | waiting {turns d p c} (hn : n = (2 * p + 1) * 2 ^ d) :
      Tracks H leaf n (turns + 1) d (2 * p) [] none c
  | growing {turns d p m} (hn : n = (2 * p + 1) * 2 ^ d + m) (hm : 0 < m)
      (hd : m < 2 ^ d) :
      Tracks H leaf n (turns + 1) d (2 * p) []
        (some (treeOf H (leavesFrom leaf ((2 * p + 1) * 2 ^ d)) m)) d

theorem double_succ_mul (p d : Nat) : (2 * p + 1 + 1) * 2 ^ d = (p + 1) * 2 ^ (d + 1) := by
  rw [pow_succ]
  ring

variable {cursor : Option IncrementalMerkleTree} {p : Nat} {c : Nat} {turns : Nat}
  {d : Nat}

namespace Tracks

variable {filled : List Uint256} {n turns d p c : Nat}

theorem le (h : Tracks H leaf n turns d p filled cursor c) : (p + 1) * 2 ^ d ≤ n := by
  induction h with
  | top hn => exact hn.ge
  | @right _ d p _ _ _ _ ih => rw [double_succ_mul]; exact ih
  | @full _ d p _ _ _ _ ih =>
    rw [← double_succ_mul] at ih
    refine le_trans (Nat.mul_le_mul_right _ ?_) ih
    omega
  | waiting hn => exact hn.ge
  | growing hn _ _ => omega

theorem start (c : Nat) : ∀ (turns d p : Nat), Tracks H leaf ((p + 1) * 2 ^ d) turns d p [] none c
  | 0, _, _ => top rfl
  | turns + 1, d, p => by
    rcases Nat.even_or_odd' p with ⟨q, rfl | rfl⟩
    · exact waiting rfl
    · rw [double_succ_mul]
      exact right (start c turns (d + 1) q)

theorem complete : Tracks H leaf ((2 * p + 1) * 2 ^ d + 2 ^ d) (turns + 1) d (2 * p)
      [node H.combine (leavesFrom leaf ((2 * p + 1) * 2 ^ d)) d 0] none c := by
  have hnode := node_shift H.combine leaf d (2 * p + 1) 0
  have hsum : (2 * p + 1) * 2 ^ d + 2 ^ d = (p + 1) * 2 ^ (d + 1) := by
    rw [← double_succ_mul]
    ring
  unfold leavesFrom
  rw [hnode, hsum]
  exact full (start c turns (d + 1) p)

theorem le_root (h : Tracks H leaf n turns d p filled cursor c) (hp : p < 2 ^ turns) :
    n ≤ 2 ^ (d + turns) := by
  induction h with
  | top hn =>
    obtain rfl : _ = 0 := by simpa using hp
    rw [hn, Nat.one_mul, Nat.add_zero]
  | @right turns d p _ _ _ _ ih | @full turns d p _ _ _ _ ih =>
    rw [show d + (turns + 1) = d + 1 + turns by ring]
    exact ih (by omega)
  | @waiting turns d p _ hn | @growing turns d p _ hn _ _ =>
    have hp' : p + 1 ≤ 2 ^ turns := by rw [pow_succ] at hp; omega
    have hpos : 0 < 2 ^ d := by positivity
    calc n ≤ (2 * p + 1 + 1) * 2 ^ d := by rw [Nat.succ_mul (2 * p + 1)]; omega
      _ = (p + 1) * 2 ^ (d + 1) := double_succ_mul p d
      _ ≤ 2 ^ turns * 2 ^ (d + 1) := Nat.mul_le_mul_right _ hp'
      _ = 2 ^ (d + (turns + 1)) := by ring

/-! ## One more leaf -/

theorem grow {cursor : IncrementalMerkleTree}
    (h : Tracks H leaf n turns d p filled (some cursor) c) :
    ∃ s m, cursor = treeOf H (leavesFrom leaf s) m ∧ n = s + m ∧ 0 < m ∧ m < 2 ^ c ∧ c < d + turns ∧
      (m + 1 < 2 ^ c → Tracks H leaf (n + 1) turns d p filled
        (some (treeOf H (leavesFrom leaf s) (m + 1))) c) ∧
      (m + 1 = 2 ^ c → Tracks H leaf (n + 1) turns d p
        (filled ++ [node H.combine (leavesFrom leaf s) c 0]) none c) := by
  generalize hcursor : some cursor = cursor' at h
  induction h with
  | top _ => cases hcursor
  | waiting _ => cases hcursor
  | right _ ih =>
    obtain ⟨s, m, htree, hn, hm, hroom, hc, hgrow, hdone⟩ := ih hcursor
    exact ⟨s, m, htree, hn, hm, hroom, by omega,
      fun hlt => right (hgrow hlt), fun heq => right (hdone heq)⟩
  | full _ ih =>
    obtain ⟨s, m, htree, hn, hm, hroom, hc, hgrow, hdone⟩ := ih hcursor
    exact ⟨s, m, htree, hn, hm, hroom, by omega,
      fun hlt => full (hgrow hlt), fun heq => full (hdone heq)⟩
  | @growing turns d p m hn hm hd =>
    refine ⟨(2 * p + 1) * 2 ^ d, m, some.inj hcursor, hn, hm, hd, by omega,
      fun hlt => growing (by omega) (by omega) hlt, fun heq => ?_⟩
    rw [hn, add_assoc, heq]
    exact complete

end Tracks

theorem nextDepthParents_odd (d q skip : Nat) :
    nextDepthParents (frontier H.combine leaf d (2 * q + 1)) d skip
      = nextDepthParents (frontier H.combine leaf (d + 1) q) (d + 1) skip := by
  rw [frontier_odd, nextDepthParents]

theorem nextDepthParents_even_zero (d q : Nat) :
    nextDepthParents (frontier H.combine leaf d (2 * q)) d 0 = d := by
  rcases Nat.eq_zero_or_pos q with rfl | hq
  · rw [frontier_zero]
    rfl
  · rw [frontier_even _ _ hq]
    rfl

theorem nextDepthParents_even_succ (d q skip : Nat) :
    nextDepthParents (frontier H.combine leaf d (2 * q)) d (skip + 1)
      = nextDepthParents (frontier H.combine leaf (d + 1) q) (d + 1) skip := by
  rcases Nat.eq_zero_or_pos q with rfl | hq
  · rw [frontier_zero, frontier_zero]
    show d + (skip + 1) = d + 1 + skip
    omega
  · rw [frontier_even _ _ hq]
    rfl

theorem nextDepth_treeOf (p skip : Nat) : (treeOf H leaf (p + 1)).nextDepth skip
      = nextDepthParents (frontier H.combine leaf 0 p) 0 skip := by
  rcases Nat.even_or_odd' p with ⟨q, rfl | rfl⟩
  · have hright : ¬2 * q % 2 = 1 := by omega
    have hhalf : 2 * q / 2 = q := by omega
    cases skip with
    | zero =>
      rw [nextDepthParents_even_zero]
      simp only [nextDepth, treeOf, hright, if_false, skipLeaf]
    | succ skip =>
      rw [nextDepthParents_even_succ]
      simp only [nextDepth, treeOf, hright, hhalf, if_false, skipLeaf]
  · have hright : (2 * q + 1) % 2 = 1 := by omega
    have hhalf : (2 * q + 1) / 2 = q := by omega
    rw [nextDepthParents_odd]
    simp only [nextDepth, treeOf, hright, hhalf, if_true, skipLeaf]

variable {n : Nat}

namespace Tracks

/-- Without a cursor, `next_depth` is the level of the sibling that the next
leaf opens, or there is none because the tree is full. -/
theorem sprout {filled : List Uint256}
    (h : Tracks H leaf n turns d p filled none c) (hp : p < 2 ^ turns) :
    let k := nextDepthParents (frontier H.combine leaf d p) d filled.length
    (d + turns ≤ k ∧ n = 2 ^ (d + turns)) ∨
    (k = 0 ∧ Tracks H leaf (n + 1) turns d p (filled ++ [leaf n]) none 0) ∨
    (0 < k ∧ k < d + turns ∧ Tracks H leaf (n + 1) turns d p filled
      (some (treeOf H (leavesFrom leaf n) 1)) k) := by
  generalize hcursor : none = cursor at h
  induction h with
  | @top d p c hn =>
    obtain rfl : p = 0 := by simpa using hp
    refine .inl ⟨?_, by simpa using hn⟩
    rw [frontier_zero]
    exact le_refl d
  | @right turns d p _ _ _ _ ih =>
    rw [nextDepthParents_odd, show d + (turns + 1) = d + 1 + turns by ring]
    rcases ih (by omega) hcursor with hfull | ⟨hk, htracks⟩ | ⟨hk, hlt, htracks⟩
    · exact .inl hfull
    · exact .inr (.inl ⟨hk, right htracks⟩)
    · exact .inr (.inr ⟨hk, hlt, right htracks⟩)
  | @full turns d p _ _ _ _ ih =>
    rw [length_cons, nextDepthParents_even_succ, show d + (turns + 1) = d + 1 + turns by ring]
    rcases ih (by omega) hcursor with hfull | ⟨hk, htracks⟩ | ⟨hk, hlt, htracks⟩
    · exact .inl hfull
    · exact .inr (.inl ⟨hk, full htracks⟩)
    · exact .inr (.inr ⟨hk, hlt, full htracks⟩)
  | @waiting turns d p c hn =>
    rw [length_nil, nextDepthParents_even_zero]
    rcases Nat.eq_zero_or_pos d with rfl | hd
    · -- a sibling of the lowest level is the leaf itself
      have hdone : Tracks H leaf ((2 * p + 1) * 2 ^ 0 + 2 ^ 0) (turns + 1) 0
        (2 * p) [leaf ((2 * p + 1) * 2 ^ 0)] none 0 := complete
      subst hn
      exact .inr (.inl ⟨rfl, hdone⟩)
    · have hpow : 1 < 2 ^ d := Nat.one_lt_two_pow (by omega)
      refine .inr (.inr ⟨hd, by omega, ?_⟩)
      rw [hn]
      exact growing rfl Nat.one_pos hpow
  | growing _ _ _ => cases hcursor

theorem feeds (hempty : EmptyRoots H.combine u H.emptyRoot) {filled : List Uint256}
    (tree : IncrementalMerkleTree)
    (h : Tracks H leaf n turns d p filled cursor c) : Feeds H (padded leaf u n) turns d p
      (IncrementalWitness.mk tree filled cursor c |>.partialPath H) := by
  induction h with
  | top _ => trivial
  | right _ ih => exact feeds_odd.mpr ih
  | @full turns d p filled cursor c above ih =>
    have hle := above.le
    rw [← double_succ_mul] at hle
    have hnode := node_padded_of_full H.combine leaf (u := u) hle
    refine feeds_even.mpr ?_
    cases cursor <;> exact ⟨hnode.symm, ih⟩
  | @waiting turns d p _ hn => exact feeds_nil hempty hn.le
  | @growing turns d p m hn hm hd =>
    have hd' : 1 ≤ d := by
      by_contra hzero
      obtain rfl : d = 0 := by omega
      omega
    have hleaves : padded (leavesFrom leaf ((2 * p + 1) * 2 ^ d)) u m
        = fun j => padded leaf u n ((2 * p + 1) * 2 ^ d + j) := by
      funext j
      exact if_congr (by omega) rfl rfl
    have hroot : (treeOf H (leavesFrom leaf ((2 * p + 1) * 2 ^ d)) m).rootWith
        H d [] = node H.combine (padded leaf u n) d (2 * p + 1) := by
      rw [root_treeOf hempty hd' hd.le, hleaves, node_shift]
    refine feeds_even.mpr ⟨hroot, feeds_nil hempty ?_⟩
    rw [← double_succ_mul, Nat.succ_mul (2 * p + 1)]
    omega

end Tracks

/-! ## A run of appends -/

/-- A witness of the leaf at `p` in a tree of `n` leaves. -/
def Follows (H : MerkleHash) (depth : Nat) (leaf : Nat → Uint256) (p n : Nat)
    (witness : IncrementalWitness) : Prop :=
  witness.tree = treeOf H leaf (p + 1) ∧
    Tracks H leaf n depth 0 p witness.filled witness.cursor witness.cursorDepth

theorem follows_witness (depth p : Nat) :
    Follows H depth leaf p (p + 1) (treeOf H leaf (p + 1)).witness := by
  have hstart : Tracks H leaf ((p + 1) * 2 ^ 0) depth 0 p [] none 0 := Tracks.start 0 depth 0 p
  rw [pow_zero, Nat.mul_one] at hstart
  exact ⟨rfl, hstart⟩

theorem rootWith_treeOf_full (hempty : EmptyRoots H.combine u H.emptyRoot) (hd : 1 ≤ d) :
    (treeOf H leaf (2 ^ d)).rootWith H d [] = node H.combine leaf d 0 := by
  rw [root_treeOf hempty hd le_rfl, node_padded_of_full]
  rw [Nat.one_mul]

variable {filled : List Uint256} {depth : Nat}

theorem append_none (hp : p < 2 ^ depth) (h : Tracks H leaf n depth 0 p filled none c) :
    (n = 2 ^ depth ∧ (mk (treeOf H leaf (p + 1)) filled none c).append H depth
      (leaf n) = .error .treeIsFull) ∨
    ∃ filled' cursor' c', (mk (treeOf H leaf (p + 1)) filled none c).append H depth (leaf n)
        = .ok ⟨treeOf H leaf (p + 1), filled', cursor', c'⟩ ∧
      Tracks H leaf (n + 1) depth 0 p filled' cursor' c' := by
  have hsprout := h.sprout hp
  rw [zero_add, ← nextDepth_treeOf] at hsprout
  unfold append
  dsimp only
  rcases hsprout with ⟨hk, hn⟩ | ⟨hk, hafter⟩ | ⟨hk, hlt, hafter⟩
  · refine .inl ⟨hn, ?_⟩
    rw [if_pos hk]
  · have hroom : ¬depth ≤ 0 := by
      intro hzero
      obtain rfl : depth = 0 := by omega
      have hle := h.le
      have hle' := hafter.le_root hp
      omega
    refine .inr ⟨_, _, _, ?_, hafter⟩
    rw [hk, if_neg hroom, if_pos rfl]
  · have hopen : (treeOf H (leavesFrom leaf n) 0).append H depth
        (leavesFrom leaf n 0) = .ok (treeOf H (leavesFrom leaf n) 1) :=
      append_treeOf (by omega) (by positivity)
    change empty.append H depth (leaf n) = _ at hopen
    refine .inr ⟨_, _, _, ?_, hafter⟩
    rw [if_neg (by omega), if_neg (by omega), hopen, Except.ok_bind]

theorem append_some (hempty : EmptyRoots H.combine u H.emptyRoot) {cursor : IncrementalMerkleTree}
    (h : Tracks H leaf n depth 0 p filled (some cursor) c) : ∃ filled' cursor' c',
      (mk (treeOf H leaf (p + 1)) filled (some cursor) c).append H depth (leaf n)
        = .ok ⟨treeOf H leaf (p + 1), filled', cursor', c'⟩ ∧
      Tracks H leaf (n + 1) depth 0 p filled' cursor' c' := by
  obtain ⟨s, m, rfl, hn, hm, hroom, hc, hgrow, hdone⟩ := h.grow
  rw [zero_add] at hc
  have hc' : 1 ≤ c := by
    by_contra hzero
    obtain rfl : c = 0 := by omega
    omega
  have hle : 2 ^ c ≤ 2 ^ depth := Nat.pow_le_pow_right (by omega) hc.le
  have happend : (treeOf H (leavesFrom leaf s) m).append H depth (leaf n)
      = .ok (treeOf H (leavesFrom leaf s) (m + 1)) := by
    rw [hn]
    exact append_treeOf (by omega) (by omega)
  have hcomplete : (treeOf H (leavesFrom leaf s) (m + 1)).isComplete c = true ↔
      m + 1 = 2 ^ c := isComplete_treeOf hc'
  unfold append
  dsimp only
  rw [happend, Except.ok_bind]
  by_cases hlast : m + 1 = 2 ^ c
  · rw [if_pos (hcomplete.mpr hlast), hlast, rootWith_treeOf_full hempty hc']
    exact ⟨_, _, _, rfl, hdone hlast⟩
  · rw [if_neg (by rwa [hcomplete])]
    exact ⟨_, _, _, rfl, hgrow (by omega)⟩

theorem append_follows (hempty : EmptyRoots H.combine u H.emptyRoot)
    {witness : IncrementalWitness} (hp : p < 2 ^ depth)
    (h : Follows H depth leaf p n witness) (hn : n < 2 ^ depth) :
    ∃ next, witness.append H depth (leaf n) = .ok next ∧ Follows H depth leaf p (n + 1) next := by
  obtain ⟨tree, filled, cursor, c⟩ := witness
  obtain ⟨htree, htracks⟩ := h
  change tree = _ at htree
  subst htree
  cases cursor with
  | none =>
    rcases append_none hp htracks with ⟨hfull, _⟩ | ⟨_, _, _, happend, hafter⟩
    · omega
    · exact ⟨_, happend, rfl, hafter⟩
  | some cursor =>
    obtain ⟨_, _, _, happend, hafter⟩ := append_some hempty htracks
    exact ⟨_, happend, rfl, hafter⟩

/-! ## The path -/

theorem pathFill_eq : ∀ {turns d : Nat} {filler : List Uint256}, Feeds H leaf turns d 0 filler →
    pathFill H turns d filler = steps H.combine leaf turns d 0
  | 0, _, _, _ => rfl
  | turns + 1, d, filler, h => by
    obtain ⟨hnext, hrest⟩ := feeds_even (q := 0).mp h
    rw [show 0 = 2 * 0 from rfl, steps_even]
    simp only [pathFill, hnext, pathFill_eq hrest]

theorem pathParents_eq {filler : List Uint256}
    (hp : p < 2 ^ turns) (h : Feeds H leaf turns d p filler) :
    let up := pathParents H (frontier H.combine leaf d p) d filler
    up.1 ++ pathFill H (d + turns - up.2.1) up.2.1 up.2.2 = steps H.combine leaf turns d p := by
  have hedge : ∀ {turns d : Nat} {filler}, Feeds H leaf turns d 0 filler →
      pathFill H (d + turns - d) d filler = steps H.combine leaf turns d 0 := by
    intro turns d filler h
    rw [Nat.add_sub_cancel_left]
    exact pathFill_eq h
  induction turns generalizing d p filler with
  | zero =>
    obtain rfl : p = 0 := by omega
    rw [frontier_zero]
    exact hedge h
  | succ turns ih =>
    rcases Nat.even_or_odd' p with ⟨q, rfl | rfl⟩
    · obtain rfl | hq := q.eq_zero_or_pos
      · rw [frontier_zero]
        exact hedge h
      · obtain ⟨hnext, hrest⟩ := feeds_even.mp h
        rw [frontier_even _ _ hq, steps_even, show d + (turns + 1) = d + 1 + turns by ring]
        simp only [pathParents, hnext, cons_append]
        exact congrArg _ (ih (by omega) hrest)
    · rw [frontier_odd, steps_odd, show d + (turns + 1) = d + 1 + turns by ring]
      simp only [pathParents, cons_append]
      exact congrArg _ (ih (by omega) (feeds_odd.mp h))

theorem path_treeOf {filler : List Uint256}
    (hdepth : 1 ≤ depth) (hp : p < 2 ^ depth) (h : Feeds H leaf depth 0 p filler) :
    (treeOf H leaf (p + 1)).path H depth filler = .ok
      ⟨((steps H.combine leaf depth 0 p).map Prod.snd).reverse,
        ((steps H.combine leaf depth 0 p).map Prod.fst).reverse⟩ := by
  obtain ⟨turns, rfl⟩ : ∃ k, depth = k + 1 := ⟨depth - 1, by omega⟩
  have hsteps : pathSteps H (turns + 1) (leaf (2 * (p / 2)))
      (if p % 2 = 1 then some (leaf p) else none)
      (frontier H.combine leaf 1 (p / 2)) filler = steps H.combine leaf (turns + 1) 0 p := by
    rcases Nat.even_or_odd' p with ⟨q, rfl | rfl⟩
    · obtain ⟨hnext, hrest⟩ := feeds_even.mp h
      have hup := pathParents_eq (by omega) hrest
      rw [show 0 + 1 + turns = turns + 1 by ring] at hup
      have hright : ¬2 * q % 2 = 1 := by omega
      have hhalf : 2 * q / 2 = q := by omega
      rw [steps_even]
      simp only [pathSteps, hright, hhalf, if_false, hnext]
      exact congrArg _ hup
    · have hup := pathParents_eq (by omega) (feeds_odd.mp h)
      rw [show 0 + 1 + turns = turns + 1 by ring] at hup
      have hright : (2 * q + 1) % 2 = 1 := by omega
      have hhalf : (2 * q + 1) / 2 = q := by omega
      rw [steps_odd]
      simp only [pathSteps, hright, hhalf, if_true]
      exact congrArg _ hup
  rw [treeOf_succ, IncrementalMerkleTree.path]
  dsimp only
  rw [hsteps]

def recompute (H : MerkleHash) (path : MerklePath) (obj : Uint256) : Uint256 :=
  climb H.combine 0 obj (path.index.reverse.zip path.authenticationPath.reverse)

theorem path_follows (hempty : EmptyRoots H.combine u H.emptyRoot)
    {witness : IncrementalWitness} (hdepth : 1 ≤ depth)
    (hp : p < 2 ^ depth) (hn : p < n) (h : Follows H depth leaf p n witness) :
    witness.root H depth = node H.combine (padded leaf u n) depth 0 ∧
    ∃ path, witness.path H depth = .ok path ∧ path.authenticationPath.length = depth ∧
      path.index = ((range depth).map p.testBit).reverse ∧
      recompute H path (leaf p) = node H.combine (padded leaf u n) depth 0 := by
  obtain ⟨tree, filled, cursor, c⟩ := witness
  obtain ⟨htree, htracks⟩ := h
  change tree = _ at htree
  have hsame : treeOf H leaf (p + 1) = treeOf H (padded leaf u n) (p + 1) :=
    treeOf_congr fun j hj => (if_pos (by omega)).symm
  rw [hsame] at htree
  subst htree
  have hfeeds := htracks.feeds hempty (treeOf H (padded leaf u n) (p + 1))
  refine ⟨rootWith_treeOf hdepth hp hfeeds, _, path_treeOf hdepth hp hfeeds, ?_, ?_, ?_⟩
  · rw [length_reverse, length_map, length_steps]
  · rw [map_fst_steps]
  · have hleaf : padded leaf u n p = leaf p := if_pos hn
    have hclimb := climb_steps H.combine (padded leaf u n) (d := 0) hp
    rw [zero_add, node_zero, hleaf] at hclimb
    unfold recompute
    rw [reverse_reverse, reverse_reverse, ← zip_of_prod rfl rfl]
    exact hclimb

/-! ## The tree and its witness -/

def appendBoth (H : MerkleHash) (depth : Nat) (tree : IncrementalMerkleTree)
    (witness : IncrementalWitness) : List Uint256 →
    Except TreeError (IncrementalMerkleTree × IncrementalWitness)
  | [] => .ok (tree, witness)
  | obj :: leaves => do
    let tree ← tree.append H depth obj
    let witness ← witness.append H depth obj
    appendBoth H depth tree witness leaves

def witnessAfter (H : MerkleHash) (depth : Nat) (before : List Uint256)
    (obj : Uint256) (after : List Uint256) :
    Except TreeError (IncrementalMerkleTree × IncrementalWitness) := do
  let tree ← appendAll H depth (before ++ [obj])
  appendBoth H depth tree tree.witness after

theorem appendBoth_follows (hempty : EmptyRoots H.combine u H.emptyRoot) (hdepth : 1 ≤ depth)
    (hp : p < 2 ^ depth) :
    ∀ {leaves : List Uint256} {n : Nat} {witness : IncrementalWitness}, n ≤ 2 ^ depth →
    ReadsFrom leaf n leaves → Follows H depth leaf p n witness → (2 ^ depth < n + leaves.length →
      appendBoth H depth (treeOf H leaf n) witness leaves = .error .treeIsFull) ∧
    (n + leaves.length ≤ 2 ^ depth → ∃ last, appendBoth H depth (treeOf H leaf n) witness leaves
        = .ok (treeOf H leaf (n + leaves.length), last) ∧
      Follows H depth leaf p (n + leaves.length) last)
  | [], n, witness, hn, _, h => by
    refine ⟨fun hlong => ?_, fun _ => ⟨witness, rfl, h⟩⟩
    rw [length_nil] at hlong
    omega
  | _ :: leaves, n, witness, hn, ⟨rfl, hrest⟩, h => by
    rw [length_cons, appendBoth, show n + (leaves.length + 1) = n + 1 + leaves.length by ring]
    rcases Nat.lt_or_ge n (2 ^ depth) with hroom | hfull
    · obtain ⟨next, happend, hnext⟩ := append_follows hempty hp h hroom
      rw [append_treeOf hdepth hroom, happend]
      exact appendBoth_follows hempty hdepth hp hroom hrest hnext
    · obtain rfl : n = 2 ^ depth := by omega
      rw [append_treeOf_full hdepth]
      exact ⟨fun _ => rfl, fun hlong => by omega⟩

theorem position_treeOf_iff (p : Nat) :
    (mk (treeOf H leaf (p + 1)) filled cursor c).position.map BitVec.toNat
      = some p ↔ p < 2 ^ 31 := by
  have hone : (1 : BitVec 64).toNat = 1 := rfl
  unfold position
  rw [size_treeOf_succ]
  split_ifs with hlow hsign
  · have hfits : p + 1 < 2 ^ 64 := by omega
    simp only [map_some, some.injEq, BitVec.toNat_sub,
      BitVec.toNat_ofNat, Nat.mod_eq_of_lt hfits, hone]
    omega
  · have hfits : p + 1 < 2 ^ 64 := by omega
    have hbig : ¬p < 2 ^ 31 := by omega
    simp only [map_some, some.injEq, BitVec.toNat_sub,
      BitVec.toNat_ofNat, Nat.mod_eq_of_lt hfits, hbig, iff_false, hone]
    omega
  · have hbig : ¬p < 2 ^ 31 := by omega
    simp only [map_none, reduceCtorEq, hbig]

/-- A witness taken of the leaf after `before`, and told every leaf that the
tree is told: it has the root of the tree, and an authentication path that
leads from its leaf at its position to that root. `position` is right for the
first `2 ^ 31` leaves, and no further. -/
theorem witnessAfter_follows (hempty : EmptyRoots H.combine u H.emptyRoot)
    {depth : Nat} (hdepth : 1 ≤ depth) (before : List Uint256) (obj : Uint256)
    (after : List Uint256) : (2 ^ depth < before.length + 1 + after.length →
      witnessAfter H depth before obj after = .error .treeIsFull) ∧
    (before.length + 1 + after.length ≤ 2 ^ depth → ∃ tree witness,
      witnessAfter H depth before obj after = .ok (tree, witness) ∧
      appendAll H depth (before ++ [obj] ++ after) = .ok tree ∧
      witness.root H depth = tree.rootWith H depth [] ∧ witness.element = .ok obj ∧
      (∃ path, witness.path H depth = .ok path ∧ path.authenticationPath.length = depth ∧
        path.index = ((List.range depth).map before.length.testBit).reverse ∧
        recompute H path obj = tree.rootWith H depth []) ∧
      (witness.position.map BitVec.toNat = some before.length ↔ before.length < 2 ^ 31)) := by
  let leaf : Nat → Uint256 := fun i => (before ++ ([obj] ++ after)).getD i u
  have hfront : ReadsFrom leaf 0 (before ++ [obj]) := by
    have hreads := readsFrom_getD u [] (before ++ [obj]) after
    rw [append_assoc] at hreads
    exact hreads
  have hback : ReadsFrom leaf (before.length + 1) after := by
    have hreads := readsFrom_getD u (before ++ [obj]) after []
    rw [append_nil, append_assoc, length_append] at hreads
    exact hreads
  have hall : ReadsFrom leaf 0 (before ++ [obj] ++ after) := by
    have hreads := readsFrom_getD u [] (before ++ [obj] ++ after) []
    rw [append_nil, append_assoc] at hreads
    rw [append_assoc]
    exact hreads
  have hobj : leaf before.length = obj := by simp [leaf]
  have htree := appendAll_eq_of_readsFrom (H := H) hdepth hfront
  have hgrown := appendAll_eq_of_readsFrom (H := H) hdepth hall
  rw [length_append, length_singleton] at htree
  rw [length_append, length_append, length_singleton] at hgrown
  unfold witnessAfter
  rcases Nat.lt_or_ge (2 ^ depth) (before.length + 1) with hlong | hroom
  · rw [htree, if_neg (by omega)]
    exact ⟨fun _ => rfl, fun hfits => by omega⟩
  · have hp : before.length < 2 ^ depth := by omega
    obtain ⟨herror, hok⟩ := appendBoth_follows hempty hdepth hp hroom hback
      (follows_witness depth before.length)
    rw [htree, if_pos hroom]
    refine ⟨herror, fun hfits => ?_⟩
    obtain ⟨witness, hrun, hfollows⟩ := hok hfits
    obtain ⟨hroot, path, hpath, hlength, hindex, hclimb⟩ :=
      path_follows hempty hdepth hp (by omega) hfollows
    rw [if_pos hfits] at hgrown
    rw [hobj] at hclimb
    refine ⟨_, witness, hrun, hgrown, ?_, ?_, ⟨path, hpath, hlength, hindex, ?_⟩, ?_⟩
    · rw [hroot, root_treeOf hempty hdepth hfits]
    · rw [element, hfollows.1, last_treeOf, hobj]
    · rw [hclimb, root_treeOf hempty hdepth hfits]
    · obtain ⟨tree, filled, cursor, c⟩ := witness
      obtain ⟨rfl, _⟩ := hfollows
      exact position_treeOf_iff before.length

theorem witnessAfter_follows_second : ∃ tree witness,
    witnessAfter byteHash 2 [5] 6 [7, 8] = .ok (tree, witness) ∧
    witness.root byteHash 2 = tree.rootWith byteHash 2 [] ∧ witness.element = .ok 6 ∧
    witness.position.map BitVec.toNat = some 1 := by
  obtain ⟨tree, witness, hrun, _, hroot, helement, _, hposition⟩ :=
    (witnessAfter_follows emptyRoots_byteHash (by decide : 1 ≤ 2) [5] 6 [7, 8]).2 (by decide)
  exact ⟨tree, witness, hrun, hroot, helement, hposition.mpr (by decide)⟩

/-- A witness of the leaf at `2 ^ 31` in a Sapling tree: the bit of its parent
counts as a sign. -/
theorem position_of_two_pow_31 : ∃ tree witness,
    witnessAfter byteHash saplingTreeDepth (List.replicate (2 ^ 31) 0) 0 [] = .ok (tree, witness) ∧
    witness.position = some (BitVec.ofNat 64 18446744071562067968) := by
  have hrun := appendAll_eq (H := byteHash) (by decide : 1 ≤ saplingTreeDepth) 0
    (replicate (2 ^ 31) 0 ++ [0])
  rw [length_append, length_singleton, length_replicate, if_pos (by decide)] at hrun
  unfold witnessAfter
  rw [hrun]
  refine ⟨_, _, rfl, ?_⟩
  rw [position, IncrementalMerkleTree.witness, size_treeOf_succ]
  decide

end KorshCore.IncrementalWitness

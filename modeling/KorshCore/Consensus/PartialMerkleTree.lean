import KorshCore.Consensus.Merkle
import Mathlib.Data.List.Nodup
import Mathlib.Data.Nat.Find
import Mathlib.Tactic.Ring

/-!
# Partial merkle trees

`CPartialMerkleTree` of `merkleblock.cpp`: a proof that some transactions are
in a block, as flag bits and hashes of the nodes of its merkle tree in
depth-first order.
-/

namespace KorshCore.PartialMerkleTree

open List Function Merkle

/-- `CalcTreeWidth`: the number of nodes at a height. -/
def calcTreeWidth (nTransactions height : Nat) : Nat :=
  (nTransactions + 2 ^ height - 1) / 2 ^ height

theorem lt_calcTreeWidth {n height pos : Nat} :
    pos < calcTreeWidth n height ↔ pos * 2 ^ height < n := by
  have hpos := Nat.two_pow_pos height
  rw [calcTreeWidth, Nat.lt_iff_add_one_le, Nat.le_div_iff_mul_le hpos, Nat.succ_mul]
  omega

theorem calcTreeWidth_succ (n height : Nat) :
    calcTreeWidth n (height + 1) = (calcTreeWidth n height + 1) / 2 := by
  refine eq_of_forall_lt_iff fun pos => ?_
  have hhalf : pos < (calcTreeWidth n height + 1) / 2 ↔ 2 * pos < calcTreeWidth n height := by
    omega
  rw [hhalf, lt_calcTreeWidth, lt_calcTreeWidth, Nat.pow_succ', ← mul_assoc, mul_comm pos 2]

theorem exists_calcTreeWidth_le_one (n : Nat) : ∃ height, ¬ 1 < calcTreeWidth n height :=
  ⟨n, by rw [lt_calcTreeWidth]; have := Nat.lt_two_pow_self (n := n); omega⟩

/-- The loop for `nHeight`. -/
def treeHeight (nTransactions : Nat) : Nat :=
  Nat.find (exists_calcTreeWidth_le_one nTransactions)

theorem calcTreeWidth_treeHeight {n : Nat} (hn : 0 < n) : calcTreeWidth n (treeHeight n) = 1 := by
  have hle := Nat.find_spec (exists_calcTreeWidth_le_one n)
  have hpos : 0 < calcTreeWidth n (treeHeight n) := lt_calcTreeWidth.mpr (by omega)
  exact le_antisymm (not_lt.mp hle) hpos

/-- `BitsToBytes` -/
def bitsToBytes (bits : List Bool) : List Nat :=
  (range ((bits.length + 7) / 8)).map fun i =>
    Nat.ofBits fun j : Fin 8 => bits.getD (8 * i + j) false

/-- `BytesToBits` -/
def bytesToBits (bytes : List Nat) : List Bool :=
  (range (bytes.length * 8)).map fun p => (bytes.getD (p / 8) 0).testBit (p % 8)

/-- The bits come back with the padding of the last byte. -/
theorem bytesToBits_bitsToBytes (bits : List Bool) :
    bytesToBits (bitsToBytes bits) =
      bits ++ replicate ((bits.length + 7) / 8 * 8 - bits.length) false := by
  refine ext_getElem (by simp [bytesToBits, bitsToBytes]; omega) fun p hp _ => ?_
  have hbyte : p / 8 < (bits.length + 7) / 8 := by
    simp [bytesToBits, bitsToBytes] at hp
    omega
  have hbit := Nat.testBit_ofBits_lt (fun j : Fin 8 => bits.getD (8 * (p / 8) + j) false) (p % 8)
    (Nat.mod_lt p (by omega))
  simp only [bytesToBits, bitsToBytes, getElem_map, getElem_range, getD_eq_getElem?_getD,
    getElem?_map, getElem?_range hbyte, Option.map_some, Option.getD_some] at hbit ⊢
  rw [hbit, Nat.div_add_mod, getElem_append]
  split <;> simp_all

variable {H : Type*} [DecidableEq H] [Zero H] (node : H → H → H)

/-- `CalcHash` -/
def calcHash (vTxid : List H) : Nat → Nat → H
  | 0, pos => vTxid.getD pos 0
  | height + 1, pos =>
    let left := calcHash vTxid height (pos * 2)
    node left (if pos * 2 + 1 < calcTreeWidth vTxid.length height then
      calcHash vTxid height (pos * 2 + 1) else left)

/-- The positions of the matched transactions below a node. -/
def matchesBelow (n : Nat) (vMatch : List Bool) (height pos : Nat) : List Nat :=
  (range' (pos * 2 ^ height) (2 ^ height)).filter fun p => p < n ∧ vMatch.getD p false

/-- `TraverseAndBuild`: the bits and hashes it appends. A node without a match
below it has the bit `false`. -/
def traverseAndBuild (vTxid : List H) (vMatch : List Bool) : Nat → Nat → List Bool × List H
  | 0, pos => ([!(matchesBelow vTxid.length vMatch 0 pos).isEmpty], [calcHash node vTxid 0 pos])
  | height + 1, pos =>
    if matchesBelow vTxid.length vMatch (height + 1) pos = [] then
      ([false], [calcHash node vTxid (height + 1) pos])
    else
      let left := traverseAndBuild vTxid vMatch height (pos * 2)
      let right := if pos * 2 + 1 < calcTreeWidth vTxid.length height then
        traverseAndBuild vTxid vMatch height (pos * 2 + 1) else ([], [])
      (true :: left.1 ++ right.1, left.2 ++ right.2)

/-- `TraverseAndExtract`, from the bits and hashes not used yet: the hash of the
node, what is left of both and the matches with their positions. `none` is `fBad`. -/
def traverseAndExtract (n : Nat) : Nat → Nat → List Bool → List H →
    Option (H × List Bool × List H × List (H × Nat))
  | _, _, [], _ => none
  | 0, _, _ :: _, [] => none
  | 0, pos, fParentOfMatch :: vBits, hash :: vHash =>
    some (hash, vBits, vHash, if fParentOfMatch then [(hash, pos)] else [])
  | _ + 1, _, false :: _, [] => none
  | _ + 1, _, false :: vBits, hash :: vHash => some (hash, vBits, vHash, [])
  | height + 1, pos, true :: vBits, vHash => do
    let (left, vBits, vHash, vMatch) ← traverseAndExtract n height (pos * 2) vBits vHash
    if pos * 2 + 1 < calcTreeWidth n height then
      let (right, vBits, vHash, vMatch') ← traverseAndExtract n height (pos * 2 + 1) vBits vHash
      if right = left then none
      else some (node left right, vBits, vHash, vMatch ++ vMatch')
    else some (node left left, vBits, vHash, vMatch)

/-- A `CPartialMerkleTree` -/
structure Tree (H : Type*) where
  nTransactions : Nat
  vBits : List Bool
  vHash : List H

/-- The constructor from a block's ids. -/
def build (vTxid : List H) (vMatch : List Bool) : Tree H :=
  let (vBits, vHash) := traverseAndBuild node vTxid vMatch (treeHeight vTxid.length) 0
  ⟨vTxid.length, vBits, vHash⟩

/-- The tree that is read from the bytes of `tree`. -/
def Tree.received (tree : Tree H) : Tree H :=
  { tree with vBits := bytesToBits (bitsToBytes tree.vBits) }

/-- `MaxBlockSize` -/
def maxBlockSize : Nat := 2000000

/-- `ExtractMatches`: the root and the matches, `none` where it returns the null hash. -/
def Tree.extractMatches (tree : Tree H) : Option (H × List (H × Nat)) :=
  if tree.nTransactions = 0 ∨ maxBlockSize / 60 < tree.nTransactions ∨
      tree.nTransactions < tree.vHash.length ∨ tree.vBits.length < tree.vHash.length then none
  else do
    let (root, vBits, vHash, vMatch) ← traverseAndExtract node tree.nTransactions
      (treeHeight tree.nTransactions) 0 tree.vBits tree.vHash
    let nBitsUsed := tree.vBits.length - vBits.length
    if (nBitsUsed + 7) / 8 ≠ (tree.vBits.length + 7) / 8 ∨ vHash ≠ [] then none
    else some (root, vMatch)

/-! ## The root -/

section Root

variable (vTxid : List H)

/-- The nodes at a height. -/
def level (height : Nat) : List H :=
  (range (calcTreeWidth vTxid.length height)).map (calcHash node vTxid height)

omit [DecidableEq H] in
theorem parents_eq : ∀ hashes : List H, parents node hashes =
    (range ((hashes.length + 1) / 2)).map fun p => node (hashes.getD (p * 2) 0)
      (hashes.getD (p * 2 + 1) (hashes.getD (p * 2) 0))
  | [] => by simp [parents]
  | [_] => by simp [parents]
  | a :: b :: hashes => by
    have hlen : ((a :: b :: hashes).length + 1) / 2 = (hashes.length + 1) / 2 + 1 := by
      simp only [length_cons]
      omega
    rw [hlen, range_succ_eq_map, map_cons, map_map, parents, parents_eq hashes]
    refine congrArg _ (map_congr_left fun p _ => ?_)
    rw [comp_apply, Nat.succ_mul]
    rfl

omit [DecidableEq H] in
theorem parents_level (height : Nat) :
    parents node (level node vTxid height) = level node vTxid (height + 1) := by
  rw [parents_eq, level, level, length_map, length_range, calcTreeWidth_succ]
  refine map_congr_left fun p hp => ?_
  have hleft : p * 2 < calcTreeWidth vTxid.length height := by
    rw [mem_range] at hp
    omega
  simp only [calcHash, getD_eq_getElem?_getD, getElem?_map, getElem?_range hleft, Option.map_some,
    Option.getD_some]
  split
  case isTrue h => rw [getElem?_range h, Option.map_some, Option.getD_some]
  case isFalse h => rw [getElem?_eq_none (by simpa using h), Option.map_none, Option.getD_none]

omit [DecidableEq H] in
theorem level_zero : level node vTxid 0 = vTxid := by
  refine ext_getElem (by simp [level, calcTreeWidth]) fun p _ hp => ?_
  simp [level, calcHash, hp]

theorem merkleLoop_level (hn : vTxid ≠ []) (mutation : Bool) {k height : Nat}
    (hk : height + k = treeHeight vTxid.length) :
    (merkleLoop node (level node vTxid height) mutation).1 =
      calcHash node vTxid (treeHeight vTxid.length) 0 := by
  induction k generalizing height mutation with
  | zero =>
    rw [Nat.add_zero] at hk
    rw [hk, level, calcTreeWidth_treeHeight (length_pos_iff.mpr hn)]
    simp [merkleLoop]
  | succ k ih =>
    have hwidth : 1 < calcTreeWidth vTxid.length height :=
      not_not.mp (Nat.find_min (exists_calcTreeWidth_le_one vTxid.length) (by
        show height < treeHeight vTxid.length
        omega))
    have hlen : 1 < (level node vTxid height).length := by simpa [level] using hwidth
    rcases heq : level node vTxid height with _ | ⟨a, _ | ⟨b, hashes⟩⟩
    · simp [heq] at hlen
    · simp [heq] at hlen
    rw [merkleLoop, ← heq, parents_level]
    exact ih _ (by omega)

/-- The node at the top is the block's merkle root. -/
theorem calcHash_treeHeight (hn : vTxid ≠ []) :
    calcHash node vTxid (treeHeight vTxid.length) 0 = (computeMerkleRoot node vTxid).1 := by
  rw [computeMerkleRoot, ← merkleLoop_level node vTxid hn false (Nat.zero_add _), level_zero]

end Root

/-! ## Trees of a block -/

section RoundTrip

variable {node} {vTxid : List H} {vMatch : List Bool} {height pos : Nat}

omit [DecidableEq H] in
/-- Nodes of one height with the same hash have the same first leaf. -/
theorem pos_eq_of_calcHash_eq (hinj : Injective2 node) (hnodup : vTxid.Nodup) {q : Nat}
    (hp : pos * 2 ^ height < vTxid.length) (hq : q * 2 ^ height < vTxid.length)
    (heq : calcHash node vTxid height pos = calcHash node vTxid height q) : pos = q := by
  induction height generalizing pos q with
  | zero =>
    simp only [pow_zero, mul_one] at hp hq
    simp only [calcHash, getD_eq_getElem?_getD, getElem?_eq_getElem hp, getElem?_eq_getElem hq,
      Option.getD_some] at heq
    exact hnodup.getElem_inj_iff.mp heq
  | succ height ih =>
    rw [Nat.pow_succ', ← mul_assoc] at hp hq
    have := ih hp hq (hinj heq).1
    omega

theorem matchesBelow_succ (n : Nat) : matchesBelow n vMatch (height + 1) pos =
    matchesBelow n vMatch height (pos * 2) ++ matchesBelow n vMatch height (pos * 2 + 1) := by
  rw [matchesBelow, matchesBelow, matchesBelow, ← filter_append]
  congr 1
  rw [show (pos * 2 + 1) * 2 ^ height = pos * 2 * 2 ^ height + 1 * 2 ^ height by ring,
    one_mul, range'_append_1, Nat.pow_succ']
  congr 1 <;> ring

theorem matchesBelow_eq_nil {n : Nat} (h : ¬ pos < calcTreeWidth n height) :
    matchesBelow n vMatch height pos = [] := by
  rw [lt_calcTreeWidth] at h
  simp only [matchesBelow, filter_eq_nil_iff, mem_range'_1, decide_eq_true_eq]
  omega

theorem matchesBelow_treeHeight (vMatch : List Bool) {n : Nat} (hn : 0 < n) :
    matchesBelow n vMatch (treeHeight n) 0 =
      (range n).filter fun p => vMatch.getD p false := by
  have hle : ¬ 1 * 2 ^ treeHeight n < n := by
    rw [← lt_calcTreeWidth, calcTreeWidth_treeHeight hn]
    omega
  rw [matchesBelow, zero_mul, show 2 ^ treeHeight n = n + (2 ^ treeHeight n - n) by omega,
    ← range'_append_1, filter_append, ← range_eq_range',
    filter_congr (q := fun p => vMatch.getD p false), append_right_eq_self]
  · simp only [filter_eq_nil_iff, mem_range'_1, decide_eq_true_eq]
    omega
  · intro p hp
    simp [mem_range.mp hp]

omit [DecidableEq H] in
theorem length_hashes (hpos : pos * 2 ^ height < vTxid.length) :
    (traverseAndBuild node vTxid vMatch height pos).2.length ≤
        min ((pos + 1) * 2 ^ height) vTxid.length - pos * 2 ^ height ∧
      (traverseAndBuild node vTxid vMatch height pos).2.length ≤
        (traverseAndBuild node vTxid vMatch height pos).1.length := by
  induction height generalizing pos with
  | zero =>
    simp [traverseAndBuild]
    omega
  | succ height ih =>
    have hpow := Nat.two_pow_pos height
    rw [Nat.pow_succ', ← mul_assoc] at hpos
    have hl := ih hpos
    have hr := @ih (pos * 2 + 1)
    rw [traverseAndBuild]
    simp only [Nat.pow_succ', ← mul_assoc, Nat.add_mul, one_mul, lt_calcTreeWidth] at hl hr ⊢
    split
    · simp
      omega
    · split <;> simp <;> omega

/-- What is built below a node is read back as the node's hash and its matches. -/
theorem traverseAndExtract_traverseAndBuild (hinj : Injective2 node) (hnodup : vTxid.Nodup)
    (hpos : pos * 2 ^ height < vTxid.length) (vBits : List Bool) (vHash : List H) :
    traverseAndExtract node vTxid.length height pos
        ((traverseAndBuild node vTxid vMatch height pos).1 ++ vBits)
        ((traverseAndBuild node vTxid vMatch height pos).2 ++ vHash) =
      some (calcHash node vTxid height pos, vBits, vHash,
        (matchesBelow vTxid.length vMatch height pos).map fun p => (vTxid.getD p 0, p)) := by
  induction height generalizing pos vBits vHash with
  | zero =>
    simp only [pow_zero, mul_one] at hpos
    cases h : vMatch[pos]?.getD false <;>
      simp [traverseAndBuild, traverseAndExtract, matchesBelow, calcHash, hpos, h]
  | succ height ih =>
    rw [Nat.pow_succ', ← mul_assoc] at hpos
    rw [traverseAndBuild]
    split
    case isTrue h => simp [traverseAndExtract, h]
    case isFalse h =>
      simp only [cons_append, append_assoc, traverseAndExtract, ih hpos, Option.bind_eq_bind,
        Option.bind_some, calcHash, matchesBelow_succ]
      split
      case isTrue hright =>
        have hright' := lt_calcTreeWidth.mp hright
        have hne : ¬ calcHash node vTxid height (pos * 2 + 1) =
            calcHash node vTxid height (pos * 2) := fun heq => by
          have := pos_eq_of_calcHash_eq hinj hnodup hright' hpos heq
          omega
        simp only [ih hright', Option.bind_some, if_neg hne, map_append]
      case isFalse hright => simp [matchesBelow_eq_nil hright]

/-- The tree of a block comes back from its bytes as the block's merkle root and
the matched ids with their positions. -/
theorem extractMatches_build (hinj : Injective2 node) (hne : vTxid ≠ []) (hnodup : vTxid.Nodup)
    (hsize : vTxid.length ≤ maxBlockSize / 60) :
    (build node vTxid vMatch).received.extractMatches node =
      some ((computeMerkleRoot node vTxid).1,
        ((range vTxid.length).filter fun p => vMatch.getD p false).map
          fun p => (vTxid.getD p 0, p)) := by
  have hn := length_pos_iff.mpr hne
  have hpos : 0 * 2 ^ treeHeight vTxid.length < vTxid.length := by omega
  have hlen := @length_hashes H _ node vTxid vMatch _ _ hpos
  have hmatches := matchesBelow_treeHeight vMatch hn
  rw [Tree.extractMatches, if_neg, Tree.received]
  · simp only [build, bytesToBits_bitsToBytes]
    rw [← append_nil (traverseAndBuild node vTxid vMatch _ 0).2,
      traverseAndExtract_traverseAndBuild hinj hnodup hpos, hmatches,
      calcHash_treeHeight node vTxid hne]
    simp
    omega
  · simp [build, Tree.received, bytesToBits_bitsToBytes, hne]
    omega

theorem extractMatches_build_three :
    (build Term.node [.leaf 1, .leaf 2, .leaf 3] [false, false, true]).received.extractMatches
        Term.node =
      some (.node (.node (.leaf 1) (.leaf 2)) (.node (.leaf 3) (.leaf 3)), [(.leaf 3, 2)]) :=
  (extractMatches_build (fun _ _ _ _ h => Term.node.inj h) (by simp) (by decide)
    (by decide)).trans (by simp [computeMerkleRoot, merkleLoop, parents, range_succ])

end RoundTrip

/-! ## Any tree with the root of a block -/

section Soundness

variable {node} {vTxid : List H}

omit [DecidableEq H] in
theorem eq_calcHash (hinj : Injective2 node) (hleaf : ∀ a ∈ vTxid, ∀ b c, a ≠ node b c)
    {height pos : Nat} {left right : H} (hpos : pos * 2 ^ height < vTxid.length)
    (h : node left right = calcHash node vTxid height pos) :
    ∃ k, height = k + 1 ∧ left = calcHash node vTxid k (pos * 2) ∧ (right = left ∨
      (pos * 2 + 1) * 2 ^ k < vTxid.length ∧ right = calcHash node vTxid k (pos * 2 + 1)) := by
  cases height with
  | zero =>
    rw [pow_zero, mul_one] at hpos
    rw [calcHash, getD_eq_getElem?_getD, getElem?_eq_getElem hpos, Option.getD_some] at h
    exact absurd h.symm (hleaf _ (getElem_mem hpos) _ _)
  | succ k =>
    obtain ⟨hl, hr⟩ := hinj h
    refine ⟨k, rfl, hl, ?_⟩
    split at hr
    case isTrue hlt => exact .inr ⟨lt_calcTreeWidth.mp hlt, hr⟩
    case isFalse => exact .inl (hr.trans hl.symm)

theorem traverseAndExtract_genuine (hinj : Injective2 node)
    (hleaf : ∀ a ∈ vTxid, ∀ b c, a ≠ node b c) {n height height' pos : Nat}
    {vBits vBits' : List Bool} {vHash vHash' : List H} {vMatch : List (H × Nat)}
    (hpos : pos * 2 ^ height < vTxid.length)
    (h : traverseAndExtract node n height' pos vBits vHash =
      some (calcHash node vTxid height pos, vBits', vHash', vMatch)) :
    ∀ m ∈ vMatch, vTxid[m.2]? = some m.1 ∨ height' ≠ height ∧
      ∃ k p, p * 2 ^ (k + 1) < vTxid.length ∧ m.1 = calcHash node vTxid (k + 1) p := by
  induction height' generalizing height pos vBits vBits' vHash vHash' vMatch with
  | zero =>
    match vBits, vHash with
    | fParentOfMatch :: _, hash :: _ =>
      simp only [traverseAndExtract, Option.some.injEq, Prod.mk.injEq] at h
      obtain ⟨rfl, -, -, rfl⟩ := h
      cases fParentOfMatch with
      | false => simp
      | true =>
        -- a leaf of the tree: an id of the block where the block's node is a leaf too
        cases height with
        | zero => simp_all [calcHash]
        | succ height =>
          intro m hm
          rw [if_pos rfl, mem_singleton] at hm
          exact .inr ⟨by omega, height, pos, hpos, by rw [hm]⟩
  | succ height' ih =>
    match vBits, vHash with
    | false :: _, hash :: _ =>
      simp only [traverseAndExtract, Option.some.injEq, Prod.mk.injEq] at h
      simp [← h.2.2.2]
    | true :: vBits, vHash =>
      simp only [traverseAndExtract, Option.bind_eq_bind, Option.bind_eq_some_iff] at h
      obtain ⟨⟨left, vBits₁, vHash₁, vMatch₁⟩, hl, h⟩ := h
      split at h
      case isTrue hright =>
        simp only [Option.bind_eq_some_iff] at h
        obtain ⟨⟨right, vBits₂, vHash₂, vMatch₂⟩, hr, h⟩ := h
        split at h
        case isTrue => cases h
        case isFalse hne =>
          simp only [Option.some.injEq, Prod.mk.injEq] at h
          obtain ⟨hnode, -, -, rfl⟩ := h
          obtain ⟨height, rfl, rfl, heq | ⟨hpos', rfl⟩⟩ := eq_calcHash hinj hleaf hpos hnode
          · exact absurd heq hne
          · intro m hm
            rw [mem_append] at hm
            cases hm with
            | inl hm => simpa using ih (by rwa [Nat.pow_succ', ← mul_assoc] at hpos) hl m hm
            | inr hm => simpa using ih hpos' hr m hm
      case isFalse =>
        simp only [Option.some.injEq, Prod.mk.injEq] at h
        obtain ⟨hnode, -, -, rfl⟩ := h
        obtain ⟨height, rfl, rfl, -⟩ := eq_calcHash hinj hleaf hpos hnode
        simpa using ih (by rwa [Nat.pow_succ', ← mul_assoc] at hpos) hl

/-- Whatever its count, bits and hashes, a tree with the merkle root of a block
matches only ids of the block at their positions, and, where its count gives
another height, inner nodes of the block's tree. -/
theorem extractMatches_genuine (hinj : Injective2 node) (hne : vTxid ≠ [])
    (hleaf : ∀ a ∈ vTxid, ∀ b c, a ≠ node b c) {tree : Tree H} {vMatch : List (H × Nat)}
    (h : tree.extractMatches node = some ((computeMerkleRoot node vTxid).1, vMatch)) :
    ∀ m ∈ vMatch, vTxid[m.2]? = some m.1 ∨
      treeHeight tree.nTransactions ≠ treeHeight vTxid.length ∧
        ∃ k p, p * 2 ^ (k + 1) < vTxid.length ∧ m.1 = calcHash node vTxid (k + 1) p := by
  rw [Tree.extractMatches] at h
  split at h
  case isTrue => cases h
  simp only [Option.bind_eq_bind, Option.bind_eq_some_iff] at h
  obtain ⟨⟨root, vBits, vHash, vMatch'⟩, hextract, h⟩ := h
  split at h
  case isTrue => cases h
  obtain ⟨rfl, rfl⟩ := Prod.mk.inj (Option.some.inj h)
  rw [← calcHash_treeHeight node vTxid hne] at hextract
  have := length_pos_iff.mpr hne
  exact traverseAndExtract_genuine hinj hleaf (by omega) hextract

/-- With the count one, the root of two ids is itself a match. -/
theorem extractMatches_genuine_root : ∃ tree : Tree Term,
    tree.extractMatches Term.node = some ((computeMerkleRoot Term.node [.leaf 1, .leaf 2]).1,
      [(.node (.leaf 1) (.leaf 2), 0)]) ∧ treeHeight tree.nTransactions ≠ treeHeight 2 := by
  have h : Tree.extractMatches Term.node ⟨1, [true], [.node (.leaf 1) (.leaf 2)]⟩ =
      some ((computeMerkleRoot Term.node [.leaf 1, .leaf 2]).1,
        [(.node (.leaf 1) (.leaf 2), 0)]) := by
    have hheight : treeHeight 1 = 0 := (Nat.find_eq_zero _).mpr (by decide)
    simp [computeMerkleRoot, merkleLoop, parents, Tree.extractMatches, hheight,
      traverseAndExtract, maxBlockSize]
  refine ⟨_, h, ?_⟩
  have hmatch := extractMatches_genuine (fun _ _ _ _ h => Term.node.inj h) (by simp) (by simp) h
    _ (mem_singleton.mpr rfl)
  rcases hmatch with hid | ⟨hheight, -⟩
  · simp at hid
  · exact hheight

end Soundness

end KorshCore.PartialMerkleTree

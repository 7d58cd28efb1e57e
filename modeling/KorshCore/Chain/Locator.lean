import KorshCore.Chain.CommonAncestor

/-!
# Block locators

`CChain::GetLocator` of `chain.cpp`, with which a node tells another one where
its chain is, and `FindForkInGlobalIndex` of `validation.cpp`, with which the
other one finds where it left its own.
-/

namespace KorshCore.CChain

open CBlockIndex

/-- The loop of `GetLocator`: the blocks from `pindex` on whose hashes are
pushed to a `vHave` of the given size. The turns are at most as many as there
are blocks. From height `2 ^ 30 + 10` on the last `nStep *= 2` overflows the `int`
of the source; below `2 ^ 31` its value is not used. -/
def locatorLoop (chain : CChain) (pskip : CBlockIndex → Option CBlockIndex) :
    (fuel nStep size : Nat) → Option CBlockIndex → List CBlockIndex
  | fuel + 1, nStep, size, some pindex =>
    if pindex.nHeight = 0 then [pindex]
    else
      let nHeight := pindex.nHeight - nStep
      let next := if chain.contains pindex then chain.vChain[nHeight]?
        else pindex.getAncestorBySkips pskip nHeight
      pindex :: locatorLoop chain pskip fuel (if 10 < size + 1 then nStep * 2 else nStep)
        (size + 1) next
  | _, _, _, _ => []

def getLocator (chain : CChain) (pskip : CBlockIndex → Option CBlockIndex)
    (pindex : Option CBlockIndex) : List Uint256 :=
  let start := pindex <|> chain.tip
  (chain.locatorLoop pskip (start.elim 0 (·.nHeight + 1)) 1 0 start).map (·.hash)

def findForkInGlobalIndex (chain : CChain) (lookupBlockIndex : Uint256 → Option CBlockIndex) :
    List Uint256 → Option CBlockIndex
  | [] => chain.vChain[0]?
  | blockHash :: vHave =>
    match lookupBlockIndex blockHash with
    | some pindex =>
      if chain.contains pindex then some pindex
      else findForkInGlobalIndex chain lookupBlockIndex vHave
    | none => findForkInGlobalIndex chain lookupBlockIndex vHave

/-- `MAX_LOCATOR_SZ`: a peer that sends more hashes is disconnected. -/
def maxLocatorSz : Nat := 101

variable {chain : CChain} (own : CChain) {pskip : CBlockIndex → Option CBlockIndex}
  {pindex tip : CBlockIndex} (fuel nStep size : Nat)

/-- Both ways to step back lead to the ancestor. -/
theorem locatorLoop_succ (hskips : ∀ n, SkipsBelow pskip n) (hpos : pindex.nHeight ≠ 0) :
    own.locatorLoop pskip (fuel + 1) nStep size (some pindex) =
      pindex :: own.locatorLoop pskip fuel (if 10 < size + 1 then nStep * 2 else nStep) (size + 1)
        (pindex.getAncestor ((pindex.nHeight - nStep : Nat) : Int)) := by
  rw [locatorLoop, if_neg hpos]
  dsimp only
  rw [getAncestorBySkips_eq_of_skips (hskips _) le_rfl]
  by_cases hon : own.contains pindex = true
  · rw [if_pos hon, own.linked]
    cases htip : own.tip with
    | none => simp [contains, own.linked, htip] at hon
    | some tip =>
      rw [contains_iff htip, OnChain] at hon
      rw [Option.bind_some, getAncestor_eq_of_le hon (by omega)]
  · rw [if_neg hon]

theorem length_locatorLoop_le (hskips : ∀ n, SkipsBelow pskip n) (k : Nat) (hstep : 1 ≤ nStep)
    (hk : pindex.nHeight ≤ nStep * (2 ^ k - 1)) :
    (own.locatorLoop pskip fuel nStep size (some pindex)).length ≤ 10 - size + k + 1 := by
  induction fuel generalizing nStep size pindex k with
  | zero => simp [locatorLoop]
  | succ fuel ih =>
    by_cases hzero : pindex.nHeight = 0
    · simp [locatorLoop, hzero]
    rw [locatorLoop_succ own fuel nStep size hskips hzero, List.length_cons]
    obtain ⟨next, hnext⟩ := exists_getAncestor (Nat.sub_le pindex.nHeight nStep)
    have hheight := nHeight_of_getAncestor hnext
    rw [hnext]
    split
    case isTrue hdouble =>
      cases k with
      | zero => simp at hk; omega
      | succ k =>
        have hsum : nStep * (2 ^ (k + 1) - 1) = nStep + nStep * 2 * (2 ^ k - 1) := by
          obtain ⟨n, hn⟩ := Nat.exists_eq_succ_of_ne_zero (Nat.two_pow_pos k).ne'
          rw [pow_succ, hn, mul_assoc, ← mul_one_add]
          congr 1
          omega
        have := @ih next (nStep * 2) (size + 1) k (by omega) (by omega)
        omega
    case isFalse =>
      have := @ih next nStep (size + 1) k hstep (by omega)
      omega

theorem exists_fork_locatorLoop (hskips : ∀ n, SkipsBelow pskip n) {b c first : CBlockIndex}
    {lookupBlockIndex : Uint256 → Option CBlockIndex} (htip : chain.tip = some tip)
    (hfirst : tip.getAncestor 0 = some first) (hpindex : pindex.getAncestor 0 = some first)
    (hlookup : ∀ d, pindex.OnChain d → lookupBlockIndex d.hash = some d ∨
      lookupBlockIndex d.hash = none ∧ ¬ tip.OnChain d)
    (hc : IsHighest tip.OnChain pindex c) (hb : pindex.OnChain b) (hfuel : b.nHeight < fuel)
    (hone : 1 ≤ nStep) (hstep : nStep ≤ pindex.nHeight - b.nHeight + 1 ∨ b.nHeight = 0)
    (hdepth : pindex.nHeight - b.nHeight ≤ 2 * (pindex.nHeight - c.nHeight)) :
    ∃ f, chain.findForkInGlobalIndex lookupBlockIndex
        ((own.locatorLoop pskip fuel nStep size (some b)).map (·.hash)) = some f ∧
      pindex.OnChain f ∧ tip.OnChain f ∧
      pindex.nHeight - f.nHeight ≤ 2 * (pindex.nHeight - c.nHeight) := by
  induction fuel generalizing nStep size b with
  | zero => omega
  | succ fuel ih =>
    have hpos : ¬ tip.OnChain b → b.nHeight ≠ 0 := by
      intro hnot hzero
      rw [OnChain, hzero, Nat.cast_zero, hpindex] at hb
      exact hnot (by rw [OnChain, hzero, Nat.cast_zero, hfirst, hb])
    by_cases hon : tip.OnChain b
    · have hknown : lookupBlockIndex b.hash = some b :=
        (hlookup b hb).resolve_right fun h => h.2 hon
      refine ⟨b, ?_, hb, hon, hdepth⟩
      by_cases hzero : b.nHeight = 0
      · simp [locatorLoop, hzero, findForkInGlobalIndex, hknown, (contains_iff htip).mpr hon]
      · simp [locatorLoop_succ own fuel nStep size hskips hzero, findForkInGlobalIndex, hknown,
          (contains_iff htip).mpr hon]
    · -- the fork is below, so the next step goes at most as far again as the steps before
      have hlt : c.nHeight < b.nHeight := by
        by_contra hle
        have hcb := (onChain_getAncestor hc.1.2 (not_lt.mp hle)).mp hb
        exact hon ((onChain_getAncestor hc.1.1 (not_lt.mp hle)).mpr hcb)
      obtain ⟨next, hnext⟩ := exists_getAncestor (Nat.sub_le b.nHeight nStep)
      have hheight := nHeight_of_getAncestor hnext
      have hle := hb.le
      have hnextOn : pindex.OnChain next := by
        rw [OnChain, hheight]
        exact getAncestor_trans hb hnext
      have hzero := hpos hon
      obtain ⟨f, hfork, hf⟩ := ih (if 10 < size + 1 then nStep * 2 else nStep) (size + 1) hnextOn
        (by omega) (by split <;> omega) (by split <;> omega) (by omega)
      refine ⟨f, ?_, hf⟩
      rw [locatorLoop_succ own fuel nStep size hskips (hpos hon), hnext, List.map_cons,
        findForkInGlobalIndex, hfork]
      obtain hknown | ⟨hknown, -⟩ := hlookup b hb
      · simp [hknown, mt (contains_iff htip).mp hon]
      · simp [hknown]

/-- A peer that has the genesis block in common finds in the locator of a block
a common block that is at most twice as deep as the highest one. -/
theorem findFork_getLocator {genesis : Uint256} {tree : SkipTree} (hbuilt : tree.Built genesis)
    {c : CBlockIndex} {lookupBlockIndex : Uint256 → Option CBlockIndex}
    (htip : chain.tip = some tip) (hgenesis : tip.getAncestor 0 = some ⟨genesis, []⟩)
    (hpindex : pindex ∈ tree.blocks)
    (hlookup : ∀ d, pindex.OnChain d → lookupBlockIndex d.hash = some d ∨
      lookupBlockIndex d.hash = none ∧ ¬ tip.OnChain d)
    (hc : IsHighest tip.OnChain pindex c) :
    ∃ f, chain.findForkInGlobalIndex lookupBlockIndex (own.getLocator tree.pskip (some pindex)) =
        some f ∧ pindex.OnChain f ∧ tip.OnChain f ∧
      pindex.nHeight - f.nHeight ≤ 2 * (pindex.nHeight - c.nHeight) :=
  exists_fork_locatorLoop own _ _ _ hbuilt.skipsBelow htip hgenesis
    (hbuilt.genesis_of_mem hpindex) hlookup hc (getAncestor_self pindex)
    (Nat.lt_succ_self _) le_rfl (.inl (by omega)) (by omega)

/-- A peer that has only the genesis block finds it. -/
theorem findFork_getLocator_genesis : ∃ (chain : CChain) (tree : SkipTree) (f : CBlockIndex),
    chain.findForkInGlobalIndex (fun hash => if hash = 1 then some ⟨1, []⟩ else none)
      (chain.getLocator tree.pskip (some ⟨2, [1]⟩)) = some f ∧ f.nHeight = 0 := by
  have hbuilt := (@SkipTree.Built.start 1).append (.head _) 2
  let chain : CChain := ⟨[⟨1, []⟩], some ⟨1, []⟩, fun h => by
    cases h with
    | zero => rfl
    | succ h => simp [getAncestor, nHeight]⟩
  have hc : IsHighest (OnChain ⟨1, []⟩) ⟨2, [1]⟩ ⟨1, []⟩ :=
    ⟨⟨rfl, rfl⟩, fun d hd _ => hd.le⟩
  have hlookup : ∀ d, OnChain ⟨2, [1]⟩ d →
      (if d.hash = 1 then some ⟨1, []⟩ else none) = some d ∨
      (if d.hash = 1 then some (⟨1, []⟩ : CBlockIndex) else none) = none ∧ ¬ OnChain ⟨1, []⟩ d := by
    intro d hd
    by_cases hne : d = ⟨2, [1]⟩
    · subst hne
      exact .inr ⟨rfl, fun h => absurd h.le (by decide)⟩
    · have heq := ((onChain_pprev rfl hne).mp hd).eq_of_le (Nat.zero_le _)
      subst heq
      exact .inl rfl
  obtain ⟨f, hf, -, hon, -⟩ := @findFork_getLocator chain chain _ _ 1 _ hbuilt _
    (fun hash => if hash = 1 then some ⟨1, []⟩ else none) rfl rfl (.head _) hlookup hc
  exact ⟨chain, _, f, hf, Nat.le_zero.mp hon.le⟩

/-- No peer disconnects a node for the length of its locators. -/
theorem length_getLocator_le {genesis : Uint256} {tree : SkipTree} (hbuilt : tree.Built genesis)
    (hheight : pindex.nHeight < 2 ^ 31) :
    (own.getLocator tree.pskip (some pindex)).length ≤ maxLocatorSz := by
  have hle := length_locatorLoop_le own (pindex.nHeight + 1) 1 0 hbuilt.skipsBelow 31 le_rfl
    (by omega : pindex.nHeight ≤ 1 * (2 ^ 31 - 1))
  rw [getLocator, List.length_map]
  exact hle.trans (by decide)

/-- From a block at height 30, where the steps have become longer than one block. -/
theorem length_getLocator_le_line : (SkipTree.line 30).2.nHeight = 30 ∧ ∀ own : CChain,
    (own.getLocator (SkipTree.line 30).1.pskip (some (SkipTree.line 30).2)).length
      ≤ maxLocatorSz :=
  ⟨by decide +kernel, fun own =>
    length_getLocator_le own (SkipTree.built_line 30).1 (by decide +kernel)⟩

end KorshCore.CChain

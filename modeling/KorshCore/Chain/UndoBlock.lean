import KorshCore.Chain.UndoTransactions

/-!
# Undoing a block

`DisconnectBlock` on the view that `ConnectBlock` left, with the undo data of
the block.
-/

namespace KorshCore

open Except IncrementalMerkleTree CTransaction List Function OutputDescription

variable {env : ChainEnv} {ctx : ConnectContext} {tx : CTransaction} {view view' : ChainView}

/-! ## Anchors -/

def CTransaction.commitments (tx : CTransaction) : List Uint256 :=
  if tx.hasShieldedPayload then tx.sapData.vShieldedOutput.map cmu
  else []

def commitmentsOf (txs : List CTransaction) : List Uint256 :=
  txs.flatMap CTransaction.commitments

def treeOfCommitments (env : ChainEnv) (leaves : List Uint256) :
    Except TreeError IncrementalMerkleTree :=
  IncrementalMerkleTree.appendAll env.coins.hash saplingTreeDepth leaves

variable {tree : IncrementalMerkleTree} {done : List Uint256}

theorem appendOutputs_tree (h : treeOfCommitments env done = .ok tree)
    (outputs : List OutputDescription) :
    appendOutputs env tree outputs = treeOfCommitments env (done ++ outputs.map cmu) := by
  unfold treeOfCommitments appendAll at *
  rw [foldlM_append, h, ok_bind, foldlM_map]
  rfl

theorem CTransaction.commitments_of_makesRoot (h : tx.makesRoot = true) :
    tx.commitments = tx.sapData.vShieldedOutput.map cmu ∧ tx.commitments ≠ [] := by
  obtain ⟨hpayload, houtputs⟩ := Bool.and_eq_true_iff.mp h
  have heq : tx.commitments = tx.sapData.vShieldedOutput.map cmu := if_pos hpayload
  refine ⟨heq, fun hnil => ?_⟩
  rw [heq, map_eq_nil_iff] at hnil
  simp [hnil] at houtputs

theorem CTransaction.commitments_of_not_makesRoot (h : tx.makesRoot = false) :
    tx.commitments = [] := by
  unfold commitments
  split_ifs with hpayload
  · rw [makesRoot, hpayload] at h
    simpa using h
  · rfl

theorem leafCount_lt_of_append {done new : List Uint256}
    {tree tree' : IncrementalMerkleTree} (h : treeOfCommitments env done = .ok tree)
    (h' : treeOfCommitments env (done ++ new) = .ok tree') (hne : new ≠ []) :
    tree.leafCount < tree'.leafCount := by
  have hcount := leafCount_of_appendAll (by decide) h
  have hcount' := leafCount_of_appendAll (by decide) h'
  have hpos := length_pos_iff.mpr hne
  rw [hcount', length_append]
  omega

def DistinctRoots (env : ChainEnv) (leaves : List Uint256) : Prop :=
  ∀ i j t₁ t₂, treeOfCommitments env (leaves.take i) = .ok t₁ →
    treeOfCommitments env (leaves.take j) = .ok t₂ →
    t₁.root env.coins.hash = t₂.root env.coins.hash → t₁ = t₂

variable {nHeight : Nat}

theorem appends_of_updateCoins {txundo : CTxUndo}
    (h : updateCoins env nHeight tx view = .ok (txundo, view'))
    (hmakes : tx.makesRoot = true) : ∃ tree tree',
      view.anchors.anchors view.anchors.best = some tree ∧
      appendOutputs env tree tx.sapData.vShieldedOutput = .ok tree' ∧
      view'.anchors = (flatAnchors env.coins (.pushAnchor tree') view.anchors).2 := by
  have hanchors := (updated_of_updateCoins h).anchors
  obtain ⟨⟨vprevout, view₁⟩, hspend, view₂, hsapling, -⟩ := bind₂_eq_ok_iff.mp h
  obtain ⟨-, -, hanchors₁⟩ := spendInputs_view hspend
  obtain ⟨-, -, hanchors₂⟩ := calls_addCoin env
    (env.getHash tx) (outputCoin tx nHeight) tx.isCoinBase tx.vout 0 view₁
  have hmakes' := hmakes
  obtain ⟨hpayload, houtputs⟩ := Bool.and_eq_true_iff.mp hmakes'
  rw [updateSapling, if_pos hpayload, pushOutputs, if_neg (by simpa using houtputs)] at hsapling
  obtain ⟨tree, htree, tree', happend, -⟩ := bind₂_eq_ok_iff.mp hsapling
  have happend := mapError_eq_ok_iff.mp happend
  have htree : (addCoins env tx nHeight view₁).anchors.anchors
      (addCoins env tx nHeight view₁).anchors.best = some tree :=
    ofOption_eq_ok_iff.mp htree
  have hsame : (addCoins env tx nHeight view₁).anchors = view.anchors := hanchors₂.trans hanchors₁
  rw [hsame] at htree
  refine ⟨tree, tree', htree, happend, ?_⟩
  rw [hanchors, anchorsAfter]
  rw [show (tx.hasShieldedPayload && !tx.sapData.vShieldedOutput.isEmpty) = true
    from hmakes, if_pos rfl, htree]
  dsimp only
  rw [happend]

theorem anchorsAfter_of_not_makesRoot {anchors : FlatAnchors}
    (h : tx.makesRoot = false) : anchorsAfter env anchors tx = anchors := by
  rw [anchorsAfter, show (tx.hasShieldedPayload && !tx.sapData.vShieldedOutput.isEmpty)
    = false from h]
  rfl

variable {entries : List (Option CTxUndo)} {txs : List CTransaction}

theorem Undoable.roots (h : Undoable env nHeight txs view entries view')
    (hdone : treeOfCommitments env done = .ok tree)
    (hdistinct : DistinctRoots env (done ++ commitmentsOf txs))
    (hknown : view.anchors.anchors view.anchors.best = some tree)
    (hroot : tree.root env.coins.hash = view.anchors.best) :
    let roots := newRoots env view.anchors txs
    saplingRootsInBlock env tree txs = .ok roots ∧
      view'.anchors.best = roots.getLastD view.anchors.best ∧
      (∀ rt, rt ∉ roots → view'.anchors.anchors rt = view.anchors.anchors rt) ∧
      ∀ rt ∈ roots, (view'.anchors.anchors rt).isSome = true := by
  induction h generalizing done tree with
  | nil view =>
    exact ⟨rfl, rfl, fun _ _ => rfl, fun _ h => absurd h not_mem_nil⟩
  | @cons tx txs view view₁ view₂ txundo entry entries hupdate hundo hrest ih =>
    have happend : done ++ commitmentsOf (tx :: txs)
        = (done ++ tx.commitments) ++ commitmentsOf txs := by
      rw [append_assoc]
      rfl
    have hanchors := (updated_of_updateCoins hupdate).anchors
    rw [happend] at hdistinct
    cases hmakes : tx.makesRoot with
    | false =>
      have hnil := commitments_of_not_makesRoot hmakes
      rw [hnil, append_nil] at hdistinct
      have hsame : view₁.anchors = view.anchors :=
        hanchors.trans (anchorsAfter_of_not_makesRoot hmakes)
      have hrest := ih hdone hdistinct (hsame ▸ hknown) (hsame ▸ hroot)
      rw [saplingRootsInBlock, hmakes, newRoots, ← hanchors, hsame, if_pos rfl]
      rwa [hsame] at hrest
    | true =>
      obtain ⟨tree₀, tree₁, hknown₀, hfirst, hpush⟩ := appends_of_updateCoins hupdate hmakes
      obtain rfl : tree₀ = tree := Option.some.inj (hknown₀.symm.trans hknown)
      obtain ⟨heq, hne⟩ := commitments_of_makesRoot hmakes
      have hdone₁ : treeOfCommitments env (done ++ tx.commitments) = .ok tree₁ := by
        rw [heq, ← appendOutputs_tree hdone, hfirst]
      -- the new tree has more leaves, so its root is another one
      have hnew : view.anchors.best ≠ tree₁.root env.coins.hash := by
        intro hsame
        have hlt := leafCount_lt_of_append hdone hdone₁ hne
        have htrees := hdistinct done.length (done ++ tx.commitments).length tree₀ tree₁
          (by rw [append_assoc, take_left, hdone]) (by rw [take_left, hdone₁]) (hroot.trans hsame)
        rw [htrees] at hlt
        exact lt_irrefl _ hlt
      have hpush : view₁.anchors = ⟨update view.anchors.anchors
          (tree₁.root env.coins.hash) (some tree₁), tree₁.root env.coins.hash⟩ :=
        hpush.trans (if_neg hnew)
      have hbest : view₁.anchors.best = tree₁.root env.coins.hash := congrArg FlatAnchors.best hpush
      have hmap : view₁.anchors.anchors = update view.anchors.anchors
          (tree₁.root env.coins.hash) (some tree₁) := congrArg FlatAnchors.anchors hpush
      obtain ⟨hroots, hlast, hsame, hsome⟩ := ih hdone₁ hdistinct
        (by rw [hmap, hbest, update_self]) hbest.symm
      rw [saplingRootsInBlock, hmakes, newRoots, ← hanchors,
        if_neg (hbest ▸ hnew.symm), hfirst, ok_bind, hroots, hbest]
      refine ⟨rfl, ?_, fun rt hrt => ?_, fun rt hrt => ?_⟩
      · rw [hlast, hbest, getLastD_cons]
      · rw [mem_cons, not_or] at hrt
        rw [hsame rt hrt.2, hmap, update_of_ne hrt.1]
      · by_cases hlater : rt ∈ newRoots env view₁.anchors txs
        · exact hsome rt hlater
        · obtain rfl := (mem_cons.mp hrt).resolve_right hlater
          rw [hsame _ hlater, hmap, update_self]
          rfl

theorem Undoable.nullifiers (h : Undoable env nHeight txs view entries view')
    (nf : Uint256) : view'.nullifiers nf
      = if nf ∈ revealedBy txs then true else view.nullifiers nf := by
  induction h with
  | nil view => rfl
  | @cons tx txs view view₁ view₂ txundo entry entries hupdate hundo hrest ih =>
    have hrevealed : revealedBy (tx :: txs)
        = tx.shieldedSpends.map SpendDescription.nullifier ++ revealedBy txs := rfl
    rw [ih, (updated_of_updateCoins hupdate).nullifiers, hrevealed]
    by_cases hlater : nf ∈ revealedBy txs
    · rw [if_pos hlater, if_pos (mem_append_right _ hlater)]
    · rw [if_neg hlater]
      refine if_congr ?_ rfl rfl
      rw [mem_append, or_iff_left hlater]

end KorshCore

import KorshCore.Chain.Updates

/-!
# Nullifiers and anchors of a chain

`CheckTxInputs` asks `HaveShieldedRequirements` whether the nullifiers of a
transaction are unspent and its anchors known, but an asset unlock returns
before.
-/

namespace KorshCore

open Except List SpendDescription

variable {env : ChainEnv} {ctx : ConnectContext} {tx : CTransaction}
  {view view' : ChainView} {done : List CTransaction} {state state' : Connecting}
  {steps : List ChainStep}

def revealedBy (txs : List CTransaction) : List Uint256 :=
  txs.flatMap fun tx => tx.shieldedSpends.map nullifier

def revealed (steps : List ChainStep) : List Uint256 :=
  steps.flatMap fun step => revealedBy step.block.vtx

/-- The roots that transactions make the best one, in their order. -/
def newRoots (env : ChainEnv) (anchors : FlatAnchors) : List CTransaction → List Uint256
  | [] => []
  | tx :: txs =>
    let after := anchorsAfter env anchors tx
    if after.best = anchors.best then newRoots env after txs
    else after.best :: newRoots env after txs

/-- No asset unlock has Sapling spends, and no spend uses an anchor that its own
block makes. -/
def Guarded (env : ChainEnv) (step : ChainStep) : Prop :=
  (∀ tx ∈ step.block.vtx, tx.isPlatformTransfer = true → tx.shieldedSpends = []) ∧
  ∀ tx ∈ step.block.vtx, ∀ spend ∈ tx.shieldedSpends,
    spend.anchor ∉ newRoots env step.before.anchors step.block.vtx

/-- The anchor of every spend was known in the view before its block. -/
def AnchorsKnown (steps : List ChainStep) : Prop :=
  ∀ step ∈ steps, ∀ tx ∈ step.block.vtx, ∀ spend ∈ tx.shieldedSpends,
    (step.before.anchors.anchors spend.anchor).isSome = true

theorem isSome_anchorsAfter {anchors : FlatAnchors} {rt : Uint256}
    (h : ((anchorsAfter env anchors tx).anchors rt).isSome = true) :
    (anchors.anchors rt).isSome = true ∨ rt = (anchorsAfter env anchors tx).best ∧
        (anchorsAfter env anchors tx).best ≠ anchors.best := by
  unfold anchorsAfter at h ⊢
  cases hpush : tx.hasShieldedPayload && !tx.sapData.vShieldedOutput.isEmpty with
  | false =>
    rw [hpush] at h
    exact .inl h
  | true =>
    rw [hpush] at h
    rw [if_pos rfl]
    cases htree : anchors.anchors anchors.best with
    | none =>
      rw [htree] at h
      exact .inl h
    | some tree =>
      cases happend : appendOutputs env tree tx.sapData.vShieldedOutput with
      | error e =>
        simp only [htree, happend] at h
        exact .inl h
      | ok tree' =>
        simp only [htree, happend, flatAnchors] at h ⊢
        split_ifs at h ⊢ with hsame
        · exact .inl h
        · by_cases hrt : rt = tree'.root env.coins.hash
          · exact .inr ⟨hrt, fun heq => hsame heq.symm⟩
          · dsimp only at h
            rw [Function.update_of_ne hrt] at h
            exact .inl h

theorem isSome_of_newRoots : ∀ {txs : List CTransaction} {anchors : FlatAnchors} {rt : Uint256},
    ((txs.foldl (anchorsAfter env) anchors).anchors rt).isSome = true →
    (anchors.anchors rt).isSome = true ∨ rt ∈ newRoots env anchors txs
  | [], _, _, h => .inl h
  | tx :: txs, anchors, rt, h => by
    have hrest : ((txs.foldl (anchorsAfter env) (anchorsAfter env anchors tx)).anchors
        rt).isSome = true := h
    unfold newRoots
    dsimp only
    rcases isSome_of_newRoots hrest with hknown | hnew
    · rcases isSome_anchorsAfter hknown with hknown | ⟨rfl, hne⟩
      · exact .inl hknown
      · rw [if_neg hne]
        exact .inr mem_cons_self
    · split_ifs
      · exact .inr hnew
      · exact .inr (mem_cons_of_mem _ hnew)

theorem newRoots_append (anchors : FlatAnchors) (txs txs' : List CTransaction) :
    newRoots env anchors (txs ++ txs') = newRoots env anchors txs ++
      newRoots env (txs.foldl (anchorsAfter env) anchors) txs' := by
  induction txs generalizing anchors with
  | nil => rfl
  | cons tx txs ih =>
    rw [cons_append, newRoots, newRoots, ih]
    split_ifs
    · rfl
    · rfl

theorem spends_of_checkTxInputs {assets : AssetEnv} {nHeight : Nat} {fee : Int}
    (h : view.checkTxInputs assets nHeight tx = .ok fee) (hunlock : tx.isPlatformTransfer = false) :
    ∀ spend ∈ tx.shieldedSpends, view.nullifiers spend.nullifier = false ∧
      (view.anchors.anchors spend.anchor).isSome = true := by
  unfold ChainView.checkTxInputs at h
  rw [hunlock] at h
  obtain ⟨_, _, _, hrequired, _⟩ := bind₂_eq_ok_iff.mp h
  have hrequired := require_eq_ok_iff.mp hrequired
  intro spend hspend
  cases hpayload : tx.hasShieldedPayload with
  | false =>
    rw [CTransaction.shieldedSpends_of_not_payload hpayload] at hspend
    cases hspend
  | true =>
    rw [CTransaction.shieldedSpends_of_payload hpayload] at hspend
    unfold ChainView.haveShieldedRequirements at hrequired
    rw [hpayload] at hrequired
    have hspend := all_eq_true.mp hrequired spend hspend
    simpa using hspend

theorem spends_of_addFee {nFees : Int} (h : addFee env ctx state tx = .ok nFees)
    (hchecked : TxChecked tx) (hunlock : tx.isPlatformTransfer = true → tx.shieldedSpends = []) :
    ∀ spend ∈ tx.shieldedSpends, state.view.nullifiers spend.nullifier = false ∧
      (state.view.anchors.anchors spend.anchor).isSome = true := by
  unfold addFee at h
  cases hcoinbase : tx.isCoinBase with
  | true =>
    have hpayload := hchecked.shieldedCoinbase hcoinbase
    rw [CTransaction.shieldedSpends_of_not_payload hpayload]
    intro spend hspend
    cases hspend
  | false =>
    rw [hcoinbase] at h
    obtain ⟨fee, hinputs, _⟩ := bind_eq_ok_iff.mp h
    have hinputs := mapError_eq_ok_iff.mp hinputs
    cases htransfer : tx.isPlatformTransfer with
    | true =>
      rw [hunlock htransfer]
      intro spend hspend
      cases hspend
    | false => exact spends_of_checkTxInputs hinputs htransfer

/-! ## The loop over a block -/

/-- The invariant of the loop that starts at `view`. -/
structure SpendsSound (env : ChainEnv) (view : ChainView) (done : List CTransaction)
    (state : Connecting) : Prop where
  nullifiers : ∀ nf, state.view.nullifiers nf = true ↔
    view.nullifiers nf = true ∨ nf ∈ revealedBy done
  distinct : (revealedBy done).Nodup
  fresh : ∀ nf ∈ revealedBy done, view.nullifiers nf = false
  anchors : state.view.anchors = done.foldl (anchorsAfter env) view.anchors
  known : ∀ tx ∈ done, ∀ spend ∈ tx.shieldedSpends,
    (view.anchors.anchors spend.anchor).isSome = true ∨
      spend.anchor ∈ newRoots env view.anchors done

theorem spendsSound_start (view : ChainView) : SpendsSound env view [] ⟨0, [], view⟩ where
  nullifiers _ := by simp [revealedBy]
  distinct := nodup_nil
  fresh _ h := by cases h
  anchors := rfl
  known _ h := by cases h

theorem revealedBy_concat (txs : List CTransaction) (tx : CTransaction) : revealedBy (txs ++ [tx])
      = revealedBy txs ++ tx.shieldedSpends.map nullifier := by
  simp [revealedBy]

theorem SpendsSound.step (h : SpendsSound env view done state) (hchecked : TxChecked tx)
    (hunlock : tx.isPlatformTransfer = true → tx.shieldedSpends = [])
    (hturn : connectTx env ctx state tx = .ok state') :
    SpendsSound env view (done ++ [tx]) state' := by
  have hupdated := updated_of_connectTx hturn
  have hspends := spends_of_addFee (connectTx_eq_ok hturn).1 hchecked hunlock
  -- what the transaction reveals was not revealed before
  have hnew : ∀ nf ∈ tx.shieldedSpends.map nullifier,
      view.nullifiers nf = false ∧ nf ∉ revealedBy done := by
    intro nf hnf
    obtain ⟨spend, hspend, rfl⟩ := mem_map.mp hnf
    have hunspent := (hspends spend hspend).1
    constructor
    · by_contra hset
      rw [(h.nullifiers _).mpr (.inl (by simpa using hset))] at hunspent
      cases hunspent
    · intro hmem
      rw [(h.nullifiers _).mpr (.inr hmem)] at hunspent
      cases hunspent
  refine ⟨fun nf => ?_, ?_, ?_, ?_, ?_⟩
  · rw [hupdated.nullifiers, revealedBy_concat]
    split_ifs with hnf
    · simp [hnf]
    · rw [h.nullifiers]
      simp [hnf]
  · rw [revealedBy_concat]
    refine nodup_append.mpr ⟨h.distinct, hchecked.nullifiers, ?_⟩
    intro a ha b hb heq
    exact (hnew b hb).2 (heq ▸ ha)
  · intro nf hnf
    rw [revealedBy_concat, mem_append] at hnf
    rcases hnf with hnf | hnf
    · exact h.fresh nf hnf
    · exact (hnew nf hnf).1
  · rw [hupdated.anchors, h.anchors, foldl_append]
    rfl
  · intro tx' htx' spend hspend
    rw [newRoots_append, mem_append]
    rcases mem_append.mp htx' with htx' | htx'
    · exact (h.known tx' htx' spend hspend).imp_right .inl
    · rw [mem_singleton.mp htx'] at hspend
      have hknown := (hspends spend hspend).2
      rw [h.anchors] at hknown
      exact (isSome_of_newRoots hknown).imp_right .inl

theorem spendsSound_of_connectBlock {block : CBlock} {vtxundo : List CTxUndo}
    (hgenesis : block.hash ≠ ctx.hashGenesisBlock)
    (hunlocks : ∀ tx ∈ block.vtx, tx.isPlatformTransfer = true → tx.shieldedSpends = [])
    (h : connectBlock env ctx block view = .ok (vtxundo, view')) :
    ∃ state, SpendsSound env view block.vtx state ∧
      view' = state.view.call env.coins (.setBestBlock block.hash) := by
  obtain ⟨state, hconnected⟩ := connectBlock_eq_ok hgenesis h
  refine ⟨state, ?_, hconnected.view⟩
  refine foldlM_invariant (P := fun done state => SpendsSound env view done state)
    (fun done tx rest _ _ htxs hstate hturn => ?_) (spendsSound_start view)
    hconnected.loop
  have hmem : tx ∈ block.vtx := by simp [htxs]
  exact hstate.step (hconnected.checked.txs tx hmem) (hunlocks tx hmem) hturn

/-- The nullifiers of a chain, as the view and the blocks have them. -/
structure NullifiersSound (steps : List ChainStep) (view : ChainView) : Prop where
  nullifiers : ∀ nf, view.nullifiers nf = true ↔ nf ∈ revealed steps
  distinct : (revealed steps).Nodup
  known : AnchorsKnown steps

theorem NullifiersSound.next {block : CBlock} {vtxundo : List CTxUndo}
    (h : NullifiersSound steps view) (hguarded : Guarded env ⟨ctx, view, block⟩)
    (hgenesis : block.hash ≠ ctx.hashGenesisBlock)
    (hconnect : connectBlock env ctx block view = .ok (vtxundo, view')) :
    NullifiersSound (⟨ctx, view, block⟩ :: steps) view' := by
  obtain ⟨state, hblock, rfl⟩ := spendsSound_of_connectBlock hgenesis hguarded.1 hconnect
  refine ⟨fun nf => ?_, ?_, ?_⟩
  · show state.view.nullifiers nf = true ↔ nf ∈ revealedBy block.vtx ++ revealed steps
    rw [hblock.nullifiers, h.nullifiers, mem_append, or_comm]
  · show (revealedBy block.vtx ++ revealed steps).Nodup
    refine nodup_append.mpr ⟨hblock.distinct, h.distinct, ?_⟩
    intro a ha b hb heq
    have hunset := hblock.fresh a ha
    rw [(h.nullifiers a).mpr (heq ▸ hb)] at hunset
    cases hunset
  · intro step hstep tx htx spend hspend
    rcases mem_cons.mp hstep with rfl | hstep
    · rcases hblock.known tx htx spend hspend with hknown | hnew
      · exact hknown
      · exact absurd hnew (hguarded.2 tx htx spend hspend)
    · exact h.known step hstep tx htx spend hspend

/-- In every chain whose blocks are all guarded, no nullifier is revealed by two
spends, and the anchor of every spend was known in the view on which its block
was connected. -/
theorem nullifiers_distinct_of_guarded {env : ChainEnv} {steps : List ChainStep}
    {view : ChainView} (h : ConnectedChain env steps view)
    (hguarded : ∀ step ∈ steps, Guarded env step) :
    (revealed steps).Nodup ∧ AnchorsKnown steps := by
  have hsound : NullifiersSound steps view := by
    induction h with
    | genesis hash =>
      refine ⟨fun nf => ?_, nodup_nil, ?_⟩
      · simp [revealed, ChainView.new, ChainView.call, flatNullifiers]
      · intro step hstep
        cases hstep
    | next ctx block vtxundo _ hgenesis hconnect ih =>
      refine (ih fun step hstep => hguarded step ?_).next (hguarded _ ?_) hgenesis hconnect
      · exact mem_cons_of_mem _ hstep
      · exact mem_cons_self
  exact ⟨hsound.distinct, hsound.known⟩

/-! ## A chain of two blocks -/

def byteCoinbase (id : UInt8) : CTransaction where
  vin := [⟨⟨0, COutPoint.nullIndex⟩, [1, id], 0⟩]
  vout := [⟨0, [0x51]⟩]
  nVersion := 3
  nType := transactionCoinbase
  nLockTime := 0
  sapData := .default
  vExtraPayload := [id]

def revealingTx (nType : Nat) (nullifier anchor : Uint256) (id : UInt8) : CTransaction where
  vin := []
  vout := [⟨0, [0x51]⟩]
  nVersion := 4
  nType := nType
  nLockTime := 0
  sapData := ⟨0, [⟨0, anchor, nullifier, 0, [], []⟩], [], []⟩
  vExtraPayload := [id]

/-- Transactions are known by one byte, and unlocks pay a fee of one. -/
def byteEnv : ChainEnv where
  getHash tx := BitVec.ofNat 256 ((tx.vExtraPayload.headD 0).toNat)
  coins := CoinsStack.oneEntryEnv
  assets := ⟨fun _ => none, fun _ => some ⟨1, 0, 1, 0, 0, []⟩⟩

def freeContext (nHeight : Nat) (hashPrevBlock : Uint256) : ConnectContext where
  nHeight := nHeight
  hashPrevBlock := hashPrevBlock
  hashGenesisBlock := 9
  fEnforceBIP30 := true
  checkBlock _ := true
  checkScripts _ _ := true
  isBlockValueValid _ _ := true
  isBlockPayeeValid _ _ := true

def byteStart : ChainView :=
  (ChainView.new byteEnv.coins).call byteEnv.coins (.setBestBlock 9)

def revealingBlock (nType : Nat) (nullifier anchor : Uint256) (id : UInt8) : CBlock :=
  ⟨BitVec.ofNat 256 (10 + id.toNat),
    [byteCoinbase id, revealingTx nType nullifier anchor (id + 100)]⟩

/-- Two blocks that reveal the nullifiers 7 and 8. -/
def revealingSteps (view : ChainView) : List ChainStep :=
  [⟨freeContext 2 11, view, revealingBlock 0 8 1 2⟩,
    ⟨freeContext 1 9, byteStart, revealingBlock 0 7 1 1⟩]

theorem nullifiers_distinct_two_blocks : ∃ view₁ view₂,
    ConnectedChain byteEnv (revealingSteps view₁) view₂ ∧
    revealed (revealingSteps view₁) = [8, 7] ∧ (revealed (revealingSteps view₁)).Nodup ∧
    AnchorsKnown (revealingSteps view₁) := by
  have hok : (connectBlock byteEnv (freeContext 1 9) (revealingBlock 0 7 1 1) byteStart
      >>= fun r => connectBlock byteEnv (freeContext 2 11) (revealingBlock 0 8 1 2) r.2).isOk
      = true := by
    decide +kernel
  obtain ⟨⟨undo₂, view₂⟩, h⟩ := exists_of_isOk hok
  obtain ⟨⟨undo₁, view₁⟩, h₁, h₂⟩ := bind_eq_ok_iff.mp h
  have hchain : ConnectedChain byteEnv (revealingSteps view₁) view₂ :=
    .next _ _ undo₂ (.next _ _ undo₁ (.genesis 9) (by decide) h₁) (by decide) h₂
  have hroots (view : ChainView) (nf : Uint256) (id : UInt8) :
      newRoots byteEnv view.anchors (revealingBlock 0 nf 1 id).vtx = [] := by
    simp [newRoots, anchorsAfter, revealingBlock, revealingTx, byteCoinbase, SaplingTxData.default]
  refine ⟨view₁, view₂, hchain, rfl, nullifiers_distinct_of_guarded hchain fun step hstep => ?_⟩
  rcases mem_cons.mp hstep with rfl | hstep
  · refine ⟨?_, fun _ _ _ _ => ?_⟩
    · show ∀ tx ∈ (revealingBlock 0 8 1 2).vtx, tx.isPlatformTransfer = true →
        tx.shieldedSpends = []
      decide +kernel
    · rw [hroots]
      exact not_mem_nil
  · rw [mem_singleton.mp hstep]
    refine ⟨by decide +kernel, fun _ _ _ _ => ?_⟩
    rw [hroots]
    exact not_mem_nil

/-- Two asset unlocks that reveal the same nullifier are both accepted, and
their anchor was never known. -/
theorem nullifier_revealed_twice_by_unlocks : ∃ (steps : List ChainStep) (view : ChainView),
    ConnectedChain byteEnv steps view ∧ ¬ (revealed steps).Nodup ∧ ¬ AnchorsKnown steps := by
  have hok : (connectBlock byteEnv (freeContext 1 9) (revealingBlock 9 7 5 1)
      byteStart).isOk = true := by decide +kernel
  obtain ⟨⟨vtxundo, view⟩, hconnect⟩ := exists_of_isOk hok
  have hok' : (connectBlock byteEnv (freeContext 1 9) (revealingBlock 9 7 5 1) byteStart
      >>= fun r => connectBlock byteEnv (freeContext 2 11) (revealingBlock 9 7 5 2)
        r.2).isOk = true := by decide +kernel
  rw [hconnect, ok_bind] at hok'
  obtain ⟨⟨vtxundo', view'⟩, hconnect'⟩ := exists_of_isOk hok'
  refine ⟨_, view', .next (freeContext 2 11) _ vtxundo' (.next (freeContext 1 9) _ vtxundo
    (.genesis 9) (by decide) hconnect) (by decide) hconnect', ?_, ?_⟩
  · show ¬ (revealedBy (revealingBlock 9 7 5 2).vtx ++
      (revealedBy (revealingBlock 9 7 5 1).vtx ++ [])).Nodup
    decide
  · intro hknown
    have hsome := hknown ⟨freeContext 1 9, byteStart, revealingBlock 9 7 5 1⟩
      (mem_cons_of_mem _ mem_cons_self)
      (revealingTx 9 7 5 101) (by decide) ⟨0, 5, 7, 0, [], []⟩ (by decide)
    revert hsome
    decide +kernel

end KorshCore

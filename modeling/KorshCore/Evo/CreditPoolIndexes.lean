import KorshCore.Evo.CreditPoolRuns

/-!
# The indexes of asset unlocks

What the checks of a connected block say about its asset unlocks, and why no
index is accepted twice: the pool before a block holds the indexes of the
chain, the check against it refuses them, and those of the block are added.

The set of indexes is a `CRangesSet`, which cannot hold the largest number.
-/

namespace KorshCore

open Except CRangesSet
open List (mem_append mem_cons mem_cons_self mem_singleton nodup_append)

namespace CreditPoolEnv

def unlockIndex (env : CreditPoolEnv) (tx : CTransaction) : Option UInt64 :=
  if isAssetUnlock tx then (env.assetUnlock tx).map (·.index) else none

def blockIndexes (env : CreditPoolEnv) (block : CBlock) : List UInt64 :=
  block.vtx.filterMap env.unlockIndex

def unlockIndexes (env : CreditPoolEnv) (index : List CBlock) : List UInt64 :=
  index.flatMap env.blockIndexes

def txUnlocked (env : CreditPoolEnv) (tx : CTransaction) : Int :=
  if isAssetUnlock tx then
    match env.getDataFromUnlockTx tx with
    | .ok (toUnlock, _) => toUnlock
    | .error _ => 0
  else 0

def blockUnlocked (env : CreditPoolEnv) (block : CBlock) : Int :=
  (block.vtx.map env.txUnlocked).sum

variable {env : CreditPoolEnv}

/-! ## The data of an asset unlock -/

section Data

variable {tx : CTransaction}

theorem unlockIndex_of_not (h : isAssetUnlock tx = false) : env.unlockIndex tx = none := by
  simp [unlockIndex, h]

theorem txUnlocked_of_not (h : isAssetUnlock tx = false) : env.txUnlocked tx = 0 := by
  simp [txUnlocked, h]

theorem foldlM_unlockOutputStep_le {vout : List CTxOut} {toUnlock total : Int}
    (h : vout.foldlM unlockOutputStep toUnlock = .ok total) : toUnlock ≤ total := by
  refine foldlM_preserves (P := fun total => toUnlock ≤ total) ?_ le_rfl h
  intro txout b b' _ hb hstep
  unfold unlockOutputStep at hstep
  split_ifs at hstep with hrange
  cases hstep
  simp only [moneyRange, Bool.and_eq_true, decide_eq_true_eq] at hrange
  omega

theorem getDataFromUnlockTx_ok {toUnlock : Int} {index : UInt64}
    (htx : isAssetUnlock tx = true) (h : env.getDataFromUnlockTx tx = .ok (toUnlock, index)) :
    env.unlockIndex tx = some index ∧ env.txUnlocked tx = toUnlock ∧ 0 ≤ toUnlock := by
  have hunlocked : env.txUnlocked tx = toUnlock := by simp [txUnlocked, htx, h]
  obtain ⟨payload, hpayload, total, htotal, h⟩ := bind₂_eq_ok_iff.mp h
  cases h
  have hle := foldlM_unlockOutputStep_le htotal
  refine ⟨?_, hunlocked, by omega⟩
  simp [unlockIndex, htx, ofOption_eq_ok_iff.mp hpayload]

theorem txUnlocked_nonneg (tx : CTransaction) : 0 ≤ env.txUnlocked tx := by
  by_cases htx : isAssetUnlock tx = true
  · cases hdata : env.getDataFromUnlockTx tx with
    | error why => simp [txUnlocked, htx, hdata]
    | ok data =>
      obtain ⟨-, hunlocked, hnonneg⟩ := getDataFromUnlockTx_ok htx hdata
      rw [hunlocked]
      exact hnonneg
  · rw [txUnlocked_of_not (by simpa using htx)]

theorem blockUnlocked_nonneg (block : CBlock) : 0 ≤ env.blockUnlocked block := by
  refine List.sum_nonneg ?_
  intro amount hmem
  obtain ⟨tx, -, rfl⟩ := List.mem_map.mp hmem
  exact txUnlocked_nonneg tx

end Data

/-! ## The data of a block -/

theorem foldlM_blockDataStep {txs : List CTransaction} {balance : Int}
    {data : CreditPoolDataPerBlock} (h : txs.foldlM env.blockDataStep ⟨balance, 0, []⟩ = .ok data) :
    data.creditPool = balance ∧ data.unlocked = (txs.map env.txUnlocked).sum ∧ data.indexes.Nodup ∧
      ∀ i, i ∈ data.indexes ↔ i ∈ txs.filterMap env.unlockIndex := by
  refine foldlM_invariant (P := fun done data => data.creditPool = balance ∧
    data.unlocked = (done.map env.txUnlocked).sum ∧ data.indexes.Nodup ∧
    ∀ i, i ∈ data.indexes ↔ i ∈ done.filterMap env.unlockIndex) ?_ ?_ h
  · rintro done tx rest data data' - ⟨hbalance, hunlocked, hnodup, hindexes⟩ hstep
    unfold blockDataStep at hstep
    by_cases htx : isAssetUnlock tx = true
    · rw [if_neg (by simp [htx])] at hstep
      obtain ⟨⟨toUnlock, index⟩, hdata, hstep⟩ := bind_eq_ok_iff.mp hstep
      obtain ⟨hindex, hamount, -⟩ := getDataFromUnlockTx_ok htx (mapError_eq_ok_iff.mp hdata)
      cases hstep
      refine ⟨hbalance, ?_, ?_, fun i => ?_⟩
      · simp [hunlocked, hamount]
      · split_ifs with hmem
        · exact hnodup
        · exact nodup_append.mpr ⟨hnodup, List.nodup_singleton _,
            fun a ha b hb heq => hmem (by rwa [← mem_singleton.mp hb, ← heq])⟩
      · rw [List.filterMap_append, mem_append, ← hindexes]
        have hone : [tx].filterMap env.unlockIndex = [index] := by simp [hindex]
        rw [hone]
        split_ifs with hmem
        · constructor
          · exact Or.inl
          · rintro (h | h)
            · exact h
            · rwa [mem_singleton.mp h]
        · exact mem_append
    · have hnot : isAssetUnlock tx = false := by simpa using htx
      rw [if_pos (by simp [hnot])] at hstep
      cases hstep
      refine ⟨hbalance, ?_, hnodup, fun i => ?_⟩
      · simp [hunlocked, txUnlocked_of_not hnot]
      · rw [hindexes]
        simp [unlockIndex_of_not hnot]
  · simp

theorem foldlM_addIndexStep {indexes : List UInt64} (hnodup : indexes.Nodup)
    (hmax : maxValue ∉ indexes) : ∀ {s : CRangesSet}, s.Canonical → (∀ i ∈ indexes, ¬ s.Mem i) →
    ∃ s', indexes.foldlM addIndexStep s = .ok s' ∧ s'.Canonical ∧
      ∀ i, s'.Mem i ↔ i ∈ indexes ∨ s.Mem i := by
  induction indexes with
  | nil =>
    intro s hs _
    exact ⟨s, rfl, hs, fun i => by simp⟩
  | cons index indexes ih =>
    intro s hs hnew
    rw [List.nodup_cons] at hnodup
    rw [mem_cons, not_or] at hmax
    obtain ⟨s₁, hadd, hs₁, hmem₁⟩ := exists_add hs (Ne.symm hmax.1) (hnew index mem_cons_self)
    have hnew₁ : ∀ i ∈ indexes, ¬ s₁.Mem i := by
      intro i hi hmem
      rcases (hmem₁ i).mp hmem with rfl | hmem
      · exact hnodup.1 hi
      · exact hnew i (List.mem_cons_of_mem _ hi) hmem
    obtain ⟨s', hfold, hs', hmem'⟩ := ih hnodup.2 hmax.2 hs₁ hnew₁
    refine ⟨s', ?_, hs', fun i => ?_⟩
    · rw [List.foldlM_cons, addIndexStep, hadd]
      exact hfold
    · rw [hmem', hmem₁, mem_cons]
      tauto

/-! ## What a connected block has passed -/

section Passed

variable {checks : BlockChecks} {fCheck : Bool} {block : CBlock} {prev : List CBlock}

variable {tx : CTransaction}

theorem isAssetUnlock_iff : isAssetUnlock tx = true ↔
    tx.isSpecialTxVersion = true ∧ tx.nType = transactionAssetUnlock := by
  simp [isAssetUnlock]

theorem nHeight_cons (hprev : prev ≠ []) : nHeight (block :: prev) = nHeight prev + 1 := by
  have := List.length_pos_iff.mpr hprev
  simp only [nHeight, List.length_cons]
  omega

theorem checkBlockTxs_ok (h : env.checkBlockTxs block prev = .ok ()) :
    ∃ coinbase txs, block.vtx = coinbase :: txs ∧ coinbase.isCoinBase = true ∧
      ∀ tx ∈ block.vtx, env.checkTxType (block :: prev) tx = .ok () := by
  obtain ⟨_, hcoinbase, htypes⟩ := bind_eq_ok_iff.mp h
  have hhead := require_eq_ok_iff.mp hcoinbase
  cases hvtx : block.vtx with
  | nil => simp [hvtx] at hhead
  | cons coinbase txs =>
    refine ⟨coinbase, txs, rfl, by simpa [hvtx] using hhead, ?_⟩
    rw [← hvtx]
    exact forM_eq_ok htypes

theorem checkSpecialTx_of_mem {indexes : CRangesSet}
    (h : env.checkSpecialTxs checks block prev indexes = .ok ())
    (hmem : tx ∈ block.vtx) (htype : tx.nType ≠ transactionCoinbase) :
    env.checkSpecialTx checks prev indexes tx = .ok () := by
  refine forM_eq_ok h tx ?_
  cases hvtx : block.vtx with
  | nil => simp [hvtx] at hmem
  | cons coinbase txs =>
    rw [hvtx, mem_cons] at hmem
    simp only [CBlock.withoutCoinbase, hvtx, List.take_succ_cons, List.take_zero,
      List.tail_cons, mem_append, List.mem_filter, mem_singleton]
    rcases hmem with rfl | hmem
    · exact .inl ⟨rfl, by simpa using htype⟩
    · exact .inr hmem

theorem Passed.assetUnlock (hpassed : env.Passed checks fCheck block prev)
    (hmem : tx ∈ block.vtx) (htx : isAssetUnlock tx = true) :
    tx.vin = [] ∧ env.params.dip0003Height ≤ nHeight prev + 1 := by
  obtain ⟨optCbTx, indexes, -, hspecial, -⟩ := hpassed.exists_cbTx
  obtain ⟨hversion, htype⟩ := isAssetUnlock_iff.mp htx
  have hcheck := checkSpecialTx_of_mem hspecial hmem (by rw [htype]; decide)
  have hextra : tx.hasExtraPayloadField = true := by
    simp [CTransaction.hasExtraPayloadField, hversion, htype, transactionAssetUnlock,
      transactionNormal]
  unfold checkSpecialTx at hcheck
  rw [if_neg (by simp [hextra])] at hcheck
  split_ifs at hcheck with hheight hlock
  · rw [htype] at hlock
    cases hlock
  · exact ⟨(checkAssetUnlockTx_ok (mapError_eq_ok_iff.mp hcheck)).1, not_lt.mp hheight⟩

theorem Passed.coinbase (hpassed : env.Passed checks fCheck block prev)
    {coinbase : CTransaction} {txs : List CTransaction}
    (hvtx : block.vtx = coinbase :: txs) (hcoinbase : coinbase.isCoinBase = true) :
    isAssetUnlock coinbase = false := by
  by_contra hunlock
  obtain ⟨hvin, -⟩ := hpassed.assetUnlock (hvtx ▸ mem_cons_self) (by simpa using hunlock)
  simp [CTransaction.isCoinBase, hvin] at hcoinbase

theorem Passed.exists_payload (hpassed : env.Passed checks true block prev)
    (hprev : prev ≠ []) (htxs : env.checkBlockTxs block prev = .ok ())
    (hdip3 : env.params.dip0003Height ≤ nHeight prev + 1) :
    ∃ coinbase txs cbTx, block.vtx = coinbase :: txs ∧
      coinbase.vExtraPayload ≠ [] ∧ coinbase.isSpecialTxVersion = true ∧
      env.cbTxPayload coinbase.vExtraPayload = some cbTx ∧
      (env.dip0008ActiveAt (block :: prev) = true → env.v20ActiveAt (block :: prev) = true →
        ∃ creditPool, env.creditPoolAt prev = .ok creditPool ∧
          env.DiffPassed checks block prev cbTx creditPool) := by
  obtain ⟨optCbTx, indexes, hcoinbase, -, hdiff⟩ := hpassed.exists_cbTx
  obtain ⟨coinbase, txs, hvtx, -, htypes⟩ := checkBlockTxs_ok htxs
  have hactive : env.dip0003ActiveAt (block :: prev) = true := by
    simp only [dip0003ActiveAt, nHeight_cons hprev, decide_eq_true_eq]
    exact hdip3
  unfold checkCoinbase at hcoinbase
  simp only [hvtx, Bool.not_true, Bool.false_eq_true, if_false] at hcoinbase
  split_ifs at hcoinbase with htype
  · obtain ⟨-, -, cbTx, hcbTx, -, -, hcoinbase⟩ := bind₃_eq_ok_iff.mp hcoinbase
    cases hcoinbase
    have hpayload : env.cbTxPayload coinbase.vExtraPayload = some cbTx := by
      have := ofOption_eq_ok_iff.mp hcbTx
      rwa [CreditPoolEnv.cbTx, if_pos htype] at this
    refine ⟨coinbase, txs, cbTx, hvtx, ?_, ?_, hpayload, hdiff cbTx rfl⟩
    · intro hnil
      rw [hnil, env.cbTxPayload_nil] at hpayload
      cases hpayload
    · -- a type of its own needs the version of special transactions
      have hcheck := htypes coinbase (hvtx ▸ mem_cons_self)
      by_contra hversion
      rw [checkTxType, if_neg (by simp [hactive]), if_neg hversion, htype] at hcheck
      cases hcheck
  · obtain ⟨_, hrequire, -⟩ := bind_eq_ok_iff.mp hcoinbase
    rw [hactive] at hrequire
    cases hrequire

end Passed

/-! ## The check against the pool -/

structure DiffAfter (env : CreditPoolEnv) (pool : CCreditPool) (platformReward : Int)
    (done : List CTransaction) (diff : CCreditPoolDiff) : Prop where
  pool_eq : diff.pool = pool
  newIndexes : diff.newIndexes = done.filterMap env.unlockIndex
  nodup : diff.newIndexes.Nodup
  fresh : ∀ i ∈ diff.newIndexes, pool.indexes.contains i = false
  sessionLocked : 0 ≤ diff.sessionLocked
  sessionUnlocked : diff.sessionUnlocked = (done.map env.txUnlocked).sum
  limit : 0 ≤ pool.currentLimit → diff.sessionUnlocked ≤ pool.currentLimit
  platformReward_eq : diff.platformReward = platformReward
  data : ∀ tx ∈ done, isAssetUnlock tx = true → ∃ data, env.getDataFromUnlockTx tx = .ok data

section Diff

variable {pool : CCreditPool} {platformReward : Int} {done : List CTransaction}
  {diff diff' : CCreditPoolDiff} {tx : CTransaction} {quorums : QuorumView} {prevHeight : Nat}

theorem diffAfter_nil (pool : CCreditPool) (platformReward : Int) :
    DiffAfter env pool platformReward [] ⟨pool, [], 0, 0, platformReward⟩ :=
  ⟨rfl, rfl, List.nodup_nil, by simp, le_rfl, rfl, id, rfl, by simp⟩

section

variable (h : DiffAfter env pool platformReward done diff)
include h

theorem DiffAfter.not_unlock
    (htx : isAssetUnlock tx = false) {locked : Int} (hlocked : 0 ≤ locked) :
    DiffAfter env pool platformReward (done ++ [tx])
      { diff with sessionLocked := diff.sessionLocked + locked } := by
  refine { h with
    newIndexes := ?_
    sessionLocked := Int.add_nonneg h.sessionLocked hlocked
    sessionUnlocked := ?_
    data := ?_ }
  · simp [h.newIndexes, unlockIndex_of_not htx]
  · simp [h.sessionUnlocked, txUnlocked_of_not htx]
  · intro tx' hmem htx'
    rcases mem_append.mp hmem with hmem | hmem
    · exact h.data tx' hmem htx'
    · rw [mem_singleton.mp hmem, htx] at htx'
      cases htx'

theorem DiffAfter.unlock (htx : isAssetUnlock tx = true) (hstep : diff.unlock env tx = .ok diff') :
    DiffAfter env pool platformReward (done ++ [tx]) diff' := by
  obtain ⟨⟨toUnlock, index⟩, hdata, hstep⟩ := bind_eq_ok_iff.mp hstep
  obtain ⟨_, hlimit, hstep⟩ := bind_eq_ok_iff.mp hstep
  obtain ⟨_, hnew, hstep⟩ := bind_eq_ok_iff.mp hstep
  cases hstep
  obtain ⟨hindex, hamount, -⟩ := getDataFromUnlockTx_ok htx hdata
  rw [require_eq_ok_iff, decide_eq_true_eq, h.pool_eq] at hlimit
  rw [require_eq_ok_iff, Bool.and_eq_true, Bool.not_eq_true', h.pool_eq] at hnew
  have hnotMem : index ∉ diff.newIndexes := by simpa using hnew.2
  refine { h with
    newIndexes := ?_, nodup := ?_, fresh := ?_, sessionUnlocked := ?_
    limit := fun _ => hlimit
    data := ?_ }
  · simp [h.newIndexes, hindex]
  · exact nodup_append.mpr ⟨h.nodup, List.nodup_singleton _,
      fun a ha b hb heq => hnotMem (by rwa [← mem_singleton.mp hb, ← heq])⟩
  · intro i hi
    rcases mem_append.mp hi with hi | hi
    · exact h.fresh i hi
    · rw [mem_singleton.mp hi]
      exact hnew.1
  · simp [h.sessionUnlocked, hamount]
  · intro tx' hmem htx'
    rcases mem_append.mp hmem with hmem | hmem
    · exact h.data tx' hmem htx'
    · rw [mem_singleton.mp hmem]
      exact ⟨_, hdata⟩

theorem DiffAfter.process
    (hstep : diff.processLockUnlockTransaction env tx quorums prevHeight = .ok diff') :
    DiffAfter env pool platformReward (done ++ [tx]) diff' := by
  unfold CCreditPoolDiff.processLockUnlockTransaction at hstep
  split_ifs at hstep with hversion htype hlock
  · cases hstep
    have hnot : isAssetUnlock tx = false := by simp_all [isAssetUnlock]
    simpa using h.not_unlock hnot (le_refl 0)
  · cases hstep
    have hnot : isAssetUnlock tx = false := by simp_all [isAssetUnlock]
    simpa using h.not_unlock hnot (le_refl 0)
  · obtain ⟨_, hcheck, hstep⟩ := bind_eq_ok_iff.mp hstep
    rw [checkAssetLockUnlockTx, if_pos hlock] at hcheck
    obtain ⟨_, -, hstep⟩ := bind_eq_ok_iff.mp hstep
    split at hstep
    · rename_i txout hfind
      cases hstep
      have hreturn : startsWithOpReturn txout.scriptPubKey = true := by
        simpa using List.find?_some hfind
      have hrange := checkAssetLockTx_ok hcheck (List.mem_of_find?_eq_some hfind) hreturn
      simp only [moneyRange, Bool.and_eq_true, decide_eq_true_eq] at hrange
      refine h.not_unlock ?_ hrange.1
      simp [isAssetUnlock, hlock, transactionAssetLock, transactionAssetUnlock]
    · cases hstep
  · obtain ⟨_, -, hstep⟩ := bind_eq_ok_iff.mp hstep
    refine h.unlock (isAssetUnlock_iff.mpr ⟨by simpa using hversion, ?_⟩) hstep
    by_contra hunlock
    exact htype ⟨hlock, hunlock⟩

end

theorem DiffPassed.exists_diffAfter {checks : BlockChecks} {block : CBlock}
    {prev : List CBlock} {cbTx : CCbTx} (h : env.DiffPassed checks block prev cbTx pool) :
    ∃ platformReward diff, 0 ≤ platformReward ∧
      DiffAfter env pool platformReward block.withoutCoinbase diff ∧
      cbTx.creditPoolBalance = diff.getTotalLocked := by
  obtain ⟨diff, diff', hnew, hfold, hbalance⟩ := h.exists_diff
  obtain ⟨platformReward, hnonneg, rfl⟩ : ∃ platformReward, 0 ≤ platformReward ∧
      diff = ⟨pool, [], 0, 0, platformReward⟩ := by
    unfold newDiff at hnew
    split_ifs at hnew with hmnrr
    · split at hnew
      · rename_i platformReward hshare
        cases hnew
        refine ⟨platformReward, ?_, rfl⟩
        simp only [platformShare] at hshare
        split_ifs at hshare with hrange
        cases hshare
        simp only [moneyRange, Bool.and_eq_true, decide_eq_true_eq] at hrange
        exact hrange.1
      · cases hnew
    · cases hnew
      exact ⟨0, le_rfl, rfl⟩
  refine ⟨platformReward, diff', hnonneg, ?_, hbalance⟩
  exact foldlM_invariant (P := DiffAfter env pool platformReward)
    (fun _ _ _ _ _ _ hdone hstep => hdone.process hstep)
    (diffAfter_nil pool platformReward) hfold

end Diff

/-! ## The pool of a connected block -/

section Pool

variable {checks : BlockChecks} {fCheck : Bool} {block : CBlock} {prev : List CBlock}

theorem getCreditDataFromBlock_some {data : CreditPoolDataPerBlock}
    (h : env.getCreditDataFromBlock allReadable (block :: prev) = .ok (some data)) :
    data.unlocked = env.blockUnlocked block ∧ data.indexes.Nodup ∧
      ∀ i, i ∈ data.indexes ↔ i ∈ env.blockIndexes block := by
  unfold getCreditDataFromBlock at h
  split_ifs at h with hactive
  · cases h
  · obtain ⟨_, -, h⟩ := bind_eq_ok_iff.mp h
    cases hvtx : block.vtx with
    | nil =>
      simp only [hvtx] at h
      cases h
    | cons coinbase txs =>
      simp only [hvtx] at h
      split_ifs at h
      · cases h
      · split at h
        · cases h
        · obtain ⟨data', hfold, h⟩ := bind_eq_ok_iff.mp h
          cases h
          rw [← hvtx] at hfold
          exact (foldlM_blockDataStep hfold).2

theorem Passed.no_unlocks (hpassed : env.Passed checks fCheck block prev)
    (hprev : prev ≠ []) (htxs : env.checkBlockTxs block prev = .ok ())
    (hcheck : ∀ tx ∈ block.vtx, isAssetUnlock tx = true → fCheck = true)
    (hnone : env.getCreditDataFromBlock allReadable (block :: prev) = .ok none) :
    ∀ tx ∈ block.vtx, isAssetUnlock tx = false := by
  intro tx hmem
  by_contra hunlock
  have htx : isAssetUnlock tx = true := by simpa using hunlock
  obtain rfl := hcheck tx hmem htx
  have hdip3 := (hpassed.assetUnlock hmem htx).2
  obtain ⟨coinbase, txs, cbTx, hvtx, hpayload, hversion, hcbTx, -⟩ :=
    hpassed.exists_payload hprev htxs hdip3
  have hactive : env.dip0003ActiveAt (block :: prev) = true := by
    simp only [dip0003ActiveAt, nHeight_cons hprev, decide_eq_true_eq]
    exact hdip3
  have hempty : coinbase.vExtraPayload.isEmpty = false := by
    simpa [List.isEmpty_iff] using hpayload
  simp only [getCreditDataFromBlock, hactive, Bool.not_true, Bool.false_eq_true,
    if_false, hvtx, hempty, hversion, Bool.or_self, hcbTx, allReadable] at hnone
  obtain ⟨_, -, data, -, hnone⟩ := bind₂_eq_ok_iff.mp hnone
  cases hnone

theorem constructCreditPool_ok {index : List CBlock} {pool pool' : CCreditPool}
    (h : env.constructCreditPool allReadable index pool = .ok pool') :
    (env.getCreditDataFromBlock allReadable index = .ok none ∧
        pool.indexes.ranges = [] ∧ pool' = CCreditPool.empty) ∨
      ∃ data, env.getCreditDataFromBlock allReadable index = .ok (some data) ∧
        (env.traversal data.indexes).foldlM addIndexStep pool.indexes = .ok pool'.indexes := by
  obtain ⟨data, hdata, h⟩ := bind_eq_ok_iff.mp h
  cases data with
  | none =>
    simp only at h
    split_ifs at h with hlocked hindexes
    cases h
    refine .inl ⟨hdata, ?_, rfl⟩
    simpa [isEmpty, List.isEmpty_iff] using hindexes
  | some data =>
    obtain ⟨indexes, hindexes, unlocked, -, h⟩ := bind₂_eq_ok_iff.mp h
    dsimp only at h
    split_ifs at h with hnegative
    cases h
    exact .inr ⟨data, hdata, hindexes⟩

end Pool

/-! ## No index is accepted twice -/

/-- The indexes of a chain are distinct, and its pool, if there is one, holds
exactly these. -/
structure DistinctIndexes (env : CreditPoolEnv) (index : List CBlock) : Prop where
  nodup : (env.unlockIndexes index).Nodup
  pool : ∀ pool, env.creditPoolAt index = .ok pool → pool.indexes.Canonical ∧
    ∀ i, pool.indexes.Mem i ↔ i ∈ env.unlockIndexes index

/-- Every asset unlock of a block that is connected is checked against the
credit pool: the payload of the coinbase is checked, and the deployments that
the check asks for are active. -/
def ChecksUnlocks (env : CreditPoolEnv) : CreditOp → Prop
  | .connect _ fScriptChecks block prev => ∀ tx ∈ block.vtx,
    isAssetUnlock tx = true → fScriptChecks = true ∧ env.dip0008ActiveAt (block :: prev) = true ∧
      env.v20ActiveAt (block :: prev) = true
  | _ => True

/-- No asset unlock of a block that is connected has the largest index. -/
def AvoidsMaxIndex (env : CreditPoolEnv) : CreditOp → Prop
  | .connect _ _ block _ => CRangesSet.maxValue ∉ env.blockIndexes block
  | _ => True

instance (env : CreditPoolEnv) : DecidablePred env.ChecksUnlocks
  | .connect _ fScriptChecks block prev => inferInstanceAs (Decidable
      (∀ tx ∈ block.vtx, isAssetUnlock tx = true → fScriptChecks = true ∧
        env.dip0008ActiveAt (block :: prev) = true ∧
        env.v20ActiveAt (block :: prev) = true))
  | .query _ _ => inferInstanceAs (Decidable True)
  | .forget _ _ => inferInstanceAs (Decidable True)

instance (env : CreditPoolEnv) : DecidablePred env.AvoidsMaxIndex
  | .connect _ _ block _ =>
    inferInstanceAs (Decidable (CRangesSet.maxValue ∉ env.blockIndexes block))
  | .query _ _ => inferInstanceAs (Decidable True)
  | .forget _ _ => inferInstanceAs (Decidable True)

section Distinct

variable {checks : BlockChecks} {fCheck : Bool} {block : CBlock} {prev : List CBlock}

theorem blockIndexes_eq_nil (h : ∀ tx ∈ block.vtx, isAssetUnlock tx = false) :
    env.blockIndexes block = [] := by
  refine List.filterMap_eq_nil_iff.mpr ?_
  intro tx hmem
  exact unlockIndex_of_not (h tx hmem)

theorem Passed.new_indexes (hpassed : env.Passed checks fCheck block prev)
    (hprev : prev ≠ []) (htxs : env.checkBlockTxs block prev = .ok ())
    (hchecks : env.ChecksUnlocks (.connect checks fCheck block prev))
    (hdistinct : env.DistinctIndexes prev) :
    (env.blockIndexes block).Nodup ∧ ∀ i ∈ env.blockIndexes block, i ∉ env.unlockIndexes prev := by
  by_cases hnone : ∀ tx ∈ block.vtx, isAssetUnlock tx = false
  · simp [blockIndexes_eq_nil hnone]
  · push Not at hnone
    obtain ⟨tx, hmem, htx⟩ := hnone
    obtain ⟨rfl, hdip8, hv20⟩ := hchecks tx hmem (by simpa using htx)
    have hdip3 := (hpassed.assetUnlock hmem (by simpa using htx)).2
    obtain ⟨-, -, cbTx, -, -, -, -, hdiff⟩ := hpassed.exists_payload hprev htxs hdip3
    obtain ⟨pool, hpool, hdiff⟩ := hdiff hdip8 hv20
    obtain ⟨_, diff, -, hafter, -⟩ := hdiff.exists_diffAfter
    obtain ⟨coinbase, txs, hvtx, hcoinbase, -⟩ := checkBlockTxs_ok htxs
    obtain ⟨hcanonical, hindexes⟩ := hdistinct.pool pool hpool
    have hnew : diff.newIndexes = env.blockIndexes block := by
      rw [hafter.newIndexes, blockIndexes, CBlock.withoutCoinbase, hvtx]
      simp [unlockIndex_of_not (hpassed.coinbase hvtx hcoinbase)]
    rw [← hnew]
    refine ⟨hafter.nodup, fun i hi hold => ?_⟩
    have hcontains := (contains_iff hcanonical).mpr ((hindexes i).mpr hold)
    rw [hafter.fresh i hi] at hcontains
    cases hcontains

theorem DistinctIndexes.accept (hdistinct : env.DistinctIndexes prev)
    (hpassed : env.Passed checks fCheck block prev)
    (hprev : prev ≠ []) (htxs : env.checkBlockTxs block prev = .ok ())
    (hchecks : env.ChecksUnlocks (.connect checks fCheck block prev))
    (hmax : maxValue ∉ env.blockIndexes block) : env.DistinctIndexes (block :: prev) := by
  obtain ⟨hnodup, hnew⟩ := hpassed.new_indexes hprev htxs hchecks hdistinct
  have hmem : ∀ i, i ∈ env.unlockIndexes (block :: prev) ↔
      i ∈ env.blockIndexes block ∨ i ∈ env.unlockIndexes prev := by
    intro i
    rw [unlockIndexes, List.flatMap_cons, mem_append]
    rfl
  refine ⟨?_, fun pool hpool => ?_⟩
  · rw [unlockIndexes]
    exact nodup_append.mpr ⟨hnodup, hdistinct.nodup, fun i hi j hj heq => hnew i hi (heq ▸ hj)⟩
  by_cases hv20 : env.v20ActiveAt (block :: prev) = true
  · rw [creditPoolAt_cons hv20] at hpool
    obtain ⟨before, hbefore, hpool⟩ := bind_eq_ok_iff.mp hpool
    obtain ⟨hcanonical, hindexes⟩ := hdistinct.pool before hbefore
    rcases constructCreditPool_ok hpool with ⟨hdata, hranges, rfl⟩ | ⟨data, hdata, hadd⟩
    · -- without data there are no indexes in the block, and none before
      have hblock : env.blockIndexes block = [] := blockIndexes_eq_nil
        (hpassed.no_unlocks hprev htxs (fun tx htx hunlock => (hchecks tx htx hunlock).1) hdata)
      refine ⟨canonical_empty, fun i => ?_⟩
      rw [hmem, ← hindexes, hblock]
      simp [Mem, hranges, CCreditPool.empty, empty]
    · obtain ⟨-, hdataNodup, hdataIndexes⟩ := getCreditDataFromBlock_some hdata
      have hperm := env.traversal_perm data.indexes
      obtain ⟨indexes, hfold, hcanonical', hmem'⟩ := foldlM_addIndexStep
        (hperm.nodup_iff.mpr hdataNodup)
        (fun h => hmax ((hdataIndexes _).mp (hperm.mem_iff.mp h))) hcanonical
        (fun i hi hold => hnew i ((hdataIndexes i).mp (hperm.mem_iff.mp hi)) ((hindexes i).mp hold))
      rw [hfold] at hadd
      cases hadd
      refine ⟨hcanonical', fun i => ?_⟩
      rw [hmem', hmem, hperm.mem_iff, hdataIndexes, hindexes]
  · -- before the fork there are no asset unlocks at all
    rw [creditPoolAt_of_not_v20 (by simpa using hv20)] at hpool
    cases hpool
    have hblock : env.blockIndexes block = [] := by
      refine blockIndexes_eq_nil fun tx htx => ?_
      by_contra hunlock
      exact hv20 (hchecks tx htx (by simpa using hunlock)).2.2
    have hv20' : env.v20ActiveAt prev = false := by
      simp only [v20ActiveAt, nHeight_cons hprev, decide_eq_true_eq] at hv20
      simp only [v20ActiveAt, decide_eq_false_iff_not]
      omega
    refine ⟨canonical_empty, fun i => ?_⟩
    rw [hmem, hblock, ← (hdistinct.pool _ (creditPoolAt_of_not_v20 hv20')).2]
    simp

theorem getCreditDataFromBlock_genesis :
    env.getCreditDataFromBlock allReadable [env.genesis] = .ok none := by
  unfold getCreditDataFromBlock
  split_ifs with hactive
  · rfl
  · cases hvtx : env.genesis.vtx with
    | nil => simp [hvtx, allReadable, require]
    | cons coinbase txs =>
      have hversion := env.genesis_nVersion coinbase (hvtx ▸ mem_cons_self)
      simp [hvtx, CTransaction.isSpecialTxVersion, hversion, allReadable, require]

theorem creditPoolAt_genesis : env.creditPoolAt [env.genesis] = .ok CCreditPool.empty := by
  by_cases hv20 : env.v20ActiveAt [env.genesis] = true
  · rw [creditPoolAt_cons hv20]
    change env.constructCreditPool allReadable [env.genesis] CCreditPool.empty = _
    rw [constructCreditPool, getCreditDataFromBlock_genesis]
    rfl
  · exact creditPoolAt_of_not_v20 (by simpa using hv20)

theorem not_isAssetUnlock_genesis {tx : CTransaction} (hmem : tx ∈ env.genesis.vtx) :
    isAssetUnlock tx = false := by
  simp [isAssetUnlock, CTransaction.isSpecialTxVersion, env.genesis_nVersion tx hmem]

theorem distinctIndexes_genesis : env.DistinctIndexes [env.genesis] := by
  have hnil : env.unlockIndexes [env.genesis] = [] := by
    simp [unlockIndexes, blockIndexes_eq_nil fun _ => not_isAssetUnlock_genesis]
  refine ⟨by simp [hnil], fun pool hpool => ?_⟩
  rw [creditPoolAt_genesis] at hpool
  cases hpool
  refine ⟨canonical_empty, fun i => ?_⟩
  simp [hnil, not_mem_empty, CCreditPool.empty]

end Distinct

end CreditPoolEnv

/-! ### A chain with asset unlocks -/

/-- A payload of one byte stands for an asset unlock of 500 satoshis of fee
with the byte as index, and 254 and 255 for the largest index. -/
def sampleUnlockPayload : List UInt8 → Option CAssetUnlockPayload
  | [i] => some ⟨1, if i < 254 then i.toUInt64 else CRangesSet.maxValue, 500, 0, 7, []⟩
  | _ => none

def sampleKeyScript : List UInt8 :=
  [0x76, 0xa9, 0x14] ++ List.replicate 20 1 ++ [0x88, 0xac]

def sampleCbTx : List UInt8 → Option CCbTx
  | [height] => some ⟨2, height.toNat, 0⟩
  | [height, balance] => some ⟨3, height.toNat, 500 * balance.toNat⟩
  | _ => none

def samplePoolEnv : CreditPoolEnv where
  assetLockPayload := fun bytes =>
    if bytes = [8] then some ⟨1, [⟨50000, sampleKeyScript⟩]⟩ else none
  assetUnlockPayload := sampleUnlockPayload
  params :=
    { testNetParams with
      v20Height := 1
      nBudgetPaymentsCycleBlocks := 50
      nBudgetPaymentsWindowBlocks := 10
      dip0003EnforcementHeight := 50
      nMasternodePaymentsIncreaseBlock := 4030
      nMasternodePaymentsIncreasePeriod := 10
      brrHeight := 20000
      nBRRFixHeight := 27700
      nKSHv030Height := 90000
      nGovernanceMinQuorum := 1
      dip0003Height := 1
      dip0008Height := 1
      mnRrHeight := 999999999
      withdrawalsHeight := 999999999
      creditPoolPeriodBlocks := 2 }
  cbTxPayload := sampleCbTx
  cbTxPayload_nil := rfl
  v24ActiveAfter := fun _ => false
  nBits := fun _ => 0
  difficultyBase := fun _ _ => 0
  traversal := id
  traversal_perm := fun _ => .refl _
  genesis := ⟨0, []⟩
  genesis_nVersion := fun _ h => absurd h List.not_mem_nil

def sampleCoinbase (payload : List UInt8) : CTransaction :=
  ⟨[⟨⟨0, COutPoint.nullIndex⟩, [], 0⟩], [], 3, transactionCoinbase, 0, ⟨0, [], [], []⟩, payload⟩

def sampleLock : CTransaction :=
  ⟨[⟨⟨1, 0⟩, [], 0⟩], [⟨50000, [opReturn, 0]⟩], 3, transactionAssetLock, 0, ⟨0, [], [], []⟩, [8]⟩

def sampleUnlock (payload : UInt8) : CTransaction :=
  let vout : List CTxOut := if payload = 254 then List.replicate 2 ⟨250, sampleKeyScript⟩
    else [⟨500, sampleKeyScript⟩]
  ⟨[], vout, 3, transactionAssetUnlock, 0, ⟨0, [], [], []⟩, [payload]⟩

def sampleChecks : BlockChecks where
  quorums := ⟨true, fun _ => true, fun _ => true, fun _ => true, fun _ _ => true⟩
  readable := allReadable
  checkOther := fun _ => true
  checkRest := true

/-- Funds are locked, and unlocked in the next two blocks. -/
def lockBlock : CBlock := ⟨1, [sampleCoinbase [1, 100], sampleLock]⟩

def unlockBlock (hash : Uint256) (height balance payload : UInt8) : CBlock :=
  ⟨hash, [sampleCoinbase [height, balance], sampleUnlock payload]⟩

def unlockRun (first second : UInt8) : List CreditOp :=
  let genesis : CBlock := ⟨0, []⟩
  let block₂ := unlockBlock 2 2 98 first
  let block₃ := unlockBlock 3 3 96 second
  [.connect sampleChecks true lockBlock [genesis],
    .connect sampleChecks true block₂ [lockBlock, genesis],
    .connect sampleChecks true block₃ [block₂, lockBlock, genesis]]

def acceptedChains (env : CreditPoolEnv) (ops : List CreditOp) : List (List CBlock) :=
  ((env.run ops).toOption.map (·.accepted)).getD []

theorem mem_accepted_of_acceptedChains {env : CreditPoolEnv} {ops : List CreditOp}
    {index : List CBlock} (h : index ∈ acceptedChains env ops) :
    ∃ node, env.run ops = .ok node ∧ index ∈ node.accepted := by
  unfold acceptedChains at h
  cases hrun : env.run ops with
  | error e =>
    rw [hrun] at h
    cases h
  | ok node =>
    rw [hrun] at h
    exact ⟨node, rfl, h⟩

namespace CreditPoolEnv

variable {env : CreditPoolEnv}

/-- In every run in which the asset unlocks are checked against the credit
pool and none has the largest index, no connected chain has two asset unlocks
of one index. -/
theorem count_unlockIndexes_le_one {ops : List CreditOp} {node : CreditNode}
    (hchecks : ∀ op ∈ ops, env.ChecksUnlocks op) (hmax : ∀ op ∈ ops, env.AvoidsMaxIndex op)
    (h : env.run ops = .ok node) {index : List CBlock}
    (hindex : index ∈ node.accepted) (i : UInt64) : (env.unlockIndexes index).count i ≤ 1 := by
  have hrun := run_invariant (P := env.DistinctIndexes)
    (C := fun op => env.ChecksUnlocks op ∧ env.AvoidsMaxIndex op)
    distinctIndexes_genesis
    (fun checks fCheck block prev hop hne hprev htxs hpassed =>
      hprev.accept hpassed hne htxs hop.1 hop.2)
    (fun op hop => ⟨hchecks op hop, hmax op hop⟩) h
  exact List.nodup_iff_count_le_one.mp (hrun.2.2 index hindex).nodup i

end CreditPoolEnv

theorem count_unlockIndexes_two : (∀ op ∈ unlockRun 5 6, samplePoolEnv.ChecksUnlocks op) ∧
    (∀ op ∈ unlockRun 5 6, samplePoolEnv.AvoidsMaxIndex op) ∧
    ∃ index ∈ acceptedChains samplePoolEnv (unlockRun 5 6),
      samplePoolEnv.unlockIndexes index = [6, 5] ∧
      ∀ i, (samplePoolEnv.unlockIndexes index).count i ≤ 1 := by
  have hchecks : ∀ op ∈ unlockRun 5 6, samplePoolEnv.ChecksUnlocks op := by
    decide +kernel
  have hmax : ∀ op ∈ unlockRun 5 6, samplePoolEnv.AvoidsMaxIndex op := by
    decide +kernel
  have hmem : [unlockBlock 3 3 96 6, unlockBlock 2 2 98 5, lockBlock, ⟨0, []⟩]
      ∈ acceptedChains samplePoolEnv (unlockRun 5 6) := by decide +kernel
  obtain ⟨node, hrun, haccepted⟩ := mem_accepted_of_acceptedChains hmem
  exact ⟨hchecks, hmax, _, hmem, by decide +kernel, fun i =>
    CreditPoolEnv.count_unlockIndexes_le_one hchecks hmax hrun haccepted i⟩

/-- The largest index is accepted twice, in two different transactions: the range
that holds it ends at zero, so the set does not contain it. -/
theorem count_unlockIndexes_max_eq_two :
    (∀ op ∈ unlockRun 255 254, samplePoolEnv.ChecksUnlocks op) ∧
    ∃ index ∈ acceptedChains samplePoolEnv (unlockRun 255 254),
      (samplePoolEnv.unlockIndexes index).count CRangesSet.maxValue = 2 := by
  refine ⟨by decide +kernel,
    [unlockBlock 3 3 96 254, unlockBlock 2 2 98 255, lockBlock, ⟨0, []⟩], ?_, ?_⟩ <;>
    decide +kernel

end KorshCore

import KorshCore.Evo.CreditPool

/-!
# Blocks and the credit pool

What `ProcessSpecialTxsInBlock` of `evo/specialtxman.cpp` checks about the
credit pool, and the runs of a node: blocks are connected on connected blocks,
pools are asked for, and cached pools and snapshots are forgotten.
-/

namespace KorshCore

open Except List Function Option

/-! ## The checks of a block -/

inductive CreditReject where
  | badCbMissing
  | badTxnsType
  | badTxnsCbType
  | badCbtxInvalid
  | badCbtxPayload
  | badCbtxVersion
  | badCbtxHeight
  | badTxType
  | asset (why : AssetReject)
  | other
  | failedProcspectxsinblock
  | failedGetcreditpooldiff
  | badCbtxAssetlockedAmount
  deriving DecidableEq, Repr

/-- What the checks of one block read besides the block and the pool: the
quorums, the blocks that can be read from disk, and the results of the checks
of other special transactions and of the rest of the block. -/
structure BlockChecks where
  quorums : QuorumView
  readable : Uint256 → Bool
  checkOther : CTransaction → Bool
  checkRest : Bool

namespace CreditPoolEnv

variable (env : CreditPoolEnv)

def checkTxType (index : List CBlock) (tx : CTransaction) : Except CreditReject Unit :=
  if !env.dip0003ActiveAt index then .ok ()
  else if tx.isSpecialTxVersion then do
    require .badTxnsType (tx.nType ≤ transactionAssetUnlock)
    require .badTxnsCbType (!tx.isCoinBase || tx.nType == transactionCoinbase)
  else require .badTxnsType (tx.nType == transactionNormal)

def checkBlockTxs (block : CBlock) (prev : List CBlock) : Except CreditReject Unit := do
  require .badCbMissing (block.vtx.head?.any CTransaction.isCoinBase)
  block.vtx.forM (env.checkTxType (block :: prev))

def checkCbTx (cbTx : CCbTx) (prev : List CBlock) : Except CreditReject Unit := do
  require .badCbtxVersion (cbTx.nVersion ≠ 0 && cbTx.nVersion < 4)
  require .badCbtxHeight (cbTx.nHeight = nHeight prev + 1)
  require .badCbtxVersion (!env.dip0008ActiveAt prev || 2 ≤ cbTx.nVersion)
  let isV20 : Bool := env.params.v20Height ≤ nHeight prev + 1
  require .badCbtxVersion (isV20 == decide (3 ≤ cbTx.nVersion))

def checkCoinbase (fCheck : Bool) (block : CBlock) (prev : List CBlock) :
    Except CreditReject (Option CCbTx) :=
  if !fCheck then .ok none
  else
    match block.vtx with
    | [] => do
      require .badCbtxVersion (!env.dip0003ActiveAt (block :: prev))
      .ok none
    | coinbase :: _ =>
      if coinbase.nType = transactionCoinbase then do
        require .badCbtxInvalid coinbase.isCoinBase
        let cbTx ← ofOption .badCbtxPayload (env.cbTx coinbase)
        env.checkCbTx cbTx prev
        .ok (some cbTx)
      else do
        require .badCbtxVersion (!env.dip0003ActiveAt (block :: prev))
        .ok none

/-- `CheckSpecialTxInner` with the known indexes. -/
def checkSpecialTx (checks : BlockChecks) (prev : List CBlock)
    (indexes : CRangesSet) (tx : CTransaction) : Except CreditReject Unit :=
  if !tx.hasExtraPayloadField then .ok ()
  else if nHeight prev + 1 < env.params.dip0003Height then .error .badTxType
  else if tx.nType = transactionAssetLock then (checkAssetLockTx env.toAssetEnv tx).mapError .asset
  else if tx.nType = transactionAssetUnlock then
    (checkAssetUnlockTx env.toAssetEnv checks.quorums tx (nHeight prev)
      (some indexes)).mapError .asset
  else require .other (checks.checkOther tx)

/-- The loop of `ProcessSpecialTxsInBlock` over the transactions, which passes
over a coinbase of its own type. -/
def checkSpecialTxs (checks : BlockChecks) (block : CBlock) (prev : List CBlock)
    (indexes : CRangesSet) : Except CreditReject Unit :=
  let first := block.vtx.take 1
  (first.filter (·.nType ≠ transactionCoinbase) ++ block.withoutCoinbase).forM
    (env.checkSpecialTx checks prev indexes)

/-- `GetBlockSubsidy` of the block after `prev`. -/
def blockSubsidy (prev : List CBlock) : Int :=
  Subsidy.getBlockSubsidyInner env.difficultyBase (env.nBits prev) (nHeight prev)
    env.params.toParams (env.params.v20Height ≤ nHeight prev + 1)

def newDiff (starter : CCreditPool) (prev : List CBlock) : Option CCreditPoolDiff :=
  if env.params.mnRrHeight ≤ nHeight prev + 1 then
    match platformShare (getMasternodePayment env.params.toPaymentParams
        (nHeight prev + 1) (env.blockSubsidy prev) true) with
    | .ok platformReward => some ⟨starter, [], 0, 0, platformReward⟩
    | .error _ => none
  else some ⟨starter, [], 0, 0, 0⟩

/-- How the checks of a block end: with an answer and the memory, or at a
failed assertion. -/
inductive Outcome where
  | done (answer : Except CreditReject Unit) (m : CCreditPoolManager)
  | crash

/-- An exception rejects the block with `why`. -/
def thrown (e : PoolError) (why : CreditReject) (m : CCreditPoolManager) : Outcome :=
  match e with
  | .assertion => .crash
  | _ => .done (.error why) m

/-- `CheckCreditPoolDiffForBlock` with `GetCreditPoolDiffForBlock`. -/
def checkCreditPoolDiffForBlock (checks : BlockChecks) (block : CBlock)
    (prev : List CBlock) (cbTx : CCbTx) (m : CCreditPoolManager) : Outcome :=
  if !env.dip0008ActiveAt (block :: prev) || !env.v20ActiveAt (block :: prev) then .done (.ok ()) m
  else
    match env.getCreditPool checks.readable prev m with
    | .error e => thrown e .failedGetcreditpooldiff m
    | .ok (creditPool, m) =>
      match env.newDiff creditPool prev with
      | none => .crash
      | some diff =>
        match block.withoutCoinbase.foldlM (fun diff tx =>
            diff.processLockUnlockTransaction env tx checks.quorums (nHeight prev)) diff with
        | .error why =>
          if why.isConsensus then .done (.error (.asset why)) m else .crash
        | .ok diff =>
          .done (require .badCbtxAssetlockedAmount (cbTx.creditPoolBalance = diff.getTotalLocked)) m

def knownIndexes (checks : BlockChecks) (block : CBlock) (prev : List CBlock)
    (m : CCreditPoolManager) : Except PoolError (CRangesSet × CCreditPoolManager) :=
  if env.v20ActiveAt (block :: prev) then do
    let (creditPool, m) ← env.getCreditPool checks.readable prev m
    .ok (creditPool.indexes, m)
  else .ok (CRangesSet.empty, m)

/-- `ProcessSpecialTxsInBlock`, as far as it reads the credit pool. The other
checks are the last. -/
def processSpecialTxsInBlock (checks : BlockChecks) (fCheck : Bool)
    (block : CBlock) (prev : List CBlock) (m : CCreditPoolManager) : Outcome :=
  match env.checkCoinbase fCheck block prev with
  | .error why => .done (.error why) m
  | .ok optCbTx =>
    match env.knownIndexes checks block prev m with
    | .error e => thrown e .failedProcspectxsinblock m
    | .ok (indexes, m) =>
      match env.checkSpecialTxs checks block prev indexes with
      | .error why => .done (.error why) m
      | .ok () =>
        match optCbTx with
        | none => .done (require .other checks.checkRest) m
        | some cbTx =>
          match env.checkCreditPoolDiffForBlock checks block prev cbTx m with
          | .done (.ok ()) m => .done (require .other checks.checkRest) m
          | outcome => outcome

end CreditPoolEnv

/-! ## Runs of a node -/

structure CreditNode where
  manager : CCreditPoolManager
  accepted : List (List CBlock)

/-- What a node does. `connect` is `ConnectBlock` of a block on the chain
`prev`, with the checks of scripts and of the coinbase payload or without
them; `query` is a call of `GetCreditPool` by another part of the node;
`forget` drops entries of the cache, whose size is bounded, and of the
database, whose transaction may be rolled back. -/
inductive CreditOp where
  | connect (checks : BlockChecks) (fScriptChecks : Bool) (block : CBlock) (prev : List CBlock)
  | query (readable : Uint256 → Bool) (index : List CBlock)
  | forget (keepCache keepDb : Uint256 → Bool)

namespace CreditPoolEnv

variable (env : CreditPoolEnv)

def canIndex (node : CreditNode) (block : CBlock) (prev : List CBlock) : Bool :=
  node.accepted.all fun index =>
    getBlockHash index != block.hash || index == block :: prev

def connect (node : CreditNode) (checks : BlockChecks) (fScriptChecks : Bool)
    (block : CBlock) (prev : List CBlock) : Except PoolError CreditNode :=
  if prev ∉ node.accepted || !canIndex node block prev then .ok node
  else
    match env.checkBlockTxs block prev with
    | .error _ => .ok node
    | .ok () =>
      match env.processSpecialTxsInBlock checks fScriptChecks block prev node.manager with
      | .crash => .error .assertion
      | .done (.error _) m => .ok ⟨m, node.accepted⟩
      | .done (.ok ()) m => .ok ⟨m, (block :: prev) :: node.accepted⟩

def query (node : CreditNode) (readable : Uint256 → Bool) (index : List CBlock) :
    Except PoolError CreditNode :=
  if index ∉ node.accepted then .ok node
  else
    match env.getCreditPool readable index node.manager with
    | .error .assertion => .error .assertion
    | .error _ => .ok node
    | .ok (_, m) => .ok ⟨m, node.accepted⟩

def forget (node : CreditNode) (keepCache keepDb : Uint256 → Bool) : CreditNode where
  manager :=
    ⟨fun hash => if keepCache hash then node.manager.creditPoolCache hash else none,
      fun hash => if keepDb hash then node.manager.evoDb hash else none⟩
  accepted := node.accepted

def step (node : CreditNode) : CreditOp → Except PoolError CreditNode
  | .connect checks fScriptChecks block prev =>
    env.connect node checks fScriptChecks block prev
  | .query readable index => env.query node readable index
  | .forget keepCache keepDb => .ok (forget node keepCache keepDb)

def start : CreditNode := ⟨⟨fun _ => none, fun _ => none⟩, [[env.genesis]]⟩

def run (ops : List CreditOp) : Except PoolError CreditNode :=
  ops.foldlM env.step env.start

end CreditPoolEnv

def allReadable (_ : Uint256) : Bool := true

namespace CreditPoolEnv

variable {env : CreditPoolEnv}

def creditPoolAt (env : CreditPoolEnv) : List CBlock → Except PoolError CCreditPool
  | [] => .ok CCreditPool.empty
  | block :: prev =>
    if !env.v20ActiveAt (block :: prev) then .ok CCreditPool.empty
    else do
      let pool ← env.creditPoolAt prev
      env.constructCreditPool allReadable (block :: prev) pool

variable {index : List CBlock} {readable : Uint256 → Bool}

theorem getCreditDataFromBlock_readable {data : Option CreditPoolDataPerBlock}
    (h : env.getCreditDataFromBlock readable index = .ok data) :
    env.getCreditDataFromBlock allReadable index = .ok data := by
  unfold getCreditDataFromBlock at h ⊢
  split_ifs at h ⊢ with hactive
  · exact h
  · cases index with
    | nil => exact h
    | cons block prev =>
      obtain ⟨-, -, h⟩ := bind_eq_ok_iff.mp h
      exact h

theorem distantUnlocked_readable {unlocked : Int}
    (h : env.distantUnlocked readable index = .ok unlocked) :
    env.distantUnlocked allReadable index = .ok unlocked := by
  unfold distantUnlocked at h ⊢
  split_ifs at h ⊢ with hheight
  · obtain ⟨data, hdata, h⟩ := bind_eq_ok_iff.mp h
    rw [getCreditDataFromBlock_readable hdata]
    exact h
  · exact h

theorem constructCreditPool_readable {prev pool : CCreditPool}
    (h : env.constructCreditPool readable index prev = .ok pool) :
    env.constructCreditPool allReadable index prev = .ok pool := by
  unfold constructCreditPool at h ⊢
  obtain ⟨data, hdata, h⟩ := bind_eq_ok_iff.mp h
  rw [getCreditDataFromBlock_readable hdata]
  cases data with
  | none => exact h
  | some data =>
    obtain ⟨indexes, hindexes, unlocked, hunlocked, h⟩ := bind₂_eq_ok_iff.mp h
    simp only [ok_bind, hindexes, distantUnlocked_readable hunlocked]
    exact h

/-! ### What a node remembers -/

/-- Every pool that is remembered is the pool of a connected block. -/
def Recorded (env : CreditPoolEnv) (accepted : List (List CBlock))
    (m : CCreditPoolManager) : Prop :=
  ∀ hash pool, m.creditPoolCache hash = some pool ∨ m.evoDb hash = some pool →
    ∃ index ∈ accepted, getBlockHash index = hash ∧ env.creditPoolAt index = .ok pool

/-- The connected blocks are entries of one block index, and what is
remembered belongs to them. -/
structure Remembers (env : CreditPoolEnv) (node : CreditNode) : Prop where
  closed : ∀ block prev, block :: prev ∈ node.accepted → prev ∈ node.accepted ∨ prev = []
  unique : ∀ index ∈ node.accepted, ∀ index' ∈ node.accepted,
    getBlockHash index = getBlockHash index' → index = index'
  recorded : env.Recorded node.accepted node.manager

variable {m : CCreditPoolManager} {accepted : List (List CBlock)}

variable {pool : CCreditPool}

theorem Recorded.remember (h : env.Recorded accepted m) (hmem : index ∈ accepted)
    (hpool : env.creditPoolAt index = .ok pool) :
    env.Recorded accepted (m.remember (getBlockHash index) pool) := by
  intro hash pool' hknown
  by_cases heq : hash = getBlockHash index
  · subst heq
    simp only [CCreditPoolManager.remember, update_self, some.injEq] at hknown
    rcases hknown with rfl | hknown
    · exact ⟨index, hmem, rfl, hpool⟩
    · exact h _ pool' (.inr hknown)
  · simp only [CCreditPoolManager.remember, update_of_ne heq] at hknown
    exact h hash pool' hknown

theorem Recorded.addToCache (h : env.Recorded accepted m) (hmem : index ∈ accepted)
    (hpool : env.creditPoolAt index = .ok pool) :
    env.Recorded accepted (CreditPoolEnv.addToCache m index pool) := by
  have hremember := h.remember hmem hpool
  unfold CreditPoolEnv.addToCache
  split_ifs with hsnapshot
  · intro hash pool' hknown
    by_cases heq : hash = getBlockHash index
    · subst heq
      rcases hknown with hknown | hknown
      · exact hremember _ pool' (.inl hknown)
      · simp only [update_self, some.injEq] at hknown
        subst hknown
        exact ⟨index, hmem, rfl, hpool⟩
    · simp only [update_of_ne heq] at hknown
      exact hremember hash pool' hknown
  · exact hremember

theorem v20ActiveAt_of_getFromCache (h : env.getFromCache m index = none) :
    env.v20ActiveAt index = true := by
  unfold getFromCache at h
  by_contra hinactive
  rw [if_pos (by simpa using hinactive)] at h
  cases h

theorem creditPoolAt_of_not_v20 (h : env.v20ActiveAt index = false) :
    env.creditPoolAt index = .ok CCreditPool.empty := by
  cases index with
  | nil => rfl
  | cons block prev => simp [creditPoolAt, h]

theorem creditPoolAt_cons {block : CBlock} {prev : List CBlock}
    (h : env.v20ActiveAt (block :: prev) = true) : env.creditPoolAt (block :: prev)
      = env.creditPoolAt prev >>= env.constructCreditPool allReadable (block :: prev) := by
  simp [creditPoolAt, h]

variable {node : CreditNode}

namespace Remembers

variable (hnode : env.Remembers node)
include hnode

theorem getFromCache {m m' : CCreditPoolManager} (hm : env.Recorded node.accepted m)
    (hmem : index ∈ node.accepted) (h : env.getFromCache m index = some (pool, m')) :
    env.creditPoolAt index = .ok pool ∧ env.Recorded node.accepted m' := by
  have hknown : ∀ pool, m.creditPoolCache (getBlockHash index) = some pool ∨
      m.evoDb (getBlockHash index) = some pool → env.creditPoolAt index = .ok pool := by
    intro pool hpool
    obtain ⟨index', hmem', hhash, hpool⟩ := hm _ pool hpool
    rwa [hnode.unique index hmem index' hmem' hhash.symm]
  unfold CreditPoolEnv.getFromCache at h
  by_cases hactive : env.v20ActiveAt index = true
  · rw [if_neg (by simp [hactive])] at h
    cases hcache : m.creditPoolCache (getBlockHash index) with
    | some cached =>
      simp only [hcache, some.injEq, Prod.mk.injEq] at h
      obtain ⟨rfl, rfl⟩ := h
      exact ⟨hknown _ (.inl hcache), hm⟩
    | none =>
      simp only [hcache] at h
      split_ifs at h
      cases hdisk : m.evoDb (getBlockHash index) with
      | none => simp [hdisk] at h
      | some snapshot =>
        simp only [hdisk, some.injEq, Prod.mk.injEq] at h
        obtain ⟨rfl, rfl⟩ := h
        have hpool := hknown _ (.inr hdisk)
        exact ⟨hpool, hm.remember hmem hpool⟩
  · rw [if_pos (by simpa using hactive)] at h
    obtain ⟨rfl, rfl⟩ := h
    exact ⟨creditPoolAt_of_not_v20 (by simpa using hactive), hm⟩

theorem sound (readable : Uint256 → Bool) : Memo.Sound env.getFromCache addToCache CCreditPool.empty
      (env.constructCreditPool readable) env.creditPoolAt
      (fun index => index ∈ node.accepted ∨ index = []) (env.Recorded node.accepted) where
  tail := by
    intro block prev hknown
    exact hnode.closed block prev (hknown.resolve_right (cons_ne_nil _ _))
  nil := rfl
  build := by
    intro m block prev pool pool' hlookup hprev hbuild
    rw [creditPoolAt_cons (v20ActiveAt_of_getFromCache hlookup), hprev]
    exact constructCreditPool_readable hbuild
  lookup := by
    intro m block prev pool m' hm hknown hlookup
    exact hnode.getFromCache hm (hknown.resolve_right (cons_ne_nil _ _)) hlookup
  store := by
    intro m block prev pool hm hknown hpool
    exact hm.addToCache (hknown.resolve_right (cons_ne_nil _ _)) hpool

theorem of_getCreditPool {m m' : CCreditPoolManager} (hm : env.Recorded node.accepted m)
    (hmem : index ∈ node.accepted) (h : env.getCreditPool readable index m = .ok (pool, m')) :
    env.creditPoolAt index = .ok pool ∧ env.Recorded node.accepted m' :=
  (hnode.sound readable).of_eval (.inl hmem) hm h

theorem exists_getCreditPool
    (hmem : index ∈ node.accepted) (hpool : env.creditPoolAt index = .ok pool) :
    ∃ m', env.getCreditPool allReadable index node.manager = .ok (pool, m') := by
  refine (hnode.sound allReadable).exists_eval ?_ (.inl hmem) hnode.recorded hpool
  intro m block prev pool hlookup hpool
  rw [creditPoolAt_cons (v20ActiveAt_of_getFromCache hlookup)] at hpool
  exact bind_eq_ok_iff.mp hpool

end Remembers

/-! ### What a step does -/

section Steps

variable {node : CreditNode} {checks : BlockChecks} {fCheck : Bool}
  {block : CBlock} {prev : List CBlock} {m m' : CCreditPoolManager}

variable {answer : Except CreditReject Unit}

theorem thrown_done {e : PoolError} {why : CreditReject} (h : thrown e why m = .done answer m') :
    answer = .error why ∧ m' = m := by
  cases e <;> cases h <;> exact ⟨rfl, rfl⟩

structure DiffPassed (env : CreditPoolEnv) (checks : BlockChecks) (block : CBlock)
    (prev : List CBlock) (cbTx : CCbTx) (creditPool : CCreditPool) : Prop where
  exists_diff : ∃ diff diff', env.newDiff creditPool prev = some diff ∧
    block.withoutCoinbase.foldlM (fun diff tx =>
      diff.processLockUnlockTransaction env tx checks.quorums (nHeight prev)) diff = .ok diff' ∧
    cbTx.creditPoolBalance = diff'.getTotalLocked

structure Passed (env : CreditPoolEnv) (checks : BlockChecks) (fCheck : Bool)
    (block : CBlock) (prev : List CBlock) : Prop where
  exists_cbTx : ∃ optCbTx indexes, env.checkCoinbase fCheck block prev = .ok optCbTx ∧
    env.checkSpecialTxs checks block prev indexes = .ok () ∧
    ∀ cbTx, optCbTx = some cbTx → env.dip0008ActiveAt (block :: prev) = true →
      env.v20ActiveAt (block :: prev) = true →
      ∃ creditPool, env.creditPoolAt prev = .ok creditPool ∧
        env.DiffPassed checks block prev cbTx creditPool

theorem remembers_start : env.Remembers env.start where
  closed := by
    intro block prev hmem
    cases mem_singleton.mp hmem
    exact .inr rfl
  unique := by
    intro index hmem index' hmem' _
    rw [mem_singleton.mp hmem, mem_singleton.mp hmem']
  recorded := by
    rintro hash pool (h | h) <;> cases h

namespace Remembers

variable (hnode : env.Remembers node)
include hnode

theorem checkCreditPoolDiffForBlock
    (hm : env.Recorded node.accepted m) (hprev : prev ∈ node.accepted) {cbTx : CCbTx}
    (h : env.checkCreditPoolDiffForBlock checks block prev cbTx m = .done answer m') :
    env.Recorded node.accepted m' ∧ (answer = .ok () → env.dip0008ActiveAt (block :: prev) = true →
      env.v20ActiveAt (block :: prev) = true →
      ∃ creditPool, env.creditPoolAt prev = .ok creditPool ∧
        env.DiffPassed checks block prev cbTx creditPool) := by
  unfold CreditPoolEnv.checkCreditPoolDiffForBlock at h
  split_ifs at h with hskip
  · cases h
    refine ⟨hm, fun _ hdip8 hv20 => ?_⟩
    simp [hdip8, hv20] at hskip
  · cases hpool : env.getCreditPool checks.readable prev m with
    | error e =>
      simp only [hpool] at h
      obtain ⟨rfl, rfl⟩ := thrown_done h
      exact ⟨hm, fun hok => by cases hok⟩
    | ok result =>
      obtain ⟨creditPool, m₁⟩ := result
      obtain ⟨hat, hm₁⟩ := hnode.of_getCreditPool hm hprev hpool
      simp only [hpool] at h
      cases hdiff : env.newDiff creditPool prev with
      | none => simp [hdiff] at h
      | some diff =>
        simp only [hdiff] at h
        split at h
        · split_ifs at h
          cases h
          exact ⟨hm₁, fun hok => by cases hok⟩
        · rename_i diff' hfold
          cases h
          refine ⟨hm₁, fun hok _ _ => ⟨creditPool, hat, ⟨diff, diff', hdiff, hfold, ?_⟩⟩⟩
          simpa using require_eq_ok_iff.mp hok

theorem knownIndexes (hm : env.Recorded node.accepted m) (hprev : prev ∈ node.accepted)
    {indexes : CRangesSet} (h : env.knownIndexes checks block prev m = .ok (indexes, m')) :
    env.Recorded node.accepted m' := by
  unfold CreditPoolEnv.knownIndexes at h
  split_ifs at h with hv20
  · obtain ⟨⟨creditPool, m₁⟩, hpool, h⟩ := bind_eq_ok_iff.mp h
    cases h
    exact (hnode.of_getCreditPool hm hprev hpool).2
  · cases h
    exact hm

theorem processSpecialTxsInBlock (hprev : prev ∈ node.accepted)
    (h : env.processSpecialTxsInBlock checks fCheck block prev node.manager = .done answer m') :
    env.Recorded node.accepted m' ∧ (answer = .ok () → env.Passed checks fCheck block prev) := by
  unfold CreditPoolEnv.processSpecialTxsInBlock at h
  cases hcoinbase : env.checkCoinbase fCheck block prev with
  | error why =>
    simp only [hcoinbase] at h
    cases h
    exact ⟨hnode.recorded, fun hok => by cases hok⟩
  | ok optCbTx =>
    simp only [hcoinbase] at h
    cases hindexes : env.knownIndexes checks block prev node.manager with
    | error e =>
      simp only [hindexes] at h
      obtain ⟨rfl, rfl⟩ := thrown_done h
      exact ⟨hnode.recorded, fun hok => by cases hok⟩
    | ok result =>
      obtain ⟨indexes, m₁⟩ := result
      have hm₁ := hnode.knownIndexes hnode.recorded hprev hindexes
      simp only [hindexes] at h
      cases hspecial : env.checkSpecialTxs checks block prev indexes with
      | error why =>
        simp only [hspecial] at h
        cases h
        exact ⟨hm₁, fun hok => by cases hok⟩
      | ok u =>
        simp only [hspecial] at h
        cases optCbTx with
        | none =>
          cases h
          exact ⟨hm₁, fun _ => ⟨none, indexes, hcoinbase, hspecial, fun _ h => by cases h⟩⟩
        | some cbTx =>
          simp only at h
          split at h
          · rename_i m₂ hdiff
            cases h
            obtain ⟨hm₂, hpassed⟩ := hnode.checkCreditPoolDiffForBlock hm₁ hprev hdiff
            refine ⟨hm₂, fun _ => ⟨some cbTx, indexes, hcoinbase, hspecial, ?_⟩⟩
            intro cbTx' heq
            cases heq
            exact hpassed rfl
          · rename_i outcome hnotok
            obtain ⟨hm', -⟩ := hnode.checkCreditPoolDiffForBlock hm₁ hprev h
            refine ⟨hm', fun hok => ?_⟩
            subst hok
            exact absurd h (hnotok m')

theorem connect {node' : CreditNode} (h : env.connect node checks fCheck block prev = .ok node') :
    env.Recorded node.accepted node'.manager ∧ (node'.accepted = node.accepted ∨
        node'.accepted = (block :: prev) :: node.accepted ∧
          prev ∈ node.accepted ∧ canIndex node block prev = true ∧
          env.checkBlockTxs block prev = .ok () ∧ env.Passed checks fCheck block prev) := by
  unfold CreditPoolEnv.connect at h
  split_ifs at h with hskip
  · cases h
    exact ⟨hnode.recorded, .inl rfl⟩
  · obtain ⟨hprev, hindex⟩ : prev ∈ node.accepted ∧ canIndex node block prev = true := by
      simpa using hskip
    cases htxs : env.checkBlockTxs block prev with
    | error why =>
      simp only [htxs] at h
      cases h
      exact ⟨hnode.recorded, .inl rfl⟩
    | ok u =>
      simp only [htxs] at h
      split at h
      · cases h
      · rename_i why m hdone
        cases h
        exact ⟨(hnode.processSpecialTxsInBlock hprev hdone).1, .inl rfl⟩
      · rename_i m hdone
        cases h
        obtain ⟨hm, hpassed⟩ := hnode.processSpecialTxsInBlock hprev hdone
        exact ⟨hm, .inr ⟨rfl, hprev, hindex, rfl, hpassed rfl⟩⟩

theorem query {node' : CreditNode} {readable : Uint256 → Bool} {index : List CBlock}
    (h : env.query node readable index = .ok node') :
    env.Recorded node.accepted node'.manager ∧ node'.accepted = node.accepted := by
  unfold CreditPoolEnv.query at h
  by_cases hmem : index ∈ node.accepted
  · rw [if_neg (not_not_intro hmem)] at h
    split at h
    · cases h
    · cases h
      exact ⟨hnode.recorded, rfl⟩
    · rename_i pool m hpool
      cases h
      exact ⟨(hnode.of_getCreditPool hnode.recorded hmem hpool).2, rfl⟩
  · rw [if_pos hmem] at h
    cases h
    exact ⟨hnode.recorded, rfl⟩

theorem forget (keepCache keepDb : Uint256 → Bool) :
    env.Recorded node.accepted (forget node keepCache keepDb).manager := by
  intro hash pool hknown
  refine hnode.recorded hash pool ?_
  rcases hknown with hknown | hknown
  · left
    change (if keepCache hash then _ else _) = _ at hknown
    split_ifs at hknown
    exact hknown
  · right
    change (if keepDb hash then _ else _) = _ at hknown
    split_ifs at hknown
    exact hknown

theorem accept (hm : env.Recorded node.accepted m) (hprev : prev ∈ node.accepted)
    (hindex : canIndex node block prev = true) :
    env.Remembers ⟨m, (block :: prev) :: node.accepted⟩ := by
  have hnew : ∀ index ∈ node.accepted, getBlockHash index = block.hash → index = block :: prev := by
    intro index hmem hhash
    have hor := all_eq_true.mp hindex index hmem
    simpa [hhash] using hor
  refine ⟨?_, ?_, ?_⟩
  · intro block' prev' hmem
    rcases mem_cons.mp hmem with heq | hmem
    · cases heq
      exact .inl (mem_cons_of_mem _ hprev)
    · exact (hnode.closed block' prev' hmem).imp_left (mem_cons_of_mem _)
  · intro index hmem index' hmem' hhash
    rcases mem_cons.mp hmem with rfl | hmem <;>
      rcases mem_cons.mp hmem' with rfl | hmem'
    · rfl
    · exact (hnew index' hmem' hhash.symm).symm
    · exact hnew index hmem hhash
    · exact hnode.unique index hmem index' hmem' hhash
  · intro hash pool hknown
    obtain ⟨index, hmem, hindex⟩ := hm hash pool hknown
    exact ⟨index, mem_cons_of_mem _ hmem, hindex⟩

end Remembers

end Steps

/-- What holds for the genesis block and, by the checks, for every block that
is connected after one for which it holds, holds for all connected blocks. -/
theorem run_invariant {P : List CBlock → Prop} {C : CreditOp → Prop} (hgenesis : P [env.genesis])
    (hstep : ∀ checks fCheck block prev, C (.connect checks fCheck block prev)
      → prev ≠ [] → P prev → env.checkBlockTxs block prev = .ok () → env.Passed
      checks fCheck block prev → P (block :: prev)) {ops : List CreditOp}
    (hops : ∀ op ∈ ops, C op) (h : env.run ops = .ok node) :
    env.Remembers node ∧ [] ∉ node.accepted ∧ ∀ index ∈ node.accepted, P index := by
  refine foldlM_preserves (P := fun node => env.Remembers node ∧ [] ∉ node.accepted ∧
      ∀ index ∈ node.accepted, P index) ?_ ?_ h
  · rintro op node node' hop ⟨hnode, hnil, hall⟩ hrun
    -- a node with the same blocks and sound memory
    have hsame : env.Recorded node.accepted node'.manager → node'.accepted = node.accepted →
        env.Remembers node' ∧ [] ∉ node'.accepted ∧ ∀ index ∈ node'.accepted, P index := by
      intro hm haccepted
      rw [haccepted]
      refine ⟨⟨?_, ?_, ?_⟩, hnil, hall⟩ <;> rw [haccepted]
      · exact hnode.closed
      · exact hnode.unique
      · exact hm
    cases op with
    | connect checks fCheck block prev =>
      obtain ⟨hm, hcases⟩ := hnode.connect hrun
      rcases hcases with haccepted | ⟨haccepted, hprev, hindex, htxs, hpassed⟩
      · exact hsame hm haccepted
      · obtain ⟨m', accepted'⟩ := node'
        subst haccepted
        have hne : prev ≠ [] := fun heq => hnil (heq ▸ hprev)
        refine ⟨hnode.accept hm hprev hindex, ?_, ?_⟩
        · intro hmem
          rcases mem_cons.mp hmem with heq | hmem
          · cases heq
          · exact hnil hmem
        · intro index hmem
          rcases mem_cons.mp hmem with rfl | hmem
          · exact hstep checks fCheck block prev (hops _ hop) hne (hall prev hprev) htxs hpassed
          · exact hall index hmem
    | query readable index =>
      obtain ⟨hm, haccepted⟩ := hnode.query hrun
      exact hsame hm haccepted
    | forget keepCache keepDb =>
      cases hrun
      exact hsame (hnode.forget keepCache keepDb) rfl
  · refine ⟨remembers_start, ?_, ?_⟩
    · intro hmem
      cases mem_singleton.mp hmem
    · intro index hmem
      rw [mem_singleton.mp hmem]
      exact hgenesis

end CreditPoolEnv

end KorshCore

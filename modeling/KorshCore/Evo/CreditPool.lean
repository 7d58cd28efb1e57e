import KorshCore.Evo.AssetLock
import KorshCore.Lib.Memo

/-!
# The credit pool

`evo/creditpool.cpp`: the pool after a block (`ConstructCreditPool`), how it is
found through the cache and the snapshots on disk (`GetCreditPool`).

A `CBlockIndex` is the list of its block and the blocks before it, the newest
one first. `DeploymentActiveAt` for a buried deployment compares the height;
the state of version bits is a parameter. Exceptions and failed assertions are
errors, and only the former are caught.
-/

namespace KorshCore

/-! ## Parameters -/

/-- The further fields of `Consensus::Params` that the credit pool reads, and
`nCreditPoolPeriodBlocks` of `CChainParams`. -/
structure CreditPoolParams extends PaymentParams where
  dip0003Height : Nat
  dip0008Height : Nat
  mnRrHeight : Nat
  withdrawalsHeight : Nat
  creditPoolPeriodBlocks : Nat

structure CCbTx where
  nVersion : Nat
  nHeight : Int
  creditPoolBalance : Int
  deriving DecidableEq, Repr

structure CreditPoolEnv extends AssetEnv where
  params : CreditPoolParams
  /-- `GetTxPayload<CCbTx>(vExtraPayload)`, which cannot read from nothing. -/
  cbTxPayload : List UInt8 → Option CCbTx
  cbTxPayload_nil : cbTxPayload [] = none
  /-- The state of `DEPLOYMENT_V24` after a block. -/
  v24ActiveAfter : List CBlock → Bool
  /-- `nBits` of a block, and the base of the subsidy on the test chains. -/
  nBits : List CBlock → Nat
  difficultyBase : Nat → Nat → Int
  /-- The order in which an `unordered_set` is traversed. -/
  traversal : List UInt64 → List UInt64
  traversal_perm : ∀ indexes, (traversal indexes).Perm indexes
  /-- The genesis block, whose transaction has version 1. -/
  genesis : CBlock
  genesis_nVersion : ∀ tx ∈ genesis.vtx, tx.nVersion = 1

def nHeight (index : List CBlock) : Nat := index.length - 1

namespace CreditPoolEnv

variable (env : CreditPoolEnv)

def cbTx (tx : CTransaction) : Option CCbTx :=
  if tx.nType = transactionCoinbase then env.cbTxPayload tx.vExtraPayload else none

/-- `DeploymentActiveAt` for the buried deployments. -/
def dip0003ActiveAt (index : List CBlock) : Bool :=
  env.params.dip0003Height ≤ nHeight index

def dip0008ActiveAt (index : List CBlock) : Bool :=
  env.params.dip0008Height ≤ nHeight index

def v20ActiveAt (index : List CBlock) : Bool :=
  env.params.v20Height ≤ nHeight index

def withdrawalsActiveAt (index : List CBlock) : Bool :=
  env.params.withdrawalsHeight ≤ nHeight index

/-- `DeploymentActiveAt` for version bits asks about the block before. -/
def v24ActiveAt (index : List CBlock) : Bool := env.v24ActiveAfter index.tail

end CreditPoolEnv

/-! ## The pool after a block -/

structure CCreditPool where
  locked : Int
  currentLimit : Int
  latelyUnlocked : Int
  indexes : CRangesSet
  deriving DecidableEq, Repr

def CCreditPool.empty : CCreditPool := ⟨0, 0, 0, CRangesSet.empty⟩

structure CreditPoolDataPerBlock where
  creditPool : Int
  unlocked : Int
  indexes : List UInt64
  deriving DecidableEq, Repr

inductive PoolError where
  | readFailed
  | unlockData (why : AssetReject)
  | previousHasValue
  | alreadyMined
  | indexDuplicated
  | negativeLimit
  | assertion
  deriving DecidableEq, Repr

/-- `LimitAmountLow`, and so on. -/
def limitAmountLow : Int := 100 * coin
def limitAmountHigh : Int := 1000 * coin
def limitAmountV22 : Int := 2000 * coin
def limitAmountV24 : Int := 4000 * coin

open Except

namespace CreditPoolEnv

variable (env : CreditPoolEnv)

/-- The loop of `GetDataFromUnlockTx` over the outputs. -/
def unlockOutputStep (toUnlock : Int) (txout : CTxOut) : Except AssetReject Int :=
  if moneyRange txout.nValue then .ok (toUnlock + txout.nValue)
  else .error .poolUnlockTxoutOutOfRange

/-- `GetDataFromUnlockTx`: the amount and the index. -/
def getDataFromUnlockTx (tx : CTransaction) : Except AssetReject (Int × UInt64) := do
  let payload ← ofOption .poolUnlockPayload (env.assetUnlock tx)
  let toUnlock ← tx.vout.foldlM unlockOutputStep (payload.fee.toNat : Int)
  .ok (toUnlock, payload.index)

def isAssetUnlock (tx : CTransaction) : Bool :=
  tx.isSpecialTxVersion && tx.nType == transactionAssetUnlock

/-- The loop of `GetCreditDataFromBlock` over the transactions. -/
def blockDataStep (blockData : CreditPoolDataPerBlock) (tx : CTransaction) :
    Except PoolError CreditPoolDataPerBlock :=
  if !isAssetUnlock tx then .ok blockData
  else do
    let (unlocked, index) ← (env.getDataFromUnlockTx tx).mapError PoolError.unlockData
    .ok { blockData with
      unlocked := blockData.unlocked + unlocked
      indexes := if index ∈ blockData.indexes then blockData.indexes
        else blockData.indexes ++ [index] }

/-- `GetCreditDataFromBlock`. `readable` says which blocks can be read from
disk. -/
def getCreditDataFromBlock (readable : Uint256 → Bool) (index : List CBlock) :
    Except PoolError (Option CreditPoolDataPerBlock) :=
  if !env.dip0003ActiveAt index then .ok none
  else
    match index with
    | [] => .ok none
    | block :: _ => do
      require .readFailed (readable block.hash)
      match block.vtx with
      | [] => .ok none
      | coinbase :: _ =>
        if coinbase.vExtraPayload.isEmpty || !coinbase.isSpecialTxVersion then
          .ok none
        else
          match env.cbTxPayload coinbase.vExtraPayload with
          | none => .ok none
          | some cbTx => do
            let blockData ← block.vtx.foldlM env.blockDataStep ⟨cbTx.creditPoolBalance, 0, []⟩
            .ok (some blockData)

/-- One call of `indexes.Add` in `ConstructCreditPool`. -/
def addIndexStep (indexes : CRangesSet) (index : UInt64) : Except PoolError CRangesSet :=
  match indexes.add index with
  | .added indexes => .ok indexes
  | .present => .error .indexDuplicated
  | .assertionFailed => .error .assertion

def distantUnlocked (readable : Uint256 → Bool) (index : List CBlock) : Except PoolError Int :=
  if env.params.creditPoolPeriodBlocks ≤ nHeight index then do
    let distantBlock ← env.getCreditDataFromBlock readable
      (index.drop env.params.creditPoolPeriodBlocks)
    .ok ((distantBlock.map (·.unlocked)).getD 0)
  else .ok 0

/-- The limit of unlocks after a block, under the rules in force. -/
def currentLimit (index : List CBlock) (creditPool latelyUnlocked : Int) : Int :=
  if env.v24ActiveAt index then max 0 (min creditPool (limitAmountV24 - latelyUnlocked))
  else if env.withdrawalsActiveAt index then min creditPool limitAmountV22
  else
    let limit :=
      if limitAmountLow < creditPool + latelyUnlocked then
        max 0 (max limitAmountLow (creditPool / 10) - latelyUnlocked)
      else creditPool
    min limit (limitAmountHigh - latelyUnlocked)

def constructCreditPool (readable : Uint256 → Bool) (index : List CBlock)
    (prev : CCreditPool) : Except PoolError CCreditPool := do
  let optBlockData ← env.getCreditDataFromBlock readable index
  match optBlockData with
  | none =>
    if prev.locked ≠ 0 then .error .previousHasValue
    else if !prev.indexes.isEmpty then .error .alreadyMined
    else .ok CCreditPool.empty
  | some blockData => do
    let indexes ← (env.traversal blockData.indexes).foldlM addIndexStep prev.indexes
    let distantUnlocked ← env.distantUnlocked readable index
    let latelyUnlocked := prev.latelyUnlocked + blockData.unlocked - distantUnlocked
    let currentLimit := env.currentLimit index blockData.creditPool latelyUnlocked
    if currentLimit < 0 then .error .negativeLimit
    else .ok ⟨blockData.creditPool, currentLimit, latelyUnlocked, indexes⟩

end CreditPoolEnv

/-! ## The cache and the snapshots -/

/-- `CCreditPoolManager`: the cache and the snapshots in the database. -/
structure CCreditPoolManager where
  creditPoolCache : Uint256 → Option CCreditPool
  evoDb : Uint256 → Option CCreditPool

def diskSnapshotPeriod : Nat := 576

def getBlockHash : List CBlock → Uint256
  | [] => 0
  | block :: _ => block.hash

/-- `creditPoolCache.insert`. -/
def CCreditPoolManager.remember (m : CCreditPoolManager) (hash : Uint256)
    (pool : CCreditPool) : CCreditPoolManager :=
  ⟨Function.update m.creditPoolCache hash (some pool), m.evoDb⟩

namespace CreditPoolEnv

variable (env : CreditPoolEnv)

def getFromCache (m : CCreditPoolManager) (index : List CBlock) :
    Option (CCreditPool × CCreditPoolManager) :=
  if !env.v20ActiveAt index then some (CCreditPool.empty, m)
  else
    match m.creditPoolCache (getBlockHash index) with
    | some pool => some (pool, m)
    | none =>
      if nHeight index % diskSnapshotPeriod = 0 then
        match m.evoDb (getBlockHash index) with
        | some pool => some (pool, m.remember (getBlockHash index) pool)
        | none => none
      else none

def addToCache (m : CCreditPoolManager) (index : List CBlock)
    (pool : CCreditPool) : CCreditPoolManager :=
  let m := m.remember (getBlockHash index) pool
  if nHeight index % diskSnapshotPeriod = 0 then
    ⟨m.creditPoolCache, Function.update m.evoDb (getBlockHash index) (some pool)⟩
  else m

/-- `CCreditPoolManager::GetCreditPool`: walk back to a known pool, then
construct the pools after it. -/
def getCreditPool (readable : Uint256 → Bool) (index : List CBlock)
    (m : CCreditPoolManager) : Except PoolError (CCreditPool × CCreditPoolManager) :=
  Memo.eval env.getFromCache addToCache CCreditPool.empty (env.constructCreditPool readable) index m

end CreditPoolEnv

/-! ## The check of a block -/

structure CCreditPoolDiff where
  pool : CCreditPool
  newIndexes : List UInt64
  sessionLocked : Int
  sessionUnlocked : Int
  platformReward : Int

namespace CCreditPoolDiff

def getTotalLocked (diff : CCreditPoolDiff) : Int :=
  diff.pool.locked + diff.sessionLocked - diff.sessionUnlocked + diff.platformReward

variable (env : CreditPoolEnv) (diff : CCreditPoolDiff) (tx : CTransaction)

def lock : Except AssetReject CCreditPoolDiff := do
  let _ ← ofOption .poolLockPayload (env.assetLock tx)
  match tx.vout.find? fun txout => startsWithOpReturn txout.scriptPubKey with
  | some txout => .ok { diff with sessionLocked := diff.sessionLocked + txout.nValue }
  | none => .error .poolLockInvalid

def unlock : Except AssetReject CCreditPoolDiff := do
  let (toUnlock, index) ← env.getDataFromUnlockTx tx
  require .poolUnlockTooMuch (diff.sessionUnlocked + toUnlock ≤ diff.pool.currentLimit)
  require .poolUnlockDuplicatedIndex
    (!diff.pool.indexes.contains index && !diff.newIndexes.contains index)
  .ok { diff with
    newIndexes := diff.newIndexes ++ [index]
    sessionUnlocked := diff.sessionUnlocked + toUnlock }

def processLockUnlockTransaction (quorums : QuorumView) (prevHeight : Nat) :
    Except AssetReject CCreditPoolDiff :=
  if !tx.isSpecialTxVersion then .ok diff
  else if tx.nType ≠ transactionAssetLock ∧ tx.nType ≠ transactionAssetUnlock then
    .ok diff
  else do
    checkAssetLockUnlockTx env.toAssetEnv quorums tx prevHeight (some diff.pool.indexes)
    if tx.nType = transactionAssetLock then diff.lock env tx
    else diff.unlock env tx

end CCreditPoolDiff

end KorshCore

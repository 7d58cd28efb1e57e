import KorshCore.Evo.AssetLock
import KorshCore.Lib.SecondaryIndex
import KorshCore.Script.Standard
import KorshCore.Evo.RebuildList

/-!
# The memory pool

`CTxMemPool` of `txmempool.cpp`.

A map is the list of its entries. The links between entries are kept apart from
the entries, so that an entry never changes once it is in the pool. What is
counted for fees and memory, the prioritisation and the fee estimator are not
followed.
-/

namespace KorshCore

open Except SecondaryIndex
open SecondaryIndex (find)

/-! ## Addresses -/

inductive AddressType where
  | unknown
  | p2pkOrP2pkh
  | p2sh
  deriving DecidableEq, Repr

def isPayToPublicKey (script : List UInt8) : Bool :=
  if script.length = 35 then
    (script[1]? == some 2 || script[1]? == some 3) && script[34]? == some 0xac
  else if script.length = 67 then script[1]? == some 4 && script[66]? == some 0xac
  else false

def addressBytesFromScript (hash160 : List UInt8 → Uint160) (script : List UInt8) :
    Option (AddressType × Uint160) :=
  if isPayToScriptHash script then some (.p2sh, uint160OfBytes ((script.drop 2).take 20))
  else if isPayToPublicKeyHash script then
    some (.p2pkOrP2pkh, uint160OfBytes ((script.drop 3).take 20))
  else if isPayToPublicKey script then some (.p2pkOrP2pkh, hash160 ((script.drop 1).dropLast))
  else none

structure CMempoolAddressDeltaKey where
  addressType : AddressType
  addressBytes : Uint160
  txHash : Uint256
  txIndex : Nat
  txSpent : Bool
  deriving DecidableEq, Repr

structure CMempoolAddressDelta where
  time : Int
  amount : Int
  prevHash : Uint256
  prevOut : Nat
  deriving DecidableEq, Repr

structure CSpentIndexValue where
  txHash : Uint256
  txIndex : Nat
  blockHeight : Int
  amount : Int
  addressType : AddressType
  addressBytes : Uint160
  deriving DecidableEq, Repr

/-! ## The pool -/

structure CTxMemPoolEntry where
  tx : CTransaction
  nTime : Int
  validForProTxKey : Uint256
  isKeyChangeProTx : Bool
  deriving DecidableEq, Repr

/-- `m_parents` and `m_children` of an entry. -/
structure TxLinks where
  parents : List Uint256
  children : List Uint256
  deriving DecidableEq, Repr

structure CTxMemPool where
  mapTx : List CTxMemPoolEntry
  links : Uint256 → TxLinks
  mapNextTx : List (COutPoint × CTransaction)
  mapSaplingNullifiers : List (Uint256 × CTransaction)
  mapProTxRefs : List (Uint256 × Uint256)
  mapProTxAddresses : List (NetInfoEntry × Uint256)
  mapProTxPubKeyIDs : List (Uint160 × Uint256)
  mapProTxBlsPubKeyHashes : List (Uint256 × Uint256)
  mapProTxCollaterals : List (COutPoint × Uint256)
  mapAssetUnlockExpiry : List (Uint256 × Int)
  mapAddress : List (CMempoolAddressDeltaKey × CMempoolAddressDelta)
  mapAddressInserted : List (Uint256 × List CMempoolAddressDeltaKey)
  mapSpent : List (COutPoint × CSpentIndexValue)
  mapSpentInserted : List (Uint256 × List COutPoint)

/-- What is read about transactions, and the options of the node. -/
structure MempoolEnv where
  getHash : CTransaction → Uint256
  proRegTx : CTransaction → Option CProRegTx
  proUpServTx : CTransaction → Option CProUpServTx
  proUpRegTx : CTransaction → Option CProUpRegTx
  proUpRevTx : CTransaction → Option CProUpRevTx
  assetUnlock : CTransaction → Option CAssetUnlockPayload
  /-- `CBLSLazyPublicKey::GetHash`. -/
  operatorKeyHash : Option CBLSLazyPublicKey → Uint256
  /-- `::SerializeHash` of an operator key. -/
  serializeKeyHash : Option CBLSLazyPublicKey → Uint256
  hash160 : List UInt8 → Uint160
  /-- `m_dmnman` is set. -/
  isConnected : Bool
  fAddressIndex : Bool
  fSpentIndex : Bool

structure TipList where
  getMN : Uint256 → Option CDeterministicMN
  getMNByCollateral : COutPoint → Option CDeterministicMN

inductive MempoolError where
  /-- `Assert(GetTxPayload(tx))`. -/
  | payload
  /-- `Assert(GetMN(proTxHash))`. -/
  | masternode
  /-- An iterator that is not there is read. -/
  | notFound
  /-- The lock points of an entry are not valid. -/
  | lockPoints
  /-- A loop does not end. -/
  | endless
  deriving DecidableEq, Repr

/-! ## What a transaction puts into the maps -/

section Entries

variable (env : MempoolEnv)

/-- The entries of `mapNextTx`. -/
def nextTxOf (tx : CTransaction) : List (COutPoint × CTransaction) :=
  tx.vin.map fun txin => (txin.prevout, tx)

/-- The entries of `mapSaplingNullifiers`. -/
def saplingNullifiersOf (tx : CTransaction) : List (Uint256 × CTransaction) :=
  tx.sapData.vShieldedSpend.map fun spend => (spend.nullifier, tx)

structure ProTxEntries where
  refs : List (Uint256 × Uint256)
  addresses : List (NetInfoEntry × Uint256)
  pubKeyIDs : List (Uint160 × Uint256)
  blsPubKeyHashes : List (Uint256 × Uint256)
  collaterals : List (COutPoint × Uint256)
  expiry : List (Uint256 × Int)

def ProTxEntries.none : ProTxEntries := ⟨[], [], [], [], [], []⟩

/-- What `addUncheckedProTx` puts into the maps. -/
def proTxEntries (tx : CTransaction) : Except MempoolError ProTxEntries :=
  let txHash := env.getHash tx
  if tx.nType = transactionProviderRegister then do
    let proTx ← ofOption .payload (env.proRegTx tx)
    let collateral := proTx.collateralOutpoint
    .ok {
      refs := if collateral.hash = 0 then [] else [(txHash, collateral.hash)]
      addresses := proTx.netInfo.getEntries.map fun entry => (entry, txHash)
      pubKeyIDs := [(proTx.keyIDOwner, txHash)]
      blsPubKeyHashes := [(env.operatorKeyHash proTx.pubKeyOperator, txHash)]
      collaterals :=
        [(if collateral.hash = 0 then ⟨txHash, collateral.n⟩ else collateral, txHash)]
      expiry := [] }
  else if tx.nType = transactionProviderUpdateService then do
    let proTx ← ofOption .payload (env.proUpServTx tx)
    .ok { ProTxEntries.none with
      refs := [(proTx.proTxHash, txHash)]
      addresses := proTx.netInfo.getEntries.map fun entry => (entry, txHash) }
  else if tx.nType = transactionProviderUpdateRegistrar then do
    let proTx ← ofOption .payload (env.proUpRegTx tx)
    .ok { ProTxEntries.none with
      refs := [(proTx.proTxHash, txHash)]
      blsPubKeyHashes := [(env.operatorKeyHash proTx.pubKeyOperator, txHash)] }
  else if tx.nType = transactionProviderUpdateRevoke then do
    let proTx ← ofOption .payload (env.proUpRevTx tx)
    .ok { ProTxEntries.none with refs := [(proTx.proTxHash, txHash)] }
  else if tx.nType = transactionAssetUnlock then do
    let payload ← ofOption .payload (env.assetUnlock tx)
    .ok { ProTxEntries.none with expiry := [(txHash, payload.getHeightToExpiry)] }
  else .ok .none

/-- The keys that `removeUncheckedProTx` erases from the maps. A reference is
erased together with its value. -/
structure ProTxErased where
  refs : List (Uint256 × Uint256)
  addresses : List NetInfoEntry
  pubKeyIDs : List Uint160
  blsPubKeyHashes : List Uint256
  collaterals : List COutPoint
  expiry : List Uint256

def ProTxErased.none : ProTxErased := ⟨[], [], [], [], [], []⟩

/-- What `removeUncheckedProTx` erases. -/
def proTxErased (tx : CTransaction) : Except MempoolError ProTxErased :=
  let txHash := env.getHash tx
  if tx.nType = transactionProviderRegister then do
    let proTx ← ofOption .payload (env.proRegTx tx)
    let collateral := proTx.collateralOutpoint
    .ok {
      refs := if collateral.isNull then [] else [(txHash, collateral.hash)]
      addresses := proTx.netInfo.getEntries
      pubKeyIDs := [proTx.keyIDOwner]
      blsPubKeyHashes := [env.operatorKeyHash proTx.pubKeyOperator]
      collaterals := [collateral, ⟨txHash, collateral.n⟩]
      expiry := [] }
  else if tx.nType = transactionProviderUpdateService then do
    let proTx ← ofOption .payload (env.proUpServTx tx)
    .ok { ProTxErased.none with
      refs := [(proTx.proTxHash, txHash)]
      addresses := proTx.netInfo.getEntries }
  else if tx.nType = transactionProviderUpdateRegistrar then do
    let proTx ← ofOption .payload (env.proUpRegTx tx)
    .ok { ProTxErased.none with
      refs := [(proTx.proTxHash, txHash)]
      blsPubKeyHashes := [env.operatorKeyHash proTx.pubKeyOperator] }
  else if tx.nType = transactionProviderUpdateRevoke then do
    let proTx ← ofOption .payload (env.proUpRevTx tx)
    .ok { ProTxErased.none with refs := [(proTx.proTxHash, txHash)] }
  else if tx.nType = transactionAssetUnlock then
    .ok { ProTxErased.none with expiry := [txHash] }
  else .ok .none

/-- What `addUncheckedProTx` notes in the entry: the operator key that the
masternode has, and whether the transaction changes it. -/
def proTxKey (tip : TipList) (tx : CTransaction) : Except MempoolError (Uint256 × Bool) :=
  if tx.nType = transactionProviderUpdateRegistrar then do
    let proTx ← ofOption .payload (env.proUpRegTx tx)
    let dmn ← ofOption .masternode (tip.getMN proTx.proTxHash)
    let key := dmn.pdmnState.pubKeyOperator
    .ok (env.serializeKeyHash key, !sameKey key proTx.pubKeyOperator)
  else if tx.nType = transactionProviderUpdateRevoke then do
    let proTx ← ofOption .payload (env.proUpRevTx tx)
    let dmn ← ofOption .masternode (tip.getMN proTx.proTxHash)
    let key := dmn.pdmnState.pubKeyOperator
    .ok (env.serializeKeyHash key, key.isSome)
  else .ok (0, false)

def addressOf (out : CTxOut) : Option (AddressType × Uint160) :=
  addressBytesFromScript env.hash160 out.scriptPubKey

def inputDelta (view : COutPoint → CTxOut) (entry : CTxMemPoolEntry) (input : CTxIn × Nat) :
    Option (CMempoolAddressDeltaKey × CMempoolAddressDelta) :=
  let prevout := input.1.prevout
  (addressOf env (view prevout)).map fun (addressType, bytes) =>
    (⟨addressType, bytes, env.getHash entry.tx, input.2, true⟩,
      ⟨entry.nTime, -(view prevout).nValue, prevout.hash, prevout.n⟩)

def outputDelta (entry : CTxMemPoolEntry) (output : CTxOut × Nat) :
    Option (CMempoolAddressDeltaKey × CMempoolAddressDelta) :=
  (addressOf env output.1).map fun (addressType, bytes) =>
    (⟨addressType, bytes, env.getHash entry.tx, output.2, false⟩,
      ⟨entry.nTime, output.1.nValue, 0, 0⟩)

/-- The entries that `addAddressIndex` makes: the inputs, then the outputs. -/
def addressDeltasOf (view : COutPoint → CTxOut) (entry : CTxMemPoolEntry) :
    List (CMempoolAddressDeltaKey × CMempoolAddressDelta) :=
  entry.tx.vin.zipIdx.filterMap (inputDelta env view entry) ++
    entry.tx.vout.zipIdx.filterMap (outputDelta env entry)

def spentInfo (view : COutPoint → CTxOut) (tx : CTransaction) (input : CTxIn × Nat) :
    Option (COutPoint × CSpentIndexValue) :=
  let prevout := input.1.prevout
  (addressOf env (view prevout)).map fun (addressType, bytes) =>
    (prevout, ⟨env.getHash tx, input.2, -1, (view prevout).nValue, addressType, bytes⟩)

/-- The entries that `addSpentIndex` makes. -/
def spentInfosOf (view : COutPoint → CTxOut) (tx : CTransaction) :
    List (COutPoint × CSpentIndexValue) :=
  tx.vin.zipIdx.filterMap (spentInfo env view tx)

end Entries

namespace CTxMemPool

def new : CTxMemPool :=
  ⟨[], fun _ => ⟨[], []⟩, [], [], [], [], [], [], [], [], [], [], [], []⟩

variable (env : MempoolEnv)

/-- `mapTx.find`. -/
def findTx (pool : CTxMemPool) (hash : Uint256) : Option CTxMemPoolEntry :=
  pool.mapTx.find? fun entry => env.getHash entry.tx = hash

/-- `exists`. -/
def contains (pool : CTxMemPool) (hash : Uint256) : Bool :=
  (pool.findTx env hash).isSome

/-- What is only done if `m_dmnman` is set. -/
def whenConnected {α : Type} (result : Except MempoolError α) (otherwise : α) :
    Except MempoolError α :=
  if env.isConnected then result else .ok otherwise

/-! ## Adding a transaction -/

/-- `UpdateParent` and `UpdateChild` of a new entry. -/
def linkParents (pool : CTxMemPool) (tx : CTransaction) : CTxMemPool :=
  let txHash := env.getHash tx
  let parents := (tx.vin.map fun txin => txin.prevout.hash).dedup.filter (pool.contains env)
  { pool with links := fun hash =>
      if hash = txHash then ⟨parents, []⟩
      else if hash ∈ parents then
        ⟨(pool.links hash).parents, (pool.links hash).children.insert txHash⟩
      else pool.links hash }

def addUncheckedProTx (tx : CTransaction) (pool : CTxMemPool) : Except MempoolError CTxMemPool := do
  let entries ← proTxEntries env tx
  .ok { pool with
    mapProTxRefs := pool.mapProTxRefs ++ entries.refs
    mapProTxAddresses := emplaceAll pool.mapProTxAddresses entries.addresses
    mapProTxPubKeyIDs := emplaceAll pool.mapProTxPubKeyIDs entries.pubKeyIDs
    mapProTxBlsPubKeyHashes :=
      emplaceAll pool.mapProTxBlsPubKeyHashes entries.blsPubKeyHashes
    mapProTxCollaterals := emplaceAll pool.mapProTxCollaterals entries.collaterals
    mapAssetUnlockExpiry := emplaceAll pool.mapAssetUnlockExpiry entries.expiry }

def addUnchecked (tip : TipList) (entry : CTxMemPoolEntry) (pool : CTxMemPool) :
    Except MempoolError CTxMemPool := do
  let tx := entry.tx
  let key ← whenConnected env (proTxKey env tip tx) (0, false)
  let newit : CTxMemPoolEntry := ⟨tx, entry.nTime, key.1, key.2⟩
  let mapTx := if pool.contains env (env.getHash tx) then pool.mapTx
    else pool.mapTx ++ [newit]
  let pool := linkParents env { pool with
    mapTx := mapTx
    mapNextTx := emplaceAll pool.mapNextTx (nextTxOf tx)
    mapSaplingNullifiers :=
      emplaceAll pool.mapSaplingNullifiers (saplingNullifiersOf tx) } tx
  whenConnected env (addUncheckedProTx env tx pool) pool

def addAddressIndex (entry : CTxMemPoolEntry) (view : COutPoint → CTxOut)
    (pool : CTxMemPool) : CTxMemPool :=
  let deltas := addressDeltasOf env view entry
  { pool with
    mapAddress := emplaceAll pool.mapAddress deltas
    mapAddressInserted := emplace pool.mapAddressInserted
      (env.getHash entry.tx, deltas.map Prod.fst) }

def addSpentIndex (entry : CTxMemPoolEntry) (view : COutPoint → CTxOut)
    (pool : CTxMemPool) : CTxMemPool :=
  let infos := spentInfosOf env view entry.tx
  { pool with
    mapSpent := emplaceAll pool.mapSpent infos
    mapSpentInserted := emplace pool.mapSpentInserted (env.getHash entry.tx, infos.map Prod.fst) }

/-- How `Finalize` of `validation.cpp` adds a transaction: `addUnchecked`, and the
optional indexes. -/
def addWithIndexes (tip : TipList) (view : COutPoint → CTxOut)
    (entry : CTxMemPoolEntry) (pool : CTxMemPool) : Except MempoolError CTxMemPool := do
  let pool ← addUnchecked env tip entry pool
  let pool := if env.fAddressIndex then addAddressIndex env entry view pool else pool
  .ok (if env.fSpentIndex then addSpentIndex env entry view pool else pool)

/-! ## Removing transactions -/

def removeAddressIndex (txhash : Uint256) (pool : CTxMemPool) : CTxMemPool :=
  match find pool.mapAddressInserted txhash with
  | none => pool
  | some keys => { pool with
      mapAddress := eraseKeys pool.mapAddress keys
      mapAddressInserted := eraseKeys pool.mapAddressInserted [txhash] }

def removeSpentIndex (txhash : Uint256) (pool : CTxMemPool) : CTxMemPool :=
  match find pool.mapSpentInserted txhash with
  | none => pool
  | some keys => { pool with
      mapSpent := eraseKeys pool.mapSpent keys
      mapSpentInserted := eraseKeys pool.mapSpentInserted [txhash] }

def removeUncheckedProTx (tx : CTransaction) (pool : CTxMemPool) :
    Except MempoolError CTxMemPool := do
  let erased ← proTxErased env tx
  .ok { pool with
    mapProTxRefs := eraseEntries pool.mapProTxRefs erased.refs
    mapProTxAddresses := eraseKeys pool.mapProTxAddresses erased.addresses
    mapProTxPubKeyIDs := eraseKeys pool.mapProTxPubKeyIDs erased.pubKeyIDs
    mapProTxBlsPubKeyHashes :=
      eraseKeys pool.mapProTxBlsPubKeyHashes erased.blsPubKeyHashes
    mapProTxCollaterals := eraseKeys pool.mapProTxCollaterals erased.collaterals
    mapAssetUnlockExpiry := eraseKeys pool.mapAssetUnlockExpiry erased.expiry }

def removeUnchecked (hash : Uint256) (pool : CTxMemPool) : Except MempoolError CTxMemPool := do
  let entry ← ofOption .notFound (pool.findTx env hash)
  let tx := entry.tx
  let pool := { pool with
    mapNextTx := eraseKeys pool.mapNextTx (tx.vin.map CTxIn.prevout)
    mapSaplingNullifiers := eraseKeys pool.mapSaplingNullifiers
      (tx.sapData.vShieldedSpend.map SpendDescription.nullifier) }
  let pool ← whenConnected env (removeUncheckedProTx env tx pool) pool
  let pool := { pool with
    mapTx := pool.mapTx.filter fun entry => env.getHash entry.tx ≠ hash }
  .ok (removeSpentIndex hash (removeAddressIndex hash pool))

/-- The links of `UpdateForRemoveFromMempool`: the entries are no children of
their parents any more, and no parents of their children. -/
def unlink (stage : List Uint256) (links : Uint256 → TxLinks) : Uint256 → TxLinks :=
  let links := stage.foldl (fun links hash =>
    let parents := (links hash).parents
    fun hash' => if hash' ∈ parents then
      ⟨(links hash').parents, (links hash').children.erase hash⟩ else links hash') links
  stage.foldl (fun links hash =>
    let children := (links hash).children
    fun hash' => if hash' ∈ children then
      ⟨(links hash').parents.erase hash, (links hash').children⟩ else links hash') links

def removeStaged (stage : List Uint256) (pool : CTxMemPool) : Except MempoolError CTxMemPool :=
  stage.foldlM (fun pool hash => removeUnchecked env hash pool)
    { pool with links := unlink stage pool.links }

def descend (links : Uint256 → TxLinks) : (turns : Nat) → (stage found : List Uint256) →
    List Uint256
  | 0, _, found => found
  | _ + 1, [], found => found
  | turns + 1, hash :: stage, found =>
    let found := found ++ [hash]
    descend links turns (stage ∪ (links hash).children.filter fun child => child ∉ found) found

/-- `CalculateDescendants`. Each turn finds another entry of the pool. -/
def calculateDescendants (pool : CTxMemPool) (setDescendants : List Uint256)
    (hash : Uint256) : List Uint256 :=
  descend pool.links pool.mapTx.length (if hash ∈ setDescendants then [] else [hash]) setDescendants

/-- The transactions that `removeRecursive` starts from: the transaction itself,
or those that spend its outputs. -/
def removalRoots (origTx : CTransaction) (pool : CTxMemPool) : Except MempoolError (List Uint256) :=
  let hash := env.getHash origTx
  if pool.contains env hash then .ok [hash]
  else do
    let spenders := (List.range origTx.vout.length).filterMap fun i =>
      find pool.mapNextTx ⟨hash, i⟩
    let hashes := spenders.map env.getHash
    require .notFound (hashes.all (pool.contains env))
    .ok hashes.dedup

def removeRecursive (origTx : CTransaction) (pool : CTxMemPool) :
    Except MempoolError CTxMemPool := do
  let txToRemove ← removalRoots env origTx pool
  removeStaged env (txToRemove.foldl pool.calculateDescendants []) pool

/-- `removeForReorg`: `isInvalid` is `check_final_and_mature`, and `hasValidLocks`
is `TestLockPointValidity`. -/
def removeForReorg (isInvalid hasValidLocks : CTxMemPoolEntry → Bool)
    (pool : CTxMemPool) : Except MempoolError CTxMemPool := do
  let txToRemove := (pool.mapTx.filter isInvalid).map fun entry => env.getHash entry.tx
  let pool ← removeStaged env (txToRemove.foldl pool.calculateDescendants []) pool
  require .lockPoints (pool.mapTx.all hasValidLocks)
  .ok pool

/-! ## Conflicts with a block -/

/-- The loops over the transactions that refer to a masternode, in
`removeConflicts` and `removeProTxSpentCollateralConflicts`. -/
def removeRefs (proTxHash : Uint256) : (turns : Nat) → CTxMemPool → Except MempoolError CTxMemPool
  | 0, _ => .error .endless
  | turns + 1, pool =>
    match pool.mapProTxRefs.find? fun ref => ref.1 = proTxHash with
    | none => .ok pool
    | some ref =>
      match pool.findTx env ref.2 with
      | some entry => do
        let pool ← removeRecursive env entry.tx pool
        removeRefs proTxHash turns pool
      | none => removeRefs proTxHash turns { pool with mapProTxRefs := pool.mapProTxRefs.erase ref }

/-- Enough turns: each one removes a reference, or the transaction of one. -/
def removeAllRefs (proTxHash : Uint256) (pool : CTxMemPool) : Except MempoolError CTxMemPool :=
  removeRefs env proTxHash (2 * pool.mapProTxRefs.length + 1) pool

def removeConflictRefs (txConflict : CTransaction) (pool : CTxMemPool) :
    Except MempoolError CTxMemPool :=
  if txConflict.nType = transactionProviderRegister then
    removeAllRefs env (env.getHash txConflict) pool
  else .ok pool

/-- The transaction that spends an input of `tx`, with what refers to it. -/
def removeInputConflict (tx : CTransaction) (pool : CTxMemPool) (txin : CTxIn) :
    Except MempoolError CTxMemPool :=
  match find pool.mapNextTx txin.prevout with
  | none => .ok pool
  | some txConflict =>
    if env.getHash txConflict = env.getHash tx then .ok pool
    else do
      let pool ← removeConflictRefs env txConflict pool
      removeRecursive env txConflict pool

/-- The transaction that reveals a nullifier of `tx`. -/
def removeNullifierConflict (tx : CTransaction) (pool : CTxMemPool)
    (spend : SpendDescription) : Except MempoolError CTxMemPool :=
  match find pool.mapSaplingNullifiers spend.nullifier with
  | none => .ok pool
  | some txConflict =>
    if env.getHash txConflict = env.getHash tx then .ok pool
    else removeRecursive env txConflict pool

def removeConflicts (tx : CTransaction) (pool : CTxMemPool) : Except MempoolError CTxMemPool := do
  let pool ← tx.vin.foldlM (removeInputConflict env tx) pool
  tx.sapData.vShieldedSpend.foldlM (removeNullifierConflict env tx) pool

/-- Remove a transaction that a map names as a conflict with `tx`. -/
def removeNamed (tx : CTransaction) (conflictHash : Option Uint256) (pool : CTxMemPool) :
    Except MempoolError CTxMemPool :=
  match conflictHash with
  | none => .ok pool
  | some conflictHash =>
    if conflictHash = env.getHash tx then .ok pool
    else
      match pool.findTx env conflictHash with
      | none => .ok pool
      | some entry => removeRecursive env entry.tx pool

def removeAddressConflicts (tx : CTransaction) (netInfo : NetInfo) (pool : CTxMemPool) :
    Except MempoolError CTxMemPool :=
  netInfo.getEntries.foldlM (fun pool entry =>
    removeNamed env tx (find pool.mapProTxAddresses entry) pool) pool

/-- `removeProTxPubKeyConflicts` of an owner key. -/
def removeProTxOwnerConflicts (tx : CTransaction) (keyId : Uint160) (pool : CTxMemPool) :
    Except MempoolError CTxMemPool :=
  removeNamed env tx (find pool.mapProTxPubKeyIDs keyId) pool

/-- `removeProTxPubKeyConflicts` of an operator key. -/
def removeProTxPubKeyConflicts (tx : CTransaction) (pubKey : Option CBLSLazyPublicKey)
    (pool : CTxMemPool) : Except MempoolError CTxMemPool :=
  removeNamed env tx
    (find pool.mapProTxBlsPubKeyHashes (env.operatorKeyHash pubKey)) pool

def removeProTxCollateralConflicts (tx : CTransaction) (collateralOutpoint : COutPoint)
    (pool : CTxMemPool) : Except MempoolError CTxMemPool :=
  removeNamed env tx (find pool.mapProTxCollaterals collateralOutpoint) pool

/-- `removeSpentCollateralConflict`, if there is a masternode. -/
def removeSpentCollateralConflict (proTxHash : Option Uint256) (pool : CTxMemPool) :
    Except MempoolError CTxMemPool :=
  match proTxHash with
  | none => .ok pool
  | some proTxHash => removeAllRefs env proTxHash pool

/-- One input in `removeProTxSpentCollateralConflicts`: registrations that are not
mined yet, and masternodes of the list. -/
def removeSpentCollateral (tip : TipList) (pool : CTxMemPool) (txin : CTxIn) :
    Except MempoolError CTxMemPool := do
  let pool ← removeSpentCollateralConflict env
    (find pool.mapProTxCollaterals txin.prevout) pool
  removeSpentCollateralConflict env
    ((tip.getMNByCollateral txin.prevout).map CDeterministicMN.proTxHash) pool

def removeProTxKeyChangedConflicts (proTxHash newKeyHash : Uint256) (pool : CTxMemPool) :
    Except MempoolError CTxMemPool :=
  let conflictingTxs := ((pool.mapProTxRefs.filter fun ref => ref.1 = proTxHash).filterMap
    fun ref => (pool.findTx env ref.2).bind fun entry =>
      if entry.validForProTxKey = newKeyHash then none
      else some (env.getHash entry.tx)).dedup
  conflictingTxs.foldlM (fun pool txHash => do
    let entry ← ofOption .notFound (pool.findTx env txHash)
    removeRecursive env entry.tx pool) pool

/-- What a provider transaction conflicts with. A payload that cannot be read
ends it. -/
def removeProTxTypeConflicts (tx : CTransaction) (pool : CTxMemPool) :
    Except MempoolError CTxMemPool :=
  if tx.nType = transactionProviderRegister then
    match env.proRegTx tx with
    | none => .ok pool
    | some proTx => do
      let pool ← removeAddressConflicts env tx proTx.netInfo pool
      let pool ← removeProTxOwnerConflicts env tx proTx.keyIDOwner pool
      let pool ← removeProTxPubKeyConflicts env tx proTx.pubKeyOperator pool
      let collateral := proTx.collateralOutpoint
      removeProTxCollateralConflicts env tx
        (if collateral.hash = 0 then ⟨env.getHash tx, collateral.n⟩ else collateral) pool
  else if tx.nType = transactionProviderUpdateService then
    match env.proUpServTx tx with
    | none => .ok pool
    | some proTx => removeAddressConflicts env tx proTx.netInfo pool
  else if tx.nType = transactionProviderUpdateRegistrar then
    match env.proUpRegTx tx with
    | none => .ok pool
    | some proTx => do
      let pool ← removeProTxPubKeyConflicts env tx proTx.pubKeyOperator pool
      removeProTxKeyChangedConflicts env proTx.proTxHash
        (env.serializeKeyHash proTx.pubKeyOperator) pool
  else if tx.nType = transactionProviderUpdateRevoke then
    match env.proUpRevTx tx with
    | none => .ok pool
    | some proTx => removeProTxKeyChangedConflicts env proTx.proTxHash
        (env.serializeKeyHash none) pool
  else .ok pool

def removeProTxConflicts (tip : TipList) (tx : CTransaction) (pool : CTxMemPool) :
    Except MempoolError CTxMemPool := do
  let pool ← tx.vin.foldlM (removeSpentCollateral env tip) pool
  removeProTxTypeConflicts env tx pool

def removeMined (tx : CTransaction) (pool : CTxMemPool) : Except MempoolError CTxMemPool :=
  if pool.contains env (env.getHash tx) then removeStaged env [env.getHash tx] pool
  else .ok pool

/-- One transaction of `removeForBlock`. -/
def removeForBlockTx (tip : TipList) (pool : CTxMemPool) (tx : CTransaction) :
    Except MempoolError CTxMemPool := do
  let pool ← removeMined env tx pool
  let pool ← removeConflicts env tx pool
  whenConnected env (removeProTxConflicts env tip tx pool) pool

def removeForBlock (tip : TipList) (vtx : List CTransaction) (pool : CTxMemPool) :
    Except MempoolError CTxMemPool :=
  vtx.foldlM (removeForBlockTx env tip) pool

def removeExpiredAssetUnlock (nBlockHeight : Int) (pool : CTxMemPool) :
    Except MempoolError CTxMemPool := do
  let expired := pool.mapAssetUnlockExpiry.filter fun item => item.2 < nBlockHeight
  let entries ← expired.mapM fun item => ofOption .notFound (pool.findTx env item.1)
  entries.foldlM (fun pool entry => removeRecursive env entry.tx pool) pool

def clear (pool : CTxMemPool) : CTxMemPool :=
  { pool with
    mapTx := []
    links := fun _ => ⟨[], []⟩
    mapNextTx := []
    mapSaplingNullifiers := []
    mapProTxAddresses := []
    mapProTxPubKeyIDs := [] }

end CTxMemPool

end KorshCore

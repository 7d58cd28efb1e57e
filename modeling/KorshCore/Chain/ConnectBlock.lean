import KorshCore.Chain.CheckTransaction
import KorshCore.Chain.View
import KorshCore.Evo.AssetLock

/-!
# Connecting blocks

`CheckTxInputs` of `consensus/tx_verify.cpp`, and `CheckBlock`, `UpdateCoins`
and the loop of `ConnectBlock` of `validation.cpp`, over a `ChainView`.

`ProcessSpecialTxsInBlock`, which runs before the loop and only reads the
view, is modelled with the masternode list and the credit pool. What else
`ConnectBlock` checks without changing the view (the header, scripts, sequence
locks, chain locks and payments) is given by `ConnectContext`.
-/

namespace KorshCore

open Except

/-- The hash of a transaction, the commitment tree and the payloads of asset
unlocks. -/
structure ChainEnv where
  getHash : CTransaction → Uint256
  coins : CoinsEnv
  assets : AssetEnv

/-- `CTxUndo`: the coins that the inputs of a transaction spent. -/
structure CTxUndo where
  vprevout : List Coin
  deriving DecidableEq, Repr

inductive ConnectError where
  | reject (why : TxReject)
  /-- "bad-cb-missing". -/
  | cbMissing
  /-- "bad-cb-multiple". -/
  | cbMultiple
  /-- "bad-txns-BIP30". -/
  | bip30
  /-- "bad-txns-accumulated-fee-outofrange". -/
  | accumulatedFee
  /-- "bad-cb-amount". -/
  | cbAmount
  /-- "bad-cb-payee". -/
  | cbPayee
  /-- A check that `ConnectContext` decides. -/
  | other
  /-- `assert(hashPrevBlock == view.GetBestBlock())`. -/
  | assertBestBlock
  /-- `assert(is_spent)`. -/
  | assertSpent
  | assertAnchor
  | tree (e : TreeError)
  deriving DecidableEq, Repr

/-- The block index entry and the checks that are not followed here. -/
structure ConnectContext where
  nHeight : Nat
  hashPrevBlock : Uint256
  hashGenesisBlock : Uint256
  fEnforceBIP30 : Bool
  /-- The header, the merkle root, the size and the signature operations, and
  that no lock conflicts. -/
  checkBlock : CBlock → Bool
  /-- `SequenceLocks` and `CheckInputScripts`, from the coins that are spent. -/
  checkScripts : CTransaction → List (Option Coin) → Bool
  /-- `IsBlockValueValid` and `IsBlockPayeeValid`, from the fees. -/
  isBlockValueValid : CBlock → Int → Bool
  isBlockPayeeValid : CBlock → Int → Bool

/-! ## The inputs of a transaction -/

def coinbaseMaturity : Int := 100

def getAssetUnlockFee (assets : AssetEnv) (tx : CTransaction) : Except TxReject Int := do
  let payload ← ofOption .assetUnlockPayload (assets.assetUnlock tx)
  let txfee : Int := payload.fee.toNat
  require .assetUnlockFee (txfee != 0 && moneyRange txfee)
  .ok txfee

namespace ChainView

variable (view : ChainView)

def haveInputs (tx : CTransaction) : Bool :=
  tx.isCoinBase || tx.vin.all fun txin => (view.coins txin.prevout).isSome

def haveShieldedRequirements (tx : CTransaction) : Bool :=
  !tx.hasShieldedPayload || tx.sapData.vShieldedSpend.all fun spend =>
    !view.nullifiers spend.nullifier && (view.anchors.anchors spend.anchor).isSome

/-- One turn of the loop of `CheckTxInputs`. The coin is there after
`HaveInputs`. -/
def checkInput (nSpendHeight : Nat) (nValueIn : Int) (txin : CTxIn) : Except TxReject Int := do
  let coin ← ofOption .inputsMissingOrSpent (view.coins txin.prevout)
  require .prematureSpend
    (!(coin.fCoinBase && (nSpendHeight : Int) - coin.nHeight < coinbaseMaturity))
  require .inputValues (moneyRange coin.out.nValue && moneyRange (nValueIn + coin.out.nValue))
  .ok (nValueIn + coin.out.nValue)

/-- What the Sapling part adds to the value of the inputs. -/
def addValueBalance (tx : CTransaction) (nValueIn : Int) : Except TxReject Int :=
  if tx.hasShieldedPayloadField && 0 < tx.sapData.valueBalance then do
    require .inputValues (moneyRange tx.sapData.valueBalance &&
      moneyRange (nValueIn + tx.sapData.valueBalance))
    .ok (nValueIn + tx.sapData.valueBalance)
  else .ok nValueIn

/-- `CheckTxInputs`: the fee of the transaction. -/
def checkTxInputs (assets : AssetEnv) (nSpendHeight : Nat) (tx : CTransaction) :
    Except TxReject Int :=
  if tx.isPlatformTransfer then getAssetUnlockFee assets tx
  else do
    require .inputsMissingOrSpent (view.haveInputs tx)
    require .saplingRequirements (view.haveShieldedRequirements tx)
    let nValueIn ← tx.vin.foldlM (view.checkInput nSpendHeight) 0
    let nValueIn ← addValueBalance tx nValueIn
    let valueOut ← ofOption .valueOutThrows tx.getValueOut
    require .inBelowOut (valueOut ≤ nValueIn)
    require .feeOutOfRange (moneyRange (nValueIn - valueOut))
    .ok (nValueIn - valueOut)

end ChainView

/-! ## The coins of a transaction -/

section Update

variable (env : ChainEnv)

def spendInputs : List CTxIn → ChainView → Except ConnectError (List Coin × ChainView)
  | [], view => .ok ([], view)
  | txin :: vin, view => do
    let coin ← ofOption .assertSpent (view.coins txin.prevout)
    let (coins, view) ← spendInputs vin (view.call env.coins (.spendCoin txin.prevout))
    .ok (coin :: coins, view)

def outputCoin (tx : CTransaction) (nHeight : Nat) (out : CTxOut) : Coin :=
  ⟨out, tx.isCoinBase, nHeight⟩

/-- The calls of `AddCoins`. Only a coinbase may overwrite. -/
def addCoinsCalls (tx : CTransaction) (nHeight : Nat) : List CoinsOp :=
  tx.vout.zipIdx.map fun out =>
    .addCoin ⟨env.getHash tx, out.2⟩ (outputCoin tx nHeight out.1) tx.isCoinBase

def addCoins (tx : CTransaction) (nHeight : Nat) (view : ChainView) : ChainView :=
  view.calls env.coins (addCoinsCalls env tx nHeight)

def appendOutputs (tree : IncrementalMerkleTree) (outputs : List OutputDescription) :
    Except TreeError IncrementalMerkleTree :=
  outputs.foldlM (fun (tree : IncrementalMerkleTree) output =>
    tree.appendSapling env.coins.hash output.cmu) tree

def pushOutputs (tx : CTransaction) (view : ChainView) : Except ConnectError ChainView :=
  if tx.sapData.vShieldedOutput.isEmpty then .ok view
  else do
    let tree ← ofOption .assertAnchor (view.anchors.anchors view.anchors.best)
    let tree ← (appendOutputs env tree tx.sapData.vShieldedOutput).mapError .tree
    .ok (view.call env.coins (.pushAnchor tree))

/-- The Sapling part of `UpdateCoins`. -/
def updateSapling (tx : CTransaction) (view : ChainView) : Except ConnectError ChainView :=
  if tx.hasShieldedPayload then pushOutputs env tx (view.call env.coins (.setNullifiers tx true))
  else .ok view

/-- The inputs that `UpdateCoins` spends. -/
def CTransaction.spentInputs (tx : CTransaction) : List CTxIn :=
  if tx.isCoinBase then [] else tx.vin

def updateCoins (nHeight : Nat) (tx : CTransaction) (view : ChainView) :
    Except ConnectError (CTxUndo × ChainView) := do
  let (vprevout, view) ← spendInputs env tx.spentInputs view
  let view := addCoins env tx nHeight view
  let view ← updateSapling env tx view
  .ok (⟨vprevout⟩, view)

end Update

/-! ## A block -/

section Block

variable (env : ChainEnv) (ctx : ConnectContext)

/-- What the loop of `ConnectBlock` changes. -/
structure Connecting where
  nFees : Int
  vtxundo : List CTxUndo
  view : ChainView

def addFee (state : Connecting) (tx : CTransaction) : Except ConnectError Int :=
  if tx.isCoinBase then .ok state.nFees
  else do
    let txfee ← (state.view.checkTxInputs env.assets ctx.nHeight tx).mapError .reject
    require .accumulatedFee (moneyRange (state.nFees + txfee))
    .ok (state.nFees + txfee)

def connectTx (state : Connecting) (tx : CTransaction) : Except ConnectError Connecting := do
  let nFees ← addFee env ctx state tx
  require .other (ctx.checkScripts tx (tx.vin.map fun txin => state.view.coins txin.prevout))
  let (txundo, view) ← updateCoins env ctx.nHeight tx state.view
  .ok ⟨nFees, state.vtxundo ++ [txundo], view⟩

def checkBlock (block : CBlock) : Except ConnectError Unit := do
  require .other (ctx.checkBlock block)
  require .cbMissing ((block.vtx.head?.map CTransaction.isCoinBase).getD false)
  require .cbMultiple (block.withoutCoinbase.all fun tx => !tx.isCoinBase)
  (block.vtx.forM checkTransaction).mapError .reject

def noOverwrite (block : CBlock) (view : ChainView) : Bool :=
  block.vtx.all fun tx => (List.range tx.vout.length).all fun o =>
    (view.coins ⟨env.getHash tx, o⟩).isNone

/-- `ConnectBlock`: the undo data and the view. The transactions of the genesis
block are not connected, and no undo data is kept for the coinbase. -/
def connectBlock (block : CBlock) (view : ChainView) :
    Except ConnectError (List CTxUndo × ChainView) := do
  checkBlock ctx block
  require .assertBestBlock (view.bestBlock == ctx.hashPrevBlock)
  if block.hash = ctx.hashGenesisBlock then
    .ok ([], view.call env.coins (.setBestBlock block.hash))
  else do
    require .bip30 (!ctx.fEnforceBIP30 || noOverwrite env block view)
    let state ← block.vtx.foldlM (connectTx env ctx) ⟨0, [], view⟩
    require .cbAmount (ctx.isBlockValueValid block state.nFees)
    require .cbPayee (ctx.isBlockPayeeValid block state.nFees)
    .ok (state.vtxundo.tail, state.view.call env.coins (.setBestBlock block.hash))

end Block

end KorshCore

import KorshCore.Chain.ShieldedSpends
import KorshCore.Sapling.TreeRoot

/-!
# Disconnecting blocks

`DisconnectBlock` of `validation.cpp` over a `ChainView`: the transactions are
undone in reverse, with the coins of the undo data, and the anchors that the
block made are popped.

What else is undone (the masternode list and the optional indexes) does not
touch the view.
-/

namespace KorshCore

open Except

inductive DisconnectError where
  /-- `DISCONNECT_FAILED`. -/
  | failed
  | assertAnchor
  | tree (e : TreeError)
  deriving DecidableEq, Repr

section Disconnect

variable (env : ChainEnv) (ctx : ConnectContext) (files : BlockFiles) (fEnforceBIP30 : Bool)

/-! ## The commitment tree -/

def CTransaction.makesRoot (tx : CTransaction) : Bool :=
  tx.hasShieldedPayload && !tx.sapData.vShieldedOutput.isEmpty

def saplingRootsInBlock : IncrementalMerkleTree → List CTransaction →
    Except TreeError (List Uint256)
  | _, [] => .ok []
  | tree, tx :: txs =>
    if tx.makesRoot then do
      let tree ← appendOutputs env tree tx.sapData.vShieldedOutput
      let roots ← saplingRootsInBlock tree txs
      .ok (tree.root env.coins.hash :: roots)
    else saplingRootsInBlock tree txs

def popAnchor (view : ChainView) (newrt : Uint256) : Except DisconnectError ChainView := do
  require .assertAnchor (view.anchors.best == newrt ||
    (view.anchors.anchors view.anchors.best).isSome)
  .ok (view.call env.coins (.popAnchor newrt))

/-! ## Transactions -/

def maxOutputsPerBlock : Nat := 2000000 / 9

/-- `AccessByTxid`: the first unspent coin of the transaction. -/
def accessByTxid (view : ChainView) (txid : Uint256) : Option Coin :=
  (List.range maxOutputsPerBlock).findSome? fun n => view.coins ⟨txid, n⟩

structure Disconnecting where
  fClean : Bool
  view : ChainView

def spendOutput (tx : CTransaction) (state : Disconnecting) (out : CTxOut × Nat) : Disconnecting :=
  if isUnspendable out.1.scriptPubKey then state
  else
    let o : COutPoint := ⟨env.getHash tx, out.2⟩
    ⟨state.fClean && (state.view.coins o == some (outputCoin tx ctx.nHeight out.1) ||
        tx.isCoinBase && !fEnforceBIP30),
      state.view.call env.coins (.spendCoin o)⟩

/-- The coin that `ApplyTxInUndo` adds. Without a height it takes the data of
another output. -/
def restoredCoin (undo : Coin) (view : ChainView) (out : COutPoint) : Except DisconnectError Coin :=
  if undo.nHeight = 0 then do
    let alternate ← ofOption .failed (accessByTxid view out.hash)
    .ok { undo with nHeight := alternate.nHeight, fCoinBase := alternate.fCoinBase }
  else .ok undo

def applyTxInUndo (state : Disconnecting) (input : CTxIn × Coin) :
    Except DisconnectError Disconnecting := do
  let out := input.1.prevout
  let fClean := (state.view.coins out).isNone
  let coin ← restoredCoin input.2 state.view out
  .ok ⟨state.fClean && fClean, state.view.call env.coins (.addCoin out coin (!fClean))⟩

def restoreInputs (tx : CTransaction) (txundo : CTxUndo) (state : Disconnecting) :
    Except DisconnectError Disconnecting :=
  if txundo.vprevout.length ≠ tx.vin.length then .error .failed
  else (tx.vin.zip txundo.vprevout).reverse.foldlM (applyTxInUndo env) state

def restoreUndo (tx : CTransaction) (state : Disconnecting) :
    Option CTxUndo → Except DisconnectError Disconnecting
  | none => .ok state
  | some txundo => restoreInputs env tx txundo state

def disconnectTx (state : Disconnecting) (entry : CTransaction × Option CTxUndo) :
    Except DisconnectError Disconnecting := do
  let tx := entry.1
  let state := tx.vout.zipIdx.foldl (spendOutput env ctx fEnforceBIP30 tx) state
  let state ← restoreUndo env tx state entry.2
  .ok ⟨state.fClean, if tx.hasShieldedPayload then
    state.view.call env.coins (.setNullifiers tx false) else state.view⟩

end Disconnect

end KorshCore

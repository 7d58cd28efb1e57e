import KorshCore.Sapling.IncrementalMerkleTree

/-!
# The Sapling notes of a wallet

`RebuildWitnesses` of `wallet/sapling_wallet.cpp`. What the wallet knows about
the place of its notes in the commitment tree is thrown away and found again
from the blocks of the active chain.

A block that cannot be read ends the replay. Nothing is restored then.
Decryption, derivation of nullifiers and keys are parameters.
-/

namespace KorshCore

open Except

/-- `SaplingNoteData`, without the address and the copies of the plaintext. -/
structure SaplingNoteData (K : Type) where
  witnesses : List IncrementalWitness
  ivk : Option K
  witnessHeight : Int
  nullifier : Option Uint256

/-- An entry of `mapSaplingNoteData` of the wallet transaction `txid`. -/
structure WalletNote (K : Type) where
  txid : Uint256
  op : COutPoint
  nd : SaplingNoteData K

/-- `SaplingWallet`, with the transactions of its wallet. `notes` are those of
all transactions in the order of the maps, and `saplingSpends` are the entries
of the multimap in the order in which they were added. -/
structure SaplingWallet (K : Type) where
  mapWallet : Uint256 → Option CTransaction
  notes : List (WalletNote K)
  saplingSpends : List (Uint256 × Uint256)
  nullifiersToNotes : Uint256 → Option COutPoint

/-- What the wallet takes from elsewhere, with `F` for full viewing keys and `N`
for notes. -/
structure SaplingEnv (K F N : Type) where
  getHash : CTransaction → Uint256
  merkle : MerkleHash
  nKSHShieldHeight : Int
  /-- `SaplingNotePlaintext::decrypt` and `note`. -/
  decrypt : K → OutputDescription → Option N
  /-- `GetFullViewingKey`. -/
  fullViewingKey : K → Option F
  /-- `SaplingNote::nullifier`. -/
  noteNullifier : N → F → BitVec 64 → Option Uint256

/-- The active chain: the height of its tip, if there is a chain with a tip, and
its blocks, as far as they can be read. -/
structure WalletChain where
  height : Option Nat
  findBlock : Nat → Option CBlock

def WalletChain.readTxs (chain : WalletChain) : List Nat → List CTransaction
  | [] => []
  | height :: heights =>
    match chain.findBlock height with
    | none => []
    | some block => block.vtx ++ readTxs chain heights

variable {K F N : Type}

namespace SaplingNoteData

def isMyNote (nd : SaplingNoteData K) : Bool := nd.ivk.isSome

/-- `ClearWitnesses`, for one note. -/
def cleared (nd : SaplingNoteData K) : SaplingNoteData K :=
  { nd with witnesses := [], witnessHeight := -1, nullifier := none }

/-- `AppendCommitmentToWalletWitnesses`, for one note. -/
def appendCommitment (H : MerkleHash) (cmu : Uint256) (nd : SaplingNoteData K) :
    Except TreeError (SaplingNoteData K) :=
  match nd.witnesses with
  | [] => .ok nd
  | witness :: rest =>
    if nd.isMyNote then do
      let witness ← witness.append H saplingTreeDepth cmu
      .ok { nd with witnesses := witness :: rest }
    else .ok nd

def pushWitness (witness : IncrementalWitness) (height : Nat)
    (nd : SaplingNoteData K) : SaplingNoteData K :=
  { nd with witnesses := witness :: nd.witnesses, witnessHeight := height }

end SaplingNoteData

def WalletNote.set (note : WalletNote K) (nd : SaplingNoteData K) :
    WalletNote K := { note with nd := nd }

structure Replay (K : Type) where
  tree : IncrementalMerkleTree
  notes : List (WalletNote K)
  saplingSpends : List (Uint256 × Uint256)

namespace SaplingEnv

variable (env : SaplingEnv K F N)

/-- One turn of the loop over the outputs. The note of the output, if the wallet
has it, gets a witness. -/
def replayOutput (height : Nat) (txid : Uint256)
    (st : IncrementalMerkleTree × List (WalletNote K)) (output : OutputDescription × Nat) :
    Except TreeError (IncrementalMerkleTree × List (WalletNote K)) := do
  let notes ← st.2.mapM fun note =>
    (note.nd.appendCommitment env.merkle output.1.cmu).map note.set
  let tree ← st.1.appendSapling env.merkle output.1.cmu
  .ok (tree, notes.map fun note =>
    if note.txid = txid ∧ note.op = ⟨txid, output.2⟩ ∧ note.nd.isMyNote then
      note.set (note.nd.pushWitness tree.witness height)
    else note)

/-- `AddToSaplingSpends` for the spends of a transaction. -/
def spendsOf (tx : CTransaction) : List (Uint256 × Uint256) :=
  if tx.hasShieldedPayload then
    tx.sapData.vShieldedSpend.map fun spend => (spend.nullifier, env.getHash tx)
  else []

def replayTx (height : Nat) (st : Replay K) (tx : CTransaction) : Except TreeError (Replay K) :=
  if tx.hasShieldedPayload then do
    let (tree, notes) ← tx.sapData.vShieldedOutput.zipIdx.foldlM
      (env.replayOutput height (env.getHash tx)) (st.tree, st.notes)
    .ok ⟨tree, notes, st.saplingSpends ++ env.spendsOf tx⟩
  else .ok st

/-- The loop over the heights. It ends at a block that cannot be read. -/
def replayBlocks (chain : WalletChain) : List Nat → Replay K → Except TreeError (Bool × Replay K)
  | [], st => .ok (true, st)
  | height :: heights, st =>
    match chain.findBlock height with
    | none => .ok (false, st)
    | some block => do
      let st ← block.vtx.foldlM (env.replayTx height) st
      replayBlocks chain heights st

def decryptNote (tx : CTransaction) (op : COutPoint) (nd : SaplingNoteData K) : Option N := do
  let ivk ← nd.ivk
  let output ← tx.sapData.vShieldedOutput[op.n]?
  env.decrypt ivk output

/-- The nullifier of a note from the position of its first witness. -/
def nullifierOf (w : SaplingWallet K) (note : WalletNote K) : Option Uint256 := do
  let witness ← note.nd.witnesses.head?
  let ivk ← note.nd.ivk
  let tx ← w.mapWallet note.txid
  let plain ← env.decryptNote tx note.op note.nd
  let fvk ← env.fullViewingKey ivk
  let position ← witness.position
  env.noteNullifier plain fvk position

end SaplingEnv

namespace SaplingWallet

def hasSaplingNotes (w : SaplingWallet K) : Bool := w.notes.any (·.nd.isMyNote)

def clearWitnesses (w : SaplingWallet K) : SaplingWallet K :=
  { w with
    notes := w.notes.map fun note => note.set note.nd.cleared
    nullifiersToNotes := fun _ => none }

/-- The last loop of `RebuildWitnesses`. -/
def deriveNullifiers (env : SaplingEnv K F N) (w : SaplingWallet K) : SaplingWallet K :=
  { w with
    notes := w.notes.map fun note => note.set { note.nd with
      nullifier := (env.nullifierOf w note).or note.nd.nullifier }
    nullifiersToNotes := (w.notes.filterMap fun note =>
        (env.nullifierOf w note).map (·, note.op)).foldl
      (fun known entry => Function.update known entry.1 (some entry.2))
      w.nullifiersToNotes }

def replayHeights (env : SaplingEnv K F N) (chain : WalletChain) : List Nat :=
  match chain.height with
  | none => []
  | some tip =>
    if env.nKSHShieldHeight < 0 then []
    else List.range' env.nKSHShieldHeight.toNat (tip + 1 - env.nKSHShieldHeight.toNat)

def rebuildWitnesses (env : SaplingEnv K F N) (chain : WalletChain)
    (w : SaplingWallet K) : Except TreeError (Bool × SaplingWallet K) :=
  if !w.hasSaplingNotes then .ok (true, w)
  else
    let w := w.clearWitnesses
    match chain.height with
    | none => .ok (true, w)
    | some tip =>
      if env.nKSHShieldHeight < 0 ∨ (tip : Int) < env.nKSHShieldHeight then .ok (true, w)
      else do
        let (done, st) ← env.replayBlocks chain (replayHeights env chain)
          ⟨.empty, w.notes, w.saplingSpends⟩
        let w := { w with notes := st.notes, saplingSpends := st.saplingSpends }
        .ok (done, if done then w.deriveNullifiers env else w)

end SaplingWallet

end KorshCore

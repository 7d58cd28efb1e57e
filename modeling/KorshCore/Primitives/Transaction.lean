import KorshCore.Consensus.Params

/-!
# Transactions, blocks and coins

The data of `primitives/transaction.h`, `primitives/block.h`,
`sapling/sapling_transaction.h` and `coins.h`: transactions with their Sapling
part and extra payload, blocks, and the `Coin` of an unspent output.

A `uint256` is a 256-bit word, and the null hash is zero.
-/

namespace KorshCore

abbrev Uint256 := BitVec 256

instance : LawfulBEq Uint256 := inferInstance

structure COutPoint where
  hash : Uint256
  n : Nat
  deriving DecidableEq, Repr

namespace COutPoint

def nullIndex : Nat := 0xffffffff

def isNull (prevout : COutPoint) : Bool :=
  prevout.hash == 0 && prevout.n == nullIndex

end COutPoint

structure CTxIn where
  prevout : COutPoint
  scriptSig : List UInt8
  nSequence : Nat
  deriving DecidableEq, Repr

structure CTxOut where
  nValue : Int
  scriptPubKey : List UInt8
  deriving DecidableEq, Repr

def opReturn : UInt8 := 0x6a

def maxScriptSize : Nat := 10000

def isUnspendable (script : List UInt8) : Bool :=
  script.head? == some opReturn || maxScriptSize < script.length

namespace CTxOut

/-- `CTxOut::SetNull`. -/
def null : CTxOut := ⟨-1, []⟩

def isNull (out : CTxOut) : Bool := out.nValue == -1

end CTxOut

structure SpendDescription where
  cv : Uint256
  anchor : Uint256
  nullifier : Uint256
  rk : Uint256
  zkproof : List UInt8
  spendAuthSig : List UInt8
  deriving DecidableEq, Repr

structure OutputDescription where
  cv : Uint256
  cmu : Uint256
  ephemeralKey : Uint256
  encCiphertext : List UInt8
  outCiphertext : List UInt8
  zkproof : List UInt8
  deriving DecidableEq, Repr

structure SaplingTxData where
  valueBalance : Int
  vShieldedSpend : List SpendDescription
  vShieldedOutput : List OutputDescription
  bindingSig : List UInt8
  deriving DecidableEq, Repr

namespace SaplingTxData

def hasBindingSig (sapData : SaplingTxData) : Bool :=
  sapData.bindingSig.any (· != 0)

def isEmpty (sapData : SaplingTxData) : Bool :=
  sapData.valueBalance == 0 && sapData.vShieldedSpend.isEmpty &&
    sapData.vShieldedOutput.isEmpty && !sapData.hasBindingSig

end SaplingTxData

/-- The values of `nType` that the source names. -/
def transactionNormal : Nat := 0
def transactionProviderRegister : Nat := 1
def transactionProviderUpdateService : Nat := 2
def transactionProviderUpdateRegistrar : Nat := 3
def transactionProviderUpdateRevoke : Nat := 4
def transactionCoinbase : Nat := 5
def transactionQuorumCommitment : Nat := 6
def transactionMnhfSignal : Nat := 7
def transactionAssetLock : Nat := 8
def transactionAssetUnlock : Nat := 9

structure CTransaction where
  vin : List CTxIn
  vout : List CTxOut
  nVersion : Int
  nType : Nat
  nLockTime : Nat
  sapData : SaplingTxData
  vExtraPayload : List UInt8
  deriving DecidableEq, Repr

namespace CTransaction

variable (tx : CTransaction)

def isCoinBase : Bool :=
  match tx.vin with
  | [txin] => txin.prevout.isNull
  | _ => false

def isSpecialTxVersion : Bool := 3 ≤ tx.nVersion

/-- `CTransaction::IsShieldedTxVersion`. Special transactions already use
version 3, so Sapling starts at 4. -/
def isShieldedTxVersion : Bool := 4 ≤ tx.nVersion

def hasShieldedPayloadField : Bool := tx.isShieldedTxVersion

def hasShieldedPayload : Bool :=
  tx.hasShieldedPayloadField && !tx.sapData.isEmpty

def isPlatformTransfer : Bool :=
  tx.isSpecialTxVersion && tx.nType == transactionAssetUnlock

def hasExtraPayloadField : Bool :=
  tx.isSpecialTxVersion && tx.nType != transactionNormal

/-- Add an output to the total, or throw "value out of range". -/
def addValueOut (nValueOut nValue : Int) : Option Int :=
  if moneyRange nValue && moneyRange (nValueOut + nValue) then some (nValueOut + nValue)
  else none

/-- `CTransaction::GetValueOut`, or nothing where it throws. -/
def getValueOut : Option Int := do
  let nValueOut ← tx.vout.foldlM (fun sum out => addValueOut sum out.nValue) 0
  if tx.hasShieldedPayloadField && tx.sapData.valueBalance < 0 then
    addValueOut nValueOut (-tx.sapData.valueBalance)
  else some nValueOut

/-- The Sapling spends that count: those of a transaction whose version has
the field. -/
def shieldedSpends : List SpendDescription :=
  if tx.hasShieldedPayloadField then tx.sapData.vShieldedSpend else []

end CTransaction

/-- The transactions of a block, with the coinbase first, and its hash. -/
structure CBlock where
  hash : Uint256
  vtx : List CTransaction
  deriving DecidableEq, Repr

def CBlock.withoutCoinbase (block : CBlock) : List CTransaction := block.vtx.tail

/-- `Coin`: an unspent output, or the null output of a spent one. -/
structure Coin where
  out : CTxOut
  fCoinBase : Bool
  nHeight : Nat
  deriving DecidableEq, Repr

namespace Coin

/-- `Coin::Clear`, also the coin of the empty constructor. -/
def cleared : Coin := ⟨CTxOut.null, false, 0⟩

def isSpent (coin : Coin) : Bool := coin.out.isNull

def unspent (coin : Coin) : Option Coin :=
  if coin.isSpent then none else some coin

variable {coin : Coin}

theorem unspent_of_isSpent (h : coin.isSpent = true) : coin.unspent = none := if_pos h

theorem unspent_of_not_isSpent (h : coin.isSpent = false) : coin.unspent = some coin := by
  simp [unspent, h]

theorem unspent_eq_none_iff : coin.unspent = none ↔ coin.isSpent = true := by
  unfold unspent
  split_ifs with h <;> simp [h]

theorem unspent_eq_some_iff {coin' : Coin} :
    coin.unspent = some coin' ↔ coin.isSpent = false ∧ coin = coin' := by
  unfold unspent
  split_ifs with h <;> simp [h]

end Coin

end KorshCore

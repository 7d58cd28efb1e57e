import Mathlib.Algebra.Order.Ring.Int

/-!
# Consensus parameters

The fields of `Consensus::Params` that the modelled functions read, with
the values that `CMainParams` and `CTestNetParams` give them, and the
height-gated accessors of `consensus/params.h`.

Heights and block counts are `int` in the source and never negative where
they are used here, so they are `Nat`. A `CAmount` is a signed 64-bit count
of satoshis. It is an `Int` here; the modelled functions stay far below
`2 ^ 63`.
-/

namespace KorshCore

def coin : Int := 100000000

def maxMoney : Int := 10000000 * coin

def moneyRange (nValue : Int) : Bool := 0 ≤ nValue && nValue ≤ maxMoney

/-- `strNetworkID` of the four chains of `chainparams.cpp`. -/
inductive NetworkId where
  | main
  | testnet
  | devnet
  | regtest
  deriving DecidableEq, Repr

/-- The fields of `Consensus::Params` that the modelled functions read.
`networkId` is `CChainParams::strNetworkID`, which the source reads through
the global `Params()`. -/
structure Params where
  networkId : NetworkId
  nMaxMoney : Int
  nSubsidyHalvingInterval : Nat
  nBudgetPaymentsStartBlock : Nat
  nSuperblockStartBlock : Nat
  nSuperblockCycle : Nat
  v20Height : Nat
  nKSHv014Height : Nat
  nKSHv040Height : Nat
  nKSHv040PowTargetSpacing : Int
  nKSHv040SuperblockCycle : Nat
  powLimit : Nat
  nPowTargetSpacing : Int
  fPowAllowMinDifficultyBlocks : Bool
  nHighSubsidyBlocks : Nat
  nHighSubsidyFactor : Int

namespace Params

variable (params : Params)

def isKSHv040Active (nHeight : Nat) : Bool := params.nKSHv040Height ≤ nHeight

def powTargetSpacing (nHeight : Nat) : Int :=
  if params.isKSHv040Active nHeight then params.nKSHv040PowTargetSpacing
  else params.nPowTargetSpacing

/-- `Params::SuperblockBudgetCycle`. The activation block closes the
pre-fork cycle, so the comparison is strict here. -/
def superblockBudgetCycle (nHeight : Nat) : Nat :=
  if params.nKSHv040Height < nHeight then params.nKSHv040SuperblockCycle
  else params.nSuperblockCycle

end Params

/-- The consensus fields that `CMainParams` sets. -/
def mainParams : Params where
  networkId := .main
  nMaxMoney := 10000000 * coin
  nSubsidyHalvingInterval := 2500000
  nBudgetPaymentsStartBlock := 999999999
  nSuperblockStartBlock := 999999999
  nSuperblockCycle := 21600
  v20Height := 999999999
  nKSHv014Height := 1
  nKSHv040Height := 999999999
  nKSHv040PowTargetSpacing := 60
  nKSHv040SuperblockCycle := 10800
  powLimit := 0x00ffffffff000000000000000000000000000000000000000000000000000000
  nPowTargetSpacing := 60
  fPowAllowMinDifficultyBlocks := false
  nHighSubsidyBlocks := 0
  nHighSubsidyFactor := 1

/-- The consensus fields that `CTestNetParams` sets. -/
def testNetParams : Params where
  networkId := .testnet
  nMaxMoney := 10000000 * coin
  nSubsidyHalvingInterval := 1030596
  nBudgetPaymentsStartBlock := 27600
  nSuperblockStartBlock := 27700
  nSuperblockCycle := 21600
  v20Height := 20000
  nKSHv014Height := 40000
  nKSHv040Height := 172800
  nKSHv040PowTargetSpacing := 120
  nKSHv040SuperblockCycle := 10800
  powLimit := 0x00ffffffff000000000000000000000000000000000000000000000000000000
  nPowTargetSpacing := 60
  fPowAllowMinDifficultyBlocks := true
  nHighSubsidyBlocks := 0
  nHighSubsidyFactor := 1

end KorshCore

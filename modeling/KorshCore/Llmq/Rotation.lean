import KorshCore.Evo.QuietSteps
import KorshCore.Lib.Codec
import KorshCore.Lib.CyclicLog
import KorshCore.Llmq.Commitment
import Mathlib.Data.Prod.Lex

/-!
# Quorum members by quarter rotation

The part of `llmq/utils.cpp` that selects the members of rotated quorums.

The masternode lists of blocks, the hash modifier and the SHA-256 of the scores
are given. Snapshots are stored by the hash of the block. `mnSkipList` has
machine integers of 32 bits in the source, which the positions of a list do not
exceed.
-/

namespace KorshCore

open List

def workDiffDepth : Nat := 8

inductive SnapshotSkipMode where
  | noSkipping
  | skippingEntries
  | noSkippingEntries
  | allSkipped
  deriving DecidableEq, Repr

structure CQuorumSnapshot where
  activeQuorumMembers : List Bool
  mnSkipListMode : SnapshotSkipMode
  mnSkipList : List Int
  deriving DecidableEq, Repr

/-- The snapshots of `CQuorumSnapshotManager`, by type and block. -/
abbrev SnapshotStore := LLMQType → Uint256 → Option CQuorumSnapshot

def SnapshotStore.store (snapshots : SnapshotStore) (llmqType : LLMQType) (hash : Uint256)
    (snapshot : CQuorumSnapshot) : SnapshotStore :=
  fun t h => if t = llmqType ∧ h = hash then some snapshot else snapshots t h

abbrev QuorumMembers := List CDeterministicMN

structure RotationEnv (H : Type) [DecidableEq H] where
  llmqs : List LLMQParams
  llmqs_distinct : (llmqs.map LLMQParams.type).Nodup
  hash : UniqueProperty → H
  getListForBlock : CBlockIndex → CDeterministicMNList H
  indexed : ∀ pindex, (getListForBlock pindex).Indexed hash
  /-- The hash of `confirmedHashWithProRegTxHash` and a modifier, as a number. -/
  quorumScore : Uint256 → Uint256 → Nat
  getHashModifier : LLMQParams → CBlockIndex → Uint256
  v19ActiveAfter : CBlockIndex → Bool
  network : ChainNetwork

namespace CDeterministicMNList

variable {H : Type} (l : CDeterministicMNList H)

def hasMN (proTxHash : Uint256) : Bool := (l.getMN proTxHash).isSome

def isMNPoSeBanned (proTxHash : Uint256) : Bool :=
  match l.getMN proTxHash with
  | none => false
  | some dmn => dmn.pdmnState.isBanned

def getValidMNsCount : Nat := l.mns.countP fun dmn => !dmn.pdmnState.isBanned

/-- `AddMN` in a block that ignores what it throws. -/
def tryAddMN [DecidableEq H] (hash : UniqueProperty → H) (dmn : CDeterministicMN) :
    CDeterministicMNList H :=
  match l.addMN hash dmn true with
  | .ok l' => l'
  | .error _ => l

end CDeterministicMNList

/-- The order of a hash is that of its bytes, the lowest first. -/
def Uint256.memoryOrder (hash : Uint256) : Nat :=
  Codec.ofBytes (Codec.toBytes 32 hash.toNat).reverse

namespace RotationEnv

variable {H : Type} [DecidableEq H] (env : RotationEnv H)

/-- What masternodes are sorted by: the score, then the collateral. -/
def rank (modifier : Uint256) (dmn : CDeterministicMN) : ℕ ×ₗ (ℕ ×ₗ ℕ) :=
  toLex (env.quorumScore dmn.pdmnState.confirmedHashWithProRegTxHash modifier,
    toLex (Uint256.memoryOrder dmn.collateralOutpoint.hash, dmn.collateralOutpoint.n))

/-- `CalculateScoresForQuorum` keeps the masternodes that are valid and confirmed. -/
def scored (dmn : CDeterministicMN) : Bool :=
  !dmn.pdmnState.isBanned && dmn.pdmnState.confirmedHash != 0

/-- `CalculateQuorum`, with all masternodes of any type: the highest rank first. -/
def calculateQuorum (mns : List CDeterministicMN) (modifier : Uint256) : QuorumMembers :=
  (mns.filter scored).insertionSort fun a b => env.rank modifier b ≤ env.rank modifier a

/-! ## Quarters from a snapshot -/

def combineBySnapshot (active : List Bool) (sorted : QuorumMembers) : QuorumMembers :=
  let isActive := fun i => active.getD i false
  (sorted.zipIdx.filterMap fun (dmn, i) =>
      if isActive i then none
      else if dmn.pdmnState.isBanned then none else some dmn)
    ++ sorted.zipIdx.filterMap fun (dmn, i) => if isActive i then some dmn else none

/-- The positions that a snapshot skips, or none if its mode gives no quarters.
The loop without skipping is the other one with nothing to skip. -/
def skippedPositions (snapshot : CQuorumSnapshot) : Option (List Int) :=
  match snapshot.mnSkipListMode with
  | .noSkipping => some []
  | .skippingEntries => some (CyclicLog.decode 0 snapshot.mnSkipList)
  | .noSkippingEntries => none
  | .allSkipped => none

def replayQuarters (params : LLMQParams) (combined : QuorumMembers)
    (snapshot : CQuorumSnapshot) : List QuorumMembers :=
  let numQuorums := params.signingActiveQuorumCount
  if combined.isEmpty then replicate numQuorums []
  else match skippedPositions snapshot with
    | none => replicate numQuorums []
    | some skipped =>
      (CyclicLog.replayAll combined.length (params.size / 4) numQuorums 0 skipped).map
        (·.filterMap (combined[·]?))

/-- A block at which a cycle of a rotated type starts. -/
def isCycleBase (params : LLMQParams) (pindex : CBlockIndex) : Bool :=
  params.useRotation && pindex.nHeight % params.dkgInterval == 0

def cycleList (cycle : CBlockIndex) : Except Fault (CDeterministicMNList H) := do
  let work ← Except.ofOption .nullIndex (cycle.getAncestor (cycle.nHeight - workDiffDepth : Int))
  .ok (env.getListForBlock work)

def getQuorumQuarterMembersBySnapshot (params : LLMQParams) (cycle : CBlockIndex)
    (snapshot : CQuorumSnapshot) : Except Fault (List QuorumMembers) :=
  if !isCycleBase params cycle then .ok []
  else do
    let mnList ← env.cycleList cycle
    let sortedAllMns := env.calculateQuorum mnList.mns (env.getHashModifier params cycle)
    .ok (replayQuarters params
      (combineBySnapshot snapshot.activeQuorumMembers sortedAllMns) snapshot)

/-! ## New quarters -/

abbrev PreviousQuorumQuarters := List (List QuorumMembers)

def previousMembers (previousQuarters : PreviousQuorumQuarters) (i : Nat) : QuorumMembers :=
  previousQuarters.flatMap (·.getD i [])

def skipRemovedMNs (base : CBlockIndex) : Bool :=
  env.v19ActiveAfter base || env.network == .testnet

/-- A member of an earlier quarter that still counts as used. -/
def stillUsed (base : CBlockIndex) (allMns : CDeterministicMNList H) (mn : CDeterministicMN) :
    Bool :=
  !(env.skipRemovedMNs base && !allMns.hasMN mn.proTxHash) && !allMns.isMNPoSeBanned mn.proTxHash

/-- The list of the members that still count as used: `MnsUsedAtHIndexed` from the
members of one quorum, `MnsUsedAtH` from those of all quorums. -/
def usedList (base : CBlockIndex) (allMns : CDeterministicMNList H) (members : QuorumMembers) :
    CDeterministicMNList H :=
  (members.filter (env.stillUsed base allMns)).foldl (fun l mn => l.tryAddMN env.hash mn) .empty

def mnsNotUsed (allMns mnsUsedAtH : CDeterministicMNList H) : QuorumMembers :=
  allMns.mns.filter fun dmn => !mnsUsedAtH.hasMN dmn.proTxHash && !dmn.pdmnState.isBanned

/-- `firstSkippedIndex` and `skipList`. -/
structure SkipList where
  firstSkippedIndex : Nat
  skipList : List Int
  deriving DecidableEq, Repr

def SkipList.push (s : SkipList) (idx : Nat) : SkipList :=
  if s.firstSkippedIndex = 0 then ⟨idx, s.skipList ++ [(idx : Int)]⟩
  else { s with skipList := s.skipList ++ [(idx : Int) - s.firstSkippedIndex] }

structure QuarterState (H : Type) where
  /-- `MnsUsedAtHIndexed[i]`. -/
  used : CDeterministicMNList H
  /-- `quarterQuorumMembers[i]`. -/
  members : QuorumMembers
  skips : SkipList
  idx : Nat
  updated : Bool

/-- One turn of the loop, without the check for a full round. -/
def visit (dmn : CDeterministicMN) (n : Nat) (s : QuarterState H) : QuarterState H :=
  let idx := CyclicLog.next n s.idx
  if s.used.hasMN dmn.proTxHash then { s with skips := s.skips.push s.idx, idx := idx }
  else match s.used.addMN env.hash dmn true with
    | .ok used =>
      { s with used := used, members := s.members ++ [dmn], idx := idx, updated := true }
    | .error _ => { s with skips := s.skips.push s.idx, idx := idx }

/-- The loop that fills a quarter. It gives up after a round that adds nothing. -/
def fillQuarter (combined : QuorumMembers) (quarterSize usedMNsCount initial : Nat) :
    (fuel : Nat) → QuarterState H → Option (QuarterState H)
  | 0, s => some s
  | fuel + 1, s =>
    if s.members.length < quarterSize ∧ usedMNsCount + s.members.length < combined.length then
      match combined[s.idx]? with
      | none => some s
      | some dmn =>
        let s := env.visit dmn combined.length s
        if s.idx = initial then
          if s.updated then
            fillQuarter combined quarterSize usedMNsCount initial fuel { s with updated := false }
          else none
        else fillQuarter combined quarterSize usedMNsCount initial fuel s
    else some s

/-- A round that adds nothing is the last, so there are not more rounds than the
quarter has places, and one. -/
def fillFuel (combined : QuorumMembers) (quarterSize : Nat) : Nat :=
  (quarterSize + 1) * combined.length

def fillQuarters (combined : QuorumMembers) (quarterSize : Nat) :
    List (CDeterministicMNList H) → (idx : Nat) → SkipList → Option (List QuorumMembers × SkipList)
  | [], _, skips => some ([], skips)
  | used :: rest, idx, skips => do
    let s ← env.fillQuarter combined quarterSize used.getAllMNsCount idx
      (fillFuel combined quarterSize) ⟨used, [], skips, idx, false⟩
    let (quarters, skips) ← fillQuarters combined quarterSize rest s.idx s.skips
    some (s.members :: quarters, skips)

def buildQuorumSnapshot (params : LLMQParams) (base : CBlockIndex)
    (allMns mnsUsedAtH : CDeterministicMNList H) (skipList : List Int) : CQuorumSnapshot :=
  let sortedAllMns := env.calculateQuorum allMns.mns (env.getHashModifier params base)
  let active := sortedAllMns.map fun dmn => mnsUsedAtH.hasMN dmn.proTxHash
  { activeQuorumMembers :=
      active ++ replicate (allMns.getAllMNsCount - sortedAllMns.length) false
    mnSkipListMode := if skipList.isEmpty then .noSkipping else .skippingEntries
    mnSkipList := skipList }

def sortedCombinedMns (params : LLMQParams) (base : CBlockIndex)
    (allMns mnsUsedAtH : CDeterministicMNList H) : QuorumMembers :=
  let modifier := env.getHashModifier params base
  env.calculateQuorum (mnsNotUsed allMns mnsUsedAtH) modifier
    ++ env.calculateQuorum mnsUsedAtH.mns modifier

/-- `BuildNewQuorumQuarterMembers`: the quarters, and the snapshot that is stored. -/
def buildNewQuorumQuarterMembers (params : LLMQParams) (base : CBlockIndex)
    (allMns : CDeterministicMNList H) (previousQuarters : PreviousQuorumQuarters) :
    List QuorumMembers × Option CQuorumSnapshot :=
  let nQuorums := params.signingActiveQuorumCount
  let quarterSize := params.size / 4
  if !isCycleBase params base then ([], none)
  else if allMns.getValidMNsCount < quarterSize then (replicate nQuorums [], none)
  else
    let indexes := range nQuorums
    let mnsUsedAtH := env.usedList base allMns (indexes.flatMap (previousMembers previousQuarters))
    let mnsUsedAtHIndexed := indexes.map fun i =>
      env.usedList base allMns (previousMembers previousQuarters i)
    match env.fillQuarters (env.sortedCombinedMns params base allMns mnsUsedAtH) quarterSize
        mnsUsedAtHIndexed 0 ⟨0, []⟩ with
    | none => (replicate nQuorums [], none)
    | some (quarters, skips) =>
      (quarters, some (env.buildQuorumSnapshot params base allMns mnsUsedAtH skips.skipList))

/-- The quarters of the cycles before, from their snapshots. When one is missing
the cycles below it count as empty too. -/
def loadQuarters (params : LLMQParams) (snapshots : SnapshotStore) (base : CBlockIndex) :
    (cycles k : Nat) → Except Fault PreviousQuorumQuarters
  | 0, _ => .ok []
  | cycles + 1, k => do
    let cycle ← Except.ofOption .nullIndex
      (base.getAncestor (base.nHeight - params.dkgInterval * k : Int))
    match snapshots params.type cycle.hash with
    | none =>
      .ok (replicate (cycles + 1) (replicate params.signingActiveQuorumCount []))
    | some snapshot => do
      let quarter ← env.getQuorumQuarterMembersBySnapshot params cycle snapshot
      let rest ← loadQuarters params snapshots base cycles (k + 1)
      .ok (quarter :: rest)

def previousQuarters (params : LLMQParams) (snapshots : SnapshotStore) (base : CBlockIndex) :
    Except Fault PreviousQuorumQuarters :=
  env.loadQuarters params snapshots base 3 1

def storeSnapshot (params : LLMQParams) (base : CBlockIndex) (snapshots : SnapshotStore) :
    Option CQuorumSnapshot → SnapshotStore
  | none => snapshots
  | some snapshot => snapshots.store params.type base.hash snapshot

def computeQuorumMembersByQuarterRotation (params : LLMQParams) (base : CBlockIndex)
    (snapshots : SnapshotStore) : Except Fault (List QuorumMembers × SnapshotStore) :=
  if !isCycleBase params base then .ok ([], snapshots)
  else do
    let allMns ← env.cycleList base
    let previous ← env.previousQuarters params snapshots base
    let (new, snapshot) := env.buildNewQuorumQuarterMembers params base allMns previous
    .ok ((range params.signingActiveQuorumCount).map fun i =>
        previousMembers previous.reverse i ++ new.getD i [],
      storeSnapshot params base snapshots snapshot)

end RotationEnv

end KorshCore

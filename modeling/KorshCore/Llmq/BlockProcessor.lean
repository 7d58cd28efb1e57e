import KorshCore.Lib.Attempt
import KorshCore.Util.UnorderedLruCache
import KorshCore.Lib.SortedMap
import KorshCore.Llmq.Commitment
import Mathlib.Data.Prod.Lex

/-!
# Mined commitments

`CQuorumBlockProcessor` of `llmq/blockprocessor.cpp`: the commitments of a block
are checked and stored in three tables of the evo database, and removed from them
when the block is undone.
-/

namespace KorshCore

open Attempt Except
open Attempt (forEach lift modify require step)

inductive QcError where
  | badQcPayload
  | badQcCommitmentType
  | badQcDup
  | badQcPremature
  | badQcNotAllowed
  | badQcMissing
  | badQcInvalid
  | badQcBlock
  | badQcInvalidNull
  | badQcHeight
  | unknownBase
  | unknownType
  | fault (fault : Fault)
  deriving DecidableEq, Repr

/-! ## The tables -/

def littleEndian (n : Nat) : Nat :=
  n % 256 * 16777216 + n / 256 % 256 * 65536 + n / 65536 % 256 * 256 + n / 16777216 % 256

def buildInversedHeightKey (llmqType : LLMQType) (nMinedHeight : Nat) : ℕ ×ₗ ℤ :=
  toLex (llmqType, 0xffffffff - (nMinedHeight : ℤ))

/-- `BuildInversedHeightKeyIndexed`. The index is converted to an `int`. -/
def buildInversedHeightKeyIndexed (llmqType : LLMQType) (nMinedHeight : Nat)
    (quorumIndex : BitVec 32) : ℕ ×ₗ (ℕ ×ₗ ℤ) :=
  toLex (llmqType, toLex (littleEndian quorumIndex.toNat, 0xffffffff - (nMinedHeight : ℤ)))

/-- The tables of the evo database: mined commitments with the block that mined
them, and the heights of quorum base blocks by mined height. -/
structure MinedTables (B : BLSScheme) where
  minedCommitment : LLMQType → Uint256 → Option (CFinalCommitment B × Uint256)
  byInversedHeight : SortedMap (ℕ ×ₗ ℤ) Nat
  byInversedHeightIndexed : SortedMap (ℕ ×ₗ (ℕ ×ₗ ℤ)) Nat

structure QuorumDb (B : BLSScheme) where
  tables : MinedTables B
  bestBlockUpgrade : Option Uint256

structure ProcessorState (B : BLSScheme) where
  db : QuorumDb B
  mapHasMinedCommitmentCache : LLMQType → UnorderedLruCache Uint256 Bool

/-- The active chain and the known blocks. The chain consists of known blocks. -/
structure ActiveChain where
  tip : Option CBlockIndex
  lookupBlockIndex : Uint256 → Option CBlockIndex
  lookup_ancestor : ∀ pindex height anc, tip = some pindex →
    pindex.getAncestor height = some anc → lookupBlockIndex anc.hash = some anc

def ActiveChain.ofTip (pindex : CBlockIndex) (h : pindex.path.Nodup) : ActiveChain where
  tip := some pindex
  lookupBlockIndex := CBlockIndex.findHash pindex.path
  lookup_ancestor := by
    intro tip height anc htip hanc
    cases htip
    exact CBlockIndex.findHash_of_suffix h (CBlockIndex.getAncestor_eq_some_iff.mp hanc).1

namespace MinedTables

variable {B : BLSScheme}

def empty : MinedTables B := ⟨fun _ _ => none, .empty, .empty⟩

def hasCommitment (tables : MinedTables B) (llmqType : LLMQType) (hash : Uint256) : Bool :=
  (tables.minedCommitment llmqType hash).isSome

def setCommitment (tables : MinedTables B) (llmqType : LLMQType) (hash : Uint256)
    (entry : Option (CFinalCommitment B × Uint256)) : MinedTables B :=
  { tables with
    minedCommitment := fun t h =>
      if t = llmqType ∧ h = hash then entry else tables.minedCommitment t h }

def writeHeight (tables : MinedTables B) (rotated : Bool) (nHeight : Nat)
    (qc : CFinalCommitment B) (baseHeight : Nat) : MinedTables B :=
  if rotated then { tables with
      byInversedHeightIndexed := tables.byInversedHeightIndexed.insert
        (buildInversedHeightKeyIndexed qc.llmqType nHeight (qc.quorumIndex.signExtend 32))
        baseHeight }
  else { tables with
      byInversedHeight := tables.byInversedHeight.insert
        (buildInversedHeightKey qc.llmqType nHeight) baseHeight }

def eraseHeight (tables : MinedTables B) (rotated : Bool) (nHeight : Nat)
    (qc : CFinalCommitment B) : MinedTables B :=
  if rotated then { tables with
      byInversedHeightIndexed := tables.byInversedHeightIndexed.erase
        (buildInversedHeightKeyIndexed qc.llmqType nHeight (qc.quorumIndex.signExtend 32)) }
  else { tables with
      byInversedHeight := tables.byInversedHeight.erase
        (buildInversedHeightKey qc.llmqType nHeight) }

end MinedTables

namespace ProcessorState

variable {B : BLSScheme}

def modifyTables (s : ProcessorState B) (f : MinedTables B → MinedTables B) : ProcessorState B :=
  { s with db := { s.db with tables := f s.db.tables } }

/-- Write `DB_BEST_BLOCK_UPGRADE`. -/
def writeBestBlock (s : ProcessorState B) (hash : Uint256) : ProcessorState B :=
  { s with db := { s.db with bestBlockUpgrade := some hash } }

def modifyCache (s : ProcessorState B) (llmqType : LLMQType)
    (f : UnorderedLruCache Uint256 Bool → UnorderedLruCache Uint256 Bool) : ProcessorState B :=
  { s with
    mapHasMinedCommitmentCache := fun t =>
      if t = llmqType then f (s.mapHasMinedCommitmentCache t)
      else s.mapHasMinedCommitmentCache t }

end ProcessorState

namespace CQuorumBlockProcessor

variable {B : BLSScheme} (env : QuorumEnv B)

abbrev Processing (B : BLSScheme) (α : Type) := Attempt (ProcessorState B) QcError α

/-! ## Queries -/

def hasMinedCommitment (llmqType : LLMQType) (quorumHash : Uint256)
    (s : ProcessorState B) : Bool × ProcessorState B :=
  match ((s.mapHasMinedCommitmentCache llmqType).get quorumHash).1 with
  | some fExists => (fExists, s.modifyCache llmqType fun cache => (cache.get quorumHash).2)
  | none =>
    let fExists := s.db.tables.hasCommitment llmqType quorumHash
    (fExists, s.modifyCache llmqType (·.emplace quorumHash fExists))

/-- `GetBlockHash` of `validation.cpp`. -/
def getBlockHash (tip : Option CBlockIndex) (nBlockHeight : Int) : Option Uint256 :=
  match tip with
  | none => none
  | some tip =>
    if nBlockHeight < -1 || nBlockHeight > tip.nHeight then none
    else if nBlockHeight = -1 then some tip.hash
    else (tip.getAncestor nBlockHeight).map CBlockIndex.hash

/-- `GetQuorumBlockHash`: zero if there is no such block. -/
def getQuorumBlockHash (params : LLMQParams) (tip : Option CBlockIndex) (nHeight : Nat)
    (quorumIndex : Int) : Uint256 :=
  (getBlockHash tip (QuorumEnv.cycleStart params nHeight + quorumIndex)).getD 0

def chainHeight (tip : Option CBlockIndex) : Int :=
  match tip with
  | none => -1
  | some tip => tip.nHeight

def isMiningPhase (params : LLMQParams) (tip : Option CBlockIndex) (nHeight : Nat) :
    Except QcError Bool := do
  require (.fault .assertion) (decide ((nHeight : Int) ≤ chainHeight tip + 1))
  let quorumCycleStartHeight := QuorumEnv.cycleStart params nHeight
  .ok (decide (quorumCycleStartHeight + params.dkgMiningWindowStart ≤ nHeight) &&
    decide (nHeight ≤ quorumCycleStartHeight + params.dkgMiningWindowEnd))

/-- The loop of `GetNumCommitmentsRequired` over the quorum indexes. -/
def countRequired (params : LLMQParams) (tip : CBlockIndex) (nHeight : Nat) :
    List Nat → Processing B Nat
  | [] => pure 0
  | quorumIndex :: rest =>
    let quorumHash := getQuorumBlockHash params (some tip) nHeight quorumIndex
    if quorumHash = 0 then countRequired params tip nHeight rest
    else do
      let mined ← step (hasMinedCommitment params.type quorumHash)
      let count ← countRequired params tip nHeight rest
      pure (if mined then count else count + 1)

def quorumsNum (params : LLMQParams) (tip : CBlockIndex) (nHeight : Nat) : Nat :=
  let pindex := if tip.nHeight < nHeight then some tip else tip.getAncestor nHeight
  match pindex with
  | some pindex =>
    if env.isQuorumRotationEnabled params pindex then params.signingActiveQuorumCount else 1
  | none => 1

def getNumCommitmentsRequired (params : LLMQParams) (tip : CBlockIndex) (nHeight : Nat) :
    Processing B Nat := do
  let phase ← lift (isMiningPhase params (some tip) nHeight)
  if !phase then pure 0
  else countRequired params tip nHeight (List.range (quorumsNum env params tip nHeight))

/-- `std::multimap::emplace`: after the commitments of the same type. -/
def emplaceCommitment (qcs : List (CFinalCommitment B)) (qc : CFinalCommitment B) :
    List (CFinalCommitment B) :=
  (qcs.takeWhile fun other => other.llmqType ≤ qc.llmqType) ++
    qc :: qcs.dropWhile fun other => other.llmqType ≤ qc.llmqType

/-- The loop of `GetCommitmentsFromBlock`, for one transaction. -/
def collectCommitment (pindex : CBlockIndex) (qcs : List (CFinalCommitment B))
    (tx : CTransaction) : Except QcError (List (CFinalCommitment B)) :=
  if tx.nType = transactionQuorumCommitment then do
    let qc ← ofOption .badQcPayload (env.readCommitment tx)
    let params ← ofOption .badQcCommitmentType (env.getLLMQ qc.llmqType)
    -- only allow one commitment per type and per block (This was changed with rotation)
    require .badQcDup (env.isQuorumRotationEnabled params pindex ||
      !qcs.any fun other => other.llmqType == qc.llmqType)
    .ok (emplaceCommitment qcs qc)
  else .ok qcs

def getCommitmentsFromBlock (block : CBlock) (pindex : CBlockIndex) :
    Except QcError (List (CFinalCommitment B)) := do
  let qcs ← block.vtx.foldlM (collectCommitment env pindex) []
  require .badQcPremature (env.dip0003ActiveAt pindex || qcs.isEmpty)
  .ok qcs

def getEnabledQuorumParams (pindexPrev : CBlockIndex) :
    List LLMQParams → Except Fault (List LLMQParams)
  | [] => .ok []
  | params :: rest => do
    let enabled ← env.isQuorumTypeEnabled params.type pindexPrev
    let others ← getEnabledQuorumParams pindexPrev rest
    .ok (if enabled then params :: others else others)

/-! ## Processing a block -/

def checkRequired (tip : CBlockIndex) (nHeight : Nat) (qcs : List (CFinalCommitment B))
    (params : LLMQParams) : Processing B Unit := do
  let numCommitmentsRequired ← getNumCommitmentsRequired env params tip nHeight
  let numCommitmentsInNewBlock := qcs.countP fun qc => qc.llmqType == params.type
  require .badQcNotAllowed (decide (numCommitmentsInNewBlock ≤ numCommitmentsRequired))
  require .badQcMissing (decide (numCommitmentsRequired ≤ numCommitmentsInNewBlock))

/-- What the commitments put into the queue. The verdict of
`VerifySignatureAsync` is not looked at. -/
def queueChecks (chain : ActiveChain) :
    List (CFinalCommitment B) → Except QcError (List (BlsCheck B))
  | [] => .ok []
  | qc :: rest =>
    if qc.isNull then queueChecks chain rest
    else do
      let base ← ofOption .unknownBase (chain.lookupBlockIndex qc.quorumHash)
      let verdict ← (qc.verifySignatureAsync env base true).mapError .fault
      let others ← queueChecks chain rest
      .ok (verdict.2 ++ others)

/-- The signature checks of `ProcessBlock`. -/
def checkSignatures (chain : ActiveChain) (qcs : List (CFinalCommitment B)) :
    Except QcError Unit := do
  let checks ← queueChecks env chain qcs
  require .badQcInvalid (checks.all BlsCheck.run)

def expectedQuorumHash (chain : ActiveChain) (params : LLMQParams) (nHeight : Nat)
    (qc : CFinalCommitment B) : Uint256 :=
  match chain.tip with
  -- skip `bad-qc-block` checks below when replaying blocks after the crash
  | none => qc.quorumHash
  | some tip => getQuorumBlockHash params (some tip) nHeight qc.quorumIndex.toInt

/-- Store a commitment, and forget what was cached about it. -/
def storeCommitment (params : LLMQParams) (nHeight : Nat) (blockHash : Uint256)
    (qc : CFinalCommitment B) (base : CBlockIndex) (s : ProcessorState B) : ProcessorState B :=
  (s.modifyTables fun tables =>
    (tables.setCommitment params.type qc.quorumHash (some (qc, blockHash))).writeHeight
      (env.isQuorumRotationEnabled params base) nHeight qc base.nHeight).modifyCache
    qc.llmqType (·.erase qc.quorumHash)

def processCommitment (chain : ActiveChain) (nHeight : Nat) (blockHash : Uint256)
    (fJustCheck : Bool) (qc : CFinalCommitment B) : Processing B Unit := do
  let params ← lift (ofOption .unknownType (env.getLLMQ qc.llmqType))
  let quorumHash := expectedQuorumHash chain params nHeight qc
  require .badQcBlock (quorumHash != 0)
  require .badQcBlock (quorumHash == qc.quorumHash)
  if qc.isNull then require .badQcInvalidNull (qc.verifyNull env)
  else do
    let mined ← step (hasMinedCommitment params.type quorumHash)
    require .badQcDup !mined
    let phase ← lift (isMiningPhase params chain.tip nHeight)
    require .badQcHeight phase
    let base ← lift (ofOption .unknownBase (chain.lookupBlockIndex qc.quorumHash))
    -- we don't validate signatures here; they already validated on previous step
    let valid ← lift ((qc.verify env base false).mapError .fault)
    require .badQcInvalid valid
    if fJustCheck then pure ()
    else modify (storeCommitment env params nHeight blockHash qc base)

/-- The checks of how many commitments there are, which are skipped when replaying
blocks after a crash. -/
def checkNumbers (chain : ActiveChain) (nHeight : Nat) (qcs : List (CFinalCommitment B))
    (enabled : List LLMQParams) : Processing B Unit :=
  match chain.tip with
  | none => pure ()
  | some tip => forEach (checkRequired env tip nHeight qcs) enabled

def processBlock (chain : ActiveChain) (block : CBlock) (pindex : CBlockIndex)
    (fJustCheck fBLSChecks : Bool) : Processing B Unit :=
  if !env.dip0003ActiveAt pindex then modify (·.writeBestBlock pindex.hash)
  else do
    let qcs ← lift (getCommitmentsFromBlock env block pindex)
    let pprev ← lift (ofOption (.fault .nullIndex) pindex.pprev)
    let enabled ← lift ((getEnabledQuorumParams env pprev env.llmqs).mapError .fault)
    checkNumbers env chain pindex.nHeight qcs enabled
    lift (checkIf fBLSChecks (checkSignatures env chain qcs))
    forEach (processCommitment env chain pindex.nHeight pindex.hash fJustCheck) qcs
    modify (·.writeBestBlock pindex.hash)

/-- The loop of `UndoBlock`, for one commitment. -/
def undoCommitment (pindex : CBlockIndex) (qc : CFinalCommitment B) : Processing B Unit :=
  if qc.isNull then pure ()
  else do
    modify (·.modifyTables (·.setCommitment qc.llmqType qc.quorumHash none))
    let params ← lift (ofOption (.fault .assertion) (env.getLLMQ qc.llmqType))
    modify (·.modifyTables
      (·.eraseHeight (env.isQuorumRotationEnabled params pindex) pindex.nHeight qc))
    modify (·.modifyCache qc.llmqType (·.erase qc.quorumHash))

def undoBlock (block : CBlock) (pindex : CBlockIndex) : Processing B Unit := do
  let qcs ← lift (getCommitmentsFromBlock env block pindex)
  forEach (undoCommitment env pindex) qcs
  let pprev ← lift (ofOption (.fault .nullIndex) pindex.pprev)
  modify (·.writeBestBlock pprev.hash)

variable {env} {chain : ActiveChain}

/-! ## What an accepted block went through -/

theorem processCommitment_ok {nHeight : Nat} {blockHash : Uint256} {fJustCheck : Bool}
    {qc : CFinalCommitment B} {s s' : ProcessorState B}
    (h : processCommitment env chain nHeight blockHash fJustCheck qc s = (.ok (), s')) :
    ∃ params, env.getLLMQ qc.llmqType = some params ∧
      expectedQuorumHash chain params nHeight qc = qc.quorumHash ∧ qc.quorumHash ≠ 0 ∧
      (qc.isNull = true ∧ s' = s ∨
        qc.isNull = false ∧ (hasMinedCommitment params.type qc.quorumHash s).1 = false ∧
        isMiningPhase params chain.tip nHeight = .ok true ∧
        ∃ base, chain.lookupBlockIndex qc.quorumHash = some base ∧
          qc.verify env base false = .ok true ∧
          s' = if fJustCheck then (hasMinedCommitment params.type qc.quorumHash s).2
            else storeCommitment env params nHeight blockHash qc base
              (hasMinedCommitment params.type qc.quorumHash s).2) := by
  obtain ⟨params, hparams, h⟩ := lift_bind_eq_ok_iff.mp h
  obtain ⟨hnonzero, h⟩ := require_bind_eq_ok_iff.mp h
  obtain ⟨hexpected, h⟩ := require_bind_eq_ok_iff.mp h
  have hhash : expectedQuorumHash chain params nHeight qc = qc.quorumHash := by
    simpa using hexpected
  rw [hhash] at hnonzero
  refine ⟨params, ofOption_eq_ok_iff.mp hparams, hhash, by simpa using hnonzero, ?_⟩
  by_cases hnull : qc.isNull = true
  · rw [if_pos hnull] at h
    exact .inl ⟨hnull, (require_eq_ok_iff.mp h).2.symm⟩
  · rw [if_neg hnull, hhash] at h
    obtain ⟨hdup, h⟩ := require_bind_eq_ok_iff.mp h
    obtain ⟨phase, hphase, h⟩ := lift_bind_eq_ok_iff.mp h
    obtain ⟨hheight, h⟩ := require_bind_eq_ok_iff.mp h
    obtain ⟨base, hbase, h⟩ := lift_bind_eq_ok_iff.mp h
    obtain ⟨valid, hvalid, h⟩ := lift_bind_eq_ok_iff.mp h
    obtain ⟨hverified, h⟩ := require_bind_eq_ok_iff.mp h
    subst hheight hverified
    refine .inr ⟨by simpa using hnull, by simpa using hdup, hphase, base,
      ofOption_eq_ok_iff.mp hbase, mapError_eq_ok_iff.mp hvalid, ?_⟩
    cases fJustCheck with
    | false => exact (Prod.mk.inj h).2.symm
    | true => exact (Prod.mk.inj h).2.symm

theorem exists_of_forEach {f : CFinalCommitment B → Processing B Unit} :
    ∀ {qcs : List (CFinalCommitment B)} {s s' : ProcessorState B}, forEach f qcs s = (.ok (), s') →
    ∀ qc ∈ qcs, ∃ s₁ s₂, f qc s₁ = (.ok (), s₂)
  | [], _, _, _, _, hmem => nomatch hmem
  | first :: rest, s, s', h, qc, hmem => by
    obtain ⟨⟨⟩, s₁, hfirst, hrest⟩ := bind_eq_ok_iff.mp h
    rcases List.mem_cons.mp hmem with rfl | hmem
    · exact ⟨s, s₁, hfirst⟩
    · exact exists_of_forEach hrest qc hmem

theorem processBlock_ok {block : CBlock} {pindex : CBlockIndex} {fJustCheck fBLSChecks : Bool}
    {s s' : ProcessorState B} (hactive : env.dip0003ActiveAt pindex = true)
    (h : processBlock env chain block pindex fJustCheck fBLSChecks s = (.ok (), s')) :
    ∃ qcs enabled s₁ s₂, getCommitmentsFromBlock env block pindex = .ok qcs ∧
      checkNumbers env chain pindex.nHeight qcs enabled s = (.ok (), s₁) ∧
      checkIf fBLSChecks (checkSignatures env chain qcs) = .ok () ∧
      forEach (processCommitment env chain pindex.nHeight pindex.hash fJustCheck) qcs s₁
        = (.ok (), s₂) ∧ s' = s₂.writeBestBlock pindex.hash := by
  unfold processBlock at h
  rw [hactive] at h
  obtain ⟨qcs, hqcs, h⟩ := lift_bind_eq_ok_iff.mp h
  obtain ⟨pprev, -, h⟩ := lift_bind_eq_ok_iff.mp h
  obtain ⟨enabled, -, h⟩ := lift_bind_eq_ok_iff.mp h
  obtain ⟨⟨⟩, s₁, hnumbers, h⟩ := bind_eq_ok_iff.mp h
  obtain ⟨⟨⟩, hsignatures, h⟩ := lift_bind_eq_ok_iff.mp h
  obtain ⟨⟨⟩, s₂, hprocess, h⟩ := bind_eq_ok_iff.mp h
  exact ⟨qcs, enabled, s₁, s₂, hqcs, hnumbers, hsignatures, hprocess, (Prod.mk.inj h).2.symm⟩

theorem qcs_of_inactive {block : CBlock} {pindex : CBlockIndex}
    {qcs : List (CFinalCommitment B)} (hinactive : env.dip0003ActiveAt pindex = false)
    (h : getCommitmentsFromBlock env block pindex = .ok qcs) : qcs = [] := by
  obtain ⟨qcs', -, ⟨⟩, hpremature, h⟩ := bind₂_eq_ok_iff.mp h
  cases h
  have hempty := require_eq_ok_iff.mp hpremature
  rw [hinactive, Bool.false_or, List.isEmpty_iff] at hempty
  exact hempty

theorem minedCommitment_storeCommitment (params : LLMQParams) (nHeight : Nat)
    (blockHash : Uint256) (qc : CFinalCommitment B) (base : CBlockIndex)
    (s : ProcessorState B) (t : LLMQType) (hash : Uint256) :
    (storeCommitment env params nHeight blockHash qc base s).db.tables.minedCommitment t hash
      = if t = params.type ∧ hash = qc.quorumHash then some (qc, blockHash)
        else s.db.tables.minedCommitment t hash := by
  unfold storeCommitment ProcessorState.modifyTables ProcessorState.modifyCache
    MinedTables.writeHeight
  split_ifs
  all_goals simp_all [MinedTables.setCommitment]

theorem tables_hasMinedCommitment (llmqType : LLMQType) (hash : Uint256)
    (s : ProcessorState B) : (hasMinedCommitment llmqType hash s).2.db = s.db := by
  unfold hasMinedCommitment
  split
  · rfl
  · rfl

theorem keeps_countRequired {P : ProcessorState B → Prop}
    (hP : ∀ llmqType hash s, P s → P (hasMinedCommitment llmqType hash s).2)
    (params : LLMQParams) (tip : CBlockIndex) (nHeight : Nat) :
    ∀ indexes, Keeps P (countRequired (B := B) params tip nHeight indexes)
  | [] => keeps_pure 0
  | quorumIndex :: rest => by
    unfold countRequired
    dsimp only
    split_ifs
    · exact keeps_countRequired hP params tip nHeight rest
    · refine Keeps.bind (fun s hs => hP _ _ s hs) fun mined => ?_
      exact (keeps_countRequired hP params tip nHeight rest).bind fun _ =>
        keeps_pure _

theorem keeps_checkNumbers {P : ProcessorState B → Prop}
    (hP : ∀ llmqType hash s, P s → P (hasMinedCommitment llmqType hash s).2)
    (nHeight : Nat) (qcs : List (CFinalCommitment B)) (enabled : List LLMQParams) :
    Keeps P (checkNumbers env chain nHeight qcs enabled) := by
  unfold checkNumbers
  cases chain.tip with
  | none => exact keeps_pure ()
  | some tip =>
    refine Keeps.forEach (fun params => ?_) enabled
    refine Keeps.bind ?_ fun count => ?_
    · refine (keeps_lift _).bind fun phase => ?_
      split_ifs
      · exact keeps_pure 0
      · exact keeps_countRequired hP params tip nHeight _
    · exact (keeps_lift _).bind fun _ => keeps_lift _

end CQuorumBlockProcessor

end KorshCore

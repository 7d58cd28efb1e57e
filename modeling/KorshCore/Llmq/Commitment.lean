import KorshCore.Chain.BlockIndex
import KorshCore.Lib.Except

/-!
# Quorum parameters and final commitments

`llmq/params.h`, `llmq/options.cpp` and `llmq/commitment.cpp`: the parameters
of the quorum types, when a type is enabled and when it is rotated, and the
checks of a final commitment.

The members of a quorum are the choice of the masternode list and the signature
scheme is given, so both are parameters of `QuorumEnv`. An access that the
source does not check, such as the first member of an empty quorum, is a
`Fault`.
-/

namespace KorshCore

/-- `Consensus::LLMQType`, by its number. -/
abbrev LLMQType := Nat

namespace LLMQType

def llmqNone : LLMQType := 0xff
def llmq50_60 : LLMQType := 1
def llmq400_60 : LLMQType := 2
def llmq400_85 : LLMQType := 3
def llmq100_67 : LLMQType := 4
def llmq60_75 : LLMQType := 5
def llmq25_67 : LLMQType := 6
def llmq10_60 : LLMQType := 7
def llmq10_75 : LLMQType := 8
def llmqTest : LLMQType := 100
def llmqDevnet : LLMQType := 101
def llmqTestV17 : LLMQType := 102
def llmqTestDip0024 : LLMQType := 103
def llmqTestInstantSend : LLMQType := 104
def llmqDevnetDip0024 : LLMQType := 105
def llmqTestPlatform : LLMQType := 106
def llmqDevnetPlatform : LLMQType := 107

end LLMQType

structure LLMQParams where
  type : LLMQType
  useRotation : Bool
  size : Nat
  minSize : Nat
  dkgInterval : Nat
  dkgMiningWindowStart : Nat
  dkgMiningWindowEnd : Nat
  signingActiveQuorumCount : Nat
  keepOldConnections : Nat
  deriving DecidableEq, Repr

def LLMQParams.isSingleMember (params : LLMQParams) : Bool := params.size == 1

inductive ChainNetwork where
  | main
  | testnet
  | devnet
  | regtest
  deriving DecidableEq, Repr

structure BLSScheme where
  PublicKey : Type
  Signature : Type
  isValidKey : PublicKey → Bool
  isValidSig : Signature → Bool
  verifyInsecure : Signature → PublicKey → Uint256 → Bool
  verifySecureAggregated : Signature → List PublicKey → Uint256 → Bool

def isIndexedVersion (nVersion : Nat) : Bool := nVersion == 2 || nVersion == 4

/-- `CFinalCommitment`. The index is only serialized for the indexed versions. -/
structure CFinalCommitment (B : BLSScheme) where
  nVersion : Nat
  llmqType : LLMQType
  quorumHash : Uint256
  quorumIndex : BitVec 16
  signers : List Bool
  validMembers : List Bool
  quorumPublicKey : B.PublicKey
  quorumVvecHash : Uint256
  quorumSig : B.Signature
  membersSig : B.Signature
  quorumIndex_of_version : isIndexedVersion nVersion = false → quorumIndex = 0

structure QuorumEnv (B : BLSScheme) where
  network : ChainNetwork
  llmqs : List LLMQParams
  /-- `AddLLMQ` adds a type once. -/
  llmqs_distinct : (llmqs.map LLMQParams.type).Nodup
  dip0003ActiveAt : CBlockIndex → Bool
  dip0020ActiveAfter : CBlockIndex → Bool
  dip0024ActiveAfter : CBlockIndex → Bool
  v19ActiveAfter : CBlockIndex → Bool
  testDummyActiveAfter : CBlockIndex → Bool
  dip0024QuorumsHeight : Nat
  nKSHSmallQuorumsHeight : Nat
  getInstantSendType : Nat → LLMQType
  selectMembers : LLMQParams → CBlockIndex → List B.PublicKey
  buildCommitmentHash : LLMQType → Uint256 → List Bool → B.PublicKey → Uint256 → Uint256
  /-- `GetTxPayload` of a commitment transaction. -/
  readCommitment : CTransaction → Option (CFinalCommitment B)

inductive Fault where
  | nullIndex
  | unknownType
  | outOfRange
  | assertion
  deriving DecidableEq, Repr

namespace QuorumEnv

variable {B : BLSScheme} (env : QuorumEnv B)

def getLLMQ (llmqType : LLMQType) : Option LLMQParams :=
  env.llmqs.find? fun params => params.type == llmqType

/-- `TESTNET_LLMQ_25_67_ACTIVATION_HEIGHT`. -/
def testnetLlmq25_67ActivationHeight : Nat := 847000

def isQuorumTypeEnabled (llmqType : LLMQType) (pindexPrev : CBlockIndex) : Except Fault Bool :=
  let dip0024IsActive := env.dip0024ActiveAfter pindexPrev
  let haveDip0024Quorums := decide (env.dip0024QuorumsHeight ≤ pindexPrev.nHeight)
  if llmqType = .llmqDevnet then .ok true
  else if llmqType = .llmq50_60 then
    .ok (!dip0024IsActive || !haveDip0024Quorums || env.network == .testnet ||
      env.network == .devnet)
  else if llmqType = .llmqTestInstantSend then
    .ok (!dip0024IsActive || !haveDip0024Quorums ||
      env.getInstantSendType pindexPrev.nHeight == .llmqTestInstantSend)
  else if llmqType = .llmqTest ∨ llmqType = .llmqTestPlatform ∨ llmqType = .llmq400_60 ∨
      llmqType = .llmq400_85 ∨ llmqType = .llmqDevnetPlatform then .ok true
  else if llmqType = .llmqTestV17 then .ok (env.testDummyActiveAfter pindexPrev)
  else if llmqType = .llmq100_67 then .ok (env.dip0020ActiveAfter pindexPrev)
  else if llmqType = .llmq60_75 ∨ llmqType = .llmqDevnetDip0024 ∨
      llmqType = .llmqTestDip0024 then .ok dip0024IsActive
  else if llmqType = .llmq25_67 then
    .ok (decide (testnetLlmq25_67ActivationHeight ≤ pindexPrev.nHeight))
  else if llmqType = .llmq10_60 then
    .ok (decide (env.nKSHSmallQuorumsHeight ≤ pindexPrev.nHeight))
  else if llmqType = .llmq10_75 then
    .ok (decide (env.nKSHSmallQuorumsHeight ≤ pindexPrev.nHeight) && dip0024IsActive)
  else if llmqType = .llmqNone then .ok false
  else .error .unknownType

/-- The first height of the cycle that a block is in. -/
def cycleStart (params : LLMQParams) (height : Nat) : Nat :=
  height - height % params.dkgInterval

def isQuorumRotationEnabled (params : LLMQParams) (pindex : CBlockIndex) : Bool :=
  let cycleQuorumBaseHeight := cycleStart params pindex.nHeight
  params.useRotation && decide (1 ≤ cycleQuorumBaseHeight) &&
    -- It should activate at least 1 block prior to the cycle start
    match pindex.getAncestor (cycleQuorumBaseHeight - 1 : Int) with
    | some prev => env.dip0024ActiveAfter prev
    | none => false

def getAllQuorumMembers (llmqType : LLMQType) (base : CBlockIndex) :
    Except Fault (List B.PublicKey) := do
  let pprev ← Except.ofOption .nullIndex base.pprev
  let enabled ← env.isQuorumTypeEnabled llmqType pprev
  if !enabled then .ok []
  else do
    let params ← Except.ofOption .assertion (env.getLLMQ llmqType)
    if env.isQuorumRotationEnabled params base &&
        decide (params.signingActiveQuorumCount ≤ base.nHeight % params.dkgInterval) then
      .ok []
    else .ok (env.selectMembers params base)

end QuorumEnv

/-! ## Signature checks -/

structure BlsCheck (B : BLSScheme) where
  sig : B.Signature
  pubkeys : List B.PublicKey
  msgHash : Uint256

def BlsCheck.run {B : BLSScheme} (check : BlsCheck B) : Bool :=
  match check.pubkeys with
  | [] => false
  | [key] => B.verifyInsecure check.sig key check.msgHash
  | keys => B.verifySecureAggregated check.sig keys check.msgHash

namespace CFinalCommitment

variable {B : BLSScheme} (env : QuorumEnv B) (qc : CFinalCommitment B)

def countSigners : Nat := qc.signers.count true

def countValidMembers : Nat := qc.validMembers.count true

def isNull : Bool :=
  qc.countSigners == 0 && qc.countValidMembers == 0 &&
    !(B.isValidKey qc.quorumPublicKey || qc.quorumVvecHash != 0 ||
      B.isValidSig qc.membersSig || B.isValidSig qc.quorumSig)

def getVersion (isRotationEnabled isBasicSchemeActive : Bool) : Nat :=
  if isRotationEnabled then if isBasicSchemeActive then 4 else 2
  else if isBasicSchemeActive then 3 else 1

def verifySizes (params : LLMQParams) : Bool :=
  qc.signers.length == params.size && qc.validMembers.length == params.size

def signerKeys : List B.PublicKey → List Bool → Except Fault (List B.PublicKey)
  | [], _ => .ok []
  | _ :: _, [] => .error .outOfRange
  | key :: members, signed :: signers => do
    let keys ← signerKeys members signers
    .ok (if signed then key :: keys else keys)

def checkMembersSig (params : LLMQParams) (members : List B.PublicKey)
    (commitmentHash : Uint256) (queue : Bool) : Except Fault (Bool × List (BlsCheck B)) :=
  if params.isSingleMember then
    match members with
    | [] => .error .outOfRange
    -- checked here and not by the queue
    | key :: _ => .ok (B.verifyInsecure qc.membersSig key commitmentHash, [])
  else do
    let memberPubKeys ← signerKeys members qc.signers
    if queue then .ok (true, [⟨qc.membersSig, memberPubKeys, commitmentHash⟩])
    else .ok (B.verifySecureAggregated qc.membersSig memberPubKeys commitmentHash, [])

def checkQuorumSig (commitmentHash : Uint256) (queue : Bool) : Bool × List (BlsCheck B) :=
  if queue then (true, [⟨qc.quorumSig, [qc.quorumPublicKey], commitmentHash⟩])
  else (B.verifyInsecure qc.quorumSig qc.quorumPublicKey commitmentHash, [])

def commitmentHash : Uint256 :=
  env.buildCommitmentHash qc.llmqType qc.quorumHash qc.validMembers qc.quorumPublicKey
    qc.quorumVvecHash

/-- `CFinalCommitment::VerifySignatureAsync`, with or without a queue. -/
def verifySignatureAsync (base : CBlockIndex) (queue : Bool) :
    Except Fault (Bool × List (BlsCheck B)) := do
  let members ← env.getAllQuorumMembers qc.llmqType base
  match env.getLLMQ qc.llmqType with
  | none => .ok (false, [])
  | some params =>
    let commitmentHash := qc.commitmentHash env
    let membersCheck ← qc.checkMembersSig params members commitmentHash queue
    if !membersCheck.1 then .ok (false, membersCheck.2)
    else
      let quorumCheck := qc.checkQuorumSig commitmentHash queue
      .ok (quorumCheck.1, membersCheck.2 ++ quorumCheck.2)

def verifyHeader (params : LLMQParams) (base : CBlockIndex) : Bool :=
  qc.nVersion != 0 &&
    qc.nVersion == getVersion (env.isQuorumRotationEnabled params base) (env.v19ActiveAfter base) &&
    base.hash == qc.quorumHash &&
    decide (((base.nHeight % params.dkgInterval : Nat) : Int) = qc.quorumIndex.toInt) &&
    qc.verifySizes params && decide (params.minSize ≤ qc.countValidMembers) &&
    decide (params.minSize ≤ qc.countSigners) && B.isValidKey qc.quorumPublicKey &&
    (params.isSingleMember || qc.quorumVvecHash != 0) && B.isValidSig qc.membersSig &&
    B.isValidSig qc.quorumSig

def verifyBits (members : List B.PublicKey) : Bool :=
  (qc.validMembers.drop members.length).all (! ·) && (qc.signers.drop members.length).all (! ·)

def verify (base : CBlockIndex) (checkSigs : Bool) : Except Fault Bool :=
  match env.getLLMQ qc.llmqType with
  | none => .ok false
  | some params =>
    if !qc.verifyHeader env params base then .ok false
    else do
      let members ← env.getAllQuorumMembers qc.llmqType base
      if !qc.verifyBits members then .ok false
      else if checkSigs then do
        let verdict ← qc.verifySignatureAsync env base false
        .ok verdict.1
      else .ok true

def verifyNull : Bool :=
  match env.getLLMQ qc.llmqType with
  | none => false
  | some params => qc.isNull && qc.verifySizes params

end CFinalCommitment

namespace QuorumEnv

variable {B : BLSScheme} {env : QuorumEnv B}

theorem type_of_getLLMQ {llmqType : LLMQType} {params : LLMQParams}
    (h : env.getLLMQ llmqType = some params) : params.type = llmqType := by
  simpa using List.find?_some h

theorem isQuorumRotationEnabled_congr {params : LLMQParams} {pindex base : CBlockIndex}
    (hbase : pindex.getAncestor base.nHeight = some base)
    (hcycle : cycleStart params base.nHeight = cycleStart params pindex.nHeight) :
    env.isQuorumRotationEnabled params base = env.isQuorumRotationEnabled params pindex := by
  unfold isQuorumRotationEnabled
  dsimp only
  rw [hcycle]
  have hle : cycleStart params base.nHeight ≤ base.nHeight := Nat.sub_le _ _
  have hanc := @CBlockIndex.getAncestor_eq_of_le _ _ _
    (cycleStart params pindex.nHeight - 1 : Int) hbase (by omega)
  rw [hanc]

end QuorumEnv

end KorshCore

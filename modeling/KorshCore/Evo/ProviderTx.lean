import KorshCore.Evo.MNList

/-!
# Provider transactions

The payloads of `evo/providertx.h` and the checks of `CheckSpecialTx` for them,
against the masternode list of the previous block.

Reading a payload, hashing and verifying signatures are parameters of the model
(`ProTxEnv`).
-/

namespace KorshCore

/-! ## Payloads -/

structure CProRegTx where
  nVersion : Nat
  nType : MnType
  nMode : Nat
  collateralOutpoint : COutPoint
  netInfo : NetInfo
  platformNodeID : Uint160
  platformP2PPort : Nat
  platformHTTPPort : Nat
  keyIDOwner : Uint160
  pubKeyOperator : Option CBLSLazyPublicKey
  keyIDVoting : Uint160
  nOperatorReward : Nat
  scriptPayout : List UInt8
  inputsHash : Uint256
  vchSig : List UInt8
  deriving DecidableEq, Repr

structure CProUpServTx where
  nVersion : Nat
  nType : MnType
  proTxHash : Uint256
  netInfo : NetInfo
  platformNodeID : Uint160
  platformP2PPort : Nat
  platformHTTPPort : Nat
  scriptOperatorPayout : List UInt8
  inputsHash : Uint256
  sig : List UInt8
  deriving DecidableEq, Repr

structure CProUpRegTx where
  nVersion : Nat
  proTxHash : Uint256
  nMode : Nat
  pubKeyOperator : Option CBLSLazyPublicKey
  keyIDVoting : Uint160
  scriptPayout : List UInt8
  inputsHash : Uint256
  vchSig : List UInt8
  deriving DecidableEq, Repr

structure CProUpRevTx where
  nVersion : Nat
  proTxHash : Uint256
  nReason : Nat
  inputsHash : Uint256
  sig : List UInt8
  deriving DecidableEq, Repr

def reasonLast : Nat := 3

/-- `CTxDestination`, where there is one. -/
inductive CTxDestination where
  | pkHash (id : Uint160)
  | scriptHash (id : Uint160)
  deriving DecidableEq, Repr

def isPayToPublicKeyHash (script : List UInt8) : Bool :=
  script.length == 25 && script.take 3 == [0x76, 0xa9, 0x14] && script.drop 23 == [0x88, 0xac]

def isPayToScriptHash (script : List UInt8) : Bool :=
  script.length == 23 && script.take 2 == [0xa9, 0x14] && script.drop 22 == [0x87]

/-- The reject reasons of provider transactions, "bad-protx-…". -/
inductive ProTxReject where
  | version
  | evoVersion
  | type
  | mode
  | keyNull
  | operatorPubkey
  | payee
  | payeeDest
  | payeeReuse
  | operatorReward
  | operatorPayee
  | netinfoVersion
  | netinfoEmpty
  | netinfoBad
  | netinfoAddr
  | netinfoPort
  | netinfoAddrType
  | netinfoAddrUnroutable
  | netinfoEntry
  | dupNetinfoEntry
  | platformNodeid
  | platformP2PPort
  | platformHTTPPort
  | platformDisabled
  | platformDupPorts
  | dupPlatformnodeid
  | payload
  | versionDisallowed
  | versionDowngrade
  | versionUpgrade
  | versionTxType
  | collateral
  | collateralDest
  | collateralPkh
  | collateralIndex
  | collateralReuse
  | dupKey
  | keyNotSame
  | inputsHash
  | sig
  | hash
  | typeMismatch
  | reason
  /-- "bad-tx-type", before the activation of deterministic masternodes. -/
  | txType
  /-- A reason of another kind of special transaction. -/
  | other
  /-- `assert(false)`. -/
  | assertion
  deriving DecidableEq, Repr

structure ProTxEnv where
  getHash : CTransaction → Uint256
  /-- `GetTxPayload<CProRegTx>`, and so on. -/
  proRegTx : CTransaction → Option CProRegTx
  proUpServTx : CTransaction → Option CProUpServTx
  proUpRegTx : CTransaction → Option CProUpRegTx
  proUpRevTx : CTransaction → Option CProUpRevTx
  calcTxInputsHash : CTransaction → Uint256
  extractDestination : List UInt8 → Option CTxDestination
  /-- `CheckStringSig`, where the last argument allows the legacy magic. -/
  checkStringSig : CProRegTx → Uint160 → Bool → Bool
  /-- `CheckHashSig` with the operator key or the owner key. -/
  checkServSig : CProUpServTx → Option CBLSLazyPublicKey → Bool
  checkRegSig : CProUpRegTx → Uint160 → Bool
  checkRevSig : CProUpRevTx → Option CBLSLazyPublicKey → Bool
  /-- The hash of two hashes in `UpdateConfirmedHash`. -/
  sha256 : Uint256 → Uint256 → Uint256
  netRules : NetRules
  dip0003EnforcementHeight : Int
  nMasternodeMinimumConfirmations : Int

/-- What is read about the previous block and the coins. The deployments are
those that are active after the previous block. -/
structure BlockContext where
  prevHash : Uint256
  prevHeight : Int
  isDIP0003Active : Bool
  isV19Active : Bool
  isMNRewardReallocation : Bool
  isV24Active : Bool
  getCoin : COutPoint → Option Coin
  /-- `!view.GetBestBlock().IsNull()`. -/
  viewHasBestBlock : Bool
  checkSigs : Bool
  /-- `CheckSpecialTx` for the other types. -/
  checkOther : CTransaction → Bool
  /-- The members of the quorum of a commitment with their `validMembers`
  flags; none for a null commitment. -/
  quorumMembers : CTransaction → Except ProTxReject (List (Uint256 × Bool))

open Except ProTxVersion

/-! ## Checks without a list -/

section Checks

variable (env : ProTxEnv) (ctx : BlockContext)

def isNetInfoTriviallyValid (nType : MnType) (netInfo : NetInfo) : Except ProTxReject Unit := do
  let https := netInfo.hasEntries purposePlatformHTTPS
  let p2p := netInfo.hasEntries purposePlatformP2P
  require .netinfoEmpty (netInfo.hasEntries purposeCoreP2P)
  require .netinfoBad (!(nType == .regular && (https || p2p)))
  require .netinfoEmpty (!(netInfo.canStorePlatform && nType == .evo && (!https || !p2p)))

/-- The last loop of `IsTriviallyValid`. -/
def checkEntries (netInfo : NetInfo) : Except ProTxReject Unit :=
  require .netinfoBad (netInfo.getEntries.all (NetInfoEntry.isTriviallyValid env.netRules))

/-- `ProTxVersion::GetMaxFromDeployment`. -/
def maxVersion (isExtAddrEligible : Bool) : Nat :=
  getMax ctx.isV19Active (isExtAddrEligible && ctx.isV24Active)

/-- The version check of every `IsTriviallyValid`. -/
def checkVersion (isExtAddrEligible : Bool) (nVersion : Nat) : Except ProTxReject Unit :=
  require .version (nVersion != 0 && nVersion ≤ maxVersion ctx isExtAddrEligible)

/-- The operator key was read in the scheme of the version. -/
def checkScheme (key : Option CBLSLazyPublicKey) (nVersion : Nat) : Except ProTxReject Unit :=
  require .operatorPubkey
    (key.all fun key => key.bufLegacyScheme == (nVersion == legacyBLS))

def checkPayee (script : List UInt8) : Except ProTxReject Unit :=
  require .payee (isPayToPublicKeyHash script || isPayToScriptHash script)

def CProRegTx.isTriviallyValid (ptx : CProRegTx) : Except ProTxReject Unit := do
  checkVersion ctx true ptx.nVersion
  require .evoVersion (!(ptx.nVersion < basicBLS && ptx.nType == .evo))
  require .type ptx.nType.isValid
  require .mode (ptx.nMode == 0)
  require .keyNull (ptx.keyIDOwner != 0 && ptx.pubKeyOperator.isSome && ptx.keyIDVoting != 0)
  checkScheme ptx.pubKeyOperator ptx.nVersion
  checkPayee ptx.scriptPayout
  require .netinfoVersion (ptx.netInfo.canStorePlatform == (ptx.nVersion == extAddr))
  checkIf (!ptx.netInfo.isEmpty) (isNetInfoTriviallyValid ptx.nType ptx.netInfo)
  checkEntries env ptx.netInfo
  let payoutDest ← ofOption .payeeDest (env.extractDestination ptx.scriptPayout)
  require .payeeReuse (payoutDest != .pkHash ptx.keyIDOwner &&
    payoutDest != .pkHash ptx.keyIDVoting)
  require .operatorReward (ptx.nOperatorReward ≤ 10000)

def CProUpServTx.isTriviallyValid (ptx : CProUpServTx) : Except ProTxReject Unit := do
  checkVersion ctx true ptx.nVersion
  require .evoVersion (!(ptx.nVersion < basicBLS && ptx.nType == .evo))
  require .netinfoVersion (ptx.netInfo.canStorePlatform == (ptx.nVersion == extAddr))
  require .netinfoEmpty (!ptx.netInfo.isEmpty)
  isNetInfoTriviallyValid ptx.nType ptx.netInfo
  checkEntries env ptx.netInfo

def CProUpRegTx.isTriviallyValid (ptx : CProUpRegTx) : Except ProTxReject Unit := do
  checkVersion ctx false ptx.nVersion
  require .mode (ptx.nMode == 0)
  require .keyNull (ptx.pubKeyOperator.isSome && ptx.keyIDVoting != 0)
  checkScheme ptx.pubKeyOperator ptx.nVersion
  checkPayee ptx.scriptPayout

def CProUpRevTx.isTriviallyValid (ptx : CProUpRevTx) : Except ProTxReject Unit := do
  checkVersion ctx false ptx.nVersion
  require .reason (ptx.nReason ≤ reasonLast)

def checkService (netInfo : NetInfo) (fAllowLegacyPort : Bool) : Except ProTxReject Unit :=
  match netInfo.validate env.netRules fAllowLegacyPort with
  | .badAddress => .error .netinfoAddr
  | .badPort => .error .netinfoPort
  | .badType => .error .netinfoAddrType
  | .notRoutable => .error .netinfoAddrUnroutable
  | .malformed => .error .netinfoBad
  | .success => .ok ()
  -- these are not expected and stop the node
  | .badInput => .error .assertion
  | .duplicate => .error .assertion
  | .maxLimit => .error .assertion

def checkPlatformFields (netInfo : NetInfo) (platformNodeID : Uint160)
    (p2p http : Nat) (isExtendedAddr : Bool) : Except ProTxReject Unit := do
  require .platformNodeid (platformNodeID != 0)
  if isExtendedAddr then do
    require .platformP2PPort (p2p == 0)
    require .platformHTTPPort (http == 0)
  else do
    let rules := env.netRules
    checkIf rules.isNodeOnMainnet do
      require .platformDisabled (rules.defaultPlatformP2PPort != 0)
      require .platformP2PPort (p2p == rules.defaultPlatformP2PPort)
      require .platformHTTPPort (http == rules.defaultPlatformHTTPPort)
    require .platformP2PPort (p2p != rules.defaultPort)
    require .platformHTTPPort (http != rules.defaultPort)
    let corePort := netInfo.getPrimary.port
    require .platformDupPorts (p2p != http && p2p != corePort && http != corePort)

def legacyRulesMaxHeight : Int := 3515

def allowLegacyRules : Bool := ctx.prevHeight + 1 ≤ legacyRulesMaxHeight

def isVersionChangeValid (txType stateVersion txVersion : Nat) : Except ProTxReject Unit :=
  if !ctx.isV24Active then .ok ()
  else do
    require .versionDowngrade (!(basicBLS ≤ stateVersion &&
      txVersion == legacyBLS))
    require .versionUpgrade (!(stateVersion == legacyBLS &&
      basicBLS < txVersion))
    require .versionTxType (!(txType != transactionProviderUpdateService &&
      txVersion == extAddr))

/-- The outpoint that a registration pledges: its own output if the hash is
null. -/
def collateralOf (tx : CTransaction) (ptx : CProRegTx) : COutPoint :=
  if ptx.collateralOutpoint.hash = 0 then ⟨env.getHash tx, ptx.collateralOutpoint.n⟩
  else ptx.collateralOutpoint

/-- The destination of the collateral, and the key that has to sign if it is
not part of the transaction. -/
def checkCollateral (tx : CTransaction) (ptx : CProRegTx) :
    Except ProTxReject (CTxDestination × Option Uint160) :=
  if ptx.collateralOutpoint.hash ≠ 0 then
    match ctx.getCoin ptx.collateralOutpoint with
    | none => .error .collateral
    | some coin => do
      require .collateral (!coin.isSpent && coin.out.nValue == ptx.nType.collatAmount)
      let dest ← ofOption .collateralDest (env.extractDestination coin.out.scriptPubKey)
      match dest with
      | .pkHash id => .ok (dest, some id)
      | .scriptHash _ => .error .collateralPkh
  else
    match tx.vout[ptx.collateralOutpoint.n]? with
    | none => .error .collateralIndex
    | some out => do
      require .collateral (out.nValue == ptx.nType.collatAmount)
      let dest ← ofOption .collateralDest (env.extractDestination out.scriptPubKey)
      .ok (dest, none)

end Checks

/-! ## Checks against the list -/

section ListChecks

variable {H : Type} [DecidableEq H] (hash : UniqueProperty → H)
  (env : ProTxEnv) (ctx : BlockContext) (mnList : CDeterministicMNList H)

/-- A network entry whose address is free, or belongs to a masternode for
which `allowed` holds. -/
def checkEntryOwner (allowed : CDeterministicMN → Bool) (entry : NetInfoEntry) :
    Except ProTxReject Unit :=
  match entry.property with
  | none => .error .netinfoEntry
  | some v => require .dupNetinfoEntry (!(mnList.hasUniqueProperty hash v &&
      !(mnList.getUniquePropertyMN hash v).any allowed))

def checkEntryOwners (allowed : CDeterministicMN → Bool) (netInfo : NetInfo) :
    Except ProTxReject Unit :=
  netInfo.getEntries.forM (checkEntryOwner hash mnList allowed)

def checkProRegTx (tx : CTransaction) : Except ProTxReject Unit := do
  require .type (tx.nType == transactionProviderRegister)
  let ptx ← ofOption .payload (env.proRegTx tx)
  ptx.isTriviallyValid env ctx
  require .versionDisallowed (!(ctx.isV24Active && ptx.nVersion < basicBLS))
  checkIf (!ptx.netInfo.isEmpty) (checkService env ptx.netInfo (allowLegacyRules ctx))
  checkIf (ptx.nType == .evo) (checkPlatformFields env ptx.netInfo
    ptx.platformNodeID ptx.platformP2PPort ptx.platformHTTPPort
    (extAddr ≤ ptx.nVersion))
  let (dest, keyForPayloadSig) ← checkCollateral env ctx tx ptx
  require .collateralReuse (dest != .pkHash ptx.keyIDOwner && dest != .pkHash ptx.keyIDVoting)
  -- addresses may be reused for the same collateral, keys never
  checkEntryOwners hash mnList
    (fun dmn => dmn.collateralOutpoint == collateralOf env tx ptx) ptx.netInfo
  require .dupKey (!(mnList.hasUniqueProperty hash (.id160 ptx.keyIDOwner) ||
    mnList.hasUniqueProperty hash (.operatorKey ptx.pubKeyOperator)))
  require .dupPlatformnodeid (!(ptx.nType == .evo &&
    mnList.hasUniqueProperty hash (.id160 ptx.platformNodeID)))
  require .keyNotSame (env.dip0003EnforcementHeight ≤ ctx.prevHeight ||
    ptx.keyIDOwner == ptx.keyIDVoting)
  require .inputsHash (env.calcTxInputsHash tx == ptx.inputsHash)
  match keyForPayloadSig with
  | some id => require .sig (!ctx.checkSigs || env.checkStringSig ptx id (allowLegacyRules ctx))
  | none => require .sig ptx.vchSig.isEmpty

def checkProUpServTx (tx : CTransaction) : Except ProTxReject Unit := do
  require .type (tx.nType == transactionProviderUpdateService)
  let ptx ← ofOption .payload (env.proUpServTx tx)
  ptx.isTriviallyValid env ctx
  checkService env ptx.netInfo (allowLegacyRules ctx)
  checkIf (ptx.nType == .evo) (checkPlatformFields env ptx.netInfo
    ptx.platformNodeID ptx.platformP2PPort ptx.platformHTTPPort
    (extAddr ≤ ptx.nVersion))
  let dmn ← ofOption .hash (mnList.getMN ptx.proTxHash)
  isVersionChangeValid ctx tx.nType dmn.pdmnState.nVersion ptx.nVersion
  checkEntryOwners hash mnList (fun dmn => dmn.proTxHash == ptx.proTxHash) ptx.netInfo
  require .dupPlatformnodeid (!(ptx.nType == .evo &&
    mnList.hasUniqueProperty hash (.id160 ptx.platformNodeID) &&
    !(mnList.getUniquePropertyMN hash (.id160 ptx.platformNodeID)).any
      fun dmn => dmn.proTxHash == ptx.proTxHash))
  require .operatorPayee (ptx.scriptOperatorPayout.isEmpty ||
    (dmn.nOperatorReward != 0 &&
      (isPayToPublicKeyHash ptx.scriptOperatorPayout ||
        isPayToScriptHash ptx.scriptOperatorPayout)))
  require .inputsHash (env.calcTxInputsHash tx == ptx.inputsHash)
  require .sig (!ctx.checkSigs || env.checkServSig ptx dmn.pdmnState.pubKeyOperator)

def checkProUpRegTx (tx : CTransaction) : Except ProTxReject Unit := do
  require .type (tx.nType == transactionProviderUpdateRegistrar)
  let ptx ← ofOption .payload (env.proUpRegTx tx)
  ptx.isTriviallyValid ctx
  let payoutDest ← ofOption .payeeDest (env.extractDestination ptx.scriptPayout)
  let dmn ← ofOption .hash (mnList.getMN ptx.proTxHash)
  isVersionChangeValid ctx tx.nType dmn.pdmnState.nVersion ptx.nVersion
  require .payeeReuse (payoutDest != .pkHash dmn.pdmnState.keyIDOwner &&
    payoutDest != .pkHash ptx.keyIDVoting)
  let coin ← ofOption .collateral (ctx.getCoin dmn.collateralOutpoint)
  require .collateral (!coin.isSpent)
  let dest ← ofOption .collateralDest (env.extractDestination coin.out.scriptPubKey)
  require .collateralReuse (dest != .pkHash dmn.pdmnState.keyIDOwner &&
    dest != .pkHash ptx.keyIDVoting)
  require .dupKey
    (!(mnList.hasUniqueProperty hash (.operatorKey ptx.pubKeyOperator) &&
      !(mnList.getUniquePropertyMN hash (.operatorKey ptx.pubKeyOperator)).any
        fun dmn => dmn.proTxHash == ptx.proTxHash))
  require .keyNotSame (env.dip0003EnforcementHeight ≤ ctx.prevHeight ||
    dmn.pdmnState.keyIDOwner == ptx.keyIDVoting)
  require .inputsHash (env.calcTxInputsHash tx == ptx.inputsHash)
  require .sig (!ctx.checkSigs || env.checkRegSig ptx dmn.pdmnState.keyIDOwner)

def checkProUpRevTx (tx : CTransaction) : Except ProTxReject Unit := do
  require .type (tx.nType == transactionProviderUpdateRevoke)
  let ptx ← ofOption .payload (env.proUpRevTx tx)
  ptx.isTriviallyValid ctx
  let dmn ← ofOption .hash (mnList.getMN ptx.proTxHash)
  isVersionChangeValid ctx tx.nType dmn.pdmnState.nVersion ptx.nVersion
  require .inputsHash (env.calcTxInputsHash tx == ptx.inputsHash)
  require .sig (!ctx.checkSigs || env.checkRevSig ptx dmn.pdmnState.pubKeyOperator)

def checkSpecialTx (tx : CTransaction) : Except ProTxReject Unit :=
  if !tx.hasExtraPayloadField then .ok ()
  else if !ctx.isDIP0003Active then .error .txType
  else if tx.nType = transactionProviderRegister then checkProRegTx hash env ctx mnList tx
  else if tx.nType = transactionProviderUpdateService then checkProUpServTx hash env ctx mnList tx
  else if tx.nType = transactionProviderUpdateRegistrar then checkProUpRegTx hash env ctx mnList tx
  else if tx.nType = transactionProviderUpdateRevoke then checkProUpRevTx env ctx mnList tx
  else require .other (ctx.checkOther tx)

end ListChecks

end KorshCore

import KorshCore.Primitives.TransactionFormat

/-!
# The signature hash of shielded transactions

`SignatureHash` of `script/interpreter.cpp` for the `SAPLING` signature
version. The hash function is a parameter that is told its personalization.

Nothing marks in the preimage whether the Sapling section is there, so with an
extra payload behind it one shape can pass for the other.
-/

namespace KorshCore

open Codec Format SpendDescription CTxIn List SaplingTxData Option

/-- `BLAKE2b` with 256 bits of output: personalization and data. -/
abbrev Blake2b := List UInt8 → List UInt8 → Uint256

/-- The bytes of an ASCII text. -/
def ascii (text : List Char) : List UInt8 := text.map fun c => UInt8.ofNat c.toNat

/-- `KSH_PREVOUTS_HASH_PERSONALIZATION`. -/
def prevoutsHashPersonalization : List UInt8 := ascii
  ['S', 'M', 'T', 'P', 'r', 'e', 'v', 'o', 'u', 't', 'H', 'a', 's', 'h', '0', '1']

/-- `KSH_SEQUENCE_HASH_PERSONALIZATION`. -/
def sequenceHashPersonalization : List UInt8 := ascii
  ['S', 'M', 'T', 'S', 'e', 'q', 'u', 'e', 'n', 'c', 'e', 'H', 'a', 's', 'h', '1']

/-- `KSH_OUTPUTS_HASH_PERSONALIZATION`. -/
def outputsHashPersonalization : List UInt8 := ascii
  ['S', 'M', 'T', 'O', 'u', 't', 'p', 'u', 't', 's', 'H', 'a', 's', 'h', '0', '1']

/-- `KSH_SHIELDED_SPENDS_HASH_PERSONALIZATION`. -/
def shieldedSpendsHashPersonalization : List UInt8 := ascii
  ['S', 'M', 'T', 'S', 'S', 'p', 'e', 'n', 'd', 's', 'H', 'a', 's', 'h', '0', '1']

/-- `KSH_SHIELDED_OUTPUTS_HASH_PERSONALIZATION`. -/
def shieldedOutputsHashPersonalization : List UInt8 := ascii
  ['S', 'M', 'T', 'S', 'O', 'u', 't', 'p', 'u', 't', 'H', 'a', 's', 'h', '0', '1']

/-- The personalization of the signature hash: the name and six zeros. -/
def sigHashPersonalization : List UInt8 :=
  ascii ['K', 'S', 'H', 'S', 'i', 'g', 'H', 'a', 's', 'h'] ++ List.replicate 6 0

def notAnInput : Nat := 0xffffffff

def sighashAll : BitVec 32 := 1
def sighashNone : BitVec 32 := 2
def sighashSingle : BitVec 32 := 3
def sighashAnyonecanpay : BitVec 32 := 0x80

/-- What `GetShieldedSpendsHash` takes from a spend: all but the
authorisation signature. -/
def SpendDescription.signed (spend : SpendDescription) :
    Uint256 × Uint256 × Uint256 × Uint256 × List UInt8 :=
  (spend.cv, spend.anchor, spend.nullifier, spend.rk, spend.zkproof)

/-- How `GetShieldedSpendsHash` writes it. -/
def SpendDescription.signedFormat : Format (Uint256 × Uint256 × Uint256 × Uint256 × List UInt8) :=
  uint256.seq (uint256.seq (uint256.seq (uint256.seq (block grothProofSize))))

namespace CTransaction

variable (blake2b : Blake2b) (txTo : CTransaction)

/-! ## The inner hashes -/

/-- What `GetPrevoutHash` hashes. -/
def prevoutBytes : List UInt8 :=
  (txTo.vin.map CTxIn.prevout).flatMap COutPoint.format.encode

/-- What `GetSequenceHash` hashes. -/
def sequenceBytes : List UInt8 :=
  (txTo.vin.map CTxIn.nSequence).flatMap (uint 4).encode

/-- What `GetOutputsHash` hashes. -/
def outputsBytes : List UInt8 := txTo.vout.flatMap CTxOut.format.encode

/-- What `GetShieldedSpendsHash` hashes. -/
def shieldedSpendsBytes : List UInt8 :=
  (txTo.sapData.vShieldedSpend.map SpendDescription.signed).flatMap
    SpendDescription.signedFormat.encode

/-- What `GetShieldedOutputsHash` hashes. -/
def shieldedOutputsBytes : List UInt8 :=
  txTo.sapData.vShieldedOutput.flatMap OutputDescription.format.encode

def getPrevoutHash : Uint256 :=
  blake2b prevoutsHashPersonalization txTo.prevoutBytes

def getSequenceHash : Uint256 :=
  blake2b sequenceHashPersonalization txTo.sequenceBytes

def getOutputsHash : Uint256 :=
  blake2b outputsHashPersonalization txTo.outputsBytes

def getShieldedSpendsHash : Uint256 :=
  blake2b shieldedSpendsHashPersonalization txTo.shieldedSpendsBytes

def getShieldedOutputsHash : Uint256 :=
  blake2b shieldedOutputsHashPersonalization txTo.shieldedOutputsBytes

end CTransaction

/-- `PrecomputedTransactionData`: the hashes of one transaction. -/
structure PrecomputedTransactionData where
  hashPrevouts : Uint256
  hashSequence : Uint256
  hashOutputs : Uint256
  hashShieldedSpends : Uint256
  hashShieldedOutputs : Uint256
  deriving DecidableEq, Repr

def PrecomputedTransactionData.init (blake2b : Blake2b) (txTo : CTransaction) :
    PrecomputedTransactionData where
  hashPrevouts := txTo.getPrevoutHash blake2b
  hashSequence := txTo.getSequenceHash blake2b
  hashOutputs := txTo.getOutputsHash blake2b
  hashShieldedSpends :=
    if txTo.hasShieldedPayloadField then txTo.getShieldedSpendsHash blake2b else 0
  hashShieldedOutputs :=
    if txTo.hasShieldedPayloadField then txTo.getShieldedOutputsHash blake2b else 0

namespace CTransaction

variable (blake2b : Blake2b) (scriptCode : List UInt8) (txTo : CTransaction)
  (nIn : Nat) (nHashType : BitVec 32) (amount : Int) (cache : Option PrecomputedTransactionData)

/-! ## The preimage -/

/-- `hashPrevouts` of the preimage. -/
def preimagePrevouts : Uint256 :=
  if nHashType &&& sighashAnyonecanpay = 0 then
    cache.elim (txTo.getPrevoutHash blake2b) (·.hashPrevouts)
  else 0

/-- `hashSequence` of the preimage. -/
def preimageSequence : Uint256 :=
  if nHashType &&& sighashAnyonecanpay = 0 ∧
      nHashType &&& 0x1f ≠ sighashSingle ∧ nHashType &&& 0x1f ≠ sighashNone then
    cache.elim (txTo.getSequenceHash blake2b) (·.hashSequence)
  else 0

/-- `hashOutputs` of the preimage. -/
def preimageOutputs : Uint256 :=
  if nHashType &&& 0x1f ≠ sighashSingle ∧ nHashType &&& 0x1f ≠ sighashNone then
    cache.elim (txTo.getOutputsHash blake2b) (·.hashOutputs)
  else if nHashType &&& 0x1f = sighashSingle then
    match txTo.vout[nIn]? with
    | some out => blake2b outputsHashPersonalization (CTxOut.format.encode out)
    | none => 0
  else 0

def hasSpends : Bool :=
  txTo.hasShieldedPayloadField && !txTo.sapData.vShieldedSpend.isEmpty

def hasOutputs : Bool :=
  txTo.hasShieldedPayloadField && !txTo.sapData.vShieldedOutput.isEmpty

def hasSaplingData : Bool := txTo.hasSpends || txTo.hasOutputs

/-- `hashShieldedSpends` of the preimage. -/
def preimageSpends : Uint256 :=
  if txTo.hasSpends then cache.elim (txTo.getShieldedSpendsHash blake2b) (·.hashShieldedSpends)
  else 0

/-- `hashShieldedOutputs` of the preimage. -/
def preimageShieldedOutputs : Uint256 :=
  if txTo.hasOutputs then cache.elim (txTo.getShieldedOutputsHash blake2b) (·.hashShieldedOutputs)
  else 0

def saplingSection : List UInt8 :=
  if txTo.hasSaplingData then
    uint256.encode (txTo.preimageSpends blake2b cache)
      ++ (uint256.encode (txTo.preimageShieldedOutputs blake2b cache)
      ++ int64.encode txTo.sapData.valueBalance)
  else []

def inputSection : List UInt8 :=
  if nIn = notAnInput then []
  else
    match txTo.vin[nIn]? with
    | some txin => COutPoint.format.encode txin.prevout
        ++ (byteVector.encode scriptCode ++ (int64.encode amount
        ++ (uint 4).encode txin.nSequence))
    | none => []

def payloadSection : List UInt8 :=
  if txTo.hasExtraPayloadField then byteVector.encode txTo.vExtraPayload else []

def sighashPreimage : List UInt8 :=
  (uint 2).encode (BitVec.ofInt 16 txTo.nVersion).toNat ++ ((uint 2).encode txTo.nType
    ++ (uint256.encode (txTo.preimagePrevouts blake2b nHashType cache)
    ++ (uint256.encode (txTo.preimageSequence blake2b nHashType cache)
    ++ (uint256.encode (txTo.preimageOutputs blake2b nIn nHashType cache)
    ++ (txTo.saplingSection blake2b cache
    ++ (txTo.inputSection scriptCode nIn amount
    ++ (txTo.payloadSection
    ++ ((uint 4).encode txTo.nLockTime ++ (uint 4).encode nHashType.toNat))))))))

/-- `SignatureHash` for `SigVersion::SAPLING`. -/
def signatureHash : Uint256 :=
  if txTo.vin.length ≤ nIn ∧ nIn ≠ notAnInput then 1
  else blake2b sigHashPersonalization
    (txTo.sighashPreimage blake2b scriptCode nIn nHashType amount cache)

end CTransaction

/-! ## What the hashed byte strings determine -/

namespace Format

theorem length_uint (k n : Nat) : ((uint k).encode n).length = k :=
  length_toBytes k n

theorem length_uint256 (hash : Uint256) : (uint256.encode hash).length = 32 :=
  length_toBytes 32 _

theorem length_int64 (i : Int) : (int64.encode i).length = 8 :=
  length_toBytes 8 _

theorem append_ne_nil_of_length {front back : List UInt8} {k : Nat}
    (h : front.length = k) (hk : 0 < k) : front ++ back ≠ [] := by
  intro hnil
  have hfront := (append_eq_nil_iff.mp hnil).1
  rw [hfront, length_nil] at h
  omega

end Format

namespace CTransaction

variable {blake2b : Blake2b} {a b : CTransaction}

theorem SaplingTxData.default_carriable : SaplingTxData.default.Carriable := by
  refine ⟨by decide, ⟨by decide, ?_⟩, ⟨by decide, ?_⟩, rfl⟩
  · intro spend hspend
    cases hspend
  · intro output houtput
    cases houtput

namespace Carriable

variable (h : a.Carriable)
include h

theorem headerFits : HeaderFits a.nVersion a.nType :=
  h.1

theorem prevout_valid : ∀ prevout ∈ a.vin.map CTxIn.prevout, COutPoint.format.Valid prevout := by
  intro prevout hmem
  obtain ⟨txin, htxin, rfl⟩ := mem_map.mp hmem
  exact COutPoint.format_valid_iff.mpr (h.2.1.2 txin htxin).1

theorem sequence_valid : ∀ nSequence ∈ a.vin.map CTxIn.nSequence, (uint 4).Valid nSequence := by
  intro nSequence hmem
  obtain ⟨txin, htxin, rfl⟩ := mem_map.mp hmem
  exact uint_valid_iff.mpr (h.2.1.2 txin htxin).2.2

theorem vout_valid : ∀ out ∈ a.vout, CTxOut.format.Valid out :=
  fun out hout => CTxOut.format_valid_iff.mpr (h.2.2.1.2 out hout)

theorem sapData_eq (hversion : ¬4 ≤ a.nVersion) : a.sapData = default := by
  have hsap := h.2.2.2.2.1
  rwa [if_neg hversion] at hsap

theorem sapData_carriable : a.sapData.Carriable := by
  by_cases hversion : 4 ≤ a.nVersion
  · have hsap := h.2.2.2.2.1
    rwa [if_pos hversion] at hsap
  · rw [h.sapData_eq hversion]
    exact SaplingTxData.default_carriable

end Carriable

theorem prevoutBytes_inj (ha : a.Carriable) (hb : b.Carriable)
    (h : a.prevoutBytes = b.prevoutBytes) : a.vin.map CTxIn.prevout = b.vin.map CTxIn.prevout :=
  COutPoint.format.flatMap_encode_inj (fun prevout _ =>
      append_ne_nil_of_length (length_uint256 prevout.hash) (by decide))
    ha.prevout_valid hb.prevout_valid h

theorem sequenceBytes_inj (ha : a.Carriable) (hb : b.Carriable)
    (h : a.sequenceBytes = b.sequenceBytes) :
    a.vin.map CTxIn.nSequence = b.vin.map CTxIn.nSequence :=
  (uint 4).flatMap_encode_inj (fun nSequence _ hnil => by
      have hlength := length_uint 4 nSequence
      rw [hnil, length_nil] at hlength
      omega)
    ha.sequence_valid hb.sequence_valid h

theorem outputsBytes_inj (ha : a.Carriable) (hb : b.Carriable)
    (h : a.outputsBytes = b.outputsBytes) : a.vout = b.vout :=
  CTxOut.format.flatMap_encode_inj
    (fun out _ => append_ne_nil_of_length (length_int64 out.nValue) (by decide))
    ha.vout_valid hb.vout_valid h

theorem signed_valid (h : a.Carriable) :
    ∀ signed ∈ a.sapData.vShieldedSpend.map SpendDescription.signed,
      SpendDescription.signedFormat.Valid signed := by
  intro signed hmem
  obtain ⟨spend, hspend, rfl⟩ := mem_map.mp hmem
  exact ⟨uint256_valid _, uint256_valid _, uint256_valid _, uint256_valid _,
    (h.sapData_carriable.2.1.2 spend hspend).1⟩

theorem shieldedSpendsBytes_inj (ha : a.Carriable) (hb : b.Carriable)
    (h : a.shieldedSpendsBytes = b.shieldedSpendsBytes) :
    a.sapData.vShieldedSpend.map SpendDescription.signed
      = b.sapData.vShieldedSpend.map SpendDescription.signed :=
  SpendDescription.signedFormat.flatMap_encode_inj (fun signed _ =>
      append_ne_nil_of_length (length_uint256 signed.1) (by decide))
    (signed_valid ha) (signed_valid hb) h

theorem shieldedOutputsBytes_inj (ha : a.Carriable) (hb : b.Carriable)
    (h : a.shieldedOutputsBytes = b.shieldedOutputsBytes) :
    a.sapData.vShieldedOutput = b.sapData.vShieldedOutput :=
  OutputDescription.format.flatMap_encode_inj (fun output _ =>
      append_ne_nil_of_length (length_uint256 output.cv) (by decide))
    (fun output hout => OutputDescription.format_valid_iff.mpr
      (ha.sapData_carriable.2.2.1.2 output hout))
    (fun output hout => OutputDescription.format_valid_iff.mpr
      (hb.sapData_carriable.2.2.1.2 output hout)) h

/-! ## Collisions and caches -/

/-- The hash has no collisions among these byte strings, and does not give the
null hash that stands for a section without entries. -/
structure CollisionFree (blake2b : Blake2b) (S : Set (List UInt8)) : Prop where
  inj : ∀ personal, Set.InjOn (blake2b personal) S
  ne_zero : ∀ personal, ∀ bytes ∈ S, blake2b personal bytes ≠ 0

/-- A cache, if there is one, was made for this transaction. -/
def OwnCache (blake2b : Blake2b) (txTo : CTransaction)
    (cache : Option PrecomputedTransactionData) : Prop :=
  ∀ data ∈ cache, data = PrecomputedTransactionData.init blake2b txTo

/-- Every byte string that a signature hash of the transaction feeds to the
hash function is one of these. -/
structure HashedIn (S : Set (List UInt8)) (blake2b : Blake2b)
    (scriptCode : List UInt8) (txTo : CTransaction) (nIn : Nat) (amount : Int) : Prop where
  prevouts : txTo.prevoutBytes ∈ S
  sequence : txTo.sequenceBytes ∈ S
  outputs : txTo.outputsBytes ∈ S
  shieldedSpends : txTo.shieldedSpendsBytes ∈ S
  shieldedOutputs : txTo.shieldedOutputsBytes ∈ S
  preimage : txTo.sighashPreimage blake2b scriptCode nIn sighashAll amount none ∈ S

/-- The rule "bad-txns-valuebalance-nonzero": there is no value balance
without shielded spends and outputs. -/
def BalanceBacked (txTo : CTransaction) : Prop :=
  txTo.sapData.vShieldedSpend = [] → txTo.sapData.vShieldedOutput = [] →
    txTo.sapData.valueBalance = 0

theorem sighashPreimage_ownCache {scriptCode : List UInt8} {nIn : Nat}
    {nHashType : BitVec 32} {amount : Int}
    {cache : Option PrecomputedTransactionData} (h : a.OwnCache blake2b cache) :
    a.sighashPreimage blake2b scriptCode nIn nHashType amount cache
      = a.sighashPreimage blake2b scriptCode nIn nHashType amount none := by
  cases cache with
  | none => rfl
  | some data =>
    obtain rfl := h data rfl
    have hspends : a.preimageSpends blake2b
        (some (PrecomputedTransactionData.init blake2b a)) = a.preimageSpends blake2b none := by
      unfold preimageSpends
      split_ifs with hhas
      · exact if_pos (Bool.and_eq_true_iff.mp hhas).1
      · rfl
    have houtputs : a.preimageShieldedOutputs blake2b
        (some (PrecomputedTransactionData.init blake2b a))
          = a.preimageShieldedOutputs blake2b none := by
      unfold preimageShieldedOutputs
      split_ifs with hhas
      · exact if_pos (Bool.and_eq_true_iff.mp hhas).1
      · rfl
    unfold sighashPreimage saplingSection
    rw [hspends, houtputs]
    rfl

/-! ## Binding -/

variable {scriptCode : List UInt8} {nIn : Nat} {amount : Int}

theorem spends_eq_nil (h : a.Carriable) (hhas : a.hasSpends = false) :
    a.sapData.vShieldedSpend = [] := by
  by_cases hversion : 4 ≤ a.nVersion
  · have hfield : a.hasShieldedPayloadField = true := decide_eq_true hversion
    rw [hasSpends, hfield] at hhas
    simpa using hhas
  · rw [h.sapData_eq hversion]
    rfl

theorem shieldedOutputs_eq_nil (h : a.Carriable) (hhas : a.hasOutputs = false) :
    a.sapData.vShieldedOutput = [] := by
  by_cases hversion : 4 ≤ a.nVersion
  · have hfield : a.hasShieldedPayloadField = true := decide_eq_true hversion
    rw [hasOutputs, hfield] at hhas
    simpa using hhas
  · rw [h.sapData_eq hversion]
    rfl

variable {S : Set (List UInt8)}

theorem CollisionFree.optional_inj (hS : CollisionFree blake2b S)
    {personal bytes bytes' : List UInt8} (hmem : bytes ∈ S) (hmem' : bytes' ∈ S) {has has' : Bool}
    (h : (if has then blake2b personal bytes else 0) = if has' then blake2b
      personal bytes' else 0) : has = has' ∧ (has = true → bytes = bytes') := by
  cases has <;> cases has'
  · exact ⟨rfl, fun hc => absurd hc (by decide)⟩
  · exact absurd h.symm (hS.ne_zero personal bytes' hmem')
  · exact absurd h (hS.ne_zero personal bytes hmem)
  · exact ⟨rfl, fun _ => hS.inj personal hmem hmem' h⟩

theorem preimageSpends_inj (hS : CollisionFree blake2b S)
    (hmema : a.shieldedSpendsBytes ∈ S) (hmemb : b.shieldedSpendsBytes ∈ S)
    (ha : a.Carriable) (hb : b.Carriable)
    (h : a.preimageSpends blake2b none = b.preimageSpends blake2b none) :
    a.sapData.vShieldedSpend.map signed = b.sapData.vShieldedSpend.map signed := by
  obtain ⟨hhas, hbytes⟩ := hS.optional_inj hmema hmemb h
  cases hhasa : a.hasSpends with
  | false => rw [spends_eq_nil ha hhasa, spends_eq_nil hb (hhas ▸ hhasa)]
  | true => exact shieldedSpendsBytes_inj ha hb (hbytes hhasa)

theorem preimageShieldedOutputs_inj (hS : CollisionFree blake2b S)
    (hmema : a.shieldedOutputsBytes ∈ S) (hmemb : b.shieldedOutputsBytes ∈ S)
    (ha : a.Carriable) (hb : b.Carriable)
    (h : a.preimageShieldedOutputs blake2b none = b.preimageShieldedOutputs blake2b none) :
    a.sapData.vShieldedOutput = b.sapData.vShieldedOutput := by
  obtain ⟨hhas, hbytes⟩ := hS.optional_inj hmema hmemb h
  cases hhasa : a.hasOutputs with
  | false =>
    rw [shieldedOutputs_eq_nil ha hhasa, shieldedOutputs_eq_nil hb (hhas ▸ hhasa)]
  | true => exact shieldedOutputsBytes_inj ha hb (hbytes hhasa)

theorem inputSection_congr (hprevouts : a.vin.map prevout = b.vin.map prevout)
    (hsequences : a.vin.map nSequence = b.vin.map nSequence) :
    a.inputSection scriptCode nIn amount = b.inputSection scriptCode nIn amount := by
  have hprevout := congrArg (fun l => l[nIn]?) hprevouts
  have hsequence := congrArg (fun l => l[nIn]?) hsequences
  simp only [getElem?_map] at hprevout hsequence
  unfold inputSection
  split_ifs with hnone
  · rfl
  · cases ha : a.vin[nIn]? with
    | none =>
      rw [ha, map_none, eq_comm, map_eq_none_iff] at hprevout
      rw [hprevout]
    | some txin =>
      rw [ha, map_some, eq_comm, map_eq_some_iff] at hprevout
      obtain ⟨txin', hb, heq⟩ := hprevout
      rw [ha, hb] at hsequence
      have hseq : txin.nSequence = txin'.nSequence := some.inj hsequence
      simp only [hb, heq, hseq]

theorem length_saplingSection : (a.saplingSection blake2b none).length
    = if a.hasSaplingData then 72 else 0 := by
  unfold saplingSection
  split_ifs
  · rw [length_append, length_append, length_uint256, length_uint256, length_int64]
  · rfl

theorem hasExtraPayloadField_congr (hversion : a.nVersion = b.nVersion)
    (htype : a.nType = b.nType) : a.hasExtraPayloadField = b.hasExtraPayloadField := by
  unfold hasExtraPayloadField isSpecialTxVersion
  rw [hversion, htype]

theorem payloadSection_inj (ha : a.Carriable) (hb : b.Carriable)
    (hversion : a.nVersion = b.nVersion) (htype : a.nType = b.nType)
    (h : a.payloadSection = b.payloadSection) : a.vExtraPayload = b.vExtraPayload := by
  have hfield := hasExtraPayloadField_congr hversion htype
  have hiff : ∀ {tx : CTransaction}, tx.hasExtraPayloadField = true ↔
      3 ≤ tx.nVersion ∧ tx.nType ≠ transactionNormal := by
    intro tx
    unfold hasExtraPayloadField isSpecialTxVersion
    simp
  have hpa := ha.2.2.2.2.2
  have hpb := hb.2.2.2.2.2
  unfold payloadSection at h
  by_cases hhas : a.hasExtraPayloadField = true
  · rw [if_pos (hiff.mp hhas)] at hpa
    rw [if_pos (hiff.mp (hfield ▸ hhas))] at hpb
    rw [if_pos hhas, if_pos (hfield ▸ hhas)] at h
    exact byteVector.encode_inj (byteVector_valid_iff.mpr hpa) (byteVector_valid_iff.mpr hpb) h
  · rw [if_neg (fun hc => hhas (hiff.mpr hc))] at hpa
    rw [if_neg (fun hc => hhas (hfield ▸ hiff.mpr hc))] at hpb
    rw [hpa, hpb]

theorem sighashPreimage_all_inj (ha : a.Carriable) (hb : b.Carriable)
    (h : a.sighashPreimage blake2b scriptCode nIn sighashAll amount none
      = b.sighashPreimage blake2b scriptCode nIn sighashAll amount none) :
    a.nVersion = b.nVersion ∧ a.nType = b.nType ∧
    a.getPrevoutHash blake2b = b.getPrevoutHash blake2b ∧
    a.getSequenceHash blake2b = b.getSequenceHash blake2b ∧
    a.getOutputsHash blake2b = b.getOutputsHash blake2b ∧ a.nLockTime = b.nLockTime ∧
    a.saplingSection blake2b none ++ (a.inputSection scriptCode nIn amount ++ a.payloadSection)
      = b.saplingSection blake2b none
        ++ (b.inputSection scriptCode nIn amount ++ b.payloadSection) := by
  obtain ⟨hversion, h⟩ := (uint 2).encode_append_inj
    (uint_valid_iff.mpr (BitVec.isLt _)) (uint_valid_iff.mpr (BitVec.isLt _)) h
  obtain ⟨htype, h⟩ := (uint 2).encode_append_inj
    (uint_valid_iff.mpr ha.headerFits.2) (uint_valid_iff.mpr hb.headerFits.2) h
  obtain ⟨hprevouts, h⟩ := uint256.encode_append_inj (uint256_valid _) (uint256_valid _) h
  obtain ⟨hsequence, h⟩ := uint256.encode_append_inj (uint256_valid _) (uint256_valid _) h
  obtain ⟨houtputs, h⟩ := uint256.encode_append_inj (uint256_valid _) (uint256_valid _) h
  -- the lock time is found from the end
  simp only [← append_assoc] at h
  obtain ⟨h, _⟩ := append_inj' h rfl
  obtain ⟨h, hlock⟩ := append_inj' h (by rw [length_uint, length_uint])
  simp only [append_assoc] at h
  have hversion' := BitVec.eq_of_toNat_eq hversion
  refine ⟨?_, htype, hprevouts, hsequence, houtputs, ?_, h⟩
  · rw [← toInt_ofInt_version ha.headerFits.1, hversion', toInt_ofInt_version hb.headerFits.1]
  · exact (uint 4).encode_inj (uint_valid_iff.mpr ha.2.2.2.1) (uint_valid_iff.mpr hb.2.2.2.1) hlock

/-- What is left tells the rest, when both or neither have a Sapling section,
or no payload follows it. -/
theorem sections_inj (hS : CollisionFree blake2b S)
    (hsa : a.shieldedSpendsBytes ∈ S) (hsb : b.shieldedSpendsBytes ∈ S)
    (hoa : a.shieldedOutputsBytes ∈ S) (hob : b.shieldedOutputsBytes ∈ S)
    (ha : a.Carriable) (hb : b.Carriable)
    (hversion : a.nVersion = b.nVersion) (htype : a.nType = b.nType)
    (hinput : a.inputSection scriptCode nIn amount = b.inputSection scriptCode nIn amount)
    (hshape : a.hasExtraPayloadField = true → a.hasSaplingData = b.hasSaplingData)
    (h : a.saplingSection blake2b none ++ (a.inputSection scriptCode nIn amount
      ++ a.payloadSection) = b.saplingSection blake2b none ++ (b.inputSection
      scriptCode nIn amount ++ b.payloadSection)) :
    a.sapData.vShieldedSpend.map signed = b.sapData.vShieldedSpend.map signed ∧
    a.sapData.vShieldedOutput = b.sapData.vShieldedOutput ∧
    (a.BalanceBacked → b.BalanceBacked → a.sapData.valueBalance = b.sapData.valueBalance) ∧
    a.vExtraPayload = b.vExtraPayload := by
  have hsame : a.hasSaplingData = b.hasSaplingData := by
    by_cases hhas : a.hasExtraPayloadField = true
    · exact hshape hhas
    · -- nothing behind the input section: the lengths tell
      have hfield := hasExtraPayloadField_congr hversion htype
      have hlength := congrArg length h
      unfold payloadSection at hlength
      rw [if_neg hhas, if_neg (hfield ▸ hhas), hinput] at hlength
      simp only [length_append, length_saplingSection] at hlength
      cases hda : a.hasSaplingData <;> cases hdb : b.hasSaplingData <;>
        simp [hda, hdb] at hlength ⊢
  rw [hinput] at h
  cases hhas : a.hasSaplingData with
  | false =>
    rw [hhas] at hsame
    unfold saplingSection at h
    rw [hhas, ← hsame] at h
    have hpayload := append_cancel_left (append_cancel_left h)
    obtain ⟨hspa, houa⟩ := Bool.or_eq_false_iff.mp hhas
    obtain ⟨hspb, houb⟩ := Bool.or_eq_false_iff.mp hsame.symm
    have hna := spends_eq_nil ha hspa
    have hnb := spends_eq_nil hb hspb
    have hma := shieldedOutputs_eq_nil ha houa
    have hmb := shieldedOutputs_eq_nil hb houb
    refine ⟨?_, ?_, ?_, payloadSection_inj ha hb hversion htype hpayload⟩
    · rw [hna, hnb]
    · rw [hma, hmb]
    · intro hbacked hbacked'
      rw [hbacked hna hma, hbacked' hnb hmb]
  | true =>
    rw [hhas] at hsame
    unfold saplingSection at h
    rw [hhas, ← hsame] at h
    obtain ⟨hspends, h⟩ := uint256.encode_append_inj (uint256_valid _) (uint256_valid _) h
    obtain ⟨houtputs, h⟩ := uint256.encode_append_inj (uint256_valid _) (uint256_valid _) h
    obtain ⟨hbalance, h⟩ := int64.encode_append_inj (int64_valid_iff.mpr ha.sapData_carriable.1)
      (int64_valid_iff.mpr hb.sapData_carriable.1) h
    exact ⟨preimageSpends_inj hS hsa hsb ha hb hspends,
      preimageShieldedOutputs_inj hS hoa hob ha hb houtputs, fun _ _ => hbalance,
      payloadSection_inj ha hb hversion htype (append_cancel_left h)⟩

/-- Two transactions with the same signature hash over everything, at an input
that both have or at none: they agree on the header, the prevouts, the
sequence numbers, the outputs and the lock time. They agree on the shielded
part and the extra payload as well if both or neither have a shielded spend or
output, or if the type has no extra payload; on the value balance, where there is none
without shielded spends and outputs. -/
theorem signatureHash_binds {S : Set (List UInt8)} (hS : CollisionFree blake2b S)
    (hSa : HashedIn S blake2b scriptCode a nIn amount)
    (hSb : HashedIn S blake2b scriptCode b nIn amount) (ha : a.Carriable) (hb : b.Carriable)
    (cache cache' : Option PrecomputedTransactionData)
    (hcache : a.OwnCache blake2b cache) (hcache' : b.OwnCache blake2b cache')
    (hin : nIn = notAnInput ∨ nIn < a.vin.length ∧ nIn < b.vin.length)
    (h : a.signatureHash blake2b scriptCode nIn sighashAll amount cache
      = b.signatureHash blake2b scriptCode nIn sighashAll amount cache') :
    a.nVersion = b.nVersion ∧ a.nType = b.nType ∧
    a.vin.map CTxIn.prevout = b.vin.map CTxIn.prevout ∧
    a.vin.map CTxIn.nSequence = b.vin.map CTxIn.nSequence ∧
    a.vout = b.vout ∧ a.nLockTime = b.nLockTime ∧
    ((a.hasExtraPayloadField = true → a.hasSaplingData = b.hasSaplingData) →
      a.sapData.vShieldedSpend.map SpendDescription.signed
        = b.sapData.vShieldedSpend.map SpendDescription.signed ∧
      a.sapData.vShieldedOutput = b.sapData.vShieldedOutput ∧
      (a.BalanceBacked → b.BalanceBacked → a.sapData.valueBalance = b.sapData.valueBalance) ∧
      a.vExtraPayload = b.vExtraPayload) := by
  unfold signatureHash at h
  rw [if_neg (by omega), if_neg (by omega), sighashPreimage_ownCache hcache,
    sighashPreimage_ownCache hcache'] at h
  have hpreimage := hS.inj _ hSa.preimage hSb.preimage h
  obtain ⟨hversion, htype, hprevouts, hsequence, houtputs, hlock, hrest⟩ :=
    sighashPreimage_all_inj ha hb hpreimage
  have hprevouts' := prevoutBytes_inj ha hb (hS.inj _ hSa.prevouts hSb.prevouts hprevouts)
  have hsequence' := sequenceBytes_inj ha hb (hS.inj _ hSa.sequence hSb.sequence hsequence)
  have houtputs' := outputsBytes_inj ha hb (hS.inj _ hSa.outputs hSb.outputs houtputs)
  refine ⟨hversion, htype, hprevouts', hsequence', houtputs', hlock, fun hshape => ?_⟩
  exact sections_inj hS hSa.shieldedSpends hSb.shieldedSpends
    hSa.shieldedOutputs hSb.shieldedOutputs ha hb hversion htype
    (inputSection_congr hprevouts' hsequence') hshape hrest

/-- A hash for examples: it keeps the length, and its first byte is 72. -/
def lengthHash : Blake2b := fun _ bytes => BitVec.ofNat 256 (72 + 256 * bytes.length)

theorem collisionFree_lengthHash {strings : List (List UInt8)}
    (h : ∀ x ∈ strings, ∀ y ∈ strings, lengthHash [] x = lengthHash [] y → x = y)
    (hzero : ∀ x ∈ strings, lengthHash [] x ≠ 0) :
    CollisionFree lengthHash { bytes | bytes ∈ strings } :=
  ⟨fun _ x hx y hy => h x hx y hy, fun _ x hx => hzero x hx⟩

/-- An asset lock with a transparent input, an output, a shielded spend and a payload,
with these bytes in its signatures. -/
def signedTx (sig : UInt8) : CTransaction :=
  ⟨[⟨⟨7, 1⟩, [sig], 0xffffffff⟩], [⟨50, [0x51]⟩], 4, transactionAssetLock, 0,
    ⟨5, [⟨1, 2, 3, 4, List.replicate grothProofSize 0, List.replicate spendAuthSigSize sig⟩], [],
      List.replicate bindingSigSize sig⟩, [8]⟩

/-- What it hashes, whatever its signatures are. -/
def signedTxStrings : List (List UInt8) :=
  [(signedTx 0).prevoutBytes, (signedTx 0).sequenceBytes, (signedTx 0).outputsBytes,
    (signedTx 0).shieldedSpendsBytes, [],
    (signedTx 0).sighashPreimage lengthHash [0x51] 0 sighashAll 9 none]

theorem hashedIn_signedTx (sig : UInt8) :
    HashedIn { bytes | bytes ∈ signedTxStrings } lengthHash [0x51] (signedTx sig) 0 9 where
  prevouts := .head _
  sequence := .tail _ (.head _)
  outputs := .tail _ (.tail _ (.head _))
  shieldedSpends := .tail _ (.tail _ (.tail _ (.head _)))
  shieldedOutputs := .tail _ (.tail _ (.tail _ (.tail _ (.head _))))
  preimage := .tail _ (.tail _ (.tail _ (.tail _ (.tail _ (.head _)))))

theorem signatureHash_binds_signedTx : signedTx 1 ≠ signedTx 2 ∧
    (signedTx 1).vin.map CTxIn.prevout = (signedTx 2).vin.map CTxIn.prevout ∧
    (signedTx 1).vout = (signedTx 2).vout ∧
    (signedTx 1).sapData.vShieldedSpend.map SpendDescription.signed
      = (signedTx 2).sapData.vShieldedSpend.map SpendDescription.signed ∧
    (signedTx 1).vExtraPayload = (signedTx 2).vExtraPayload := by
  have hS : CollisionFree lengthHash { bytes | bytes ∈ signedTxStrings } :=
    collisionFree_lengthHash (by decide +kernel) (by decide +kernel)
  have hbinds := signatureHash_binds hS (hashedIn_signedTx 1) (hashedIn_signedTx 2)
    (by decide +kernel) (by decide +kernel) none none (by intro _ h; cases h)
    (by intro _ h; cases h) (.inr (by decide)) rfl
  obtain ⟨-, -, hprevouts, -, houts, -, hrest⟩ := hbinds
  obtain ⟨hspends, -, -, hpayload⟩ := hrest fun _ => rfl
  exact ⟨by decide, hprevouts, houts, hspends, hpayload⟩

/-- A transaction of a type with an extra payload: this one has a shielded
spend and an empty payload. -/
def spendTx : CTransaction :=
  ⟨[], [], 4, transactionAssetLock, 0, ⟨5, [⟨0, 0, 0, 0, List.replicate grothProofSize 0,
      List.replicate spendAuthSigSize 0⟩], [], List.replicate bindingSigSize 0⟩, []⟩

/-- This one has no shielded part, and a payload that spells the Sapling
section of `spendTx` after its first byte. -/
def payloadTx : CTransaction :=
  ⟨[], [], 4, transactionAssetLock, 0, default,
    [64, 1] ++ List.replicate 61 0 ++ [5, 0, 0, 0, 0, 0, 0, 0, 0]⟩

/-- A transaction with a value balance and no shielded spend or output. -/
def balanceTx (valueBalance : Int) : CTransaction :=
  ⟨[], [], 4, transactionNormal, 0, ⟨valueBalance, [], [], List.replicate bindingSigSize 0⟩, []⟩

/-- What `spendTx` and `payloadTx` hash. -/
def spendTxStrings : List (List UInt8) :=
  [[], spendTx.shieldedSpendsBytes,
    spendTx.sighashPreimage lengthHash [] notAnInput sighashAll 0 none]

/-- The first byte of the hash of the spends is read as the length of the
payload: two carriable transactions without a collision share a signature
hash. A value balance is not covered without a shielded spend or output, and
at an index that is no input every transaction has the hash one. -/
theorem signatureHash_shares_shapes : (CollisionFree lengthHash { bytes | bytes ∈ spendTxStrings } ∧
      HashedIn { bytes | bytes ∈ spendTxStrings } lengthHash [] spendTx notAnInput 0 ∧
      HashedIn { bytes | bytes ∈ spendTxStrings } lengthHash [] payloadTx notAnInput 0 ∧
      spendTx.Carriable ∧ payloadTx.Carriable ∧
      spendTx.signatureHash lengthHash [] notAnInput sighashAll 0 none
        = payloadTx.signatureHash lengthHash [] notAnInput sighashAll 0 none ∧
      spendTx.sapData.vShieldedSpend.map SpendDescription.signed
        ≠ payloadTx.sapData.vShieldedSpend.map SpendDescription.signed ∧
      spendTx.vExtraPayload ≠ payloadTx.vExtraPayload) ∧
    ((balanceTx 0).signatureHash lengthHash [] notAnInput sighashAll 0 none
        = (balanceTx 5).signatureHash lengthHash [] notAnInput sighashAll 0 none ∧
      (balanceTx 0).sapData.valueBalance ≠ (balanceTx 5).sapData.valueBalance) ∧
    ((signedTx 0).signatureHash lengthHash [] 1 sighashAll 0 none
        = spendTx.signatureHash lengthHash [] 1 sighashAll 0 none ∧
      (signedTx 0).vin ≠ spendTx.vin) := by
  have hsame : spendTx.sighashPreimage lengthHash [] notAnInput sighashAll 0 none
      = payloadTx.sighashPreimage lengthHash [] notAnInput sighashAll 0 none := by
    decide +kernel
  refine ⟨⟨collisionFree_lengthHash (by decide +kernel) (by decide +kernel),
    ?_, ?_, by decide +kernel, by decide +kernel, by decide +kernel,
    by decide +kernel, by decide +kernel⟩, ⟨by decide +kernel, by decide⟩,
    by decide +kernel, by decide⟩
  · exact ⟨.head _, .head _, .head _, .tail _ (.head _), .head _, .tail _ (.tail _ (.head _))⟩
  · refine ⟨.head _, .head _, .head _, .head _, .head _, ?_⟩
    rw [← hsame]
    exact .tail _ (.tail _ (.head _))

end CTransaction

end KorshCore

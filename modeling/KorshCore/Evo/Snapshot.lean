import KorshCore.Evo.DiffProgress
import KorshCore.Evo.NetInfoFormat
import KorshCore.Primitives.TransactionFormat

/-!
# Snapshots of a masternode list

How `CDeterministicMNList` is written to disk and read back: the header and
the masternodes, which the reader enters one by one.
-/

namespace KorshCore

open Format ProTxVersion List CDeterministicMN Option Function

structure BLSKeys where
  /-- `ToBytes(specificLegacyScheme)`. -/
  toBytes : Bool → CBLSPublicKey → List UInt8
  /-- `SetBytes` and `CheckMalleable`. -/
  ofBytes : Bool → List UInt8 → Option CBLSPublicKey
  toBytes_of_ofBytes : ∀ {legacy bytes key}, ofBytes legacy bytes = some key →
    toBytes legacy key = bytes
  ofBytes_zero : ∀ legacy, ofBytes legacy (replicate 48 0) = none

def BLSKeys.format (keys : BLSKeys) (legacy : Bool) :
    Lossless SerializeError (Option CBLSLazyPublicKey) :=
  (block 48).lossless.map
    (fun bytes => (keys.ofBytes legacy bytes).map fun key => ⟨key, legacy⟩)
    (fun key => (key.map fun key => keys.toBytes legacy key.obj).getD (replicate 48 0)) (by
    intro bytes hbytes
    cases hkey : keys.ofBytes legacy bytes with
    | none => exact ⟨rfl, by rw [map_none, map_none, getD_none, keys.ofBytes_zero]; rfl⟩
    | some key =>
      rw [map_some, map_some, getD_some, keys.toBytes_of_ofBytes hkey, hkey]
      exact ⟨hbytes, rfl⟩)

theorem BLSKeys.valid_none (keys : BLSKeys) (legacy : Bool) : (keys.format legacy).Valid none := by
  refine ⟨rfl, ?_⟩
  show (keys.ofBytes legacy (replicate 48 0)).map _ = none
  rw [keys.ofBytes_zero]
  rfl

/-! ## States and masternodes -/

def MnType.format : Format MnType :=
  (uint 2).map (fun | 0 => regular | 1 => evo | code => invalid code)
    (fun | regular => 0 | evo => 1 | invalid code => code) (by
    rintro (_ | _ | code) _ <;> rfl)

def platformPortsFormat (nVersion : Nat) : Lossless SerializeError (Nat × Nat) :=
  if nVersion < extAddr then ((uint 2).seq (uint 2)).lossless
  else (Codec.absent (0, 0)).lossless

def countersFormat : Format (Int × Int × Int × Int × Int × Int) :=
  (int 4).seq ((int 4).seq ((int 4).seq ((int 4).seq ((int 4).seq (int 4)))))

def stateFormat (keys : BLSKeys) (rules : NetRules) (nVersion : Nat) :=
  countersFormat.lossless.seq <| (uint 2).lossless.seq <|
  uint256.lossless.seq <| uint256.lossless.seq <| uint160.lossless.seq <|
  (keys.format (nVersion == legacyBLS)).seq <|
  uint160.lossless.seq <|
  (NetInfo.format rules (extAddr ≤ nVersion)).seq <|
  byteVector.lossless.seq <| byteVector.lossless.seq <| uint160.lossless.seq <|
  platformPortsFormat nVersion

def CDeterministicMNState.format (keys : BLSKeys) (rules : NetRules) :
    Lossless SerializeError CDeterministicMNState :=
  ((uint 4).lossless.andThen (stateFormat keys rules)).map
    (fun ⟨nVersion, ⟨registered, paid, payments, penalty, revived, ban⟩, reason,
        confirmed, confirmedWith, owner, operator, voting, netInfo, payout,
        operatorPayout, nodeID, p2p, http⟩ =>
      ⟨nVersion, registered, paid, payments, penalty, revived, ban, reason,
        confirmed, confirmedWith, owner, operator, voting, netInfo, payout,
        operatorPayout, nodeID, p2p, http⟩)
    (fun s => ⟨s.nVersion, ⟨s.nRegisteredHeight, s.nLastPaidHeight,
        s.nConsecutivePayments, s.nPoSePenalty, s.nPoSeRevivedHeight,
        s.nPoSeBanHeight⟩, s.nRevocationReason, s.confirmedHash,
        s.confirmedHashWithProRegTxHash, s.keyIDOwner, s.pubKeyOperator,
        s.keyIDVoting, s.netInfo, s.scriptPayout, s.scriptOperatorPayout,
        s.platformNodeID, s.platformP2PPort, s.platformHTTPPort⟩)
    fun _ h => ⟨h, rfl⟩

def CDeterministicMN.format (keys : BLSKeys) (rules : NetRules) :
    Lossless SerializeError CDeterministicMN :=
  (uint256.lossless.seq <| varInt.seq <| COutPoint.format.lossless.seq <|
    (uint 2).lossless.seq <| (CDeterministicMNState.format keys rules).seq
    MnType.format.lossless).map
    (fun ⟨proTxHash, internalId, outpoint, reward, state, nType⟩ =>
      ⟨internalId, proTxHash, outpoint, reward, nType, state⟩)
    (fun dmn => ⟨dmn.proTxHash, dmn.internalId, dmn.collateralOutpoint,
      dmn.nOperatorReward, dmn.pdmnState, dmn.nType⟩)
    fun _ h => ⟨h, rfl⟩

/-- The range of an `int`. -/
def FitsInt (i : Int) : Prop := -2 ^ 31 ≤ i ∧ i < 2 ^ 31

structure CDeterministicMNState.Storable (keys : BLSKeys) (rules : NetRules)
    (s : CDeterministicMNState) : Prop where
  version : s.nVersion ≤ extAddr
  registered : FitsInt s.nRegisteredHeight
  paid : FitsInt s.nLastPaidHeight
  payments : FitsInt s.nConsecutivePayments
  penalty : FitsInt s.nPoSePenalty
  revived : FitsInt s.nPoSeRevivedHeight
  ban : FitsInt s.nPoSeBanHeight
  reason : s.nRevocationReason < 2 ^ 16
  /-- The key is kept in the scheme of the version. -/
  operator : (keys.format (s.nVersion == legacyBLS)).Valid s.pubKeyOperator
  netInfo : (NetInfo.format rules (extAddr ≤ s.nVersion)).Valid s.netInfo
  payout : s.scriptPayout.length ≤ maxSize
  operatorPayout : s.scriptOperatorPayout.length ≤ maxSize
  ports : s.platformP2PPort < 2 ^ 16 ∧ s.platformHTTPPort < 2 ^ 16
  /-- There are no ports where they are not written. -/
  noPorts : extAddr ≤ s.nVersion → s.platformP2PPort = 0 ∧ s.platformHTTPPort = 0

namespace CDeterministicMNState.Storable

variable {keys : BLSKeys} {rules : NetRules} {s : CDeterministicMNState}

theorem valid (h : s.Storable keys rules) : (CDeterministicMNState.format keys rules).Valid s := by
  have hint : ∀ {i : Int}, FitsInt i → (int 4).Valid i := fun h =>
    (int_valid_iff (by decide)).mpr h
  have hversion : (uint 4).Valid s.nVersion := by
    have := h.version
    rw [extAddr] at this
    rw [uint_valid_iff]
    omega
  have hports : (platformPortsFormat s.nVersion).Valid (s.platformP2PPort, s.platformHTTPPort) := by
    unfold platformPortsFormat
    split_ifs with hlt
    · exact ⟨uint_valid_iff.mpr h.ports.1, uint_valid_iff.mpr h.ports.2⟩
    · obtain ⟨hp2p, hhttp⟩ := h.noPorts (not_lt.mp hlt)
      exact Prod.ext hp2p hhttp
  exact ⟨⟨hversion, ⟨hint h.registered, hint h.paid, hint h.payments,
    hint h.penalty, hint h.revived, hint h.ban⟩, uint_valid_iff.mpr h.reason,
    uint256_valid _, uint256_valid _, uint160_valid _, h.operator,
    uint160_valid _, h.netInfo, byteVector_valid_iff.mpr h.payout,
    byteVector_valid_iff.mpr h.operatorPayout, uint160_valid _, hports⟩, rfl⟩

end CDeterministicMNState.Storable

structure CDeterministicMN.Storable (keys : BLSKeys) (rules : NetRules)
    (dmn : CDeterministicMN) : Prop where
  internalId : dmn.internalId < 2 ^ 64
  collateral : dmn.collateralOutpoint.Carriable
  reward : dmn.nOperatorReward < 2 ^ 16
  nType : dmn.nType.isValid = true
  state : dmn.pdmnState.Storable keys rules

theorem CDeterministicMN.Storable.valid {keys : BLSKeys} {rules : NetRules}
    {dmn : CDeterministicMN} (h : dmn.Storable keys rules) : (format keys rules).Valid dmn := by
  have htype : MnType.format.Valid dmn.nType := by
    have hvalid := h.nType
    revert hvalid
    cases dmn.nType with
    | regular => exact fun _ => ⟨uint_valid_iff.mpr (by decide), rfl⟩
    | evo => exact fun _ => ⟨uint_valid_iff.mpr (by decide), rfl⟩
    | invalid code => exact fun hvalid => Bool.noConfusion hvalid
  exact ⟨⟨uint256_valid _, h.internalId, COutPoint.format_valid_iff.mpr h.collateral,
    uint_valid_iff.mpr h.reward, h.state.valid, htype⟩, rfl⟩

/-! ## Lists -/

inductive SnapshotError where
  | read (error : SerializeError)
  | list (error : ListError)
  deriving DecidableEq, Repr

namespace CDeterministicMNList

variable {H : Type} [DecidableEq H] (hash : UniqueProperty → H) (keys : BLSKeys) (rules : NetRules)

/-- `SerializationOpBase`. -/
def headerFormat : Format (Uint256 × Int × Nat) :=
  uint256.seq ((int 4).seq (uint 4))

def serialize (l : CDeterministicMNList H) : List UInt8 :=
  headerFormat.encode (l.blockHash, l.nHeight, l.nTotalRegisteredCount) ++
    (compactSize.encode l.mns.length ++ l.mns.flatMap (format keys rules).encode)

def readMNs : Nat → List UInt8 → CDeterministicMNList H →
    Except SnapshotError (CDeterministicMNList H × List UInt8)
  | 0, bytes, l => .ok (l, bytes)
  | toRead + 1, bytes, l => do
    let (dmn, rest) ← ((format keys rules).decode bytes).mapError .read
    let l ← (l.addMN hash dmn false).mapError .list
    readMNs toRead rest l

def unserialize (bytes : List UInt8) :
    Except SnapshotError (CDeterministicMNList H × List UInt8) := do
  let ((blockHash, nHeight, count), rest) ← (headerFormat.decode bytes).mapError .read
  let (toRead, rest) ← (compactSize.decode rest).mapError .read
  readMNs hash keys rules toRead rest (make blockHash nHeight count)

variable {hash keys rules} {l : CDeterministicMNList H}

theorem readMNs_encode (rest : List UInt8) : ∀ {dmns : List CDeterministicMN}
    {l l' : CDeterministicMNList H}, (∀ dmn ∈ dmns, dmn.Storable keys rules) →
    dmns.foldlM (fun l dmn => l.addMN hash dmn false) l = .ok l' →
    readMNs hash keys rules dmns.length (dmns.flatMap (format keys rules).encode ++ rest) l
      = .ok (l', rest) := by
  intro dmns
  induction dmns with
  | nil =>
    intro l l' _ h
    cases h
    rfl
  | cons dmn dmns ih =>
    intro l l' hall h
    rw [foldlM_cons] at h
    obtain ⟨l₁, h₁, hrest⟩ := Except.bind_eq_ok_iff.mp h
    have hvalid := (hall dmn mem_cons_self).valid
    rw [flatMap_cons, append_assoc, length_cons, readMNs, Lossless.decode_encode _ _ hvalid]
    show (do
      let l ← (l.addMN hash dmn false).mapError SnapshotError.list
      readMNs hash keys rules dmns.length _ l) = _
    rw [h₁]
    exact ih (fun d hd => hall d (mem_cons_of_mem dmn hd)) hrest

theorem Indexed.follows_make (hl : l.Indexed hash)
    (hlistable : ∀ {p a}, l.getMN p = some a → a.Listable) :
    Follows hash (make l.blockHash l.nHeight l.nTotalRegisteredCount) l where
  indexed := indexed_make _ _ _
  indexed' := hl
  listable h := by cases h
  listable' := hlistable
  same h := by cases h
  apart _ h := by cases h

theorem Indexed.exists_reentered (hl : l.Indexed hash) (hinj : Injective hash)
    (hlistable : ∀ {p a}, l.getMN p = some a → a.Listable) :
    ∃ l', l.mns.foldlM (fun l dmn => l.addMN hash dmn false)
        (make l.blockHash l.nHeight l.nTotalRegisteredCount) = .ok l' ∧ SameList l l' := by
  have hfollows := hl.follows_make hlistable
  have hpairs : l.mns.Pairwise (fun a b => a.proTxHash ≠ b.proTxHash ∧
      a.internalId ≠ b.internalId) :=
    (pairwise_map.mp hl.nodup_mns).and (pairwise_map.mp hl.nodup_ids)
  obtain ⟨l', hl', -⟩ := hfollows.exists_foldlM_addMN hinj false hfollows.indexed
    (fun h => by cases h) hpairs (fun dmn hdmn => by
      have hlisted := hl.mem_mns_iff.mp hdmn
      exact ⟨target_of_new hlisted rfl, hlistable hlisted, rfl, fun q c hc => by cases hc⟩)
  obtain ⟨hindexed, hheader, hcount, hget⟩ := foldlM_addMN_effect hfollows.indexed hl'
  refine ⟨l', hl', hl.sameList hindexed ⟨hheader.blockHash, hheader.nHeight⟩ hcount fun q => ?_⟩
  refine ext fun dmn => ?_
  rw [hget q dmn]
  constructor
  · rintro (h | ⟨hmem, rfl⟩)
    · cases h
    · exact hl.mem_mns_iff.mp hmem
  · intro h
    have hkey := hl.key h
    exact .inr ⟨hl.mem_mns_iff.mpr (hkey.symm ▸ h), hkey⟩

theorem unserialize_serialize (hl : l.Indexed hash) (hinj : Injective hash)
    (hlistable : ∀ {p a}, l.getMN p = some a → a.Listable)
    (hheight : FitsInt l.nHeight) (hcount : l.nTotalRegisteredCount < 2 ^ 32)
    (hsize : l.mns.length ≤ maxSize) (hmns : ∀ {p a}, l.getMN p = some a → a.Storable keys rules)
    (rest : List UInt8) : ∃ l', unserialize hash keys rules (l.serialize keys rules ++ rest)
      = .ok (l', rest) ∧ SameList l l' := by
  obtain ⟨l', hl', hsame⟩ := hl.exists_reentered hinj hlistable
  refine ⟨l', ?_, hsame⟩
  have hheader : headerFormat.Valid (l.blockHash, l.nHeight, l.nTotalRegisteredCount) :=
    ⟨uint256_valid _, (int_valid_iff (by decide)).mpr hheight, uint_valid_iff.mpr hcount⟩
  rw [serialize, append_assoc, append_assoc, unserialize, headerFormat.decode_encode _ hheader]
  show (do
    let (toRead, rest) ← (compactSize.decode _).mapError SnapshotError.read
    readMNs hash keys rules toRead rest _) = _
  rw [compactSize.decode_encode _ (compactSize_valid_iff.mpr hsize)]
  exact readMNs_encode rest (fun dmn hdmn => hmns (hl.mem_mns_iff.mp hdmn)) hl'

end CDeterministicMNList

end KorshCore

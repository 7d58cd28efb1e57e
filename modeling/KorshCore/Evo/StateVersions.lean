import KorshCore.Evo.SnapshotRuns

/-!
# State versions under registrar updates

The version of a state decides the kind of its network information. A registrar
update that changes the operator key resets the state before it looks at the
version, so it never keeps one above `BasicBLS`.
-/

namespace KorshCore

open Except Function ProTxVersion CDeterministicMNState

/-- The network information is of the kind that the version requires. -/
def CDeterministicMNState.FitsKind (s : CDeterministicMNState) : Prop :=
  s.netInfo.canStorePlatform = decide (extAddr ≤ s.nVersion)

namespace CDeterministicMNList

variable {H : Type} {env : ProTxEnv} {ctx : BlockContext} {l l₀ l' : CDeterministicMNList H}
  {tx : CTransaction}

/-- No masternode above `BasicBLS` has a lower version in `l'`. -/
def KeepsVersions (l l' : CDeterministicMNList H) : Prop :=
  ∀ p a b, l.getMN p = some a → l'.getMN p = some b →
    basicBLS < a.pdmnState.nVersion → a.pdmnState.nVersion ≤ b.pdmnState.nVersion

theorem canStorePlatform_makeNetInfo (v : Nat) :
    (NetInfo.makeNetInfo v).canStorePlatform = decide (extAddr ≤ v) := by
  unfold NetInfo.makeNetInfo
  split_ifs with hv
  · exact (decide_eq_true hv).symm
  · exact (decide_eq_false hv).symm

theorem regState_of_rekey {s : CDeterministicMNState} {ptx : CProUpRegTx}
    (hkey : sameKey s.pubKeyOperator ptx.pubKeyOperator = false) :
    (regState ctx ptx s).nVersion = ptx.nVersion ∧ (regState ctx ptx s).FitsKind := by
  have hreset : ¬ basicBLS < (s.resetOperatorFields.banIfNotBanned ctx.nHeight).nVersion := by
    rw [(banIfNotBanned_fixed _ _).1]
    show ¬ basicBLS < legacyBLS
    decide
  unfold regState
  rw [hkey, if_neg Bool.false_ne_true]
  dsimp only
  rw [if_neg hreset]
  exact ⟨rfl, canStorePlatform_makeNetInfo _⟩

variable [DecidableEq H] {hash : UniqueProperty → H}

/-! ## The kind before a step -/

theorem fitsKind_of_storable {keys : BLSKeys} {rules : NetRules} {s : CDeterministicMNState}
    (h : s.Storable keys rules) : s.FitsKind := by
  have hnetInfo := h.netInfo
  unfold FitsKind
  cases hkind : s.netInfo with
  | mn addr =>
    rw [hkind] at hnetInfo
    exact hnetInfo.1.symm
  | ext version data =>
    rw [hkind] at hnetInfo
    exact hnetInfo.1.symm

omit [DecidableEq H] in
/-- In the running list of a block. -/
theorem AllKept.fitsKind {keys : BLSKeys} {v24 : Bool} {n : Nat} {done : List CTransaction}
    (h : AllKept keys env v24 n l₀ done l) {p : Uint256} {dmn : CDeterministicMN}
    (hdmn : l.getMN p = some dmn) : dmn.pdmnState.FitsKind :=
  fitsKind_of_storable (h hdmn).storable.state

/-- In every list of a chain whose lists can be stored. -/
theorem SnapshotChain.fitsKind {keys : BLSKeys} {blocks : List (BlockContext × CBlock)}
    (h : SnapshotChain hash env blocks l) (hinj : Injective hash) (hreads : ReadsPayloads keys env)
    (hdistinct : DistinctHashes env (chainTxs blocks)) (hcontexts : ChainContexts blocks)
    {p : Uint256} {dmn : CDeterministicMN} (hdmn : l.getMN p = some dmn) :
    dmn.pdmnState.FitsKind :=
  ((h.storableList hinj hreads hdistinct hcontexts).mns true fun _ _ _ => rfl).fitsKind hdmn

/-! ## Registrar updates -/

/-- An accepted registrar update keeps the versions above `BasicBLS` and leaves network
information of the right kind exactly if a masternode that gets a new operator key is not
above `BasicBLS`, and one that keeps its key had information of the right kind. The list
before the block is `l₀`. -/
theorem registrarUpdate_iff {ptx : CProUpRegTx} {dmn : CDeterministicMN}
    (hl₀ : l₀.Indexed hash) (hinj : Injective hash) (hl : l.Indexed hash)
    (hcheck : checkSpecialTx hash env ctx l₀ tx = .ok ()) (hspecial : tx.isSpecialTxVersion = true)
    (htx : tx.nType = transactionProviderUpdateRegistrar)
    (happly : applyTx hash env ctx l tx = .ok l') (hptx : env.proUpRegTx tx = some ptx)
    (hdmn : l.getMN ptx.proTxHash = some dmn) :
    (KeepsVersions l l' ∧ ∃ b, l'.getMN ptx.proTxHash = some b ∧ b.pdmnState.FitsKind) ↔
      if sameKey dmn.pdmnState.pubKeyOperator ptx.pubKeyOperator then dmn.pdmnState.FitsKind
      else dmn.pdmnState.nVersion ≤ basicBLS := by
  cases turn_of_applyTx hl₀ hinj hcheck happly with
  | ordinary h _ => simp [hspecial] at h
  | register h _ _ _ => simp [isRegistration, hspecial, htx] at h; cases h
  | service _ h _ _ _ _ => rw [htx] at h; cases h
  | revoke _ h _ _ _ => rw [htx] at h; cases h
  | other _ _ h _ _ => exact absurd htx h
  | registrar _ _ hchecked hdmn' hupdate =>
    cases hptx.symm.trans hchecked.payload
    cases hdmn.symm.trans hdmn'
    rw [(hl.updateMN hdmn _).1] at hupdate
    have hget := getMN_updateMNState hupdate
    have hkey := hl.key hdmn
    have hself := (hget ptx.proTxHash).trans (if_pos hkey.symm)
    -- only the state of the updated masternode is another one
    have hversions : KeepsVersions l l' ↔ (basicBLS < dmn.pdmnState.nVersion →
        dmn.pdmnState.nVersion ≤ (regState ctx ptx dmn.pdmnState).nVersion) := by
      refine ⟨fun h => h _ _ _ hdmn hself, fun h p x y hx hy => ?_⟩
      rw [hget] at hy
      split_ifs at hy with hp
      · cases hy
        rw [hp, hkey, hdmn] at hx
        cases hx
        exact h
      · cases hx.symm.trans hy
        exact fun _ => le_rfl
    simp only [hversions, hself, Option.some.injEq, exists_eq_left']
    cases hsame : sameKey dmn.pdmnState.pubKeyOperator ptx.pubKeyOperator with
    | true =>
      unfold regState
      rw [hsame]
      exact and_iff_right fun _ => le_rfl
    | false =>
      -- the version of a registrar update is at most `BasicBLS`
      obtain ⟨_, hversion, _⟩ := bind_eq_ok_iff.mp hchecked.trivial
      have hbasic := (checkVersion_eq_ok hversion).2.trans (maxVersion_le_basic rfl)
      obtain ⟨hnew, hfits⟩ := @regState_of_rekey ctx _ _ hsame
      rw [hnew, and_iff_left hfits, if_neg Bool.false_ne_true]
      omega

def newKeyEnv : ProTxEnv :=
  { portsEnv with
    proUpRegTx := fun tx => (sampleEnv.proUpRegTx tx).map fun ptx =>
      { ptx with pubKeyOperator := some ⟨[4], false⟩ } }

theorem registrarUpdate_iff_newKeyEnv : ∃ l l' : CDeterministicMNList UniqueProperty,
    ChainList id newKeyEnv [(v24Context 0 9, portsBlock)] l ∧
      applyTx id newKeyEnv (v24Context 11 10) l (portsTx 3 3) = .ok l' ∧ KeepsVersions l l' := by
  obtain ⟨l, hl, hcheck, l', happly, dmn, hdmn, hbasic⟩ :
      ∃ l : CDeterministicMNList UniqueProperty,
        ChainList id newKeyEnv [(v24Context 0 9, portsBlock)] l ∧
        checkSpecialTx id newKeyEnv (v24Context 11 10) l (portsTx 3 3) = .ok () ∧
        ∃ l', applyTx id newKeyEnv (v24Context 11 10) l (portsTx 3 3) = .ok l' ∧
        ∃ dmn, l.getMN 1 = some dmn ∧
          if sameKey dmn.pdmnState.pubKeyOperator (some ⟨[4], false⟩) then
            dmn.pdmnState.FitsKind else dmn.pdmnState.nVersion ≤ basicBLS :=
    ⟨_, .rebuilt _ _ .empty ⟨by decide, rfl⟩, by decide, _, rfl, _, rfl, Nat.le_refl 2⟩
  have hindexed := (hl.sound injective_id distinctHashes_ports.tail).indexed
  have hiff := registrarUpdate_iff hindexed injective_id hindexed hcheck rfl rfl happly rfl hdmn
  exact ⟨l, l', hl, happly, (hiff.mpr hbasic).1⟩

set_option maxRecDepth 10000 in
/-- An accepted block after `V24` that lowers the version of a masternode from
`ExtAddr` to `BasicBLS`. -/
theorem registrarUpdate_lowers_version : ∃ l l' : CDeterministicMNList UniqueProperty,
    ChainList id newKeyEnv [(v24Context 11 10, extAddrBlock), (v24Context 0 9, portsBlock)] l ∧
      Accepted id newKeyEnv (v24Context 12 11) ⟨13, [portsTx 0 7, portsTx 3 3]⟩ l l' ∧
      (l.getMN 1).map (fun dmn => dmn.pdmnState.nVersion) = some extAddr ∧
      (l'.getMN 1).map (fun dmn => dmn.pdmnState.nVersion) = some basicBLS := by
  refine ⟨_, _, .rebuilt (v24Context 11 10) extAddrBlock
    (.rebuilt (v24Context 0 9) portsBlock .empty ⟨?_, rfl⟩) ⟨?_, rfl⟩, ⟨?_, rfl⟩, rfl, rfl⟩
  · decide
  · decide
  · decide

end CDeterministicMNList

end KorshCore

import KorshCore.Evo.DiffFaithful
import KorshCore.Evo.StorableSteps

/-!
# Snapshots of the lists of a chain

When does a snapshot of the list of a block give back that list? A service
update breaks it if it sets the version `ExtAddr` for a masternode with
platform ports, or a version whose scheme is not that of the operator key.
`FitsSnapshot` excludes both.
-/

namespace KorshCore

open Except Format ProTxVersion List Lossless Function

/-! ## Versions of payloads -/

section Versions

variable {env : ProTxEnv} {ctx : BlockContext}

theorem maxVersion_le (isExtAddrEligible : Bool) : maxVersion ctx isExtAddrEligible ≤ extAddr := by
  unfold maxVersion getMax
  split_ifs <;> decide

theorem maxVersion_le_basic {isExtAddrEligible : Bool}
    (h : (isExtAddrEligible && ctx.isV24Active) = false) :
    maxVersion ctx isExtAddrEligible ≤ basicBLS := by
  unfold maxVersion
  rw [h]
  cases ctx.isV19Active <;> decide

theorem checkVersion_eq_ok {isExtAddrEligible : Bool} {nVersion : Nat} {u : Unit}
    (h : checkVersion ctx isExtAddrEligible nVersion = .ok u) :
    nVersion ≠ 0 ∧ nVersion ≤ maxVersion ctx isExtAddrEligible := by
  have h := require_eq_ok_iff.mp h
  rw [Bool.and_eq_true, bne_iff_ne, decide_eq_true_iff] at h
  exact h

theorem length_le_of_payee {script : List UInt8}
    (h : isPayToPublicKeyHash script = true ∨ isPayToScriptHash script = true) :
    script.length ≤ maxSize := by
  have hmax : 25 ≤ maxSize := by decide
  rcases h with h | h
  · rw [isPayToPublicKeyHash, Bool.and_eq_true, Bool.and_eq_true, beq_iff_eq] at h
    omega
  · rw [isPayToScriptHash, Bool.and_eq_true, Bool.and_eq_true, beq_iff_eq] at h
    omega

theorem length_le_of_checkPayee {script : List UInt8} {u : Unit}
    (h : checkPayee script = .ok u) : script.length ≤ maxSize :=
  length_le_of_payee (Bool.or_eq_true_iff.mp (require_eq_ok_iff.mp h))

end Versions

namespace CDeterministicMNList

open CDeterministicMNState

variable {H : Type} [DecidableEq H] {hash : UniqueProperty → H}
  {keys : BLSKeys} {env : ProTxEnv} {ctx : BlockContext} {n : Nat}
  {l₀ l l₁ l' : CDeterministicMNList H} {done : List CTransaction}
  {tx : CTransaction} {dmn : CDeterministicMN}

/-! ## One transaction -/

omit [DecidableEq H] in
theorem Kept.skip (h : Kept keys env ctx.isV24Active n l₀ done dmn)
    (hports : ∀ ports, portsAfterTx env dmn.proTxHash ports tx = ports) :
    Kept keys env ctx.isV24Active n l₀ (done ++ [tx]) dmn where
  internalId := h.internalId
  collateral := h.collateral
  reward := h.reward
  nType := h.nType
  state := h.state
  version := h.version
  ports a ha := by
    rw [portsAfter_concat, hports]
    exact h.ports a ha

theorem AllKept.write (h : AllKept keys env ctx.isV24Active n l₀ done l)
    (hl : l.Indexed hash) {p : Uint256} {state : CDeterministicMNState}
    (hlisted : l.getMN p = some dmn)
    (hothers : ∀ q ports, q ≠ p → portsAfterTx env q ports tx = ports)
    (hstate : Kept keys env ctx.isV24Active n l₀ (done ++ [tx]) { dmn with pdmnState := state })
    (hupdate : l.updateMN hash p state = .ok l') :
    AllKept keys env ctx.isV24Active n l₀ (done ++ [tx]) l' := by
  obtain ⟨heq, _⟩ := hl.updateMN hlisted state
  rw [heq] at hupdate
  have hp := hl.key hlisted
  intro q b hb
  rw [getMN_updateMNState hupdate] at hb
  split_ifs at hb with hq
  · cases hb
    exact hstate
  · refine (h hb).skip fun ports => hothers _ ports ?_
    rw [hl.key hb, ← hp]
    exact hq

section Register

variable {ptx : CProRegTx}

omit [DecidableEq H] in
theorem kept_registeredMN (hreads : ReadsPayloads keys env) (hheight : IsHeight ctx.nHeight)
    (hcheck : ProRegChecked env ctx l₀ tx ptx) {internalId : Nat}
    (hid : internalId < 2 ^ 32) (hfresh : l₀.getMN (env.getHash tx) = none) :
    Kept keys env ctx.isV24Active n l₀ done (registeredMN env ctx internalId tx ptx) := by
  have h := hcheck.trivial
  simp only [CProRegTx.isTriviallyValid, bind_eq_ok_iff, require_eq_ok_iff, exists_const] at h
  obtain ⟨_, hversion, _, htype, _, _, _, _, _, hpayee, _, _, _, _, _, _, _, _, hreward⟩ := h
  obtain ⟨hzero, hmax⟩ := checkVersion_eq_ok hversion
  have hext := hmax.trans (maxVersion_le true)
  obtain ⟨houtpoint, ⟨_, _, hinfo⟩, ⟨_, _, hkey⟩, hp2p, hhttp, hports⟩ :=
    hreads.reg hcheck.payload hzero hext
  have hstate : { ofProRegTx ptx with
      nRegisteredHeight := ctx.nHeight }.InRange keys env.netRules n :=
    { storable :=
        { version := hext
          registered := hheight.fitsInt
          paid := fitsInt_zero
          payments := fitsInt_zero
          penalty := fitsInt_zero
          revived := fitsInt_neg_one
          ban := fitsInt_neg_one
          reason := Nat.two_pow_pos 16
          operator := valid_of_decode _ hkey
          netInfo := valid_of_decode _ hinfo
          payout := length_le_of_checkPayee hpayee
          operatorPayout := zero_le
          ports := ⟨hp2p, hhttp⟩
          noPorts := fun hext' => hports fun hboth =>
            absurd hboth.2 (not_lt.mpr hext') }
      payments := ⟨le_rfl, Int.natCast_nonneg n⟩
      penalty := le_rfl }
  refine ⟨hid, ?_, ?_, htype, ?_, ?_, ?_⟩
  · show (collateralOf env tx ptx).n < 2 ^ 32
    unfold collateralOf
    split_ifs <;> exact houtpoint
  · exact (of_decide_eq_true hreward).trans_lt (by decide)
  · unfold registeredMN
    split_ifs
    · exact hstate.banIfNotBanned hheight
    · exact hstate
  · intro hv24
    have hbasic := hmax.trans (maxVersion_le_basic (by rw [hv24]; rfl))
    unfold registeredMN
    split_ifs
    · rw [(banIfNotBanned_fixed _ _).1]
      exact hbasic
    · exact hbasic
  · intro a ha
    exact absurd (hfresh.symm.trans ha) (by simp)

end Register

/-! ### Service updates -/

variable {a : CDeterministicMN}

section Service

variable {ptx : CProUpServTx}

def servFields (ctx : BlockContext) (ptx : CProUpServTx)
    (s : CDeterministicMNState) : CDeterministicMNState :=
  { s with
    nVersion := if ctx.isV24Active then ptx.nVersion else s.nVersion
    netInfo := ptx.netInfo
    scriptOperatorPayout := ptx.scriptOperatorPayout
    platformNodeID := if ptx.nType = .evo then ptx.platformNodeID
      else s.platformNodeID
    platformP2PPort := if ptx.nType = .evo ∧ ptx.nVersion < ProTxVersion.extAddr
      then ptx.platformP2PPort else s.platformP2PPort
    platformHTTPPort := if ptx.nType = .evo ∧ ptx.nVersion < ProTxVersion.extAddr
      then ptx.platformHTTPPort else s.platformHTTPPort }

theorem servState_cases (s : CDeterministicMNState) : servState ctx ptx s = servFields ctx ptx s ∨
      servState ctx ptx s = (servFields ctx ptx s).revive ctx.nHeight := by
  have hfields : ∀ t : CDeterministicMNState, t = servFields ctx ptx s →
      servState ctx ptx s = (if t.isBanned && t.pubKeyOperator.isSome &&
        t.keyIDVoting != 0 && t.keyIDOwner != 0 then t.revive ctx.nHeight else t) := by
    rintro _ rfl
    unfold servState servFields
    by_cases hv24 : ctx.isV24Active = true <;> by_cases hevo : ptx.nType = .evo <;>
      by_cases hext : ptx.nVersion < extAddr <;>
      simp only [hv24, hevo, hext, if_true, if_false, and_self, and_true, and_false,
        Bool.false_eq_true]
  rw [hfields _ rfl]
  split_ifs
  · exact .inr rfl
  · exact .inl rfl

/-- The operator key is in the scheme of the version. -/
def FitsScheme (key : Option CBLSLazyPublicKey) (nVersion : Nat) : Prop :=
  ∀ k, key = some k → k.bufLegacyScheme = (nVersion == ProTxVersion.legacyBLS)

theorem valid_of_fitsScheme {key : Option CBLSLazyPublicKey} {legacy : Bool}
    {nVersion : Nat} (h : (keys.format legacy).Valid key) (hscheme : FitsScheme key nVersion) :
    (keys.format (nVersion == legacyBLS)).Valid key := by
  cases key with
  | none => exact keys.valid_none _
  | some k =>
    -- the key was read in its own scheme
    have hread : (keys.ofBytes legacy (keys.toBytes legacy k.obj)).map
        (fun key => (⟨key, legacy⟩ : CBLSLazyPublicKey)) = some k := h.2
    obtain ⟨key, _, hk⟩ := Option.map_eq_some_iff.mp hread
    have hlegacy : k.bufLegacyScheme = legacy := by rw [← hk]
    rw [← hscheme k rfl, hlegacy]
    exact h

omit [DecidableEq H] in
theorem kept_servState (hreads : ReadsPayloads keys env) (hheight : IsHeight ctx.nHeight)
    (hcheck : ProUpServChecked env ctx l₀ tx ptx a) (hspecial : tx.isSpecialTxVersion = true)
    (htx : tx.nType = transactionProviderUpdateService)
    (h : Kept keys env ctx.isV24Active n l₀ done dmn) (hp : dmn.proTxHash = ptx.proTxHash)
    (hscheme : ctx.isV24Active = true → FitsScheme dmn.pdmnState.pubKeyOperator ptx.nVersion)
    (hports : ctx.isV24Active = true → extAddr ≤ ptx.nVersion →
      dmn.pdmnState.platformPorts = (0, 0)) : Kept keys env ctx.isV24Active n l₀ (done ++ [tx])
      { dmn with pdmnState := servState ctx ptx dmn.pdmnState } := by
  obtain ⟨_, hversion, _⟩ := bind_eq_ok_iff.mp hcheck.trivial
  obtain ⟨hzero, hmax⟩ := checkVersion_eq_ok hversion
  have hext := hmax.trans (maxVersion_le true)
  obtain ⟨⟨_, _, hinfo⟩, hp2p, hhttp, hnone⟩ := hreads.serv hcheck.payload hzero hext
  have hinfo := valid_of_decode _ hinfo
  have hold := h.state.storable
  have hpayout : ptx.scriptOperatorPayout.length ≤ maxSize := by
    rcases hcheck.payout with hempty | hpayee
    · rw [hempty]
      exact zero_le
    · exact length_le_of_payee hpayee
  have hset : (servFields ctx ptx dmn.pdmnState).platformP2PPort < 2 ^ 16 ∧
      (servFields ctx ptx dmn.pdmnState).platformHTTPPort < 2 ^ 16 := by
    unfold servFields
    dsimp only
    split_ifs
    · exact ⟨hp2p, hhttp⟩
    · exact hold.ports
  -- without `V24` both versions are below `ExtAddr`
  have hfields : (servFields ctx ptx dmn.pdmnState).Storable keys env.netRules := by
    cases hv24 : ctx.isV24Active with
    | false =>
      have hnew := hmax.trans (maxVersion_le_basic (by rw [hv24]; rfl))
      have hbasic := h.version hv24
      have hflag : ∀ v : Nat, v ≤ basicBLS → decide (extAddr ≤ v) = false := by
        intro v hv
        exact decide_eq_false (not_le.mpr (hv.trans_lt (by decide)))
      have hsame : (servFields ctx ptx dmn.pdmnState).nVersion = dmn.pdmnState.nVersion := by
        unfold servFields
        rw [hv24]
        rfl
      refine { hold with
        version := ?_, operator := ?_, netInfo := ?_, operatorPayout := hpayout
        ports := hset, noPorts := ?_ }
      · rw [hsame]
        exact hold.version
      · rw [hsame]
        exact hold.operator
      · rw [hsame, hflag _ hbasic]
        rw [hflag _ hnew] at hinfo
        exact hinfo
      · rw [hsame]
        intro hle
        exact absurd hle (not_le.mpr (hbasic.trans_lt (by decide)))
    | true =>
      have hset' : (servFields ctx ptx dmn.pdmnState).nVersion = ptx.nVersion := by
        unfold servFields
        rw [hv24]
        rfl
      refine { hold with
        version := ?_, operator := ?_, netInfo := ?_, operatorPayout := hpayout
        ports := hset, noPorts := ?_ }
      · rw [hset']
        exact hext
      · rw [hset']
        exact valid_of_fitsScheme hold.operator (hscheme hv24)
      · rw [hset']
        exact hinfo
      · rw [hset']
        intro hle
        have hzero := hports hv24 hle
        unfold servFields
        dsimp only
        rw [if_neg (fun hboth => absurd hboth.2 (not_lt.mpr hle)),
          if_neg (fun hboth => absurd hboth.2 (not_lt.mpr hle))]
        exact ⟨congrArg Prod.fst hzero, congrArg Prod.snd hzero⟩
  have hrange : (servFields ctx ptx dmn.pdmnState).InRange keys env.netRules n :=
    ⟨hfields, h.state.payments, h.state.penalty⟩
  have hafter : (servFields ctx ptx dmn.pdmnState).platformPorts
      = portsAfterTx env dmn.proTxHash dmn.pdmnState.platformPorts tx := by
    unfold portsAfterTx
    rw [hspecial, htx, hcheck.payload, hp]
    unfold servFields CDeterministicMNState.platformPorts
    by_cases hboth : ptx.nType = .evo ∧ ptx.nVersion < extAddr
    · simp [hboth]
    · simp [hboth]
  have hkeep : (servState ctx ptx dmn.pdmnState).InRange keys env.netRules n ∧
      (servState ctx ptx dmn.pdmnState).nVersion = (servFields ctx ptx dmn.pdmnState).nVersion ∧
      (servState ctx ptx dmn.pdmnState).platformPorts
        = (servFields ctx ptx dmn.pdmnState).platformPorts := by
    rcases @servState_cases ctx ptx dmn.pdmnState with heq | heq
    · rw [heq]
      exact ⟨hrange, rfl, rfl⟩
    · rw [heq]
      exact ⟨hrange.revive hheight, rfl, rfl⟩
  refine ⟨h.internalId, h.collateral, h.reward, h.nType, hkeep.1, ?_, ?_⟩
  · intro hv24
    show (servState ctx ptx dmn.pdmnState).nVersion ≤ _
    rw [hkeep.2.1]
    unfold servFields
    rw [hv24]
    exact h.version hv24
  · intro a' ha'
    show (servState ctx ptx dmn.pdmnState).platformPorts = _
    rw [hkeep.2.2, hafter, portsAfter_concat]
    exact congrArg (fun ports => portsAfterTx env dmn.proTxHash ports tx) (h.ports a' ha')

end Service

/-! ### Registrar updates and revocations -/

section Registrar

variable {ptx : CProUpRegTx}

theorem setOperator_inRange {rules : NetRules} {s : CDeterministicMNState}
    (h : s.InRange keys rules n) {nVersion : Nat} (hversion : nVersion ≤ basicBLS)
    {key : Option CBLSLazyPublicKey} (hkey : (keys.format (nVersion == legacyBLS)).Valid key) :
    { s with
      nVersion := nVersion
      netInfo := NetInfo.makeNetInfo nVersion
      pubKeyOperator := key }.InRange keys rules n := by
  have hlt : ¬ extAddr ≤ nVersion := not_le.mpr (hversion.trans_lt (by decide))
  refine ⟨{ h.storable with
    version := hversion.trans (by decide)
    operator := hkey
    netInfo := ?_
    noPorts := fun hle => absurd hle hlt }, h.payments, h.penalty⟩
  show (NetInfo.format rules (decide (extAddr ≤ nVersion))).Valid (NetInfo.makeNetInfo nVersion)
  have hnone : NetInfo.makeNetInfo nVersion = .mn .invalid := if_neg hlt
  rw [decide_eq_false hlt, hnone]
  exact valid_noNetInfo rules

omit [DecidableEq H] in
theorem kept_regState (hreads : ReadsPayloads keys env) (hheight : IsHeight ctx.nHeight)
    (hcheck : ProUpRegChecked env ctx l₀ tx ptx a)
    (h : Kept keys env ctx.isV24Active n l₀ done dmn) : Kept keys env ctx.isV24Active n l₀ done
      { dmn with pdmnState := regState ctx ptx dmn.pdmnState } := by
  have htrivial := hcheck.trivial
  simp only [CProUpRegTx.isTriviallyValid, bind_eq_ok_iff] at htrivial
  obtain ⟨_, hversion, _, _, _, _, _, _, hpayee⟩ := htrivial
  have hpayout := length_le_of_checkPayee hpayee
  obtain ⟨hzero, hmax⟩ := checkVersion_eq_ok hversion
  have hbasic := hmax.trans (maxVersion_le_basic rfl)
  obtain ⟨_, _, hkey⟩ := hreads.upReg hcheck.payload hzero (hmax.trans (maxVersion_le false))
  have hset : ∀ {s : CDeterministicMNState}, s.InRange keys env.netRules n → { s with
        keyIDVoting := ptx.keyIDVoting
        scriptPayout := ptx.scriptPayout }.InRange keys env.netRules n :=
    fun h => ⟨{ h.storable with payout := hpayout }, h.payments, h.penalty⟩
  by_cases hsame : sameKey dmn.pdmnState.pubKeyOperator ptx.pubKeyOperator
  · have heq : regState ctx ptx dmn.pdmnState = { dmn.pdmnState with
        keyIDVoting := ptx.keyIDVoting
        scriptPayout := ptx.scriptPayout } := by
      unfold regState
      rw [if_pos hsame]
    rw [heq]
    exact h.tick (hset h.state) rfl rfl
  · have hreset := (h.state.resetOperatorFields).banIfNotBanned hheight
    obtain ⟨hlegacy, hports⟩ := dmn.pdmnState.resetOperatorFields.banIfNotBanned_fixed ctx.nHeight
    have hsmall : ¬ basicBLS <
        (dmn.pdmnState.resetOperatorFields.banIfNotBanned ctx.nHeight).nVersion := by
      rw [hlegacy]
      show ¬ basicBLS < legacyBLS
      decide
    have hrange := hset (setOperator_inRange hreset hbasic (valid_of_decode _ hkey))
    unfold regState
    dsimp only
    rw [if_neg hsame, if_neg hsmall]
    exact ⟨h.internalId, h.collateral, h.reward, h.nType, hrange, fun _ => hbasic,
      fun a' ha' => hports.trans (h.ports a' ha')⟩

end Registrar

omit [DecidableEq H] in
theorem kept_revState {ptx : CProUpRevTx} (hheight : IsHeight ctx.nHeight)
    (hcheck : ProUpRevChecked env ctx l₀ tx ptx a)
    (h : Kept keys env ctx.isV24Active n l₀ done dmn) : Kept keys env ctx.isV24Active n l₀ done
      { dmn with pdmnState := revState ctx ptx dmn.pdmnState } := by
  obtain ⟨_, _, hreason⟩ := bind_eq_ok_iff.mp hcheck.trivial
  have hreason := of_decide_eq_true (require_eq_ok_iff.mp hreason)
  have hreset := (h.state.resetOperatorFields).banIfNotBanned hheight
  have hrange : (revState ctx ptx dmn.pdmnState).InRange keys env.netRules n :=
    ⟨{ hreset.storable with reason := hreason.trans_lt (by decide) },
      hreset.payments, hreset.penalty⟩
  have hfixed : (revState ctx ptx dmn.pdmnState).nVersion = legacyBLS ∧
      (revState ctx ptx dmn.pdmnState).platformPorts = dmn.pdmnState.platformPorts :=
    dmn.pdmnState.resetOperatorFields.banIfNotBanned_fixed ctx.nHeight
  refine ⟨h.internalId, h.collateral, h.reward, h.nType, hrange, ?_, ?_⟩
  · intro _
    exact hfixed.1.trans_le (by decide)
  · intro a' ha'
    exact hfixed.2.trans (h.ports a' ha')

/-! ## The loop over the transactions -/

/-- A service update that a snapshot can follow: since `V24` its version has
the scheme of the operator key, and `ExtAddr` finds no platform ports. The
key and the ports are those of the list before the block, as the earlier
transactions `done` left them. -/
def FitsSnapshot (env : ProTxEnv) (ctx : BlockContext)
    (l₀ : CDeterministicMNList H) (done : List CTransaction) (tx : CTransaction) : Prop :=
  ctx.isV24Active = true → tx.isSpecialTxVersion = true →
  tx.nType = transactionProviderUpdateService →
  ∀ ptx a, env.proUpServTx tx = some ptx → l₀.getMN ptx.proTxHash = some a →
    FitsScheme (keyAfter env ptx.proTxHash a.pdmnState.pubKeyOperator done) ptx.nVersion ∧
    (ProTxVersion.extAddr ≤ ptx.nVersion →
      portsAfter env ptx.proTxHash a.pdmnState.platformPorts done = (0, 0))

theorem AllKept.service (hkept : AllKept keys env ctx.isV24Active n l₀ done l)
    (h : Rebuilding hash env ctx l₀ done [] l)
    (hreads : ReadsPayloads keys env) (hheight : IsHeight ctx.nHeight)
    (hfits : FitsSnapshot env ctx l₀ done tx) (hspecial : tx.isSpecialTxVersion = true)
    (htx : tx.nType = transactionProviderUpdateService) {ptx : CProUpServTx}
    (hcheck : ProUpServChecked env ctx l₀ tx ptx a)
    (hdmn : l.getMN ptx.proTxHash = some dmn)
    (hupdate : l.updateMN hash ptx.proTxHash (servState ctx ptx dmn.pdmnState)
      = .ok l') : AllKept keys env ctx.isV24Active n l₀ (done ++ [tx]) l' := by
  have hp := h.indexed.key hdmn
  have hcurrent := hkept hdmn
  refine hkept.write h.indexed hdmn ?_ (kept_servState hreads hheight hcheck
    hspecial htx hcurrent hp ?_ ?_) hupdate
  · intro q ports hq
    unfold portsAfterTx
    rw [hspecial, htx, hcheck.payload]
    show (if ptx.proTxHash = q ∧ _ then _ else ports) = ports
    rw [if_neg fun hboth => hq hboth.1.symm]
  · intro hv24
    rw [(h.old hcheck.listed hdmn).operator]
    exact (hfits hv24 hspecial htx _ _ hcheck.payload hcheck.listed).1
  · intro hv24 hext
    rw [hcurrent.ports a (hp.symm ▸ hcheck.listed), hp]
    exact (hfits hv24 hspecial htx _ _ hcheck.payload hcheck.listed).2 hext

theorem AllKept.applyTx (hkept : AllKept keys env ctx.isV24Active n l₀ done l)
    (h : Rebuilding hash env ctx l₀ done [] l) (hinj : Injective hash)
    (hreads : ReadsPayloads keys env) (hheight : IsHeight ctx.nHeight)
    (hroom : l₀.getAllMNsCount + (registrations done).length ≤ maxSize)
    (hfresh : isRegistration tx = true → l₀.getMN (env.getHash tx) = none)
    (hfits : FitsSnapshot env ctx l₀ done tx) (hturn : TxTurn hash env ctx l₀ tx l l') :
    AllKept keys env ctx.isV24Active n l₀ (done ++ [tx]) l' := by
  have hskip : tx.nType ≠ transactionProviderUpdateService →
      AllKept keys env ctx.isV24Active n l₀ (done ++ [tx]) l := fun hne _ _ hb =>
    (hkept hb).skip (portsAfterTx_of_nType hne _)
  have hothers : tx.nType ≠ transactionProviderUpdateService →
      ∀ p q ports, q ≠ p → portsAfterTx env q ports tx = ports :=
    fun hne _ q ports _ => portsAfterTx_of_nType hne q ports
  cases hturn with
  | ordinary hspecial heq =>
    subst heq
    intro _ _ hb
    refine (hkept hb).skip fun ports => ?_
    rw [portsAfterTx, hspecial]
    rfl
  | register hreg hcheck hremove hadd =>
    have htype := beq_iff_eq.mp (Bool.and_eq_true_iff.mp hreg).2
    have hkept₁ := (hskip (by rw [htype]; decide)).of_filter
      (removeReplaced_effect h.indexed hinj h.listable hremove).2.2.2
    have hcount : l.nTotalRegisteredCount < 2 ^ 32 := by
      rw [h.count]
      exact Nat.mod_lt _ (Nat.two_pow_pos 32)
    intro q b hb
    rw [getMN_addMN hadd] at hb
    split_ifs at hb
    · cases hb
      exact kept_registeredMN hreads hheight hcheck hcount (hfresh hreg)
    · exact hkept₁ hb
  | service hspecial htx hcheck hdmn _ hupdate =>
    exact hkept.service h hreads hheight hfits hspecial htx hcheck hdmn hupdate
  | registrar _ htx hcheck hdmn hupdate =>
    have hne : tx.nType ≠ transactionProviderUpdateService := by rw [htx]; decide
    exact hkept.write h.indexed hdmn (hothers hne _)
      (kept_regState hreads hheight hcheck (hskip hne hdmn)) hupdate
  | revoke _ htx hcheck hdmn hupdate =>
    have hne : tx.nType ≠ transactionProviderUpdateService := by rw [htx]; decide
    exact hkept.write h.indexed hdmn (hothers hne _)
      (kept_revState hheight hcheck (hskip hne hdmn)) hupdate
  | other _ hserv _ _ hrest =>
    rcases hrest with hcommitment | rfl
    · exact kept_applyCommitment (hskip hserv) h.indexed (h.header.2 ▸ hheight)
        (h.getAllMNsCount_le.trans hroom) hcommitment
    · exact hskip hserv

/-- A block after which the list can be stored: there is room for its
registrations, and its service updates fit. -/
structure StorableBlock (env : ProTxEnv) (ctx : BlockContext) (block : CBlock)
    (l : CDeterministicMNList H) : Prop where
  room : l.getAllMNsCount + (registrations block.withoutCoinbase).length ≤ maxSize
  fits : ∀ done tx rest, block.withoutCoinbase = done ++ tx :: rest → FitsSnapshot env ctx l done tx

theorem Rebuildable.allKept {block : CBlock} (h : Rebuildable hash env ctx block l₀)
    (hkept : AllKept keys env ctx.isV24Active n l₀ [] l₀)
    (hreads : ReadsPayloads keys env) (hheight : IsHeight ctx.nHeight)
    (hn : n + 1 < 2 ^ 31) (hblock : StorableBlock env ctx block l₀)
    (hrebuild : rebuildListFromBlock hash env ctx block l₀ = .ok l') :
    AllKept keys env ctx.isV24Active (n + 1) l₀ block.withoutCoinbase l' := by
  have hkept₀ : AllKept keys env ctx.isV24Active n l₀ [] (atBlock ctx l₀) :=
    fun _ _ hb => hkept hb
  obtain ⟨l₄, l₅, hstage₄, hkept₄, h₅, h₆⟩ := h.stages
    (Q := fun done _ => AllKept keys env ctx.isV24Active n l₀ done)
    (fun _ _ hindexed hl₁ h₁ h₂ _ => kept_decreaseScores
      (kept_confirmMN hkept₀ h.indexed hindexed rfl h₁) hl₁ h₂)
    (fun done tx rest x x' htxs hx hkept hturn => by
      have hroom : (registrations done).length ≤ (registrations block.withoutCoinbase).length := by
        unfold registrations
        rw [htxs, filter_append, length_append]
        exact Nat.le_add_right _ _
      exact hkept.applyTx hx h.injective hreads hheight
        ((Nat.add_le_add_left hroom _).trans hblock.room)
        (h.fresh tx (by simp [htxs])) (hblock.fits done tx rest htxs) hturn)
    (fun _ _ _ _ hx hkept hone => by
      rw [spendCollateral_eq hx.indexed h.injective] at hone
      exact hkept.of_filter
        (removeReplaced_effect hx.indexed h.injective hx.listable hone).2.2.2) hrebuild
  have hkept₅ := kept_recordPayee hkept₄ hstage₄.indexed hheight hn h₅
  obtain ⟨hl₅, _⟩ := quiet_recordPayee hstage₄.indexed h₅
  exact kept_resetPayments hkept₅ hl₅ h₆

/-! ## Chains -/

/-- The lists of a chain of accepted blocks, all of which are storable. The
last block comes first. -/
inductive SnapshotChain (hash : UniqueProperty → H) (env : ProTxEnv) :
    List (BlockContext × CBlock) → CDeterministicMNList H → Prop where
  | empty : SnapshotChain hash env [] .empty
  | initial (blockHash : Uint256) (nHeight : Int) : IsHeight nHeight →
      SnapshotChain hash env [] (make blockHash nHeight 0)
  | rebuilt {blocks l l'} (ctx : BlockContext) (block : CBlock) :
      SnapshotChain hash env blocks l → Accepted hash env ctx block l l' →
      StorableBlock env ctx block l →
      SnapshotChain hash env ((ctx, block) :: blocks) (l'.setBlockHash block.hash)
  | reordered {blocks l l₂} : SnapshotChain hash env blocks l → SameList l l₂ →
      SnapshotChain hash env blocks l₂

/-- What holds for the blocks of every chain: their heights and their number
fit in an `int`, and a deployment stays active. -/
structure ChainContexts (blocks : List (BlockContext × CBlock)) : Prop where
  heights : ∀ b ∈ blocks, IsHeight b.1.nHeight
  length : blocks.length < 2 ^ 31
  deployment : blocks.Pairwise fun later earlier =>
    earlier.1.isV24Active = true → later.1.isV24Active = true

theorem ChainContexts.tail {block : BlockContext × CBlock}
    {blocks : List (BlockContext × CBlock)} (h : ChainContexts (block :: blocks)) :
    ChainContexts blocks where
  heights b hb := h.heights b (mem_cons_of_mem _ hb)
  length := (Nat.lt_succ_self _).trans h.length
  deployment := (pairwise_cons.mp h.deployment).2

variable {blocks : List (BlockContext × CBlock)}

theorem SnapshotChain.chainList (h : SnapshotChain hash env blocks l) :
    ChainList hash env blocks l := by
  induction h with
  | empty => exact .empty
  | initial blockHash nHeight _ => exact .initial blockHash nHeight
  | rebuilt ctx block _ haccepted _ ih => exact .rebuilt ctx block ih haccepted
  | reordered _ hsame ih => exact .reordered ih hsame

/-- A list that can be stored, after `blocks`. -/
structure StorableList (keys : BLSKeys) (env : ProTxEnv)
    (blocks : List (BlockContext × CBlock)) (l : CDeterministicMNList H) : Prop where
  height : FitsInt l.nHeight
  size : l.getAllMNsCount ≤ maxSize
  mns : ∀ v24 : Bool, (∀ b ∈ blocks, b.1.isV24Active = true → v24 = true) →
    AllKept keys env v24 blocks.length l [] l

theorem SnapshotChain.storableList (h : SnapshotChain hash env blocks l)
    (hinj : Injective hash) (hreads : ReadsPayloads keys env)
    (hdistinct : DistinctHashes env (chainTxs blocks))
    (hcontexts : ChainContexts blocks) : StorableList keys env blocks l := by
  induction h with
  | empty => exact ⟨fitsInt_neg_one, zero_le, fun _ _ _ _ h => by cases h⟩
  | initial blockHash nHeight hheight =>
    exact ⟨hheight.fitsInt, zero_le, fun _ _ _ _ h => by cases h⟩
  | rebuilt ctx block hchain haccepted hblock ih =>
    rename_i blocks l l'
    have ih := ih hdistinct.tail hcontexts.tail
    have hsound := hchain.chainList.sound hinj hdistinct.tail
    have hrebuilding := hsound.rebuilding hinj hdistinct haccepted
    have hheight : IsHeight ctx.nHeight := hcontexts.heights (ctx, block) List.mem_cons_self
    have hkept := (hsound.rebuildable hinj hdistinct haccepted).allKept
      (ih.mns _ (List.pairwise_cons.mp hcontexts.deployment).1) hreads hheight
      hcontexts.length hblock haccepted.rebuilt
    refine ⟨?_, hrebuilding.getAllMNsCount_le.trans hblock.room, ?_⟩
    · show FitsInt l'.nHeight
      rw [hrebuilding.header.2]
      exact hheight.fitsInt
    · intro v24 hactive p b hb
      have hb' := hkept hb
      refine ⟨hb'.internalId, hb'.collateral, hb'.reward, hb'.nType, hb'.state, ?_, ?_⟩
      · intro hv24
        refine hb'.version (Bool.eq_false_iff.mpr fun htrue => ?_)
        exact Bool.false_ne_true (hv24.symm.trans (hactive (ctx, block) List.mem_cons_self htrue))
      · intro a ha
        have hkey : b.proTxHash = p := hrebuilding.indexed.key hb
        rw [hkey] at ha
        cases ha.symm.trans hb
        rfl
  | reordered _ hsame ih =>
    have ih := ih hdistinct hcontexts
    refine ⟨hsame.nHeight ▸ ih.height, ?_, ?_⟩
    · refine le_trans ?_ ih.size
      rename_i x x₂ _ _
      have hmem : ∀ q, (x₂.getMN q).isSome = true → q ∈ x.mnMap.entries.keys := by
        intro q hq
        rw [hsame.mns] at hq
        exact List.dlookup_isSome.mp hq
      have hle := getAllMNsCount_le hmem
      rwa [List.keys, List.length_map] at hle
    · intro v24 hactive p b hb
      rw [hsame.mns] at hb
      have hb' := ih.mns v24 hactive hb
      exact ⟨hb'.internalId, hb'.collateral, hb'.reward, hb'.nType, hb'.state,
        hb'.version, fun a ha => hb'.ports a (hsame.mns _ ▸ ha)⟩

def sampleNetInfo : NetInfo :=
  .ext 1 [(0, [.service ⟨.ipv4, [1, 1, 1, 1], 9⟩]), (1, [.service ⟨.ipv4, [1, 1, 1, 1], 10⟩]),
    (2, [.service ⟨.ipv4, [1, 1, 1, 1], 11⟩])]

def portsEnv : ProTxEnv :=
  { sampleEnv with
    proRegTx := fun _ => some
      { nVersion := ProTxVersion.basicBLS
        nType := .evo
        nMode := 0
        collateralOutpoint := ⟨0, 0⟩
        netInfo := .mn .invalid
        platformNodeID := 4
        platformP2PPort := 21
        platformHTTPPort := 22
        keyIDOwner := 2
        pubKeyOperator := some ⟨[3], false⟩
        keyIDVoting := 2
        nOperatorReward := 0
        scriptPayout := sampleScript
        inputsHash := 0
        vchSig := [] }
    proUpServTx := fun _ => some
      { nVersion := ProTxVersion.extAddr
        nType := .evo
        proTxHash := 1
        netInfo := sampleNetInfo
        platformNodeID := 4
        platformP2PPort := 0
        platformHTTPPort := 0
        scriptOperatorPayout := []
        inputsHash := 0
        sig := [] }
    proUpRegTx := fun _ => none
    netRules := { sampleEnv.netRules with isNodeOnMainnet := false } }

def portsTx (nType : Nat) (id : UInt8) : CTransaction :=
  { sampleTx nType id with vout := [⟨7500 * coin, []⟩] }

def portsBlock : CBlock := ⟨11, [portsTx 0 5, portsTx 1 1]⟩

def extAddrBlock : CBlock := ⟨12, [portsTx 0 6, portsTx 2 2]⟩

def v24Context (prevHash : Uint256) (prevHeight : Int) : BlockContext :=
  { sampleContext prevHash prevHeight with isV24Active := true }

theorem distinctHashes_ports : DistinctHashes portsEnv (extAddrBlock.vtx ++ portsBlock.vtx) := by
  have hnodup : ((extAddrBlock.vtx ++ portsBlock.vtx).map portsEnv.getHash).Nodup := by decide
  intro a ha b hb heq
  exact inj_on_of_nodup_map hnodup ha hb heq

end CDeterministicMNList

end KorshCore

import KorshCore.Evo.RebuildInvariant

/-!
# The rebuild of a list over a whole block

Each provider transaction that passes its check against the list `l₀` of the
previous block keeps the relation `Rebuilding`, and so does the whole of
`RebuildListFromBlock` (`Rebuildable.rebuilding`).
-/

namespace KorshCore

open Holdings Except CDeterministicMNState CDeterministicMN List Option Function

namespace CDeterministicMNList

variable {H : Type} [DecidableEq H] {hash : UniqueProperty → H} {env : ProTxEnv}
  {ctx : BlockContext} {l₀ l l₁ l' : CDeterministicMNList H}
  {done : List CTransaction} {spent : List COutPoint} {tx : CTransaction}

/-! ## Registrations -/

section Register

variable {ptx : CProRegTx} {o : COutPoint} {dmn : CDeterministicMN}

/-- The properties of a registration belong to nobody in `l₀` who is still
listed, because the only one who may have them is replaced. -/
theorem notMem_of_checked (hcheck : ProRegChecked env ctx l₀ tx ptx)
    (hl₀ : l₀.Indexed hash) {internalId : Nat} {q : Uint256}
    {a : CDeterministicMN} (ha : l₀.getMN q = some a)
    (hne : a.collateralOutpoint ≠ collateralOf env tx ptx) :
    ∀ v ∈ (registeredMN env ctx internalId tx ptx).properties, v ∉ a.properties := by
  intro v hv hv'
  have howns : l₀.Owns a v := ⟨(hl₀.key ha).symm ▸ ha, hv'⟩
  have hstate : SameProperties (ofProRegTx ptx)
      (registeredMN env ctx internalId tx ptx).pdmnState := by
    unfold registeredMN banIfNotBanned
    split_ifs <;> exact ⟨rfl, rfl, rfl, rfl⟩
  obtain ⟨_, hcase⟩ := mem_properties.mp hv
  rw [hstate.netInfo, hstate.owner, hstate.operator, hstate.platform] at hcase
  rcases hcase with rfl | ⟨entry, hentry, hproperty⟩ | rfl | rfl | ⟨hevo, rfl⟩
  · exact hne (outpoint_mem_properties.mp hv').2
  · exact hne (hcheck.entries entry hentry v hproperty a howns)
  · exact hcheck.owner a howns
  · exact hcheck.operator a howns
  · exact hcheck.platform hevo a howns

theorem keyAfterTx_of_isRegistration (hreg : isRegistration tx = true)
    (p : Uint256) (key : Option CBLSLazyPublicKey) : keyAfterTx env p key tx = key := by
  unfold isRegistration at hreg
  rw [Bool.and_eq_true, beq_iff_eq] at hreg
  unfold keyAfterTx
  rw [hreg.1, hreg.2]
  rfl

theorem Rebuilding.register (h : Rebuilding hash env ctx l₀ done [] l)
    (hl₀ : l₀.Indexed hash) (hinj : Injective hash) (hreg : isRegistration tx = true)
    (hcheck : ProRegChecked env ctx l₀ tx ptx) (hfresh : l₀.getMN (env.getHash tx) = none)
    (hremove : removeReplaced hash l (collateralOf env tx ptx) = .ok l₁)
    (hadd : l₁.addMN hash (registeredMN env ctx l.nTotalRegisteredCount tx ptx) true = .ok l') :
    Rebuilding hash env ctx l₀ (done ++ [tx]) [] l' := by
  obtain ⟨hl₁, hheader₁, hcount₁, hget₁⟩ := removeReplaced_effect h.indexed hinj h.listable hremove
  have hget := getMN_addMN hadd
  obtain ⟨_, _, hproperties, _, _, hcount, hblock, hheight⟩ := addMN_eq_ok hadd
  have hheader := hheader₁.trans ⟨hblock, hheight⟩
  have hpledge : pledge env tx = some (collateralOf env tx ptx) := by
    rw [pledge, if_pos hreg, hcheck.payload]
    rfl
  have hback₁ : ∀ {q b}, l₁.getMN q = some b →
      l.getMN q = some b ∧ b.collateralOutpoint ≠ collateralOf env tx ptx := by
    intro q b hb
    rw [hget₁, filter_eq_some_iff] at hb
    exact ⟨hb.1, of_decide_eq_true hb.2⟩
  -- a masternode of the old list is not the new one
  have hold : ∀ {q a}, l₀.getMN q = some a → l'.getMN q = l₁.getMN q := by
    intro q a ha
    rw [hget, if_neg]
    rintro rfl
    rw [show l₀.getMN (env.getHash tx) = some a from ha] at hfresh
    cases hfresh
  refine ⟨⟨hheader.blockHash.trans h.header.1,
    hheader.nHeight.trans h.header.2⟩, hl₁.addMN hadd, ?_, ?_, ?_, ?_, ?_, ?_, ?_⟩
  · intro p b hb
    rw [hget] at hb
    split_ifs at hb
    · cases hb
      exact listable_of_addProperties hproperties
    · exact h.listable (hback₁ hb).1
  · intro p a b ha hb
    rw [hold ha] at hb
    have hkept := h.old ha (hback₁ hb).1
    refine ⟨hkept.same, hkept.owner, ?_⟩
    rw [keyAfter_concat, keyAfterTx_of_isRegistration hreg]
    exact hkept.operator
  · intro p b hnone hb
    rw [registrations_concat hreg]
    rw [hget] at hb
    split_ifs at hb with hp
    · cases hb
      refine ⟨(registrations done).length, ⟨tx, ptx, ?_, hcheck.payload, hp, rfl, ?_⟩, h.count⟩
      · rw [getElem?_append_right le_rfl, Nat.sub_self]
        rfl
      · unfold registeredMN banIfNotBanned
        split_ifs <;> rfl
    · obtain ⟨i, ⟨tx', ptx', htx', hrest⟩, hid⟩ := h.new hnone (hback₁ hb).1
      obtain ⟨hi, _⟩ := List.getElem?_eq_some_iff.mp htx'
      exact ⟨i, ⟨tx', ptx', by rw [getElem?_append_left hi, htx'], hrest⟩, hid⟩
  · intro p q a b hb ha hq hne
    rw [hold ha] at hq
    obtain ⟨c, hc⟩ := isSome_iff_exists.mp hq
    obtain ⟨hc, hcoll⟩ := hback₁ hc
    rw [(h.old ha hc).same.collateralOutpoint] at hcoll
    rw [hget] at hb
    split_ifs at hb
    · cases hb
      exact notMem_of_checked hcheck hl₀ ha hcoll
    · exact h.apart (hback₁ hb).1 ha (by rw [hc]; rfl) hne
  · intro p a ha
    rw [hold ha, forall_mem_append, forall_mem_singleton, hpledge]
    have hstays := h.stays ha
    simp only [not_mem_nil, not_false_eq_true, and_true] at hstays ⊢
    rw [← hstays, hget₁]
    cases hb : l.getMN p with
    | none => simp
    | some b =>
      rw [filter_some, (h.old ha hb).same.collateralOutpoint]
      by_cases heq : a.collateralOutpoint = collateralOf env tx ptx
      · simp [heq]
      · simp [heq, Ne.symm heq]
  · intro tx' o htx ho
    rw [registrations_concat hreg, getLast?_concat] at htx
    cases htx
    rw [hpledge] at ho
    cases ho
    refine .inr ⟨not_mem_nil, registeredMN env ctx l.nTotalRegisteredCount tx ptx, ?_, rfl, ?_⟩
    · exact (hget _).trans (if_pos rfl)
    · rw [registrations_concat hreg, length_append]
      exact h.count
  · rw [hcount, hcount₁, registrations_concat hreg, length_append, length_singleton]
    show max (l.nTotalRegisteredCount + 1) l.nTotalRegisteredCount % 2 ^ 32 = _
    rw [Nat.max_eq_left (Nat.le_add_right _ 1), h.count, Nat.mod_add_mod, add_assoc]

end Register

/-! ## Updates -/

theorem isRegistration_of_nType (h : tx.nType ≠ transactionProviderRegister) :
    isRegistration tx = false := by
  rw [isRegistration, beq_eq_false_iff_ne.mpr h, Bool.and_false]

section Service

variable {ptx : CProUpServTx} {a dmn : CDeterministicMN} (state : CDeterministicMNState)

theorem servState_owner : (servState ctx ptx state).keyIDOwner = state.keyIDOwner := by
  unfold servState revive
  dsimp only
  split_ifs <;> rfl

theorem servState_operator : (servState ctx ptx state).pubKeyOperator = state.pubKeyOperator := by
  unfold servState revive
  dsimp only
  split_ifs <;> rfl

theorem servState_netInfo : (servState ctx ptx state).netInfo = ptx.netInfo := by
  unfold servState revive
  dsimp only
  split_ifs <;> rfl

theorem servState_platform (hevo : ptx.nType = .evo) (state : CDeterministicMNState) :
    (servState ctx ptx state).platformNodeID = ptx.platformNodeID := by
  unfold servState revive
  simp only [hevo, if_true]
  split_ifs <;> rfl

omit [DecidableEq H] in
theorem ownProperties_servState (hcheck : ProUpServChecked env ctx l₀ tx ptx a)
    (hp : dmn.proTxHash = ptx.proTxHash) (htype : ptx.nType = dmn.nType) :
    OwnProperties l₀ dmn { dmn with pdmnState := servState ctx ptx dmn.pdmnState } := by
  intro v hv
  obtain ⟨hnull, hcase⟩ := mem_properties.mp hv
  simp only [servState_owner, servState_operator, servState_netInfo] at hcase
  rw [mem_properties, hp]
  rcases hcase with rfl | ⟨entry, hentry, hproperty⟩ | rfl | rfl | ⟨hevo, rfl⟩
  · exact .inl ⟨hnull, .inl rfl⟩
  · exact .inr (hcheck.entries entry hentry v hproperty)
  · exact .inl ⟨hnull, .inr (.inr (.inl rfl))⟩
  · exact .inl ⟨hnull, .inr (.inr (.inr (.inl rfl)))⟩
  · have hevo' := htype.trans hevo
    rw [servState_platform hevo']
    exact .inr (hcheck.platform hevo')

theorem Rebuilding.service (h : Rebuilding hash env ctx l₀ done spent l)
    (hl₀ : l₀.Indexed hash) (htx : tx.nType = transactionProviderUpdateService)
    (hcheck : ProUpServChecked env ctx l₀ tx ptx a)
    (hdmn : l.getMN ptx.proTxHash = some dmn) (htype : ptx.nType = dmn.nType)
    (hupdate : l.updateMN hash ptx.proTxHash (servState ctx ptx dmn.pdmnState)
      = .ok l') : Rebuilding hash env ctx l₀ (done ++ [tx]) spent l' := by
  have hkey : ∀ p key, keyAfterTx env p key tx = key := by
    intro p key
    unfold keyAfterTx
    rw [htx]
    cases tx.isSpecialTxVersion <;> rfl
  exact h.update hl₀ hcheck.listed hdmn
    (isRegistration_of_nType (by rw [htx]; decide)) (servState_owner _)
    (fun _ => (servState_operator _).symm)
    ((servState_operator _).trans (hkey _ _).symm) (fun q key _ => hkey q key)
    (ownProperties_servState hcheck (h.indexed.key hdmn) htype) hupdate

end Service

section Registrar

variable {ptx : CProUpRegTx} {a dmn : CDeterministicMN} (state : CDeterministicMNState)

theorem regState_owner : (regState ctx ptx state).keyIDOwner = state.keyIDOwner := by
  unfold regState banIfNotBanned resetOperatorFields
  split_ifs <;> rfl

theorem regState_operator : (regState ctx ptx state).pubKeyOperator
      = if sameKey state.pubKeyOperator ptx.pubKeyOperator then state.pubKeyOperator
        else ptx.pubKeyOperator := by
  unfold regState
  split_ifs <;> rfl

theorem regState_properties : (sameKey state.pubKeyOperator ptx.pubKeyOperator = true ∧
      SameProperties state (regState ctx ptx state)) ∨
    ((regState ctx ptx state).netInfo.getEntries = [] ∧
      (regState ctx ptx state).platformNodeID = 0 ∧
      (regState ctx ptx state).pubKeyOperator = ptx.pubKeyOperator) := by
  have hempty : ∀ nVersion, (NetInfo.makeNetInfo nVersion).getEntries = [] := by
    intro nVersion
    unfold NetInfo.makeNetInfo
    split_ifs <;> rfl
  by_cases hsame : sameKey state.pubKeyOperator ptx.pubKeyOperator = true
  · refine .inl ⟨hsame, ?_⟩
    unfold regState
    rw [if_pos hsame]
    exact ⟨rfl, rfl, rfl, rfl⟩
  · unfold regState
    rw [if_neg hsame]
    refine .inr ⟨hempty _, ?_, rfl⟩
    unfold banIfNotBanned resetOperatorFields
    split_ifs <;> rfl

omit [DecidableEq H] in
theorem ownProperties_regState (hcheck : ProUpRegChecked env ctx l₀ tx ptx a)
    (hp : dmn.proTxHash = ptx.proTxHash) :
    OwnProperties l₀ dmn { dmn with pdmnState := regState ctx ptx dmn.pdmnState } := by
  intro v hv
  rcases @regState_properties ctx ptx dmn.pdmnState
    with ⟨_, hsame⟩ | ⟨hentries, hplatform, hoperator⟩
  · have hquiet : QuietMN dmn
        { dmn with pdmnState := regState ctx ptx dmn.pdmnState } := ⟨rfl, hsame⟩
    rw [hquiet.properties] at hv
    exact .inl hv
  · obtain ⟨hnull, hcase⟩ := mem_properties.mp hv
    simp only [regState_owner, hentries, hplatform, hoperator] at hcase
    rw [mem_properties, hp]
    rcases hcase with rfl | ⟨entry, hentry, _⟩ | rfl | rfl | ⟨_, rfl⟩
    · exact .inl ⟨hnull, .inl rfl⟩
    · cases hentry
    · exact .inl ⟨hnull, .inr (.inr (.inl rfl))⟩
    · exact .inr hcheck.operator
    · cases hnull

theorem Rebuilding.registrar (h : Rebuilding hash env ctx l₀ done spent l)
    (hl₀ : l₀.Indexed hash) (hspecial : tx.isSpecialTxVersion = true)
    (htx : tx.nType = transactionProviderUpdateRegistrar)
    (hcheck : ProUpRegChecked env ctx l₀ tx ptx a) (hdmn : l.getMN ptx.proTxHash = some dmn)
    (hupdate : l.updateMN hash ptx.proTxHash (regState ctx ptx dmn.pdmnState)
      = .ok l') : Rebuilding hash env ctx l₀ (done ++ [tx]) spent l' := by
  have hkey : ∀ p key, keyAfterTx env p key tx
      = if ptx.proTxHash = p ∧ sameKey key ptx.pubKeyOperator = false then
        ptx.pubKeyOperator else key := by
    intro p key
    unfold keyAfterTx
    rw [hspecial, htx, hcheck.payload]
    rfl
  refine h.update hl₀ hcheck.listed hdmn
    (isRegistration_of_nType (by rw [htx]; decide)) (regState_owner _) ?_ ?_ ?_
    (ownProperties_regState hcheck (h.indexed.key hdmn)) hupdate
  · intro hsame
    rw [regState_operator] at hsame ⊢
    split_ifs at hsame ⊢ with hcond
    · rfl
    · exact absurd hsame hcond
  · rw [regState_operator, hkey]
    cases sameKey dmn.pdmnState.pubKeyOperator ptx.pubKeyOperator <;> simp
  · intro q key hq
    rw [hkey, if_neg (fun hboth => hq hboth.1.symm)]

end Registrar

section Revoke

variable {ptx : CProUpRevTx} {a dmn : CDeterministicMN}

theorem revState_owner (state : CDeterministicMNState) :
    (revState ctx ptx state).keyIDOwner = state.keyIDOwner := by
  unfold revState banIfNotBanned resetOperatorFields
  split_ifs <;> rfl

theorem revState_properties (state : CDeterministicMNState) :
    (revState ctx ptx state).netInfo.getEntries = [] ∧ (revState ctx ptx state).platformNodeID = 0 ∧
      (revState ctx ptx state).pubKeyOperator = none := by
  unfold revState banIfNotBanned resetOperatorFields
  split_ifs <;> exact ⟨rfl, rfl, rfl⟩

omit [DecidableEq H] in
theorem ownProperties_revState (l₀ : CDeterministicMNList H) (dmn : CDeterministicMN) :
    OwnProperties l₀ dmn { dmn with pdmnState := revState ctx ptx dmn.pdmnState } := by
  intro v hv
  obtain ⟨hentries, hplatform, hoperator⟩ := @revState_properties ctx ptx dmn.pdmnState
  obtain ⟨hnull, hcase⟩ := mem_properties.mp hv
  simp only [revState_owner, hentries, hplatform, hoperator] at hcase
  rw [mem_properties]
  rcases hcase with rfl | ⟨entry, hentry, _⟩ | rfl | rfl | ⟨_, rfl⟩
  · exact .inl ⟨hnull, .inl rfl⟩
  · cases hentry
  · exact .inl ⟨hnull, .inr (.inr (.inl rfl))⟩
  · cases hnull
  · cases hnull

theorem Rebuilding.revoke (h : Rebuilding hash env ctx l₀ done spent l)
    (hl₀ : l₀.Indexed hash) (hspecial : tx.isSpecialTxVersion = true)
    (htx : tx.nType = transactionProviderUpdateRevoke)
    (hcheck : ProUpRevChecked env ctx l₀ tx ptx a) (hdmn : l.getMN ptx.proTxHash = some dmn)
    (hupdate : l.updateMN hash ptx.proTxHash (revState ctx ptx dmn.pdmnState)
      = .ok l') : Rebuilding hash env ctx l₀ (done ++ [tx]) spent l' := by
  have hkey : ∀ p key, keyAfterTx env p key tx = if ptx.proTxHash = p then none else key := by
    intro p key
    unfold keyAfterTx
    rw [hspecial, htx, hcheck.payload]
    rfl
  have hnone := (@revState_properties ctx ptx dmn.pdmnState).2.2
  refine h.update hl₀ hcheck.listed hdmn
    (isRegistration_of_nType (by rw [htx]; decide)) (revState_owner _) ?_ ?_ ?_
    (ownProperties_revState l₀ dmn) hupdate
  · intro hsame
    rw [hnone] at hsame ⊢
    rwa [sameKey_iff, Option.map_none, Option.map_eq_none_iff] at hsame
  · rw [hnone, hkey, if_pos rfl]
  · intro q key hq
    rw [hkey, if_neg (fun heq => hq heq.symm)]

end Revoke

/-! ## The loop over the transactions -/

theorem checkSpecialTx_special {u : Unit} (hspecial : tx.isSpecialTxVersion = true)
    (htype : tx.nType ≠ transactionNormal) (h : checkSpecialTx hash env ctx l₀ tx = .ok u) :
    (if tx.nType = transactionProviderRegister then checkProRegTx hash env ctx l₀ tx
    else if tx.nType = transactionProviderUpdateService then checkProUpServTx hash env ctx l₀ tx
    else if tx.nType = transactionProviderUpdateRegistrar then checkProUpRegTx hash env ctx l₀ tx
    else if tx.nType = transactionProviderUpdateRevoke then checkProUpRevTx env ctx l₀ tx
    else require .other (ctx.checkOther tx)) = .ok u := by
  have hpayload : tx.hasExtraPayloadField = true := by
    rw [CTransaction.hasExtraPayloadField, hspecial]
    exact bne_iff_ne.mpr htype
  unfold checkSpecialTx at h
  rw [hpayload] at h
  cases hactive : ctx.isDIP0003Active with
  | false => rw [hactive] at h; cases h
  | true => rw [hactive] at h; exact h

/-- The ways in which a transaction that passed its check against `l₀` is
applied to the list `l`. -/
inductive TxTurn (hash : UniqueProperty → H) (env : ProTxEnv)
    (ctx : BlockContext) (l₀ : CDeterministicMNList H) (tx : CTransaction)
    (l l' : CDeterministicMNList H) : Prop where
  | ordinary (hspecial : tx.isSpecialTxVersion = false) (heq : l' = l)
  | register {ptx : CProRegTx} {l₁ : CDeterministicMNList H}
      (hreg : isRegistration tx = true) (hcheck : ProRegChecked env ctx l₀ tx ptx)
      (hremove : removeReplaced hash l (collateralOf env tx ptx) = .ok l₁)
      (hadd : l₁.addMN hash (registeredMN env ctx l.nTotalRegisteredCount tx ptx) true = .ok l')
  | service {ptx : CProUpServTx} {a dmn : CDeterministicMN}
      (hspecial : tx.isSpecialTxVersion = true) (htx : tx.nType = transactionProviderUpdateService)
      (hcheck : ProUpServChecked env ctx l₀ tx ptx a)
      (hdmn : l.getMN ptx.proTxHash = some dmn) (htype : ptx.nType = dmn.nType)
      (hupdate : l.updateMN hash ptx.proTxHash (servState ctx ptx dmn.pdmnState) = .ok l')
  | registrar {ptx : CProUpRegTx} {a dmn : CDeterministicMN}
      (hspecial : tx.isSpecialTxVersion = true)
      (htx : tx.nType = transactionProviderUpdateRegistrar)
      (hcheck : ProUpRegChecked env ctx l₀ tx ptx a) (hdmn : l.getMN ptx.proTxHash = some dmn)
      (hupdate : l.updateMN hash ptx.proTxHash (regState ctx ptx dmn.pdmnState) = .ok l')
  | revoke {ptx : CProUpRevTx} {a dmn : CDeterministicMN}
      (hspecial : tx.isSpecialTxVersion = true) (htx : tx.nType = transactionProviderUpdateRevoke)
      (hcheck : ProUpRevChecked env ctx l₀ tx ptx a) (hdmn : l.getMN ptx.proTxHash = some dmn)
      (hupdate : l.updateMN hash ptx.proTxHash (revState ctx ptx dmn.pdmnState) = .ok l')
  -- commitments punish, and the other types are not for the list
  | other (hreg : tx.nType ≠ transactionProviderRegister)
      (hserv : tx.nType ≠ transactionProviderUpdateService)
      (hupReg : tx.nType ≠ transactionProviderUpdateRegistrar)
      (hrev : tx.nType ≠ transactionProviderUpdateRevoke)
      (h : applyCommitment hash ctx l tx = .ok l' ∨ l' = l)

theorem turn_of_applyTx (hl₀ : l₀.Indexed hash) (hinj : Injective hash)
    (hcheck : checkSpecialTx hash env ctx l₀ tx = .ok ())
    (happly : applyTx hash env ctx l tx = .ok l') : TxTurn hash env ctx l₀ tx l l' := by
  unfold applyTx at happly
  cases hspecial : tx.isSpecialTxVersion with
  | false =>
    rw [hspecial] at happly
    exact .ordinary hspecial (Except.ok.inj happly).symm
  | true =>
    rw [hspecial, if_neg (by decide)] at happly
    -- the type decides about the check and about the branch
    have hchecked := fun hne => checkSpecialTx_special hspecial hne hcheck
    split_ifs at happly with h₁ h₂ h₃ h₄ h₅
    · have hchecked := hchecked (by rw [h₁]; decide)
      rw [if_pos h₁] at hchecked
      obtain ⟨ptx, hptx⟩ := checkProRegTx_eq_ok hl₀ hinj hchecked
      simp only [applyProRegTx, rejecting, throwing, bind_eq_ok_iff,
        mapError_eq_ok_iff, ofOption_eq_ok_iff] at happly
      obtain ⟨_, hpayload, _, _, l₁, hremove, _, _, _, _, hadd⟩ := happly
      cases hptx.payload.symm.trans hpayload
      have hreg : isRegistration tx = true := by
        rw [isRegistration, hspecial, h₁]
        rfl
      exact .register hreg hptx hremove hadd
    · have hchecked := hchecked (by rw [h₂]; decide)
      rw [if_neg h₁, if_pos h₂] at hchecked
      obtain ⟨ptx, a, hptx⟩ := checkProUpServTx_eq_ok hl₀ hinj hchecked
      simp only [applyProUpServTx, rejecting, throwing, bind_eq_ok_iff,
        mapError_eq_ok_iff, ofOption_eq_ok_iff, require_eq_ok_iff] at happly
      obtain ⟨_, hpayload, _, _, dmn, hdmn, _, htype, _, _, hupdate⟩ := happly
      cases hptx.payload.symm.trans hpayload
      exact .service hspecial h₂ hptx hdmn (beq_iff_eq.mp htype) hupdate
    · have hchecked := hchecked (by rw [h₃]; decide)
      rw [if_neg h₁, if_neg h₂, if_pos h₃] at hchecked
      obtain ⟨ptx, a, hptx⟩ := checkProUpRegTx_eq_ok hl₀ hinj hchecked
      simp only [applyProUpRegTx, rejecting, throwing, bind_eq_ok_iff,
        mapError_eq_ok_iff, ofOption_eq_ok_iff] at happly
      obtain ⟨_, hpayload, dmn, hdmn, hupdate⟩ := happly
      cases hptx.payload.symm.trans hpayload
      exact .registrar hspecial h₃ hptx hdmn hupdate
    · have hchecked := hchecked (by rw [h₄]; decide)
      rw [if_neg h₁, if_neg h₂, if_neg h₃, if_pos h₄] at hchecked
      obtain ⟨ptx, a, hptx⟩ := checkProUpRevTx_eq_ok hchecked
      simp only [applyProUpRevTx, rejecting, throwing, bind_eq_ok_iff,
        mapError_eq_ok_iff, ofOption_eq_ok_iff] at happly
      obtain ⟨_, hpayload, dmn, hdmn, hupdate⟩ := happly
      cases hptx.payload.symm.trans hpayload
      exact .revoke hspecial h₄ hptx hdmn hupdate
    · exact .other h₁ h₂ h₃ h₄ (.inl happly)
    · exact .other h₁ h₂ h₃ h₄ (.inr (Except.ok.inj happly).symm)

theorem Rebuilding.applyTx (h : Rebuilding hash env ctx l₀ done [] l)
    (hl₀ : l₀.Indexed hash) (hinj : Injective hash)
    (hfresh : isRegistration tx = true → l₀.getMN (env.getHash tx) = none)
    (hturn : TxTurn hash env ctx l₀ tx l l') : Rebuilding hash env ctx l₀ (done ++ [tx]) [] l' := by
  cases hturn with
  | ordinary hspecial heq =>
    subst heq
    refine h.skip (by rw [isRegistration, hspecial]; rfl) fun p key => ?_
    rw [keyAfterTx, hspecial]
    rfl
  | register hreg hcheck hremove hadd =>
    exact h.register hl₀ hinj hreg hcheck (hfresh hreg) hremove hadd
  | service _ htx hcheck hdmn htype hupdate =>
    exact h.service hl₀ htx hcheck hdmn htype hupdate
  | registrar hspecial htx hcheck hdmn hupdate =>
    exact h.registrar hl₀ hspecial htx hcheck hdmn hupdate
  | revoke hspecial htx hcheck hdmn hupdate =>
    exact h.revoke hl₀ hspecial htx hcheck hdmn hupdate
  | other h₁ _ h₃ h₄ hrest =>
    have hskip := h.skip (isRegistration_of_nType h₁) fun p key => by
      rw [keyAfterTx, if_neg h₃, if_neg h₄, ite_self]
    rcases hrest with hcommitment | rfl
    · obtain ⟨hl', hquiet, -⟩ := applyCommitment_preserves (P := fun _ => True) h.indexed
        trivial (fun _ _ _ _ => trivial) hcommitment
      exact hskip.quiet hl' hquiet
    · exact hskip

/-! ## The whole rebuild -/

/-- The block that a list is rebuilt from: its transactions passed their
checks against `l₀`, and its registrations are new. -/
structure Rebuildable (hash : UniqueProperty → H) (env : ProTxEnv)
    (ctx : BlockContext) (block : CBlock) (l₀ : CDeterministicMNList H) : Prop where
  indexed : l₀.Indexed hash
  injective : Injective hash
  listable : ∀ {p b}, l₀.getMN p = some b → b.Listable
  count : l₀.nTotalRegisteredCount < 2 ^ 32
  checks : ∀ tx ∈ block.withoutCoinbase, checkSpecialTx hash env ctx l₀ tx = .ok ()
  fresh : ∀ tx ∈ block.withoutCoinbase, isRegistration tx = true → l₀.getMN (env.getHash tx) = none

abbrev atBlock (ctx : BlockContext) (l₀ : CDeterministicMNList H) : CDeterministicMNList H :=
  { l₀ with blockHash := 0, nHeight := ctx.nHeight }

variable {block : CBlock}

theorem Rebuildable.stages (hblock : Rebuildable hash env ctx block l₀)
    {Q : List CTransaction → List COutPoint → CDeterministicMNList H → Prop}
    (hstart : ∀ l₁ l₂, (atBlock ctx l₀).Indexed hash → l₁.Indexed hash →
      l₀.mns.foldlM (confirmMN hash env ctx) (atBlock ctx l₀) = .ok l₁ →
      l₁.decreaseScores hash = .ok l₂ → Quiet (atBlock ctx l₀) l₂ → Q [] [] l₂)
    (hturn : ∀ done tx rest x x', block.withoutCoinbase = done ++ tx :: rest →
      Rebuilding hash env ctx l₀ done [] x → Q done [] x →
      TxTurn hash env ctx l₀ tx x x' → Q (done ++ [tx]) [] x')
    (hspend : ∀ spent vin x x', Rebuilding hash env ctx l₀ block.withoutCoinbase spent x →
      Q block.withoutCoinbase spent x → spendCollateral hash x vin = .ok x' →
      Q block.withoutCoinbase (spent ++ [vin.prevout]) x')
    (h : rebuildListFromBlock hash env ctx block l₀ = .ok l') :
    ∃ l₄ l₅, Rebuilding hash env ctx l₀ block.withoutCoinbase
        (spentOutpoints block.withoutCoinbase) l₄ ∧
      Q block.withoutCoinbase (spentOutpoints block.withoutCoinbase) l₄ ∧
      recordPayee hash ctx (l₀.getMNPayee ctx) l₄ = .ok l₅ ∧
      l₅.mns.foldlM (resetPayments hash ctx (l₀.getMNPayee ctx)) l₅ = .ok l' := by
  unfold rebuildListFromBlock at h
  split_ifs at h
  simp only [throwing, bind_eq_ok_iff, mapError_eq_ok_iff] at h
  obtain ⟨l₁, h₁, l₂, h₂, l₃, h₃, l₄, h₄, l₅, h₅, h₆⟩ := h
  have hstage : Rebuilding hash env ctx l₀ [] [] (atBlock ctx l₀) :=
    rebuilding_start hblock.indexed hblock.injective hblock.listable hblock.count
  obtain ⟨hl₁, hquiet₁, -⟩ := confirmMN_preserves (P := fun _ => True) hblock.indexed
    hstage.indexed rfl trivial (fun _ _ _ => trivial) h₁
  obtain ⟨hl₂, hquiet₂, -⟩ := decreaseScores_preserves (P := fun _ => True) hl₁ trivial
    (fun _ _ _ _ => trivial) h₂
  have hstage₃ := foldlM_invariant
    (P := fun done x => Rebuilding hash env ctx l₀ done [] x ∧ Q done [] x)
    (fun done tx rest x x' htxs hx happly => by
      have hmem : tx ∈ block.withoutCoinbase := by simp [htxs]
      have hone := turn_of_applyTx hblock.indexed hblock.injective (hblock.checks tx hmem) happly
      exact ⟨hx.1.applyTx hblock.indexed hblock.injective (hblock.fresh tx hmem) hone,
        hturn done tx rest x x' htxs hx.1 hx.2 hone⟩)
    ⟨(hstage.quiet hl₁ hquiet₁).quiet hl₂ hquiet₂,
      hstart l₁ l₂ hstage.indexed hl₁ h₁ h₂ (hquiet₁.trans hquiet₂)⟩ h₃
  have hstage₄ := foldlM_invariant
    (P := fun vins x => Rebuilding hash env ctx l₀ block.withoutCoinbase
        (vins.map CTxIn.prevout) x ∧
      Q block.withoutCoinbase (vins.map CTxIn.prevout) x)
    (fun vins vin _ x x' _ hx hone => by
      rw [map_append]
      exact ⟨hx.1.spend hblock.injective hone, hspend _ vin x x' hx.1 hx.2 hone⟩)
    hstage₃ h₄
  exact ⟨l₄, l₅, hstage₄.1, hstage₄.2, h₅, h₆⟩

theorem Rebuildable.rebuilding (hblock : Rebuildable hash env ctx block l₀)
    (h : rebuildListFromBlock hash env ctx block l₀ = .ok l') :
    Rebuilding hash env ctx l₀ block.withoutCoinbase (spentOutpoints block.withoutCoinbase) l' := by
  obtain ⟨l₄, l₅, hstage₄, -, h₅, h₆⟩ := hblock.stages (Q := fun _ _ _ => True)
    (fun _ _ _ _ _ _ _ => trivial) (fun _ _ _ _ _ _ _ _ _ => trivial)
    (fun _ _ _ _ _ _ _ => trivial) h
  obtain ⟨hl₅, hquiet₅⟩ := quiet_recordPayee hstage₄.indexed h₅
  obtain ⟨hl₆, hquiet₆, -⟩ := resetPayments_preserves (P := fun _ => True) hl₅ trivial
    (fun _ _ _ => trivial) h₆
  exact (hstage₄.quiet hl₅ hquiet₅).quiet hl₆ hquiet₆

end CDeterministicMNList

end KorshCore

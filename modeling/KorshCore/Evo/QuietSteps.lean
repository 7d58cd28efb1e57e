import KorshCore.Evo.ApplyDiff
import KorshCore.Evo.RebuildList

/-!
# Steps of the rebuild that leave the properties alone

Confirmations, penalties and payments change the states of masternodes, but
no unique property. `Quiet l l'` says that `l'` comes from `l` by such
changes. It composes, and each of these stages of the rebuild is quiet.
-/

namespace KorshCore

open Holdings Except CDeterministicMN List

def SameMN (a b : CDeterministicMN) : Prop :=
  b = { a with pdmnState := b.pdmnState }

structure SameProperties (a b : CDeterministicMNState) : Prop where
  netInfo : b.netInfo = a.netInfo
  owner : b.keyIDOwner = a.keyIDOwner
  operator : b.pubKeyOperator = a.pubKeyOperator
  platform : b.platformNodeID = a.platformNodeID

theorem SameMN.refl (a : CDeterministicMN) : SameMN a a := rfl

theorem SameMN.trans {a b c : CDeterministicMN} (h : SameMN a b)
    (h' : SameMN b c) : SameMN a c := by
  unfold SameMN at *
  rw [h', h]

theorem SameMN.setState (a : CDeterministicMN) (state : CDeterministicMNState) :
    SameMN a { a with pdmnState := state } := rfl

namespace SameMN

variable {a b : CDeterministicMN} (h : SameMN a b)

include h

theorem internalId : b.internalId = a.internalId := by rw [h]

theorem collateralOutpoint : b.collateralOutpoint = a.collateralOutpoint := by
  rw [h]

theorem nType : b.nType = a.nType := by rw [h]

end SameMN

theorem SameProperties.refl (a : CDeterministicMNState) : SameProperties a a :=
  ⟨rfl, rfl, rfl, rfl⟩

theorem SameProperties.trans {a b c : CDeterministicMNState}
    (h : SameProperties a b) (h' : SameProperties b c) : SameProperties a c :=
  ⟨h'.netInfo.trans h.netInfo, h'.owner.trans h.owner,
    h'.operator.trans h.operator, h'.platform.trans h.platform⟩

structure QuietMN (a b : CDeterministicMN) : Prop where
  same : SameMN a b
  state : SameProperties a.pdmnState b.pdmnState

theorem QuietMN.properties {a b : CDeterministicMN} (h : QuietMN a b) :
    b.properties = a.properties := by
  unfold CDeterministicMN.properties CDeterministicMNState.properties
  rw [h.state.netInfo, h.state.owner, h.state.operator, h.state.platform,
    h.same.collateralOutpoint, h.same.nType]

theorem QuietMN.listable {a b : CDeterministicMN} (h : QuietMN a b)
    (ha : a.Listable) : b.Listable where
  collateral := by rw [h.same.collateralOutpoint]; exact ha.collateral
  netInfo := by rw [h.state.netInfo]; exact ha.netInfo
  owner := by rw [h.state.owner]; exact ha.owner

namespace CDeterministicMNList

variable {H : Type} {l l₁ l₂ l' : CDeterministicMNList H}

structure Quiet (l l' : CDeterministicMNList H) : Prop where
  header : SameHeader l l'
  count : l'.nTotalRegisteredCount = l.nTotalRegisteredCount
  forth : ∀ {q a}, l.getMN q = some a → ∃ b, l'.getMN q = some b ∧ QuietMN a b
  back : ∀ {q b}, l'.getMN q = some b → ∃ a, l.getMN q = some a ∧ QuietMN a b

theorem Quiet.refl (l : CDeterministicMNList H) : Quiet l l where
  header := .refl l
  count := rfl
  forth h := ⟨_, h, .refl _, .refl _⟩
  back h := ⟨_, h, .refl _, .refl _⟩

theorem Quiet.trans (h : Quiet l l₁) (h' : Quiet l₁ l₂) : Quiet l l₂ where
  header := h.header.trans h'.header
  count := h'.count.trans h.count
  forth hq := by
    obtain ⟨b, hb, hab⟩ := h.forth hq
    obtain ⟨c, hc, hbc⟩ := h'.forth hb
    exact ⟨c, hc, hab.same.trans hbc.same, hab.state.trans hbc.state⟩
  back hq := by
    obtain ⟨b, hb, hbc⟩ := h'.back hq
    obtain ⟨a, ha, hab⟩ := h.back hb
    exact ⟨a, ha, hab.same.trans hbc.same, hab.state.trans hbc.state⟩

theorem Quiet.isSome (h : Quiet l l') (q : Uint256) : (l'.getMN q).isSome = (l.getMN q).isSome := by
  cases hq : l.getMN q with
  | some a =>
    obtain ⟨b, hb, _⟩ := h.forth hq
    rw [hb]
    rfl
  | none =>
    cases hq' : l'.getMN q with
    | none => rfl
    | some b =>
      obtain ⟨a, ha, _⟩ := h.back hq'
      rw [hq] at ha
      cases ha

variable {dmn : CDeterministicMN}

theorem Keyed.mem_mns_iff (hl : l.Keyed) : dmn ∈ l.mns ↔ l.getMN dmn.proTxHash = some dmn := by
  constructor
  · intro h
    obtain ⟨⟨p, b⟩, hmem, rfl⟩ := mem_map.mp h
    have hlookup : l.getMN p = some b := mem_dlookup l.mnMap.nodupKeys hmem
    rw [hl hlookup]
    exact hlookup
  · intro h
    exact mem_map.mpr ⟨⟨_, dmn⟩, of_mem_dlookup h, rfl⟩

theorem Keyed.nodup_mns (hl : l.Keyed) : (l.mns.map proTxHash).Nodup := by
  have hkeys : l.mnMap.entries.keys = l.mns.map proTxHash := by
    unfold mns keys
    rw [map_map]
    exact map_congr_left fun e he => (hl (mem_dlookup l.mnMap.nodupKeys he)).symm
  rw [← hkeys]
  exact l.mnMap.nodupKeys

variable [DecidableEq H] {hash : UniqueProperty → H}

section Indexed

variable (hl : l.Indexed hash)
include hl

theorem Indexed.mem_mns_iff : dmn ∈ l.mns ↔ l.getMN dmn.proTxHash = some dmn :=
  Keyed.mem_mns_iff fun _ _ => hl.key

theorem Indexed.nodup_mns : (l.mns.map proTxHash).Nodup :=
  Keyed.nodup_mns fun _ _ => hl.key

theorem Indexed.updateMN {p : Uint256}
    (hlisted : l.getMN p = some dmn) (state : CDeterministicMNState) :
    l.updateMN hash p state = l.updateMNState hash dmn state ∧
      l.getMN dmn.proTxHash = some dmn := by
  refine ⟨?_, by rw [hl.key hlisted]; exact hlisted⟩
  rw [CDeterministicMNList.updateMN, hlisted]
  rfl

theorem Indexed.quiet_updateMNState
    (hlisted : l.getMN dmn.proTxHash = some dmn) {state : CDeterministicMNState}
    (hstate : SameProperties dmn.pdmnState state) (h : l.updateMNState hash dmn state = .ok l') :
    l'.Indexed hash ∧ Quiet l l' := by
  have hget := getMN_updateMNState h
  obtain ⟨_, _, _, hcount, hblock, hheight⟩ := updateMNState_eq_ok h
  have hindexed := hl.updateMNState hlisted (fun _ => hstate.operator.symm) h
  refine ⟨hindexed, ⟨hblock, hheight⟩, hcount, ?_, ?_⟩
  · intro q a hq
    rw [hget]
    split_ifs with heq
    · rw [heq, hlisted] at hq
      cases hq
      exact ⟨_, rfl, rfl, hstate⟩
    · exact ⟨a, hq, .refl a, .refl _⟩
  · intro q b hq
    rw [hget] at hq
    split_ifs at hq with heq
    · cases hq
      exact ⟨dmn, heq ▸ hlisted, rfl, hstate⟩
    · exact ⟨b, hq, .refl b, .refl _⟩

end Indexed

/-- A turn that changes no property and writes no other masternode. -/
def QuietTurn (hash : UniqueProperty → H) (dmn : CDeterministicMN)
    (l l' : CDeterministicMNList H) : Prop :=
  l' = l ∨ ∃ state, SameProperties dmn.pdmnState state ∧ l.updateMNState hash dmn state = .ok l'

theorem foldlM_turns {P : CDeterministicMNList H → Prop}
    {step : CDeterministicMNList H → CDeterministicMN → Except ListError (CDeterministicMNList H)}
    {dmns : List CDeterministicMN} (hstep : ∀ {l l' dmn}, dmn ∈ dmns → P l → l.Indexed hash →
      l.getMN dmn.proTxHash = some dmn → step l dmn = .ok l' → QuietTurn hash dmn l l' ∧ P l')
    (hl : l.Indexed hash) (hnodup : (dmns.map proTxHash).Nodup)
    (hlisted : ∀ dmn ∈ dmns, l.getMN dmn.proTxHash = some dmn) (hP : P l)
    (h : dmns.foldlM step l = .ok l') : l'.Indexed hash ∧ Quiet l l' ∧ P l' := by
  induction dmns generalizing l with
  | nil =>
    cases h
    exact ⟨hl, .refl _, hP⟩
  | cons dmn dmns ih =>
    obtain ⟨l₁, h₁, hrest⟩ := bind_eq_ok_iff.mp h
    rw [map_cons, nodup_cons] at hnodup
    have hdmn := hlisted dmn mem_cons_self
    have hothers : ∀ x ∈ dmns, l.getMN x.proTxHash = some x := fun x hx =>
      hlisted x (mem_cons_of_mem dmn hx)
    have hnext := fun {l l' dmn'} (hmem : dmn' ∈ dmns) =>
      @hstep l l' dmn' (mem_cons_of_mem dmn hmem)
    obtain ⟨rfl | ⟨state, hstate, hupdate⟩, hP₁⟩ := hstep mem_cons_self hP hl hdmn h₁
    · exact ih hnext hl hnodup.2 hothers hP hrest
    · obtain ⟨hl₁, hquiet₁⟩ := hl.quiet_updateMNState hdmn hstate hupdate
      -- the masternodes still to come are as they were
      have hlisted₁ : ∀ x ∈ dmns, l₁.getMN x.proTxHash = some x := by
        intro x hx
        have hne : x.proTxHash ≠ dmn.proTxHash := by
          intro heq
          exact hnodup.1 (heq ▸ mem_map_of_mem hx)
        rw [getMN_updateMNState hupdate, if_neg hne]
        exact hothers x hx
      obtain ⟨hl', hquiet, hP'⟩ := ih hnext hl₁ hnodup.2 hlisted₁ hP₁ hrest
      exact ⟨hl', hquiet₁.trans hquiet, hP'⟩

/-! ## The stages -/

def paidState (ctx : BlockContext) (dmn : CDeterministicMN) : CDeterministicMNState :=
  let state := { dmn.pdmnState with nLastPaidHeight := ctx.nHeight }
  if dmn.nType = .evo ∧ ctx.isMNRewardReallocation = false then
    { state with nConsecutivePayments := state.nConsecutivePayments + 1 }
  else state

omit [DecidableEq H] in
theorem sameProperties_punishedState (l : CDeterministicMNList H) (penalty : Int)
    (state : CDeterministicMNState) : SameProperties state (l.punishedState penalty state) := by
  unfold punishedState CDeterministicMNState.banIfNotBanned
  dsimp only
  split_ifs <;> exact ⟨rfl, rfl, rfl, rfl⟩

variable {env : ProTxEnv} {ctx : BlockContext} {P : CDeterministicMNList H → Prop}
  {payee : Option CDeterministicMN} (hl : l.Indexed hash)
include hl

theorem confirmMN_turn (hdmn : l.getMN dmn.proTxHash = some dmn)
    (h : confirmMN hash env ctx l dmn = .ok l') :
    l' = l ∨ l.updateMNState hash dmn (dmn.pdmnState.updateConfirmedHash
      env.sha256 dmn.proTxHash ctx.prevHash) = .ok l' := by
  unfold confirmMN at h
  rw [(hl.updateMN hdmn _).1] at h
  split_ifs at h
  · exact .inl (Except.ok.inj h).symm
  · exact .inr h
  · exact .inl (Except.ok.inj h).symm

theorem confirmMN_preserves (hl' : l'.Indexed hash) (hmap : l'.mnMap = l.mnMap) (hP : P l')
    (hstep : ∀ {x x' dmn}, P x → x.getMN dmn.proTxHash = some dmn →
      x.updateMNState hash dmn (dmn.pdmnState.updateConfirmedHash env.sha256
        dmn.proTxHash ctx.prevHash) = .ok x' → P x')
    (h : l.mns.foldlM (confirmMN hash env ctx) l' = .ok l₁) :
    l₁.Indexed hash ∧ Quiet l' l₁ ∧ P l₁ := by
  refine foldlM_turns ?_ hl' hl.nodup_mns (fun dmn hdmn => ?_) hP h
  · intro x x' dmn _ hx hindexed hdmn hturn
    rcases confirmMN_turn hindexed hdmn hturn with rfl | hupdate
    · exact ⟨.inl rfl, hx⟩
    · refine ⟨.inr ⟨_, ?_, hupdate⟩, hstep hx hdmn hupdate⟩
      exact ⟨rfl, rfl, rfl, rfl⟩
  · rw [getMN, hmap]
    exact hl.mem_mns_iff.mp hdmn

theorem decreaseScores_preserves (hP : P l)
    (hstep : ∀ {x x' dmn}, P x → x.getMN dmn.proTxHash = some dmn →
      0 < dmn.pdmnState.nPoSePenalty → x.poSeDecrease hash dmn = .ok x' → P x')
    (h : l.decreaseScores hash = .ok l') : l'.Indexed hash ∧ Quiet l l' ∧ P l' := by
  have hsublist : ((l.validMNs.filter fun dmn =>
      decide (0 < dmn.pdmnState.nPoSePenalty))).Sublist l.mns :=
    filter_sublist.trans filter_sublist
  refine foldlM_turns ?_ hl (hl.nodup_mns.sublist (hsublist.map _))
    (fun dmn hdmn => hl.mem_mns_iff.mp (hsublist.subset hdmn)) hP h
  intro x x' dmn hmem hx _ hdmn hturn
  have hpositive := of_decide_eq_true (mem_filter.mp hmem).2
  refine ⟨.inr ⟨_, ?_, hturn⟩, hstep hx hdmn hpositive hturn⟩
  exact ⟨rfl, rfl, rfl, rfl⟩

theorem resetPayments_turn (hdmn : l.getMN dmn.proTxHash = some dmn)
    (h : resetPayments hash ctx payee l dmn = .ok l') : l' = l ∨ l.updateMNState hash dmn
      { dmn.pdmnState with nConsecutivePayments := 0 } = .ok l' := by
  unfold resetPayments at h
  rw [(hl.updateMN hdmn _).1] at h
  split_ifs at h
  · exact .inl (Except.ok.inj h).symm
  · exact .inl (Except.ok.inj h).symm
  · exact .inl (Except.ok.inj h).symm
  · exact .inr h

theorem resetPayments_preserves (hP : P l)
    (hstep : ∀ {x x' dmn}, P x → x.getMN dmn.proTxHash = some dmn →
      x.updateMNState hash dmn { dmn.pdmnState with nConsecutivePayments := 0 } = .ok x' →
      P x')
    (h : l.mns.foldlM (resetPayments hash ctx payee) l = .ok l') :
    l'.Indexed hash ∧ Quiet l l' ∧ P l' := by
  refine foldlM_turns ?_ hl hl.nodup_mns (fun dmn => hl.mem_mns_iff.mp) hP h
  intro x x' dmn _ hx hindexed hdmn hturn
  rcases resetPayments_turn hindexed hdmn hturn with rfl | hupdate
  · exact ⟨.inl rfl, hx⟩
  · refine ⟨.inr ⟨_, ?_, hupdate⟩, hstep hx hdmn hupdate⟩
    exact ⟨rfl, rfl, rfl, rfl⟩

theorem recordPayee_turn (h : recordPayee hash ctx payee l = .ok l') :
    l' = l ∨ ∃ dmn, l.getMN dmn.proTxHash = some dmn ∧
      l.updateMNState hash dmn (paidState ctx dmn) = .ok l' := by
  unfold recordPayee at h
  split at h
  · exact .inl (Except.ok.inj h).symm
  · split at h
    · exact .inl (Except.ok.inj h).symm
    · rename_i dmn hlisted
      obtain ⟨heq, hdmn⟩ := hl.updateMN hlisted (paidState ctx dmn)
      exact .inr ⟨dmn, hdmn, heq ▸ h⟩

theorem quiet_recordPayee (h : recordPayee hash ctx payee l = .ok l') :
    l'.Indexed hash ∧ Quiet l l' := by
  obtain rfl | ⟨dmn, hdmn, hupdate⟩ := recordPayee_turn hl h
  · exact ⟨hl, .refl _⟩
  · refine hl.quiet_updateMNState hdmn ?_ hupdate
    unfold paidState
    split_ifs <;> exact ⟨rfl, rfl, rfl, rfl⟩

theorem punishMember_turn {member : Uint256 × Bool} (h : l.punishMember hash member = .ok l') :
    l' = l ∨ ∃ dmn, l.getMN dmn.proTxHash = some dmn ∧
      l.updateMNState hash dmn (l.punishedState (l.calcPenalty 66) dmn.pdmnState) = .ok l' := by
  unfold punishMember poSePunish at h
  split_ifs at h
  · exact .inl (Except.ok.inj h).symm
  · obtain ⟨dmn, hlisted, h⟩ := bind_eq_ok_iff.mp h
    obtain ⟨heq, hdmn⟩ := hl.updateMN (ofOption_eq_ok_iff.mp hlisted)
      (l.punishedState (l.calcPenalty 66) dmn.pdmnState)
    exact .inr ⟨dmn, hdmn, heq ▸ h⟩

theorem applyCommitment_preserves (hP : P l)
    (hstep : ∀ {x x' dmn}, Quiet l x → P x → x.getMN dmn.proTxHash = some dmn →
      x.updateMNState hash dmn (x.punishedState (x.calcPenalty 66) dmn.pdmnState) = .ok x' → P x')
    {tx : CTransaction} (h : applyCommitment hash ctx l tx = .ok l') :
    l'.Indexed hash ∧ Quiet l l' ∧ P l' := by
  obtain ⟨members, _, h⟩ := bind_eq_ok_iff.mp h
  refine foldlM_preserves (P := fun x => x.Indexed hash ∧ Quiet l x ∧ P x) ?_
    ⟨hl, .refl l, hP⟩ (mapError_eq_ok_iff.mp h)
  rintro member x x' _ ⟨hx, hquiet, hPx⟩ hturn
  rcases punishMember_turn hx hturn with rfl | ⟨dmn, hdmn, hupdate⟩
  · exact ⟨hx, hquiet, hPx⟩
  · obtain ⟨hx', hquiet'⟩ :=
      hx.quiet_updateMNState hdmn (sameProperties_punishedState x _ _) hupdate
    exact ⟨hx', hquiet.trans hquiet', hstep hquiet hPx hdmn hupdate⟩

end CDeterministicMNList

end KorshCore

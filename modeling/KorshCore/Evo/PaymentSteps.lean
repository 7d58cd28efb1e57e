import KorshCore.Evo.PaymentOrder

/-!
# What a block does to the payment data

Of the stages of `RebuildListFromBlock` only the last two write the payment
data of a listed masternode: the payee is recorded, and the payments in a row
of all others are reset.
-/

namespace KorshCore

open Except CDeterministicMNState CDeterministicMN Option

/-- A state whose payment data are kept, up to a revival by this block. -/
structure Untouched (ctx : BlockContext) (s s' : CDeterministicMNState) : Prop where
  registered : s'.nRegisteredHeight = s.nRegisteredHeight
  paid : s'.nLastPaidHeight = s.nLastPaidHeight
  consecutive : s'.nConsecutivePayments = s.nConsecutivePayments
  revived : s'.nPoSeRevivedHeight = s.nPoSeRevivedHeight ∨ s'.nPoSeRevivedHeight = ctx.nHeight

namespace Untouched

variable {ctx : BlockContext} {s s' s'' : CDeterministicMNState}

theorem trans (h : Untouched ctx s s') (h' : Untouched ctx s' s'') : Untouched ctx s s'' where
  registered := h'.registered.trans h.registered
  paid := h'.paid.trans h.paid
  consecutive := h'.consecutive.trans h.consecutive
  revived := by
    rcases h'.revived with heq | heq
    · rw [heq]
      exact h.revived
    · exact .inr heq

theorem servState (ctx : BlockContext) (ptx : CProUpServTx)
    (s : CDeterministicMNState) : Untouched ctx s (KorshCore.servState ctx ptx s) := by
  unfold KorshCore.servState revive
  dsimp only
  split_ifs <;> first | exact ⟨rfl, rfl, rfl, .inl rfl⟩ | exact ⟨rfl, rfl, rfl, .inr rfl⟩

theorem regState (ctx : BlockContext) (ptx : CProUpRegTx)
    (s : CDeterministicMNState) : Untouched ctx s (KorshCore.regState ctx ptx s) := by
  unfold KorshCore.regState banIfNotBanned resetOperatorFields
  split_ifs <;> exact ⟨rfl, rfl, rfl, .inl rfl⟩

theorem revState (ctx : BlockContext) (ptx : CProUpRevTx)
    (s : CDeterministicMNState) : Untouched ctx s (KorshCore.revState ctx ptx s) := by
  unfold KorshCore.revState banIfNotBanned resetOperatorFields
  split_ifs <;> exact ⟨rfl, rfl, rfl, .inl rfl⟩

theorem punishedState {H : Type} (ctx : BlockContext) (l : CDeterministicMNList H)
    (penalty : Int) (s : CDeterministicMNState) : Untouched ctx s (l.punishedState penalty s) := by
  unfold CDeterministicMNList.punishedState banIfNotBanned
  dsimp only
  split_ifs <;> exact ⟨rfl, rfl, rfl, .inl rfl⟩

end Untouched

structure FreshMN (ctx : BlockContext) (dmn : CDeterministicMN) : Prop where
  nType : dmn.nType.isValid = true
  registered : dmn.pdmnState.nRegisteredHeight = ctx.nHeight
  paid : dmn.pdmnState.nLastPaidHeight = 0
  consecutive : dmn.pdmnState.nConsecutivePayments = 0
  revived : dmn.pdmnState.nPoSeRevivedHeight = -1 ∨ dmn.pdmnState.nPoSeRevivedHeight = ctx.nHeight

variable {state : CDeterministicMNState}

theorem FreshMN.setState {ctx : BlockContext} {dmn : CDeterministicMN} (h : FreshMN ctx dmn)
    (hstate : Untouched ctx dmn.pdmnState state) : FreshMN ctx { dmn with pdmnState := state } where
  nType := h.nType
  registered := hstate.registered.trans h.registered
  paid := hstate.paid.trans h.paid
  consecutive := hstate.consecutive.trans h.consecutive
  revived := by
    rcases hstate.revived with heq | heq
    · rw [heq]
      exact h.revived
    · exact .inr heq

namespace CDeterministicMNList

variable {H : Type} [DecidableEq H] {hash : UniqueProperty → H} {env : ProTxEnv}
  {ctx : BlockContext} {l₀ l l₁ l' : CDeterministicMNList H} {tx : CTransaction}

/-- Before anybody is paid, the masternodes of `l₀` have the payment data they
had, and the others are fresh. -/
structure Unpaid (ctx : BlockContext) (l₀ l : CDeterministicMNList H) : Prop where
  old : ∀ {p a b}, l₀.getMN p = some a → l.getMN p = some b →
    b.nType = a.nType ∧ Untouched ctx a.pdmnState b.pdmnState
  new : ∀ {p b}, l₀.getMN p = none → l.getMN p = some b → FreshMN ctx b

omit [DecidableEq H] in
theorem unpaid_of_mns (h : ∀ p, l.getMN p = l₀.getMN p) : Unpaid ctx l₀ l where
  old ha hb := by
    cases ha.symm.trans ((h _).symm.trans hb)
    exact ⟨rfl, rfl, rfl, rfl, .inl rfl⟩
  new hnone hb := by
    rw [h, hnone] at hb
    cases hb

omit [DecidableEq H] in
theorem Unpaid.of_subset (h : Unpaid ctx l₀ l)
    (hsub : ∀ {p b}, l'.getMN p = some b → l.getMN p = some b) : Unpaid ctx l₀ l' where
  old ha hb := h.old ha (hsub hb)
  new hnone hb := h.new hnone (hsub hb)

variable {dmn : CDeterministicMN}

theorem Unpaid.updateMNState (h : Unpaid ctx l₀ l) (hdmn : l.getMN dmn.proTxHash = some dmn)
    (hstate : Untouched ctx dmn.pdmnState state)
    (hupdate : l.updateMNState hash dmn state = .ok l') : Unpaid ctx l₀ l' where
  old := by
    intro p a b ha hb
    rw [getMN_updateMNState hupdate] at hb
    split_ifs at hb with hp
    · subst hp
      cases hb
      obtain ⟨htype, hkept⟩ := h.old ha hdmn
      exact ⟨htype, hkept.trans hstate⟩
    · exact h.old ha hb
  new := by
    intro p b hnone hb
    rw [getMN_updateMNState hupdate] at hb
    split_ifs at hb with hp
    · subst hp
      cases hb
      exact (h.new hnone hdmn).setState hstate
    · exact h.new hnone hb

theorem Unpaid.updateMN (h : Unpaid ctx l₀ l) (hl : l.Indexed hash)
    {p : Uint256} (hdmn : l.getMN p = some dmn) (hstate : Untouched ctx dmn.pdmnState state)
    (hupdate : l.updateMN hash p state = .ok l') : Unpaid ctx l₀ l' := by
  obtain ⟨heq, hlisted⟩ := hl.updateMN hdmn state
  exact h.updateMNState hlisted hstate (heq ▸ hupdate)

/-! ## The stages before the payment -/

theorem Unpaid.confirmMN (h : Unpaid ctx l₀ l') (hl : l.Indexed hash)
    (hl' : l'.Indexed hash) (hmap : l'.mnMap = l.mnMap)
    (hconfirm : l.mns.foldlM (confirmMN hash env ctx) l' = .ok l₁) : Unpaid ctx l₀ l₁ := by
  refine (confirmMN_preserves hl hl' hmap h (fun hx hdmn hupdate => ?_) hconfirm).2.2
  refine hx.updateMNState hdmn ?_ hupdate
  exact ⟨rfl, rfl, rfl, .inl rfl⟩

theorem Unpaid.decreaseScores (h : Unpaid ctx l₀ l) (hl : l.Indexed hash)
    (hdecrease : l.decreaseScores hash = .ok l') : Unpaid ctx l₀ l' := by
  refine (decreaseScores_preserves hl h (fun hx hdmn _ hupdate => ?_) hdecrease).2.2
  refine hx.updateMNState hdmn ?_ hupdate
  exact ⟨rfl, rfl, rfl, .inl rfl⟩

variable {b : CDeterministicMN}

theorem getMN_of_removeReplaced {o : COutPoint} (h : removeReplaced hash l o = .ok l') {p : Uint256}
    (hb : l'.getMN p = some b) : l.getMN p = some b := by
  unfold removeReplaced at h
  split at h
  · cases h
    exact hb
  · rw [getMN_removeMN h] at hb
    split_ifs at hb
    exact hb

theorem getMN_of_spendCollateral {vin : CTxIn}
    (h : spendCollateral hash l vin = .ok l') {p : Uint256}
    (hb : l'.getMN p = some b) : l.getMN p = some b := by
  unfold spendCollateral at h
  split at h
  · cases h
    exact hb
  · split_ifs at h
    · rw [getMN_removeMN h] at hb
      split_ifs at hb
      exact hb
    · cases h
      exact hb

theorem nType_of_trivial {ptx : CProRegTx} {u : Unit}
    (h : ptx.isTriviallyValid env ctx = .ok u) : ptx.nType.isValid = true := by
  simp only [CProRegTx.isTriviallyValid, bind_eq_ok_iff, require_eq_ok_iff, exists_const] at h
  obtain ⟨_, _, _, htype, _⟩ := h
  exact htype

theorem Unpaid.register (h : Unpaid ctx l₀ l) {ptx : CProRegTx}
    (hptx : ProRegChecked env ctx l₀ tx ptx) (hfresh : l₀.getMN (env.getHash tx) = none)
    (hremove : removeReplaced hash l (collateralOf env tx ptx) = .ok l₁) (hadd : l₁.addMN hash
      (registeredMN env ctx l.nTotalRegisteredCount tx ptx) true = .ok l') : Unpaid ctx l₀ l' := by
  have hremoved : Unpaid ctx l₀ l₁ := h.of_subset (getMN_of_removeReplaced hremove)
  have hget := getMN_addMN hadd
  refine ⟨fun {p a b} ha hb => ?_, fun {p b} hnone hb => ?_⟩
  · rw [hget] at hb
    split_ifs at hb with hp
    · subst hp
      exact absurd (hfresh.symm.trans ha) (by simp)
    · exact hremoved.old ha hb
  · rw [hget] at hb
    split_ifs at hb with hp
    · cases hb
      unfold registeredMN ofProRegTx banIfNotBanned
      refine ⟨nType_of_trivial hptx.trivial, ?_, ?_, ?_, ?_⟩ <;> dsimp only <;> split_ifs <;>
        first | rfl | exact .inl rfl
    · exact hremoved.new hnone hb

theorem Unpaid.applyCommitment (h : Unpaid ctx l₀ l) (hl : l.Indexed hash)
    (happly : applyCommitment hash ctx l tx = .ok l') : Unpaid ctx l₀ l' := by
  exact (applyCommitment_preserves hl h (fun _ hx hdmn hupdate =>
    hx.updateMNState hdmn (.punishedState ctx _ _ _) hupdate) happly).2.2

theorem Unpaid.applyTx (h : Unpaid ctx l₀ l) (hl : l.Indexed hash)
    (hfresh : isRegistration tx = true → l₀.getMN (env.getHash tx) = none)
    (hturn : TxTurn hash env ctx l₀ tx l l') : Unpaid ctx l₀ l' := by
  cases hturn with
  | ordinary _ heq => exact heq ▸ h
  | register hreg hcheck hremove hadd =>
    exact h.register hcheck (hfresh hreg) hremove hadd
  | service _ _ _ hdmn _ hupdate => exact h.updateMN hl hdmn (.servState ctx _ _) hupdate
  | registrar _ _ _ hdmn hupdate => exact h.updateMN hl hdmn (.regState ctx _ _) hupdate
  | revoke _ _ _ hdmn hupdate => exact h.updateMN hl hdmn (.revState ctx _ _) hupdate
  | other _ _ _ _ hrest =>
    rcases hrest with hcommitment | rfl
    · exact h.applyCommitment hl hcommitment
    · exact h

/-! ## The payment -/

def recorded (ctx : BlockContext) (payee : Option CDeterministicMN)
    (dmn : CDeterministicMN) : CDeterministicMN :=
  if payee.map CDeterministicMN.proTxHash = some dmn.proTxHash then
    { dmn with pdmnState := paidState ctx dmn } else dmn

variable {payee : Option CDeterministicMN}

theorem getMN_recordPayee (hl : l.Indexed hash)
    (h : recordPayee hash ctx payee l = .ok l') (p : Uint256) :
    l'.getMN p = (l.getMN p).map (recorded ctx payee) := by
  have hkeep : ∀ dmn, l.getMN p = some dmn →
      payee.map proTxHash ≠ some p → recorded ctx payee dmn = dmn := by
    intro dmn hdmn hne
    rw [recorded, if_neg (by rw [hl.key hdmn]; exact hne)]
  unfold recordPayee at h
  split at h
  · cases h
    cases hp : l.getMN p with
    | none => rfl
    | some dmn => rw [map_some, hkeep dmn hp (by simp)]
  · next payee =>
    split at h
    · next hnone =>
      cases h
      cases hp : l.getMN p with
      | none => rfl
      | some dmn =>
        rw [map_some, hkeep dmn hp]
        intro heq
        rw [some.inj heq, hp] at hnone
        cases hnone
    · next dmn hdmn =>
      obtain ⟨heq, hlisted⟩ := hl.updateMN hdmn (paidState ctx dmn)
      have hget := getMN_updateMNState (heq ▸ h)
      have hkey := hl.key hdmn
      rw [hget]
      split_ifs with hp
      · rw [hp, hlisted, map_some, recorded, map_some, if_pos (congrArg some hkey.symm)]
      · cases hq : l.getMN p with
        | none => rfl
        | some other =>
          rw [map_some, hkeep other hq]
          intro heq
          exact hp ((some.inj heq).symm.trans hkey.symm)

def resetMN (ctx : BlockContext) (payee : Option CDeterministicMN)
    (dmn : CDeterministicMN) : CDeterministicMN :=
  if dmn.nType = .evo ∧ ¬(payee.map CDeterministicMN.proTxHash = some dmn.proTxHash ∧
      ctx.isMNRewardReallocation = false) then
    { dmn with pdmnState := { dmn.pdmnState with nConsecutivePayments := 0 } }
  else dmn

theorem getMN_resetTurn (hl : l.Indexed hash) (hdmn : l.getMN dmn.proTxHash = some dmn)
    (h : resetPayments hash ctx payee l dmn = .ok l') (q : Uint256) :
    l'.getMN q = if q = dmn.proTxHash then some (resetMN ctx payee dmn) else l.getMN q := by
  have hsame : resetMN ctx payee dmn = dmn → l' = l → l'.getMN q
      = if q = dmn.proTxHash then some (resetMN ctx payee dmn) else l.getMN q := by
    rintro hkeep rfl
    split_ifs with hq
    · rw [hq, hdmn, hkeep]
    · rfl
  unfold resetPayments at h
  rw [(hl.updateMN hdmn _).1] at h
  split_ifs at h with htype hpayee hzero
  · exact hsame (if_neg fun hboth => htype hboth.1) (Except.ok.inj h).symm
  · exact hsame (if_neg fun hboth => hboth.2 hpayee) (Except.ok.inj h).symm
  · refine hsame ?_ (Except.ok.inj h).symm
    unfold resetMN
    split_ifs
    · rw [← hzero]
    · rfl
  · have hreset : dmn.nType = .evo ∧ ¬(payee.map proTxHash
        = some dmn.proTxHash ∧ ctx.isMNRewardReallocation = false) :=
      ⟨not_not.mp htype, hpayee⟩
    rw [getMN_updateMNState h, resetMN, if_pos hreset]

theorem foldlM_own {f : CDeterministicMN → CDeterministicMN}
    {step : CDeterministicMNList H → CDeterministicMN → Except ListError (CDeterministicMNList H)}
    (hstep : ∀ {l l' dmn}, l.Indexed hash → l.getMN dmn.proTxHash = some dmn →
      step l dmn = .ok l' → l'.Indexed hash ∧
        ∀ q, l'.getMN q = if q = dmn.proTxHash then some (f dmn) else l.getMN q)
    {dmns : List CDeterministicMN} (hl : l.Indexed hash) (hnodup : (dmns.map proTxHash).Nodup)
    (hlisted : ∀ dmn ∈ dmns, l.getMN dmn.proTxHash = some dmn) (h : dmns.foldlM step l = .ok l') :
    (∀ dmn ∈ dmns, l'.getMN dmn.proTxHash = some (f dmn)) ∧
      ∀ q, q ∉ dmns.map proTxHash → l'.getMN q = l.getMN q := by
  induction dmns generalizing l with
  | nil =>
    cases h
    exact ⟨fun _ hdmn => absurd hdmn (List.not_mem_nil), fun _ _ => rfl⟩
  | cons dmn dmns ih =>
    obtain ⟨l₁, h₁, hrest⟩ := bind_eq_ok_iff.mp h
    rw [List.map_cons, List.nodup_cons] at hnodup
    obtain ⟨hl₁, hget⟩ := hstep hl (hlisted dmn List.mem_cons_self) h₁
    have hothers : ∀ x ∈ dmns, l₁.getMN x.proTxHash = some x := by
      intro x hx
      rw [hget, if_neg]
      · exact hlisted x (List.mem_cons_of_mem dmn hx)
      · intro heq
        exact hnodup.1 (heq ▸ List.mem_map_of_mem hx)
    obtain ⟨hin, hout⟩ := ih hl₁ hnodup.2 hothers hrest
    constructor
    · intro x hx
      rcases List.mem_cons.mp hx with rfl | hx
      · rw [hout _ hnodup.1, hget, if_pos rfl]
      · exact hin x hx
    · intro q hq
      rw [List.map_cons, List.mem_cons, not_or] at hq
      rw [hout q hq.2, hget, if_neg hq.1]

theorem getMN_resetPayments (hl : l.Indexed hash)
    (h : l.mns.foldlM (resetPayments hash ctx payee) l = .ok l') (p : Uint256) :
    l'.getMN p = (l.getMN p).map (resetMN ctx payee) := by
  have hturns := foldlM_own (f := resetMN ctx payee) (fun hl hdmn hturn => ⟨?_,
    getMN_resetTurn hl hdmn hturn⟩) hl hl.nodup_mns (fun dmn => hl.mem_mns_iff.mp) h
  · cases hp : l.getMN p with
    | none =>
      refine (hturns.2 p ?_).trans hp
      intro hmem
      obtain ⟨dmn, hdmn, rfl⟩ := List.mem_map.mp hmem
      rw [hl.mem_mns_iff.mp hdmn] at hp
      cases hp
    | some dmn =>
      have hkey := hl.key hp
      rw [← hkey]
      exact hturns.1 dmn (hl.mem_mns_iff.mpr (hkey.symm ▸ hp))
  · rcases resetPayments_turn hl hdmn hturn with rfl | hupdate
    · exact hl
    · refine (hl.quiet_updateMNState hdmn ?_ hupdate).1
      exact ⟨rfl, rfl, rfl, rfl⟩

/-! ## The whole block -/

structure Paid (ctx : BlockContext) (isPayee : Prop) (data data' : PaymentData) : Prop where
  nType : data'.nType = data.nType
  registered : data'.nRegisteredHeight = data.nRegisteredHeight
  paid : isPayee → data'.nLastPaidHeight = ctx.nHeight
  unpaid : ¬isPayee → data'.nLastPaidHeight = data.nLastPaidHeight
  inARow : data.nType = .evo → isPayee → ctx.isMNRewardReallocation = false →
    data'.nConsecutivePayments = data.nConsecutivePayments + 1
  reset : data.nType = .evo → ¬(isPayee ∧ ctx.isMNRewardReallocation = false) →
    data'.nConsecutivePayments = 0
  revived : data'.nPoSeRevivedHeight = data.nPoSeRevivedHeight ∨
    data'.nPoSeRevivedHeight = ctx.nHeight

structure Fresh (ctx : BlockContext) (data : PaymentData) : Prop where
  nType : data.nType.isValid = true
  registered : data.nRegisteredHeight = ctx.nHeight
  paid : data.nLastPaidHeight = 0
  consecutive : data.nConsecutivePayments = 0
  revived : data.nPoSeRevivedHeight = -1 ∨ data.nPoSeRevivedHeight = ctx.nHeight

structure PaysBlock (ctx : BlockContext) (l₀ l : CDeterministicMNList H) : Prop where
  height : l.nHeight = ctx.nHeight
  old : ∀ {p data data'}, l₀.payments p = some data → l.payments p = some data' →
    Paid ctx ((l₀.getMNPayee ctx).map CDeterministicMN.proTxHash = some p) data data'
  new : ∀ {p data}, l₀.payments p = none → l.payments p = some data → Fresh ctx data

theorem paid_settled (payee : Option CDeterministicMN) {a b : CDeterministicMN}
    (htype : b.nType = a.nType) (h : Untouched ctx a.pdmnState b.pdmnState) :
    Paid ctx (payee.map proTxHash = some b.proTxHash) a.paymentData
      (resetMN ctx payee (recorded ctx payee b)).paymentData := by
  obtain ⟨hregistered, hpaid, hconsecutive, hrevived⟩ := h
  unfold recorded
  by_cases hpayee : payee.map proTxHash = some b.proTxHash
  · rw [if_pos hpayee]
    unfold resetMN paidState
    constructor <;> simp only [paymentData] <;> split_ifs <;> simp_all
  · rw [if_neg hpayee]
    unfold resetMN
    constructor <;> simp only [paymentData] <;> split_ifs <;> simp_all

theorem fresh_settled (hpayee : payee.map proTxHash ≠ some b.proTxHash) (h : FreshMN ctx b) :
    Fresh ctx (resetMN ctx payee (recorded ctx payee b)).paymentData := by
  obtain ⟨htype, hregistered, hpaid, hconsecutive, hrevived⟩ := h
  unfold recorded
  rw [if_neg hpayee]
  unfold resetMN
  constructor <;> simp only [paymentData] <;> split_ifs <;> simp_all

theorem ChainSound.paysBlock {block : CBlock} {txs : List CTransaction}
    (h : ChainSound hash env txs l) (hinj : Function.Injective hash)
    (hdistinct : DistinctHashes env (block.vtx ++ txs))
    (haccepted : Accepted hash env ctx block l l') : PaysBlock ctx l l' := by
  have hblock := h.rebuildable hinj hdistinct haccepted
  have hunpaid : Unpaid ctx l (atBlock ctx l) := unpaid_of_mns fun _ => rfl
  obtain ⟨l₄, l₅, hstage₄, hunpaid₄, h₅, h₆⟩ :=
    hblock.stages (Q := fun _ _ => Unpaid ctx l) (fun _ _ hindexed hl₁ h₁ h₂ _ =>
        (hunpaid.confirmMN h.indexed hindexed rfl h₁).decreaseScores hl₁ h₂)
      (fun _ tx _ _ _ htxs hx hunpaid hturn => hunpaid.applyTx hx.indexed
        (hblock.fresh tx (by simp [htxs])) hturn)
      (fun _ _ _ _ _ hunpaid hone =>
        hunpaid.of_subset (getMN_of_spendCollateral hone)) haccepted.rebuilt
  obtain ⟨hl₅, _⟩ := quiet_recordPayee hstage₄.indexed h₅
  have hget : ∀ p, l'.getMN p = (l₄.getMN p).map fun dmn =>
      resetMN ctx (l.getMNPayee ctx) (recorded ctx (l.getMNPayee ctx) dmn) := by
    intro p
    rw [getMN_resetPayments hl₅ h₆, getMN_recordPayee hstage₄.indexed h₅, map_map]
    rfl
  refine ⟨(h.rebuilding hinj hdistinct haccepted).header.2, ?_, ?_⟩
  · intro p data data' hdata hdata'
    obtain ⟨a, ha, rfl⟩ := map_eq_some_iff.mp hdata
    obtain ⟨b', hb', rfl⟩ := map_eq_some_iff.mp hdata'
    rw [hget] at hb'
    obtain ⟨b, hb, rfl⟩ := map_eq_some_iff.mp hb'
    obtain ⟨htype, huntouched⟩ := hunpaid₄.old ha hb
    have hsettled := paid_settled (l.getMNPayee ctx) htype huntouched
    rwa [hstage₄.indexed.key hb] at hsettled
  · intro p data hnone hdata
    obtain ⟨b', hb', rfl⟩ := map_eq_some_iff.mp hdata
    rw [hget] at hb'
    obtain ⟨b, hb, rfl⟩ := map_eq_some_iff.mp hb'
    have hunlisted : l.getMN p = none := map_eq_none_iff.mp hnone
    refine fresh_settled ?_ (hunpaid₄.new hunlisted hb)
    rw [hstage₄.indexed.key hb]
    intro hpayee
    obtain ⟨payee, hsome, rfl⟩ := map_eq_some_iff.mp hpayee
    have hlisted := (h.indexed.mem_validMNs_iff.mp (mem_validMNs_of_getMNPayee hsome)).1
    rw [hunlisted] at hlisted
    cases hlisted

end CDeterministicMNList

end KorshCore

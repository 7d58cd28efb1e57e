import KorshCore.Evo.ProviderChecks
import KorshCore.Evo.QuietSteps

/-!
# The rebuild of a list, step by step

`Rebuilding hash env ctx l₀ done spent l` relates the list `l₀` of the previous
block to the list `l` after the transactions `done` were applied and the
masternodes with collaterals in `spent` were removed.
-/

namespace KorshCore

open Holdings Except List Option CDeterministicMN Function

/-! ## What transactions do, read off their payloads -/

def isRegistration (tx : CTransaction) : Bool :=
  tx.isSpecialTxVersion && tx.nType == transactionProviderRegister

def registrations (txs : List CTransaction) : List CTransaction :=
  txs.filter isRegistration

def pledge (env : ProTxEnv) (tx : CTransaction) : Option COutPoint :=
  if isRegistration tx then (env.proRegTx tx).map (collateralOf env tx) else none

def spentOutpoints (txs : List CTransaction) : List COutPoint :=
  (txs.flatMap CTransaction.vin).map CTxIn.prevout

/-- The operator key of the masternode `p` after one transaction. -/
def keyAfterTx (env : ProTxEnv) (p : Uint256) (key : Option CBLSLazyPublicKey)
    (tx : CTransaction) : Option CBLSLazyPublicKey :=
  if !tx.isSpecialTxVersion then key
  else if tx.nType = transactionProviderUpdateRegistrar then
    match env.proUpRegTx tx with
    | none => key
    | some ptx =>
      if ptx.proTxHash = p ∧ sameKey key ptx.pubKeyOperator = false then ptx.pubKeyOperator
      else key
  else if tx.nType = transactionProviderUpdateRevoke then
    match env.proUpRevTx tx with
    | none => key
    | some ptx => if ptx.proTxHash = p then none else key
  else key

/-- The operator key of the masternode `p` after transactions. -/
def keyAfter (env : ProTxEnv) (p : Uint256) (key : Option CBLSLazyPublicKey)
    (txs : List CTransaction) : Option CBLSLazyPublicKey :=
  txs.foldl (keyAfterTx env p) key

theorem keyAfter_concat (env : ProTxEnv) (p : Uint256)
    (key : Option CBLSLazyPublicKey) (txs : List CTransaction) (tx : CTransaction) :
    keyAfter env p key (txs ++ [tx]) = keyAfterTx env p (keyAfter env p key txs) tx :=
  foldl_append

theorem registrations_concat_of_not {tx : CTransaction}
    (h : isRegistration tx = false) (txs : List CTransaction) :
    registrations (txs ++ [tx]) = registrations txs := by
  unfold registrations
  rw [filter_append, filter_cons_of_neg (by simp [h]), filter_nil, append_nil]

theorem registrations_concat {tx : CTransaction} (h : isRegistration tx = true)
    (txs : List CTransaction) : registrations (txs ++ [tx]) = registrations txs ++ [tx] := by
  unfold registrations
  rw [filter_append, filter_cons_of_pos h, filter_nil]

section Accepted

variable {H : Type} [DecidableEq H] {hash : UniqueProperty → H} {p : Uint256}
  {map map' : PropertyMap H}

theorem isNull_of_addUniqueProperty {v : UniqueProperty}
    (h : addUniqueProperty hash p v map = some map') : v.isNull = false := by
  unfold addUniqueProperty at h
  cases hv : v.isNull with
  | false => rfl
  | true => rw [hv] at h; cases h

theorem listable_of_addEntries {fail : PropertyKind → ListError} :
    ∀ {entries : List NetInfoEntry} {map map' : PropertyMap H},
    entries.foldlM (entryStep (addUniqueProperty hash p) fail) map = .ok map' →
    ∀ entry ∈ entries, entry.Listable := by
  intro entries
  induction entries with
  | nil => intro _ _ _ entry h; cases h
  | cons e entries ih =>
    intro map map' h
    obtain ⟨map₁, h₁, hrest⟩ := bind_eq_ok_iff.mp h
    have hhead : e.Listable := by
      unfold entryStep at h₁
      cases hv : e.property with
      | none => rw [hv] at h₁; cases h₁
      | some v =>
        rw [hv] at h₁
        exact ⟨v, hv, isNull_of_addUniqueProperty (ofOption_eq_ok_iff.mp h₁)⟩
    intro entry hentry
    rcases mem_cons.mp hentry with rfl | hentry
    · exact hhead
    · exact ih hrest entry hentry

theorem listable_of_addProperties {dmn : CDeterministicMN}
    (h : addProperties hash dmn map = .ok map') : dmn.Listable := by
  obtain ⟨_, hcollateral, _, hentries, _, howner, _⟩ := bind₃_eq_ok_iff.mp h
  exact ⟨isNull_of_addUniqueProperty (ofOption_eq_ok_iff.mp hcollateral),
    listable_of_addEntries hentries, UniqueProperty.isNull_id160.mp
      (isNull_of_addUniqueProperty (ofOption_eq_ok_iff.mp howner))⟩

theorem listable_of_updateProperties {dmn : CDeterministicMN}
    {state : CDeterministicMNState} (hold : dmn.pdmnState.netInfo.Listable)
    (h : updateProperties hash dmn state map = .ok map') : state.netInfo.Listable := by
  obtain ⟨_, hinfo, _⟩ := bind_eq_ok_iff.mp h
  unfold updateNetInfo at hinfo
  split_ifs at hinfo with hsame
  · exact hsame ▸ hold
  · obtain ⟨_, _, hadd⟩ := bind_eq_ok_iff.mp hinfo
    exact listable_of_addEntries hadd

end Accepted

/-! ## The relation -/

namespace CDeterministicMNList

variable {H : Type} [DecidableEq H]

structure KeptMN (env : ProTxEnv) (done : List CTransaction) (p : Uint256)
    (a b : CDeterministicMN) : Prop where
  same : SameMN a b
  owner : b.pdmnState.keyIDOwner = a.pdmnState.keyIDOwner
  operator : b.pdmnState.pubKeyOperator = keyAfter env p a.pdmnState.pubKeyOperator done

structure NewMN (env : ProTxEnv) (count : Nat) (txs : List CTransaction)
    (i : Nat) (p : Uint256) (b : CDeterministicMN) : Prop where
  registered : ∃ tx ptx, txs[i]? = some tx ∧ env.proRegTx tx = some ptx ∧
    p = env.getHash tx ∧ b.collateralOutpoint = collateralOf env tx ptx ∧
    b.pdmnState.keyIDOwner = ptx.keyIDOwner
  internalId : b.internalId = (count + i) % 2 ^ 32

/-- The last registration is listed unless its collateral is spent. -/
def LastListed (env : ProTxEnv) (count : Nat) (txs : List CTransaction)
    (spent : List COutPoint) (l : CDeterministicMNList H) : Prop :=
  ∀ tx o, txs.getLast? = some tx → pledge env tx = some o →
    o ∈ spent ∧ l.getMN (env.getHash tx) = none ∨
    o ∉ spent ∧ ∃ b, l.getMN (env.getHash tx) = some b ∧ b.collateralOutpoint = o ∧
      b.internalId = (count + (txs.length - 1)) % 2 ^ 32

structure Rebuilding (hash : UniqueProperty → H) (env : ProTxEnv)
    (ctx : BlockContext) (l₀ : CDeterministicMNList H)
    (done : List CTransaction) (spent : List COutPoint) (l : CDeterministicMNList H) : Prop where
  header : l.blockHash = 0 ∧ l.nHeight = ctx.nHeight
  indexed : l.Indexed hash
  listable : ∀ {p b}, l.getMN p = some b → b.Listable
  old : ∀ {p a b}, l₀.getMN p = some a → l.getMN p = some b → KeptMN env done p a b
  new : ∀ {p b}, l₀.getMN p = none → l.getMN p = some b →
    ∃ i, NewMN env l₀.nTotalRegisteredCount (registrations done) i p b
  apart : ∀ {p q a b}, l.getMN p = some b → l₀.getMN q = some a →
    (l.getMN q).isSome → q ≠ p → ∀ v ∈ b.properties, v ∉ a.properties
  stays : ∀ {p a}, l₀.getMN p = some a → ((l.getMN p).isSome = true ↔
    (∀ tx ∈ done, pledge env tx ≠ some a.collateralOutpoint) ∧ a.collateralOutpoint ∉ spent)
  last : LastListed env l₀.nTotalRegisteredCount (registrations done) spent l
  count : l.nTotalRegisteredCount
    = (l₀.nTotalRegisteredCount + (registrations done).length) % 2 ^ 32

variable {hash : UniqueProperty → H} {env : ProTxEnv} {ctx : BlockContext}
  {l₀ l l₁ l' : CDeterministicMNList H} {done : List CTransaction}
  {spent : List COutPoint} {tx : CTransaction}

theorem rebuilding_start (hl : l₀.Indexed hash) (hinj : Injective hash)
    (hlistable : ∀ {p b}, l₀.getMN p = some b → b.Listable)
    (hcount : l₀.nTotalRegisteredCount < 2 ^ 32) :
    Rebuilding hash env ctx l₀ [] [] { l₀ with blockHash := 0, nHeight := ctx.nHeight } where
  header := ⟨rfl, rfl⟩
  indexed := hl.setHeader 0 ctx.nHeight
  listable h := hlistable h
  old := by
    intro p a b ha hb
    cases ha.symm.trans hb
    exact ⟨.refl a, rfl, rfl⟩
  new := by
    intro p b hnone hb
    rw [getMN_setHeader, hnone] at hb
    cases hb
  apart := by
    intro p q a b hb ha _ hne v hv hv'
    have hkey := hl.key hb
    exact hne (hl.owner_unique hinj ha hv' ⟨hkey.symm ▸ hb, hv⟩ |>.symm.trans hkey)
  stays := by
    intro p a ha
    rw [getMN_setHeader, ha]
    simp
  last := by
    intro tx o htx
    cases htx
  count := by
    show l₀.nTotalRegisteredCount = (l₀.nTotalRegisteredCount + 0) % 2 ^ 32
    rw [Nat.add_zero, Nat.mod_eq_of_lt hcount]

/-! ## Quiet steps -/

theorem pledge_of_not_isRegistration (h : isRegistration tx = false) : pledge env tx = none := by
  rw [pledge, h]
  rfl

/-- The properties of an updated masternode were its own, or nobody else had
them in `l₀`. -/
def OwnProperties (l₀ : CDeterministicMNList H) (dmn dmn' : CDeterministicMN) : Prop :=
  ∀ v ∈ dmn'.properties, v ∈ dmn.properties ∨
    ∀ other, l₀.Owns other v → other.proTxHash = dmn.proTxHash

theorem removeReplaced_effect (hl : l.Indexed hash) (hinj : Injective hash)
    (hlistable : ∀ {p b}, l.getMN p = some b → b.Listable) {o : COutPoint}
    (h : removeReplaced hash l o = .ok l') : l'.Indexed hash ∧ SameHeader l l' ∧
    l'.nTotalRegisteredCount = l.nTotalRegisteredCount ∧
    ∀ q, l'.getMN q = (l.getMN q).filter fun dmn => dmn.collateralOutpoint ≠ o := by
  -- who has the collateral is found by it
  have hfind : ∀ q b, l.getMN q = some b → b.collateralOutpoint = o →
      l.getMNByCollateral hash o = some b := by
    intro q b hb ho
    refine (hl.getUniquePropertyMN_eq_some_iff hinj).mpr ⟨(hl.key hb).symm ▸ hb, ?_⟩
    rw [← ho]
    exact (hlistable hb).outpoint_mem
  unfold removeReplaced at h
  split at h
  · rename_i hnone
    cases h
    refine ⟨hl, .refl l, rfl, fun q => ?_⟩
    cases hb : l.getMN q with
    | none => rfl
    | some b =>
      have hne : b.collateralOutpoint ≠ o := by
        intro ho
        rw [hfind q b hb ho] at hnone
        cases hnone
      rw [filter_some, if_pos (by simp [hne])]
  · rename_i dmn hdmn
    obtain ⟨_, _, _, _, _, hcount, hblock, hheight⟩ := removeMN_eq_ok h
    obtain ⟨hlisted, hmem⟩ := (hl.getUniquePropertyMN_eq_some_iff hinj).mp hdmn
    have hcoll := (outpoint_mem_properties.mp hmem).2
    refine ⟨hl.removeMN h, ⟨hblock, hheight⟩, hcount, fun q => ?_⟩
    rw [getMN_removeMN h]
    split_ifs with hq
    · rw [hq, hlisted, filter_some, if_neg (by simp [hcoll])]
    · cases hb : l.getMN q with
      | none => rfl
      | some b =>
        have hne : b.collateralOutpoint ≠ o := by
          intro ho
          have hsame := (hfind q b hb ho).symm.trans hdmn
          cases hsame
          exact hq (hl.key hb).symm
        rw [filter_some, if_pos (by simp [hne])]

/-- A masternode found by a collateral has it, so the comparison in the loop
over the inputs never fails. -/
theorem spendCollateral_eq (hl : l.Indexed hash) (hinj : Injective hash) (vin : CTxIn) :
    spendCollateral hash l vin = removeReplaced hash l vin.prevout := by
  unfold spendCollateral removeReplaced
  cases hdmn : l.getMNByCollateral hash vin.prevout with
  | none => rfl
  | some dmn =>
    have hmem := ((hl.getUniquePropertyMN_eq_some_iff hinj).mp hdmn).2
    exact if_pos (outpoint_mem_properties.mp hmem).2

namespace Rebuilding

variable (h : Rebuilding hash env ctx l₀ done spent l)
include h

theorem quiet (hl' : l'.Indexed hash) (hquiet : Quiet l l') :
    Rebuilding hash env ctx l₀ done spent l' where
  header := ⟨hquiet.header.blockHash.trans h.header.1, hquiet.header.nHeight.trans h.header.2⟩
  indexed := hl'
  listable := by
    intro p b hb
    obtain ⟨b₀, hb₀, hmn⟩ := hquiet.back hb
    exact hmn.listable (h.listable hb₀)
  old := by
    intro p a b ha hb
    obtain ⟨b₀, hb₀, hmn⟩ := hquiet.back hb
    have hkept := h.old ha hb₀
    exact ⟨hkept.same.trans hmn.same, hmn.state.owner.trans hkept.owner,
      hmn.state.operator.trans hkept.operator⟩
  new := by
    intro p b hnone hb
    obtain ⟨b₀, hb₀, hmn⟩ := hquiet.back hb
    obtain ⟨i, ⟨tx, ptx, htx, hptx, hp, hcollateral, howner⟩, hid⟩ := h.new hnone hb₀
    exact ⟨i, ⟨tx, ptx, htx, hptx, hp, hmn.same.collateralOutpoint.trans hcollateral,
      hmn.state.owner.trans howner⟩, hmn.same.internalId.trans hid⟩
  apart := by
    intro p q a b hb ha hq hne v hv
    obtain ⟨b₀, hb₀, hmn⟩ := hquiet.back hb
    rw [hquiet.isSome] at hq
    rw [hmn.properties] at hv
    exact h.apart hb₀ ha hq hne v hv
  stays := by
    intro p a ha
    rw [hquiet.isSome]
    exact h.stays ha
  last := by
    intro tx o htx ho
    rcases h.last tx o htx ho with ⟨hspent, hnone⟩ | ⟨hspent, b, hb, hcoll, hid⟩
    · refine .inl ⟨hspent, not_isSome_iff_eq_none.mp ?_⟩
      rw [hquiet.isSome, hnone]
      simp
    · obtain ⟨b', hb', hmn⟩ := hquiet.forth hb
      exact .inr ⟨hspent, b', hb', hmn.same.collateralOutpoint.trans hcoll,
        hmn.same.internalId.trans hid⟩
  count := hquiet.count.trans h.count

theorem skip (hreg : isRegistration tx = false) (hkey : ∀ p key, keyAfterTx env p key tx = key) :
    Rebuilding hash env ctx l₀ (done ++ [tx]) spent l where
  header := h.header
  indexed := h.indexed
  listable := h.listable
  old := by
    intro p a b ha hb
    have hkept := h.old ha hb
    refine ⟨hkept.same, hkept.owner, ?_⟩
    rw [keyAfter_concat, hkey]
    exact hkept.operator
  new := by
    rw [registrations_concat_of_not hreg]
    exact h.new
  apart := h.apart
  stays := by
    intro p a ha
    rw [h.stays ha, forall_mem_append, forall_mem_singleton, pledge_of_not_isRegistration hreg]
    simp
  last := by
    rw [registrations_concat_of_not hreg]
    exact h.last
  count := by
    rw [registrations_concat_of_not hreg]
    exact h.count

/-! ## Updates -/

theorem update (hl₀ : l₀.Indexed hash) {p : Uint256} {a dmn : CDeterministicMN}
    (ha : l₀.getMN p = some a) (hdmn : l.getMN p = some dmn)
    (hreg : isRegistration tx = false) {state : CDeterministicMNState}
    (howner : state.keyIDOwner = dmn.pdmnState.keyIDOwner)
    (hscheme : SameScheme dmn.pdmnState state)
    (hkey : state.pubKeyOperator = keyAfterTx env p dmn.pdmnState.pubKeyOperator tx)
    (hothers : ∀ q key, q ≠ p → keyAfterTx env q key tx = key)
    (hown : OwnProperties l₀ dmn { dmn with pdmnState := state })
    (hupdate : l.updateMN hash p state = .ok l') :
    Rebuilding hash env ctx l₀ (done ++ [tx]) spent l' := by
  obtain ⟨heq, hlisted⟩ := h.indexed.updateMN hdmn state
  have hp : dmn.proTxHash = p := h.indexed.key hdmn
  subst hp
  rw [heq] at hupdate
  have hget := getMN_updateMNState hupdate
  obtain ⟨hproperties, _, _, hcount, hblock, hheight⟩ := updateMNState_eq_ok hupdate
  have hsome : ∀ q, (l'.getMN q).isSome = (l.getMN q).isSome := by
    intro q
    rw [hget]
    split_ifs with hq
    · rw [hq, hdmn]
      rfl
    · rfl
  refine ⟨⟨hblock.trans h.header.1, hheight.trans h.header.2⟩,
    h.indexed.updateMNState hlisted hscheme hupdate, ?_, ?_, ?_, ?_, ?_, ?_, ?_⟩
  · intro q b hb
    rw [hget] at hb
    split_ifs at hb
    · cases hb
      have hl := h.listable hdmn
      exact ⟨hl.collateral, listable_of_updateProperties hl.netInfo hproperties, howner ▸ hl.owner⟩
    · exact h.listable hb
  · intro q a' b ha' hb
    rw [hget] at hb
    split_ifs at hb with hq
    · subst hq
      cases hb
      have hkept := h.old ha' hdmn
      refine ⟨hkept.same.trans rfl, howner.trans hkept.owner, ?_⟩
      rw [keyAfter_concat, ← hkept.operator]
      exact hkey
    · have hkept := h.old ha' hb
      refine ⟨hkept.same, hkept.owner, ?_⟩
      rw [keyAfter_concat, hothers q _ hq]
      exact hkept.operator
  · intro q b hnone hb
    rw [hget] at hb
    rw [registrations_concat_of_not hreg]
    split_ifs at hb with hq
    · rw [hq, ha] at hnone
      cases hnone
    · exact h.new hnone hb
  · intro q r a' b hb ha' hr hne v hv hv'
    rw [hsome] at hr
    rw [hget] at hb
    split_ifs at hb with hq
    · subst hq
      cases hb
      rcases hown v hv with hold | hfree
      · exact h.apart hdmn ha' hr hne v hold hv'
      · have hkey' := hl₀.key ha'
        exact hne (hkey'.symm.trans (hfree a' ⟨hkey'.symm ▸ ha', hv'⟩))
    · exact h.apart hb ha' hr hne v hv hv'
  · intro q a' ha'
    rw [hsome, h.stays ha', forall_mem_append, forall_mem_singleton,
      pledge_of_not_isRegistration hreg]
    simp
  · rw [registrations_concat_of_not hreg]
    intro tx' o htx ho
    rcases h.last tx' o htx ho with ⟨hspent, hnone⟩ | ⟨hspent, b, hb, hcoll, hid⟩
    · refine .inl ⟨hspent, not_isSome_iff_eq_none.mp ?_⟩
      rw [hsome, hnone]
      simp
    · refine .inr ⟨hspent, ?_⟩
      rw [hget]
      split_ifs with hq
      · rw [hq, hdmn] at hb
        cases hb
        exact ⟨_, rfl, hcoll, hid⟩
      · exact ⟨b, hb, hcoll, hid⟩
  · rw [registrations_concat_of_not hreg, hcount]
    exact h.count

theorem spend (hinj : Injective hash) {vin : CTxIn} (hspend : spendCollateral hash l vin = .ok l') :
    Rebuilding hash env ctx l₀ done (spent ++ [vin.prevout]) l' := by
  rw [spendCollateral_eq h.indexed hinj] at hspend
  obtain ⟨hl', hheader, hcount, hget⟩ := removeReplaced_effect h.indexed hinj h.listable hspend
  have hback : ∀ {q b}, l'.getMN q = some b →
      l.getMN q = some b ∧ b.collateralOutpoint ≠ vin.prevout := by
    intro q b hb
    rw [hget, filter_eq_some_iff] at hb
    exact ⟨hb.1, of_decide_eq_true hb.2⟩
  refine ⟨⟨hheader.blockHash.trans h.header.1,
    hheader.nHeight.trans h.header.2⟩, hl', fun hb => h.listable (hback hb).1,
    fun ha hb => h.old ha (hback hb).1, fun hnone hb => h.new hnone (hback hb).1,
    ?_, ?_, ?_, hcount.trans h.count⟩
  · intro p q a b hb ha hq
    obtain ⟨c, hc⟩ := isSome_iff_exists.mp hq
    exact h.apart (hback hb).1 ha (by rw [(hback hc).1]; rfl)
  · intro p a ha
    rw [mem_append, not_or, ← and_assoc, ← h.stays ha, mem_singleton]
    constructor
    · intro hp
      obtain ⟨b, hb⟩ := isSome_iff_exists.mp hp
      obtain ⟨hb, hne⟩ := hback hb
      rw [hb, ← (h.old ha hb).same.collateralOutpoint]
      exact ⟨rfl, hne⟩
    · rintro ⟨hp, hne⟩
      obtain ⟨b, hb⟩ := isSome_iff_exists.mp hp
      rw [← (h.old ha hb).same.collateralOutpoint] at hne
      rw [hget, hb, filter_some, if_pos (by simp [hne])]
      rfl
  · intro tx o htx ho
    rcases h.last tx o htx ho with ⟨hspent, hnone⟩ | ⟨hspent, b, hb, hcoll, hid⟩
    · refine .inl ⟨mem_append_left _ hspent, ?_⟩
      rw [hget, hnone]
      rfl
    · by_cases heq : o = vin.prevout
      · refine .inl ⟨mem_append_right _ (mem_singleton.mpr heq), ?_⟩
        rw [hget, hb, filter_some, if_neg (by simp [hcoll, heq])]
      · refine .inr ⟨?_, b, ?_, hcoll, hid⟩
        · rw [mem_append, mem_singleton, not_or]
          exact ⟨hspent, heq⟩
        · rw [hget, hb, filter_some, if_pos (by simp [hcoll, heq])]

end Rebuilding

end CDeterministicMNList

end KorshCore

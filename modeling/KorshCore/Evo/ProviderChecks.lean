import KorshCore.Evo.ProviderTx
import KorshCore.Evo.MNListInvariant

/-!
# What the checks of provider transactions guarantee

A list that satisfies `Indexed` answers questions about properties as
expected: `Owns l dmn v` says that the listed masternode `dmn` has the
property `v`, and the look-ups decide it.

* The look-ups. `hasUniqueProperty_iff` and `getUniquePropertyMN_eq_some_iff` read
  them as `Owns`, and `owner_unique` says that a property has one owner.
* The checks. `ProRegChecked`, `ProUpServChecked`, `ProUpRegChecked` and
  `ProUpRevChecked` are what the four checks have tested when they succeed. The
  steps of a block are proved from these and not from the checks.
-/

namespace KorshCore

open Holdings Except UniqueProperty List Function

/-! ## The properties of a masternode -/

variable {v : UniqueProperty}

theorem UniqueProperty.mem_optional {w : UniqueProperty} :
    v ∈ w.optional ↔ v.isNull = false ∧ v = w := by
  unfold optional
  cases h : w.isNull with
  | true =>
    simp only [if_true, not_mem_nil, false_iff, not_and]
    rintro hv rfl
    rw [h] at hv
    cases hv
  | false =>
    simp only [Bool.false_eq_true, if_false, mem_singleton]
    exact ⟨fun hv => ⟨hv ▸ h, hv⟩, And.right⟩

theorem mem_entryProperties {entries : List NetInfoEntry} : v ∈ entryProperties entries ↔
      v.isNull = false ∧ ∃ entry ∈ entries, entry.property = some v := by
  unfold entryProperties
  rw [mem_flatMap]
  constructor
  · rintro ⟨w, hw, hv⟩
    obtain ⟨hnull, rfl⟩ := mem_optional.mp hv
    exact ⟨hnull, mem_filterMap.mp hw⟩
  · rintro ⟨hnull, hentry⟩
    exact ⟨v, mem_filterMap.mpr hentry, mem_optional.mpr ⟨hnull, rfl⟩⟩

namespace CDeterministicMN

variable {dmn : CDeterministicMN}

theorem mem_properties : v ∈ dmn.properties ↔ v.isNull = false ∧
      (v = .outpoint dmn.collateralOutpoint ∨
        (∃ entry ∈ dmn.pdmnState.netInfo.getEntries, entry.property = some v) ∨
        v = .id160 dmn.pdmnState.keyIDOwner ∨ v = .operatorKey dmn.pdmnState.pubKeyOperator ∨
        dmn.nType = .evo ∧ v = .id160 dmn.pdmnState.platformNodeID) := by
  have hplatform : v ∈ (if dmn.nType = .evo then
      (id160 dmn.pdmnState.platformNodeID).optional else []) ↔
      v.isNull = false ∧ (dmn.nType = .evo ∧ v = .id160 dmn.pdmnState.platformNodeID) := by
    split_ifs with hevo
    · rw [mem_optional]
      simp only [hevo, true_and]
    · simp only [not_mem_nil, hevo, false_and, and_false]
  unfold properties CDeterministicMNState.properties
  simp only [mem_append, mem_optional, mem_entryProperties, hplatform, ← and_or_left, or_assoc]

theorem outpoint_mem_properties {o : COutPoint} :
    outpoint o ∈ dmn.properties ↔ o.isNull = false ∧ dmn.collateralOutpoint = o := by
  rw [mem_properties]
  refine and_congr_right fun _ => ⟨?_, fun h => .inl (h ▸ rfl)⟩
  rintro (h | ⟨entry, _, h⟩ | h | h | ⟨_, h⟩)
  · exact (outpoint.inj h).symm
  · cases entry <;> cases h
  · cases h
  · cases h
  · cases h

theorem Listable.outpoint_mem (h : dmn.Listable) :
    .outpoint dmn.collateralOutpoint ∈ dmn.properties :=
  outpoint_mem_properties.mpr ⟨h.collateral, rfl⟩

theorem Listable.owner_mem (h : dmn.Listable) : .id160 dmn.pdmnState.keyIDOwner ∈ dmn.properties :=
  mem_properties.mpr ⟨isNull_id160.mpr h.owner, .inr (.inr (.inl rfl))⟩

end CDeterministicMN

/-! ## Owners -/

namespace CDeterministicMNList

variable {H : Type} {hash : UniqueProperty → H} {l : CDeterministicMNList H}

def Owns (l : CDeterministicMNList H) (dmn : CDeterministicMN) (v : UniqueProperty) : Prop :=
  l.getMN dmn.proTxHash = some dmn ∧ v ∈ dmn.properties

theorem mem_held_iff (hinj : Injective hash) {p : Uint256} : hash v ∈ l.held hash p ↔
      ∃ dmn, l.getMN p = some dmn ∧ v ∈ dmn.properties := by
  cases hp : l.getMN p with
  | none =>
    rw [held_of_getMN_eq_none hp]
    simp
  | some dmn =>
    rw [held_of_getMN hp, bag, Multiset.mem_coe, mem_map_of_injective hinj]
    simp

variable [DecidableEq H]

namespace Indexed

variable (hl : l.Indexed hash) (hinj : Injective hash)

include hl hinj

variable {v : UniqueProperty} {dmn : CDeterministicMN}

theorem getUniquePropertyMN_eq_some_iff :
    l.getUniquePropertyMN hash v = some dmn ↔ l.Owns dmn v := by
  constructor
  · intro h
    obtain ⟨⟨p, n⟩, hlookup, hdmn⟩ := Option.bind_eq_some_iff.mp h
    obtain ⟨dmn', hp, hv⟩ := (mem_held_iff hinj).mp (hl.exact.mem_of_lookup hlookup)
    cases hdmn.symm.trans hp
    exact ⟨(hl.key hdmn).symm ▸ hdmn, hv⟩
  · rintro ⟨hp, hv⟩
    have hmem : hash v ∈ l.held hash dmn.proTxHash := (mem_held_iff hinj).mpr ⟨dmn, hp, hv⟩
    exact Option.bind_eq_some_iff.mpr ⟨_, hl.exact.lookup_of_mem hmem, hp⟩

theorem hasUniqueProperty_iff : l.hasUniqueProperty hash v = true ↔ ∃ dmn, l.Owns dmn v := by
  rw [hasUniqueProperty, Option.isSome_iff_exists]
  constructor
  · rintro ⟨⟨p, n⟩, hlookup⟩
    obtain ⟨dmn, hp, hv⟩ := (mem_held_iff hinj).mp (hl.exact.mem_of_lookup hlookup)
    exact ⟨dmn, (hl.key hp).symm ▸ hp, hv⟩
  · rintro ⟨dmn, hp, hv⟩
    exact ⟨_, hl.exact.lookup_of_mem ((mem_held_iff hinj).mpr ⟨dmn, hp, hv⟩)⟩

theorem not_owns (h : l.hasUniqueProperty hash v = false)
    (dmn : CDeterministicMN) : ¬ l.Owns dmn v := by
  intro howns
  rw [(hl.hasUniqueProperty_iff hinj).mpr ⟨dmn, howns⟩] at h
  cases h

variable {allowed : CDeterministicMN → Bool}

theorem allowed_of_owns (h : (!(l.hasUniqueProperty hash v && !(l.getUniquePropertyMN hash v).any
      allowed)) = true) (howns : l.Owns dmn v) : allowed dmn = true := by
  rw [(hl.hasUniqueProperty_iff hinj).mpr ⟨dmn, howns⟩,
    (hl.getUniquePropertyMN_eq_some_iff hinj).mpr howns] at h
  simpa using h

theorem owner_unique {p : Uint256} {dmn' : CDeterministicMN}
    (hp : l.getMN p = some dmn) (hv : v ∈ dmn.properties) (h : l.Owns dmn' v) :
    dmn'.proTxHash = p :=
  hl.exact.holder_unique ((mem_held_iff hinj).mpr ⟨dmn', h.1, h.2⟩)
    ((mem_held_iff hinj).mpr ⟨dmn, hp, hv⟩)

theorem of_checkEntryOwners
    {netInfo : NetInfo} {u : Unit} (h : checkEntryOwners hash l allowed netInfo = .ok u) :
    ∀ entry ∈ netInfo.getEntries, ∀ v, entry.property = some v →
      ∀ dmn, l.Owns dmn v → allowed dmn = true := by
  intro entry hentry v hv dmn howns
  have hone := forM_eq_ok h entry hentry
  unfold checkEntryOwner at hone
  rw [hv] at hone
  exact hl.allowed_of_owns hinj (require_eq_ok_iff.mp hone) howns

end Indexed

end CDeterministicMNList

/-! ## The checks -/

section Checks

variable {H : Type} [DecidableEq H] {hash : UniqueProperty → H} {env : ProTxEnv}
  {ctx : BlockContext} {l : CDeterministicMNList H} {tx : CTransaction}

structure ProRegChecked (env : ProTxEnv) (ctx : BlockContext)
    (l : CDeterministicMNList H) (tx : CTransaction) (ptx : CProRegTx) : Prop where
  payload : env.proRegTx tx = some ptx
  trivial : ptx.isTriviallyValid env ctx = .ok ()
  entries : ∀ entry ∈ ptx.netInfo.getEntries, ∀ v, entry.property = some v →
    ∀ dmn, l.Owns dmn v → dmn.collateralOutpoint = collateralOf env tx ptx
  owner : ∀ dmn, ¬ l.Owns dmn (.id160 ptx.keyIDOwner)
  operator : ∀ dmn, ¬ l.Owns dmn (.operatorKey ptx.pubKeyOperator)
  platform : ptx.nType = .evo → ∀ dmn, ¬ l.Owns dmn (.id160 ptx.platformNodeID)

structure ProUpServChecked (env : ProTxEnv) (ctx : BlockContext)
    (l : CDeterministicMNList H) (tx : CTransaction) (ptx : CProUpServTx)
    (dmn : CDeterministicMN) : Prop where
  payload : env.proUpServTx tx = some ptx
  trivial : ptx.isTriviallyValid env ctx = .ok ()
  listed : l.getMN ptx.proTxHash = some dmn
  /-- The addresses are free or its own. -/
  entries : ∀ entry ∈ ptx.netInfo.getEntries, ∀ v, entry.property = some v →
    ∀ dmn, l.Owns dmn v → dmn.proTxHash = ptx.proTxHash
  platform : ptx.nType = .evo → ∀ dmn, l.Owns dmn (.id160 ptx.platformNodeID) →
    dmn.proTxHash = ptx.proTxHash
  payout : ptx.scriptOperatorPayout = [] ∨ isPayToPublicKeyHash ptx.scriptOperatorPayout = true ∨
    isPayToScriptHash ptx.scriptOperatorPayout = true

structure ProUpRegChecked (env : ProTxEnv) (ctx : BlockContext)
    (l : CDeterministicMNList H) (tx : CTransaction) (ptx : CProUpRegTx)
    (dmn : CDeterministicMN) : Prop where
  payload : env.proUpRegTx tx = some ptx
  trivial : ptx.isTriviallyValid ctx = .ok ()
  listed : l.getMN ptx.proTxHash = some dmn
  /-- The operator key is free or its own. -/
  operator : ∀ dmn, l.Owns dmn (.operatorKey ptx.pubKeyOperator) → dmn.proTxHash = ptx.proTxHash

structure ProUpRevChecked (env : ProTxEnv) (ctx : BlockContext)
    (l : CDeterministicMNList H) (tx : CTransaction) (ptx : CProUpRevTx)
    (dmn : CDeterministicMN) : Prop where
  payload : env.proUpRevTx tx = some ptx
  trivial : ptx.isTriviallyValid ctx = .ok ()
  listed : l.getMN ptx.proTxHash = some dmn

section

variable (hl : l.Indexed hash) (hinj : Injective hash) {u : Unit}

include hl hinj

theorem checkProRegTx_eq_ok (h : checkProRegTx hash env ctx l tx = .ok u) :
    ∃ ptx, ProRegChecked env ctx l tx ptx := by
  simp only [checkProRegTx, bind_eq_ok_iff, require_eq_ok_iff, ofOption_eq_ok_iff,
    exists_const] at h
  obtain ⟨_, ptx, hpayload, _, htrivial, _, _, _, _, _, _, _, _, _, hentries,
    hkeys, hplatform, _⟩ := h
  rw [Bool.not_eq_true', Bool.or_eq_false_iff] at hkeys
  refine ⟨ptx, hpayload, htrivial, ?_, hl.not_owns hinj hkeys.1, hl.not_owns hinj hkeys.2,
    fun hevo => ?_⟩
  · intro entry hentry v hv dmn howns
    exact beq_iff_eq.mp (hl.of_checkEntryOwners hinj hentries entry hentry v hv dmn howns)
  · rw [hevo] at hplatform
    exact hl.not_owns hinj (by simpa using hplatform)

theorem checkProUpServTx_eq_ok (h : checkProUpServTx hash env ctx l tx = .ok u) :
    ∃ ptx dmn, ProUpServChecked env ctx l tx ptx dmn := by
  simp only [checkProUpServTx, bind_eq_ok_iff, require_eq_ok_iff, ofOption_eq_ok_iff,
    exists_const] at h
  obtain ⟨_, ptx, hpayload, _, htrivial, _, _, _, _, dmn, hlisted, _, _,
    _, hentries, hplatform, hpayout, _⟩ := h
  refine ⟨ptx, dmn, hpayload, htrivial, hlisted, ?_, fun hevo dmn howns => ?_, ?_⟩
  · intro entry hentry v hv dmn howns
    exact beq_iff_eq.mp (hl.of_checkEntryOwners hinj hentries entry hentry v hv dmn howns)
  · rw [hevo] at hplatform
    exact beq_iff_eq.mp (hl.allowed_of_owns hinj hplatform howns)
  · rw [Bool.or_eq_true, Bool.and_eq_true, Bool.or_eq_true, List.isEmpty_iff] at hpayout
    exact hpayout.imp_right And.right

theorem checkProUpRegTx_eq_ok (h : checkProUpRegTx hash env ctx l tx = .ok u) :
    ∃ ptx dmn, ProUpRegChecked env ctx l tx ptx dmn := by
  simp only [checkProUpRegTx, bind_eq_ok_iff, require_eq_ok_iff, ofOption_eq_ok_iff,
    exists_const] at h
  obtain ⟨_, ptx, hpayload, _, htrivial, _, _, dmn, hlisted, _, _, _, _,
    _, _, _, _, _, hkey, _⟩ := h
  refine ⟨ptx, dmn, hpayload, htrivial, hlisted, fun dmn howns => ?_⟩
  exact beq_iff_eq.mp (hl.allowed_of_owns hinj hkey howns)

end

omit [DecidableEq H] in
theorem checkProUpRevTx_eq_ok {u : Unit} (h : checkProUpRevTx env ctx l tx = .ok u) :
    ∃ ptx dmn, ProUpRevChecked env ctx l tx ptx dmn := by
  simp only [checkProUpRevTx, bind_eq_ok_iff, ofOption_eq_ok_iff] at h
  obtain ⟨_, _, ptx, hpayload, _, htrivial, dmn, hlisted, _⟩ := h
  exact ⟨ptx, dmn, hpayload, htrivial, hlisted⟩

end Checks

end KorshCore

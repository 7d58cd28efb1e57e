import KorshCore.Evo.BuildDiff
import KorshCore.Evo.ProviderChecks

/-!
# Applying the difference of two lists

`Follows l l'` is what a step from `l` to `l'` must satisfy so that its
difference can be applied to `l` in any order.
-/

namespace KorshCore

open Holdings Except CDeterministicMNStateDiff CDeterministicMN Option List Function

namespace CDeterministicMNList

variable {H : Type} [DecidableEq H] {hash : UniqueProperty → H} {l₀ l l' : CDeterministicMNList H}

/-! ## Lists and differences up to the order of their maps -/

structure SameList (l l' : CDeterministicMNList H) : Prop where
  blockHash : l'.blockHash = l.blockHash
  nHeight : l'.nHeight = l.nHeight
  count : l'.nTotalRegisteredCount = l.nTotalRegisteredCount
  mns : ∀ q, l'.getMN q = l.getMN q
  ids : ∀ id, l'.mnInternalIdMap.lookup id = l.mnInternalIdMap.lookup id
  properties : ∀ k, l'.mnUniquePropertyMap.lookup k = l.mnUniquePropertyMap.lookup k

theorem SameList.refl (l : CDeterministicMNList H) : SameList l l :=
  ⟨rfl, rfl, rfl, fun _ => rfl, fun _ => rfl, fun _ => rfl⟩

omit [DecidableEq H] in
theorem held_congr (h : ∀ q, l'.getMN q = l.getMN q) : l'.held hash = l.held hash := by
  funext q
  rw [CDeterministicMNList.held, CDeterministicMNList.held, h]

theorem SameList.indexed (h : SameList l l') (hl : l.Indexed hash) : l'.Indexed hash where
  key hq := hl.key (h.mns _ ▸ hq)
  ids := by
    intro id p
    rw [h.ids, h.mns]
    exact hl.ids
  exact := by
    intro k p n
    rw [h.properties, held_congr h.mns]
    exact hl.exact k p n

theorem Indexed.sameList (hl : l.Indexed hash) (hl' : l'.Indexed hash)
    (hheader : SameHeader l l') (hcount : l'.nTotalRegisteredCount = l.nTotalRegisteredCount)
    (hmns : ∀ q, l'.getMN q = l.getMN q) : SameList l l' where
  blockHash := hheader.blockHash
  nHeight := hheader.nHeight
  count := hcount
  mns := hmns
  ids := by
    intro id
    refine ext fun p => ?_
    rw [hl'.ids, hl.ids, hmns]
  properties := by
    exact hl'.exact.lookup_eq (held_congr hmns ▸ hl.exact)

/-- A difference in another order of its containers. The added masternodes
are a vector, so their order is fixed. -/
structure SameDiff (diff diff' : CDeterministicMNListDiff) : Prop where
  added : diff'.addedMNs = diff.addedMNs
  updated : ∀ id, diff'.updatedMNs.lookup id = diff.updatedMNs.lookup id
  removed : diff'.removedMns.Perm diff.removedMns

theorem SameDiff.refl (diff : CDeterministicMNListDiff) : SameDiff diff diff :=
  ⟨rfl, fun _ => rfl, .refl _⟩

/-! ## The condition on a step -/

/-- A step from `l` to `l'` whose difference can be applied. -/
structure Follows (hash : UniqueProperty → H) (l l' : CDeterministicMNList H) : Prop where
  indexed : l.Indexed hash
  indexed' : l'.Indexed hash
  listable : ∀ {p a}, l.getMN p = some a → a.Listable
  listable' : ∀ {p b}, l'.getMN p = some b → b.Listable
  same : ∀ {p a b}, l.getMN p = some a → l'.getMN p = some b → SameMN a b
  apart : ∀ {p q a b}, l'.getMN p = some b → l.getMN q = some a →
    (l'.getMN q).isSome → q ≠ p → ∀ v ∈ b.properties, v ∉ a.properties

theorem Indexed.notMem_properties (hl : l.Indexed hash) (hinj : Injective hash)
    {p q : Uint256} {a b : CDeterministicMN} (hne : q ≠ p) (ha : l.getMN p = some a)
    (hb : l.getMN q = some b) {v : UniqueProperty} (hv : v ∈ a.properties) : v ∉ b.properties := by
  intro hvb
  have hkey := hl.key hb
  exact hne (hkey.symm.trans (hl.owner_unique hinj ha hv ⟨hkey.symm ▸ hb, hvb⟩))

theorem Follows.congr (h : Follows hash l l') {l₂ : CDeterministicMNList H}
    (hsame : SameList l' l₂) : Follows hash l l₂ where
  indexed := h.indexed
  indexed' := hsame.indexed h.indexed'
  listable := h.listable
  listable' hb := h.listable' (hsame.mns _ ▸ hb)
  same ha hb := h.same ha (hsame.mns _ ▸ hb)
  apart hb ha hq := h.apart (hsame.mns _ ▸ hb) ha (hsame.mns _ ▸ hq)

def targetMN (a b : CDeterministicMN) : CDeterministicMN :=
  { a with pdmnState := (CDeterministicMNStateDiff.diff a.pdmnState
    b.pdmnState).applyToState a.pdmnState }

/-- The masternodes after the difference from `l` to `l'`. -/
def target (l l' : CDeterministicMNList H) (p : Uint256) : Option CDeterministicMN :=
  (l'.getMN p).map fun b => ((l.getMN p).map (targetMN · b)).getD b

omit [DecidableEq H] in
theorem target_of_new {p : Uint256} {b : CDeterministicMN} (hb : l'.getMN p = some b)
    (hnew : l.getMN p = none) : l.target l' p = some b := by
  rw [target, hb, hnew]
  rfl

theorem targetMN_eq {a b : CDeterministicMN} (h : SameMN a b) :
    targetMN a b = { b with pdmnState := { b.pdmnState with
      pubKeyOperator := keptKey a.pdmnState.pubKeyOperator b.pdmnState.pubKeyOperator } } := by
  unfold targetMN
  rw [applyToState_diff]
  conv_rhs => rw [h]

theorem sameScheme_targetMN (a b : CDeterministicMN) :
    SameScheme a.pdmnState (targetMN a b).pdmnState := by
  unfold targetMN SameScheme
  rw [applyToState_diff]
  unfold keptKey
  split_ifs with h
  · exact fun _ => rfl
  · exact fun h' => absurd h' h

theorem mem_properties_targetMN {a b : CDeterministicMN} (h : SameMN a b)
    {v : UniqueProperty} (hv : v ∈ (targetMN a b).properties) :
    v ∈ b.properties ∨ v ∈ a.properties := by
  rw [targetMN_eq h] at hv
  obtain ⟨hnull, hcase⟩ := mem_properties.mp hv
  rw [mem_properties, mem_properties]
  rcases hcase with hcase | hcase | hcase | hcase | hcase
  · exact .inl ⟨hnull, .inl hcase⟩
  · exact .inl ⟨hnull, .inr (.inl hcase)⟩
  · exact .inl ⟨hnull, .inr (.inr (.inl hcase))⟩
  · unfold keptKey at hcase
    split_ifs at hcase
    · exact .inr ⟨hnull, .inr (.inr (.inr (.inl hcase)))⟩
    · exact .inl ⟨hnull, .inr (.inr (.inr (.inl hcase)))⟩
  · exact .inl ⟨hnull, .inr (.inr (.inr (.inr hcase)))⟩

/-! ## Mixtures -/

def Mixed (l l' x : CDeterministicMNList H) : Prop :=
  ∀ {q c}, x.getMN q = some c →
    l.getMN q = some c ∧ (l'.getMN q).isSome = true ∨ l.target l' q = some c

omit [DecidableEq H] in
theorem Mixed.set {x x' : CDeterministicMNList H} (hx : Mixed l l' x) {p : Uint256}
    {c : CDeterministicMN} (hget : ∀ q, x'.getMN q = if q = p then some c else x.getMN q)
    (hc : l.target l' p = some c) : Mixed l l' x' := by
  intro q d hd
  rw [hget] at hd
  split_ifs at hd with hq
  · cases hd
    exact .inr (hq ▸ hc)
  · exact hx hd

namespace Follows

variable (h : Follows hash l l') (hinj : Injective hash)

include h

variable {c : CDeterministicMN}

theorem target_eq_some {p : Uint256} (hc : l.target l' p = some c) : ∃ b, l'.getMN p = some b ∧
      ∀ v ∈ c.properties, v ∈ b.properties ∨ ∃ a, l.getMN p = some a ∧ v ∈ a.properties := by
  obtain ⟨b, hb, rfl⟩ := map_eq_some_iff.mp hc
  refine ⟨b, hb, fun v hv => ?_⟩
  cases ha : l.getMN p with
  | none =>
    rw [ha] at hv
    exact .inl hv
  | some a =>
    rw [ha] at hv
    rcases mem_properties_targetMN (h.same ha hb) hv with hv | hv
    · exact .inl hv
    · exact .inr ⟨a, rfl, hv⟩

include hinj

theorem notMem_of_mixed {x : CDeterministicMNList H} (hx : Mixed l l' x)
    {p q : Uint256} {d : CDeterministicMN} (hc : l.target l' p = some c)
    (hd : x.getMN q = some d) (hne : q ≠ p) : ∀ v ∈ c.properties, v ∉ d.properties := by
  intro v hvc hvd
  obtain ⟨b, hb, hfrom⟩ := h.target_eq_some hc
  -- the other one has its old state, or its target
  rcases hx hd with ⟨hd, hstays⟩ | hd
  · rcases hfrom v hvc with hvb | ⟨a, ha, hva⟩
    · exact h.apart hb hd hstays hne v hvb hvd
    · exact h.indexed.notMem_properties hinj hne ha hd hva hvd
  · obtain ⟨b', hb', hfrom'⟩ := h.target_eq_some hd
    rcases hfrom v hvc, hfrom' v hvd with ⟨hvb | ⟨a, ha, hva⟩, hvb' | ⟨a', ha', hva'⟩⟩
    · exact h.indexed'.notMem_properties hinj hne hb hb' hvb hvb'
    · exact h.apart hb ha' (by rw [hb']; rfl) hne v hvb hva'
    · exact h.apart hb' ha (by rw [hb]; rfl) hne.symm v hvb' hva
    · exact h.indexed.notMem_properties hinj hne ha ha' hva hva'

theorem notMem_held_of_mixed {x : CDeterministicMNList H} (hx : Mixed l l' x)
    {p : Uint256} (hc : l.target l' p = some c) :
    ∀ k ∈ bag hash c.properties, ∀ q, q ≠ p → k ∉ x.held hash q := by
  intro k hk q hne hmem
  obtain ⟨v, hv, rfl⟩ := mem_map.mp (Multiset.mem_coe.mp hk)
  obtain ⟨d, hd, hvd⟩ := (mem_held_iff hinj).mp hmem
  exact h.notMem_of_mixed hinj hx hc hd hne v hv hvd

end Follows

/-! ## The loops go through -/

theorem exists_foldlM_applyRemoved {ids : List Nat} {x : CDeterministicMNList H}
    (hx : x.Indexed hash) (hlistable : ∀ {p a}, x.getMN p = some a → a.Listable)
    (hnodup : ids.Nodup) (hids : ∀ id ∈ ids, ∃ p a, x.getMN p = some a ∧ a.internalId = id) :
    ∃ x', ids.foldlM (applyRemoved hash) x = .ok x' := by
  induction ids generalizing x with
  | nil => exact ⟨x, rfl⟩
  | cons id ids ih =>
    rw [nodup_cons] at hnodup
    obtain ⟨p, a, ha, hid⟩ := hids id mem_cons_self
    have hfind : x.getMNByInternalId id = some a := by
      rw [hx.getMNByInternalId_eq, hx.key ha]
      exact ⟨ha, hid⟩
    obtain ⟨x₁, hx₁⟩ := hx.exists_removeMN ha (hlistable ha)
    have hturn : x.applyRemoved hash id = .ok x₁ := by
      rw [applyRemoved, hfind]
      show x.removeMN hash a.proTxHash = .ok x₁
      rw [hx.key ha, hx₁]
    obtain ⟨hind₁, _, _, hget₁⟩ := applyRemoved_effect hx hturn
    rw [foldlM_cons, hturn]
    refine ih hind₁ (fun {q b} hb => ?_) hnodup.2 fun id' hid' => ?_
    · rw [hget₁] at hb
      exact hlistable (filter_eq_some_iff.mp hb).1
    · obtain ⟨q, b, hb, hidb⟩ := hids id' (mem_cons_of_mem id hid')
      have hne : b.internalId ≠ id := by
        rw [hidb]
        rintro rfl
        exact hnodup.1 hid'
      refine ⟨q, b, ?_, hidb⟩
      rw [hget₁, hb, filter_some, if_pos (by simp [hne])]

namespace Follows

variable (h : Follows hash l l') (hinj : Injective hash)

include h hinj

theorem exists_foldlM_addMN (b : Bool) {added : List CDeterministicMN}
    {x : CDeterministicMNList H} (hx : x.Indexed hash) (hmixed : Mixed l l' x)
    (hpairs : added.Pairwise (fun a b => a.proTxHash ≠ b.proTxHash ∧ a.internalId ≠ b.internalId))
    (hall : ∀ dmn ∈ added, l.target l' dmn.proTxHash = some dmn ∧ dmn.Listable ∧
      x.getMN dmn.proTxHash = none ∧ ∀ q c, x.getMN q = some c → c.internalId ≠ dmn.internalId) :
    ∃ x', added.foldlM (fun x dmn => x.addMN hash dmn b) x = .ok x' ∧ Mixed l l' x' := by
  induction added generalizing x with
  | nil => exact ⟨x, rfl, hmixed⟩
  | cons dmn added ih =>
    rw [pairwise_cons] at hpairs
    obtain ⟨htarget, hlistable, hnone, hids⟩ := hall dmn mem_cons_self
    obtain ⟨x₁, hx₁⟩ := hx.exists_addMN b hnone hids hlistable
      (h.notMem_held_of_mixed hinj hmixed htarget)
    have hget := getMN_addMN hx₁
    rw [foldlM_cons, hx₁]
    refine ih (hx.addMN hx₁) (hmixed.set hget htarget) hpairs.2 fun dmn' hmem => ?_
    obtain ⟨htarget', hlistable', hnone', hids'⟩ := hall dmn' (mem_cons_of_mem dmn hmem)
    obtain ⟨hhash, hid⟩ := hpairs.1 dmn' hmem
    refine ⟨htarget', hlistable', ?_, fun q c hc => ?_⟩
    · rw [hget, if_neg hhash.symm]
      exact hnone'
    · rw [hget] at hc
      split_ifs at hc
      · cases hc
        exact hid
      · exact hids' q c hc

theorem exists_foldlM_applyUpdated {entries : List (Sigma fun _ : Nat => CDeterministicMNStateDiff)}
    {x : CDeterministicMNList H} (hx : x.Indexed hash) (hmixed : Mixed l l' x)
    (hnodup : entries.NodupKeys)
    (hall : ∀ e ∈ entries, ∃ p a b, x.getMN p = some a ∧ l.getMN p = some a ∧
      l'.getMN p = some b ∧ a.internalId = e.1 ∧ e.2 = .diff a.pdmnState b.pdmnState) :
    ∃ x', entries.foldlM (applyUpdated hash) x = .ok x' := by
  induction entries generalizing x with
  | nil => exact ⟨x, rfl⟩
  | cons e entries ih =>
    obtain ⟨hnew, htail⟩ := nodupKeys_cons.mp hnodup
    obtain ⟨p, a, b, hxa, ha, hb, hid, hdiff⟩ := hall e mem_cons_self
    have hkey := hx.key hxa
    subst hkey
    have htarget : l.target l' a.proTxHash = some (targetMN a b) := by
      rw [target, hb, ha]
      rfl
    have hfind : x.getMNByInternalId e.1 = some a := by
      rw [hx.getMNByInternalId_eq]
      exact ⟨hxa, hid⟩
    have hnewInfo : (targetMN a b).pdmnState.netInfo.Listable := by
      rw [targetMN_eq (h.same ha hb)]
      exact (h.listable' hb).netInfo
    obtain ⟨x₁, hx₁⟩ := hx.exists_updateMNState hxa (sameScheme_targetMN a b)
      (h.listable ha).netInfo hnewInfo
      (h.notMem_held_of_mixed hinj hmixed htarget)
    have hturn : x.applyUpdated hash e = .ok x₁ := by
      rw [applyUpdated, hfind]
      show x.updateMNState hash a (e.2.applyToState a.pdmnState) = .ok x₁
      rw [hdiff]
      exact hx₁
    have hget := getMN_updateMNState hx₁
    rw [foldlM_cons, hturn]
    refine ih (hx.updateMNState hxa (sameScheme_targetMN a b) hx₁)
      (hmixed.set hget htarget) htail fun e' hmem => ?_
    obtain ⟨q, a', b', hxa', ha', hb', hid', hdiff'⟩ := hall e' (mem_cons_of_mem e hmem)
    have hne : q ≠ a.proTxHash := by
      rintro rfl
      cases hxa.symm.trans hxa'
      exact hnew (hid.symm.trans hid' ▸ mem_keys_of_mem hmem)
    exact ⟨q, a', b', by rw [hget, if_neg hne]; exact hxa', ha', hb', hid', hdiff'⟩

/-! ## The whole call -/

variable {diff : CDeterministicMNListDiff}

omit hinj in
theorem lookup_updated_iff (hdiff : SameDiff (l.buildDiff l') diff)
    {p : Uint256} {a b : CDeterministicMN} (ha : l.getMN p = some a)
    (hb : l'.getMN p = some b) {stateDiff : CDeterministicMNStateDiff} :
    diff.updatedMNs.lookup a.internalId = some stateDiff ↔
      stateDiff = .diff a.pdmnState b.pdmnState ∧ stateDiff ≠ .empty := by
  have hid := (h.same ha hb).internalId
  rw [hdiff.updated, lookup_updatedMNs h.indexed']
  constructor
  · rintro ⟨q, a', b', ha', hb', hid', hstate, hne⟩
    obtain rfl := h.indexed'.id_unique hb' hb (hid'.trans hid.symm)
    cases ha.symm.trans ha'
    cases hb.symm.trans hb'
    exact ⟨hstate, hne⟩
  · rintro ⟨hstate, hne⟩
    exact ⟨p, a, b, ha, hb, hid, hstate, hne⟩

omit hinj in
theorem lookup_updated_of_new (hdiff : SameDiff (l.buildDiff l') diff)
    {p : Uint256} {b : CDeterministicMN} (ha : l.getMN p = none) (hb : l'.getMN p = some b) :
    diff.updatedMNs.lookup b.internalId = none := by
  cases hlookup : diff.updatedMNs.lookup b.internalId with
  | none => rfl
  | some stateDiff =>
    rw [hdiff.updated, lookup_updatedMNs h.indexed'] at hlookup
    obtain ⟨q, a', b', ha', hb', hid', _⟩ := hlookup
    obtain rfl := h.indexed'.id_unique hb' hb hid'
    rw [ha] at ha'
    cases ha'

omit hinj in
theorem updated_eq_targetMN (hdiff : SameDiff (l.buildDiff l') diff)
    {p : Uint256} {a b : CDeterministicMN} (ha : l.getMN p = some a) (hb : l'.getMN p = some b) :
    updated diff.updatedMNs.entries a = targetMN a b := by
  have hiff := fun sd => @lookup_updated_iff _ _ _ _ _ h _ hdiff _ _ _ ha hb sd
  unfold updated targetMN
  by_cases hempty : CDeterministicMNStateDiff.diff a.pdmnState b.pdmnState = .empty
  · have hnone : diff.updatedMNs.entries.dlookup a.internalId = none := by
      refine eq_none_iff_forall_ne_some.mpr fun sd hsd => ?_
      obtain ⟨hsd, hne⟩ := (hiff sd).mp hsd
      exact hne (hsd.trans hempty)
    rw [hnone, hempty]
    rfl
  · have hsome : diff.updatedMNs.entries.dlookup a.internalId
        = some (.diff a.pdmnState b.pdmnState) := (hiff _).mpr ⟨rfl, hempty⟩
    rw [hsome]

theorem applyDiff (hdiff : SameDiff (l.buildDiff l') diff) (blockHash : Uint256)
    (nHeight : Int) : ∃ r, applyDiff hash blockHash nHeight diff l = .ok r ∧
      r.Indexed hash ∧ r.blockHash = blockHash ∧ r.nHeight = nHeight ∧
      r.nTotalRegisteredCount = countAfter ((l.buildDiff l').addedMNs.map
        internalId) l.nTotalRegisteredCount ∧ ∀ p, r.getMN p = l.target l' p := by
  have hstart := h.indexed.setHeader blockHash nHeight
  -- the removals leave the masternodes that stay
  obtain ⟨l₁, h₁⟩ := @exists_foldlM_applyRemoved H _ hash diff.removedMns _ hstart
    h.listable (hdiff.removed.nodup_iff.mpr (nodup_removedMns l l'))
    (fun id hid => by
      rw [hdiff.removed.mem_iff, mem_removedMns h.indexed h.indexed'] at hid
      obtain ⟨p, a, ha, _, hida⟩ := hid
      exact ⟨p, a, ha, hida⟩)
  obtain ⟨hl₁, hheader₁, hcount₁, hget₁⟩ := foldlM_applyRemoved_effect hstart h₁
  have hstay : ∀ q a, l₁.getMN q = some a ↔ l.getMN q = some a ∧ (l'.getMN q).isSome = true := by
    intro q a
    rw [hget₁, filter_eq_some_iff]
    refine and_congr_right fun ha => ?_
    rw [decide_eq_true_iff, hdiff.removed.mem_iff,
      mem_removedMns h.indexed h.indexed', isSome_iff_ne_none]
    refine not_congr ⟨?_, fun hnone => ⟨q, a, ha, hnone, rfl⟩⟩
    rintro ⟨p, a', ha', hnone, hid⟩
    rwa [h.indexed.id_unique ha' ha hid] at hnone
  have hmixed₁ : Mixed l l' l₁ := fun hc => .inl ((hstay _ _).mp hc)
  -- the additions enter the new ones
  have hnew : ∀ dmn ∈ (l.buildDiff l').addedMNs,
      l'.getMN dmn.proTxHash = some dmn ∧ l.getMN dmn.proTxHash = none :=
    fun dmn => (mem_addedMNs h.indexed').mp
  have hpairs : (l.buildDiff l').addedMNs.Pairwise (fun a b =>
      a.proTxHash ≠ b.proTxHash ∧ a.internalId ≠ b.internalId) := by
    refine (pairwise_map.mp (nodup_addedMNs h.indexed')).imp_of_mem ?_
    intro a b ha hb hne
    exact ⟨hne, fun hid => hne (h.indexed'.id_unique (hnew a ha).1 (hnew b hb).1 hid)⟩
  obtain ⟨l₂, h₂, hmixed₂⟩ := h.exists_foldlM_addMN hinj true hl₁ hmixed₁ hpairs (fun dmn hdmn => by
      obtain ⟨hdmn', hnone⟩ := hnew dmn hdmn
      refine ⟨target_of_new hdmn' hnone, h.listable' hdmn', ?_, ?_⟩
      · refine eq_none_iff_forall_ne_some.mpr fun a ha => ?_
        rw [hstay, hnone] at ha
        cases ha.1
      · intro q c hc hid
        obtain ⟨hc, hstays⟩ := (hstay q c).mp hc
        obtain ⟨b, hb⟩ := isSome_iff_exists.mp hstays
        rw [← (h.same hc hb).internalId] at hid
        rw [h.indexed'.id_unique hb hdmn' hid, hnone] at hc
        cases hc)
  obtain ⟨hl₂, hheader₂, hcount₂, hget₂⟩ := foldlM_addMN_effect hl₁ h₂
  -- the updates set the states
  have hentries : ∀ e ∈ diff.updatedMNs.entries, ∃ p a b,
      l₂.getMN p = some a ∧ l.getMN p = some a ∧ l'.getMN p = some b ∧
      a.internalId = e.1 ∧ e.2 = .diff a.pdmnState b.pdmnState := by
    intro e he
    have hlookup : diff.updatedMNs.lookup e.1 = some e.2 := mem_dlookup diff.updatedMNs.nodupKeys he
    rw [hdiff.updated, lookup_updatedMNs h.indexed'] at hlookup
    obtain ⟨p, a, b, ha, hb, hid, hstate, _⟩ := hlookup
    refine ⟨p, a, b, (hget₂ p a).mpr (.inl ((hstay p a).mpr ⟨ha, ?_⟩)), ha, hb,
      ((h.same ha hb).internalId.symm.trans hid), hstate⟩
    rw [hb]
    rfl
  obtain ⟨r, h₃⟩ := h.exists_foldlM_applyUpdated hinj hl₂ hmixed₂ diff.updatedMNs.nodupKeys hentries
  have hscheme : ∀ q dmn, l₂.getMN q = some dmn → KeepsScheme diff.updatedMNs.entries dmn := by
    intro q dmn hdmn stateDiff hlookup
    rcases (hget₂ q dmn).mp hdmn with hold | ⟨hadded, _⟩
    · obtain ⟨ha, hstays⟩ := (hstay q dmn).mp hold
      obtain ⟨b, hb⟩ := isSome_iff_exists.mp hstays
      obtain ⟨rfl, _⟩ := (h.lookup_updated_iff hdiff ha hb).mp hlookup
      exact sameScheme_targetMN dmn b
    · obtain ⟨hdmn', hnone⟩ := hnew dmn hadded
      have hlookup' := h.lookup_updated_of_new hdiff hnone hdmn'
      rw [show diff.updatedMNs.lookup dmn.internalId = some stateDiff from hlookup] at hlookup'
      cases hlookup'
  obtain ⟨hr, hheader₃, hcount₃, hget₃⟩ := foldlM_applyUpdated_effect
    diff.updatedMNs.nodupKeys hl₂ hscheme h₃
  have hheader := (hheader₁.trans hheader₂).trans hheader₃
  refine ⟨r, ?_, hr, hheader.blockHash, hheader.nHeight, ?_, fun p => ?_⟩
  · unfold CDeterministicMNList.applyDiff
    dsimp only
    rw [h₁, ok_bind, hdiff.added, h₂]
    exact h₃
  · rw [hcount₃, hcount₂, hcount₁, if_pos rfl]
  · rw [hget₃, target]
    cases hb : l'.getMN p with
    | none =>
      have hnone : l₂.getMN p = none := by
        refine eq_none_iff_forall_ne_some.mpr fun c hc => ?_
        rcases (hget₂ p c).mp hc with hold | ⟨hadded, rfl⟩
        · rw [hstay, hb] at hold
          cases hold.2
        · rw [(hnew c hadded).1] at hb
          cases hb
      rw [hnone]
      rfl
    | some b =>
      cases ha : l.getMN p with
      | none =>
        have hkey := h.indexed'.key hb
        have hmem : b ∈ (l.buildDiff l').addedMNs := by
          rw [mem_addedMNs h.indexed', hkey]
          exact ⟨hb, ha⟩
        have hlookup : diff.updatedMNs.entries.dlookup b.internalId = none :=
          h.lookup_updated_of_new hdiff ha hb
        rw [(hget₂ p b).mpr (.inr ⟨hmem, hkey⟩), map_some, updated, hlookup]
        rfl
      | some a =>
        rw [(hget₂ p a).mpr (.inl ((hstay p a).mpr ⟨ha, by rw [hb]; rfl⟩)),
          map_some, h.updated_eq_targetMN hdiff ha hb]
        rfl

end Follows

end CDeterministicMNList

end KorshCore

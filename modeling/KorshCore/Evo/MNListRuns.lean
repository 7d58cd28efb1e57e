import KorshCore.Evo.ApplyDiff

/-!
# Masternode lists over sequences of calls

The lists that a sequence of successful calls reaches from the empty list.
-/

namespace KorshCore

open Holdings List CDeterministicMN Option Function

inductive ListCall where
  | addMN (dmn : CDeterministicMN) (fBumpTotalCount : Bool)
  | updateMNState (oldDmn : CDeterministicMN) (pdmnState : CDeterministicMNState)
  | updateMN (proTxHash : Uint256) (pdmnState : CDeterministicMNState)
  | updateMNDiff (oldDmn : CDeterministicMN) (stateDiff : CDeterministicMNStateDiff)
  | removeMN (proTxHash : Uint256)
  | applyDiff (blockHash : Uint256) (nHeight : Int) (diff : CDeterministicMNListDiff)

namespace CDeterministicMNList

section

variable {H : Type} [DecidableEq H] (hash : UniqueProperty → H)

def step : ListCall → CDeterministicMNList H → Except ListError (CDeterministicMNList H)
  | .addMN dmn fBumpTotalCount, l => l.addMN hash dmn fBumpTotalCount
  | .updateMNState oldDmn pdmnState, l => l.updateMNState hash oldDmn pdmnState
  | .updateMN proTxHash pdmnState, l => l.updateMN hash proTxHash pdmnState
  | .updateMNDiff oldDmn stateDiff, l => l.updateMNDiff hash oldDmn stateDiff
  | .removeMN proTxHash, l => l.removeMN hash proTxHash
  | .applyDiff blockHash nHeight diff, l =>
    CDeterministicMNList.applyDiff hash blockHash nHeight diff l

/-- The lists that successful calls reach, if each call meets `P`. -/
inductive Reachable (P : ListCall → CDeterministicMNList H → Prop) :
    CDeterministicMNList H → Prop where
  | empty : Reachable P .empty
  | call {l l'} (c : ListCall) : Reachable P l → P c l → step hash c l = .ok l' → Reachable P l'

end

/-! ## The condition -/

variable {H : Type} {l l' : CDeterministicMNList H}

/-- Where a listed masternode has the operator key of `state`, it has it in the same
scheme. -/
def OneScheme (l : CDeterministicMNList H) (state : CDeterministicMNState) : Prop :=
  ∀ q dmn, l.getMN q = some dmn → SameScheme dmn.pdmnState state

/-- A masternode that a diff adds or does not remove. -/
def Remains (diff : CDeterministicMNListDiff) (l : CDeterministicMNList H)
    (dmn : CDeterministicMN) : Prop :=
  l.getMN dmn.proTxHash = some dmn ∧ dmn.internalId ∉ diff.removedMns ∨ dmn ∈ diff.addedMNs

/-- An updated masternode is the listed one, no operator key is listed in two schemes,
and ids fit the counter. -/
def Meets : ListCall → CDeterministicMNList H → Prop
  | .addMN dmn true, l => dmn.internalId + 1 < 2 ^ 32 ∧ l.OneScheme dmn.pdmnState
  | .addMN dmn false, l =>
    dmn.internalId < l.nTotalRegisteredCount ∧ l.OneScheme dmn.pdmnState
  | .updateMNState oldDmn pdmnState, l =>
    l.getMN oldDmn.proTxHash = some oldDmn ∧ l.OneScheme pdmnState
  | .updateMN _ pdmnState, l => l.OneScheme pdmnState
  | .updateMNDiff oldDmn stateDiff, l =>
    l.getMN oldDmn.proTxHash = some oldDmn ∧
      l.OneScheme (stateDiff.applyToState oldDmn.pdmnState)
  | .removeMN _, _ => True
  | .applyDiff _ _ diff, l =>
    (∀ dmn ∈ diff.addedMNs, dmn.internalId + 1 < 2 ^ 32) ∧
      (∀ dmn, Remains diff l dmn → KeepsScheme diff.updatedMNs.entries dmn) ∧
      ∀ dmn dmn', Remains diff l dmn → Remains diff l dmn' →
        SameScheme (updated diff.updatedMNs.entries dmn).pdmnState
          (updated diff.updatedMNs.entries dmn').pdmnState

/-- The properties of the masternode `p` of a list. -/
def propertiesOf (l : CDeterministicMNList H) (p : Uint256) : List UniqueProperty :=
  (l.getMN p).elim [] properties

theorem held_eq_bag (hash : UniqueProperty → H) (l : CDeterministicMNList H) (p : Uint256) :
    l.held hash p = bag hash (l.propertiesOf p) := by
  unfold held propertiesOf
  cases l.getMN p <;> rfl

/-- Every id is below the counter, and the counter has 32 bits. -/
structure Bounded (l : CDeterministicMNList H) : Prop where
  count : l.nTotalRegisteredCount < 2 ^ 32
  ids : ∀ {p dmn}, l.getMN p = some dmn → dmn.internalId < l.nTotalRegisteredCount

theorem Bounded.of_le (h : l.Bounded) (hle : l.nTotalRegisteredCount ≤ l'.nTotalRegisteredCount)
    (hcount : l'.nTotalRegisteredCount < 2 ^ 32) (hget : ∀ p dmn', l'.getMN p = some dmn' →
      (∃ q dmn, l.getMN q = some dmn ∧ dmn'.internalId = dmn.internalId) ∨
        dmn'.internalId < l'.nTotalRegisteredCount) : l'.Bounded where
  count := hcount
  ids := by
    intro p dmn' hp
    rcases hget p dmn' hp with ⟨q, dmn, hq, hid⟩ | hlt
    · rw [hid]
      exact Nat.lt_of_lt_of_le (h.ids hq) hle
    · exact hlt

theorem countAfter_of_lt : ∀ {ids : List Nat} {count : Nat}, count < 2 ^ 32 →
    (∀ id ∈ ids, id + 1 < 2 ^ 32) → countAfter ids count < 2 ^ 32 ∧ count ≤ countAfter ids count ∧
      ∀ id ∈ ids, id < countAfter ids count := by
  intro ids
  induction ids with
  | nil =>
    intro count hcount _
    exact ⟨hcount, le_rfl, fun _ h => (by cases h)⟩
  | cons id ids ih =>
    intro count hcount hids
    have hid := hids id mem_cons_self
    have hmod : max (id + 1) count % 2 ^ 32 = max (id + 1) count := Nat.mod_eq_of_lt (by omega)
    obtain ⟨hlt, hle, hall⟩ := @ih (max (id + 1) count) (by omega)
      fun id' hmem => hids id' (mem_cons_of_mem id hmem)
    have hstep : countAfter (id :: ids) count = countAfter ids (max (id + 1) count) := by
      show countAfter ids (max (id + 1) count % 2 ^ 32) = _
      rw [hmod]
    rw [hstep]
    refine ⟨hlt, by omega, fun id' hmem => ?_⟩
    rcases mem_cons.mp hmem with rfl | hmem
    · omega
    · exact hall id' hmem

/-! ## One call -/

variable [DecidableEq H] {hash : UniqueProperty → H}

structure Sound (hash : UniqueProperty → H) (l : CDeterministicMNList H) : Prop where
  indexed : l.Indexed hash
  bounded : l.Bounded
  schemes : ∀ {p dmn}, l.getMN p = some dmn → l.OneScheme dmn.pdmnState

theorem sameScheme_symm {a b : CDeterministicMNState} (h : SameScheme a b) : SameScheme b a :=
  fun hsame => (h (sameKey_iff.mpr (sameKey_iff.mp hsame).symm)).symm

section

variable {state : CDeterministicMNState} (hl : l.OneScheme state) {dmn : CDeterministicMN}
include hl

theorem OneScheme.addMN (hdmn : SameScheme dmn.pdmnState state) {b : Bool}
    (h : l.addMN hash dmn b = .ok l') : l'.OneScheme state := by
  intro q dmn' hq
  rw [getMN_addMN h] at hq
  split_ifs at hq
  · cases hq
    exact hdmn
  · exact hl q dmn' hq

theorem OneScheme.updateMNState {new : CDeterministicMNState} (hnew : SameScheme new state)
    (h : l.updateMNState hash dmn new = .ok l') : l'.OneScheme state := by
  intro q dmn' hq
  rw [getMN_updateMNState h] at hq
  split_ifs at hq
  · cases hq
    exact hnew
  · exact hl q dmn' hq

theorem OneScheme.removeMN {p : Uint256} (h : l.removeMN hash p = .ok l') :
    l'.OneScheme state := by
  intro q dmn' hq
  rw [getMN_removeMN h] at hq
  split_ifs at hq
  exact hl q dmn' hq

end

namespace Sound

variable (hl : l.Sound hash)
include hl

theorem addMN {dmn : CDeterministicMN} {b : Bool}
    (hmeets : Meets (.addMN dmn b) l) (h : l.addMN hash dmn b = .ok l') : l'.Sound hash := by
  have hget := getMN_addMN h
  obtain ⟨_, _, _, _, _, hcount, _⟩ := addMN_eq_ok h
  have hlt := hl.bounded.count
  have hscheme : l.OneScheme dmn.pdmnState := by
    cases b with
    | true => exact hmeets.2
    | false => exact hmeets.2
  refine ⟨hl.indexed.addMN h, hl.bounded.of_le ?_ ?_ fun q dmn' hq => ?_, fun {q dmn'} hq => ?_⟩
  · cases b with
    | true =>
      have hid : dmn.internalId + 1 < 2 ^ 32 := hmeets.1
      rw [hcount, Nat.mod_eq_of_lt (by omega)]
      exact Nat.le_max_right _ _
    | false => exact Nat.le_of_eq hcount.symm
  · rw [hcount]
    split_ifs
    · exact Nat.mod_lt _ (by decide)
    · exact hlt
  · rw [hget] at hq
    split_ifs at hq
    · cases hq
      right
      cases b with
      | true =>
        have hid : dmn.internalId + 1 < 2 ^ 32 := hmeets.1
        rw [hcount, if_pos rfl]
        omega
      | false => exact hcount ▸ hmeets.1
    · exact .inl ⟨q, dmn', hq, rfl⟩
  · rw [hget] at hq
    split_ifs at hq
    · cases hq
      exact hscheme.addMN (fun _ => rfl) h
    · exact (hl.schemes hq).addMN (sameScheme_symm (hscheme q dmn' hq)) h

theorem updateMNState {dmn : CDeterministicMN} {state : CDeterministicMNState}
    (hmeets : Meets (.updateMNState dmn state) l)
    (h : l.updateMNState hash dmn state = .ok l') : l'.Sound hash := by
  have hget := getMN_updateMNState h
  obtain ⟨hlisted, hscheme⟩ := hmeets
  obtain ⟨_, _, _, hcount, _⟩ := updateMNState_eq_ok h
  refine ⟨hl.indexed.updateMNState hlisted (hscheme _ _ hlisted) h, hl.bounded.of_le
    (Nat.le_of_eq hcount.symm) (hcount ▸ hl.bounded.count) fun q dmn' hq => ?_,
    fun {q dmn'} hq => ?_⟩
  · rw [hget] at hq
    split_ifs at hq
    · cases hq
      exact .inl ⟨_, dmn, hlisted, rfl⟩
    · exact .inl ⟨q, dmn', hq, rfl⟩
  · rw [hget] at hq
    split_ifs at hq
    · cases hq
      exact hscheme.updateMNState (fun _ => rfl) h
    · exact (hl.schemes hq).updateMNState (sameScheme_symm (hscheme q dmn' hq)) h

theorem removeMN {p : Uint256} (h : l.removeMN hash p = .ok l') : l'.Sound hash := by
  have hget := getMN_removeMN h
  obtain ⟨_, _, _, _, _, hcount, _⟩ := removeMN_eq_ok h
  refine ⟨hl.indexed.removeMN h, hl.bounded.of_le
    (Nat.le_of_eq hcount.symm) (hcount ▸ hl.bounded.count) fun q dmn' hq => ?_,
    fun {q dmn'} hq => ?_⟩
  all_goals
    rw [hget] at hq
    split_ifs at hq
  · exact .inl ⟨q, dmn', hq, rfl⟩
  · exact (hl.schemes hq).removeMN h

theorem applyDiff {blockHash : Uint256} {nHeight : Int} {diff : CDeterministicMNListDiff}
    (hmeets : Meets (.applyDiff blockHash nHeight diff) l)
    (h : CDeterministicMNList.applyDiff hash blockHash nHeight diff l = .ok l') :
    l'.Sound hash := by
  obtain ⟨l₁, h₁, l₂, h₂, h₃⟩ := Except.bind₂_eq_ok_iff.mp h
  obtain ⟨hids, hkeeps, hscheme⟩ := hmeets
  obtain ⟨hl₁, _, hcount₁, hget₁⟩ :=
    foldlM_applyRemoved_effect (hl.indexed.setHeader blockHash nHeight) h₁
  obtain ⟨hl₂, _, hcount₂, hget₂⟩ := foldlM_addMN_effect hl₁ h₂
  -- a masternode before the updates is an old one or one of the added
  have horigin : ∀ q dmn, l₂.getMN q = some dmn → Remains diff l dmn := by
    intro q dmn hq
    rcases (hget₂ q dmn).mp hq with hq₁ | ⟨hadded, _⟩
    · rw [hget₁] at hq₁
      obtain ⟨hold, hkept⟩ := filter_eq_some_iff.mp hq₁
      have hold : l.getMN q = some dmn := hold
      refine .inl ⟨?_, of_decide_eq_true hkept⟩
      rw [hl.indexed.key hold]
      exact hold
    · exact .inr hadded
  obtain ⟨hl₃, _, hcount₃, hget₃⟩ := foldlM_applyUpdated_effect diff.updatedMNs.nodupKeys hl₂
    (fun q dmn hq => hkeeps dmn (horigin q dmn hq)) h₃
  rw [hcount₁] at hcount₂
  rw [hcount₂] at hcount₃
  have hfit : ∀ id ∈ diff.addedMNs.map internalId, id + 1 < 2 ^ 32 := by
    intro id hid
    obtain ⟨dmn, hdmn, rfl⟩ := mem_map.mp hid
    exact hids dmn hdmn
  obtain ⟨hlt, hle, hbelow⟩ := countAfter_of_lt hl.bounded.count hfit
  refine ⟨hl₃, hl.bounded.of_le (hcount₃ ▸ hle) (hcount₃ ▸ hlt) fun q dmn' hq => ?_,
    fun hp q dmn' hq => ?_⟩
  · rw [hget₃] at hq
    obtain ⟨dmn, hdmn, rfl⟩ := map_eq_some_iff.mp hq
    rw [internalId_updated, hcount₃]
    rcases horigin q dmn hdmn with ⟨hold, -⟩ | hadded
    · exact .inl ⟨_, dmn, hold, rfl⟩
    · exact .inr (hbelow _ (mem_map_of_mem hadded))
  · rw [hget₃] at hp hq
    obtain ⟨dmn₁, hdmn₁, rfl⟩ := map_eq_some_iff.mp hp
    obtain ⟨dmn₂, hdmn₂, rfl⟩ := map_eq_some_iff.mp hq
    exact hscheme _ _ (horigin _ _ hdmn₂) (horigin _ _ hdmn₁)

theorem step {c : ListCall} (hmeets : Meets c l) (h : step hash c l = .ok l') : l'.Sound hash := by
  cases c with
  | addMN dmn b => exact hl.addMN hmeets h
  | updateMNState oldDmn state => exact hl.updateMNState hmeets h
  | updateMN p state =>
    obtain ⟨dmn, hdmn, hupdate⟩ := Except.bind_eq_ok_iff.mp h
    have hlisted := Except.ofOption_eq_ok_iff.mp hdmn
    refine hl.updateMNState ⟨?_, hmeets⟩ hupdate
    rw [hl.indexed.key hlisted]
    exact hlisted
  | updateMNDiff oldDmn stateDiff => exact hl.updateMNState hmeets h
  | removeMN p => exact hl.removeMN h
  | applyDiff blockHash nHeight diff => exact hl.applyDiff hmeets h

end Sound

theorem Reachable.sound (h : Reachable hash Meets l) : l.Sound hash := by
  induction h with
  | empty =>
    exact ⟨indexed_make 0 (-1) 0, ⟨Nat.two_pow_pos 32, fun h => (by cases h)⟩,
      fun h => (by cases h)⟩
  | call c _ hmeets hstep ih => exact ih.step hmeets hstep

/-! ## Reading the invariant -/

/-- The maps of a list are those of its masternodes. Properties are compared as the code
compares them (`same`), which does not look at the scheme of a key. -/
structure Consistent (hash : UniqueProperty → H) (l : CDeterministicMNList H) : Prop where
  owners : ∀ v p n, l.mnUniquePropertyMap.lookup (hash v) = some (p, n) ↔
    v ∈ l.propertiesOf p ∧ (l.propertiesOf p).countP v.same = n
  recorded : ∀ k, l.mnUniquePropertyMap.lookup k ≠ none → ∃ p, ∃ v ∈ l.propertiesOf p, hash v = k
  unshared : ∀ p q, ∀ v ∈ l.propertiesOf p, ∀ w ∈ l.propertiesOf q, v.same w = true → p = q
  keys : ∀ p dmn, l.getMN p = some dmn → dmn.proTxHash = p
  inverse : ∀ id p, l.mnInternalIdMap.lookup id = some p ↔
    ∃ dmn, l.getMN p = some dmn ∧ dmn.internalId = id
  below : ∀ p dmn, l.getMN p = some dmn → dmn.internalId < l.nTotalRegisteredCount

theorem key_of_mem_properties {dmn : CDeterministicMN} {key : Option CBLSLazyPublicKey}
    (h : .operatorKey key ∈ dmn.properties) : key = dmn.pdmnState.pubKeyOperator := by
  have hentry : ∀ entries, .operatorKey key ∉ entryProperties entries := by
    intro entries hmem
    obtain ⟨v, hv, hkey⟩ := mem_flatMap.mp hmem
    obtain ⟨entry, -, hproperty⟩ := mem_filterMap.mp hv
    unfold UniqueProperty.optional at hkey
    split_ifs at hkey
    · cases hkey
    · cases mem_singleton.mp hkey
      cases entry <;> cases hproperty
  unfold CDeterministicMN.properties CDeterministicMNState.properties
    UniqueProperty.optional at h
  simp only [mem_append, hentry, false_or] at h
  split_ifs at h <;> simp_all

omit [DecidableEq H] in
theorem eq_of_same (hl : ∀ {p dmn}, l.getMN p = some dmn → l.OneScheme dmn.pdmnState)
    {p q : Uint256} {v w : UniqueProperty} (hv : v ∈ l.propertiesOf p)
    (hw : w ∈ l.propertiesOf q) (h : v.same w = true) : v = w := by
  unfold propertiesOf at hv hw
  cases hp : l.getMN p with
  | none => simp [hp] at hv
  | some dmn =>
    cases hq : l.getMN q with
    | none => simp [hq] at hw
    | some dmn' =>
      rw [hp, elim_some] at hv
      rw [hq, elim_some] at hw
      cases v with
      | operatorKey a =>
        cases w with
        | operatorKey b =>
          obtain rfl := key_of_mem_properties hv
          obtain rfl := key_of_mem_properties hw
          exact congrArg _ (hl hq p dmn hp h)
        | _ => exact eq_of_beq h
      | _ => exact eq_of_beq h

theorem Sound.consistent (hl : l.Sound hash) (hinj : Injective hash) : l.Consistent hash where
  owners := by
    intro v p n
    rw [hl.indexed.exact, held_eq_bag, bag, Multiset.coe_count, count_map_of_injective _ _ hinj]
    have hcount (hv : v ∈ l.propertiesOf p) :
        (l.propertiesOf p).countP v.same = (l.propertiesOf p).count v := by
      refine countP_congr fun w hw => ?_
      rw [beq_iff_eq]
      refine ⟨fun h => (eq_of_same hl.schemes hv hw h).symm, fun h => ?_⟩
      subst h
      cases w <;> simp [UniqueProperty.same, sameKey]
    constructor
    · rintro ⟨hpos, hn⟩
      have hv : v ∈ l.propertiesOf p := count_pos_iff.mp (hn ▸ hpos)
      exact ⟨hv, (hcount hv).trans hn⟩
    · rintro ⟨hv, hn⟩
      have hn := (hcount hv).symm.trans hn
      exact ⟨hn ▸ count_pos_iff.mpr hv, hn⟩
  recorded := by
    intro k hk
    obtain ⟨⟨p, n⟩, hlookup⟩ := ne_none_iff_exists'.mp hk
    have hmem := hl.indexed.exact.mem_of_lookup hlookup
    rw [held_eq_bag] at hmem
    obtain ⟨v, hv, hk⟩ := mem_map.mp hmem
    exact ⟨p, v, hv, hk⟩
  unshared := by
    intro p q v hp w hq hsame
    obtain rfl := eq_of_same hl.schemes hp hq hsame
    apply hl.indexed.exact.holder_unique (k := hash v)
    · rw [held_eq_bag]
      exact mem_bag hash hp
    · rw [held_eq_bag]
      exact mem_bag hash hq
  keys _ _ := hl.indexed.key
  inverse _ _ := hl.indexed.ids
  below _ _ := hl.bounded.ids

/-- Every list that successful calls reach has the maps of its masternodes,
if each call meets the condition. -/
theorem reachable_consistent {H : Type} [DecidableEq H]
    {hash : UniqueProperty → H} (hinj : Injective hash)
    {l : CDeterministicMNList H} (h : Reachable hash Meets l) : l.Consistent hash :=
  h.sound.consistent hinj

def legacyKeyMN : CDeterministicMN where
  internalId := 0
  proTxHash := 1
  collateralOutpoint := ⟨1, 0⟩
  nOperatorReward := 0
  nType := .regular
  pdmnState :=
    { nVersion := ProTxVersion.legacyBLS
      nRegisteredHeight := 1
      nLastPaidHeight := 0
      nConsecutivePayments := 0
      nPoSePenalty := 0
      nPoSeRevivedHeight := -1
      nPoSeBanHeight := -1
      nRevocationReason := 0
      confirmedHash := 0
      confirmedHashWithProRegTxHash := 0
      keyIDOwner := 2
      pubKeyOperator := some ⟨[3], true⟩
      keyIDVoting := 2
      netInfo := .mn (.service ⟨.ipv4, [1, 2, 3, 4], 9777⟩)
      scriptPayout := []
      scriptOperatorPayout := []
      platformNodeID := 0
      platformP2PPort := 0
      platformHTTPPort := 0 }

def basicKeyState : CDeterministicMNState :=
  { legacyKeyMN.pdmnState with pubKeyOperator := some ⟨[3], false⟩ }

def otherKeyMN (key : CBLSLazyPublicKey) : CDeterministicMN :=
  { legacyKeyMN with
    internalId := 1
    proTxHash := 2
    collateralOutpoint := ⟨2, 0⟩
    pdmnState :=
      { legacyKeyMN.pdmnState with
        keyIDOwner := 4
        pubKeyOperator := some key
        netInfo := .mn (.service ⟨.ipv4, [1, 2, 3, 5], 9777⟩) } }

theorem oneScheme_of_entries {H : Type} {l : CDeterministicMNList H}
    {state : CDeterministicMNState} (h : ∀ e ∈ l.mnMap.entries,
      sameKey e.2.pdmnState.pubKeyOperator state.pubKeyOperator = true →
        e.2.pdmnState.pubKeyOperator = state.pubKeyOperator) : l.OneScheme state :=
  fun q dmn hq => h ⟨q, dmn⟩ (of_mem_dlookup hq)

/-- Two masternodes are added, the first one changes its key and the second one is
removed. It comes back with its key in the other scheme. -/
theorem reachable_consistent_two : ∃ l : CDeterministicMNList UniqueProperty,
      Reachable id Meets l ∧ l.getMN 2 = some (otherKeyMN ⟨[5], true⟩) ∧ l.Consistent id := by
  have hadded := @Reachable.call _ _ id Meets _ _ (.addMN legacyKeyMN true) .empty
    ⟨by decide, fun _ _ h => nomatch h⟩ rfl
  have hsecond := hadded.call (.addMN (otherKeyMN ⟨[5], false⟩) true)
    ⟨by decide, oneScheme_of_entries (by decide)⟩ rfl
  have hupdated := hsecond.call (.updateMN 1 { legacyKeyMN.pdmnState with
    pubKeyOperator := some ⟨[6], false⟩ }) (oneScheme_of_entries (by decide)) rfl
  have hremoved := hupdated.call (.removeMN 2) trivial rfl
  have hback := hremoved.call (.addMN (otherKeyMN ⟨[5], true⟩) true)
    ⟨by decide, oneScheme_of_entries (by decide)⟩ rfl
  exact ⟨_, hback, rfl, reachable_consistent injective_id hback⟩

/-- An update to the same operator key in the other scheme succeeds and
leaves the old hash in the map. The masternode cannot be removed any more. And a
second masternode is added with the operator key of the first one. -/
theorem reachable_other_scheme :
    (∃ l : CDeterministicMNList UniqueProperty, Reachable id (fun _ _ => True) l ∧
      ¬ l.Consistent id ∧ l.removeMN id 1 = .error (.cantDelete .pubKeyOperator)) ∧
    ∃ l : CDeterministicMNList UniqueProperty, Reachable id (fun _ _ => True) l ∧
      ¬ l.Consistent id ∧ l.getMN 1 = some legacyKeyMN ∧
      l.getMN 2 = some (otherKeyMN ⟨[3], false⟩) := by
  refine ⟨⟨_, .call (.updateMN 1 basicKeyState)
    (.call (.addMN legacyKeyMN true) .empty trivial rfl) trivial rfl, fun h => ?_, rfl⟩,
    _, .call (.addMN (otherKeyMN ⟨[3], false⟩) true)
      (.call (.addMN legacyKeyMN true) .empty trivial rfl) trivial rfl, fun h => ?_, rfl, rfl⟩
  · have howned := (h.owners (.operatorKey (some ⟨[3], false⟩)) 1 1).mpr ⟨by decide, by decide⟩
    exact absurd howned (by decide)
  · have hshared := h.unshared 1 2 (.operatorKey (some ⟨[3], true⟩)) (by decide)
      (.operatorKey (some ⟨[3], false⟩)) (by decide) (by decide)
    exact absurd hshared (by decide)

end CDeterministicMNList

end KorshCore

import KorshCore.Evo.MNList
import Mathlib.Algebra.BigOperators.Group.List.Basic

/-!
# What the calls of a masternode list keep

`Indexed` is the invariant of a list: the internal-id map is the inverse of the
masternodes' ids, and the property map records exactly the hashes of the
properties of the listed masternodes, with their owners and counts.
-/

namespace KorshCore

open Holdings UniqueProperty Replaces Except NetInfoEntry Option List KeyedMap Function

/-! ## The properties of a masternode -/

def UniqueProperty.optional (v : UniqueProperty) : List UniqueProperty :=
  if v.isNull then [] else [v]

def entryProperties (entries : List NetInfoEntry) : List UniqueProperty :=
  (entries.filterMap NetInfoEntry.property).flatMap UniqueProperty.optional

def CDeterministicMNState.properties (nType : MnType)
    (state : CDeterministicMNState) : List UniqueProperty :=
  entryProperties state.netInfo.getEntries ++ (UniqueProperty.id160 state.keyIDOwner).optional
    ++ (UniqueProperty.operatorKey state.pubKeyOperator).optional
    ++ if nType = .evo then (UniqueProperty.id160 state.platformNodeID).optional
      else []

def CDeterministicMN.properties (dmn : CDeterministicMN) : List UniqueProperty :=
  (UniqueProperty.outpoint dmn.collateralOutpoint).optional ++ dmn.pdmnState.properties dmn.nType

def NetInfoEntry.Listable (entry : NetInfoEntry) : Prop :=
  ∃ v, entry.property = some v ∧ v.isNull = false

def NetInfo.Listable (netInfo : NetInfo) : Prop :=
  ∀ entry ∈ netInfo.getEntries, entry.Listable

structure CDeterministicMN.Listable (dmn : CDeterministicMN) : Prop where
  collateral : dmn.collateralOutpoint.isNull = false
  netInfo : dmn.pdmnState.netInfo.Listable
  owner : dmn.pdmnState.keyIDOwner ≠ 0

/-- If two states have the same operator key, then in the same scheme. -/
def SameScheme (a b : CDeterministicMNState) : Prop :=
  sameKey a.pubKeyOperator b.pubKeyOperator = true → a.pubKeyOperator = b.pubKeyOperator

theorem UniqueProperty.isNull_id160 {id : Uint160} : (id160 id).isNull = false ↔ id ≠ 0 := by
  show (id == 0) = false ↔ _
  rw [beq_eq_false_iff_ne]

section Sections

variable {H : Type} (hash : UniqueProperty → H)

def bag (properties : List UniqueProperty) : Multiset H :=
  properties.map hash

theorem bag_append (a b : List UniqueProperty) : bag hash (a ++ b) = bag hash a + bag hash b := by
  unfold bag
  rw [map_append, Multiset.coe_add]

theorem mem_bag {a : List UniqueProperty} {v : UniqueProperty} (h : v ∈ a) : hash v ∈ bag hash a :=
  Multiset.mem_coe.mpr (mem_map_of_mem h)

private theorem bag_properties (dmn : CDeterministicMN) : bag hash dmn.properties
    = bag hash (outpoint dmn.collateralOutpoint).optional
      + (bag hash (entryProperties dmn.pdmnState.netInfo.getEntries)
        + (bag hash (id160 dmn.pdmnState.keyIDOwner).optional + (bag hash
              (operatorKey dmn.pdmnState.pubKeyOperator).optional
            + bag hash (if dmn.nType = .evo then (id160 dmn.pdmnState.platformNodeID).optional
              else [])))) := by
  unfold CDeterministicMN.properties CDeterministicMNState.properties
  simp only [bag_append, add_assoc]

variable [DecidableEq H] (p : Uint256)

theorem replaces_add (e : ListError) (v : UniqueProperty) :
    Replaces (fun map => ofOption e (addUniqueProperty hash p v map)) p
      0 (bag hash v.optional) (v.isNull = false) := by
  unfold addUniqueProperty UniqueProperty.optional
  cases v.isNull with
  | true => exact (fail e p _ _).weaken fun h => by cases h
  | false => exact (add e p (hash v)).weaken fun _ => trivial

theorem replaces_delete (e : ListError) (v : UniqueProperty) :
    Replaces (fun map => ofOption e (deleteUniqueProperty hash p v map))
      p (bag hash v.optional) 0 (v.isNull = false) := by
  unfold deleteUniqueProperty UniqueProperty.optional
  cases v.isNull with
  | true => exact (fail e p _ _).weaken fun h => by cases h
  | false => exact (delete e p (hash v)).weaken fun _ => trivial

theorem ofOption_bind {ε α β : Type} (e : ε) (x : Option α)
    (f : α → Option β) : ofOption e (x >>= f) = ofOption e x >>= fun a => ofOption e (f a) := by
  cases x <;> rfl

/-! ## Adding or deleting properties -/

section Each

/-! Adding and deleting go through the same properties in the same order. A call
takes the part `old` of a property out of the bag and puts the part `new` in. -/

variable {step : UniqueProperty → PropertyMap H → Option (PropertyMap H)}
  (fail : PropertyKind → ListError) (old new : Multiset H →+ Multiset H)
  (hstep : ∀ (e : ListError) (v : UniqueProperty), Replaces (fun map => ofOption e (step v map)) p
    (old (bag hash v.optional)) (new (bag hash v.optional)) (v.isNull = false))
include hstep

theorem replaces_optional (e : ListError) (v : UniqueProperty) {b : Bool} (hb : b = v.isNull) :
    Replaces (fun map => ofOption e (if b then some map else step v map)) p
      (old (bag hash v.optional)) (new (bag hash v.optional)) True := by
  subst hb
  cases hv : v.isNull with
  | true =>
    have hnone : v.optional = [] := if_pos hv
    rw [hnone, show bag hash [] = 0 from rfl, map_zero, map_zero]
    exact skip p 0
  | false => exact (hstep e v).weaken fun _ => hv

theorem replaces_entries (entries : List NetInfoEntry) :
    Replaces (fun map => entries.foldlM (entryStep step fail) map) p
      (old (bag hash (entryProperties entries))) (new (bag hash (entryProperties entries)))
      (∀ entry ∈ entries, entry.Listable) := by
  induction entries with
  | nil =>
    rw [show bag hash (entryProperties []) = 0 from rfl, map_zero, map_zero]
    exact (skip p 0).weaken fun _ => trivial
  | cons entry entries ih =>
    have hbag : bag hash (entryProperties (entry :: entries))
        = entry.property.elim 0 (bag hash ·.optional) + bag hash (entryProperties entries) := by
      unfold entryProperties
      cases hv : entry.property with
      | none => rw [filterMap_cons_none hv, elim_none, zero_add]
      | some v => rw [filterMap_cons_some hv, flatMap_cons, bag_append, elim_some]
    have hhead : Replaces (fun map => entryStep step fail map entry) p
        (old (entry.property.elim 0 (bag hash ·.optional)))
        (new (entry.property.elim 0 (bag hash ·.optional))) entry.Listable := by
      unfold entryStep Listable
      cases entry.property with
      | none => exact (Replaces.fail _ p _ _).weaken fun ⟨_, h, _⟩ => by cases h
      | some v =>
        refine (hstep _ v).weaken ?_
        rintro ⟨w, hw, hnull⟩
        rwa [some.inj hw]
    rw [hbag, map_add, map_add]
    exact (hhead.bind ih).weaken fun h => ⟨h entry mem_cons_self,
      fun entry' hmem => h entry' (mem_cons_of_mem entry hmem)⟩

theorem replaces_properties (dmn : CDeterministicMN) : Replaces (fun map => do
        let map ← ofOption (fail .collateralOutpoint) (step (.outpoint dmn.collateralOutpoint) map)
        let map ← dmn.pdmnState.netInfo.getEntries.foldlM (entryStep step fail) map
        let map ← ofOption (fail .keyIDOwner) (step (.id160 dmn.pdmnState.keyIDOwner) map)
        let map ← ofOption (fail .pubKeyOperator)
          (if dmn.pdmnState.pubKeyOperator.isNone then some map
            else step (.operatorKey dmn.pdmnState.pubKeyOperator) map)
        ofOption (fail .platformNodeID) (if dmn.nType = .evo then
            if dmn.pdmnState.platformNodeID == 0 then some map
            else step (.id160 dmn.pdmnState.platformNodeID) map else some map)) p
      (old (bag hash dmn.properties)) (new (bag hash dmn.properties)) dmn.Listable := by
  have hplatform : Replaces (fun map => ofOption (fail .platformNodeID) (if dmn.nType = .evo then
        if dmn.pdmnState.platformNodeID == 0 then some map
        else step (.id160 dmn.pdmnState.platformNodeID) map
      else some map)) p
      (old (bag hash (if dmn.nType = .evo then (id160 dmn.pdmnState.platformNodeID).optional
        else [])))
      (new (bag hash (if dmn.nType = .evo then (id160 dmn.pdmnState.platformNodeID).optional
        else []))) True := by
    by_cases hevo : dmn.nType = .evo
    · simp only [hevo, if_true]
      exact replaces_optional hash p old new hstep _ (.id160 dmn.pdmnState.platformNodeID) rfl
    · simp only [hevo, if_false]
      rw [show bag hash [] = 0 from rfl, map_zero, map_zero]
      exact skip p 0
  simp only [bag_properties, map_add]
  exact ((hstep _ (.outpoint dmn.collateralOutpoint)).bind
    ((replaces_entries hash p fail old new hstep dmn.pdmnState.netInfo.getEntries).bind
    ((hstep _ (.id160 dmn.pdmnState.keyIDOwner)).bind
    ((replaces_optional hash p old new hstep _ (.operatorKey dmn.pdmnState.pubKeyOperator) rfl).bind
      hplatform)))).weaken
    fun h => ⟨h.collateral, h.netInfo, isNull_id160.mpr h.owner, trivial, trivial⟩

end Each

/-- A property that is replaced. Values that compare as equal must be equal,
because the call then leaves the map alone. -/
theorem replaces_update (e : ListError) (v w : UniqueProperty) (hsame : v.same w = true → v = w) :
    Replaces (fun map => ofOption e (updateUniqueProperty hash p v w map))
      p (bag hash v.optional) (bag hash w.optional) True := by
  unfold updateUniqueProperty
  cases hvw : v.same w with
  | true =>
    rw [hsame hvw]
    exact skip p _
  | false =>
    have hboth := (replaces_optional hash p (.id _) 0 (replaces_delete hash p) e v rfl).bind
      (replaces_optional hash p 0 (.id _) (replaces_add hash p) e w rfl)
    rw [AddMonoidHom.zero_apply, add_zero, AddMonoidHom.zero_apply, zero_add] at hboth
    simp only [Bool.false_eq_true, if_false, ofOption_bind]
    exact hboth.weaken fun _ => ⟨trivial, trivial⟩

theorem replaces_updateNetInfo (oldInfo newInfo : NetInfo) :
    Replaces (updateNetInfo hash p oldInfo newInfo) p
      (bag hash (entryProperties oldInfo.getEntries))
      (bag hash (entryProperties newInfo.getEntries)) (oldInfo.Listable ∧ newInfo.Listable) := by
  unfold updateNetInfo
  by_cases hsame : oldInfo = newInfo
  · rw [hsame]
    simp only [if_true]
    exact (skip p _).weaken fun _ => trivial
  · have hboth := (replaces_entries hash p .cantUpdate (.id _) 0 (replaces_delete hash p)
        oldInfo.getEntries).bind
      (replaces_entries hash p .cantUpdate 0 (.id _) (replaces_add hash p) newInfo.getEntries)
    rw [AddMonoidHom.zero_apply, add_zero, AddMonoidHom.zero_apply, zero_add] at hboth
    simp only [hsame, if_false]
    exact hboth

variable (dmn : CDeterministicMN)

theorem replaces_addProperties :
    Replaces (addProperties hash dmn) dmn.proTxHash 0 (bag hash dmn.properties) dmn.Listable :=
  replaces_properties hash _ .cantAdd 0 (.id _) (replaces_add hash _) dmn

theorem replaces_deleteProperties : Replaces (deleteProperties hash dmn) dmn.proTxHash
      (bag hash dmn.properties) 0 dmn.Listable :=
  replaces_properties hash _ .cantDelete (.id _) 0 (replaces_delete hash _) dmn

theorem replaces_updateProperties {pdmnState : CDeterministicMNState}
    (hscheme : SameScheme dmn.pdmnState pdmnState) :
    Replaces (updateProperties hash dmn pdmnState) dmn.proTxHash
      (bag hash dmn.properties) (bag hash { dmn with pdmnState := pdmnState }.properties)
      (dmn.pdmnState.netInfo.Listable ∧ pdmnState.netInfo.Listable) := by
  have hid : ∀ e (a b : Uint160), Replaces (fun map => ofOption e
      (updateUniqueProperty hash dmn.proTxHash (.id160 a) (.id160 b) map))
      dmn.proTxHash (bag hash (id160 a).optional)
      (bag hash (id160 b).optional) True := fun e a b =>
    replaces_update hash dmn.proTxHash e _ _ beq_iff_eq.mp
  have hplatform : Replaces (fun map => ofOption (ListError.cantUpdate .platformNodeID)
      (if dmn.nType = .evo then
        updateUniqueProperty hash dmn.proTxHash
          (.id160 dmn.pdmnState.platformNodeID)
          (.id160 pdmnState.platformNodeID) map
      else some map)) dmn.proTxHash
      (bag hash (if dmn.nType = .evo then (id160 dmn.pdmnState.platformNodeID).optional
      else []))
      (bag hash (if dmn.nType = .evo then (id160 pdmnState.platformNodeID).optional
      else [])) True := by
    by_cases hevo : dmn.nType = .evo
    · simp only [hevo, if_true]
      exact hid _ _ _
    · simp only [hevo, if_false]
      exact skip _ _
  rw [bag_properties, bag_properties]
  -- the collateral stays
  have hall := (skip dmn.proTxHash (bag hash (outpoint dmn.collateralOutpoint).optional)).bind
    ((replaces_updateNetInfo hash dmn.proTxHash dmn.pdmnState.netInfo pdmnState.netInfo).bind
    ((hid (.cantUpdate .keyIDOwner) dmn.pdmnState.keyIDOwner pdmnState.keyIDOwner).bind
    ((replaces_update hash dmn.proTxHash (.cantUpdate .pubKeyOperator)
      (.operatorKey dmn.pdmnState.pubKeyOperator) (.operatorKey pdmnState.pubKeyOperator)
      fun h => congrArg _ (hscheme h)).bind hplatform)))
  exact hall.weaken fun h => ⟨trivial, h, trivial, trivial, trivial⟩

end Sections

/-! ## The invariant -/

namespace CDeterministicMNList

variable {H : Type} (hash : UniqueProperty → H)

/-- The hashes of the properties of the masternode `p`. -/
def held (l : CDeterministicMNList H) (p : Uint256) : Multiset H :=
  (l.getMN p).elim 0 fun dmn => bag hash dmn.properties

variable {hash} {l l' : CDeterministicMNList H} {dmn : CDeterministicMN} {p : Uint256}

def Keyed (l : CDeterministicMNList H) : Prop :=
  ∀ ⦃p dmn⦄, l.getMN p = some dmn → dmn.proTxHash = p

theorem Keyed.set (hl : l.Keyed) {x : Option CDeterministicMN}
    (hx : ∀ dmn, x = some dmn → dmn.proTxHash = p)
    (h : ∀ q, l'.getMN q = if q = p then x else l.getMN q) : l'.Keyed := by
  intro q dmn hq
  rw [h] at hq
  split_ifs at hq with heq
  · rw [heq]
    exact hx dmn hq
  · exact hl hq

theorem held_of_getMN (h : l.getMN p = some dmn) : l.held hash p = bag hash dmn.properties := by
  rw [held, h, elim_some]

theorem held_of_getMN_eq_none (h : l.getMN p = none) : l.held hash p = 0 := by
  rw [held, h, elim_none]

theorem held_set {x : Option CDeterministicMN}
    (hget : ∀ q, l'.getMN q = if q = p then x else l.getMN q) :
    l'.held hash = update (l.held hash) p (x.elim 0 fun dmn => bag hash dmn.properties) := by
  funext q
  by_cases hq : q = p
  · subst hq
    rw [update_self, held, hget, if_pos rfl]
  · rw [update_of_ne hq, held, held, hget, if_neg hq]

variable [DecidableEq H]

variable (hash) in
structure Indexed (l : CDeterministicMNList H) : Prop where
  key : ∀ {p dmn}, l.getMN p = some dmn → dmn.proTxHash = p
  ids : ∀ {id p}, l.mnInternalIdMap.lookup id = some p ↔
    ∃ dmn, l.getMN p = some dmn ∧ dmn.internalId = id
  exact : Exact l.mnUniquePropertyMap (l.held hash)

theorem indexed_make (blockHash : Uint256) (nHeight : Int) (count : Nat) :
    (make blockHash nHeight count : CDeterministicMNList H).Indexed hash where
  key h := by cases h
  ids := by
    intro id p
    constructor
    · intro h
      cases h
    · rintro ⟨_, h, _⟩
      cases h
  exact := exact_empty

namespace Indexed

theorem id_unique (h : l.Indexed hash) {q : Uint256} {dmn' : CDeterministicMN}
    (hp : l.getMN p = some dmn) (hq : l.getMN q = some dmn')
    (hid : dmn.internalId = dmn'.internalId) : p = q := by
  have hlookup := h.ids.mpr ⟨dmn, hp, rfl⟩
  rw [hid, h.ids.mpr ⟨dmn', hq, rfl⟩] at hlookup
  exact (some.inj hlookup).symm

theorem getMNByInternalId_eq (h : l.Indexed hash) {id : Nat} :
    l.getMNByInternalId id = some dmn ↔ l.getMN dmn.proTxHash = some dmn ∧ dmn.internalId = id := by
  constructor
  · intro hget
    obtain ⟨p, hp, hdmn⟩ := bind_eq_some_iff.mp hget
    obtain ⟨dmn', hdmn', hid⟩ := h.ids.mp hp
    rw [hdmn] at hdmn'
    cases hdmn'
    rw [h.key hdmn]
    exact ⟨hdmn, hid⟩
  · rintro ⟨hget, hid⟩
    exact bind_eq_some_iff.mpr ⟨dmn.proTxHash, h.ids.mpr ⟨dmn, hget, hid⟩, hget⟩

end Indexed

/-! ## Adding -/

theorem addMN_eq_ok {b : Bool} (h : l.addMN hash dmn b = .ok l') : l.getMN dmn.proTxHash = none ∧
    l.mnInternalIdMap.lookup dmn.internalId = none ∧
    addProperties hash dmn l.mnUniquePropertyMap = .ok l'.mnUniquePropertyMap ∧
    l'.mnMap = l.mnMap.insert dmn.proTxHash dmn ∧
    l'.mnInternalIdMap = l.mnInternalIdMap.insert dmn.internalId dmn.proTxHash ∧
    l'.nTotalRegisteredCount = (if b then max (dmn.internalId + 1) l.nTotalRegisteredCount % 2 ^ 32
        else l.nTotalRegisteredCount) ∧ l'.blockHash = l.blockHash ∧ l'.nHeight = l.nHeight := by
  unfold addMN at h
  by_cases hlisted : (l.getMN dmn.proTxHash).isSome = true
  · rw [if_pos hlisted] at h
    cases h
  by_cases hid : (l.mnInternalIdMap.lookup dmn.internalId).isSome = true
  · rw [if_neg hlisted, if_pos hid] at h
    cases h
  rw [if_neg hlisted, if_neg hid] at h
  obtain ⟨map, hmap, hl'⟩ := bind_eq_ok_iff.mp h
  cases hl'
  exact ⟨not_isSome_iff_eq_none.mp hlisted,
    not_isSome_iff_eq_none.mp hid, hmap, rfl, rfl, rfl, rfl, rfl⟩

theorem getMN_addMN {b : Bool} (h : l.addMN hash dmn b = .ok l') (q : Uint256) :
    l'.getMN q = if q = dmn.proTxHash then some dmn else l.getMN q := by
  obtain ⟨_, _, _, hmap, _⟩ := addMN_eq_ok h
  rw [getMN, hmap]
  exact lookup_insert_eq _ _ _ _

theorem Keyed.addMN (hl : l.Keyed) {b : Bool} (h : l.addMN hash dmn b = .ok l') : l'.Keyed :=
  hl.set (fun _ hdmn => by cases hdmn; rfl) (getMN_addMN h)

theorem Indexed.addMN (hl : l.Indexed hash) {b : Bool}
    (h : l.addMN hash dmn b = .ok l') : l'.Indexed hash := by
  have hget := getMN_addMN h
  obtain ⟨hnew, hid, hproperties, _, hidMap, _⟩ := addMN_eq_ok h
  refine ⟨?_, ?_, ?_⟩
  · exact fun hq => Keyed.addMN (fun _ _ => hl.key) h hq
  · intro id q
    rw [hidMap, lookup_insert_eq]
    split_ifs with heq
    · subst heq
      constructor
      · intro hq
        cases hq
        exact ⟨dmn, by rw [hget, if_pos rfl], rfl⟩
      · rintro ⟨dmn', hq, hsame⟩
        rw [hget] at hq
        split_ifs at hq with heq
        · rw [heq]
        · -- no listed masternode had this id
          rw [hl.ids.mpr ⟨dmn', hq, hsame⟩] at hid
          cases hid
    · rw [hl.ids]
      refine exists_congr fun dmn' => and_congr_left fun hsame => ?_
      rw [hget]
      split_ifs with hq
      · subst hq
        rw [hnew]
        refine ⟨fun h => (by cases h), fun h => absurd ?_ heq⟩
        rw [← hsame, some.inj h]
      · exact Iff.rfl
  · rw [held_set hget]
    exact (replaces_addProperties hash dmn).exact_bag hl.exact
      (held_of_getMN_eq_none hnew) hproperties

theorem Indexed.exists_addMN (hl : l.Indexed hash) (b : Bool) (hnew : l.getMN dmn.proTxHash = none)
    (hid : ∀ q dmn', l.getMN q = some dmn' → dmn'.internalId ≠ dmn.internalId)
    (hlistable : dmn.Listable)
    (hfree : ∀ k ∈ bag hash dmn.properties, ∀ q, q ≠ dmn.proTxHash → k ∉ l.held hash q) :
    ∃ l', l.addMN hash dmn b = .ok l' := by
  have hidNone : l.mnInternalIdMap.lookup dmn.internalId = none := by
    cases hlookup : l.mnInternalIdMap.lookup dmn.internalId with
    | none => rfl
    | some q =>
      obtain ⟨dmn', hq, hsame⟩ := hl.ids.mp hlookup
      exact absurd hsame (hid q dmn' hq)
  obtain ⟨map, hmap⟩ := (replaces_addProperties hash dmn).progress_bag hl.exact
    (held_of_getMN_eq_none hnew) hlistable hfree
  unfold CDeterministicMNList.addMN
  rw [hnew, hidNone, hmap]
  exact ⟨_, rfl⟩

/-! ## Updating -/

variable {state : CDeterministicMNState}

theorem updateMNState_eq_ok (h : l.updateMNState hash dmn state = .ok l') :
    updateProperties hash dmn state l.mnUniquePropertyMap = .ok l'.mnUniquePropertyMap ∧
    l'.mnMap = l.mnMap.insert dmn.proTxHash { dmn with pdmnState := state } ∧
    l'.mnInternalIdMap = l.mnInternalIdMap ∧
    l'.nTotalRegisteredCount = l.nTotalRegisteredCount ∧
    l'.blockHash = l.blockHash ∧ l'.nHeight = l.nHeight := by
  obtain ⟨map, hmap, hl'⟩ := bind_eq_ok_iff.mp h
  cases hl'
  exact ⟨hmap, rfl, rfl, rfl, rfl, rfl⟩

theorem getMN_updateMNState (h : l.updateMNState hash dmn state = .ok l') (q : Uint256) :
    l'.getMN q = if q = dmn.proTxHash then some { dmn with pdmnState := state }
      else l.getMN q := by
  obtain ⟨_, hmap, _⟩ := updateMNState_eq_ok h
  rw [getMN, hmap]
  exact lookup_insert_eq _ _ _ _

theorem Keyed.updateMNState (hl : l.Keyed)
    (h : l.updateMNState hash dmn state = .ok l') : l'.Keyed :=
  hl.set (fun _ hdmn => by cases hdmn; rfl) (getMN_updateMNState h)

theorem Indexed.updateMNState (hl : l.Indexed hash)
    (hlisted : l.getMN dmn.proTxHash = some dmn) (hscheme : SameScheme dmn.pdmnState state)
    (h : l.updateMNState hash dmn state = .ok l') : l'.Indexed hash := by
  have hget := getMN_updateMNState h
  obtain ⟨hproperties, _, hidMap, _⟩ := updateMNState_eq_ok h
  refine ⟨?_, ?_, ?_⟩
  · exact fun hq => Keyed.updateMNState (fun _ _ => hl.key) h hq
  · intro id q
    rw [hidMap, hl.ids]
    by_cases hq : q = dmn.proTxHash
    · subst hq
      rw [hget, if_pos rfl, hlisted]
      constructor
      · rintro ⟨dmn', hsame, hid⟩
        exact ⟨_, rfl, by rw [← hid, ← some.inj hsame]⟩
      · rintro ⟨dmn', hsame, hid⟩
        exact ⟨dmn, rfl, by rw [← hid, ← some.inj hsame]⟩
    · rw [hget, if_neg hq]
  · rw [held_set hget]
    exact (replaces_updateProperties hash dmn hscheme).exact_bag hl.exact
      (held_of_getMN hlisted) hproperties

theorem Indexed.exists_updateMNState (hl : l.Indexed hash)
    (hlisted : l.getMN dmn.proTxHash = some dmn)
    {state : CDeterministicMNState} (hscheme : SameScheme dmn.pdmnState state)
    (hold : dmn.pdmnState.netInfo.Listable) (hnew : state.netInfo.Listable)
    (hfree : ∀ k ∈ bag hash { dmn with pdmnState := state }.properties,
      ∀ q, q ≠ dmn.proTxHash → k ∉ l.held hash q) :
    ∃ l', l.updateMNState hash dmn state = .ok l' := by
  obtain ⟨map, hmap⟩ := (replaces_updateProperties hash dmn
    hscheme).progress_bag hl.exact (held_of_getMN hlisted) ⟨hold, hnew⟩ hfree
  unfold CDeterministicMNList.updateMNState
  rw [hmap]
  exact ⟨_, rfl⟩

/-! ## Removing -/

theorem removeMN_eq_ok (h : l.removeMN hash p = .ok l') : ∃ dmn, l.getMN p = some dmn ∧
    deleteProperties hash dmn l.mnUniquePropertyMap = .ok l'.mnUniquePropertyMap ∧
    l'.mnMap = l.mnMap.erase p ∧ l'.mnInternalIdMap = l.mnInternalIdMap.erase dmn.internalId ∧
    l'.nTotalRegisteredCount = l.nTotalRegisteredCount ∧
    l'.blockHash = l.blockHash ∧ l'.nHeight = l.nHeight := by
  obtain ⟨dmn, hdmn, map, hmap, hl'⟩ := bind₂_eq_ok_iff.mp h
  cases hl'
  exact ⟨dmn, ofOption_eq_ok_iff.mp hdmn, hmap, rfl, rfl, rfl, rfl, rfl⟩

theorem getMN_removeMN (h : l.removeMN hash p = .ok l') (q : Uint256) :
    l'.getMN q = if q = p then none else l.getMN q := by
  obtain ⟨_, _, _, hmap, _⟩ := removeMN_eq_ok h
  rw [getMN, hmap]
  exact lookup_erase_eq _ _ _

theorem Keyed.removeMN (hl : l.Keyed) (h : l.removeMN hash p = .ok l') : l'.Keyed :=
  hl.set (fun _ hdmn => by cases hdmn) (getMN_removeMN h)

theorem Indexed.removeMN (hl : l.Indexed hash)
    (h : l.removeMN hash p = .ok l') : l'.Indexed hash := by
  have hget := getMN_removeMN h
  obtain ⟨dmn, hlisted, hproperties, _, hidMap, _⟩ := removeMN_eq_ok h
  refine ⟨?_, ?_, ?_⟩
  · exact fun hq => Keyed.removeMN (fun _ _ => hl.key) h hq
  · intro id q
    rw [hidMap, lookup_erase_eq]
    split_ifs with heq
    · subst heq
      refine ⟨fun h => (by cases h), ?_⟩
      rintro ⟨dmn', hq, hsame⟩
      rw [hget] at hq
      split_ifs at hq with heq
      exact absurd (hl.id_unique hq hlisted hsame) heq
    · rw [hl.ids]
      refine exists_congr fun dmn' => and_congr_left fun hsame => ?_
      rw [hget]
      split_ifs with hq
      · subst hq
        rw [hlisted]
        refine ⟨fun h => absurd ?_ heq, fun h => (by cases h)⟩
        rw [← hsame, some.inj h]
      · exact Iff.rfl
  · rw [held_set hget]
    have hp := hl.key hlisted
    subst hp
    exact (replaces_deleteProperties hash dmn).exact_bag hl.exact
      (held_of_getMN hlisted) hproperties

theorem Indexed.exists_removeMN (hl : l.Indexed hash)
    (hlisted : l.getMN p = some dmn) (hlistable : dmn.Listable) :
    ∃ l', l.removeMN hash p = .ok l' := by
  have hp := hl.key hlisted
  subst hp
  obtain ⟨map, hmap⟩ := (replaces_deleteProperties hash dmn).progress_bag
    hl.exact (held_of_getMN hlisted) hlistable (fun k hk => by cases hk)
  unfold CDeterministicMNList.removeMN
  rw [hlisted]
  show ∃ l', (deleteProperties hash dmn l.mnUniquePropertyMap >>= _) = _
  rw [hmap]
  exact ⟨_, rfl⟩

end CDeterministicMNList

end KorshCore

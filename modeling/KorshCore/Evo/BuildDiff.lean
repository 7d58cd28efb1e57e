import KorshCore.Evo.QuietSteps

/-!
# What `BuildDiff` collects

The three parts of the difference between two lists, said in terms of their
masternodes and not of the order of the maps.
-/

namespace KorshCore

open Holdings CDeterministicMN List

namespace CDeterministicMNList

variable {H : Type} [DecidableEq H] {hash : UniqueProperty → H} {l l' : CDeterministicMNList H}
  {id : Nat}

/-! ## The loops -/

theorem mem_emplaceId {x : Nat} {ids : List Nat} : x ∈ emplaceId id ids ↔ x = id ∨ x ∈ ids := by
  unfold emplaceId
  split_ifs with h
  · constructor
    · exact .inr
    · rintro (rfl | hx)
      · exact h
      · exact hx
  · exact mem_orderedInsert _

theorem nodup_emplaceId {ids : List Nat} (h : ids.Nodup) : (emplaceId id ids).Nodup := by
  unfold emplaceId
  split_ifs with hid
  · exact h
  · exact (perm_orderedInsert _ id ids).nodup_iff.mpr (nodup_cons.mpr ⟨hid, h⟩)

theorem length_emplaceId {ids : List Nat} (h : id ∉ ids) :
    (emplaceId id ids).length = ids.length + 1 := by
  rw [emplaceId, if_neg h, orderedInsert_length]

def lacks (l : CDeterministicMNList H) (dmn : CDeterministicMN) : Bool :=
  (l.getMN dmn.proTxHash).isNone

section Parts

omit [DecidableEq H]

/-- The loop collects the ids of all masternodes that are gone, also when it
stops early. `size` is chosen so that it stops only when none is left. -/
theorem mem_collectRemoved {size : Nat} : ∀ {dmns : List CDeterministicMN} {removed : List Nat},
    ((dmns.filter l'.lacks).map internalId).Nodup →
    (∀ id ∈ (dmns.filter l'.lacks).map internalId, id ∉ removed) →
    size = removed.length + (dmns.filter l'.lacks).length + l'.mnMap.entries.length →
    ∀ id, id ∈ collectRemoved l' size dmns removed ↔
      id ∈ removed ∨ id ∈ (dmns.filter l'.lacks).map internalId := by
  intro dmns
  induction dmns with
  | nil => intro removed _ _ _ id; simp [collectRemoved]
  | cons dmn dmns ih =>
    intro removed hnodup hnew hsize id
    unfold collectRemoved
    by_cases hgone : l'.lacks dmn = true
    · rw [filter_cons_of_pos hgone] at hnodup hsize hnew ⊢
      rw [map_cons, nodup_cons] at hnodup
      rw [map_cons, forall_mem_cons] at hnew
      rw [length_cons] at hsize
      have hlength := length_emplaceId hnew.1
      have hnone : ¬ (l'.getMN dmn.proTxHash).isSome = true := by
        rw [Option.isNone_iff_eq_none.mp hgone]
        simp
      rw [map_cons, mem_cons, ← or_assoc, or_comm (b := id = dmn.internalId), ← mem_emplaceId]
      split_ifs with hstop
      · -- the sizes fit, so nothing that is gone is left
        have hrest : dmns.filter l'.lacks = [] := by
          apply eq_nil_of_length_eq_zero
          omega
        rw [hrest, map_nil]
        simp only [not_mem_nil, or_false]
      · refine ih hnodup.2 (fun x hx => ?_) (by omega) id
        rw [mem_emplaceId, not_or]
        exact ⟨fun heq => hnodup.1 (heq ▸ hx), hnew.2 x hx⟩
    · rw [filter_cons_of_neg hgone] at hnodup hsize hnew ⊢
      have hsome : (l'.getMN dmn.proTxHash).isSome = true := by
        rw [lacks, Option.isNone_iff_eq_none] at hgone
        exact Option.isSome_iff_ne_none.mpr hgone
      rw [if_pos hsome]
      exact ih hnodup hnew hsize id

theorem nodup_collectRemoved {size : Nat} : ∀ {dmns : List CDeterministicMN}
    {removed : List Nat}, removed.Nodup → (collectRemoved l' size dmns removed).Nodup := by
  intro dmns
  induction dmns with
  | nil => intro removed h; exact h
  | cons dmn dmns ih =>
    intro removed h
    unfold collectRemoved
    split_ifs
    · exact ih h
    · exact nodup_emplaceId h
    · exact ih (nodup_emplaceId h)

variable (l l')

theorem perm_addedMNs : (l.buildDiff l').addedMNs.Perm (l.newMNs l') :=
  perm_insertionSort _ _

theorem sorted_addedMNs : ((l.buildDiff l').addedMNs.map internalId).Pairwise (· ≤ ·) := by
  have hsorted := pairwise_insertionSort
    (fun a b : CDeterministicMN => a.internalId ≤ b.internalId) (l.newMNs l')
  exact pairwise_map.mpr hsorted

theorem length_split : (l.mns.filter fun dmn => (l'.getMN dmn.proTxHash).isSome).length
      + (l.mns.filter l'.lacks).length = l.mnMap.entries.length := by
  have hnot : l'.lacks = fun dmn => !(l'.getMN dmn.proTxHash).isSome := by
    funext dmn
    rw [Option.not_isSome, lacks]
  have hlength : l.mns.length = l.mnMap.entries.length := length_map _
  rw [hnot, ← hlength]
  exact (length_eq_length_filter_add _).symm

theorem nodup_removedMns : (l.buildDiff l').removedMns.Nodup := by
  unfold buildDiff
  split_ifs
  · exact nodup_collectRemoved nodup_nil
  · exact nodup_nil

theorem ids_changedMNs_sublist : ((l.changedMNs l').map Prod.fst).Sublist
      (l'.mns.map internalId) := by
  unfold changedMNs
  induction l'.mns with
  | nil => exact .slnil
  | cons dmn dmns ih =>
    cases hget : l.getMN dmn.proTxHash with
    | none =>
      rw [filterMap_cons_none (by rw [hget]; rfl)]
      exact ih.cons _
    | some a =>
      by_cases hempty : CDeterministicMNStateDiff.diff a.pdmnState dmn.pdmnState = .empty
      · rw [filterMap_cons_none (by rw [hget]; exact if_pos hempty)]
        exact ih.cons _
      · rw [filterMap_cons_some (by rw [hget]; exact if_neg hempty)]
        exact ih.cons_cons _

end Parts

theorem mem_addedMNs (hl' : l'.Indexed hash) {dmn : CDeterministicMN} :
    dmn ∈ (l.buildDiff l').addedMNs ↔
      l'.getMN dmn.proTxHash = some dmn ∧ l.getMN dmn.proTxHash = none := by
  rw [(perm_addedMNs l l').mem_iff, newMNs, mem_filter, hl'.mem_mns_iff, Option.isNone_iff_eq_none]

theorem nodup_addedMNs (hl' : l'.Indexed hash) :
    ((l.buildDiff l').addedMNs.map proTxHash).Nodup := by
  rw [((perm_addedMNs l l').map _).nodup_iff]
  exact hl'.nodup_mns.sublist (filter_sublist.map _)

/-! ## Removed masternodes -/

theorem length_common (hl : l.Indexed hash) (hl' : l'.Indexed hash) :
    (l.mns.filter fun dmn => (l'.getMN dmn.proTxHash).isSome).length
      = (l'.mns.filter fun dmn => (l.getMN dmn.proTxHash).isSome).length := by
  have hmem : ∀ {x y : CDeterministicMNList H}, x.Indexed hash → ∀ p,
      p ∈ (x.mns.filter fun dmn => (y.getMN dmn.proTxHash).isSome).map proTxHash ↔
      (x.getMN p).isSome = true ∧ (y.getMN p).isSome = true := by
    intro x y hx p
    rw [mem_map]
    constructor
    · rintro ⟨dmn, hdmn, rfl⟩
      obtain ⟨hlisted, hother⟩ := mem_filter.mp hdmn
      rw [hx.mem_mns_iff.mp hlisted]
      exact ⟨rfl, hother⟩
    · rintro ⟨hp, hother⟩
      obtain ⟨dmn, hdmn⟩ := Option.isSome_iff_exists.mp hp
      obtain rfl := hx.key hdmn
      exact ⟨dmn, mem_filter.mpr ⟨hx.mem_mns_iff.mpr hdmn, hother⟩, rfl⟩
  have hperm := (perm_ext_iff_of_nodup
    (hl.nodup_mns.sublist ((filter_sublist (p := fun dmn : CDeterministicMN =>
      (l'.getMN dmn.proTxHash).isSome)).map _))
    (hl'.nodup_mns.sublist ((filter_sublist (p := fun dmn : CDeterministicMN =>
      (l.getMN dmn.proTxHash).isSome)).map _))).mpr fun p => by
        rw [hmem hl, hmem hl', and_comm]
  have hlength := hperm.length_eq
  rwa [length_map, length_map] at hlength

theorem Indexed.nodup_ids (hl : l.Indexed hash) : (l.mns.map internalId).Nodup := by
  refine (nodup_map_iff_inj_on (hl.nodup_mns.of_map _)).mpr ?_
  intro a ha b hb hid
  have ha := hl.mem_mns_iff.mp ha
  have hb := hl.mem_mns_iff.mp hb
  rw [← hl.id_unique ha hb hid, ha] at hb
  exact Option.some.inj hb

theorem mem_removedMns (hl : l.Indexed hash) (hl' : l'.Indexed hash) :
    id ∈ (l.buildDiff l').removedMns ↔
      ∃ p dmn, l.getMN p = some dmn ∧ l'.getMN p = none ∧ dmn.internalId = id := by
  have hsize := length_split l l'
  have hsize' := length_split l' l
  have hnewlen : (l'.mns.filter l.lacks).length = (l.newMNs l').length := rfl
  rw [← length_common hl hl'] at hsize'
  have hgone : id ∈ (l.mns.filter l'.lacks).map internalId ↔
      ∃ p dmn, l.getMN p = some dmn ∧ l'.getMN p = none ∧ dmn.internalId = id := by
    rw [mem_map]
    constructor
    · rintro ⟨dmn, hdmn, hid⟩
      obtain ⟨hlisted, hnone⟩ := mem_filter.mp hdmn
      exact ⟨_, dmn, hl.mem_mns_iff.mp hlisted, Option.isNone_iff_eq_none.mp hnone, hid⟩
    · rintro ⟨p, dmn, hdmn, hnone, hid⟩
      obtain rfl := hl.key hdmn
      exact ⟨dmn, mem_filter.mpr ⟨hl.mem_mns_iff.mpr hdmn,
        Option.isNone_iff_eq_none.mpr hnone⟩, hid⟩
  rw [← hgone, buildDiff]
  split_ifs with hdiffer
  · rw [mem_collectRemoved (hl.nodup_ids.sublist (filter_sublist.map _))
      (fun _ _ => not_mem_nil) (by rw [length_nil]; omega)]
    simp only [not_mem_nil, false_or]
  · -- the sizes fit from the start
    have hnone : l.mns.filter l'.lacks = [] := by
      apply eq_nil_of_length_eq_zero
      omega
    rw [hnone]
    rfl

theorem lookup_updatedMNs (hl' : l'.Indexed hash) {stateDiff : CDeterministicMNStateDiff} :
    (l.buildDiff l').updatedMNs.lookup id = some stateDiff ↔
      ∃ p a b, l.getMN p = some a ∧ l'.getMN p = some b ∧ b.internalId = id ∧
        stateDiff = .diff a.pdmnState b.pdmnState ∧ stateDiff ≠ .empty := by
  have hnodup := hl'.nodup_ids.sublist (ids_changedMNs_sublist l l')
  show (KeyedMap.ofList (l.changedMNs l')).lookup id = some stateDiff ↔ _
  rw [KeyedMap.lookup_ofList hnodup, changedMNs, mem_filterMap]
  constructor
  · rintro ⟨b, hb, hstep⟩
    obtain ⟨a, ha, hstep⟩ := Option.bind_eq_some_iff.mp hstep
    dsimp only at hstep
    split_ifs at hstep with hempty
    cases hstep
    exact ⟨_, a, b, ha, hl'.mem_mns_iff.mp hb, rfl, rfl, hempty⟩
  · rintro ⟨p, a, b, ha, hb, rfl, rfl, hne⟩
    obtain rfl := hl'.key hb
    refine ⟨b, hl'.mem_mns_iff.mpr hb, Option.bind_eq_some_iff.mpr ⟨a, ha, ?_⟩⟩
    exact if_neg hne

end CDeterministicMNList

end KorshCore

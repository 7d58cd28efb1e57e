import KorshCore.Evo.MNListInvariant

/-!
# What `ApplyDiff` does to a masternode list

`ApplyDiff` runs three loops over a list that satisfies `Indexed`.
-/

namespace KorshCore

open Holdings Except List

namespace CDeterministicMNList

variable {H : Type} [DecidableEq H] {hash : UniqueProperty → H} {l l' : CDeterministicMNList H}

/-- The parts of a list that `Indexed` does not speak about stay. -/
structure SameHeader (l l' : CDeterministicMNList H) : Prop where
  blockHash : l'.blockHash = l.blockHash
  nHeight : l'.nHeight = l.nHeight

omit [DecidableEq H] in
theorem SameHeader.refl (l : CDeterministicMNList H) : SameHeader l l := ⟨rfl, rfl⟩

omit [DecidableEq H] in
theorem SameHeader.trans {l₁ l₂ l₃ : CDeterministicMNList H}
    (h : SameHeader l₁ l₂) (h' : SameHeader l₂ l₃) : SameHeader l₁ l₃ :=
  ⟨h'.blockHash.trans h.blockHash, h'.nHeight.trans h.nHeight⟩

theorem applyRemoved_effect (hl : l.Indexed hash) {id : Nat} (h : l.applyRemoved hash id = .ok l') :
    l'.Indexed hash ∧ SameHeader l l' ∧ l'.nTotalRegisteredCount = l.nTotalRegisteredCount ∧
    ∀ q, l'.getMN q = (l.getMN q).filter fun dmn => dmn.internalId ≠ id := by
  obtain ⟨dmn, hdmn, hremove⟩ := bind_eq_ok_iff.mp h
  obtain ⟨hlisted, hid⟩ := hl.getMNByInternalId_eq.mp (ofOption_eq_ok_iff.mp hdmn)
  obtain ⟨_, _, _, _, _, hcount, hhash, hheight⟩ := removeMN_eq_ok hremove
  refine ⟨hl.removeMN hremove, ⟨hhash, hheight⟩, hcount, fun q => ?_⟩
  rw [getMN_removeMN hremove]
  split_ifs with hq
  · rw [hq, hlisted, Option.filter_some, if_neg (by simp [hid])]
  · cases hdmn' : l.getMN q with
    | none => rfl
    | some dmn' =>
      have hne : dmn'.internalId ≠ id := by
        intro heq
        exact hq (hl.id_unique hdmn' hlisted (heq.trans hid.symm))
      rw [Option.filter_some, if_pos (by simp [hne])]

theorem foldlM_applyRemoved_effect (hl : l.Indexed hash) {ids : List Nat}
    (h : ids.foldlM (applyRemoved hash) l = .ok l') : l'.Indexed hash ∧ SameHeader l l' ∧
    l'.nTotalRegisteredCount = l.nTotalRegisteredCount ∧
    ∀ q, l'.getMN q = (l.getMN q).filter fun dmn => dmn.internalId ∉ ids := by
  induction ids generalizing l with
  | nil =>
    cases h
    refine ⟨hl, .refl _, rfl, fun q => ?_⟩
    cases l'.getMN q with
    | none => rfl
    | some dmn => rw [Option.filter_some, if_pos (by simp)]
  | cons id ids ih =>
    obtain ⟨l₁, h₁, hrest⟩ := bind_eq_ok_iff.mp h
    obtain ⟨hl₁, hheader₁, hcount₁, hget₁⟩ := applyRemoved_effect hl h₁
    obtain ⟨hl', hheader, hcount, hget⟩ := ih hl₁ hrest
    refine ⟨hl', hheader₁.trans hheader, hcount.trans hcount₁, fun q => ?_⟩
    rw [hget, hget₁]
    cases l.getMN q with
    | none => rfl
    | some dmn =>
      simp only [Option.filter_filter, mem_cons, not_or, ne_eq, Bool.decide_and]

/-- The counter after masternodes with these ids were added. -/
def countAfter (ids : List Nat) (count : Nat) : Nat :=
  ids.foldl (fun count id => max (id + 1) count % 2 ^ 32) count

theorem foldlM_addMN_effect (hl : l.Indexed hash) {b : Bool} {added : List CDeterministicMN}
    (h : added.foldlM (fun l dmn => l.addMN hash dmn b) l = .ok l') :
    l'.Indexed hash ∧ SameHeader l l' ∧ l'.nTotalRegisteredCount = (if b then countAfter
      (added.map CDeterministicMN.internalId) l.nTotalRegisteredCount
      else l.nTotalRegisteredCount) ∧
    ∀ q dmn, l'.getMN q = some dmn ↔ l.getMN q = some dmn ∨ dmn ∈ added ∧ dmn.proTxHash = q := by
  induction added generalizing l with
  | nil =>
    cases h
    exact ⟨hl, .refl _, (ite_self _).symm, fun q dmn => by simp⟩
  | cons new added ih =>
    obtain ⟨l₁, h₁, hrest⟩ := bind_eq_ok_iff.mp h
    obtain ⟨hnew, _, _, _, _, hcount₁, hhash₁, hheight₁⟩ := addMN_eq_ok h₁
    obtain ⟨hl', hheader, hcount, hget⟩ := ih (hl.addMN h₁) hrest
    refine ⟨hl', .trans ⟨hhash₁, hheight₁⟩ hheader, ?_, fun q dmn => ?_⟩
    · rw [hcount, hcount₁]
      cases b <;> rfl
    · rw [hget, getMN_addMN h₁, mem_cons, or_and_right, ← or_assoc]
      refine or_congr_left ?_
      split_ifs with hq
      · subst hq
        rw [hnew, Option.some.injEq]
        constructor
        · intro hsame
          exact .inr ⟨hsame.symm, congrArg _ hsame.symm⟩
        · rintro (h | ⟨hsame, _⟩)
          · cases h
          · exact hsame.symm
      · constructor
        · exact .inl
        · rintro (h | ⟨hsame, hkey⟩)
          · exact h
          · exact absurd (hsame ▸ hkey.symm) hq

/-! ## Updates -/

/-- A masternode after the updates of `entries`. -/
def updated (entries : List (Sigma fun _ : Nat => CDeterministicMNStateDiff))
    (dmn : CDeterministicMN) : CDeterministicMN :=
  match entries.dlookup dmn.internalId with
  | none => dmn
  | some stateDiff =>
    { dmn with pdmnState := stateDiff.applyToState dmn.pdmnState }

@[simp] theorem internalId_updated
    (entries : List (Sigma fun _ : Nat => CDeterministicMNStateDiff)) (dmn : CDeterministicMN) :
    (updated entries dmn).internalId = dmn.internalId := by
  unfold updated
  split <;> rfl

def KeepsScheme (entries : List (Sigma fun _ : Nat => CDeterministicMNStateDiff))
    (dmn : CDeterministicMN) : Prop :=
  ∀ stateDiff, entries.dlookup dmn.internalId = some stateDiff →
    SameScheme dmn.pdmnState (stateDiff.applyToState dmn.pdmnState)

variable {e : Sigma fun _ : Nat => CDeterministicMNStateDiff}

theorem updated_of_ne {dmn : CDeterministicMN} (hid : dmn.internalId ≠ e.1) :
    updated [e] dmn = dmn := by
  unfold updated
  rw [dlookup_cons_ne [] e hid, dlookup_nil]

theorem applyUpdated_effect (hl : l.Indexed hash)
    (hscheme : ∀ q dmn, l.getMN q = some dmn → KeepsScheme [e] dmn)
    (h : l.applyUpdated hash e = .ok l') : l'.Indexed hash ∧ SameHeader l l' ∧
    l'.nTotalRegisteredCount = l.nTotalRegisteredCount ∧
    ∀ q, l'.getMN q = (l.getMN q).map (updated [e]) := by
  obtain ⟨dmn, hdmn, hupdate⟩ := bind_eq_ok_iff.mp h
  obtain ⟨hlisted, hid⟩ := hl.getMNByInternalId_eq.mp (ofOption_eq_ok_iff.mp hdmn)
  have hself : [e].dlookup dmn.internalId = some e.2 := by
    rw [hid]
    exact dlookup_cons_eq [] _ _
  obtain ⟨_, _, _, hcount, hhash, hheight⟩ := updateMNState_eq_ok hupdate
  refine ⟨hl.updateMNState hlisted (hscheme _ _ hlisted _ hself) hupdate,
    ⟨hhash, hheight⟩, hcount, fun q => ?_⟩
  rw [getMN_updateMNState hupdate]
  split_ifs with hq
  · rw [hq, hlisted, Option.map_some, updated, hself]
  · cases hdmn' : l.getMN q with
    | none => rfl
    | some dmn' =>
      have hne : dmn'.internalId ≠ e.1 := by
        intro heq
        exact hq (hl.id_unique hdmn' hlisted (heq.trans hid.symm))
      rw [Option.map_some, updated_of_ne hne]

variable {entries : List (Sigma fun _ : Nat => CDeterministicMNStateDiff)}

theorem updated_cons (hnew : e.1 ∉ entries.keys) (dmn : CDeterministicMN) :
    updated (e :: entries) dmn = updated entries (updated [e] dmn) := by
  by_cases hid : dmn.internalId = e.1
  · have hnone : entries.dlookup (updated [e] dmn).internalId = none := by
      rw [internalId_updated, hid]
      exact dlookup_eq_none.mpr hnew
    conv_rhs => rw [updated, hnone]
    unfold updated
    rw [hid, dlookup_cons_eq, dlookup_cons_eq]
  · rw [updated_of_ne hid]
    unfold updated
    rw [dlookup_cons_ne entries e hid]

theorem KeepsScheme.tail (hnew : e.1 ∉ entries.keys) {dmn : CDeterministicMN}
    (h : KeepsScheme (e :: entries) dmn) : KeepsScheme entries (updated [e] dmn) := by
  intro stateDiff hlookup
  rw [internalId_updated] at hlookup
  have hid : dmn.internalId ≠ e.1 := by
    intro heq
    rw [heq, dlookup_eq_none.mpr hnew] at hlookup
    cases hlookup
  rw [updated_of_ne hid]
  exact h stateDiff (by rwa [dlookup_cons_ne entries e hid])

theorem KeepsScheme.head {dmn : CDeterministicMN} (h : KeepsScheme (e :: entries) dmn) :
    KeepsScheme [e] dmn := by
  intro stateDiff hlookup
  by_cases hid : dmn.internalId = e.1
  · rw [hid, dlookup_cons_eq] at hlookup
    exact h stateDiff (by rw [hid, dlookup_cons_eq, hlookup])
  · rw [dlookup_cons_ne [] e hid] at hlookup
    cases hlookup

theorem foldlM_applyUpdated_effect (hnodup : entries.NodupKeys) (hl : l.Indexed hash)
    (hscheme : ∀ q dmn, l.getMN q = some dmn → KeepsScheme entries dmn)
    (h : entries.foldlM (applyUpdated hash) l = .ok l') : l'.Indexed hash ∧ SameHeader l l' ∧
    l'.nTotalRegisteredCount = l.nTotalRegisteredCount ∧
    ∀ q, l'.getMN q = (l.getMN q).map (updated entries) := by
  induction entries generalizing l with
  | nil =>
    cases h
    refine ⟨hl, .refl _, rfl, fun q => ?_⟩
    have hid : updated [] = id := rfl
    rw [hid, Option.map_id_apply]
  | cons e entries ih =>
    obtain ⟨hnew, htail⟩ := nodupKeys_cons.mp hnodup
    obtain ⟨l₁, h₁, hrest⟩ := bind_eq_ok_iff.mp h
    obtain ⟨hl₁, hheader₁, hcount₁, hget₁⟩ := applyUpdated_effect hl
      (fun q dmn hq => (hscheme q dmn hq).head) h₁
    obtain ⟨hl', hheader, hcount, hget⟩ := ih htail hl₁ (by
      intro q dmn hq
      rw [hget₁] at hq
      obtain ⟨dmn₀, hdmn₀, rfl⟩ := Option.map_eq_some_iff.mp hq
      exact (hscheme q dmn₀ hdmn₀).tail hnew) hrest
    refine ⟨hl', hheader₁.trans hheader, hcount.trans hcount₁, fun q => ?_⟩
    rw [hget, hget₁, Option.map_map]
    exact congrArg (Option.map · (l.getMN q)) (funext fun dmn => (updated_cons hnew dmn).symm)

omit [DecidableEq H] in
@[simp] theorem getMN_setHeader (l : CDeterministicMNList H)
    (blockHash : Uint256) (nHeight : Int) (q : Uint256) :
    { l with blockHash := blockHash, nHeight := nHeight }.getMN q = l.getMN q := rfl

theorem Indexed.setHeader (hl : l.Indexed hash) (blockHash : Uint256) (nHeight : Int) :
    { l with blockHash := blockHash, nHeight := nHeight }.Indexed hash :=
  ⟨hl.key, hl.ids, hl.exact⟩

end CDeterministicMNList

end KorshCore

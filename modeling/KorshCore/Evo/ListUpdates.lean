import KorshCore.Evo.DiffFaithful

/-!
# The updates a block reports

`ProcessBlock` and `UndoBlock` report a change of the masternode list as the
list before, the list after and the difference.

* `hasChanges_buildDiff_iff` says when there is nothing to report.
* `notify_buildDiff_iff` says that a listener drops the right peers if it is given
  the list before and the difference to the list after.
* `undoBlock_reports` says that this is what `UndoBlock` gives it.
-/

namespace KorshCore

open Except
open CDeterministicMNStateDiff (applyToState_diff diff keptKey)

namespace CDeterministicMNListDiff

def hasChanges (diff : CDeterministicMNListDiff) : Bool :=
  !diff.addedMNs.isEmpty || !diff.updatedMNs.entries.isEmpty || !diff.removedMns.isEmpty

end CDeterministicMNListDiff

structure MNListUpdates (H : Type) where
  oldList : CDeterministicMNList H
  newList : CDeterministicMNList H
  diff : CDeterministicMNListDiff

/-- What a peer has proved about itself; null hashes if nothing. -/
structure VerifiedPeer where
  verifiedProRegTxHash : Uint256
  verifiedPubKeyHash : Uint256

namespace CDeterministicMNList

variable {H : Type} [DecidableEq H] (hash : UniqueProperty → H)
  (keyHash : Option CBLSLazyPublicKey → Uint256)

/-- `ProcessBlock`: the difference that is written for the block, and the
updates. `oldList` is the list the manager has for the previous block. -/
def processBlock (isDIP0003Active : Bool) (oldList newList : CDeterministicMNList H) :
    Option CDeterministicMNListDiff × Option (MNListUpdates H) :=
  if isDIP0003Active then
    let diff := oldList.buildDiff newList
    (some diff, if diff.hasChanges then some ⟨newList, oldList, diff⟩ else none)
  else (none, none)

/-- `UndoBlock`, with the difference that is read for the block. One that
cannot be read stays without changes. -/
def undoBlock (blockHash : Uint256) (nHeight : Int)
    (stored : Option CDeterministicMNListDiff) (prevList : CDeterministicMNList H) :
    Except ListError (Option (MNListUpdates H)) :=
  let diff := stored.getD ⟨[], ∅, []⟩
  if diff.hasChanges then do
    let curList ← prevList.applyDiff hash blockHash nHeight diff
    .ok (some ⟨curList, prevList, curList.buildDiff prevList⟩)
  else .ok none

/-- `NotifyMasternodeListChanged`: whether the peer is disconnected. -/
def notifyMasternodeListChanged (oldMNList : CDeterministicMNList H)
    (diff : CDeterministicMNListDiff) (peer : VerifiedPeer) : Bool :=
  if diff.updatedMNs.entries.isEmpty && diff.removedMns.isEmpty then false
  else if peer.verifiedProRegTxHash = 0 then false
  else
    match oldMNList.getMN peer.verifiedProRegTxHash with
    | none => false
    | some verifiedDmn =>
      if verifiedDmn.internalId ∈ diff.removedMns then true
      else
        match diff.updatedMNs.lookup verifiedDmn.internalId with
        | none => false
        | some stateDiff =>
          match stateDiff.pubKeyOperator with
          | none => false
          | some key => keyHash key != peer.verifiedPubKeyHash

/-- The masternode of the peer is removed, or has another operator key than the
peer has shown. -/
def Drops (l l' : CDeterministicMNList H) (peer : VerifiedPeer) : Prop :=
  peer.verifiedProRegTxHash ≠ 0 ∧ ∃ a, l.getMN peer.verifiedProRegTxHash = some a ∧
      ∀ b, l'.getMN peer.verifiedProRegTxHash = some b →
        sameKey a.pdmnState.pubKeyOperator b.pdmnState.pubKeyOperator = false ∧
        keyHash b.pdmnState.pubKeyOperator ≠ peer.verifiedPubKeyHash

structure ConsistentUpdates (l l' : CDeterministicMNList H) (updates : MNListUpdates H) : Prop where
  applies : ∃ r, updates.oldList.applyDiff hash l'.blockHash l'.nHeight updates.diff
    = .ok r ∧ ∀ p, r.getMN p = updates.newList.getMN p
  newList : ∀ p, updates.newList.getMN p = l'.getMN p
  listeners : ∀ peer, notifyMasternodeListChanged keyHash updates.oldList updates.diff peer = true ↔
      Drops keyHash l l' peer

/-- Both lists have the same masternodes in the same states, up to the scheme
of an operator key. -/
def Unchanged (l l' : CDeterministicMNList H) : Prop :=
  ∀ p, Option.Rel (fun a b : CDeterministicMN =>
    sameKey a.pdmnState.pubKeyOperator b.pdmnState.pubKeyOperator = true ∧
    a.pdmnState = { b.pdmnState with pubKeyOperator := a.pdmnState.pubKeyOperator })
    (l.getMN p) (l'.getMN p)

/-! ## When there is nothing to report -/

theorem diff_eq_empty_iff {a b : CDeterministicMNState} :
    diff a b = .empty ↔ sameKey a.pubKeyOperator b.pubKeyOperator = true ∧
      a = { b with pubKeyOperator := a.pubKeyOperator } := by
  constructor
  · intro h
    have hkey : CDeterministicMNStateDiff.changedKey a.pubKeyOperator b.pubKeyOperator
        = none := congrArg CDeterministicMNStateDiff.pubKeyOperator h
    have hsame : sameKey a.pubKeyOperator b.pubKeyOperator = true := by
      unfold CDeterministicMNStateDiff.changedKey at hkey
      split_ifs at hkey with hsame
      exact hsame
    have happly := applyToState_diff a b
    rw [h, keptKey, if_pos hsame] at happly
    exact ⟨hsame, happly⟩
  · rintro ⟨hsame, heq⟩
    have hkey : CDeterministicMNStateDiff.changedKey a.pubKeyOperator b.pubKeyOperator
        = none := if_pos hsame
    unfold diff
    rw [hkey]
    rw [heq]
    simp [changed, CDeterministicMNStateDiff.empty]

variable {hash keyHash} {l l' : CDeterministicMNList H}

theorem hasChanges_buildDiff_iff (hl : l.Indexed hash) (hl' : l'.Indexed hash) :
    (l.buildDiff l').hasChanges = false ↔ Unchanged l l' := by
  simp only [CDeterministicMNListDiff.hasChanges, Bool.or_eq_false_iff,
    Bool.not_eq_false', List.isEmpty_iff]
  constructor
  · rintro ⟨⟨hadded, hupdated⟩, hremoved⟩ p
    cases ha : l.getMN p with
    | none =>
      cases hb : l'.getMN p with
      | none => exact .none
      | some b =>
        cases hl'.key hb
        have hmem := (mem_addedMNs hl' (l := l)).mpr ⟨hb, ha⟩
        rw [hadded] at hmem
        cases hmem
    | some a =>
      cases hb : l'.getMN p with
      | none =>
        have hmem := (mem_removedMns hl hl').mpr ⟨p, a, ha, hb, rfl⟩
        rw [hremoved] at hmem
        cases hmem
      | some b =>
        refine .some (diff_eq_empty_iff.mp ?_)
        by_contra hne
        have hlookup := (lookup_updatedMNs hl').mpr ⟨p, a, b, ha, hb, rfl, rfl, hne⟩
        have hmem := AList.mem_lookup_iff.mp hlookup
        rw [hupdated] at hmem
        cases hmem
  · intro h
    refine ⟨⟨?_, ?_⟩, ?_⟩
    · refine List.eq_nil_iff_forall_not_mem.mpr fun dmn hdmn => ?_
      obtain ⟨hb, ha⟩ := (mem_addedMNs hl').mp hdmn
      have hrel := h dmn.proTxHash
      rw [ha, hb] at hrel
      cases hrel
    · refine List.eq_nil_iff_forall_not_mem.mpr fun e he => ?_
      obtain ⟨p, a, b, ha, hb, -, heq, hne⟩ :=
        (lookup_updatedMNs hl').mp (AList.mem_lookup_iff.mpr he)
      have hrel := h p
      rw [ha, hb] at hrel
      cases hrel with
      | some hsame => exact hne (heq.trans (diff_eq_empty_iff.mpr hsame))
    · refine List.eq_nil_iff_forall_not_mem.mpr fun id hid => ?_
      obtain ⟨p, a, ha, hb, -⟩ := (mem_removedMns hl hl').mp hid
      have hrel := h p
      rw [ha, hb] at hrel
      cases hrel

theorem sameKey_self (a : Option CBLSLazyPublicKey) : sameKey a a = true := by
  cases a <;> simp [sameKey]

omit [DecidableEq H] in
theorem unchanged_of_getMN (h : ∀ p, l.getMN p = l'.getMN p) : Unchanged l l' := by
  intro p
  rw [h p]
  cases l'.getMN p with
  | none => exact .none
  | some b => exact .some ⟨sameKey_self _, rfl⟩

/-! ## What the listeners do -/

/-- A masternode that stays keeps its internal id. -/
def KeepsIds (l l' : CDeterministicMNList H) : Prop :=
  ∀ p a b, l.getMN p = some a → l'.getMN p = some b → a.internalId = b.internalId

theorem lookup_updatedMNs_of_getMN (hl' : l'.Indexed hash) {p : Uint256} {a b : CDeterministicMN}
    (ha : l.getMN p = some a) (hb : l'.getMN p = some b) :
    (l.buildDiff l').updatedMNs.lookup b.internalId
      = if diff a.pdmnState b.pdmnState = .empty then none
        else some (diff a.pdmnState b.pdmnState) := by
  refine Option.ext fun stateDiff => ?_
  rw [lookup_updatedMNs hl']
  constructor
  · rintro ⟨q, a', b', ha', hb', hid, rfl, hne⟩
    obtain rfl := hl'.id_unique hb' hb hid
    cases ha.symm.trans ha'
    cases hb.symm.trans hb'
    rw [if_neg hne]
  · intro h
    split_ifs at h with hempty
    obtain rfl := Option.some.inj h
    exact ⟨p, a, b, ha, hb, rfl, rfl, hempty⟩

/-- With the list before and its difference to the list after, the peers that are
dropped are the right ones. -/
theorem notify_buildDiff_iff (hl : l.Indexed hash) (hl' : l'.Indexed hash) (hids : KeepsIds l l')
    (peer : VerifiedPeer) :
    notifyMasternodeListChanged keyHash l (l.buildDiff l') peer = true ↔
      Drops keyHash l l' peer := by
  obtain ⟨p, shown⟩ := peer
  unfold notifyMasternodeListChanged Drops
  by_cases hp : p = 0
  · simp [hp]
  cases ha : l.getMN p with
  | none => simp
  | some a =>
    cases hb : l'.getMN p with
    | none =>
      have hremoved := (mem_removedMns hl hl').mpr ⟨p, a, ha, hb, rfl⟩
      have hsome : (l.buildDiff l').removedMns.isEmpty = false :=
        List.isEmpty_eq_false_iff_exists_mem.mpr ⟨_, hremoved⟩
      simp [hsome, hremoved]
    | some b =>
      have hstays : a.internalId ∉ (l.buildDiff l').removedMns := by
        intro hmem
        obtain ⟨q, a', ha', hnone, hid⟩ := (mem_removedMns hl hl').mp hmem
        obtain rfl := hl.id_unique ha' ha hid
        rw [hb] at hnone
        cases hnone
      have hlookup := lookup_updatedMNs_of_getMN hl' ha hb
      rw [← hids p a b ha hb] at hlookup
      have hkey : (diff a.pdmnState b.pdmnState).pubKeyOperator
          = CDeterministicMNStateDiff.changedKey a.pdmnState.pubKeyOperator
            b.pdmnState.pubKeyOperator := rfl
      by_cases hempty : diff a.pdmnState b.pdmnState = .empty
      · rw [if_pos hempty] at hlookup
        have hsame := (diff_eq_empty_iff.mp hempty).1
        simp [hstays, hlookup, hsame]
      · rw [if_neg hempty] at hlookup
        have hsome : (l.buildDiff l').updatedMNs.entries.isEmpty = false :=
          List.isEmpty_eq_false_iff_exists_mem.mpr ⟨_, AList.mem_lookup_iff.mp hlookup⟩
        cases hsame : sameKey a.pdmnState.pubKeyOperator b.pdmnState.pubKeyOperator <;>
          simp [hstays, hlookup, hsome, hkey, CDeterministicMNStateDiff.changedKey, hsame]

/-- `UndoBlock` on its own: the list before the block is the new one, and the peers
that are dropped are the right ones, where the stored difference gives back the list
after the block. -/
theorem undoBlock_reports {blockHash : Uint256} {nHeight : Int}
    {stored : Option CDeterministicMNListDiff} {updates : MNListUpdates H}
    (hl : l.Indexed hash) (hcur : updates.oldList.Indexed hash)
    (hsame : ∀ p, updates.oldList.getMN p = l'.getMN p) (hids : KeepsIds l' l)
    (h : undoBlock hash blockHash nHeight stored l = .ok (some updates)) :
    updates.newList = l ∧ ∀ peer, notifyMasternodeListChanged keyHash updates.oldList
      updates.diff peer = true ↔ Drops keyHash l' l peer := by
  unfold undoBlock at h
  dsimp only at h
  split_ifs at h
  · obtain ⟨curList, -, hcurList⟩ := bind_eq_ok_iff.mp h
    obtain rfl := Option.some.inj (ok.inj hcurList)
    refine ⟨rfl, fun peer => ?_⟩
    have hids' : KeepsIds curList l := fun p a b ha => hids p a b ((hsame p).symm.trans ha)
    rw [notify_buildDiff_iff hcur hl hids']
    unfold Drops
    rw [hsame]
  · cases h

/-! ## Both directions -/

/-- The updates that `ProcessBlock` reports for a block and those that
`UndoBlock` reports for it are right just if the block changes nothing. -/
theorem updates_consistent_iff (hl : l.Indexed hash) (hl' : l'.Indexed hash)
    (isDIP0003Active : Bool) (blockHash : Uint256) (nHeight : Int) :
    ((∀ updates, (processBlock isDIP0003Active l l').2 = some updates →
        ConsistentUpdates hash keyHash l l' updates) ∧
      ∀ updates, undoBlock hash blockHash nHeight (processBlock isDIP0003Active l l').1 l
          = .ok (some updates) → ConsistentUpdates hash keyHash l' l updates) ↔
      (isDIP0003Active = true → Unchanged l l') := by
  have hchanges := hasChanges_buildDiff_iff hl hl'
  constructor
  · rintro ⟨hprocess, -⟩ rfl
    by_contra hne
    rw [← hchanges, Bool.not_eq_false] at hne
    have hupdates := hprocess ⟨l', l, l.buildDiff l'⟩ (if_pos hne)
    -- the list after is given as the list before
    rw [hchanges.mpr (unchanged_of_getMN hupdates.newList)] at hne
    cases hne
  · intro h
    cases isDIP0003Active with
    | false => exact ⟨fun _ hnone => (by cases hnone), fun _ hnone => (by cases hnone)⟩
    | true =>
      have hnone := hchanges.mpr (h rfl)
      refine ⟨fun updates hsome => ?_, fun updates hsome => ?_⟩
      · simp [processBlock, hnone] at hsome
      · simp [undoBlock, processBlock, hnone] at hsome

def spendBlock : CBlock :=
  ⟨12, [sampleTx 0 6, { sampleTx 0 7 with vin := [⟨⟨1, 0⟩, [], 0⟩] }]⟩

theorem distinctHashes_spend : DistinctHashes sampleEnv (spendBlock.vtx ++ registerBlock.vtx) := by
  have hnodup : ((spendBlock.vtx ++ registerBlock.vtx).map sampleEnv.getHash).Nodup := by decide
  intro a ha b hb heq
  exact List.inj_on_of_nodup_map hnodup ha hb heq

theorem chainList_spendBlock : ∃ l l' : CDeterministicMNList UniqueProperty,
    ChainList id sampleEnv [(sampleContext 0 9, registerBlock)] l ∧
    ChainList id sampleEnv [(sampleContext 11 10, spendBlock), (sampleContext 0 9, registerBlock)]
      l' ∧ l.getMN 1 ≠ none ∧ l'.getMN 1 = none ∧ (processBlock true l l').2.isSome = true := by
  have hchain : ∃ l : CDeterministicMNList UniqueProperty,
      ChainList id sampleEnv [(sampleContext 0 9, registerBlock)] l ∧ l.getMN 1 ≠ none ∧
      ∃ l', Accepted id sampleEnv (sampleContext 11 10) spendBlock l l' ∧ l'.getMN 1 = none ∧
        (processBlock true l (l'.setBlockHash 12)).2.isSome = true := by
    refine ⟨_, .rebuilt (sampleContext 0 9) registerBlock .empty ⟨?_, rfl⟩, ?_, _, ⟨?_, rfl⟩,
      ?_, ?_⟩
    · decide
    · decide
    · decide
    · decide
    · decide +kernel
  obtain ⟨l, hl, hlisted, l', haccepted, hgone, hreported⟩ := hchain
  exact ⟨l, _, hl, .rebuilt (sampleContext 11 10) spendBlock hl haccepted, hlisted, hgone,
    hreported⟩

/-- A block that changes nothing, and one that removes a masternode: its updates are
reported and are wrong. -/
theorem updates_consistent_registered_removed :
    ∃ l l' : CDeterministicMNList UniqueProperty, l.getMN 1 ≠ none ∧ l'.getMN 1 = none ∧
      (∀ updates, (processBlock true l (l.setBlockHash 12)).2 = some updates →
        ConsistentUpdates id (fun _ => 0) l (l.setBlockHash 12) updates) ∧
      (processBlock true l l').2.isSome = true ∧
      ¬ ((∀ updates, (processBlock true l l').2 = some updates →
          ConsistentUpdates id (fun _ => 0) l l' updates) ∧
        ∀ updates, undoBlock id 12 11 (processBlock true l l').1 l = .ok (some updates) →
          ConsistentUpdates id (fun _ => 0) l' l updates) := by
  obtain ⟨l, l', hchain, hchain', hlisted, hgone, hreported⟩ := chainList_spendBlock
  have hl := (hchain.sound Function.injective_id distinctHashes_spend.tail).indexed
  have hl' := (hchain'.sound Function.injective_id distinctHashes_spend).indexed
  refine ⟨l, l', hlisted, hgone, ((updates_consistent_iff hl (hl.setHeader 12 l.nHeight) true 12
    l.nHeight).mpr fun _ => unchanged_of_getMN fun _ => rfl).1, hreported, ?_⟩
  rw [updates_consistent_iff hl hl' true 12 11]
  intro hunchanged
  obtain ⟨a, ha⟩ := Option.ne_none_iff_exists'.mp hlisted
  have hrel := hunchanged rfl 1
  rw [ha, hgone] at hrel
  cases hrel

/-- A peer whose masternode is removed stays connected, and the list that is
reported as the new one still has the masternode. -/
theorem processBlock_removed_stays :
    ∃ (l l' : CDeterministicMNList UniqueProperty) (updates : MNListUpdates UniqueProperty),
      ChainList id sampleEnv [(sampleContext 0 9, registerBlock)] l ∧
      Accepted id sampleEnv (sampleContext 11 10) spendBlock l l' ∧
      (processBlock true l l').2 = some updates ∧
      l'.getMN 1 = none ∧ (updates.newList.getMN 1).isSome = true ∧ Drops (fun _ => 0) l l' ⟨1, 0⟩ ∧
      notifyMasternodeListChanged (fun _ => 0) updates.oldList updates.diff ⟨1, 0⟩ = false := by
  refine ⟨_, _, _, .rebuilt (sampleContext 0 9) registerBlock .empty ⟨?_, rfl⟩,
    ⟨?_, rfl⟩, rfl, ?_, ?_, ⟨by decide, _, rfl, fun b hb => ?_⟩, ?_⟩
  · decide
  · decide
  · decide
  · decide
  · cases hb
  · decide

end CDeterministicMNList

end KorshCore

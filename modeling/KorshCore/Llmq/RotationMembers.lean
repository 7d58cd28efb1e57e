import KorshCore.Llmq.RotationReplay

/-!
# The members of rotated quorums

A quorum has the quarters of four cycles. Its new quarter has masternodes that
were not in its list of used ones (`Fresh`), so none of the quarters before if
all their members could be entered there.
-/

namespace KorshCore

open CDeterministicMN CDeterministicMNList List Except
open CDeterministicMN (proTxHash)

namespace RotationEnv

variable {H : Type} [DecidableEq H] {env : RotationEnv H} {params : LLMQParams}
  {base : CBlockIndex} {allMns : CDeterministicMNList H} {known : List CDeterministicMN}
  {previous : PreviousQuorumQuarters}

/-! ## New quarters -/

structure Fresh (combined : QuorumMembers) (quarterSize : Nat) (used : CDeterministicMNList H)
    (members : QuorumMembers) : Prop where
  length_le : members.length ≤ quarterSize
  nodup : (members.map proTxHash).Nodup
  mem : ∀ mn ∈ members, mn ∈ combined
  unused : ∀ mn ∈ members, used.hasMN mn.proTxHash = false

omit [DecidableEq H] in
theorem fresh_nil (combined : QuorumMembers) (quarterSize : Nat)
    (used : CDeterministicMNList H) : Fresh combined quarterSize used [] :=
  ⟨zero_le, nodup_nil, by simp, by simp⟩

structure Filling (combined : QuorumMembers) (quarterSize : Nat) (used : CDeterministicMNList H)
    (s : QuarterState H) : Prop where
  fresh : Fresh combined quarterSize used s.members
  entered : ∀ mn ∈ s.members, s.used.hasMN mn.proTxHash = true
  grown : ∀ q, used.hasMN q = true → s.used.hasMN q = true

variable {combined : QuorumMembers} {quarterSize : Nat} {used : CDeterministicMNList H}

theorem Filling.visit {s : QuarterState H} (h : Filling combined quarterSize used s)
    {dmn : CDeterministicMN} (hdmn : dmn ∈ combined) (n : Nat)
    (hroom : s.members.length < quarterSize) :
    Filling combined quarterSize used (env.visit dmn n s) := by
  unfold RotationEnv.visit
  cases hused : s.used.hasMN dmn.proTxHash with
  | true => exact ⟨h.fresh, h.entered, h.grown⟩
  | false =>
    cases hadd : s.used.addMN env.hash dmn true with
    | error e => exact ⟨h.fresh, h.entered, h.grown⟩
    | ok used' =>
      have hhas : ∀ q, used'.hasMN q = (decide (q = dmn.proTxHash) || s.used.hasMN q) := by
        intro q
        unfold hasMN
        rw [getMN_addMN hadd]
        split_ifs with hq
        · simp [hq]
        · simp [hq]
      refine ⟨⟨?_, ?_, ?_, ?_⟩, ?_, ?_⟩
      · show (s.members ++ [dmn]).length ≤ quarterSize
        rw [length_append, length_singleton]
        omega
      · show ((s.members ++ [dmn]).map proTxHash).Nodup
        rw [map_append]
        refine h.fresh.nodup.append (nodup_singleton _) ?_
        intro q hq hlast
        obtain ⟨mn, hmn, rfl⟩ := mem_map.mp hq
        have hentered := h.entered mn hmn
        rw [mem_singleton.mp hlast, hused] at hentered
        cases hentered
      · intro mn hmn
        obtain hmn | hmn := mem_append.mp hmn
        · exact h.fresh.mem mn hmn
        · rw [mem_singleton.mp hmn]
          exact hdmn
      · intro mn hmn
        obtain hmn | hmn := mem_append.mp hmn
        · exact h.fresh.unused mn hmn
        · rw [mem_singleton.mp hmn]
          cases hbefore : used.hasMN dmn.proTxHash with
          | false => rfl
          | true =>
            rw [h.grown _ hbefore] at hused
            cases hused
      · intro mn hmn
        show used'.hasMN mn.proTxHash = true
        rw [hhas]
        obtain hmn | hmn := mem_append.mp hmn
        · rw [h.entered mn hmn, Bool.or_true]
        · rw [mem_singleton.mp hmn]
          simp
      · intro q hq
        show used'.hasMN q = true
        rw [hhas, h.grown q hq, Bool.or_true]

theorem Filling.fillQuarter {usedMNsCount initial : Nat} :
    ∀ {fuel : Nat} {s s' : QuarterState H}, Filling combined quarterSize used s →
    env.fillQuarter combined quarterSize usedMNsCount initial fuel s = some s' →
    Filling combined quarterSize used s'
  | 0, s, s', h, hfill => by
    cases hfill
    exact h
  | fuel + 1, s, s', h, hfill => by
    rw [RotationEnv.fillQuarter] at hfill
    by_cases hguard : s.members.length < quarterSize ∧
        usedMNsCount + s.members.length < combined.length
    · rw [if_pos hguard] at hfill
      cases hdmn : combined[s.idx]? with
      | none =>
        rw [hdmn] at hfill
        cases hfill
        exact h
      | some dmn =>
        rw [hdmn] at hfill
        have hvisit : Filling combined quarterSize used (env.visit dmn combined.length s) :=
          h.visit (mem_of_getElem? hdmn) _ hguard.1
        dsimp only at hfill
        split_ifs at hfill
        · have hnext : Filling combined quarterSize used
              { env.visit dmn combined.length s with updated := false } :=
            ⟨hvisit.fresh, hvisit.entered, hvisit.grown⟩
          exact hnext.fillQuarter hfill
        · exact hvisit.fillQuarter hfill
    · rw [if_neg hguard] at hfill
      cases hfill
      exact h

theorem fresh_of_fillQuarters : ∀ {useds : List (CDeterministicMNList H)} {idx : Nat}
    {skips skips' : SkipList} {quarters : List QuorumMembers},
    env.fillQuarters combined quarterSize useds idx skips = some (quarters, skips') →
    Forall₂ (Fresh combined quarterSize) useds quarters
  | [], _, _, _, _, h => by
    cases h
    exact .nil
  | used :: useds, idx, skips, skips', quarters, h => by
    obtain ⟨s, hs, h⟩ := Option.bind_eq_some_iff.mp h
    obtain ⟨⟨rest, skips''⟩, hrest, h⟩ := Option.bind_eq_some_iff.mp h
    cases h
    have hstart : Filling combined quarterSize used
        (⟨used, [], skips, idx, false⟩ : QuarterState H) :=
      ⟨fresh_nil combined quarterSize used, by simp, fun q hq => hq⟩
    exact .cons (hstart.fillQuarter hs).fresh (fresh_of_fillQuarters hrest)

/-- The members that a quorum already has, of a build. -/
def usedAt (env : RotationEnv H) (base : CBlockIndex) (allMns : CDeterministicMNList H)
    (previous : PreviousQuorumQuarters) (i : Nat) : CDeterministicMNList H :=
  env.usedList base allMns (previousMembers previous i)

def combinedOf (env : RotationEnv H) (params : LLMQParams) (base : CBlockIndex)
    (allMns : CDeterministicMNList H) (previous : PreviousQuorumQuarters) : QuorumMembers :=
  env.sortedCombinedMns params base allMns (env.usedList base allMns
    ((List.range params.signingActiveQuorumCount).flatMap (previousMembers previous)))

variable (env) in
theorem fresh_of_build (params : LLMQParams) (base : CBlockIndex)
    (allMns : CDeterministicMNList H) (previous : PreviousQuorumQuarters) (i : Nat) :
    Fresh (combinedOf env params base allMns previous) (params.size / 4)
      (usedAt env base allMns previous i)
      ((env.buildNewQuorumQuarterMembers params base allMns previous).1.getD i []) := by
  have hnil := fresh_nil (combinedOf env params base allMns previous) (params.size / 4)
    (usedAt env base allMns previous i)
  unfold buildNewQuorumQuarterMembers
  dsimp only
  split_ifs
  · exact hnil
  · rw [getD_replicate_nil]
    exact hnil
  · cases hfill : env.fillQuarters _ (params.size / 4) _ 0 ⟨0, []⟩ with
    | none =>
      rw [getD_replicate_nil]
      exact hnil
    | some result =>
      obtain ⟨quarters, skips⟩ := result
      have hall := fresh_of_fillQuarters hfill
      have hlength := hall.length_eq
      obtain hlt | hge := Nat.lt_or_ge i quarters.length
      · rw [getD_eq_getElem _ _ hlt]
        have hget := hall.get (i := i) (by simpa [hlength] using hlt) hlt
        rw [get_eq_getElem, getElem_map, getElem_range] at hget
        exact hget
      · rw [getD_eq_default _ _ hge]
        exact hnil

theorem stillUsed_congr {a b : CDeterministicMN} (h : a.proTxHash = b.proTxHash) :
    env.stillUsed base allMns a = env.stillUsed base allMns b := by
  unfold stillUsed
  rw [h]

theorem stillUsed_of_mem_combined (hindexed : allMns.Indexed env.hash)
    {members : QuorumMembers} (hdrawn : (env.usedList base allMns members).Indexed env.hash)
    {mn : CDeterministicMN}
    (h : mn ∈ env.sortedCombinedMns params base allMns (env.usedList base allMns members)) :
    env.stillUsed base allMns mn = true := by
  obtain h | h := mem_append.mp h
  · obtain ⟨hmn, hfilter⟩ := mem_filter.mp (mem_calculateQuorum.mp h).1
    have hget := hindexed.mem_mns_iff.mp hmn
    have hbanned : mn.pdmnState.isBanned = false := by
      simpa using (Bool.and_eq_true_iff.mp hfilter).2
    unfold stillUsed hasMN isMNPoSeBanned
    rw [hget]
    simp [hbanned]
  · exact (mem_of_usedList (hdrawn.mem_mns_iff.mp (mem_calculateQuorum.mp h).1)).2

theorem new_disjoint (hfits : Fits env base allMns known)
    (hprevious : Previous params known previous) (i : Nat) :
    ∀ mn ∈ (env.buildNewQuorumQuarterMembers params base allMns previous).1.getD i [],
    ∀ old ∈ previousMembers previous i, mn.proTxHash ≠ old.proTxHash := by
  intro mn hmn old hold heq
  have hfresh := fresh_of_build env params base allMns previous i
  have hall : ∀ a ∈ (range params.signingActiveQuorumCount).flatMap
      (previousMembers previous), a ∈ known := by
    intro a ha
    obtain ⟨j, -, ha⟩ := mem_flatMap.mp ha
    exact (hprevious.mem_known ha).1
  have hstill : env.stillUsed base allMns mn = true :=
    stillUsed_of_mem_combined hfits.indexed (usedList_spec hfits hall).1.indexed (hfresh.mem mn hmn)
  have hused : (usedAt env base allMns previous i).hasMN mn.proTxHash = true :=
    ((usedList_spec hfits fun a ha => (hprevious.mem_known ha).1).2 _).mpr
      ⟨old, hold, (stillUsed_congr heq).symm.trans hstill, heq.symm⟩
  rw [hfresh.unused mn hmn] at hused
  cases hused

/-! ## The quarters before -/

variable {snapshots snapshots' : SnapshotStore}

theorem cycleBefore_add {cycle : CBlockIndex} {k : Nat}
    (hcycle : cycleBefore params base k = some cycle) (m : Nat) :
    cycleBefore params base (k + m) = cycleBefore params cycle m := by
  have hheight := CBlockIndex.nHeight_of_getAncestor hcycle
  unfold cycleBefore at hcycle ⊢
  have hmul : (params.dkgInterval : Int) * ((k + m : Nat) : Int)
      = params.dkgInterval * k + params.dkgInterval * m := by
    push_cast
    ring
  have hnonneg : (0 : Int) ≤ params.dkgInterval * m :=
    Int.mul_nonneg (Int.natCast_nonneg _) (Int.natCast_nonneg _)
  rw [CBlockIndex.getAncestor_eq_of_le hcycle (by omega)]
  congr 1
  omega

theorem loadQuarters_shift {cycle : CBlockIndex} {k : Nat}
    (hcycle : cycleBefore params base k = some cycle) : ∀ (cycles m : Nat),
    env.loadQuarters params snapshots base cycles (k + m)
      = env.loadQuarters params snapshots cycle cycles m
  | 0, _ => rfl
  | cycles + 1, m => by
    have hsame := cycleBefore_add hcycle m
    have hrest := loadQuarters_shift hcycle cycles (m + 1)
    cases hm : cycleBefore params cycle m with
    | none =>
      rw [loadQuarters_of_none cycles m hm, loadQuarters_of_none cycles (k + m) (hsame.trans hm)]
    | some cycle' =>
      rw [loadQuarters_succ cycles m hm, loadQuarters_succ cycles (k + m) (hsame.trans hm),
        add_assoc, hrest]

theorem loadQuarters_take : ∀ {cycles n k : Nat} {previous : PreviousQuorumQuarters},
    n ≤ cycles → env.loadQuarters params snapshots base cycles k = .ok previous →
    env.loadQuarters params snapshots base n k = .ok (previous.take n)
  | _, 0, _, _, _, _ => rfl
  | cycles + 1, n + 1, k, previous, hle, h => by
    cases hcycle : cycleBefore params base k with
    | none =>
      rw [loadQuarters_of_none cycles k hcycle] at h
      cases h
    | some cycle =>
      rw [loadQuarters_succ cycles k hcycle] at h
      rw [loadQuarters_succ n k hcycle]
      cases hsnapshot : snapshots params.type cycle.hash with
      | none =>
        rw [hsnapshot] at h
        cases h
        rw [take_replicate, Nat.min_eq_left hle]
      | some snapshot =>
        rw [hsnapshot] at h
        obtain ⟨quarter, hquarter, rest, hrest, h⟩ := bind₂_eq_ok_iff.mp h
        cases h
        dsimp only
        rw [hquarter, loadQuarters_take (Nat.le_of_succ_le_succ hle) hrest]
        rfl

theorem getD_map_hashes (quarters : List QuorumMembers) (i : Nat) :
    (quarters.getD i []).map proTxHash = (quarters.map (·.map proTxHash)).getD i [] := by
  rw [getD_eq_getElem?_getD, getD_eq_getElem?_getD, getElem?_map]
  cases quarters[i]? with
  | none => rfl
  | some quarter => rfl

theorem nodup_of_loadQuarters {tree : BlockTree} (hreach : RotationReach env tree snapshots)
    (hparams : params ∈ env.llmqs) (i : Nat) :
    ∀ {cycles : Nat} {base : CBlockIndex} {previous : PreviousQuorumQuarters}, cycles ≤ 3 →
    tree.known base → env.loadQuarters params snapshots base cycles 1 = .ok previous →
    ((previousMembers previous i).map proTxHash).Nodup
  | 0, base, previous, _, _, h => by
    cases h
    exact nodup_nil
  | cycles + 1, base, previous, hle, hknown, h => by
    cases hcycle : cycleBefore params base 1 with
    | none =>
      rw [loadQuarters_of_none cycles 1 hcycle] at h
      cases h
    | some cycle =>
      rw [loadQuarters_succ cycles 1 hcycle] at h
      cases hsnapshot : snapshots params.type cycle.hash with
      | none =>
        rw [hsnapshot] at h
        cases h
        have hempty : previousMembers (replicate (cycles + 1)
            (replicate params.signingActiveQuorumCount [])) i = [] := by
          apply flatMap_eq_nil_iff.mpr
          intro quarters hquarters
          rw [eq_of_mem_replicate hquarters, getD_replicate_nil]
        rw [hempty]
        exact nodup_nil
      | some snapshot =>
        rw [hsnapshot] at h
        obtain ⟨quarter, hquarter, rest, hrest, h⟩ := bind₂_eq_ok_iff.mp h
        cases h
        have hknown' := tree.ancestor hknown hcycle
        have hshift : env.loadQuarters params snapshots cycle cycles 1 = .ok rest :=
          (loadQuarters_shift hcycle cycles 1).symm.trans hrest
        have ih := nodup_of_loadQuarters hreach hparams i (by omega) hknown' hshift
        -- the last quarter was new in its cycle, above the same quarters
        obtain ⟨allMns, below, new, hsettled⟩ := settled_of_reach hreach hparams hknown' hsnapshot
        have htake := loadQuarters_take (by omega : cycles ≤ 3) hsettled.loaded
        cases hshift.symm.trans htake
        have hfits := hsettled.rotatable.fits hsettled.listed
        have hprevious := previous_of_load hsettled.loaded
        obtain ⟨quarters, hreplay, heq⟩ := hsettled.replayed
        cases hquarter.symm.trans hreplay
        have hnew : (quarter.getD i []).map proTxHash = (new.getD i []).map proTxHash := by
          rw [getD_map_hashes, heq, ← getD_map_hashes]
        have hfresh := fresh_of_build env params cycle allMns below i
        have hdisjoint := new_disjoint hfits hprevious i
        rw [hsettled.built] at hfresh hdisjoint
        unfold previousMembers
        rw [flatMap_cons, map_append, hnew]
        refine hfresh.nodup.append ih ?_
        intro q hq hold
        obtain ⟨mn, hmn, rfl⟩ := mem_map.mp hq
        obtain ⟨old, hold, hkey⟩ := mem_map.mp hold
        obtain ⟨quarters, hquarters, hold⟩ := mem_flatMap.mp hold
        exact hdisjoint mn hmn old
          (mem_flatMap.mpr ⟨quarters, mem_of_mem_take hquarters, hold⟩) hkey.symm

/-! ## Quorums -/

/-- No quorum has more members than its type has. In runs in turn, no quorum has a
masternode twice. -/
theorem quorums_of_rotation (env : RotationEnv H) (tree : BlockTree) (params : LLMQParams)
    (base : CBlockIndex) (snapshots snapshots' : SnapshotStore) (quorums : List QuorumMembers)
    (hcompute : env.computeQuorumMembersByQuarterRotation params base snapshots
      = .ok (quorums, snapshots')) : ∀ quorum ∈ quorums, quorum.length ≤ params.size ∧
      (RotationReach env tree snapshots → params ∈ env.llmqs → tree.known base →
        InTurn env tree params base snapshots → (quorum.map proTxHash).Nodup) := by
  intro quorum hquorum
  cases hbase : isCycleBase params base with
  | false =>
    unfold computeQuorumMembersByQuarterRotation at hcompute
    rw [hbase] at hcompute
    obtain ⟨rfl, -⟩ := Prod.mk.inj (ok.inj hcompute)
    cases hquorum
  | true =>
    obtain ⟨allMns, previous, hlist, hloaded, rfl, -⟩ := compute_eq_ok hbase hcompute
    obtain ⟨i, -, rfl⟩ := mem_map.mp hquorum
    have hprevious := previous_of_load hloaded
    have hfresh := fresh_of_build env params base allMns previous i
    have hperm : (previousMembers previous.reverse i).Perm (previousMembers previous i) :=
      (reverse_perm previous).flatMap_right _
    constructor
    · have hthree := hprevious.length_members_le i
      have hone := hfresh.length_le
      rw [length_append, hperm.length_eq]
      omega
    · intro hreach hparams hknown hturn
      have hfits := (hturn.rotatable allMns hlist).fits hlist
      rw [map_append]
      refine Nodup.append ?_ hfresh.nodup ?_
      · rw [(hperm.map _).nodup_iff]
        exact nodup_of_loadQuarters hreach hparams i le_rfl hknown hloaded
      · intro q hold hnew
        obtain ⟨old, hmem, rfl⟩ := mem_map.mp hold
        obtain ⟨mn, hmn, hkey⟩ := mem_map.mp hnew
        exact new_disjoint hfits hprevious i mn hmn old (hperm.subset hmem) hkey

theorem quorums_of_rotation_crowd : ∃ quorums snapshots',
    (crowdEnv 4).computeQuorumMembersByQuarterRotation crowdParams (crowdBlock 48)
      (crowdSnapshots 4 [24]) = .ok (quorums, snapshots') ∧
    quorums.map (·.map proTxHash) = [[4, 2], [3, 1]] ∧
    ∀ quorum ∈ quorums, quorum.length ≤ 4 ∧ (quorum.map proTxHash).Nodup := by
  have hok : ((crowdEnv 4).computeQuorumMembersByQuarterRotation crowdParams (crowdBlock 48)
      (crowdSnapshots 4 [24])).map (fun result =>
        result.1.map (·.map proTxHash)) = .ok [[4, 2], [3, 1]] := by
    decide +kernel
  cases hcompute : (crowdEnv 4).computeQuorumMembersByQuarterRotation crowdParams
      (crowdBlock 48) (crowdSnapshots 4 [24]) with
  | error e =>
    rw [hcompute] at hok
    cases hok
  | ok result =>
    rw [hcompute] at hok
    refine ⟨result.1, result.2, rfl, ok.inj hok, fun quorum hquorum => ?_⟩
    obtain ⟨hlength, hnodup⟩ := quorums_of_rotation (crowdEnv 4) crowdTree crowdParams
      (crowdBlock 48) (crowdSnapshots 4 [24]) result.2 result.1 hcompute quorum hquorum
    exact ⟨hlength, hnodup reach_crowd_one (by decide)
      (show (crowdBlock 48).path <:+ (crowdBlock 72).path by decide +kernel) inTurn_crowd_two⟩

theorem quorums_with_repeated_member :
    ((crowdEnv 1).computeQuorumMembersByQuarterRotation crowdParams (crowdBlock 72)
      (crowdSnapshots 1 [48, 24])).map (fun result =>
        result.1.map (·.map proTxHash)) = .ok [[1, 1], [1, 1]] := by
  decide +kernel

end RotationEnv

end KorshCore

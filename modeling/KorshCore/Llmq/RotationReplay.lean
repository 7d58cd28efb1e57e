import KorshCore.Llmq.RotationQuarters
import Mathlib.Algebra.Order.BigOperators.Group.List
import Mathlib.Data.List.GetD

/-!
# Snapshots over the cycles of a chain

What a snapshot gives back in one cycle (`quarters_replayed`), and in runs that
compute the quorums of many cycles and branches.
-/

namespace KorshCore

open CyclicLog CDeterministicMN List Except
open CDeterministicMN (proTxHash)

namespace RotationEnv

variable {H : Type} [DecidableEq H] {env : RotationEnv H} {params : LLMQParams}
  {base : CBlockIndex} {allMns : CDeterministicMNList H} {known : List CDeterministicMN}

/-! ## One cycle -/

theorem skipList_foldl_push : ∀ (ps : List Nat) (s : SkipList),
    (ps.foldl SkipList.push s).skipList = s.skipList ++ encode s.firstSkippedIndex ps
  | [], s => by simp [encode]
  | p :: ps, s => by
    rw [foldl_cons, skipList_foldl_push ps, encode]
    unfold SkipList.push
    split_ifs with hfirst
    · simp
    · simp

theorem skippedPositions_buildQuorumSnapshot (used : CDeterministicMNList H) (skipList : List Int) :
    skippedPositions (env.buildQuorumSnapshot params base allMns used skipList)
      = some (decode 0 skipList) := by
  cases skipList with
  | nil => rfl
  | cons s l => rfl

theorem map_filterMap_getElem? (l : QuorumMembers) (ps : List Nat) :
    (ps.filterMap (l[·]?)).map proTxHash = ps.filterMap ((l.map proTxHash)[·]?) := by
  rw [map_filterMap]
  apply filterMap_congr
  intro p _
  rw [getElem?_map]

/-- Quarters of the cycles before: known masternodes with a score, in groups that are
not too large. -/
structure Previous (params : LLMQParams) (known : List CDeterministicMN)
    (previous : PreviousQuorumQuarters) : Prop where
  length_le : previous.length ≤ 3
  quarter_le : ∀ quarters ∈ previous, ∀ i, (quarters.getD i []).length ≤ params.size / 4
  known : ∀ quarters ∈ previous, ∀ i, ∀ mn ∈ quarters.getD i [], mn ∈ known ∧ scored mn = true

variable {previous : PreviousQuorumQuarters}

theorem Previous.length_members_le (h : Previous params known previous) (i : Nat) :
    (previousMembers previous i).length ≤ 3 * (params.size / 4) := by
  unfold previousMembers
  rw [length_flatMap]
  have hsum := sum_le_card_nsmul (previous.map fun quarters => (quarters.getD i []).length)
    (params.size / 4) (by
      intro n hn
      obtain ⟨quarters, hquarters, rfl⟩ := mem_map.mp hn
      exact h.quarter_le quarters hquarters i)
  rw [length_map] at hsum
  exact hsum.trans (Nat.mul_le_mul_right _ h.length_le)

variable {mn : CDeterministicMN}

theorem Previous.mem_known (h : Previous params known previous) {i : Nat}
    (hmn : mn ∈ previousMembers previous i) : mn ∈ known ∧ scored mn = true := by
  obtain ⟨quarters, hquarters, hmn⟩ := mem_flatMap.mp hmn
  exact h.known quarters hquarters i mn hmn

variable {snapshot : CQuorumSnapshot}

theorem replayQuarters_log {combined : QuorumMembers} {ts : List (List Bool)}
    (hlength : ts.length = params.signingActiveQuorumCount)
    (hfull : ∀ t ∈ ts, Full (params.size / 4) t)
    (henough : params.signingActiveQuorumCount * (params.size / 4) ≤
      combined.length) (hpos : 0 < combined.length)
    (hskipped : skippedPositions snapshot = some (log combined.length 0 ts.flatten)) :
    replayQuarters params combined snapshot
      = (groupTakes combined.length 0 ts).map (·.filterMap (combined[·]?)) := by
  have hreplay := replayAll_log (j := 0) hpos hfull
    (safe_flatten hfull (by rw [hlength]; exact henough))
  rw [Nat.zero_mod, hlength] at hreplay
  have hnonempty : ¬ combined.isEmpty = true := by
    rw [isEmpty_iff_length_eq_zero]
    omega
  unfold replayQuarters
  rw [if_neg hnonempty, hskipped]
  dsimp only
  rw [hreplay]

theorem map_groupTakes_of_full_zero (combined : QuorumMembers) (n : Nat) :
    ∀ {ts : List (List Bool)} {j : Nat}, (∀ t ∈ ts, Full 0 t) →
    (groupTakes n j ts).map (·.filterMap (combined[·]?)) = replicate ts.length []
  | [], _, _ => rfl
  | t :: ts, j, hfull => by
    have ht : t = [] := by
      cases hfull t mem_cons_self
      rfl
    rw [ht, groupTakes, map_cons,
      map_groupTakes_of_full_zero combined n fun u hu => hfull u (mem_cons_of_mem t hu)]
    rfl

theorem getQuorumQuarterMembersBySnapshot_eq (hbase : isCycleBase params base = true)
    (hlist : env.cycleList base = .ok allMns) (snapshot : CQuorumSnapshot) :
    env.getQuorumQuarterMembersBySnapshot params base snapshot
      = .ok (replayQuarters params (combineBySnapshot snapshot.activeQuorumMembers
          (env.calculateQuorum allMns.mns (env.getHashModifier params base))) snapshot) := by
  unfold getQuorumQuarterMembersBySnapshot
  rw [hbase, hlist]
  rfl

theorem quarters_replayed (hfits : Fits env base allMns known)
    (hbase : isCycleBase params base = true) (hlist : env.cycleList base = .ok allMns)
    (hprevious : Previous params known previous)
    (henough : max params.signingActiveQuorumCount 4 * (params.size / 4)
      ≤ allMns.mns.countP scored) : ∃ new snapshot quarters,
      env.buildNewQuorumQuarterMembers params base allMns previous = (new, some snapshot) ∧
      env.getQuorumQuarterMembersBySnapshot params base snapshot = .ok quarters ∧
      quarters.map (·.map proTxHash) = new.map (·.map proTxHash) := by
  have hall := le_trans (Nat.mul_le_mul_right _ (le_max_left _ _)) henough
  have hfour := le_trans (Nat.mul_le_mul_right _ (le_max_right _ _)) henough
  have hmembers : ∀ mn ∈ (range params.signingActiveQuorumCount).flatMap
      (previousMembers previous), mn ∈ known ∧ scored mn = true := by
    intro mn hmn
    obtain ⟨i, -, hmn⟩ := mem_flatMap.mp hmn
    exact hprevious.mem_known hmn
  obtain ⟨hlength, hnodup⟩ := length_sortedCombinedMns hfits hmembers params
  set used := env.usedList base allMns
    ((range params.signingActiveQuorumCount).flatMap (previousMembers previous)) with hused
  set combined := env.sortedCombinedMns params base allMns used with hcombined
  rw [← hlength] at hall hfour
  have hknown : ∀ a ∈ combined, a ∈ known := by
    intro a ha
    obtain ha | ha := mem_append.mp ha
    · exact hfits.listed a (mem_filter.mp (mem_calculateQuorum.mp ha).1).1
    · have hdrawn := (usedList_spec hfits fun mn hmn => (hmembers mn hmn).1).1
      exact hdrawn.known (hdrawn.indexed.mem_mns_iff.mp (mem_calculateQuorum.mp ha).1)
  obtain ⟨ts, hfull, hts, hfill⟩ := fillQuarters_traced (params.size / 4) hfits hknown hnodup
    ((range params.signingActiveQuorumCount).map fun i =>
      env.usedList base allMns (previousMembers previous i)) 0 ⟨0, []⟩ (by
    intro u hu
    obtain ⟨i, -, rfl⟩ := mem_map.mp hu
    refine ⟨(usedList_spec hfits fun mn hmn => (hprevious.mem_known hmn).1).1, ?_⟩
    have hcount := getAllMNsCount_usedList_le env base allMns (previousMembers previous i)
    have hle := hprevious.length_members_le i
    omega)
  rw [Nat.zero_mod] at hfill
  rw [length_map, length_range] at hts
  have hvalid : ¬ allMns.getValidMNsCount < params.size / 4 := by
    have hle : allMns.mns.countP scored ≤ allMns.getValidMNsCount := by
      refine countP_mono_left fun a _ ha => ?_
      simp [(scored_iff.mp ha).1]
    omega
  have hbuild : env.buildNewQuorumQuarterMembers params base allMns previous
      = ((groupTakes combined.length 0 ts).map (·.filterMap (combined[·]?)),
        some (env.buildQuorumSnapshot params base allMns used
          (encode 0 (skips combined.length 0 ts.flatten)))) := by
    unfold buildNewQuorumQuarterMembers
    dsimp only
    rw [hbase, if_neg hvalid, hfill]
    dsimp only
    rw [skipList_foldl_push]
    rfl
  have hhashes := hashes_combined hfits hmembers params
    (encode 0 (skips combined.length 0 ts.flatten))
  refine ⟨_, _, _, hbuild, getQuorumQuarterMembersBySnapshot_eq hbase hlist _, ?_⟩
  set snapshot := env.buildQuorumSnapshot params base allMns used
    (encode 0 (skips combined.length 0 ts.flatten)) with hsnapshot
  set replayed := combineBySnapshot snapshot.activeQuorumMembers
    (env.calculateQuorum allMns.mns (env.getHashModifier params base)) with hreplayed
  have hsame : replayed.length = combined.length := by
    have hlengths := congrArg length hhashes
    rw [length_map, length_map] at hlengths
    exact hlengths
  obtain hzero | hpos := Nat.eq_zero_or_pos combined.length
  · -- without masternodes the quarters have no size
    have hsize : params.size / 4 = 0 := by omega
    rw [hsize] at hfull
    have hempty : replayed = [] := length_eq_zero_iff.mp (hsame.trans hzero)
    rw [map_groupTakes_of_full_zero combined _ hfull, hts, hempty]
    rfl
  · have hskipped : skippedPositions snapshot = some (log replayed.length 0 ts.flatten) := by
      rw [skippedPositions_buildQuorumSnapshot, hsame]
      exact congrArg some (decode_encode _ 0)
    rw [replayQuarters_log hts hfull (hsame ▸ hall) (hsame ▸ hpos) hskipped, hsame,
      map_map, map_map]
    refine map_congr_left fun ps _ => ?_
    show (ps.filterMap (replayed[·]?)).map _ = (ps.filterMap (combined[·]?)).map _
    rw [map_filterMap_getElem?, map_filterMap_getElem?, hhashes]

/-! ## The quarters before -/

/-- The first block of the cycle `k` cycles before. -/
def cycleBefore (params : LLMQParams) (base : CBlockIndex) (k : Nat) : Option CBlockIndex :=
  base.getAncestor (base.nHeight - params.dkgInterval * k : Int)

def cycleMns (env : RotationEnv H) (params : LLMQParams) (base : CBlockIndex) :
    List CDeterministicMN :=
  (List.range 4).flatMap fun k =>
    match cycleBefore params base k with
    | none => []
    | some cycle =>
      match env.cycleList cycle with
      | .error _ => []
      | .ok mnList => mnList.mns

variable {cycle : CBlockIndex}

theorem mem_cycleMns {k : Nat} (hk : k < 4) (hcycle : cycleBefore params base k = some cycle)
    {mnList : CDeterministicMNList H} (hlist : env.cycleList cycle = .ok mnList)
    (hmn : mn ∈ mnList.mns) : mn ∈ cycleMns env params base := by
  apply mem_flatMap.mpr
  refine ⟨k, mem_range.mpr hk, ?_⟩
  rw [hcycle]
  dsimp only
  rw [hlist]
  exact hmn

theorem mem_combineBySnapshot {active : List Bool} {sorted : QuorumMembers}
    (h : mn ∈ combineBySnapshot active sorted) : mn ∈ sorted := by
  obtain h | h := mem_append.mp h
  · obtain ⟨⟨dmn, i⟩, hx, hmn⟩ := mem_filterMap.mp h
    dsimp only at hmn
    split_ifs at hmn
    cases hmn
    exact fst_mem_of_mem_zipIdx hx
  · obtain ⟨⟨dmn, i⟩, hx, hmn⟩ := mem_filterMap.mp h
    dsimp only at hmn
    split_ifs at hmn
    cases hmn
    exact fst_mem_of_mem_zipIdx hx

theorem of_mem_replayQuarters {combined : QuorumMembers} {quarter : QuorumMembers}
    (h : quarter ∈ replayQuarters params combined snapshot) :
    quarter.length ≤ params.size / 4 ∧ ∀ mn ∈ quarter, mn ∈ combined := by
  have hempty : ∀ n, quarter ∈ replicate n [] →
      quarter.length ≤ params.size / 4 ∧ ∀ mn ∈ quarter, mn ∈ combined := by
    intro n hn
    obtain rfl := eq_of_mem_replicate hn
    simp
  unfold replayQuarters at h
  split_ifs at h with hnone
  · exact hempty _ h
  · cases hskipped : skippedPositions snapshot with
    | none =>
      rw [hskipped] at h
      exact hempty _ h
    | some skipped =>
      rw [hskipped] at h
      obtain ⟨ps, hps, rfl⟩ := mem_map.mp h
      refine ⟨?_, fun mn hmn => ?_⟩
      · exact (length_filterMap_le _ _).trans (length_replayAll_le hps)
      · obtain ⟨p, -, hp⟩ := mem_filterMap.mp hmn
        exact mem_of_getElem? hp

theorem of_getQuorumQuarterMembersBySnapshot {quarters : List QuorumMembers}
    (h : env.getQuorumQuarterMembersBySnapshot params cycle snapshot = .ok quarters) (i : Nat) :
    (quarters.getD i []).length ≤ params.size / 4 ∧ ∀ mn ∈ quarters.getD i [], scored mn = true ∧
        ∃ mnList, env.cycleList cycle = .ok mnList ∧ mn ∈ mnList.mns := by
  cases hbase : isCycleBase params cycle with
  | false =>
    unfold getQuorumQuarterMembersBySnapshot at h
    rw [hbase] at h
    cases h
    simp
  | true =>
    cases hlist : env.cycleList cycle with
    | error e =>
      unfold getQuorumQuarterMembersBySnapshot at h
      rw [hbase, hlist] at h
      cases h
    | ok mnList =>
      rw [getQuorumQuarterMembersBySnapshot_eq hbase hlist] at h
      cases h
      obtain hlt | hge := Nat.lt_or_ge i (replayQuarters params (combineBySnapshot
        snapshot.activeQuorumMembers (env.calculateQuorum mnList.mns
          (env.getHashModifier params cycle))) snapshot).length
      · rw [getD_eq_getElem _ _ hlt]
        obtain ⟨hlength, hmem⟩ := of_mem_replayQuarters (getElem_mem hlt)
        refine ⟨hlength, fun mn hmn => ?_⟩
        obtain ⟨hmn, hscored⟩ := mem_calculateQuorum.mp (mem_combineBySnapshot (hmem mn hmn))
        exact ⟨hscored, mnList, rfl, hmn⟩
      · rw [getD_eq_default _ _ hge]
        simp

variable {snapshots snapshots' : SnapshotStore}

theorem getD_replicate_nil (n i : Nat) : (replicate n ([] : QuorumMembers)).getD i [] = [] := by
  rw [getD_eq_getElem?_getD, getElem?_replicate]
  split_ifs
  · rfl
  · rfl

theorem loadQuarters_succ (cycles k : Nat) (hcycle : cycleBefore params base k = some cycle) :
    env.loadQuarters params snapshots base (cycles + 1) k
      = match snapshots params.type cycle.hash with
        | none => .ok (replicate (cycles + 1) (replicate params.signingActiveQuorumCount []))
        | some snapshot =>
          env.getQuorumQuarterMembersBySnapshot params cycle snapshot >>= fun quarter =>
            env.loadQuarters params snapshots base cycles (k + 1) >>= fun rest =>
              .ok (quarter :: rest) := by
  unfold cycleBefore at hcycle
  rw [loadQuarters, hcycle]
  rfl

theorem loadQuarters_of_none (cycles k : Nat) (hcycle : cycleBefore params base k = none) :
    env.loadQuarters params snapshots base (cycles + 1) k = .error .nullIndex := by
  unfold cycleBefore at hcycle
  rw [loadQuarters, hcycle]
  rfl

theorem loadQuarters_congr : ∀ (cycles k : Nat),
    (∀ m, k ≤ m → m < k + cycles → ∀ cycle, cycleBefore params base m = some cycle →
      snapshots params.type cycle.hash = snapshots' params.type cycle.hash) →
    env.loadQuarters params snapshots base cycles k
      = env.loadQuarters params snapshots' base cycles k
  | 0, _, _ => rfl
  | cycles + 1, k, h => by
    have hrest := loadQuarters_congr cycles (k + 1) fun m hm hlt => h m (by omega) (by omega)
    cases hcycle : cycleBefore params base k with
    | none => rw [loadQuarters_of_none cycles k hcycle, loadQuarters_of_none cycles k hcycle]
    | some cycle =>
      rw [loadQuarters_succ cycles k hcycle, loadQuarters_succ cycles k hcycle,
        h k le_rfl (by omega) cycle hcycle, hrest]

theorem of_loadQuarters : ∀ {cycles k : Nat} {previous : PreviousQuorumQuarters},
    env.loadQuarters params snapshots base cycles k = .ok previous → previous.length = cycles ∧
      ∀ quarters ∈ previous, ∀ i, (quarters.getD i []).length ≤ params.size / 4 ∧
        ∀ mn ∈ quarters.getD i [], scored mn = true ∧ ∃ m cycle mnList, k ≤ m ∧ m < k + cycles ∧
            cycleBefore params base m = some cycle ∧ env.cycleList cycle = .ok mnList ∧
            mn ∈ mnList.mns
  | 0, k, previous, h => by
    cases h
    simp
  | cycles + 1, k, previous, h => by
    cases hcycle : cycleBefore params base k with
    | none =>
      rw [loadQuarters_of_none cycles k hcycle] at h
      cases h
    | some cycle =>
      rw [loadQuarters_succ cycles k hcycle] at h
      cases hsnapshot : snapshots params.type cycle.hash with
      | none =>
        rw [hsnapshot] at h
        cases h
        refine ⟨length_replicate, fun quarters hquarters i => ?_⟩
        rw [eq_of_mem_replicate hquarters]
        rw [getD_replicate_nil]
        simp
      | some snapshot =>
        rw [hsnapshot] at h
        obtain ⟨quarter, hquarter, rest, hrest, h⟩ := bind₂_eq_ok_iff.mp h
        cases h
        obtain ⟨hlength, hall⟩ := of_loadQuarters hrest
        refine ⟨by rw [length_cons, hlength], fun quarters hquarters i => ?_⟩
        obtain rfl | hquarters := mem_cons.mp hquarters
        · obtain ⟨hle, hmem⟩ := of_getQuorumQuarterMembersBySnapshot hquarter i
          refine ⟨hle, fun mn hmn => ?_⟩
          obtain ⟨hscored, mnList, hlist, hmn⟩ := hmem mn hmn
          exact ⟨hscored, k, cycle, mnList, le_rfl, by omega, hcycle, hlist, hmn⟩
        · obtain ⟨hle, hmem⟩ := hall quarters hquarters i
          refine ⟨hle, fun mn hmn => ?_⟩
          obtain ⟨hscored, m, cycle', mnList, hkm, hlt, hrest⟩ := hmem mn hmn
          exact ⟨hscored, m, cycle', mnList, by omega, by omega, hrest⟩

theorem previous_of_load (h : env.previousQuarters params snapshots base = .ok previous) :
    Previous params (cycleMns env params base) previous := by
  obtain ⟨hlength, hall⟩ := of_loadQuarters h
  refine ⟨hlength.le, fun quarters hquarters i => (hall quarters hquarters i).1, ?_⟩
  intro quarters hquarters i mn hmn
  obtain ⟨hscored, m, cycle, mnList, -, hlt, hcycle, hlist, hmn⟩ :=
    (hall quarters hquarters i).2 mn hmn
  exact ⟨mem_cycleMns (by omega) hcycle hlist hmn, hscored⟩

/-! ## Runs -/

/-- The masternode lists of a cycle and of the three before allow a rotation: there
are enough masternodes, no unique property goes from one masternode to another, a
confirmed masternode stays as it is, and none is removed that still counts. -/
structure Rotatable (env : RotationEnv H) (params : LLMQParams) (base : CBlockIndex)
    (allMns : CDeterministicMNList H) : Prop where
  enough : max params.signingActiveQuorumCount 4 * (params.size / 4) ≤ allMns.mns.countP scored
  listable : ∀ dmn ∈ cycleMns env params base, dmn.Listable
  apart : ∀ a ∈ cycleMns env params base, ∀ b ∈ cycleMns env params base,
    a.proTxHash ≠ b.proTxHash → a.internalId ≠ b.internalId ∧
      ∀ k ∈ bag env.hash a.properties, k ∉ bag env.hash b.properties
  steady : ∀ a ∈ cycleMns env params base, a.pdmnState.confirmedHash ≠ 0 →
    ∀ b ∈ allMns.mns, b.proTxHash = a.proTxHash →
    b.collateralOutpoint = a.collateralOutpoint ∧
      b.pdmnState.confirmedHash = a.pdmnState.confirmedHash ∧
      b.pdmnState.confirmedHashWithProRegTxHash = a.pdmnState.confirmedHashWithProRegTxHash
  kept : env.skipRemovedMNs base = true ∨
    ∀ a ∈ cycleMns env params base, scored a = true → allMns.hasMN a.proTxHash = true

theorem exists_work_of_cycleList (h : env.cycleList base = .ok allMns) :
    (∃ work, allMns = env.getListForBlock work) ∧ 0 < base.nHeight := by
  obtain ⟨work, hwork, h⟩ := bind_eq_ok_iff.mp h
  cases h
  refine ⟨⟨work, rfl⟩, ?_⟩
  have hheight := CBlockIndex.nHeight_of_getAncestor (ofOption_eq_ok_iff.mp hwork)
  unfold workDiffDepth at hheight
  omega

theorem Rotatable.fits (h : Rotatable env params base allMns)
    (hlist : env.cycleList base = .ok allMns) :
    Fits env base allMns (cycleMns env params base) where
  indexed := by
    obtain ⟨⟨work, rfl⟩, -⟩ := exists_work_of_cycleList hlist
    exact env.indexed work
  listed dmn hdmn := by
    have hself : cycleBefore params base 0 = some base := by
      unfold cycleBefore
      simp
    exact mem_cycleMns (by decide) hself hlist hdmn
  listable := h.listable
  apart := h.apart
  steady := h.steady
  kept := h.kept

/-- A cycle is computed when its lists allow it, and not for the first time after a
cycle that builds on it. -/
structure InTurn (env : RotationEnv H) (tree : BlockTree) (params : LLMQParams)
    (base : CBlockIndex) (snapshots : SnapshotStore) : Prop where
  rotatable : ∀ allMns, env.cycleList base = .ok allMns → Rotatable env params base allMns
  order : ∀ later, tree.known later → ∀ k, 1 ≤ k → k ≤ 3 →
    cycleBefore params later k = some base → snapshots params.type later.hash ≠ none →
    snapshots params.type base.hash ≠ none

inductive RotationReach (env : RotationEnv H) (tree : BlockTree) : SnapshotStore → Prop where
  | start : RotationReach env tree fun _ _ => none
  | step {snapshots snapshots' : SnapshotStore} {params : LLMQParams} {base : CBlockIndex}
      {quorums : List QuorumMembers} : RotationReach env tree snapshots →
      params ∈ env.llmqs → tree.known base → InTurn env tree params base snapshots →
      env.computeQuorumMembersByQuarterRotation params base snapshots = .ok (quorums, snapshots') →
      RotationReach env tree snapshots'

/-- A stored snapshot is what its cycle would store again, with these quarters. -/
structure Settled (env : RotationEnv H) (params : LLMQParams) (base : CBlockIndex)
    (snapshots : SnapshotStore) (snapshot : CQuorumSnapshot)
    (allMns : CDeterministicMNList H) (previous : PreviousQuorumQuarters)
    (new : List QuorumMembers) : Prop where
  cycleBase : isCycleBase params base = true
  listed : env.cycleList base = .ok allMns
  rotatable : Rotatable env params base allMns
  loaded : env.previousQuarters params snapshots base = .ok previous
  built : env.buildNewQuorumQuarterMembers params base allMns previous = (new, some snapshot)

theorem compute_eq_ok {quorums : List QuorumMembers} (hbase : isCycleBase params base = true)
    (h : env.computeQuorumMembersByQuarterRotation params base snapshots
      = .ok (quorums, snapshots')) : ∃ allMns previous, env.cycleList base = .ok allMns ∧
      env.previousQuarters params snapshots base = .ok previous ∧
      quorums = (range params.signingActiveQuorumCount).map (fun i =>
        previousMembers previous.reverse i
          ++ (env.buildNewQuorumQuarterMembers params base allMns previous).1.getD i []) ∧
      snapshots' = storeSnapshot params base snapshots
        (env.buildNewQuorumQuarterMembers params base allMns previous).2 := by
  unfold computeQuorumMembersByQuarterRotation at h
  rw [hbase] at h
  obtain ⟨allMns, hlist, previous, hprevious, h⟩ := bind₂_eq_ok_iff.mp h
  cases h
  exact ⟨allMns, previous, hlist, hprevious, rfl, rfl⟩

theorem store_of_ne {llmqType t : LLMQType} {hash h : Uint256} (hne : ¬(t = llmqType ∧ h = hash)) :
    snapshots.store llmqType hash snapshot t h = snapshots t h := if_neg hne

theorem cycleBefore_ne (hbase : isCycleBase params base = true) (hpos : 0 < base.nHeight)
    {k : Nat} (hk : 1 ≤ k) : cycleBefore params base k ≠ some base := by
  intro hcycle
  have hheight := CBlockIndex.nHeight_of_getAncestor hcycle
  have hzero : params.dkgInterval * k = 0 := by
    have hcast : ((params.dkgInterval * k : Nat) : Int) = 0 := by
      push_cast
      omega
    exact_mod_cast hcast
  obtain hinterval | hk' := Nat.mul_eq_zero.mp hzero
  · simp only [isCycleBase, hinterval, Nat.mod_zero, Bool.and_eq_true, beq_iff_eq] at hbase
    omega
  · omega

theorem eq_of_type {params' : LLMQParams} (h : params ∈ env.llmqs) (h' : params' ∈ env.llmqs)
    (heq : params.type = params'.type) : params = params' :=
  inj_on_of_nodup_map env.llmqs_distinct h h' heq

theorem previousQuarters_store {tree : BlockTree} (hparams : params ∈ env.llmqs)
    (hknown : tree.known base) (hbase : isCycleBase params base = true)
    (hpos : 0 < base.nHeight) (hturn : InTurn env tree params base snapshots)
    (hsame : ∀ old, snapshots params.type base.hash = some old → old = snapshot)
    {params₂ : LLMQParams} (hparams₂ : params₂ ∈ env.llmqs)
    {base₂ : CBlockIndex} (hknown₂ : tree.known base₂)
    (hstored : snapshots.store params.type base.hash snapshot params₂.type base₂.hash ≠ none) :
    env.previousQuarters params₂ (snapshots.store params.type base.hash snapshot) base₂
      = env.previousQuarters params₂ snapshots base₂ := by
  apply loadQuarters_congr
  intro m hm hlt cycle hcycle
  by_cases hkey : params₂.type = params.type ∧ cycle.hash = base.hash
  · obtain rfl := eq_of_type hparams₂ hparams hkey.1
    obtain rfl := tree.hash_inj (tree.ancestor hknown₂ hcycle) hknown hkey.2
    have hne : base₂.hash ≠ cycle.hash := by
      intro heq
      obtain rfl := tree.hash_inj hknown₂ hknown heq
      exact cycleBefore_ne hbase hpos hm hcycle
    rw [store_of_ne fun h => hne h.2] at hstored
    have hold := hturn.order base₂ hknown₂ m hm (by omega) hcycle hstored
    obtain ⟨old, hold⟩ := Option.ne_none_iff_exists'.mp hold
    rw [hold, hsame old hold]
    exact if_pos ⟨rfl, rfl⟩
  · exact store_of_ne hkey

theorem settled_of_reach {tree : BlockTree} (hreach : RotationReach env tree snapshots) :
    ∀ {params : LLMQParams} {base : CBlockIndex} {snapshot : CQuorumSnapshot},
    params ∈ env.llmqs → tree.known base → snapshots params.type base.hash = some snapshot →
    ∃ allMns previous new, Settled env params base snapshots snapshot allMns previous new := by
  induction hreach with
  | start =>
    intro _ _ _ _ _ h
    cases h
  | @step snapshots snapshots' params base quorums _ hparams hknown hturn hcompute ih =>
    intro params₂ base₂ snapshot₂ hparams₂ hknown₂ hstored
    cases hbase : isCycleBase params base with
    | false =>
      unfold computeQuorumMembersByQuarterRotation at hcompute
      rw [hbase] at hcompute
      obtain ⟨-, rfl⟩ := Prod.mk.inj (ok.inj hcompute)
      exact ih hparams₂ hknown₂ hstored
    | true =>
      obtain ⟨allMns, previous, hlist, hprevious, -, rfl⟩ := compute_eq_ok hbase hcompute
      have hrotatable := hturn.rotatable allMns hlist
      obtain ⟨new, snapshot, -, hbuild, -, -⟩ := quarters_replayed (hrotatable.fits hlist) hbase
        hlist (previous_of_load hprevious) hrotatable.enough
      rw [hbuild] at hstored ⊢
      -- a snapshot that is there already is the same
      have hsame : ∀ old, snapshots params.type base.hash = some old → old = snapshot := by
        intro old hold
        obtain ⟨allMns', previous', new', hsettled⟩ := ih hparams hknown hold
        have hbuild' := hsettled.built
        cases hlist.symm.trans hsettled.listed
        cases hprevious.symm.trans hsettled.loaded
        rw [hbuild] at hbuild'
        exact (Option.some.inj (Prod.mk.inj hbuild').2).symm
      have hkeep := previousQuarters_store hparams hknown hbase
        (exists_work_of_cycleList hlist).2 hturn hsame hparams₂ hknown₂
        (by rw [show snapshots.store _ _ snapshot _ _ = some snapshot₂ from hstored]; simp)
      by_cases hkey : params₂.type = params.type ∧ base₂.hash = base.hash
      · obtain rfl := eq_of_type hparams₂ hparams hkey.1
        obtain rfl := tree.hash_inj hknown₂ hknown hkey.2
        have hnew : snapshot₂ = snapshot :=
          (Option.some.inj ((if_pos hkey).symm.trans hstored)).symm
        subst hnew
        exact ⟨allMns, previous, new, hbase, hlist, hrotatable, hkeep.trans hprevious, hbuild⟩
      · have hold : snapshots params₂.type base₂.hash = some snapshot₂ :=
          (store_of_ne hkey).symm.trans hstored
        obtain ⟨allMns', previous', new', hsettled⟩ := ih hparams₂ hknown₂ hold
        exact ⟨allMns', previous', new', hsettled.cycleBase, hsettled.listed,
          hsettled.rotatable, hkeep.trans hsettled.loaded, hsettled.built⟩

theorem Settled.replayed {new : List QuorumMembers}
    (h : Settled env params base snapshots snapshot allMns previous new) :
    ∃ quarters, env.getQuorumQuarterMembersBySnapshot params base snapshot = .ok quarters ∧
      quarters.map (·.map proTxHash) = new.map (·.map proTxHash) := by
  obtain ⟨new', snapshot', quarters, hbuild, hquarters, heq⟩ :=
    quarters_replayed (h.rotatable.fits h.listed) h.cycleBase h.listed
      (previous_of_load h.loaded) h.rotatable.enough
  obtain ⟨rfl, hsnapshot⟩ := Prod.mk.inj (hbuild.symm.trans h.built)
  cases hsnapshot
  exact ⟨quarters, hquarters, heq⟩

/-- In every run in turn, every stored snapshot gives back the quarters that were
built for its cycle, quorum by quorum and in order. -/
theorem replayed_of_reach {tree : BlockTree} (hreach : RotationReach env tree snapshots)
    (hparams : params ∈ env.llmqs) (hknown : tree.known base) {snapshot : CQuorumSnapshot}
    (hstored : snapshots params.type base.hash = some snapshot) :
    ∃ allMns previous new quarters, env.cycleList base = .ok allMns ∧
      env.previousQuarters params snapshots base = .ok previous ∧
      env.buildNewQuorumQuarterMembers params base allMns previous = (new, some snapshot) ∧
      env.getQuorumQuarterMembersBySnapshot params base snapshot = .ok quarters ∧
      quarters.map (·.map proTxHash) = new.map (·.map proTxHash) := by
  obtain ⟨allMns, previous, new, hsettled⟩ := settled_of_reach hreach hparams hknown hstored
  obtain ⟨quarters, hquarters, heq⟩ := hsettled.replayed
  exact ⟨allMns, previous, new, quarters, hsettled.listed, hsettled.loaded, hsettled.built,
    hquarters, heq⟩

/-! ## A chain with a constant masternode list -/

def crowdMN (i : Nat) : CDeterministicMN where
  internalId := i
  proTxHash := BitVec.ofNat 256 (i + 1)
  collateralOutpoint := ⟨BitVec.ofNat 256 (i + 1), 0⟩
  nOperatorReward := 0
  nType := .regular
  pdmnState :=
    { nVersion := 1
      nRegisteredHeight := 1
      nLastPaidHeight := 0
      nConsecutivePayments := 0
      nPoSePenalty := 0
      nPoSeRevivedHeight := -1
      nPoSeBanHeight := -1
      nRevocationReason := 0
      confirmedHash := 1
      confirmedHashWithProRegTxHash := BitVec.ofNat 256 (i + 1)
      keyIDOwner := BitVec.ofNat 160 (i + 1)
      pubKeyOperator := some ⟨[UInt8.ofNat i], false⟩
      keyIDVoting := 2
      netInfo := .mn (.service ⟨.ipv4, [1, 2, 3, UInt8.ofNat i], 9777⟩)
      scriptPayout := []
      scriptOperatorPayout := []
      platformNodeID := 0
      platformP2PPort := 0
      platformHTTPPort := 0 }

/-- The list of the first `n` of them. -/
def crowdList (n : Nat) : CDeterministicMNList UniqueProperty :=
  ((List.range n).map crowdMN).foldl (fun l mn => l.tryAddMN id mn) .empty

theorem indexed_tryAddMN {l : CDeterministicMNList H} {hash : UniqueProperty → H}
    (hl : l.Indexed hash) (dmn : CDeterministicMN) : (l.tryAddMN hash dmn).Indexed hash := by
  unfold CDeterministicMNList.tryAddMN
  cases hadd : l.addMN hash dmn true with
  | error e => exact hl
  | ok l' => exact hl.addMN hadd

theorem indexed_crowdList (n : Nat) : (crowdList n).Indexed id := by
  unfold crowdList
  generalize (range n).map crowdMN = members
  have hstep : ∀ (members : QuorumMembers) (l : CDeterministicMNList UniqueProperty),
      l.Indexed id → (members.foldl (fun l mn => l.tryAddMN id mn) l).Indexed id := by
    intro members
    induction members with
    | nil => exact fun l hl => hl
    | cons mn members ih => exact fun l hl => ih _ (indexed_tryAddMN hl mn)
  exact hstep members .empty (CDeterministicMNList.indexed_make 0 (-1) 0)

/-- `LLMQ_TEST_DIP0024`: two quorums of four members. -/
def crowdParams : LLMQParams := ⟨.llmqTestDip0024, true, 4, 4, 24, 12, 20, 2, 4⟩

def crowdEnv (n : Nat) : RotationEnv UniqueProperty where
  llmqs := [crowdParams]
  llmqs_distinct := by decide
  hash := id
  getListForBlock _ := crowdList n
  indexed _ := indexed_crowdList n
  quorumScore confirmed _ := confirmed.toNat
  getHashModifier _ _ := 0
  v19ActiveAfter _ := true
  network := .regtest

def crowdBlock (height : Nat) : CBlockIndex :=
  ⟨BitVec.ofNat 256 (height + 1),
    ((List.range height).map fun h => BitVec.ofNat 256 (h + 1)).reverse⟩

def crowdTree : BlockTree := .ofTip (crowdBlock 72) (by decide +kernel)

def crowdSnapshots (n : Nat) : List Nat → SnapshotStore
  | [] => fun _ _ => none
  | height :: heights =>
    match (crowdEnv n).computeQuorumMembersByQuarterRotation crowdParams (crowdBlock height)
        (crowdSnapshots n heights) with
    | .ok (_, snapshots) => snapshots
    | .error _ => crowdSnapshots n heights

def builtAndReplayed (n height : Nat) (heights : List Nat) :
    Except Fault (List (List Uint256) × Option (List (List Uint256))) := do
  let env := crowdEnv n
  let snapshots := crowdSnapshots n heights
  let previous ← env.previousQuarters crowdParams snapshots (crowdBlock height)
  let (new, snapshot) := env.buildNewQuorumQuarterMembers crowdParams (crowdBlock height)
    (crowdList n) previous
  match snapshot with
  | none => .ok (new.map (·.map proTxHash), none)
  | some snapshot =>
    let quarters ← env.getQuorumQuarterMembersBySnapshot crowdParams (crowdBlock height) snapshot
    .ok (new.map (·.map proTxHash), some (quarters.map (·.map proTxHash)))

theorem mem_crowdList {n : Nat} {dmn : CDeterministicMN} (h : dmn ∈ (crowdList n).mns) :
    ∃ i < n, dmn = crowdMN i := by
  obtain hmem | hempty := (of_addAll (crowdEnv n) _ _).2 _ _
    ((indexed_crowdList n).mem_mns_iff.mp h)
  · obtain ⟨i, hi, rfl⟩ := mem_map.mp hmem
    exact ⟨i, mem_range.mp hi, rfl⟩
  · cases hempty

theorem mem_cycleMns_crowdEnv {n : Nat} {base : CBlockIndex} {dmn : CDeterministicMN}
    (h : dmn ∈ cycleMns (crowdEnv n) crowdParams base) : ∃ i < n, dmn = crowdMN i := by
  obtain ⟨k, -, h⟩ := mem_flatMap.mp h
  split at h
  · cases h
  · split at h
    · cases h
    · rename_i mnList hlist
      obtain ⟨⟨work, rfl⟩, -⟩ := exists_work_of_cycleList hlist
      exact mem_crowdList h

theorem rotatable_crowdEnv {base : CBlockIndex} {allMns : CDeterministicMNList UniqueProperty}
    (hlist : (crowdEnv 4).cycleList base = .ok allMns) :
    Rotatable (crowdEnv 4) crowdParams base allMns := by
  obtain ⟨⟨work, rfl⟩, -⟩ := exists_work_of_cycleList hlist
  have hlistable : ∀ i < 4, (crowdMN i).Listable := by
    have hcollateral : ∀ i < 4, (crowdMN i).collateralOutpoint.isNull = false := by
      decide +kernel
    have hentries : ∀ i < 4, ∀ entry ∈ (crowdMN i).pdmnState.netInfo.getEntries,
        entry.property.map UniqueProperty.isNull = some false := by
      decide +kernel
    have howner : ∀ i < 4, (crowdMN i).pdmnState.keyIDOwner ≠ 0 := by decide +kernel
    intro i hi
    refine ⟨hcollateral i hi, fun entry hentry => ?_, howner i hi⟩
    exact Option.map_eq_some_iff.mp (hentries i hi entry hentry)
  have hapart : ∀ i < 4, ∀ j < 4, (crowdMN i).proTxHash ≠ (crowdMN j).proTxHash →
      (crowdMN i).internalId ≠ (crowdMN j).internalId ∧
        ∀ k ∈ bag id (crowdMN i).properties, k ∉ bag id (crowdMN j).properties := by
    decide +kernel
  have hhash : ∀ i < 4, ∀ j < 4, (crowdMN i).proTxHash = (crowdMN j).proTxHash → i = j := by
    decide +kernel
  have henough : max 2 4 * (4 / 4) ≤ (crowdList 4).mns.countP scored := by decide +kernel
  refine ⟨henough, ?_, ?_, ?_, .inl rfl⟩
  · intro dmn hdmn
    obtain ⟨i, hi, rfl⟩ := mem_cycleMns_crowdEnv hdmn
    exact hlistable i hi
  · intro a ha b hb hne
    obtain ⟨i, hi, rfl⟩ := mem_cycleMns_crowdEnv ha
    obtain ⟨j, hj, rfl⟩ := mem_cycleMns_crowdEnv hb
    exact hapart i hi j hj hne
  · intro a ha _ b hb heq
    obtain ⟨i, hi, rfl⟩ := mem_cycleMns_crowdEnv ha
    obtain ⟨j, hj, rfl⟩ := mem_crowdList hb
    obtain rfl := hhash j hj i hi heq
    exact ⟨rfl, rfl, rfl⟩

theorem RotationReach.crowd {heights : List Nat} {height : Nat}
    (hreach : RotationReach (crowdEnv 4) crowdTree (crowdSnapshots 4 heights))
    (hknown : (crowdBlock height).path <:+ (crowdBlock 72).path)
    (hturn : InTurn (crowdEnv 4) crowdTree crowdParams (crowdBlock height)
      (crowdSnapshots 4 heights)) :
    RotationReach (crowdEnv 4) crowdTree (crowdSnapshots 4 (height :: heights)) := by
  unfold crowdSnapshots
  cases hcompute : (crowdEnv 4).computeQuorumMembersByQuarterRotation crowdParams
      (crowdBlock height) (crowdSnapshots 4 heights) with
  | error e => exact hreach
  | ok result => exact .step hreach (by decide) hknown hturn hcompute

theorem reach_crowd_one : RotationReach (crowdEnv 4) crowdTree (crowdSnapshots 4 [24]) :=
  RotationReach.crowd .start (by decide +kernel)
    ⟨fun _ => rotatable_crowdEnv, fun _ _ _ _ _ _ h => absurd rfl h⟩

theorem hash_of_crowdSnapshots {n height : Nat} {llmqType : LLMQType} {hash : Uint256}
    (h : crowdSnapshots n [height] llmqType hash ≠ none) : hash = (crowdBlock height).hash := by
  by_contra hne
  apply h
  unfold crowdSnapshots
  cases hcompute : (crowdEnv n).computeQuorumMembersByQuarterRotation crowdParams
      (crowdBlock height) (crowdSnapshots n []) with
  | error e => rfl
  | ok result =>
    obtain ⟨quorums, snapshots⟩ := result
    cases hbase : isCycleBase crowdParams (crowdBlock height) with
    | false =>
      unfold computeQuorumMembersByQuarterRotation at hcompute
      rw [hbase] at hcompute
      obtain ⟨-, rfl⟩ := Prod.mk.inj (ok.inj hcompute)
      rfl
    | true =>
      obtain ⟨allMns, previous, -, -, -, rfl⟩ := compute_eq_ok hbase hcompute
      cases (buildNewQuorumQuarterMembers (crowdEnv n) crowdParams (crowdBlock height) allMns
        previous).2 with
      | none => rfl
      | some snapshot => exact store_of_ne fun hkey => hne hkey.2

theorem inTurn_crowd_two : InTurn (crowdEnv 4) crowdTree crowdParams (crowdBlock 48)
    (crowdSnapshots 4 [24]) := by
  refine ⟨fun _ => rotatable_crowdEnv, ?_⟩
  intro later hlater k hk _ hcycle hstored
  have hfirst : later = crowdBlock 24 := crowdTree.hash_inj hlater
    (show (crowdBlock 24).path <:+ (crowdBlock 72).path by decide +kernel)
    (hash_of_crowdSnapshots hstored)
  have hheight := CBlockIndex.nHeight_of_getAncestor hcycle
  rw [hfirst] at hheight
  have hlow : (crowdBlock 24).nHeight = 24 := by decide +kernel
  have hhigh : (crowdBlock 48).nHeight = 48 := by decide +kernel
  have hinterval : crowdParams.dkgInterval = 24 := rfl
  rw [hinterval] at hheight
  omega

theorem reach_crowd_two : RotationReach (crowdEnv 4) crowdTree (crowdSnapshots 4 [48, 24]) :=
  reach_crowd_one.crowd (by decide +kernel) inTurn_crowd_two

/-- The second cycle, which has the quarters of the first one before it. -/
theorem replayed_of_reach_crowd : ∃ snapshot allMns previous new quarters,
      crowdSnapshots 4 [48, 24] crowdParams.type (crowdBlock 48).hash = some snapshot ∧
      (crowdEnv 4).cycleList (crowdBlock 48) = .ok allMns ∧
      (crowdEnv 4).previousQuarters crowdParams (crowdSnapshots 4 [48, 24]) (crowdBlock 48)
        = .ok previous ∧
      (crowdEnv 4).buildNewQuorumQuarterMembers crowdParams (crowdBlock 48) allMns previous
        = (new, some snapshot) ∧
      (crowdEnv 4).getQuorumQuarterMembersBySnapshot crowdParams (crowdBlock 48) snapshot
        = .ok quarters ∧ quarters.map (·.map proTxHash) = new.map (·.map proTxHash) := by
  have hstored : (crowdSnapshots 4 [48, 24] crowdParams.type
      (crowdBlock 48).hash).isSome = true := by
    decide +kernel
  obtain ⟨snapshot, hsnapshot⟩ := Option.isSome_iff_exists.mp hstored
  obtain ⟨allMns, previous, new, quarters, h⟩ := replayed_of_reach reach_crowd_two (by decide)
    (show (crowdBlock 48).path <:+ (crowdBlock 72).path by decide +kernel) hsnapshot
  exact ⟨snapshot, allMns, previous, new, quarters, hsnapshot, h⟩

/-- With a single masternode the second cycle has nothing to add, but its snapshot
gives the masternode again. -/
theorem snapshot_not_replayed : builtAndReplayed 1 48 [24] = .ok ([[], []], some [[1], [1]]) := by
  decide +kernel

end RotationEnv

end KorshCore

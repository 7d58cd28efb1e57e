import KorshCore.Llmq.Rotation

/-!
# Quarters that a snapshot gives back

The new quarters of a cycle are compared with those that are made again from its
snapshot.
-/

namespace KorshCore

open CDeterministicMN CDeterministicMNList CyclicLog List Codec

namespace RotationEnv

variable {H : Type} [DecidableEq H] {env : RotationEnv H}

/-! ## Masternodes that fit -/

/-- The masternodes of a list and of older lists can be put into one list, and those
that are in both have kept their rank. -/
structure Fits (env : RotationEnv H) (base : CBlockIndex) (allMns : CDeterministicMNList H)
    (known : List CDeterministicMN) : Prop where
  indexed : allMns.Indexed env.hash
  listed : ∀ dmn ∈ allMns.mns, dmn ∈ known
  listable : ∀ dmn ∈ known, dmn.Listable
  /-- No masternode has something unique of another one. -/
  apart : ∀ a ∈ known, ∀ b ∈ known, a.proTxHash ≠ b.proTxHash →
    a.internalId ≠ b.internalId ∧ ∀ k ∈ bag env.hash a.properties, k ∉ bag env.hash b.properties
  /-- A confirmed masternode stays as it was confirmed. -/
  steady : ∀ a ∈ known, a.pdmnState.confirmedHash ≠ 0 →
    ∀ b ∈ allMns.mns, b.proTxHash = a.proTxHash →
    b.collateralOutpoint = a.collateralOutpoint ∧
      b.pdmnState.confirmedHash = a.pdmnState.confirmedHash ∧
      b.pdmnState.confirmedHashWithProRegTxHash = a.pdmnState.confirmedHashWithProRegTxHash
  /-- Masternodes that were removed are left out, or there are none. -/
  kept : env.skipRemovedMNs base = true ∨
    ∀ a ∈ known, scored a = true → allMns.hasMN a.proTxHash = true

structure Drawn (env : RotationEnv H) (known : List CDeterministicMN)
    (l : CDeterministicMNList H) : Prop where
  indexed : l.Indexed env.hash
  known : ∀ {p dmn}, l.getMN p = some dmn → dmn ∈ known

variable {base : CBlockIndex} {allMns : CDeterministicMNList H} {known : List CDeterministicMN}

variable (env known) in
theorem drawn_empty : Drawn env known (.empty : CDeterministicMNList H) :=
  ⟨indexed_make 0 (-1) 0, fun h => nomatch h⟩

variable {l : CDeterministicMNList H} {dmn : CDeterministicMN}

theorem tryAddMN_of_hasMN (h : l.hasMN dmn.proTxHash = true) : l.tryAddMN env.hash dmn = l := by
  have herror : l.addMN env.hash dmn true = .error .duplicateProTxHash := if_pos h
  unfold tryAddMN
  rw [herror]

theorem getMN_of_tryAddMN {dmn a : CDeterministicMN} {q : Uint256}
    (h : (l.tryAddMN env.hash dmn).getMN q = some a) : a = dmn ∨ l.getMN q = some a := by
  unfold tryAddMN at h
  cases hadd : l.addMN env.hash dmn true with
  | error e =>
    rw [hadd] at h
    exact .inr h
  | ok l' =>
    rw [hadd] at h
    have hget := getMN_addMN hadd q
    rw [show l'.getMN q = some a from h] at hget
    split_ifs at hget with heq
    · exact .inl (Option.some.inj hget)
    · exact .inr hget.symm

variable (env) in
theorem getAllMNsCount_tryAddMN_le (l : CDeterministicMNList H) (dmn : CDeterministicMN) :
    (l.tryAddMN env.hash dmn).getAllMNsCount ≤ l.getAllMNsCount + 1 := by
  unfold tryAddMN
  cases hadd : l.addMN env.hash dmn true with
  | error e => exact Nat.le_succ _
  | ok l' =>
    obtain ⟨-, -, -, hmap, -⟩ := addMN_eq_ok hadd
    show l'.mnMap.entries.length ≤ _
    rw [hmap]
    exact Nat.succ_le_succ (kerase_sublist _ _).length_le

variable (env) in
theorem of_addAll : ∀ (members : QuorumMembers) (l : CDeterministicMNList H),
    let l' := members.foldl (fun l mn => l.tryAddMN env.hash mn) l
    l'.getAllMNsCount ≤ l.getAllMNsCount + members.length ∧
      ∀ q a, l'.getMN q = some a → a ∈ members ∨ l.getMN q = some a
  | [], l => ⟨le_rfl, fun q a h => .inr h⟩
  | mn :: members, l => by
    obtain ⟨hcount, hget⟩ := of_addAll members (l.tryAddMN env.hash mn)
    have hone := getAllMNsCount_tryAddMN_le env l mn
    refine ⟨?_, fun q a h => ?_⟩
    · rw [length_cons]
      exact hcount.trans (by omega)
    · obtain hmem | hget := hget q a h
      · exact .inl (mem_cons_of_mem mn hmem)
      · obtain rfl | hget := getMN_of_tryAddMN hget
        · exact .inl mem_cons_self
        · exact .inr hget

variable {members : QuorumMembers}

section Known

variable (hfits : Fits env base allMns known)
include hfits

theorem Drawn.exists_addMN (hl : Drawn env known l) (hdmn : dmn ∈ known)
    (hnew : l.hasMN dmn.proTxHash = false) :
    ∃ l', l.addMN env.hash dmn true = .ok l' ∧ Drawn env known l' ∧
      ∀ q, l'.hasMN q = (decide (q = dmn.proTxHash) || l.hasMN q) := by
  have hnone : l.getMN dmn.proTxHash = none := by
    simpa [hasMN] using hnew
  have hother : ∀ {q dmn'}, l.getMN q = some dmn' → dmn'.proTxHash ≠ dmn.proTxHash := by
    intro q dmn' hq heq
    rw [hl.indexed.key hq] at heq
    rw [heq, hnone] at hq
    cases hq
  obtain ⟨l', hl'⟩ := hl.indexed.exists_addMN true hnone
    (fun q dmn' hq => (hfits.apart _ (hl.known hq) _ hdmn (hother hq)).1) (hfits.listable dmn hdmn)
    (by
      intro k hk q _ hheld
      cases hq : l.getMN q with
      | none =>
        rw [held_of_getMN_eq_none hq] at hheld
        exact absurd hheld (Multiset.notMem_zero k)
      | some dmn' =>
        rw [held_of_getMN hq] at hheld
        exact (hfits.apart _ (hl.known hq) _ hdmn (hother hq)).2 k hheld hk)
  have hget := getMN_addMN hl'
  refine ⟨l', hl', ⟨hl.indexed.addMN hl', ?_⟩, ?_⟩
  · intro q dmn' hq
    rw [hget] at hq
    split_ifs at hq with heq
    · cases hq
      exact hdmn
    · exact hl.known hq
  · intro q
    unfold hasMN
    rw [hget]
    split_ifs with heq
    · simp [heq]
    · simp [heq]

theorem Drawn.tryAddMN (hl : Drawn env known l) (hdmn : dmn ∈ known) :
    Drawn env known (l.tryAddMN env.hash dmn) ∧
      ∀ q, (l.tryAddMN env.hash dmn).hasMN q = (decide (q = dmn.proTxHash) || l.hasMN q) := by
  cases hhas : l.hasMN dmn.proTxHash with
  | true =>
    rw [tryAddMN_of_hasMN hhas]
    refine ⟨hl, fun q => ?_⟩
    by_cases hq : q = dmn.proTxHash
    · rw [hq, hhas]
      simp
    · simp [hq]
  | false =>
    obtain ⟨l', hadd, hl', hq⟩ := hl.exists_addMN hfits hdmn hhas
    have htry : l.tryAddMN env.hash dmn = l' := by
      unfold CDeterministicMNList.tryAddMN
      rw [hadd]
    rw [htry]
    exact ⟨hl', hq⟩

theorem Drawn.addAll : ∀ {members : QuorumMembers} {l : CDeterministicMNList H}, Drawn env known l →
    (∀ mn ∈ members, mn ∈ known) → let l' := members.foldl (fun l mn => l.tryAddMN env.hash mn) l
    Drawn env known l' ∧ ∀ q, l'.hasMN q = true ↔ q ∈ members.map proTxHash ∨ l.hasMN q = true
  | [], l, hl, _ => ⟨hl, fun q => by simp⟩
  | mn :: members, l, hl, hmembers => by
    obtain ⟨hadd, hhas⟩ := hl.tryAddMN hfits (hmembers mn mem_cons_self)
    obtain ⟨hdrawn, hall⟩ := hadd.addAll fun a ha => hmembers a (mem_cons_of_mem mn ha)
    refine ⟨hdrawn, fun q => (hall q).trans ?_⟩
    rw [hhas, map_cons, mem_cons, Bool.or_eq_true, decide_eq_true_eq]
    tauto

theorem usedList_spec (hmembers : ∀ mn ∈ members, mn ∈ known) :
    Drawn env known (env.usedList base allMns members) ∧
      ∀ q, (env.usedList base allMns members).hasMN q = true ↔
        ∃ mn ∈ members, env.stillUsed base allMns mn = true ∧ mn.proTxHash = q := by
  obtain ⟨hdrawn, hhas⟩ := (drawn_empty env known).addAll hfits
    fun mn hmn => hmembers mn (mem_filter.mp hmn).1
  refine ⟨hdrawn, fun q => (hhas q).trans ?_⟩
  simp [hasMN, getMN, empty, make, and_assoc]

end Known

variable {a : CDeterministicMN}

theorem mem_of_usedList {q : Uint256} (h : (env.usedList base allMns members).getMN q = some a) :
    a ∈ members ∧ env.stillUsed base allMns a = true := by
  obtain hmem | hempty := (of_addAll env _ _).2 q a h
  · exact mem_filter.mp hmem
  · cases hempty

variable (env base allMns) in
theorem getAllMNsCount_usedList_le (members : QuorumMembers) :
    (env.usedList base allMns members).getAllMNsCount ≤ members.length := by
  have hcount := (of_addAll env (members.filter (env.stillUsed base allMns)) .empty).1
  have hfilter := length_filter_le (env.stillUsed base allMns) members
  have hempty : (empty : CDeterministicMNList H).getAllMNsCount = 0 := rfl
  exact hcount.trans (by omega)

/-! ## The order of the masternodes -/

theorem memoryOrder_injective : Function.Injective Uint256.memoryOrder := by
  intro a b h
  have hbytes : ∀ hash : Uint256, toBytes 32 (Uint256.memoryOrder hash)
      = (toBytes 32 hash.toNat).reverse := by
    intro hash
    have hround := toBytes_ofBytes (toBytes 32 hash.toNat).reverse
    exact hround
  have heq : toBytes 32 a.toNat = toBytes 32 b.toNat := by
    have hreverse := (hbytes a).symm.trans ((congrArg _ h).trans (hbytes b))
    exact reverse_injective hreverse
  apply BitVec.eq_of_toNat_eq
  rw [← ofBytes_toBytes (k := 32) a.isLt, heq, ofBytes_toBytes b.isLt]

def ranked (env : RotationEnv H) (modifier : Uint256) (dmn : CDeterministicMN) :
    Uint256 × (ℕ ×ₗ (ℕ ×ₗ ℕ)) := (dmn.proTxHash, env.rank modifier dmn)

variable {mns : List CDeterministicMN} {modifier : Uint256}

theorem mem_calculateQuorum : a ∈ env.calculateQuorum mns modifier ↔ a ∈ mns ∧ scored a = true := by
  unfold calculateQuorum
  rw [mem_insertionSort, mem_filter]

theorem calculateQuorum_perm : (env.calculateQuorum mns modifier).Perm (mns.filter scored) :=
  perm_insertionSort _ _

theorem pairwise_calculateQuorum : (env.calculateQuorum mns modifier).Pairwise
    fun a b => env.rank modifier b ≤ env.rank modifier a := by
  have : Std.Total fun a b => env.rank modifier b ≤ env.rank modifier a := ⟨fun a b => le_total _ _⟩
  have : IsTrans CDeterministicMN fun a b => env.rank modifier b ≤ env.rank modifier a :=
    ⟨fun a b c hab hbc => le_trans hbc hab⟩
  exact pairwise_insertionSort _ _

theorem nodup_calculateQuorum (h : (mns.map proTxHash).Nodup) :
    ((env.calculateQuorum mns modifier).map proTxHash).Nodup := by
  rw [(calculateQuorum_perm.map _).nodup_iff]
  exact h.sublist (filter_sublist.map _)

theorem nodup_ranked (h : (mns.map proTxHash).Nodup) : (mns.map (ranked env modifier)).Nodup := by
  apply Nodup.of_map Prod.fst
  rw [map_map]
  exact h

theorem scored_iff : scored a = true ↔
    a.pdmnState.isBanned = false ∧ a.pdmnState.confirmedHash ≠ 0 := by
  simp [scored]

theorem combineBySnapshot_eq {sorted : QuorumMembers} (active : CDeterministicMN → Bool)
    (rest : List Bool) (hvalid : ∀ a ∈ sorted, a.pdmnState.isBanned = false) :
    combineBySnapshot (sorted.map active ++ rest) sorted
      = sorted.filter (fun a => !active a) ++ sorted.filter active := by
  have hbit : ∀ x ∈ sorted.zipIdx, (sorted.map active ++ rest).getD x.2 false = active x.1 := by
    intro x hx
    have hget := List.mem_zipIdx_iff_getElem?.mp hx
    obtain ⟨hlt, -⟩ := List.getElem?_eq_some_iff.mp hget
    rw [List.getD_eq_getElem?_getD, List.getElem?_append_left (by simpa using hlt),
      List.getElem?_map, hget]
    rfl
  have hmap : ∀ g : CDeterministicMN → Option CDeterministicMN,
      sorted.zipIdx.filterMap (fun x => g x.1) = sorted.filterMap g := by
    intro g
    conv_rhs => rw [← List.zipIdx_map_fst 0 sorted]
    rw [List.filterMap_map]
    rfl
  unfold combineBySnapshot
  dsimp only
  congr 1
  · rw [← List.filterMap_eq_filter, ← hmap]
    apply List.filterMap_congr
    intro x hx
    have hx' := hvalid x.1 (List.fst_mem_of_mem_zipIdx hx)
    cases hactive : active x.1 with
    | true => simp only [hbit x hx, hactive, if_true, Option.guard, Bool.not_true,
        Bool.false_eq_true, if_false]
    | false => simp only [hbit x hx, hactive, hx', Bool.false_eq_true, if_false, Option.guard,
        Bool.not_false, if_true]
  · rw [← List.filterMap_eq_filter, ← hmap]
    apply List.filterMap_congr
    intro x hx
    simp only [hbit x hx, Option.guard]

section Order

variable (hfits : Fits env base allMns known)
include hfits

theorem Fits.eq_of_rank {modifier : Uint256}
    {a b : CDeterministicMN} (ha : a ∈ known) (hb : b ∈ known)
    (h : env.rank modifier a = env.rank modifier b) : a.proTxHash = b.proTxHash := by
  by_contra hne
  obtain ⟨-, hcollateral⟩ := Prod.ext_iff.mp (toLex_inj.mp h)
  obtain ⟨hhash, hn⟩ := Prod.ext_iff.mp (toLex_inj.mp hcollateral)
  have hsame : a.collateralOutpoint = b.collateralOutpoint := by
    have hhash := memoryOrder_injective hhash
    cases ha : a.collateralOutpoint
    cases hb : b.collateralOutpoint
    simp_all
  -- both have the property of the collateral
  have hproperty : ∀ {dmn : CDeterministicMN}, dmn ∈ known →
      env.hash (.outpoint dmn.collateralOutpoint) ∈ bag env.hash dmn.properties := by
    intro dmn hdmn
    apply mem_bag
    unfold properties UniqueProperty.optional
    have hnull : (UniqueProperty.outpoint dmn.collateralOutpoint).isNull = false :=
      (hfits.listable dmn hdmn).collateral
    simp [hnull]
  exact (hfits.apart a ha b hb hne).2 _ (hproperty ha) (hsame ▸ hproperty hb)

theorem Fits.map_ranked_eq (modifier : Uint256)
    {l l' : QuorumMembers} (hl : ∀ a ∈ l, a ∈ known) (hl' : ∀ a ∈ l', a ∈ known)
    (hsorted : l.Pairwise fun a b => env.rank modifier b ≤ env.rank modifier a)
    (hsorted' : l'.Pairwise fun a b => env.rank modifier b ≤ env.rank modifier a)
    (hperm : (l.map (ranked env modifier)).Perm (l'.map (ranked env modifier))) :
    l.map proTxHash = l'.map proTxHash := by
  have heq : l.map (ranked env modifier) = l'.map (ranked env modifier) := by
    refine @Perm.eq_of_pairwise _ (fun x y => y.2 ≤ x.2) _ _ ?_ ?_ ?_ hperm
    · intro x y hx hy hxy hyx
      obtain ⟨a, ha, rfl⟩ := mem_map.mp hx
      obtain ⟨b, hb, rfl⟩ := mem_map.mp hy
      have hrank := le_antisymm hyx hxy
      exact Prod.ext (hfits.eq_of_rank (hl a ha) (hl' b hb) hrank) hrank
    · exact pairwise_map.mpr hsorted
    · exact pairwise_map.mpr hsorted'
  have hfst := congrArg (map Prod.fst) heq
  rw [map_map, map_map] at hfst
  exact hfst

theorem hashes_mnsNotUsed (used : CDeterministicMNList H) (modifier : Uint256) :
    (env.calculateQuorum (mnsNotUsed allMns used) modifier).map proTxHash
      = ((env.calculateQuorum allMns.mns modifier).filter
          fun dmn => !used.hasMN dmn.proTxHash).map proTxHash := by
  apply hfits.map_ranked_eq modifier
  · intro a ha
    exact hfits.listed a (mem_filter.mp (mem_calculateQuorum.mp ha).1).1
  · intro a ha
    exact hfits.listed a (mem_calculateQuorum.mp (mem_filter.mp ha).1).1
  · exact pairwise_calculateQuorum
  · exact pairwise_calculateQuorum.filter _
  · apply Perm.map
    refine calculateQuorum_perm.trans (Perm.trans ?_ (calculateQuorum_perm.filter _).symm)
    unfold mnsNotUsed
    rw [filter_filter, filter_filter]
    refine Perm.of_eq (filter_congr fun a _ => ?_)
    -- a masternode with a score is not banned
    rw [Bool.eq_iff_iff]
    simp only [Bool.and_eq_true, scored_iff, Bool.not_eq_true']
    tauto

theorem Fits.ranked_eq {a b : CDeterministicMN}
    (ha : a ∈ known) (hscored : scored a = true) (hb : b ∈ allMns.mns)
    (heq : b.proTxHash = a.proTxHash) : ranked env modifier b = ranked env modifier a := by
  obtain ⟨hcollateral, -, hconfirmed⟩ := hfits.steady a ha (scored_iff.mp hscored).2 b hb heq
  unfold ranked rank
  rw [heq, hcollateral, hconfirmed]

theorem Fits.exists_scored (ha : a ∈ known)
    (hscored : scored a = true) (hused : env.stillUsed base allMns a = true) :
    ∃ b ∈ allMns.mns, b.proTxHash = a.proTxHash ∧ scored b = true := by
  simp only [stillUsed, Bool.and_eq_true, Bool.not_eq_true'] at hused
  obtain ⟨hremoved, hbanned⟩ := hused
  have hlisted : allMns.hasMN a.proTxHash = true := by
    obtain hskip | hkept := hfits.kept
    · simpa [hskip] using hremoved
    · exact hkept a ha hscored
  obtain ⟨b, hb⟩ := Option.isSome_iff_exists.mp hlisted
  have hkey := hfits.indexed.key hb
  have hmem : b ∈ allMns.mns := hfits.indexed.mem_mns_iff.mpr (by rw [hkey]; exact hb)
  refine ⟨b, hmem, hkey, scored_iff.mpr ⟨?_, ?_⟩⟩
  · unfold isMNPoSeBanned at hbanned
    rw [hb] at hbanned
    exact hbanned
  · have hconfirmed := (scored_iff.mp hscored).2
    rw [(hfits.steady a ha hconfirmed b hmem hkey).2.1]
    exact hconfirmed

section

variable (hmembers : ∀ mn ∈ members, mn ∈ known ∧ scored mn = true)
include hmembers

theorem hashes_used (modifier : Uint256) :
    (env.calculateQuorum (env.usedList base allMns members).mns modifier).map proTxHash
      = ((env.calculateQuorum allMns.mns modifier).filter fun dmn =>
          (env.usedList base allMns members).hasMN dmn.proTxHash).map proTxHash := by
  obtain ⟨hdrawn, hhas⟩ := usedList_spec hfits fun mn hmn => (hmembers mn hmn).1
  have hused : ∀ {a}, a ∈ (env.usedList base allMns members).mns →
      a ∈ members ∧ env.stillUsed base allMns a = true :=
    fun ha => mem_of_usedList (hdrawn.indexed.mem_mns_iff.mp ha)
  apply hfits.map_ranked_eq modifier
  · intro a ha
    exact (hmembers a (hused (mem_calculateQuorum.mp ha).1).1).1
  · intro a ha
    exact hfits.listed a (mem_calculateQuorum.mp (mem_filter.mp ha).1).1
  · exact pairwise_calculateQuorum
  · exact pairwise_calculateQuorum.filter _
  · refine (perm_ext_iff_of_nodup ?_ ?_).mpr fun x => ?_
    · exact nodup_ranked (nodup_calculateQuorum hdrawn.indexed.nodup_mns)
    · have hall : ((env.calculateQuorum allMns.mns modifier).map
          proTxHash).Nodup := nodup_calculateQuorum hfits.indexed.nodup_mns
      exact nodup_ranked (hall.sublist (filter_sublist.map _))
    · constructor
      · intro hx
        obtain ⟨a, ha, rfl⟩ := mem_map.mp hx
        obtain ⟨ha, hscored⟩ := mem_calculateQuorum.mp ha
        obtain ⟨hmem, hstill⟩ := hused ha
        obtain ⟨b, hb, hkey, hscoredb⟩ := hfits.exists_scored (hmembers a hmem).1 hscored hstill
        rw [← hfits.ranked_eq (hmembers a hmem).1 hscored hb hkey]
        apply mem_map_of_mem
        apply mem_filter.mpr
        refine ⟨mem_calculateQuorum.mpr ⟨hb, hscoredb⟩, ?_⟩
        exact (hhas _).mpr ⟨a, hmem, hstill, hkey.symm⟩
      · intro hx
        obtain ⟨b, hb, rfl⟩ := mem_map.mp hx
        obtain ⟨hb, hin⟩ := mem_filter.mp hb
        obtain ⟨a, ha⟩ := Option.isSome_iff_exists.mp hin
        have hkey := hdrawn.indexed.key ha
        obtain ⟨hmem, -⟩ := mem_of_usedList ha
        rw [hfits.ranked_eq (hmembers a hmem).1 (hmembers a hmem).2
          (mem_calculateQuorum.mp hb).1 hkey.symm]
        apply mem_map_of_mem
        refine mem_calculateQuorum.mpr ⟨?_, (hmembers a hmem).2⟩
        exact hdrawn.indexed.mem_mns_iff.mpr (by rw [hkey]; exact ha)

/-- The masternodes that a snapshot is replayed over are those that the quarters
were taken from, in the same order. -/
theorem hashes_combined (params : LLMQParams) (skipList : List Int) : (combineBySnapshot
        (env.buildQuorumSnapshot params base allMns (env.usedList base allMns members)
          skipList).activeQuorumMembers
        (env.calculateQuorum allMns.mns (env.getHashModifier params base))).map proTxHash
      = (env.sortedCombinedMns params base allMns (env.usedList base allMns members)).map
          proTxHash := by
  have hvalid : ∀ a ∈ env.calculateQuorum allMns.mns (env.getHashModifier params base),
      a.pdmnState.isBanned = false := by
    intro a ha
    exact (scored_iff.mp (mem_calculateQuorum.mp ha).2).1
  unfold buildQuorumSnapshot sortedCombinedMns
  rw [combineBySnapshot_eq _ _ hvalid, map_append, map_append, hashes_mnsNotUsed hfits,
    hashes_used hfits hmembers]

theorem length_sortedCombinedMns (params : LLMQParams) :
    (env.sortedCombinedMns params base allMns (env.usedList base allMns members)).length
        = allMns.mns.countP scored ∧
      ((env.sortedCombinedMns params base allMns (env.usedList base allMns members)).map
        proTxHash).Nodup := by
  have hperm : ((env.sortedCombinedMns params base allMns
      (env.usedList base allMns members)).map proTxHash).Perm
      ((env.calculateQuorum allMns.mns (env.getHashModifier params base)).map proTxHash) := by
    unfold sortedCombinedMns
    rw [map_append, hashes_mnsNotUsed hfits, hashes_used hfits hmembers, ← map_append]
    refine Perm.map _ (perm_append_comm.trans ?_)
    exact filter_append_perm _ _
  constructor
  · have hlength := hperm.length_eq
    rw [length_map, length_map, calculateQuorum_perm.length_eq] at hlength
    rw [hlength, countP_eq_length_filter]
  · exact hperm.nodup_iff.mpr (nodup_calculateQuorum hfits.indexed.nodup_mns)

end

end Order

/-! ## One quarter -/

/-- Whether a visit finds a masternode that a quorum does not have. -/
def free (used : CDeterministicMNList H) (combined : QuorumMembers) (j : Nat) : Bool :=
  match combined[j % combined.length]? with
  | none => false
  | some dmn => !used.hasMN dmn.proTxHash

/-- The trace of some visits by a quorum that does not fill up. -/
def freeTrace (used : CDeterministicMNList H) (combined : QuorumMembers) (j visits : Nat) :
    List Bool := (List.range' j visits).map (free used combined)

omit [DecidableEq H] in
theorem length_freeTrace (used : CDeterministicMNList H) (combined : QuorumMembers)
    (j visits : Nat) : (freeTrace used combined j visits).length = visits := by
  unfold freeTrace
  rw [length_map, length_range']

theorem add_mod_ne {n j k : Nat} (hpos : 0 < k) (hlt : k < n) : (j + k) % n ≠ j % n := by
  intro heq
  have hdvd : n ∣ j + k - j := Nat.dvd_of_mod_eq_zero (Nat.sub_mod_eq_zero_of_mod_eq heq)
  have hle := Nat.le_of_dvd (by omega) hdvd
  omega

section Round

variable {combined : QuorumMembers} {quarterSize usedMNsCount start : Nat}
  {used : CDeterministicMNList H}

/-- A quarter in the middle of its first round, after `k` visits. The masternodes
that were added are behind it, so those ahead are used as at the start. -/
structure InRound (env : RotationEnv H) (known : List CDeterministicMN)
    (combined : QuorumMembers) (used : CDeterministicMNList H) (start k : Nat)
    (s : QuarterState H) : Prop where
  idx : s.idx = (start + k) % combined.length
  drawn : Drawn env known s.used
  ahead : ∀ k', k ≤ k' → k' < combined.length → ∀ dmn,
    combined[(start + k') % combined.length]? = some dmn →
    s.used.hasMN dmn.proTxHash = used.hasMN dmn.proTxHash

theorem ne_of_visits (hnodup : (combined.map proTxHash).Nodup)
    {k k' : Nat} (hlt : k < k') (hk' : k' < combined.length) {a b : CDeterministicMN}
    (ha : combined[(start + k) % combined.length]? = some a)
    (hb : combined[(start + k') % combined.length]? = some b) : b.proTxHash ≠ a.proTxHash := by
  intro heq
  have hpos : 0 < combined.length := by omega
  have hindex : (start + k) % combined.length = (start + k') % combined.length := by
    refine (getElem?_inj ?_ hnodup).mp ?_
    · rw [length_map]
      exact Nat.mod_lt _ hpos
    · rw [getElem?_map, getElem?_map, ha, hb, Option.map_some, Option.map_some, heq]
  apply @add_mod_ne combined.length (start + k) (k' - k) (by omega) (by omega)
  rw [hindex]
  congr 1
  omega

variable {s : QuarterState H} {dmn : CDeterministicMN}

theorem InRound.visit_used {k : Nat}
    (h : InRound env known combined used start k s) (hk : k < combined.length)
    (hused : s.used.hasMN dmn.proTxHash = true) :
    InRound env known combined used start (k + 1) (env.visit dmn combined.length s) ∧
      (env.visit dmn combined.length s).members = s.members ∧
      (env.visit dmn combined.length s).skips = s.skips.push ((start + k) % combined.length) := by
  have hvisit : env.visit dmn combined.length s
      = { s with skips := s.skips.push s.idx, idx := next combined.length s.idx } :=
    if_pos hused
  rw [hvisit]
  refine ⟨⟨?_, h.drawn, fun k' hk' => h.ahead k' (by omega)⟩, rfl, ?_⟩
  · show next combined.length s.idx = _
    rw [h.idx, next_mod (by omega)]
    rfl
  · show s.skips.push s.idx = _
    rw [h.idx]

theorem InRound.visit_free (hfits : Fits env base allMns known)
    (hnodup : (combined.map proTxHash).Nodup) {k : Nat}
    (h : InRound env known combined used start k s) (hk : k < combined.length)
    (hdmn : combined[(start + k) % combined.length]? = some dmn)
    (hknown : dmn ∈ known) (hfree : s.used.hasMN dmn.proTxHash = false) :
    InRound env known combined used start (k + 1) (env.visit dmn combined.length s) ∧
      (env.visit dmn combined.length s).members = s.members ++ [dmn] ∧
      (env.visit dmn combined.length s).skips = s.skips ∧
      (env.visit dmn combined.length s).updated = true := by
  obtain ⟨l', hadd, hdrawn, hhas⟩ := h.drawn.exists_addMN hfits hknown hfree
  have hvisit : env.visit dmn combined.length s = { s with
          used := l', members := s.members ++ [dmn]
          idx := next combined.length s.idx, updated := true } := by
    unfold visit
    rw [hfree, hadd]
    rfl
  rw [hvisit]
  refine ⟨⟨?_, hdrawn, ?_⟩, rfl, rfl, rfl⟩
  · show next combined.length s.idx = _
    rw [h.idx, next_mod (by omega)]
    rfl
  · intro k' hk' hlt b hb
    have hne := ne_of_visits hnodup (by omega) hlt hdmn hb
    show l'.hasMN b.proTxHash = _
    rw [hhas, decide_eq_false hne]
    exact h.ahead k' (by omega) hlt b hb

theorem fillQuarter_full {initial fuel : Nat} (h : quarterSize ≤ s.members.length) :
    env.fillQuarter combined quarterSize usedMNsCount initial fuel s = some s := by
  cases fuel with
  | zero => rfl
  | succ fuel => exact if_neg fun hguard => absurd hguard.1 (not_lt.mpr h)

theorem fillQuarter_succ {initial : Nat} (fuel : Nat)
    (hguard : s.members.length < quarterSize ∧ usedMNsCount + s.members.length
      < combined.length) (hdmn : combined[s.idx]? = some dmn)
    (hround : (env.visit dmn combined.length s).idx = initial → (env.visit dmn
      combined.length s).updated = true) :
    ∃ updated, env.fillQuarter combined quarterSize usedMNsCount initial (fuel + 1) s
      = env.fillQuarter combined quarterSize usedMNsCount initial fuel
        { env.visit dmn combined.length s with updated := updated } := by
  rw [fillQuarter, if_pos hguard, hdmn]
  dsimp only
  by_cases hidx : (env.visit dmn combined.length s).idx = initial
  · rw [if_pos hidx, if_pos (hround hidx)]
    exact ⟨false, rfl⟩
  · rw [if_neg hidx]
    exact ⟨_, rfl⟩

variable (env) in
theorem visit_cases (dmn : CDeterministicMN) (n : Nat) (s : QuarterState H) :
    (env.visit dmn n s).idx = next n s.idx ∧
      ((env.visit dmn n s).members.length = s.members.length + 1 ∧
          (env.visit dmn n s).updated = true ∨
        (env.visit dmn n s).members = s.members ∧ (env.visit dmn n s).updated = s.updated) := by
  unfold visit
  split_ifs
  · exact ⟨rfl, .inr ⟨rfl, rfl⟩⟩
  · cases s.used.addMN env.hash dmn true with
    | error e => exact ⟨rfl, .inr ⟨rfl, rfl⟩⟩
    | ok used' => exact ⟨rfl, .inl ⟨by simp, rfl⟩⟩

/-- With fuel for the rounds that can follow, more fuel changes nothing. Each round
but the last adds a masternode, and `d` visits of this round are left. -/
theorem fillQuarter_fuel {initial : Nat} (hinitial : initial < combined.length) :
    ∀ {enough fuel d : Nat} {s : QuarterState H}, s.idx < combined.length →
    1 ≤ d → (s.idx + d) % combined.length = initial →
    (quarterSize - s.members.length) * combined.length
      + (if s.updated then combined.length else 0) + d ≤ enough →
    d ≤ combined.length → enough ≤ fuel →
    env.fillQuarter combined quarterSize usedMNsCount initial fuel s
      = env.fillQuarter combined quarterSize usedMNsCount initial enough s
  | 0, _, d, _, _, hd, _, hbound, _, _ => by omega
  | enough + 1, fuel, d, s, hidx, hd, hround, hbound, hdle, hfuel => by
    obtain ⟨fuel, rfl⟩ : ∃ f, fuel = f + 1 := ⟨fuel - 1, by omega⟩
    rw [fillQuarter, fillQuarter]
    split_ifs with hguard
    · rw [getElem?_eq_getElem hidx]
      dsimp only
      obtain ⟨hnext, hcases⟩ := visit_cases env combined[s.idx] combined.length s
      generalize env.visit combined[s.idx] combined.length s = s₁ at hnext hcases
      have hmod : s₁.idx = (s.idx + 1) % combined.length := by
        rw [hnext, ← next_mod (by omega), Nat.mod_eq_of_lt hidx]
      have hidx₁ : s₁.idx < combined.length := by
        rw [hmod]
        exact Nat.mod_lt _ (by omega)
      -- what is left after this visit, before the round is looked at
      have hleft : (quarterSize - s₁.members.length) * combined.length
          + (if s₁.updated then combined.length else 0) + (d - 1) ≤ enough := by
        obtain ⟨hadded, hupdated⟩ | ⟨hsame, hupdated⟩ := hcases
        · have hmissing : quarterSize - s.members.length
              = quarterSize - s₁.members.length + 1 := by omega
          rw [hmissing, add_mul] at hbound
          rw [hupdated, if_pos rfl]
          omega
        · rw [hsame, hupdated]
          omega
      split_ifs with hround₁ hupdated
      · rw [if_pos hupdated] at hleft
        refine fillQuarter_fuel hinitial (d := combined.length) hidx₁ (by omega) ?_ ?_ le_rfl
          (by omega)
        · show (s₁.idx + combined.length) % combined.length = initial
          rw [Nat.add_mod_right, Nat.mod_eq_of_lt hidx₁, hround₁]
        · show (quarterSize - s₁.members.length) * combined.length + 0 + combined.length ≤ _
          omega
      · rfl
      · have htwo : 2 ≤ d := by
          by_contra hlt
          obtain rfl : d = 1 := by omega
          exact hround₁ (hmod.trans hround)
        refine fillQuarter_fuel hinitial (d := d - 1) hidx₁ (by omega) ?_ hleft (by omega)
          (by omega)
        rw [hmod, Nat.mod_add_mod, add_assoc, Nat.add_sub_of_le hd, hround]
    · rfl

/-- The loop never stops for want of fuel. -/
theorem fillQuarter_fillFuel {fuel : Nat} (hidx : s.idx < combined.length)
    (hupdated : s.updated = false) (hfuel : fillFuel combined quarterSize ≤ fuel) :
    env.fillQuarter combined quarterSize usedMNsCount s.idx fuel s
      = env.fillQuarter combined quarterSize usedMNsCount s.idx
        (fillFuel combined quarterSize) s := by
  refine fillQuarter_fuel hidx (d := combined.length) hidx (by omega) ?_ ?_ le_rfl hfuel
  · rw [Nat.add_mod_right, Nat.mod_eq_of_lt hidx]
  · have hle := Nat.mul_le_mul_right combined.length (Nat.sub_le quarterSize s.members.length)
    unfold fillFuel
    rw [hupdated, add_mul]
    simp only [Bool.false_eq_true, if_false]
    omega

structure Traced (combined : QuorumMembers) (j : Nat) (t : List Bool)
    (s s' : QuarterState H) : Prop where
  members : s'.members = s.members ++ (CyclicLog.takes combined.length j t).filterMap (combined[·]?)
  skips : s'.skips = (CyclicLog.skips combined.length j t).foldl SkipList.push s.skips
  idx : s'.idx = (j + t.length) % combined.length

omit [DecidableEq H] in
theorem traced_nil {j : Nat} (hidx : s.idx = j % combined.length) : Traced combined j [] s s := by
  constructor
  · simp [takes]
  · rfl
  · exact hidx

omit [DecidableEq H] in
theorem Traced.take {j : Nat} {t : List Bool} {s s₁ s' : QuarterState H}
    (h : Traced combined (j + 1) t s₁ s') (hdmn : combined[j % combined.length]? = some dmn)
    (hmembers : s₁.members = s.members ++ [dmn]) (hskips : s₁.skips = s.skips) :
    Traced combined j (true :: t) s s' := by
  constructor
  · rw [h.members, hmembers, takes, filterMap_cons, hdmn, append_assoc]
    rfl
  · rw [h.skips, hskips]
    rfl
  · rw [h.idx, length_cons, add_assoc, add_comm 1]

omit [DecidableEq H] in
theorem Traced.skip {j : Nat} {t : List Bool} {s s₁ s' : QuarterState H}
    (h : Traced combined (j + 1) t s₁ s') (hmembers : s₁.members = s.members)
    (hskips : s₁.skips = s.skips.push (j % combined.length)) :
    Traced combined j (false :: t) s s' := by
  constructor
  · rw [h.members, hmembers]
    rfl
  · rw [h.skips, hskips]
    rfl
  · rw [h.idx, length_cons, add_assoc, add_comm 1]

/-- A quorum that finds enough masternodes in a round fills its quarter, and goes
no further than the last one that it needs. -/
theorem fillQuarter_round (hfits : Fits env base allMns known)
    (hknown : ∀ a ∈ combined, a ∈ known) (hnodup : (combined.map proTxHash).Nodup)
    (hcount : usedMNsCount + quarterSize ≤ combined.length) :
    ∀ (visits k fuel : Nat) (s : QuarterState H), k + visits = combined.length →
    visits ≤ fuel → InRound env known combined used start k s → s.members.length ≤ quarterSize →
    quarterSize - s.members.length ≤ (freeTrace used combined (start + k) visits).count true →
    ∃ s', env.fillQuarter combined quarterSize usedMNsCount (start % combined.length) fuel s
        = some s' ∧ Traced combined (start + k) (upTo (quarterSize - s.members.length)
        (freeTrace used combined (start + k) visits)) s s' := by
  intro visits
  induction visits with
  | zero =>
    intro k fuel s hk hfuel hround hle hneed
    have hzero : quarterSize - s.members.length = 0 := Nat.le_zero.mp hneed
    rw [hzero]
    exact ⟨s, fillQuarter_full (by omega), traced_nil hround.idx⟩
  | succ visits ih =>
    intro k fuel s hk hfuel hround hle hneed
    by_cases hfull : s.members.length = quarterSize
    · rw [hfull, Nat.sub_self]
      exact ⟨s, fillQuarter_full hfull.ge, traced_nil hround.idx⟩
    obtain ⟨fuel, rfl⟩ : ∃ f, fuel = f + 1 := ⟨fuel - 1, by omega⟩
    obtain ⟨missing, hmissing⟩ : ∃ m, quarterSize - s.members.length = m + 1 :=
      ⟨quarterSize - s.members.length - 1, by omega⟩
    obtain ⟨dmn, hdmn⟩ : ∃ dmn, combined[(start + k) % combined.length]? = some dmn :=
      ⟨_, getElem?_eq_getElem (Nat.mod_lt _ (by omega))⟩
    have hmem := hknown dmn (mem_of_getElem? hdmn)
    have htrace : freeTrace used combined (start + k) (visits + 1)
        = (!used.hasMN dmn.proTxHash) :: freeTrace used combined (start + (k + 1)) visits := by
      unfold freeTrace
      rw [range'_succ, map_cons]
      congr 1
      unfold free
      rw [hdmn]
    have hahead := hround.ahead k le_rfl (by omega) dmn hdmn
    have hguard : s.members.length < quarterSize ∧
        usedMNsCount + s.members.length < combined.length := by omega
    have hget : combined[s.idx]? = some dmn := by rw [hround.idx, hdmn]
    have hrest := count_le_length (a := true)
      (l := freeTrace used combined (start + (k + 1)) visits)
    rw [length_freeTrace] at hrest
    rw [htrace, hmissing] at hneed ⊢
    cases hused : used.hasMN dmn.proTxHash with
    | true =>
      rw [hused] at hahead hneed
      rw [count_cons_of_ne (by decide)] at hneed
      obtain ⟨hnext, hmembers, hskips⟩ := hround.visit_used (by omega) hahead
      -- something is still missing, so this is not the last visit of the round
      obtain ⟨updated, hstep⟩ := fillQuarter_succ fuel hguard hget fun hidx =>
        absurd (hnext.idx.symm.trans hidx) (add_mod_ne (by omega) (by omega))
      obtain ⟨s', hs', htraced⟩ := ih (k + 1) fuel
        { env.visit dmn combined.length s with updated := updated } (by omega) (by omega)
        ⟨hnext.idx, hnext.drawn, hnext.ahead⟩ (by rw [hmembers]; omega)
        (by rw [hmembers, hmissing]; exact hneed)
      rw [hmembers, hmissing] at htraced
      exact ⟨s', hstep.trans hs', htraced.skip hmembers hskips⟩
    | false =>
      rw [hused] at hahead hneed
      rw [Bool.not_false, count_cons_self] at hneed
      obtain ⟨hnext, hmembers, hskips, hupdated⟩ :=
        hround.visit_free hfits hnodup (by omega) hdmn hmem hahead
      obtain ⟨updated, hstep⟩ := fillQuarter_succ fuel hguard hget fun _ => hupdated
      have hmissing' : quarterSize - (env.visit dmn combined.length s).members.length
          = missing := by
        rw [hmembers, length_append, length_singleton]
        omega
      obtain ⟨s', hs', htraced⟩ := ih (k + 1) fuel
        { env.visit dmn combined.length s with updated := updated } (by omega) (by omega)
        ⟨hnext.idx, hnext.drawn, hnext.ahead⟩
        (by rw [hmembers, length_append, length_singleton]; omega) (by rw [hmissing']; omega)
      rw [hmissing'] at htraced
      exact ⟨s', hstep.trans hs', htraced.take hdmn hmembers hskips⟩

/-! ### Enough masternodes -/

theorem round_perm {n : Nat} (hn : 0 < n) (j : Nat) :
    ((range' j n).map (· % n)).Perm (range n) := by
  have hnodup : ((range' j n).map (· % n)).Nodup := by
    refine Nodup.map_on ?_ nodup_range'
    intro x hx y hy heq
    have hx := mem_range'_1.mp hx
    have hy := mem_range'_1.mp hy
    obtain hlt | rfl | hlt := Nat.lt_trichotomy x y
    · have hne := @add_mod_ne n x (y - x) (by omega) (by omega)
      rw [Nat.add_sub_of_le hlt.le] at hne
      exact absurd heq.symm hne
    · rfl
    · have hne := @add_mod_ne n y (x - y) (by omega) (by omega)
      rw [Nat.add_sub_of_le hlt.le] at hne
      exact absurd heq hne
  apply (subperm_of_subset hnodup ?_).perm_of_length_le
  · rw [length_map, length_range', length_range]
  · intro i hi
    obtain ⟨v, -, rfl⟩ := mem_map.mp hi
    exact mem_range.mpr (Nat.mod_lt v hn)

omit [DecidableEq H] in
theorem count_freeTrace (used : CDeterministicMNList H) (hpos : 0 < combined.length) (j : Nat) :
    (freeTrace used combined j combined.length).count true
      = combined.countP fun dmn => !used.hasMN dmn.proTxHash := by
  have htrace : freeTrace used combined j combined.length
      = ((range' j combined.length).map (· % combined.length)).map fun i =>
        combined[i]?.any fun dmn => !used.hasMN dmn.proTxHash := by
    rw [map_map]
    refine map_congr_left fun v _ => ?_
    unfold free
    show _ = combined[v % combined.length]?.any _
    cases combined[v % combined.length]? with
    | none => rfl
    | some dmn => rfl
  have hrange : ((range combined.length).map fun i =>
      combined[i]?.any fun dmn => !used.hasMN dmn.proTxHash)
      = combined.map fun dmn => !used.hasMN dmn.proTxHash := by
    apply ext_getElem
    · simp
    · intro i hi _
      simp at hi
      simp [hi]
  rw [htrace, ((round_perm hpos j).map _).count_eq, hrange, count_eq_countP, countP_map]
  congr 1
  funext dmn
  simp

theorem le_count_freeTrace (hdrawn : Drawn env known used) (hnodup : (combined.map proTxHash).Nodup)
    (hcount : used.getAllMNsCount + quarterSize ≤ combined.length)
    (j : Nat) : quarterSize ≤ (freeTrace used combined j combined.length).count true := by
  obtain hpos | hpos := Nat.eq_zero_or_pos combined.length
  · omega
  have hbusy : combined.countP (fun dmn => used.hasMN dmn.proTxHash) ≤ used.getAllMNsCount := by
    have hsubset : (combined.filter fun dmn => used.hasMN dmn.proTxHash).map
        proTxHash ⊆ used.mns.map proTxHash := by
      intro q hq
      obtain ⟨dmn, hdmn, rfl⟩ := mem_map.mp hq
      obtain ⟨a, ha⟩ := Option.isSome_iff_exists.mp (mem_filter.mp hdmn).2
      have hkey := hdrawn.indexed.key ha
      rw [← hkey]
      exact mem_map_of_mem (hdrawn.indexed.mem_mns_iff.mpr (by rw [hkey]; exact ha))
    have hle := (subperm_of_subset (hnodup.sublist (filter_sublist.map _)) hsubset).length_le
    rw [length_map, length_map, ← countP_eq_length_filter] at hle
    exact hle.trans (length_map _).le
  rw [count_freeTrace used hpos]
  have hsum := length_eq_countP_add_countP (fun dmn => used.hasMN dmn.proTxHash) (l := combined)
  simp only [Bool.not_eq_true, Bool.decide_eq_false] at hsum
  omega

variable (quarterSize) in
theorem fillQuarters_traced (hfits : Fits env base allMns known)
    (hknown : ∀ a ∈ combined, a ∈ known) (hnodup : (combined.map proTxHash).Nodup) :
    ∀ (useds : List (CDeterministicMNList H)) (j : Nat) (skips : SkipList),
    (∀ used ∈ useds, Drawn env known used ∧ used.getAllMNsCount + quarterSize ≤ combined.length) →
    ∃ ts : List (List Bool), (∀ t ∈ ts, CyclicLog.Full quarterSize t) ∧ ts.length = useds.length ∧
      env.fillQuarters combined quarterSize useds (j % combined.length) skips
        = some ((CyclicLog.groupTakes combined.length j ts).map (·.filterMap (combined[·]?)),
          (CyclicLog.skips combined.length j ts.flatten).foldl SkipList.push skips)
  | [], j, skips, _ => ⟨[], by simp, rfl, rfl⟩
  | used :: useds, j, skips, huseds => by
    obtain ⟨hdrawn, hcount⟩ := huseds used mem_cons_self
    have hneed := le_count_freeTrace hdrawn hnodup hcount j
    have hfuel : combined.length ≤ fillFuel combined quarterSize :=
      Nat.le_mul_of_pos_left _ (Nat.succ_pos _)
    obtain ⟨s, hs, htraced⟩ := fillQuarter_round hfits hknown hnodup hcount combined.length 0
      (fillFuel combined quarterSize) ⟨used, [], skips, j % combined.length, false⟩ (by omega)
      hfuel ⟨rfl, hdrawn, fun _ _ _ _ _ => rfl⟩ zero_le hneed
    obtain ⟨ts, hfull, hlength, hrest⟩ := fillQuarters_traced hfits hknown hnodup useds
      (j + (CyclicLog.upTo quarterSize (freeTrace used combined j combined.length)).length)
      s.skips fun u hu => huseds u (mem_cons_of_mem used hu)
    refine ⟨CyclicLog.upTo quarterSize (freeTrace used combined j combined.length) :: ts,
      ?_, by rw [length_cons, length_cons, hlength], ?_⟩
    · intro t ht
      obtain rfl | ht := mem_cons.mp ht
      · exact CyclicLog.full_upTo hneed
      · exact hfull t ht
    · rw [fillQuarters, hs]
      show (env.fillQuarters combined quarterSize useds s.idx s.skips >>= _) = _
      rw [htraced.idx]
      show (env.fillQuarters combined quarterSize useds ((j + (CyclicLog.upTo quarterSize
          (freeTrace used combined j combined.length)).length) % combined.length) s.skips
        >>= _) = _
      rw [hrest, flatten_cons, CyclicLog.skips_append, foldl_append]
      show some (s.members :: _, _) = _
      rw [htraced.members, htraced.skips]
      rfl

end Round

end RotationEnv

end KorshCore

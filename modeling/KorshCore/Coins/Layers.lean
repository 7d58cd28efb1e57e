import KorshCore.Lib.WriteBack
import KorshCore.Coins.Views

/-!
# The coins caches as write-back caches

The coin, anchor and nullifier maps of a stack of caches are three stacks of
write-back caches in the sense of `WriteBack`. This module gives their rules
and shows that the methods of `CCoinsViewCache` act on them as the rules say: a
read is a `fetch`, and `BatchWrite` is a merge.
-/

namespace KorshCore

open WriteBack CCoinsViewCache IncrementalMerkleTree Except List Option

/-! ## The rules -/

/-- Coins. An entry that is not dirty repeats what is below it, and a fresh
entry has nothing below it. -/
def coinRules : Rules COutPoint CCoinsCacheEntry (Option Coin) CoinsError where
  value entry := entry.coin.unspent
  Sound _ entry below := (entry.dirty = false → entry.coin.unspent = below) ∧
    (entry.fresh = true → below = none)
  Storable _ value := ∀ coin, value = some coin → coin.isSpent = false
  fill value := value.map fun coin => ⟨coin, false, coin.isSpent⟩
  merge := mergeCoin
  keep := syncedCoin
  storable_value := by
    intro _ entry _ _ coin hcoin
    obtain ⟨hunspent, rfl⟩ := Coin.unspent_eq_some_iff.mp hcoin
    exact hunspent
  fill_sound := by
    intro _ value entry hstorable hfill
    obtain ⟨coin, rfl, rfl⟩ := map_eq_some_iff.mp hfill
    have hunspent := hstorable coin rfl
    simp [Coin.unspent_of_not_isSpent hunspent, hunspent]
  merge_sound := by
    intro _ ours entry below hours hentry
    obtain ⟨hclean, hfresh⟩ := hentry
    unfold mergeCoin
    by_cases hdirty : entry.dirty = false
    · exact ⟨ours, by simp [hdirty], hours, (hclean hdirty).symm⟩
    cases ours with
    | none =>
      by_cases hskip : (entry.fresh && entry.coin.isSpent) = true
      · obtain ⟨hf, hspent⟩ := Bool.and_eq_true_iff.mp hskip
        refine ⟨none, by simp [hdirty, hskip], by simp, ?_⟩
        exact (hfresh hf).trans (Coin.unspent_of_isSpent hspent).symm
      · refine ⟨some ⟨entry.coin, true, entry.fresh⟩, ?_, ?_, rfl⟩
        · simp [hdirty, hskip]
        · rintro x ⟨⟩
          exact ⟨by simp, hfresh⟩
    | some us =>
      have hus := hours us rfl
      have hmisapplied : (entry.fresh && !us.coin.isSpent) = false := by
        cases hf : entry.fresh with
        | false => rfl
        | true => simpa using Coin.unspent_eq_none_iff.mp (hfresh hf)
      by_cases hdelete : (us.fresh && entry.coin.isSpent) = true
      · obtain ⟨hf, hspent⟩ := Bool.and_eq_true_iff.mp hdelete
        refine ⟨none, by simp [hdirty, hmisapplied, hdelete], by simp, ?_⟩
        exact (hus.2 hf).trans (Coin.unspent_of_isSpent hspent).symm
      · refine ⟨some ⟨entry.coin, true, us.fresh⟩, ?_, ?_, rfl⟩
        · simp [hdirty, hmisapplied, hdelete]
        · rintro x ⟨⟩
          exact ⟨by simp, hus.2⟩
  keep_sound := by
    intro _ entry _ kept _ hkeep
    unfold syncedCoin at hkeep
    split_ifs at hkeep
    cases hkeep
    simp

/-- Nullifiers. An entry that is not dirty repeats what is below it. -/
def nullifierRules : Rules Uint256 CNullifiersCacheEntry Bool CoinsError where
  value entry := entry.entered
  Sound _ entry below := entry.dirty = false → entry.entered = below
  Storable _ _ := True
  fill entered := some ⟨entered, false⟩
  merge := mergeNullifier
  keep entry := some ⟨entry.entered, false⟩
  storable_value := by simp
  fill_sound := by
    rintro _ entered entry - ⟨⟩
    simp
  merge_sound := by
    intro _ ours entry below hours hentry
    unfold mergeNullifier
    by_cases hdirty : entry.dirty = false
    · exact ⟨ours, by simp [hdirty], hours, (hentry hdirty).symm⟩
    cases ours with
    | none => exact ⟨some ⟨entry.entered, true⟩, by simp [hdirty], by simp, rfl⟩
    | some us =>
      by_cases hsame : us.entered = entry.entered
      · exact ⟨some us, by simp [hdirty, hsame], hours, hsame⟩
      · exact ⟨some ⟨entry.entered, true⟩, by simp [hdirty, hsame], by simp, rfl⟩
  keep_sound := by
    rintro _ entry _ _ - ⟨⟩
    simp

def CAnchorsSaplingCacheEntry.value (entry : CAnchorsSaplingCacheEntry) :
    Option IncrementalMerkleTree :=
  if entry.entered then some entry.tree else none

/-- Anchors. The database always answers the empty tree for the root of the
empty tree, so nothing else may be stored there. -/
def anchorRules (env : CoinsEnv) : Rules Uint256 CAnchorsSaplingCacheEntry
    (Option IncrementalMerkleTree) CoinsError where
  value := CAnchorsSaplingCacheEntry.value
  Sound rt entry below := (entry.dirty = false → entry.value = below) ∧
    (rt = saplingEmptyRoot env.hash → entry.value = some empty)
  Storable rt value := rt = saplingEmptyRoot env.hash → value = some empty
  fill value := value.map fun tree => ⟨true, tree, false⟩
  merge := mergeAnchor
  keep entry := some ⟨entry.entered, entry.tree, false⟩
  storable_value := fun h => h.2
  fill_sound := by
    intro rt value entry hstorable hfill
    obtain ⟨tree, rfl, rfl⟩ := map_eq_some_iff.mp hfill
    exact ⟨rfl, fun _ => rfl, hstorable⟩
  merge_sound := by
    intro rt ours entry below hours hentry
    obtain ⟨hclean, hempty⟩ := hentry
    unfold mergeAnchor
    by_cases hdirty : entry.dirty = false
    · exact ⟨ours, by simp [hdirty], hours, (hclean hdirty).symm⟩
    cases ours with
    | none =>
      refine ⟨some ⟨entry.entered, entry.tree, true⟩, by simp [hdirty], ?_, rfl⟩
      rintro x ⟨⟩
      exact ⟨by simp, hempty⟩
    | some us =>
      by_cases hupdate : (us.entered != entry.entered ||
          entry.entered && us.tree != entry.tree) = true
      · have hvalue : CAnchorsSaplingCacheEntry.value ⟨entry.entered,
            if entry.entered && us.tree != entry.tree then entry.tree
            else us.tree, true⟩ = entry.value := by
          unfold CAnchorsSaplingCacheEntry.value
          cases entry.entered with
          | false => rfl
          | true =>
            by_cases htree : us.tree = entry.tree <;> simp [htree]
        refine ⟨some _, by simp only [hdirty, hupdate]; rfl, ?_, hvalue⟩
        rintro x ⟨⟩
        exact ⟨by simp, fun h => hvalue.trans (hempty h)⟩
      · refine ⟨some us, by simp only [hdirty, hupdate]; rfl, hours, ?_⟩
        have hsame : us.entered = entry.entered ∧
            (entry.entered = true → us.tree = entry.tree) := by
          simpa using hupdate
        show us.value = entry.value
        unfold CAnchorsSaplingCacheEntry.value
        rw [hsame.1]
        split_ifs with h
        · rw [hsame.2 h]
        · rfl
  keep_sound := by
    rintro rt entry _ _ hentry ⟨⟩
    exact ⟨rfl, fun _ => rfl, hentry.2⟩

/-! ## Lazily filled variables -/

/-- The value behind a stack of variables in which null means "not read
yet". -/
def pointer (base : Uint256) : List Uint256 → Uint256
  | [] => base
  | hash :: hashes => if hash = 0 then pointer base hashes else hash

def fillPointer (base : Uint256) : List Uint256 → List Uint256
  | [] => []
  | hash :: hashes =>
    if hash = 0 then pointer base hashes :: fillPointer base hashes
    else hash :: hashes

theorem pointer_cons_null (base : Uint256) (hashes : List Uint256) :
    pointer base (0 :: hashes) = pointer base hashes := if_pos rfl

theorem pointer_cons {hash : Uint256} (hset : hash ≠ 0) (base : Uint256)
    (hashes : List Uint256) : pointer base (hash :: hashes) = hash :=
  if_neg hset

theorem pointer_fillPointer (base : Uint256) (hashes : List Uint256) :
    pointer base (fillPointer base hashes) = pointer base hashes := by
  induction hashes with
  | nil => rfl
  | cons hash hashes ih =>
    unfold fillPointer
    split_ifs with hnull
    · subst hnull
      rw [pointer_cons_null]
      by_cases hbelow : pointer base hashes = 0
      · rw [hbelow, pointer_cons_null, ih, hbelow]
      · rw [pointer_cons hbelow]
    · rfl

/-! ## The layers of a stack, kind by kind -/

@[ext] structure Layers where
  coins : List (KeyedMap COutPoint CCoinsCacheEntry)
  anchors : List (KeyedMap Uint256 CAnchorsSaplingCacheEntry)
  nullifiers : List (KeyedMap Uint256 CNullifiersCacheEntry)
  bestAnchors : List Uint256
  bestBlocks : List Uint256

def layers (caches : List CCoinsViewCache) : Layers where
  coins := caches.map cacheCoins
  anchors := caches.map cacheSaplingAnchors
  nullifiers := caches.map cacheSaplingNullifiers
  bestAnchors := caches.map hashSaplingAnchor
  bestBlocks := caches.map hashBlock

variable (env : CoinsEnv) (db : CCoinsViewDB) (cache : CCoinsViewCache)
  (base caches : List CCoinsViewCache)

theorem layers_cons : layers (cache :: base) = ⟨cache.cacheCoins :: (layers base).coins,
        cache.cacheSaplingAnchors :: (layers base).anchors,
        cache.cacheSaplingNullifiers :: (layers base).nullifiers,
        cache.hashSaplingAnchor :: (layers base).bestAnchors,
        cache.hashBlock :: (layers base).bestBlocks⟩ := rfl

variable (outpoint : COutPoint)

theorem getCoin_layers :
    (getCoin db outpoint caches).1 = (coinRules.fetch db.coins outpoint (layers caches).coins).1 ∧
    layers (getCoin db outpoint caches).2 = { layers caches with
      coins := (coinRules.fetch db.coins outpoint (layers caches).coins).2 } := by
  induction caches with
  | nil => exact ⟨rfl, rfl⟩
  | cons cache base ih =>
    obtain ⟨hanswer, hlayers⟩ := ih
    unfold getCoin fetchCoin
    rw [layers_cons]
    unfold Rules.fetch
    cases hk : cache.cacheCoins.lookup outpoint with
    | some entry => exact ⟨rfl, rfl⟩
    | none =>
      rw [← hanswer]
      rcases hbelow : getCoin db outpoint base with ⟨coin, base'⟩
      rw [hbelow] at hanswer hlayers
      cases coin with
      | none =>
        refine ⟨rfl, ?_⟩
        show layers (cache :: base') = _
        rw [layers_cons, hlayers]
        rfl
      | some coin =>
        refine ⟨rfl, ?_⟩
        show layers (cache.emplaceCoin outpoint _ :: base') = _
        rw [layers_cons, hlayers]
        rfl

theorem fetchCoin_layers : ∃ cache' base', cache.fetchCoin outpoint base (getCoin db outpoint base)
        = (cache'.cacheCoins.lookup outpoint, cache' :: base') := by
  unfold fetchCoin
  cases hk : cache.cacheCoins.lookup outpoint with
  | some entry => exact ⟨cache, base, by rw [hk]⟩
  | none =>
    rcases getCoin db outpoint base with ⟨coin, base'⟩
    cases coin with
    | none => exact ⟨cache, base', by rw [hk]⟩
    | some coin =>
      refine ⟨cache.emplaceCoin outpoint ⟨coin, false, coin.isSpent⟩, base', ?_⟩
      show _ = ((cache.cacheCoins.insert outpoint _).lookup outpoint, _)
      rw [AList.lookup_insert]

theorem getNullifier_layers (nf : Uint256) : (getNullifier db nf caches).1
      = (nullifierRules.fetch db.getNullifier nf (layers caches).nullifiers).1 ∧
    layers (getNullifier db nf caches).2 = { layers caches with nullifiers :=
        (nullifierRules.fetch db.getNullifier nf (layers caches).nullifiers).2 } := by
  induction caches with
  | nil => exact ⟨rfl, rfl⟩
  | cons cache base ih =>
    obtain ⟨hanswer, hlayers⟩ := ih
    unfold getNullifier
    rw [layers_cons]
    unfold Rules.fetch
    cases hk : cache.cacheSaplingNullifiers.lookup nf with
    | some entry => exact ⟨rfl, rfl⟩
    | none =>
      rw [← hanswer]
      refine ⟨rfl, ?_⟩
      show layers ({ cache with cacheSaplingNullifiers := _ } :: _) = _
      rw [layers_cons, hlayers]
      rfl

theorem getSaplingAnchorAt_layers (rt : Uint256) : (getSaplingAnchorAt env db rt caches).1
      = ((anchorRules env).fetch (db.getSaplingAnchorAt env) rt (layers caches).anchors).1 ∧
    layers (getSaplingAnchorAt env db rt caches).2 = { layers caches with
      anchors := ((anchorRules env).fetch (db.getSaplingAnchorAt env) rt
        (layers caches).anchors).2 } := by
  induction caches with
  | nil => exact ⟨rfl, rfl⟩
  | cons cache base ih =>
    obtain ⟨hanswer, hlayers⟩ := ih
    unfold getSaplingAnchorAt
    rw [layers_cons]
    unfold Rules.fetch
    cases hk : cache.cacheSaplingAnchors.lookup rt with
    | some entry => exact ⟨rfl, rfl⟩
    | none =>
      rw [← hanswer]
      rcases hbelow : getSaplingAnchorAt env db rt base with ⟨tree, base'⟩
      rw [hbelow] at hanswer hlayers
      cases tree with
      | none =>
        refine ⟨rfl, ?_⟩
        show layers (cache :: base') = _
        rw [layers_cons, hlayers]
        rfl
      | some tree =>
        refine ⟨rfl, ?_⟩
        show layers ({ cache with cacheSaplingAnchors := _, cachedCoinsUsage := _ } :: base') = _
        rw [layers_cons, hlayers]
        rfl

theorem getBestAnchor_layers : (getBestAnchor env db caches).1
      = pointer (db.getBestAnchor env) (layers caches).bestAnchors ∧
    layers (getBestAnchor env db caches).2 = { layers caches with
      bestAnchors := fillPointer (db.getBestAnchor env) (layers caches).bestAnchors } := by
  induction caches with
  | nil => exact ⟨rfl, rfl⟩
  | cons cache base ih =>
    obtain ⟨hanswer, hlayers⟩ := ih
    unfold getBestAnchor
    rw [layers_cons]
    unfold pointer fillPointer
    by_cases hnull : cache.hashSaplingAnchor = 0
    · simp only [hnull, if_true]
      refine ⟨hanswer, ?_⟩
      rw [layers_cons, hlayers, hanswer]
    · simp only [hnull, if_false]
      exact ⟨trivial, layers_cons cache base⟩

theorem getBestBlock_layers : (getBestBlock db caches).1
      = pointer db.getBestBlock (layers caches).bestBlocks ∧
    layers (getBestBlock db caches).2 = { layers caches with
      bestBlocks := fillPointer db.getBestBlock (layers caches).bestBlocks } := by
  induction caches with
  | nil => exact ⟨rfl, rfl⟩
  | cons cache base ih =>
    obtain ⟨hanswer, hlayers⟩ := ih
    unfold getBestBlock
    rw [layers_cons]
    unfold pointer fillPointer
    by_cases hnull : cache.hashBlock = 0
    · simp only [hnull, if_true]
      refine ⟨hanswer, ?_⟩
      rw [layers_cons, hlayers, hanswer]
    · simp only [hnull, if_false]
      exact ⟨trivial, layers_cons cache base⟩

/-! ## Updates of the top cache -/

theorem addCoin_layers (coin : Coin) (possibleOverwrite : Bool) :
    layers ((cache.addCoin outpoint coin possibleOverwrite).1 :: base) =
      { layers (cache :: base) with
        coins := (cache.addCoin outpoint coin possibleOverwrite).1.cacheCoins
          :: (layers base).coins } := by
  unfold addCoin
  dsimp only
  split_ifs <;> rfl

theorem uncache_layers : layers (cache.uncache outpoint :: base) = { layers (cache :: base) with
      coins := (cache.uncache outpoint).cacheCoins :: (layers base).coins } := by
  unfold uncache
  cases cache.cacheCoins.lookup outpoint with
  | none => rfl
  | some entry =>
    dsimp only
    split_ifs <;> rfl

theorem spendEntry_layers (entry : CCoinsCacheEntry) :
    layers (cache.spendEntry outpoint entry :: base) = { layers (cache :: base) with
        coins := cache.cacheCoins.set outpoint
          (if entry.fresh then none else some ⟨Coin.cleared, true, false⟩)
          :: (layers base).coins } := by
  unfold spendEntry
  split_ifs <;> rfl

theorem spendCoin_eq : ∃ cache' base', getCoin db outpoint (cache :: base)
        = ((cache'.cacheCoins.lookup outpoint).bind fun entry =>
          entry.coin.unspent, cache' :: base') ∧
      spendCoin db outpoint cache base = match cache'.cacheCoins.lookup outpoint with
        | none => (none, cache' :: base')
        | some entry =>
          (some entry.coin, cache'.spendEntry outpoint entry :: base') := by
  obtain ⟨cache', base', hfetch⟩ := fetchCoin_layers db cache base outpoint
  refine ⟨cache', base', ?_, ?_⟩
  · rw [getCoin, hfetch]
  · unfold spendCoin
    rw [hfetch]
    cases cache'.cacheCoins.lookup outpoint <;> rfl

theorem setNullifiers_layers (tx : CTransaction) (spent : Bool) :
    layers (cache.setNullifiers tx spent :: base) = { layers (cache :: base) with
      nullifiers := tx.shieldedSpends.foldl
        (fun m spend => m.set spend.nullifier (some ⟨spent, true⟩))
        cache.cacheSaplingNullifiers :: (layers base).nullifiers } := by
  have hloop : ∀ (spends : List SpendDescription) (cache : CCoinsViewCache),
      layers (spends.foldl (fun cache spend =>
          cache.setNullifier spend.nullifier spent) cache :: base)
        = { layers (cache :: base) with
          nullifiers := spends.foldl
            (fun m spend => m.set spend.nullifier (some ⟨spent, true⟩))
            cache.cacheSaplingNullifiers :: (layers base).nullifiers } := by
    intro spends
    induction spends with
    | nil => intro cache; rfl
    | cons spend spends ih =>
      intro cache
      rw [foldl_cons, ih]
      rfl
  unfold setNullifiers CTransaction.shieldedSpends
  cases tx.hasShieldedPayloadField with
  | false => rfl
  | true => exact hloop _ cache

theorem getBestAnchor_cons : ∃ cache' base', getBestAnchor env db (cache :: base)
        = (pointer (db.getBestAnchor env) (layers (cache :: base)).bestAnchors, cache' :: base') ∧
      layers (cache' :: base') = { layers (cache :: base) with
        bestAnchors := fillPointer (db.getBestAnchor env)
          (layers (cache :: base)).bestAnchors } := by
  obtain ⟨hanswer, hlayers⟩ := getBestAnchor_layers env db (cache :: base)
  rcases hget : getBestAnchor env db (cache :: base) with ⟨hash, caches⟩
  rw [hget] at hanswer hlayers
  cases caches with
  | nil =>
    have hlength := congrArg (fun l => l.coins.length) hlayers
    simp [layers] at hlength
  | cons cache' base' => exact ⟨cache', base', by rw [← hanswer], hlayers⟩

theorem pushAnchor_layers (tree : IncrementalMerkleTree) :
    let hashes := (layers (cache :: base)).bestAnchors
    let best := pointer (db.getBestAnchor env) hashes
    layers (pushAnchor env db tree (cache :: base)) =
      if best = tree.root env.hash then { layers (cache :: base) with
        bestAnchors := fillPointer (db.getBestAnchor env) hashes }
      else { layers (cache :: base) with
        anchors := cache.cacheSaplingAnchors.set (tree.root env.hash)
          (some ⟨true, tree, true⟩) :: (layers base).anchors
        bestAnchors := tree.root env.hash ::
          (fillPointer (db.getBestAnchor env) hashes).tail } := by
  intro hashes best
  obtain ⟨cache', base', hget, hlayers⟩ := getBestAnchor_cons env db cache base
  unfold pushAnchor
  rw [hget]
  dsimp only
  split_ifs with hsame
  · exact hlayers
  · obtain ⟨hmap, hbelow⟩ := cons.inj (congrArg Layers.anchors hlayers)
    have hbest : (layers base').bestAnchors = (fillPointer (db.getBestAnchor env) hashes).tail :=
      congrArg (fun l => l.bestAnchors.tail) hlayers
    have hcoins := congrArg Layers.coins hlayers
    have hnullifiers := congrArg Layers.nullifiers hlayers
    have hblocks := congrArg Layers.bestBlocks hlayers
    refine Layers.ext hcoins ?_ hnullifiers ?_ hblocks
    · show cache'.cacheSaplingAnchors.set (tree.root env.hash)
        (some ⟨true, tree, true⟩) :: (layers base').anchors = _
      rw [hmap]
      exact congrArg (cons _) hbelow
    · exact congrArg (cons _) hbest

variable {env db cache base caches}

theorem popAnchor_layers {newrt : Uint256}
    (h : popAnchor env db newrt (cache :: base) = .ok caches) :
    let hashes := (layers (cache :: base)).bestAnchors
    let best := pointer (db.getBestAnchor env) hashes
    let fetched := (anchorRules env).fetch (db.getSaplingAnchorAt env) best
      (layers (cache :: base)).anchors
    (best = newrt ∧ layers caches = { layers (cache :: base) with
      bestAnchors := fillPointer (db.getBestAnchor env) hashes }) ∨
    (best ≠ newrt ∧ fetched.1.isSome ∧ ∃ m ms tree, fetched.2 = m :: ms ∧
      layers caches = { layers (cache :: base) with
        anchors := m.set best (some ⟨false, tree, true⟩) :: ms
        bestAnchors := newrt :: (fillPointer (db.getBestAnchor env) hashes).tail }) := by
  intro hashes best fetched
  obtain ⟨cache', base', hget, hlayers⟩ := getBestAnchor_cons env db cache base
  unfold popAnchor at h
  rw [hget] at h
  dsimp only at h
  split_ifs at h with hsame
  · cases h
    exact .inl ⟨hsame, hlayers⟩
  · refine .inr ⟨hsame, ?_⟩
    obtain ⟨hanswer, hread⟩ := getSaplingAnchorAt_layers env db (cache' :: base') best
    rcases htree : getSaplingAnchorAt env db best (cache' :: base') with ⟨tree, caches'⟩
    rw [htree, hlayers] at hanswer hread
    rw [show getSaplingAnchorAt env db (pointer (db.getBestAnchor env)
      (layers (cache :: base)).bestAnchors) (cache' :: base') = (tree, caches')
      from htree] at h
    cases tree with
    | none => cases h
    | some tree =>
      cases caches' with
      | nil => cases h
      | cons top rest =>
        cases h
        refine ⟨?_, top.cacheSaplingAnchors, (layers rest).anchors,
          ((top.cacheSaplingAnchors.lookup best).map
            CAnchorsSaplingCacheEntry.tree).getD tree, ?_, ?_⟩
        · exact (congrArg isSome hanswer).symm
        · exact (congrArg Layers.anchors hread).symm
        · have hbest : (layers rest).bestAnchors
              = (fillPointer (db.getBestAnchor env) hashes).tail :=
            congrArg (fun l => l.bestAnchors.tail) hread
          have hcoins := congrArg Layers.coins hread
          have hnullifiers := congrArg Layers.nullifiers hread
          have hblocks := congrArg Layers.bestBlocks hread
          exact Layers.ext hcoins rfl hnullifiers (congrArg (cons _) hbest) hblocks

/-! ## Write-back -/

variable {child : CCoinsViewCache}

theorem batchWrite_eq_ok {cache parent : CCoinsViewCache}
    (h : child.batchWrite cache = .ok parent) :
    child.cacheCoins.Merged mergeCoin cache.cacheCoins parent.cacheCoins ∧
    child.cacheSaplingAnchors.Merged mergeAnchor cache.cacheSaplingAnchors
      parent.cacheSaplingAnchors ∧ child.cacheSaplingNullifiers.Merged mergeNullifier
      cache.cacheSaplingNullifiers parent.cacheSaplingNullifiers ∧
    parent.hashSaplingAnchor = child.hashSaplingAnchor ∧ parent.hashBlock = child.hashBlock := by
  obtain ⟨⟨coins, usage⟩, hcoins, ⟨anchors, usage'⟩, hanchors, h⟩ := bind₂_eq_ok_iff.mp h
  obtain ⟨⟨nullifiers, u⟩, hnullifiers, h⟩ := bind_eq_ok_iff.mp h
  cases ok.inj h
  exact ⟨⟨_, _, _, _, hcoins⟩, ⟨_, _, _, _, hanchors⟩, ⟨_, _, _, _, hnullifiers⟩, rfl, rfl⟩

theorem exists_mergeAnchor_eq_ok (ours : Option CAnchorsSaplingCacheEntry)
    (entry : CAnchorsSaplingCacheEntry) : ∃ r, mergeAnchor ours entry = .ok r := by
  unfold mergeAnchor
  by_cases hdirty : (!entry.dirty) = true
  · exact ⟨_, if_pos hdirty⟩
  · rw [if_neg hdirty]
    cases ours with
    | none => exact ⟨_, rfl⟩
    | some us =>
      dsimp only
      split_ifs <;> exact ⟨_, rfl⟩

theorem exists_mergeNullifier_eq_ok (ours : Option CNullifiersCacheEntry)
    (entry : CNullifiersCacheEntry) : ∃ r, mergeNullifier ours entry = .ok r := by
  unfold mergeNullifier
  by_cases hdirty : (!entry.dirty) = true
  · exact ⟨_, if_pos hdirty⟩
  · rw [if_neg hdirty]
    cases ours with
    | none => exact ⟨_, rfl⟩
    | some us =>
      dsimp only
      split_ifs <;> exact ⟨_, rfl⟩

theorem exists_batchWrite_eq_ok {cache : CCoinsViewCache}
    {base : COutPoint → Option Coin} {ms : List (KeyedMap COutPoint CCoinsCacheEntry)}
    (h : coinRules.Coherent base (child.cacheCoins :: cache.cacheCoins :: ms)) :
    ∃ parent, child.batchWrite cache = .ok parent := by
  obtain ⟨coins, usage, hcoins, -⟩ := Rules.merge_spec h
    (fun old new usage => usage - coinUsage old + coinUsage new)
    cache.cachedCoinsUsage
  obtain ⟨⟨anchors, usage'⟩, hanchors, -⟩ := KeyedMap.mergeM_ok
    (fun old new usage => usage - anchorUsage old + anchorUsage new)
    (fun k entry _ => exists_mergeAnchor_eq_ok ((cache.cacheSaplingAnchors, usage).1.lookup k)
      entry)
  obtain ⟨⟨nullifiers, u⟩, hnullifiers, -⟩ := KeyedMap.mergeM_ok (fun _ _ (u : Unit) => u)
    (fun k entry _ => exists_mergeNullifier_eq_ok
      ((cache.cacheSaplingNullifiers, ()).1.lookup k) entry)
  refine ⟨⟨child.hashBlock, coins, child.hashSaplingAnchor, anchors, nullifiers, usage'⟩, ?_⟩
  refine bind_eq_ok_iff.mpr ⟨_, hcoins, ?_⟩
  refine bind_eq_ok_iff.mpr ⟨_, hanchors, ?_⟩
  exact bind_eq_ok_iff.mpr ⟨_, hnullifiers, rfl⟩

theorem database_batchWrite_eq_ok {env : CoinsEnv}
    {db db' : CCoinsViewDB} (h : db.batchWrite env child = .ok db') : child.hashBlock ≠ 0 ∧
    (coinRules.Coherent db.coins [child.cacheCoins] →
      db'.coins = coinRules.content db.coins [child.cacheCoins]) ∧
    ((anchorRules env).Coherent (db.getSaplingAnchorAt env) [child.cacheSaplingAnchors] →
      db'.getSaplingAnchorAt env = (anchorRules env).content
        (db.getSaplingAnchorAt env) [child.cacheSaplingAnchors]) ∧
    (nullifierRules.Coherent db.getNullifier [child.cacheSaplingNullifiers] →
      db'.getNullifier = nullifierRules.content db.getNullifier [child.cacheSaplingNullifiers]) ∧
    db'.getBestAnchor env = pointer (db.getBestAnchor env) [child.hashSaplingAnchor] ∧
    db'.headBlocks = none := by
  rw [CCoinsViewDB.batchWrite_eq] at h
  split_ifs at h with hnull
  obtain ⟨oldTip, -, rfl⟩ : ∃ oldTip, db.oldTip child.hashBlock = .ok oldTip ∧
      db.writeBatch (CCoinsViewDB.flushOps env child oldTip) = db' := by
    cases htip : db.oldTip child.hashBlock with
    | error e =>
      rw [htip] at h
      cases h
    | ok oldTip =>
      rw [htip] at h
      exact ⟨oldTip, rfl, ok.inj h⟩
  obtain ⟨hcoins, hanchors, hnullifiers, hbest, -, hheads⟩ :=
    CCoinsViewDB.writeBatch_flushOps env child db oldTip
  refine ⟨hnull, fun hsound => ?_, fun hsound => ?_, fun hsound => ?_, ?_, hheads⟩
  · funext outpoint
    rw [hcoins]
    cases hk : child.cacheCoins.lookup outpoint with
    | none =>
      rw [coinRules.content_of_not_lookup hk]
      rfl
    | some entry =>
      rw [coinRules.content_of_lookup hk]
      show _ = entry.coin.unspent
      cases hdirty : entry.dirty with
      | true => simp [hdirty]
      | false => simpa [hdirty] using ((hsound.sound hk).1 hdirty).symm
  · funext rt
    by_cases hroot : rt = saplingEmptyRoot env.hash
    · rw [(hsound.storable rt) hroot]
      exact if_pos hroot
    · have hbase : ∀ db : CCoinsViewDB, db.getSaplingAnchorAt env rt = db.saplingAnchors rt :=
        fun db => if_neg hroot
      rw [hbase, hanchors]
      cases hk : child.cacheSaplingAnchors.lookup rt with
      | none =>
        rw [(anchorRules env).content_of_not_lookup hk]
        exact (hbase db).symm
      | some entry =>
        rw [(anchorRules env).content_of_lookup hk]
        show _ = entry.value
        cases hdirty : entry.dirty with
        | true =>
          unfold CAnchorsSaplingCacheEntry.value
          cases hentered : entry.entered <;> simp [hdirty, hentered, hroot]
        | false =>
          have hclean := (hsound.sound hk).1 hdirty
          rw [Rules.content_nil, hbase] at hclean
          simpa [hdirty] using hclean.symm
  · funext nf
    rw [hnullifiers]
    cases hk : child.cacheSaplingNullifiers.lookup nf with
    | none =>
      rw [nullifierRules.content_of_not_lookup hk]
      rfl
    | some entry =>
      rw [nullifierRules.content_of_lookup hk]
      show _ = entry.entered
      cases hdirty : entry.dirty with
      | true => simp [hdirty]
      | false => simpa [hdirty] using ((hsound.sound hk) hdirty).symm
  · unfold CCoinsViewDB.getBestAnchor
    rw [hbest]
    by_cases hset : child.hashSaplingAnchor = 0
    · rw [hset]
      rfl
    · rw [if_neg hset, pointer_cons hset]
      rfl

end KorshCore

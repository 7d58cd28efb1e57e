import KorshCore.Coins.Layers

/-!
# A stack of coins caches refines a flat view

Whatever caches lie between a caller and the database, the top cache answers
as if there were none: coins come from one flat map of unspent outputs and
nullifiers from one flat set, and flushing every layer brings the database
to that map and that set.
-/

namespace KorshCore

open WriteBack CCoinsViewCache Function Except KeyedMap
open CoinsOp hiding addCoin uncache

inductive CoinsOp.Kind where
  | coins
  | nullifiers
  | anchors
  | bestBlock
  | writeBack
  deriving DecidableEq

/-- The data that a call is about; `Flush` and `Sync` are about all of it. -/
def CoinsOp.kind : CoinsOp → Kind
  | .addCoin .. | .spendCoin _ | .getCoin _ | .haveCoin _ | .uncache _ => .coins
  | .setNullifiers .. | .getNullifier _ => .nullifiers
  | .pushAnchor _ | .popAnchor _ | .getSaplingAnchorAt _ | .getBestAnchor =>
    .anchors
  | .setBestBlock _ | .getBestBlock => .bestBlock
  | .flush | .sync => .writeBack

/-! ## The flat machines -/

/-- One map of unspent coins. The other calls leave it alone. -/
def flatCoins (op : CoinsOp) (coins : COutPoint → Option Coin) :
    CoinsAnswer × (COutPoint → Option Coin) :=
  match op with
  | .addCoin outpoint coin _ =>
    (.done, if isUnspendable coin.out.scriptPubKey then coins
      else update coins outpoint (some coin))
  | .spendCoin outpoint =>
    (.coin (coins outpoint), update coins outpoint none)
  | .getCoin outpoint => (.coin (coins outpoint), coins)
  | .haveCoin outpoint => (.flag (coins outpoint).isSome, coins)
  | _ => (.done, coins)

/-- One set of nullifiers. The other calls leave it alone. -/
def flatNullifiers (op : CoinsOp) (nullifiers : Uint256 → Bool) : CoinsAnswer × (Uint256 → Bool) :=
  match op with
  | .setNullifiers tx spent =>
    (.done, tx.shieldedSpends.foldl
      (fun nullifiers spend => update nullifiers spend.nullifier spent)
      nullifiers)
  | .getNullifier nullifier => (.flag (nullifiers nullifier), nullifiers)
  | _ => (.done, nullifiers)

/-- `SpendCoin` moves out an entry even if it is spent already; what a caller
sees of it is the unspent coin. -/
def CoinsAnswer.seen : CoinsAnswer → CoinsAnswer
  | .coin moved => .coin (moved.bind Coin.unspent)
  | answer => answer

/-- The rule of `AddCoin`: the coin is not spent, and `possibleOverwrite` is
set if an unspent coin may already be there. -/
def RespectsOverwrite (op : CoinsOp) (coins : COutPoint → Option Coin) : Prop :=
  match op with
  | .addCoin outpoint coin possibleOverwrite => coin.isSpent = false ∧
    (possibleOverwrite = false → coins outpoint = none)
  | _ => True

namespace CoinsStack

def coins (stack : CoinsStack) : COutPoint → Option Coin :=
  coinRules.content stack.db.coins (layers stack.caches).coins

def nullifiers (stack : CoinsStack) : Uint256 → Bool :=
  nullifierRules.content stack.db.getNullifier (layers stack.caches).nullifiers

structure Sound (stack : CoinsStack) : Prop where
  coins : coinRules.Coherent stack.db.coins (layers stack.caches).coins
  nullifiers : nullifierRules.Coherent stack.db.getNullifier (layers stack.caches).nullifiers
  headBlocks : stack.db.headBlocks = none

/-! ## Calls about coins -/

variable {env : CoinsEnv} {db : CCoinsViewDB} {cache : CCoinsViewCache}
  {base : List CCoinsViewCache}

variable {possibleOverwrite : Bool} {outpoint : COutPoint}

theorem cacheCoins_addCoin {coin : Coin} {cache' : CCoinsViewCache}
    (hadd : cache.addCoin outpoint coin possibleOverwrite = (cache', none)) :
    let entry := (cache.cacheCoins.lookup outpoint).getD ⟨Coin.cleared, false, false⟩
    cache'.cacheCoins = if isUnspendable coin.out.scriptPubKey then cache.cacheCoins
      else cache.cacheCoins.set outpoint (some ⟨coin, true,
        entry.fresh || !possibleOverwrite && !entry.dirty⟩) := by
  intro entry
  unfold addCoin at hadd
  dsimp only at hadd
  split_ifs at hadd ⊢ <;> cases hadd <;> rfl

theorem below_of_fresh {outpoint : COutPoint} {possibleOverwrite : Bool}
    {m : KeyedMap COutPoint CCoinsCacheEntry} {ms : List (KeyedMap COutPoint CCoinsCacheEntry)}
    (h : coinRules.Coherent db.coins (m :: ms))
    (hfree : possibleOverwrite = false → coinRules.content db.coins (m :: ms) outpoint = none)
    (hflag : let entry := (m.lookup outpoint).getD ⟨Coin.cleared, false, false⟩
      (entry.fresh || !possibleOverwrite && !entry.dirty) = true) :
    coinRules.content db.coins ms outpoint = none := by
  cases hk : m.lookup outpoint with
  | none =>
    rw [hk] at hflag
    rw [← coinRules.content_of_not_lookup hk]
    exact hfree (by simpa using hflag)
  | some entry =>
    rw [hk] at hflag
    obtain ⟨hclean, hfresh⟩ := h.sound hk
    rcases Bool.or_eq_true_iff.mp hflag with hflag | hflag
    · exact hfresh hflag
    · obtain ⟨hoverwrite, hdirty⟩ := Bool.and_eq_true_iff.mp hflag
      rw [← hclean (by simpa using hdirty)]
      exact (coinRules.content_of_lookup hk).symm.trans (hfree (by simpa using hoverwrite))

theorem addCoin_snd_eq_none {coin : Coin}
    (hrule : RespectsOverwrite (.addCoin outpoint coin possibleOverwrite)
      (coins ⟨cache :: base, db⟩)) : (cache.addCoin outpoint coin possibleOverwrite).2 = none := by
  obtain ⟨hunspent, hfree⟩ := hrule
  have hthrow : (!possibleOverwrite && !((cache.cacheCoins.lookup outpoint).getD
        ⟨Coin.cleared, false, false⟩).coin.isSpent) = false := by
    cases possibleOverwrite with
    | true => rfl
    | false =>
      cases hk : cache.cacheCoins.lookup outpoint with
      | none => rfl
      | some entry =>
        have hspent := Coin.unspent_eq_none_iff.mp
          ((coinRules.content_of_lookup hk).symm.trans (hfree rfl))
        simp [hspent]
  unfold addCoin
  simp only [hunspent, hthrow, Bool.false_eq_true, if_false]
  split_ifs <;> rfl

theorem addCoin_refines {coin : Coin} {cache' : CCoinsViewCache}
    (h : coinRules.Coherent db.coins (layers (cache :: base)).coins)
    (hrule : RespectsOverwrite (.addCoin outpoint coin possibleOverwrite)
      (coins ⟨cache :: base, db⟩))
    (hadd : cache.addCoin outpoint coin possibleOverwrite = (cache', none)) :
    coinRules.Coherent db.coins (layers (cache' :: base)).coins ∧ coins ⟨cache' :: base, db⟩
        = (flatCoins (.addCoin outpoint coin possibleOverwrite) (coins ⟨cache :: base, db⟩)).2 := by
  obtain ⟨hunspent, hfree⟩ := hrule
  have hmap := cacheCoins_addCoin hadd
  unfold coins flatCoins
  rw [layers_cons] at h ⊢
  dsimp only at h hmap ⊢
  rw [hmap]
  split_ifs with hunspendable
  · exact ⟨h, rfl⟩
  · refine ⟨h.set ?_, ?_⟩
    · rintro e ⟨⟩
      exact ⟨by simp, below_of_fresh h hfree⟩
    · rw [Rules.content_set]
      exact congrArg (update _ outpoint) (Coin.unspent_of_not_isSpent hunspent)

theorem getCoin_refines (outpoint : COutPoint) {caches : List CCoinsViewCache}
    (h : coinRules.Coherent db.coins (layers caches).coins) :
    (getCoin db outpoint caches).1 = coins ⟨caches, db⟩ outpoint ∧
    coinRules.Coherent db.coins (layers (getCoin db outpoint caches).2).coins ∧
    coins ⟨(getCoin db outpoint caches).2, db⟩ = coins ⟨caches, db⟩ := by
  obtain ⟨hanswer, hlayers⟩ := getCoin_layers db caches outpoint
  obtain ⟨hvalue, hcoherent, hsame⟩ := Rules.fetch_spec outpoint h
  unfold coins
  rw [hanswer, hlayers]
  exact ⟨hvalue, hcoherent, hsame⟩

theorem spendCoin_refines (outpoint : COutPoint)
    (h : coinRules.Coherent db.coins (layers (cache :: base)).coins) :
    let (moved, caches) := spendCoin db outpoint cache base
    moved.bind Coin.unspent = coins ⟨cache :: base, db⟩ outpoint ∧
    coinRules.Coherent db.coins (layers caches).coins ∧
    coins ⟨caches, db⟩ = update (coins ⟨cache :: base, db⟩) outpoint none := by
  obtain ⟨cache', base', hget, hspend⟩ := spendCoin_eq db cache base outpoint
  obtain ⟨hanswer, hcoherent, hsame⟩ := getCoin_refines outpoint h
  rw [hget] at hanswer hcoherent hsame
  rw [hspend, ← hanswer]
  cases hk : cache'.cacheCoins.lookup outpoint with
  | none =>
    rw [hk] at hanswer
    refine ⟨rfl, hcoherent, hsame.trans ?_⟩
    exact (update_eq_self_iff.mpr hanswer).symm
  | some entry =>
    refine ⟨rfl, ?_, ?_⟩
    · rw [spendEntry_layers]
      refine hcoherent.set ?_
      intro e he
      split_ifs at he
      cases he
      simp [coinRules]
    · rw [← hsame]
      unfold coins
      rw [spendEntry_layers]
      refine (coinRules.content_set cache'.cacheCoins outpoint _).trans ?_
      congr 1
      split_ifs with hfresh
      · exact (hcoherent.sound hk).2 hfresh
      · rfl

theorem uncache_refines (outpoint : COutPoint)
    (h : coinRules.Coherent db.coins (layers (cache :: base)).coins) :
    coinRules.Coherent db.coins (layers (cache.uncache outpoint :: base)).coins ∧
    coins ⟨cache.uncache outpoint :: base, db⟩ = coins ⟨cache :: base, db⟩ := by
  unfold uncache
  cases hk : cache.cacheCoins.lookup outpoint with
  | none => exact ⟨h, rfl⟩
  | some entry =>
    dsimp only
    split_ifs with hclean
    · refine ⟨?_, ?_⟩
      · show coinRules.Coherent db.coins (cache.cacheCoins.set outpoint none :: (layers base).coins)
        refine h.set ?_
        rintro e ⟨⟩
      refine (coinRules.content_set cache.cacheCoins outpoint none).trans ?_
      refine update_eq_self_iff.mpr ?_
      rw [Bool.and_eq_true_iff] at hclean
      have hvalue := (h.sound hk).1 (by simpa using hclean.1)
      exact hvalue.symm.trans (coinRules.content_of_lookup hk).symm
    · exact ⟨h, rfl⟩

theorem getNullifier_refines (nf : Uint256) {caches : List CCoinsViewCache}
    (h : nullifierRules.Coherent db.getNullifier (layers caches).nullifiers) :
    (getNullifier db nf caches).1 = nullifiers ⟨caches, db⟩ nf ∧
    nullifierRules.Coherent db.getNullifier (layers (getNullifier db nf caches).2).nullifiers ∧
    nullifiers ⟨(getNullifier db nf caches).2, db⟩ = nullifiers ⟨caches, db⟩ := by
  obtain ⟨hanswer, hlayers⟩ := getNullifier_layers db caches nf
  obtain ⟨hvalue, hcoherent, hsame⟩ := Rules.fetch_spec nf h
  unfold nullifiers
  rw [hanswer, hlayers]
  exact ⟨hvalue, hcoherent, hsame⟩

theorem setNullifiers_refines (tx : CTransaction) (spent : Bool)
    (h : nullifierRules.Coherent db.getNullifier (layers (cache :: base)).nullifiers) :
    nullifierRules.Coherent db.getNullifier
      (layers (cache.setNullifiers tx spent :: base)).nullifiers ∧
    nullifiers ⟨cache.setNullifiers tx spent :: base, db⟩
      = (flatNullifiers (.setNullifiers tx spent) (nullifiers ⟨cache :: base, db⟩)).2 := by
  have hloop : ∀ (spends : List SpendDescription) (m : KeyedMap Uint256 CNullifiersCacheEntry),
      nullifierRules.Coherent db.getNullifier (m :: (layers base).nullifiers) →
      let m' := spends.foldl (fun m spend => m.set spend.nullifier (some ⟨spent, true⟩)) m
      nullifierRules.Coherent db.getNullifier
          (m' :: (layers base).nullifiers) ∧
        nullifierRules.content db.getNullifier (m' :: (layers base).nullifiers)
          = spends.foldl (fun nullifiers spend =>
              update nullifiers spend.nullifier spent)
            (nullifierRules.content db.getNullifier (m :: (layers base).nullifiers)) := by
    intro spends
    induction spends with
    | nil =>
      intro m hm
      exact ⟨hm, rfl⟩
    | cons spend spends ih =>
      intro m hm
      have hset : nullifierRules.Coherent db.getNullifier
          (m.set spend.nullifier (some ⟨spent, true⟩) :: (layers base).nullifiers) := by
        refine hm.set ?_
        rintro e ⟨⟩ hclean
        cases hclean
      obtain ⟨hcoherent, hcontent⟩ := ih _ hset
      refine ⟨hcoherent, hcontent.trans ?_⟩
      rw [Rules.content_set]
      rfl
  unfold nullifiers flatNullifiers
  rw [setNullifiers_layers]
  exact hloop tx.shieldedSpends cache.cacheSaplingNullifiers h

/-! ## What the calls leave alone -/

theorem stepTop_frame {op : CoinsOp} {answer : CoinsAnswer} {stack : CoinsStack}
    (h : stepTop env db cache base op = .ok (answer, stack)) (hkind : op.kind ≠ .writeBack) :
    stack.db = db ∧
    (op.kind ≠ .coins → (layers stack.caches).coins = (layers (cache :: base)).coins) ∧
    (op.kind ≠ .nullifiers →
      (layers stack.caches).nullifiers = (layers (cache :: base)).nullifiers) ∧
    (op.kind ≠ .anchors → (layers stack.caches).anchors = (layers (cache :: base)).anchors ∧
      (layers stack.caches).bestAnchors = (layers (cache :: base)).bestAnchors) ∧
    (op.kind ≠ .bestBlock → (layers stack.caches).bestBlocks
        = (layers (cache :: base)).bestBlocks) := by
  have hdone := stepTop_eq_ok h
  cases op with
  | flush => exact absurd rfl hkind
  | sync => exact absurd rfl hkind
  | addCoin outpoint coin possibleOverwrite =>
    obtain ⟨cache', hadd, -, rfl⟩ := hdone
    have hlayers := addCoin_layers cache base outpoint coin possibleOverwrite
    rw [hadd] at hlayers
    simp [hlayers, kind]
  | spendCoin outpoint =>
    obtain ⟨-, rfl⟩ := hdone
    obtain ⟨cache', base', hget, hspend⟩ := spendCoin_eq db cache base outpoint
    have hlayers := (getCoin_layers db (cache :: base) outpoint).2
    rw [hget] at hlayers
    rw [hspend]
    cases cache'.cacheCoins.lookup outpoint with
    | none => simp [hlayers, kind]
    | some entry => simp [spendEntry_layers, hlayers, kind]
  | getCoin outpoint =>
    obtain ⟨-, rfl⟩ := hdone
    simp [(getCoin_layers db (cache :: base) outpoint).2, kind]
  | haveCoin outpoint =>
    obtain ⟨-, rfl⟩ := hdone
    simp [(getCoin_layers db (cache :: base) outpoint).2, kind]
  | uncache outpoint =>
    obtain ⟨-, rfl⟩ := hdone
    simp [uncache_layers, kind]
  | setNullifiers tx spent =>
    obtain ⟨-, rfl⟩ := hdone
    simp [setNullifiers_layers, kind]
  | getNullifier nf =>
    obtain ⟨-, rfl⟩ := hdone
    simp [(getNullifier_layers db (cache :: base) nf).2, kind]
  | pushAnchor tree =>
    obtain ⟨-, rfl⟩ := hdone
    have hlayers := pushAnchor_layers env db cache base tree
    rw [hlayers]
    split_ifs <;> simp [kind]
  | popAnchor newrt =>
    obtain ⟨caches, hpop, -, rfl⟩ := hdone
    rcases popAnchor_layers hpop with ⟨-, hlayers⟩ | ⟨-, -, m, ms, tree, -, hlayers⟩
    · simp [hlayers, kind]
    · simp [hlayers, kind]
  | getSaplingAnchorAt rt =>
    obtain ⟨-, rfl⟩ := hdone
    simp [(getSaplingAnchorAt_layers env db (cache :: base) rt).2, kind]
  | getBestAnchor =>
    obtain ⟨-, rfl⟩ := hdone
    simp [(getBestAnchor_layers env db (cache :: base)).2, kind]
  | setBestBlock hashBlock =>
    obtain ⟨-, rfl⟩ := hdone
    exact ⟨rfl, fun _ => rfl, fun _ => rfl, fun _ => ⟨rfl, rfl⟩, fun hne => absurd rfl hne⟩
  | getBestBlock =>
    obtain ⟨-, rfl⟩ := hdone
    simp [(getBestBlock_layers db (cache :: base)).2, kind]

/-! ## Write-back -/

/-- What may stay of a cache that was written back: none of its changes. -/
structure Settled (env : CoinsEnv) (cache cache' : CCoinsViewCache) : Prop where
  coins : ∀ k, cache'.cacheCoins.lookup k = none ∨
    cache'.cacheCoins.lookup k = (cache.cacheCoins.lookup k).bind coinRules.keep
  nullifiers : ∀ k, cache'.cacheSaplingNullifiers.lookup k = none ∨
    cache'.cacheSaplingNullifiers.lookup k
      = (cache.cacheSaplingNullifiers.lookup k).bind nullifierRules.keep
  anchors : ∀ k, cache'.cacheSaplingAnchors.lookup k = none ∨ cache'.cacheSaplingAnchors.lookup k
      = (cache.cacheSaplingAnchors.lookup k).bind (anchorRules env).keep
  hashSaplingAnchor : cache'.hashSaplingAnchor = cache.hashSaplingAnchor
  hashBlock : cache'.hashBlock = cache.hashBlock

theorem flushed_settled (env : CoinsEnv) (cache : CCoinsViewCache) :
    Settled env cache cache.flushed where
  coins _ := .inl (AList.lookup_empty _)
  nullifiers _ := .inl (AList.lookup_empty _)
  anchors _ := .inl (AList.lookup_empty _)
  hashSaplingAnchor := rfl
  hashBlock := rfl

theorem syncedOverCache_settled (env : CoinsEnv) (cache : CCoinsViewCache) :
    Settled env cache cache.syncedOverCache where
  coins k := .inr (lookup_filterMapValues _ _ k)
  nullifiers k := .inr (lookup_filterMapValues _ _ k)
  anchors k := .inr (lookup_filterMapValues _ _ k)
  hashSaplingAnchor := rfl
  hashBlock := rfl

theorem syncedOverDatabase_settled (env : CoinsEnv) (cache : CCoinsViewCache) :
    Settled env cache cache.syncedOverDatabase where
  coins k := .inr (lookup_filterMapValues _ _ k)
  nullifiers _ := .inl (AList.lookup_empty _)
  anchors _ := .inl (AList.lookup_empty _)
  hashSaplingAnchor := rfl
  hashBlock := rfl

section WriteBack

variable {overCache overDatabase : CCoinsViewCache → CCoinsViewCache} {stack : CoinsStack}

theorem writeBack_nullifiers (hcache : ∀ cache, Settled env cache (overCache cache))
    (hdatabase : ∀ cache, Settled env cache (overDatabase cache))
    (hnullifiers : nullifierRules.Coherent db.getNullifier (layers (cache :: base)).nullifiers)
    (h : writeBack env overCache overDatabase ⟨cache :: base, db⟩ = .ok stack) :
    nullifierRules.Coherent stack.db.getNullifier (layers stack.caches).nullifiers ∧
      stack.nullifiers = nullifiers ⟨cache :: base, db⟩ := by
  rcases writeBack_eq_ok h with ⟨rfl, db', hwrite, rfl⟩ | ⟨parent, rest, parent', rfl, hwrite, rfl⟩
  · obtain ⟨-, -, -, hbase, -⟩ := database_batchWrite_eq_ok hwrite
    exact Rules.Coherent.writeBase hnullifiers (hbase hnullifiers) (hdatabase cache).nullifiers
  · obtain ⟨-, -, hmerged, -, -⟩ := batchWrite_eq_ok hwrite
    exact Rules.Coherent.writeBack hnullifiers hmerged (hcache cache).nullifiers

theorem writeBack_refines (hcache : ∀ cache, Settled env cache (overCache cache))
    (hdatabase : ∀ cache, Settled env cache (overDatabase cache))
    (hsound : Sound ⟨cache :: base, db⟩)
    (h : writeBack env overCache overDatabase ⟨cache :: base, db⟩ = .ok stack) :
    stack.Sound ∧ stack.coins = coins ⟨cache :: base, db⟩ ∧
      stack.nullifiers = nullifiers ⟨cache :: base, db⟩ := by
  obtain ⟨hcoins, hnullifiers, hheads⟩ := hsound
  obtain ⟨hnullifiers', hcontent'⟩ := writeBack_nullifiers hcache hdatabase hnullifiers h
  rcases writeBack_eq_ok h with ⟨rfl, db', hwrite, rfl⟩ | ⟨parent, rest, parent', rfl, hwrite, rfl⟩
  · obtain ⟨-, hbaseCoins, -, -, -, hheads'⟩ := database_batchWrite_eq_ok hwrite
    obtain ⟨hcoins', hcontent⟩ := Rules.Coherent.writeBase hcoins
      (hbaseCoins hcoins) (hdatabase cache).coins
    exact ⟨⟨hcoins', hnullifiers', hheads'⟩, hcontent, hcontent'⟩
  · obtain ⟨hmergedCoins, -⟩ := batchWrite_eq_ok hwrite
    obtain ⟨hcoins', hcontent⟩ := Rules.Coherent.writeBack hcoins hmergedCoins (hcache cache).coins
    exact ⟨⟨hcoins', hnullifiers', hheads⟩, hcontent, hcontent'⟩

theorem database_batchWrite_eq_error {e : CoinsError}
    (hheads : db.headBlocks = none) (h : db.batchWrite env cache = .error e) :
    e = .assertHashBlock ∧ cache.hashBlock = 0 := by
  rw [CCoinsViewDB.batchWrite_eq] at h
  split_ifs at h with hnull
  · cases h
    exact ⟨rfl, hnull⟩
  · have hempty : db.getHeadBlocks = [] := by
      unfold CCoinsViewDB.getHeadBlocks
      rw [hheads]
      rfl
    have htip : ∃ oldTip, db.oldTip cache.hashBlock = .ok oldTip := by
      unfold CCoinsViewDB.oldTip
      split_ifs
      · rw [hempty]
        exact ⟨0, rfl⟩
      · exact ⟨_, rfl⟩
    obtain ⟨oldTip, htip⟩ := htip
    rw [htip] at h
    cases h

theorem writeBack_eq_error {e : CoinsError} (hsound : Sound ⟨cache :: base, db⟩)
    (h : writeBack env overCache overDatabase ⟨cache :: base, db⟩ = .error e) :
    e = .assertHashBlock ∧ cache.hashBlock = 0 := by
  cases base with
  | nil =>
    rcases bind_eq_error_iff.mp h with hwrite | ⟨_, _, hrest⟩
    · exact database_batchWrite_eq_error hsound.headBlocks hwrite
    · cases hrest
  | cons parent rest =>
    obtain ⟨parent', hwrite⟩ := exists_batchWrite_eq_ok hsound.coins
    rcases bind_eq_error_iff.mp h with hstop | ⟨_, _, hrest⟩
    · rw [hwrite] at hstop
      cases hstop
    · cases hrest

end WriteBack

/-! ## Every call -/

variable {op : CoinsOp} {answer : CoinsAnswer} {stack : CoinsStack}

theorem stepTop_coins (hcoins : coinRules.Coherent db.coins (layers (cache :: base)).coins)
    (hrule : RespectsOverwrite op (coins ⟨cache :: base, db⟩))
    (h : stepTop env db cache base op = .ok (answer, stack)) (hkind : op.kind = .coins) :
    coinRules.Coherent stack.db.coins (layers stack.caches).coins ∧
      answer.seen = (flatCoins op (coins ⟨cache :: base, db⟩)).1 ∧
      stack.coins = (flatCoins op (coins ⟨cache :: base, db⟩)).2 := by
  have hdone := stepTop_eq_ok h
  cases op <;> try cases hkind
  case addCoin outpoint coin possibleOverwrite =>
    obtain ⟨cache', hadd, rfl, rfl⟩ := hdone
    obtain ⟨hcoherent, hcontent⟩ := addCoin_refines hcoins hrule hadd
    exact ⟨hcoherent, rfl, hcontent⟩
  case spendCoin outpoint =>
    obtain ⟨rfl, rfl⟩ := hdone
    obtain ⟨hmoved, hcoherent, hcontent⟩ := spendCoin_refines outpoint hcoins
    exact ⟨hcoherent, congrArg CoinsAnswer.coin hmoved, hcontent⟩
  case getCoin outpoint =>
    obtain ⟨rfl, rfl⟩ := hdone
    obtain ⟨hanswer, hcoherent, hcontent⟩ := getCoin_refines outpoint hcoins
    refine ⟨hcoherent, ?_, hcontent⟩
    -- what a coherent stack stands for is never a spent coin
    have hstorable := hcoins.storable outpoint
    rw [hanswer]
    show CoinsAnswer.coin ((coins ⟨cache :: base, db⟩ outpoint).bind _) = _
    cases hcoin : coins ⟨cache :: base, db⟩ outpoint with
    | none => simp [flatCoins, hcoin]
    | some coin =>
      have hunspent := hstorable coin hcoin
      simp [flatCoins, hcoin, Coin.unspent_of_not_isSpent hunspent]
  case haveCoin outpoint =>
    obtain ⟨rfl, rfl⟩ := hdone
    obtain ⟨hanswer, hcoherent, hcontent⟩ := getCoin_refines outpoint hcoins
    refine ⟨hcoherent, ?_, hcontent⟩
    rw [hanswer]
    rfl
  case uncache outpoint =>
    obtain ⟨rfl, rfl⟩ := hdone
    obtain ⟨hcoherent, hcontent⟩ := uncache_refines outpoint hcoins
    exact ⟨hcoherent, rfl, hcontent⟩

theorem stepTop_nullifiers (hnullifiers : nullifierRules.Coherent db.getNullifier
      (layers (cache :: base)).nullifiers)
    (h : stepTop env db cache base op = .ok (answer, stack)) (hkind : op.kind = .nullifiers) :
    nullifierRules.Coherent stack.db.getNullifier (layers stack.caches).nullifiers ∧
      answer.seen = (flatNullifiers op (nullifiers ⟨cache :: base, db⟩)).1 ∧
      stack.nullifiers = (flatNullifiers op (nullifiers ⟨cache :: base, db⟩)).2 := by
  have hdone := stepTop_eq_ok h
  cases op <;> try cases hkind
  case setNullifiers tx spent =>
    obtain ⟨rfl, rfl⟩ := hdone
    obtain ⟨hcoherent, hcontent⟩ := setNullifiers_refines tx spent hnullifiers
    exact ⟨hcoherent, rfl, hcontent⟩
  case getNullifier nf =>
    obtain ⟨rfl, rfl⟩ := hdone
    obtain ⟨hanswer, hcoherent, hcontent⟩ := getNullifier_refines nf hnullifiers
    refine ⟨hcoherent, ?_, hcontent⟩
    rw [hanswer]
    rfl

theorem flatCoins_of_kind (hkind : op.kind ≠ .coins)
    (coins : COutPoint → Option Coin) : flatCoins op coins = (.done, coins) := by
  cases op <;> first | rfl | exact absurd rfl hkind

theorem flatNullifiers_of_kind (hkind : op.kind ≠ .nullifiers) (nullifiers : Uint256 → Bool) :
    flatNullifiers op nullifiers = (.done, nullifiers) := by
  cases op <;> first | rfl | exact absurd rfl hkind

theorem stepTop_writeBack (h : stepTop env db cache base op = .ok (answer, stack))
    (hkind : op.kind = .writeBack) :
    answer = .done ∧ ∃ overCache overDatabase, (∀ cache, Settled env cache (overCache cache)) ∧
      (∀ cache, Settled env cache (overDatabase cache)) ∧
      writeBack env overCache overDatabase ⟨cache :: base, db⟩ = .ok stack := by
  have hdone := stepTop_eq_ok h
  cases op <;> try cases hkind
  case flush =>
    exact ⟨hdone.1, _, _, flushed_settled env, flushed_settled env, hdone.2⟩
  case sync =>
    exact ⟨hdone.1, _, _, syncedOverCache_settled env, syncedOverDatabase_settled env, hdone.2⟩

theorem stepTop_refines (hsound : Sound ⟨cache :: base, db⟩)
    (hrule : RespectsOverwrite op (coins ⟨cache :: base, db⟩))
    (h : stepTop env db cache base op = .ok (answer, stack)) :
    stack.Sound ∧ stack.coins = (flatCoins op (coins ⟨cache :: base, db⟩)).2 ∧
      stack.nullifiers = (flatNullifiers op (nullifiers ⟨cache :: base, db⟩)).2 := by
  by_cases hwrite : op.kind = .writeBack
  · obtain ⟨-, _, _, hcache, hdatabase, hrun⟩ := stepTop_writeBack h hwrite
    rw [flatCoins_of_kind (by simp [hwrite]), flatNullifiers_of_kind (by simp [hwrite])]
    exact writeBack_refines hcache hdatabase hsound hrun
  · obtain ⟨hdb, hcoinsFrame, hnullifiersFrame, -⟩ := stepTop_frame h hwrite
    have hcoins : coinRules.Coherent stack.db.coins (layers stack.caches).coins ∧
        stack.coins = (flatCoins op (coins ⟨cache :: base, db⟩)).2 := by
      by_cases hkind : op.kind = .coins
      · obtain ⟨hcoherent, -, hcontent⟩ := stepTop_coins hsound.coins hrule h hkind
        exact ⟨hcoherent, hcontent⟩
      · unfold coins
        rw [hdb, hcoinsFrame hkind, flatCoins_of_kind hkind]
        exact ⟨hsound.coins, rfl⟩
    have hnullifiers : nullifierRules.Coherent stack.db.getNullifier
        (layers stack.caches).nullifiers ∧
        stack.nullifiers = (flatNullifiers op (nullifiers ⟨cache :: base, db⟩)).2 := by
      by_cases hkind : op.kind = .nullifiers
      · obtain ⟨hcoherent, -, hcontent⟩ := stepTop_nullifiers hsound.nullifiers h hkind
        exact ⟨hcoherent, hcontent⟩
      · unfold nullifiers
        rw [hdb, hnullifiersFrame hkind, flatNullifiers_of_kind hkind]
        exact ⟨hsound.nullifiers, rfl⟩
    refine ⟨⟨hcoins.1, hnullifiers.1, ?_⟩, hcoins.2, hnullifiers.2⟩
    rw [hdb]
    exact hsound.headBlocks

theorem stepTop_hashBlock (h : stepTop env db cache base op = .ok (answer, stack))
    (hkind : op.kind ≠ .bestBlock) :
    (layers stack.caches).bestBlocks.head? = some cache.hashBlock := by
  by_cases hwrite : op.kind = .writeBack
  · obtain ⟨-, _, _, hcache, hdatabase, hrun⟩ := stepTop_writeBack h hwrite
    rcases writeBack_eq_ok hrun with ⟨rfl, db', -, rfl⟩ | ⟨parent, rest, parent', rfl, -, rfl⟩
    · exact congrArg some (hdatabase cache).hashBlock
    · exact congrArg some (hcache cache).hashBlock
  · obtain ⟨-, -, -, -, hframe⟩ := stepTop_frame h hwrite
    rw [hframe hkind]
    rfl

theorem stepTop_eq_error {e : CoinsError} (hsound : Sound ⟨cache :: base, db⟩)
    (hrule : RespectsOverwrite op (coins ⟨cache :: base, db⟩))
    (h : stepTop env db cache base op = .error e) : (op.kind = .anchors ∧ e = .assertAnchor) ∨
      (op.kind = .writeBack ∧ e = .assertHashBlock ∧ cache.hashBlock = 0) := by
  cases op <;> try cases h
  case addCoin outpoint coin possibleOverwrite =>
    have hnone := addCoin_snd_eq_none hrule
    rcases hadd : cache.addCoin outpoint coin possibleOverwrite with ⟨cache', e'⟩
    rw [hadd] at hnone
    cases hnone
    simp only [stepTop, hadd] at h
    cases h
  case popAnchor newrt =>
    rcases bind_eq_error_iff.mp h with hstop | ⟨_, _, hrest⟩
    · unfold CCoinsViewCache.popAnchor at hstop
      dsimp only at hstop
      split_ifs at hstop
      split at hstop <;> cases hstop
      exact .inl ⟨rfl, rfl⟩
    · cases hrest
  case flush =>
    rcases bind_eq_error_iff.mp h with hstop | ⟨_, _, hrest⟩
    · exact .inr ⟨rfl, writeBack_eq_error hsound hstop⟩
    · cases hrest
  case sync =>
    rcases bind_eq_error_iff.mp h with hstop | ⟨_, _, hrest⟩
    · exact .inr ⟨rfl, writeBack_eq_error hsound hstop⟩
    · cases hrest

end CoinsStack

end KorshCore

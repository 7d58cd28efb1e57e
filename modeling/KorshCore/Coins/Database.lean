import KorshCore.Coins.Cache

/-!
# The coins database

`CCoinsViewDB` of `txdb.cpp` and `sapling/sapling_txdb.cpp`: a key-value store
that is written in batches. A batch is a list of `DbOp`s, applied atomically.
-/

namespace KorshCore

open IncrementalMerkleTree List Function KeyedMap

structure CCoinsViewDB where
  coins : COutPoint → Option Coin
  saplingAnchors : Uint256 → Option IncrementalMerkleTree
  saplingNullifiers : Uint256 → Option Bool
  bestSaplingAnchor : Option Uint256
  bestBlock : Option Uint256
  headBlocks : Option (List Uint256)

inductive DbOp where
  | putCoin (outpoint : COutPoint) (coin : Coin)
  | eraseCoin (outpoint : COutPoint)
  | putAnchor (rt : Uint256) (tree : IncrementalMerkleTree)
  | eraseAnchor (rt : Uint256)
  | putNullifier (nf : Uint256)
  | eraseNullifier (nf : Uint256)
  | putBestSaplingAnchor (rt : Uint256)
  | putBestBlock (hash : Uint256)
  | eraseBestBlock
  | putHeadBlocks (heads : List Uint256)
  | eraseHeadBlocks
  deriving DecidableEq

/-- What the coins views take from outside: the hash of the commitment tree
and how the database sizes its batches. -/
structure CoinsEnv where
  hash : MerkleHash
  sizeEstimate : List DbOp → Nat
  batchSize : Nat

namespace CCoinsViewDB

def new : CCoinsViewDB :=
  ⟨fun _ => none, fun _ => none, fun _ => none, none, none, none⟩

/-! ## Reads -/

def getBestBlock (db : CCoinsViewDB) : Uint256 := db.bestBlock.getD 0

def getHeadBlocks (db : CCoinsViewDB) : List Uint256 := db.headBlocks.getD []

def getSaplingAnchorAt (env : CoinsEnv) (db : CCoinsViewDB) (rt : Uint256) :
    Option IncrementalMerkleTree :=
  if rt = IncrementalMerkleTree.saplingEmptyRoot env.hash then some IncrementalMerkleTree.empty
  else db.saplingAnchors rt

def getNullifier (db : CCoinsViewDB) (nf : Uint256) : Bool :=
  (db.saplingNullifiers nf).getD false

def getBestAnchor (env : CoinsEnv) (db : CCoinsViewDB) : Uint256 :=
  db.bestSaplingAnchor.getD (IncrementalMerkleTree.saplingEmptyRoot env.hash)

/-! ## Batches -/

def applyOp (db : CCoinsViewDB) : DbOp → CCoinsViewDB
  | .putCoin outpoint coin =>
    { db with coins := update db.coins outpoint (some coin) }
  | .eraseCoin outpoint =>
    { db with coins := update db.coins outpoint none }
  | .putAnchor rt tree =>
    { db with saplingAnchors := update db.saplingAnchors rt (some tree) }
  | .eraseAnchor rt =>
    { db with saplingAnchors := update db.saplingAnchors rt none }
  | .putNullifier nf =>
    { db with
      saplingNullifiers := update db.saplingNullifiers nf (some true) }
  | .eraseNullifier nf =>
    { db with
      saplingNullifiers := update db.saplingNullifiers nf none }
  | .putBestSaplingAnchor rt => { db with bestSaplingAnchor := some rt }
  | .putBestBlock hash => { db with bestBlock := some hash }
  | .eraseBestBlock => { db with bestBlock := none }
  | .putHeadBlocks heads => { db with headBlocks := some heads }
  | .eraseHeadBlocks => { db with headBlocks := none }

def writeBatch (db : CCoinsViewDB) (batch : List DbOp) : CCoinsViewDB :=
  batch.foldl applyOp db

def coinOps (outpoint : COutPoint) (entry : CCoinsCacheEntry) : List DbOp :=
  if entry.dirty then
    if entry.coin.isSpent then [.eraseCoin outpoint]
    else [.putCoin outpoint entry.coin]
  else []

/-- The loop of `BatchWrite` over the coins: the batches that are written on
the way, and the batch that is open at the end. -/
def coinBatches (env : CoinsEnv) :
    List (Sigma fun _ : COutPoint => CCoinsCacheEntry) → (batch : List DbOp) →
    List (List DbOp) × List DbOp
  | [], batch => ([], batch)
  | entry :: entries, batch =>
    let batch := batch ++ coinOps entry.1 entry.2
    if env.batchSize < env.sizeEstimate batch then
      let (written, last) := coinBatches env entries []
      (batch :: written, last)
    else coinBatches env entries batch

/-- What `BatchWriteAnchors` adds for an entry. -/
def anchorOps (env : CoinsEnv) (rt : Uint256) (entry : CAnchorsSaplingCacheEntry) : List DbOp :=
  if entry.dirty then
    if !entry.entered then [.eraseAnchor rt]
    else if rt ≠ IncrementalMerkleTree.saplingEmptyRoot env.hash then [.putAnchor rt entry.tree]
    else []
  else []

/-- What `BatchWriteNullifiers` adds for an entry. -/
def nullifierOps (nf : Uint256) (entry : CNullifiersCacheEntry) : List DbOp :=
  if entry.dirty then
    if !entry.entered then [.eraseNullifier nf] else [.putNullifier nf]
  else []

/-- `BatchWriteSapling`. -/
def saplingOps (env : CoinsEnv) (child : CCoinsViewCache) : List DbOp :=
  child.cacheSaplingAnchors.entries.flatMap
      (fun entry => anchorOps env entry.1 entry.2)
    ++ child.cacheSaplingNullifiers.entries.flatMap (fun entry => nullifierOps entry.1 entry.2)
    ++ if child.hashSaplingAnchor ≠ 0 then [.putBestSaplingAnchor child.hashSaplingAnchor] else []

/-- The tip that `BatchWrite` marks the database as coming from. -/
def oldTip (db : CCoinsViewDB) (hashBlock : Uint256) : Except CoinsError Uint256 :=
  if db.getBestBlock = 0 then
    -- we may be in the middle of replaying
    match db.getHeadBlocks with
    | [newHead, oldHead] =>
      if newHead = hashBlock then .ok oldHead else .error .assertHeadBlocks
    | _ => .ok 0
  else .ok db.getBestBlock

def batches (env : CoinsEnv) (child : CCoinsViewCache) (db : CCoinsViewDB) :
    Except CoinsError (List (List DbOp)) :=
  if child.hashBlock = 0 then .error .assertHashBlock
  else do
    let oldTip ← db.oldTip child.hashBlock
    let (written, last) := coinBatches env child.cacheCoins.entries
      [.eraseBestBlock, .putHeadBlocks [child.hashBlock, oldTip]]
    .ok (written ++ [last ++ saplingOps env child
      ++ [.eraseHeadBlocks, .putBestBlock child.hashBlock]])

def batchWrite (env : CoinsEnv) (child : CCoinsViewCache)
    (db : CCoinsViewDB) : Except CoinsError CCoinsViewDB := do
  let batches ← db.batches env child
  .ok (batches.foldl writeBatch db)

/-! ## What an uninterrupted write leaves -/

variable (db : CCoinsViewDB)

theorem writeBatch_append (first second : List DbOp) :
    db.writeBatch (first ++ second) = (db.writeBatch first).writeBatch second :=
  foldl_append

theorem foldl_writeBatch (written : List (List DbOp)) :
    ∀ db : CCoinsViewDB, written.foldl writeBatch db = db.writeBatch written.flatten := by
  induction written with
  | nil => intro db; rfl
  | cons batch written ih =>
    intro db
    rw [foldl_cons, ih, flatten_cons, writeBatch_append]

variable (env : CoinsEnv)

theorem coinBatches_flatten (entries : List (Sigma fun _ : COutPoint => CCoinsCacheEntry)) :
    ∀ batch, (coinBatches env entries batch).1.flatten ++ (coinBatches env entries batch).2
      = batch ++ entries.flatMap fun entry => coinOps entry.1 entry.2 := by
  induction entries with
  | nil => intro batch; simp [coinBatches]
  | cons entry entries ih =>
    intro batch
    simp only [coinBatches]
    split_ifs with hsize
    · simp only [flatten_cons, append_assoc, ih, nil_append, flatMap_cons]
    · simp only [ih, append_assoc, flatMap_cons]

inductive Part where
  | coins
  | anchors
  | nullifiers
  | bestAnchor
  | bestBlock
  | headBlocks
  deriving DecidableEq

def part : DbOp → Part
  | .putCoin .. | .eraseCoin _ => .coins
  | .putAnchor .. | .eraseAnchor _ => .anchors
  | .putNullifier _ | .eraseNullifier _ => .nullifiers
  | .putBestSaplingAnchor _ => .bestAnchor
  | .putBestBlock _ | .eraseBestBlock => .bestBlock
  | .putHeadBlocks _ | .eraseHeadBlocks => .headBlocks

theorem applyOp_frame (op : DbOp) : (part op ≠ .coins → (db.applyOp op).coins = db.coins) ∧
    (part op ≠ .anchors → (db.applyOp op).saplingAnchors = db.saplingAnchors) ∧
    (part op ≠ .nullifiers → (db.applyOp op).saplingNullifiers = db.saplingNullifiers) ∧
    (part op ≠ .bestAnchor → (db.applyOp op).bestSaplingAnchor = db.bestSaplingAnchor) := by
  cases op <;> simp [part, applyOp]

theorem writeBatch_frame {batch : List DbOp} {own : Part}
    (hown : ∀ op ∈ batch, part op = own) (db : CCoinsViewDB) :
    (own ≠ .coins → (db.writeBatch batch).coins = db.coins) ∧
    (own ≠ .anchors → (db.writeBatch batch).saplingAnchors = db.saplingAnchors) ∧
    (own ≠ .nullifiers → (db.writeBatch batch).saplingNullifiers = db.saplingNullifiers) ∧
    (own ≠ .bestAnchor → (db.writeBatch batch).bestSaplingAnchor = db.bestSaplingAnchor) := by
  induction batch generalizing db with
  | nil => simp [writeBatch]
  | cons op batch ih =>
    rw [forall_mem_cons] at hown
    obtain ⟨hop, hbatch⟩ := hown
    obtain ⟨hcoins, hanchors, hnullifiers, hbest⟩ := applyOp_frame db op
    obtain ⟨icoins, ianchors, inullifiers, ibest⟩ := ih hbatch (db.applyOp op)
    rw [hop] at hcoins hanchors hnullifiers hbest
    refine ⟨fun h => ?_, fun h => ?_, fun h => ?_, fun h => ?_⟩
    · exact (icoins h).trans (hcoins h)
    · exact (ianchors h).trans (hanchors h)
    · exact (inullifiers h).trans (hnullifiers h)
    · exact (ibest h).trans (hbest h)

def flushOps (env : CoinsEnv) (child : CCoinsViewCache) (oldTip : Uint256) : List DbOp :=
  [.eraseBestBlock, .putHeadBlocks [child.hashBlock, oldTip]]
    ++ child.cacheCoins.entries.flatMap (fun entry => coinOps entry.1 entry.2)
    ++ saplingOps env child
    ++ [.eraseHeadBlocks, .putBestBlock child.hashBlock]

theorem batchWrite_eq (child : CCoinsViewCache) (db : CCoinsViewDB) : db.batchWrite env child =
      if child.hashBlock = 0 then .error .assertHashBlock
      else (db.oldTip child.hashBlock).map fun oldTip =>
        db.writeBatch (flushOps env child oldTip) := by
  unfold batchWrite batches
  split_ifs with hnull
  · rfl
  · cases htip : db.oldTip child.hashBlock with
    | error e => rfl
    | ok oldTip =>
      simp only [Except.ok_bind, Except.map, foldl_writeBatch,
        flatten_append, flatten_cons, flatten_nil,
        append_nil]
      rw [← append_assoc, ← append_assoc, coinBatches_flatten]
      rfl

theorem coins_writeBatch_coinOps (m : KeyedMap COutPoint CCoinsCacheEntry) (outpoint : COutPoint) :
    (db.writeBatch (m.entries.flatMap fun entry => coinOps entry.1 entry.2)).coins outpoint
      = (m.lookup outpoint).elim (db.coins outpoint) fun entry =>
        if entry.dirty then entry.coin.unspent else db.coins outpoint := by
  unfold writeBatch
  rw [foldl_flatMap]
  refine foldl_entries CCoinsViewDB.coins
    (fun db outpoint entry => (coinOps outpoint entry).foldl applyOp db)
    (fun _ entry coin => if entry.dirty then entry.coin.unspent else coin)
    ?_ ?_ m db outpoint
  · intro db outpoint entry
    unfold coinOps
    split_ifs with hdirty hspent
    · simp [applyOp, Coin.unspent_of_isSpent hspent]
    · simp [applyOp, Coin.unspent, hspent]
    · rfl
  · intro db outpoint entry other hne
    unfold coinOps
    split_ifs <;> simp [applyOp, hne]

theorem anchors_writeBatch_anchorOps (db : CCoinsViewDB)
    (m : KeyedMap Uint256 CAnchorsSaplingCacheEntry) (rt : Uint256) :
    (db.writeBatch (m.entries.flatMap fun entry => anchorOps env entry.1 entry.2)).saplingAnchors rt
      = (m.lookup rt).elim (db.saplingAnchors rt) fun entry =>
        if !entry.dirty then db.saplingAnchors rt else if !entry.entered then none
        else if rt = saplingEmptyRoot env.hash then db.saplingAnchors rt else some entry.tree := by
  unfold writeBatch
  rw [foldl_flatMap]
  refine foldl_entries CCoinsViewDB.saplingAnchors
    (fun db rt entry => (anchorOps env rt entry).foldl applyOp db)
    (fun rt entry tree => if !entry.dirty then tree
      else if !entry.entered then none
      else if rt = saplingEmptyRoot env.hash then tree
      else some entry.tree) ?_ ?_ m db rt
  · intro db rt entry
    unfold anchorOps
    by_cases hdirty : entry.dirty <;> by_cases hentered : entry.entered <;>
      by_cases hroot : rt = saplingEmptyRoot env.hash <;>
      simp [applyOp, hdirty, hentered, hroot]
  · intro db rt entry other hne
    unfold anchorOps
    split_ifs <;> simp [applyOp, hne]

theorem nullifiers_writeBatch_nullifierOps
    (m : KeyedMap Uint256 CNullifiersCacheEntry) (nf : Uint256) : (db.writeBatch (m.entries.flatMap
        fun entry => nullifierOps entry.1 entry.2)).getNullifier nf
      = (m.lookup nf).elim (db.getNullifier nf) fun entry =>
        if entry.dirty then entry.entered else db.getNullifier nf := by
  unfold writeBatch
  rw [foldl_flatMap]
  refine foldl_entries CCoinsViewDB.getNullifier
    (fun db nf entry => (nullifierOps nf entry).foldl applyOp db)
    (fun _ entry spent => if entry.dirty then entry.entered else spent)
    ?_ ?_ m db nf
  · intro db nf entry
    unfold nullifierOps
    by_cases hdirty : entry.dirty <;> by_cases hentered : entry.entered <;>
      simp [applyOp, getNullifier, hdirty, hentered]
  · intro db nf entry other hne
    unfold nullifierOps
    split_ifs <;> simp [applyOp, getNullifier, hne]

theorem writeBatch_flushOps (child : CCoinsViewCache) (db : CCoinsViewDB) (oldTip : Uint256) :
    let db' := db.writeBatch (flushOps env child oldTip)
    (∀ outpoint, db'.coins outpoint
      = (child.cacheCoins.lookup outpoint).elim (db.coins outpoint) fun entry =>
        if entry.dirty then entry.coin.unspent else db.coins outpoint) ∧
    (∀ rt, db'.saplingAnchors rt = (child.cacheSaplingAnchors.lookup rt).elim (db.saplingAnchors rt)
        fun entry => if !entry.dirty then db.saplingAnchors rt
          else if !entry.entered then none
          else if rt = saplingEmptyRoot env.hash then db.saplingAnchors rt
          else some entry.tree) ∧
    (∀ nf, db'.getNullifier nf = (child.cacheSaplingNullifiers.lookup nf).elim (db.getNullifier nf)
        fun entry => if entry.dirty then entry.entered
          else db.getNullifier nf) ∧
    (db'.bestSaplingAnchor = if child.hashSaplingAnchor = 0 then
      db.bestSaplingAnchor else some child.hashSaplingAnchor) ∧
    db'.bestBlock = some child.hashBlock ∧ db'.headBlocks = none := by
  have hcoinOps : ∀ op ∈ child.cacheCoins.entries.flatMap
      (fun entry => coinOps entry.1 entry.2), part op = .coins := by
    intro op hop
    obtain ⟨entry, -, hop⟩ := mem_flatMap.mp hop
    unfold coinOps at hop
    split_ifs at hop <;> simp_all [part]
  have hanchorOps : ∀ op ∈ child.cacheSaplingAnchors.entries.flatMap
      (fun entry => anchorOps env entry.1 entry.2), part op = .anchors := by
    intro op hop
    obtain ⟨entry, -, hop⟩ := mem_flatMap.mp hop
    unfold anchorOps at hop
    split_ifs at hop <;> simp_all [part]
  have hnullifierOps : ∀ op ∈ child.cacheSaplingNullifiers.entries.flatMap
      (fun entry => nullifierOps entry.1 entry.2), part op = .nullifiers := by
    intro op hop
    obtain ⟨entry, -, hop⟩ := mem_flatMap.mp hop
    unfold nullifierOps at hop
    split_ifs at hop <;> simp_all [part]
  have hbestOps : ∀ op ∈ (if child.hashSaplingAnchor ≠ 0 then
      [DbOp.putBestSaplingAnchor child.hashSaplingAnchor] else []),
      part op = .bestAnchor := by
    intro op hop
    split_ifs at hop <;> simp_all [part]
  simp only [flushOps, saplingOps, writeBatch_append]
  -- each part is read after the writes to it
  have hcoins := writeBatch_frame hcoinOps
  have hanchors := writeBatch_frame hanchorOps
  have hnullifiers := writeBatch_frame hnullifierOps
  have hbest := writeBatch_frame hbestOps
  have hfirst : ∀ db : CCoinsViewDB, db.writeBatch
      [.eraseBestBlock, .putHeadBlocks [child.hashBlock, oldTip]]
        = { db with bestBlock := none, headBlocks := some [child.hashBlock, oldTip] } :=
    fun _ => rfl
  have hlast : ∀ db : CCoinsViewDB, db.writeBatch [.eraseHeadBlocks, .putBestBlock child.hashBlock]
        = { db with bestBlock := some child.hashBlock, headBlocks := none } :=
    fun _ => rfl
  rw [hfirst, hlast]
  refine ⟨fun outpoint => ?_, fun rt => ?_, fun nf => ?_, ?_, rfl, rfl⟩
  · dsimp only
    rw [(hbest _).1 (by decide), (hnullifiers _).1 (by decide), (hanchors _).1 (by decide),
      coins_writeBatch_coinOps]
  · dsimp only
    rw [(hbest _).2.1 (by decide), (hnullifiers _).2.1 (by decide), anchors_writeBatch_anchorOps,
      (hcoins _).2.1 (by decide)]
  · have hbefore : ∀ {db₁ db₂ : CCoinsViewDB}, db₁.saplingNullifiers = db₂.saplingNullifiers →
        db₁.getNullifier nf = db₂.getNullifier nf :=
      fun h => congrArg (fun f => (f nf).getD false) h
    refine (hbefore ((hbest _).2.2.1 (by decide))).trans ?_
    rw [nullifiers_writeBatch_nullifierOps,
      hbefore ((hanchors _).2.2.1 (by decide)), hbefore ((hcoins _).2.2.1 (by decide))]
    rfl
  · have hbefore := ((hnullifiers _).2.2.2 (by decide)).trans
      (((hanchors _).2.2.2 (by decide)).trans ((hcoins { db with
        bestBlock := none
        headBlocks := some [child.hashBlock, oldTip] }).2.2.2 (by decide)))
    by_cases hnull : child.hashSaplingAnchor = 0
    · simpa [hnull, writeBatch] using hbefore
    · rw [if_pos hnull, if_neg hnull]
      rfl

end CCoinsViewDB

end KorshCore

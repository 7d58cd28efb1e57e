import KorshCore.Coins.Database
import KorshCore.Lib.Machine

/-!
# Stacks of coins caches

The methods of `CCoinsViewCache` that reach into the base: reads, which fill
the caches they pass, and `Flush` and `Sync`, which write the top cache into
the layer below it.

A `CoinsStack` is the chain of caches that a cache heads, top first, with the
database at its end.
-/

namespace KorshCore

open CCoinsViewCache Except

structure CoinsStack where
  caches : List CCoinsViewCache
  db : CCoinsViewDB

namespace CCoinsViewCache

/-! ## Reads -/

/-- `FetchCoin`. `below` is what `base->GetCoin` answers and leaves of the
caches of the base. -/
def fetchCoin (cache : CCoinsViewCache) (outpoint : COutPoint)
    (base : List CCoinsViewCache) (below : Option Coin × List CCoinsViewCache) :
    Option CCoinsCacheEntry × List CCoinsViewCache :=
  match cache.cacheCoins.lookup outpoint with
  | some entry => (some entry, cache :: base)
  | none =>
    match below with
    | (none, base) => (none, cache :: base)
    | (some coin, base) =>
      -- the base only has an empty entry if the coin it gave is spent
      let entry : CCoinsCacheEntry := ⟨coin, false, coin.isSpent⟩
      (some entry, cache.emplaceCoin outpoint entry :: base)

/-- `GetCoin`: the coin if the answer is true. -/
def getCoin (db : CCoinsViewDB) (outpoint : COutPoint) :
    List CCoinsViewCache → Option Coin × List CCoinsViewCache
  | [] => (db.coins outpoint, [])
  | cache :: base =>
    let (entry, caches) :=
      cache.fetchCoin outpoint base (getCoin db outpoint base)
    (entry.bind fun entry => entry.coin.unspent, caches)

/-- `GetSaplingAnchorAt`: the tree if the answer is true. -/
def getSaplingAnchorAt (env : CoinsEnv) (db : CCoinsViewDB) (rt : Uint256) :
    List CCoinsViewCache → Option IncrementalMerkleTree × List CCoinsViewCache
  | [] => (db.getSaplingAnchorAt env rt, [])
  | cache :: base =>
    match cache.cacheSaplingAnchors.lookup rt with
    | some entry => (if entry.entered then some entry.tree else none, cache :: base)
    | none =>
      match getSaplingAnchorAt env db rt base with
      | (none, base) => (none, cache :: base)
      | (some tree, base) =>
        (some tree, { cache with
          cacheSaplingAnchors :=
            cache.cacheSaplingAnchors.insert rt ⟨true, tree, false⟩
          cachedCoinsUsage :=
            cache.cachedCoinsUsage + .ofNat 64 tree.dynamicMemoryUsage } :: base)

def getNullifier (db : CCoinsViewDB) (nullifier : Uint256) :
    List CCoinsViewCache → Bool × List CCoinsViewCache
  | [] => (db.getNullifier nullifier, [])
  | cache :: base =>
    match cache.cacheSaplingNullifiers.lookup nullifier with
    | some entry => (entry.entered, cache :: base)
    | none =>
      let (entered, base) := getNullifier db nullifier base
      (entered, { cache with cacheSaplingNullifiers :=
        cache.cacheSaplingNullifiers.insert nullifier ⟨entered, false⟩ } :: base)

def getBestAnchor (env : CoinsEnv) (db : CCoinsViewDB) :
    List CCoinsViewCache → Uint256 × List CCoinsViewCache
  | [] => (db.getBestAnchor env, [])
  | cache :: base =>
    if cache.hashSaplingAnchor = 0 then
      let (hash, base) := getBestAnchor env db base
      (hash, { cache with hashSaplingAnchor := hash } :: base)
    else (cache.hashSaplingAnchor, cache :: base)

def getBestBlock (db : CCoinsViewDB) : List CCoinsViewCache → Uint256 × List CCoinsViewCache
  | [] => (db.getBestBlock, [])
  | cache :: base =>
    if cache.hashBlock = 0 then
      let (hash, base) := getBestBlock db base
      (hash, { cache with hashBlock := hash } :: base)
    else (cache.hashBlock, cache :: base)

/-! ## Updates that read first -/

/-- `SpendCoin`: the coin that is moved out if the answer is true. -/
def spendCoin (db : CCoinsViewDB) (outpoint : COutPoint)
    (cache : CCoinsViewCache) (base : List CCoinsViewCache) : Option Coin × List CCoinsViewCache :=
  match cache.fetchCoin outpoint base (getCoin db outpoint base) with
  | (some entry, cache :: base) =>
    (some entry.coin, cache.spendEntry outpoint entry :: base)
  | (_, caches) => (none, caches)

def enterAnchor (cache : CCoinsViewCache) (newRoot : Uint256)
    (tree : IncrementalMerkleTree) : CCoinsViewCache :=
  { cache with
    cacheSaplingAnchors :=
      cache.cacheSaplingAnchors.insert newRoot ⟨true, tree, true⟩
    cachedCoinsUsage := cache.cachedCoinsUsage
      - anchorUsage (cache.cacheSaplingAnchors.lookup newRoot)
      + .ofNat 64 tree.dynamicMemoryUsage
    hashSaplingAnchor := newRoot }

def pushAnchor (env : CoinsEnv) (db : CCoinsViewDB)
    (tree : IncrementalMerkleTree) (caches : List CCoinsViewCache) : List CCoinsViewCache :=
  let newRoot := tree.root env.hash
  match getBestAnchor env db caches with
  | (currentRoot, cache :: base) =>
    if currentRoot = newRoot then cache :: base
    else cache.enterAnchor newRoot tree :: base
  | (_, []) => []

def removeAnchor (cache : CCoinsViewCache) (currentRoot newrt : Uint256)
    (tree : IncrementalMerkleTree) : CCoinsViewCache :=
  { cache with
    cacheSaplingAnchors := cache.cacheSaplingAnchors.insert currentRoot
      ⟨false, ((cache.cacheSaplingAnchors.lookup currentRoot).map
        CAnchorsSaplingCacheEntry.tree).getD tree, true⟩
    hashSaplingAnchor := newrt }

def popAnchor (env : CoinsEnv) (db : CCoinsViewDB) (newrt : Uint256)
    (caches : List CCoinsViewCache) : Except CoinsError (List CCoinsViewCache) :=
  let (currentRoot, caches) := getBestAnchor env db caches
  if currentRoot = newrt then .ok caches
  else
    match getSaplingAnchorAt env db currentRoot caches with
    | (some tree, cache :: base) =>
      .ok (cache.removeAnchor currentRoot newrt tree :: base)
    | _ => .error .assertAnchor

end CCoinsViewCache

namespace CoinsStack

open CCoinsViewCache

def writeBack (env : CoinsEnv) (overCache overDatabase : CCoinsViewCache → CCoinsViewCache) :
    CoinsStack → Except CoinsError CoinsStack
  | ⟨[], db⟩ => .ok ⟨[], db⟩
  | ⟨[cache], db⟩ => do
    let db ← db.batchWrite env cache
    .ok ⟨[overDatabase cache], db⟩
  | ⟨cache :: parent :: base, db⟩ => do
    let parent ← cache.batchWrite parent
    .ok ⟨overCache cache :: parent :: base, db⟩

theorem writeBack_eq_ok {env : CoinsEnv}
    {overCache overDatabase : CCoinsViewCache → CCoinsViewCache}
    {cache : CCoinsViewCache} {base : List CCoinsViewCache} {db : CCoinsViewDB} {stack : CoinsStack}
    (h : writeBack env overCache overDatabase ⟨cache :: base, db⟩ = .ok stack) :
    (base = [] ∧ ∃ db', db.batchWrite env cache = .ok db' ∧ stack = ⟨[overDatabase cache], db'⟩) ∨
    ∃ parent rest parent', base = parent :: rest ∧ cache.batchWrite parent = .ok parent' ∧
      stack = ⟨overCache cache :: parent' :: rest, db⟩ := by
  cases base with
  | nil =>
    obtain ⟨db', hwrite, hrest⟩ := bind_eq_ok_iff.mp h
    exact .inl ⟨rfl, db', hwrite, (ok.inj hrest).symm⟩
  | cons parent rest =>
    obtain ⟨parent', hwrite, hrest⟩ := bind_eq_ok_iff.mp h
    exact .inr ⟨parent, rest, parent', rfl, hwrite, (ok.inj hrest).symm⟩

def flush (env : CoinsEnv) : CoinsStack → Except CoinsError CoinsStack :=
  writeBack env CCoinsViewCache.flushed CCoinsViewCache.flushed

def sync (env : CoinsEnv) : CoinsStack → Except CoinsError CoinsStack :=
  writeBack env CCoinsViewCache.syncedOverCache CCoinsViewCache.syncedOverDatabase

/-- `Flush` of the top cache, which then goes out of scope. -/
def flushTop (env : CoinsEnv) (stack : CoinsStack) : Except CoinsError CoinsStack := do
  let stack ← flush env stack
  .ok ⟨stack.caches.tail, stack.db⟩

def flushDown (env : CoinsEnv) : Nat → CoinsStack → Except CoinsError CCoinsViewDB
  | 0, stack => .ok stack.db
  | n + 1, stack => do
    let stack ← flushTop env stack
    flushDown env n stack

/-- `Flush` of every cache, the top one first. -/
def flushAll (env : CoinsEnv) (stack : CoinsStack) : Except CoinsError CCoinsViewDB :=
  flushDown env stack.caches.length stack

end CoinsStack

/-! ## Calls on the top cache -/

inductive CoinsOp where
  | addCoin (outpoint : COutPoint) (coin : Coin) (possibleOverwrite : Bool)
  | spendCoin (outpoint : COutPoint)
  | getCoin (outpoint : COutPoint)
  | haveCoin (outpoint : COutPoint)
  | uncache (outpoint : COutPoint)
  | setNullifiers (tx : CTransaction) (spent : Bool)
  | getNullifier (nullifier : Uint256)
  | pushAnchor (tree : IncrementalMerkleTree)
  | popAnchor (newrt : Uint256)
  | getSaplingAnchorAt (rt : Uint256)
  | getBestAnchor
  | setBestBlock (hashBlock : Uint256)
  | getBestBlock
  | flush
  | sync

inductive CoinsAnswer where
  | done
  | flag (answer : Bool)
  | coin (answer : Option Coin)
  | tree (answer : Option IncrementalMerkleTree)
  | hash (answer : Uint256)
  deriving DecidableEq

namespace CoinsStack

open CCoinsViewCache

def stepTop (env : CoinsEnv) (db : CCoinsViewDB) (cache : CCoinsViewCache)
    (base : List CCoinsViewCache) : CoinsOp → Except CoinsError (CoinsAnswer × CoinsStack)
  | .addCoin outpoint coin possibleOverwrite =>
    match cache.addCoin outpoint coin possibleOverwrite with
    | (_, some e) => .error e
    | (cache, none) => .ok (.done, ⟨cache :: base, db⟩)
  | .spendCoin outpoint =>
    let (coin, caches) := CCoinsViewCache.spendCoin db outpoint cache base
    .ok (.coin coin, ⟨caches, db⟩)
  | .getCoin outpoint =>
    let (coin, caches) := CCoinsViewCache.getCoin db outpoint (cache :: base)
    .ok (.coin coin, ⟨caches, db⟩)
  | .haveCoin outpoint =>
    let (coin, caches) := CCoinsViewCache.getCoin db outpoint (cache :: base)
    .ok (.flag coin.isSome, ⟨caches, db⟩)
  | .uncache outpoint => .ok (.done, ⟨cache.uncache outpoint :: base, db⟩)
  | .setNullifiers tx spent =>
    .ok (.done, ⟨cache.setNullifiers tx spent :: base, db⟩)
  | .getNullifier nullifier =>
    let (spent, caches) :=
      CCoinsViewCache.getNullifier db nullifier (cache :: base)
    .ok (.flag spent, ⟨caches, db⟩)
  | .pushAnchor tree =>
    .ok (.done, ⟨CCoinsViewCache.pushAnchor env db tree (cache :: base), db⟩)
  | .popAnchor newrt => do
    let caches ← CCoinsViewCache.popAnchor env db newrt (cache :: base)
    .ok (.done, ⟨caches, db⟩)
  | .getSaplingAnchorAt rt =>
    let (tree, caches) :=
      CCoinsViewCache.getSaplingAnchorAt env db rt (cache :: base)
    .ok (.tree tree, ⟨caches, db⟩)
  | .getBestAnchor =>
    let (hash, caches) :=
      CCoinsViewCache.getBestAnchor env db (cache :: base)
    .ok (.hash hash, ⟨caches, db⟩)
  | .setBestBlock hashBlock =>
    .ok (.done, ⟨cache.setBestBlock hashBlock :: base, db⟩)
  | .getBestBlock =>
    let (hash, caches) := CCoinsViewCache.getBestBlock db (cache :: base)
    .ok (.hash hash, ⟨caches, db⟩)
  | .flush => do
    let stack ← flush env ⟨cache :: base, db⟩
    .ok (.done, stack)
  | .sync => do
    let stack ← sync env ⟨cache :: base, db⟩
    .ok (.done, stack)

theorem stepTop_eq_ok {env : CoinsEnv} {db : CCoinsViewDB}
    {cache : CCoinsViewCache} {base : List CCoinsViewCache} {op : CoinsOp}
    {answer : CoinsAnswer} {stack : CoinsStack}
    (h : stepTop env db cache base op = .ok (answer, stack)) :
    match op with
    | .addCoin outpoint coin possibleOverwrite => ∃ cache',
      cache.addCoin outpoint coin possibleOverwrite = (cache', none) ∧
      answer = .done ∧ stack = ⟨cache' :: base, db⟩
    | .spendCoin outpoint =>
      answer = .coin (spendCoin db outpoint cache base).1 ∧
      stack = ⟨(spendCoin db outpoint cache base).2, db⟩
    | .getCoin outpoint =>
      answer = .coin (getCoin db outpoint (cache :: base)).1 ∧
      stack = ⟨(getCoin db outpoint (cache :: base)).2, db⟩
    | .haveCoin outpoint =>
      answer = .flag (getCoin db outpoint (cache :: base)).1.isSome ∧
      stack = ⟨(getCoin db outpoint (cache :: base)).2, db⟩
    | .uncache outpoint => answer = .done ∧ stack = ⟨cache.uncache outpoint :: base, db⟩
    | .setNullifiers tx spent => answer = .done ∧ stack = ⟨cache.setNullifiers tx spent :: base, db⟩
    | .getNullifier nf =>
      answer = .flag (getNullifier db nf (cache :: base)).1 ∧
      stack = ⟨(getNullifier db nf (cache :: base)).2, db⟩
    | .pushAnchor tree => answer = .done ∧ stack = ⟨pushAnchor env db tree (cache :: base), db⟩
    | .popAnchor newrt => ∃ caches, popAnchor env db newrt (cache :: base) = .ok caches ∧
      answer = .done ∧ stack = ⟨caches, db⟩
    | .getSaplingAnchorAt rt =>
      answer = .tree (getSaplingAnchorAt env db rt (cache :: base)).1 ∧
      stack = ⟨(getSaplingAnchorAt env db rt (cache :: base)).2, db⟩
    | .getBestAnchor =>
      answer = .hash (getBestAnchor env db (cache :: base)).1 ∧
      stack = ⟨(getBestAnchor env db (cache :: base)).2, db⟩
    | .setBestBlock hashBlock => answer = .done ∧ stack = ⟨cache.setBestBlock hashBlock :: base, db⟩
    | .getBestBlock =>
      answer = .hash (getBestBlock db (cache :: base)).1 ∧
      stack = ⟨(getBestBlock db (cache :: base)).2, db⟩
    | .flush => answer = .done ∧ flush env ⟨cache :: base, db⟩ = .ok stack
    | .sync => answer = .done ∧ sync env ⟨cache :: base, db⟩ = .ok stack := by
  cases op with
  | addCoin outpoint coin possibleOverwrite =>
    rcases hadd : cache.addCoin outpoint coin possibleOverwrite with ⟨cache', e⟩
    simp only [stepTop, hadd] at h
    cases e with
    | none =>
      cases h
      exact ⟨cache', hadd, rfl, rfl⟩
    | some e => cases h
  | popAnchor newrt =>
    obtain ⟨caches, hpop, hrest⟩ := bind_eq_ok_iff.mp h
    cases hrest
    exact ⟨caches, hpop, rfl, rfl⟩
  | flush =>
    obtain ⟨stack', hflush, hrest⟩ := bind_eq_ok_iff.mp h
    cases hrest
    exact ⟨rfl, hflush⟩
  | sync =>
    obtain ⟨stack', hsync, hrest⟩ := bind_eq_ok_iff.mp h
    cases hrest
    exact ⟨rfl, hsync⟩
  | _ =>
    obtain ⟨hanswer, hstack⟩ := Prod.mk.inj (ok.inj h)
    exact ⟨hanswer.symm, hstack.symm⟩

def step (env : CoinsEnv) (op : CoinsOp) : CoinsStack → Except CoinsError (CoinsAnswer × CoinsStack)
  | ⟨[], db⟩ => .ok (.done, ⟨[], db⟩)
  | ⟨cache :: base, db⟩ => stepTop env db cache base op

def run (env : CoinsEnv) : List CoinsOp → CoinsStack →
    Except CoinsError (List CoinsAnswer × CoinsStack) :=
  Machine.run (step env)

end CoinsStack

end KorshCore

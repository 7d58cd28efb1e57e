import KorshCore.Lib.KeyedMap
import KorshCore.Sapling.IncrementalMerkleTree

/-!
# One layer of the coins cache

The data of a `CCoinsViewCache` and the parts of its methods that touch no
other layer.

An entry's `flags` are the two booleans `dirty` and `fresh`. Maps are
`KeyedMap`s, so the loops of `BatchWrite` visit their entries in whatever order
the map has.
-/

namespace KorshCore

/-- How a coins view can stop: the assertions and the logic errors of
`coins.cpp` and `txdb.cpp`. -/
inductive CoinsError where
  /-- `assert(!coin.IsSpent())` of `AddCoin`. -/
  | assertNotSpent
  /-- "Attempted to overwrite an unspent coin (when possible_overwrite is
  false)". -/
  | overwriteUnspent
  /-- "FRESH flag misapplied to coin that exists in parent cache". -/
  | freshMisapplied
  /-- `assert(!hashBlock.IsNull())` of the database. -/
  | assertHashBlock
  /-- `assert(old_heads[0] == hashBlock)` of the database. -/
  | assertHeadBlocks
  /-- The assertion of `PopAnchor` that the current tree is known. -/
  | assertAnchor
  deriving DecidableEq, Repr

/-- `memusage::MallocUsage` on a 64-bit platform. -/
def mallocUsage (alloc : Nat) : Nat :=
  if alloc = 0 then 0 else (alloc + 31) / 16 * 16

/-- `Coin::DynamicMemoryUsage`: a script of up to 28 bytes is stored in
place, a longer one in an allocation of its size. -/
def Coin.dynamicMemoryUsage (coin : Coin) : Nat :=
  if coin.out.scriptPubKey.length ≤ 28 then 0
  else mallocUsage coin.out.scriptPubKey.length

/-! ## Entries and caches -/

structure CCoinsCacheEntry where
  coin : Coin
  dirty : Bool
  fresh : Bool
  deriving DecidableEq, Repr

structure CAnchorsSaplingCacheEntry where
  entered : Bool
  tree : IncrementalMerkleTree
  dirty : Bool
  deriving DecidableEq, Repr

structure CNullifiersCacheEntry where
  entered : Bool
  dirty : Bool
  deriving DecidableEq, Repr

/-- `CCoinsViewCache`, without its base. A null `hashBlock` or
`hashSaplingAnchor` has not been read from the base yet. -/
structure CCoinsViewCache where
  hashBlock : Uint256
  cacheCoins : KeyedMap COutPoint CCoinsCacheEntry
  hashSaplingAnchor : Uint256
  cacheSaplingAnchors : KeyedMap Uint256 CAnchorsSaplingCacheEntry
  cacheSaplingNullifiers : KeyedMap Uint256 CNullifiersCacheEntry
  cachedCoinsUsage : BitVec 64

namespace CCoinsViewCache

def new : CCoinsViewCache := ⟨0, ∅, 0, ∅, ∅, 0⟩

/-- Put `entry` at `outpoint` and count its memory. -/
def emplaceCoin (cache : CCoinsViewCache) (outpoint : COutPoint)
    (entry : CCoinsCacheEntry) : CCoinsViewCache :=
  { cache with
    cacheCoins := cache.cacheCoins.insert outpoint entry
    cachedCoinsUsage :=
      cache.cachedCoinsUsage + .ofNat 64 entry.coin.dynamicMemoryUsage }

/-- `AddCoin`, with the exception it ends with. The memory of the old coin
is no longer counted when the exception is thrown. -/
def addCoin (cache : CCoinsViewCache) (outpoint : COutPoint) (coin : Coin)
    (possibleOverwrite : Bool) : CCoinsViewCache × Option CoinsError :=
  if coin.isSpent then (cache, some .assertNotSpent)
  else if isUnspendable coin.out.scriptPubKey then (cache, none)
  else
    let entry := (cache.cacheCoins.lookup outpoint).getD ⟨Coin.cleared, false, false⟩
    let cache := { cache with cachedCoinsUsage :=
      cache.cachedCoinsUsage - .ofNat 64 entry.coin.dynamicMemoryUsage }
    if !possibleOverwrite && !entry.coin.isSpent then (cache, some .overwriteUnspent)
    else
      -- a spent coin that is not dirty was never flushed as unspent
      let fresh := !possibleOverwrite && !entry.dirty
      (cache.emplaceCoin outpoint ⟨coin, true, entry.fresh || fresh⟩, none)

/-- The second half of `SpendCoin`: spend the entry that was fetched. -/
def spendEntry (cache : CCoinsViewCache) (outpoint : COutPoint)
    (entry : CCoinsCacheEntry) : CCoinsViewCache :=
  let usage :=
    cache.cachedCoinsUsage - .ofNat 64 entry.coin.dynamicMemoryUsage
  if entry.fresh then { cache with
      cacheCoins := cache.cacheCoins.erase outpoint
      cachedCoinsUsage := usage }
  else { cache with
      cacheCoins := cache.cacheCoins.insert outpoint ⟨Coin.cleared, true, false⟩
      cachedCoinsUsage := usage }

def uncache (cache : CCoinsViewCache) (outpoint : COutPoint) : CCoinsViewCache :=
  match cache.cacheCoins.lookup outpoint with
  | none => cache
  | some entry =>
    if !entry.dirty && !entry.fresh then { cache with
        cacheCoins := cache.cacheCoins.erase outpoint
        cachedCoinsUsage := cache.cachedCoinsUsage - .ofNat 64 entry.coin.dynamicMemoryUsage }
    else cache

def setBestBlock (cache : CCoinsViewCache) (hashBlockIn : Uint256) : CCoinsViewCache :=
  { cache with hashBlock := hashBlockIn }

/-- The body of the loop of `SetNullifiers`. -/
def setNullifier (cache : CCoinsViewCache) (nullifier : Uint256) (spent : Bool) : CCoinsViewCache :=
  { cache with cacheSaplingNullifiers :=
      cache.cacheSaplingNullifiers.insert nullifier ⟨spent, true⟩ }

def setNullifiers (cache : CCoinsViewCache) (tx : CTransaction) (spent : Bool) : CCoinsViewCache :=
  if !tx.hasShieldedPayloadField then cache
  else tx.sapData.vShieldedSpend.foldl
    (fun cache spend => cache.setNullifier spend.nullifier spent) cache

/-! ## Writing the layer above into this one -/

/-- A turn of the loop of `BatchWrite` over the coins: what becomes of our
entry when the child has `child` for the same outpoint. -/
def mergeCoin (ours : Option CCoinsCacheEntry) (child : CCoinsCacheEntry) :
    Except CoinsError (Option CCoinsCacheEntry) :=
  if !child.dirty then .ok ours
  else match ours with
    | none =>
      if child.fresh && child.coin.isSpent then .ok none
      else .ok (some ⟨child.coin, true, child.fresh⟩)
    | some us =>
      if child.fresh && !us.coin.isSpent then .error .freshMisapplied
      else if us.fresh && child.coin.isSpent then
        -- the grandparent does not have the coin either
        .ok none
      else .ok (some ⟨child.coin, true, us.fresh⟩)

/-- A turn of `BatchWriteAnchors`. -/
def mergeAnchor (ours : Option CAnchorsSaplingCacheEntry) (child : CAnchorsSaplingCacheEntry) :
    Except CoinsError (Option CAnchorsSaplingCacheEntry) :=
  if !child.dirty then .ok ours
  else match ours with
    | none => .ok (some ⟨child.entered, child.tree, true⟩)
    | some us =>
      let updateTree := child.entered && us.tree != child.tree
      if us.entered != child.entered || updateTree then
        .ok (some ⟨child.entered, if updateTree then child.tree else us.tree, true⟩)
      else .ok (some us)

/-- A turn of `BatchWriteNullifiers`. -/
def mergeNullifier (ours : Option CNullifiersCacheEntry) (child : CNullifiersCacheEntry) :
    Except CoinsError (Option CNullifiersCacheEntry) :=
  if !child.dirty then .ok ours
  else match ours with
    | none => .ok (some ⟨child.entered, true⟩)
    | some us =>
      if us.entered != child.entered then .ok (some ⟨child.entered, true⟩)
      else .ok (some us)

def coinUsage : Option CCoinsCacheEntry → BitVec 64
  | none => 0
  | some entry => .ofNat 64 entry.coin.dynamicMemoryUsage

def anchorUsage : Option CAnchorsSaplingCacheEntry → BitVec 64
  | none => 0
  | some entry => .ofNat 64 entry.tree.dynamicMemoryUsage

/-- `BatchWrite`: write the maps of `child`, the layer above, into `cache`.
The best block and the best anchor are taken over whatever they are. -/
def batchWrite (child cache : CCoinsViewCache) : Except CoinsError CCoinsViewCache := do
  let (coins, usage) ← child.cacheCoins.mergeM mergeCoin
    (fun old new usage => usage - coinUsage old + coinUsage new)
    (cache.cacheCoins, cache.cachedCoinsUsage)
  let (anchors, usage) ← child.cacheSaplingAnchors.mergeM mergeAnchor
    (fun old new usage => usage - anchorUsage old + anchorUsage new)
    (cache.cacheSaplingAnchors, usage)
  let (nullifiers, _) ← child.cacheSaplingNullifiers.mergeM mergeNullifier
    (fun _ _ u => u) (cache.cacheSaplingNullifiers, ())
  .ok ⟨child.hashBlock, coins, child.hashSaplingAnchor, anchors, nullifiers, usage⟩

/-- What `Flush` leaves of the child: the maps are erased by `BatchWrite`. -/
def flushed (child : CCoinsViewCache) : CCoinsViewCache :=
  { child with
    cacheCoins := ∅
    cacheSaplingAnchors := ∅
    cacheSaplingNullifiers := ∅
    cachedCoinsUsage := 0 }

/-- The loop of `Sync` over an entry: spent coins go, flags are cleared. -/
def syncedCoin (entry : CCoinsCacheEntry) : Option CCoinsCacheEntry :=
  if entry.coin.isSpent then none else some ⟨entry.coin, false, false⟩

def syncedUsage (child : CCoinsViewCache) : BitVec 64 :=
  child.cacheCoins.entries.foldl
    (fun usage entry => if entry.2.coin.isSpent then
      usage - .ofNat 64 entry.2.coin.dynamicMemoryUsage else usage)
    child.cachedCoinsUsage

/-- What `Sync` leaves of the child when its base is a cache. -/
def syncedOverCache (child : CCoinsViewCache) : CCoinsViewCache :=
  { child with
    cacheCoins := child.cacheCoins.filterMapValues syncedCoin
    cachedCoinsUsage := child.syncedUsage
    cacheSaplingAnchors := child.cacheSaplingAnchors.filterMapValues
      fun entry => some ⟨entry.entered, entry.tree, false⟩
    cacheSaplingNullifiers := child.cacheSaplingNullifiers.filterMapValues
      fun entry => some ⟨entry.entered, false⟩ }

/-- What `Sync` leaves of the child when its base is the database, which
erases the Sapling maps in any case. -/
def syncedOverDatabase (child : CCoinsViewCache) : CCoinsViewCache :=
  { child with
    cacheCoins := child.cacheCoins.filterMapValues syncedCoin
    cachedCoinsUsage := child.syncedUsage
    cacheSaplingAnchors := ∅
    cacheSaplingNullifiers := ∅ }

end CCoinsViewCache

end KorshCore

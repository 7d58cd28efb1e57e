import KorshCore.Mempool.Pool

/-!
# The maps of the memory pool

Every map of the pool is an index of `mapTx` in the sense of `SecondaryIndex`.
`Exact` says that all of them hold the entries of the transactions in the pool
and nothing else.
-/

namespace KorshCore

open Except SecondaryIndex List SpendDescription CTxIn CMempoolAddressDeltaKey
open Prod (fst snd)

namespace CTxMemPool

variable {env : MempoolEnv} {view : COutPoint → CTxOut} {dropped : List Uint256}
  {pool pool' : CTxMemPool} {hash : Uint256} {entry : CTxMemPoolEntry}

/-! ## Entries -/

/-- The entries about masternodes, if the managers are connected. -/
def proTxOf (env : MempoolEnv) (tx : CTransaction) : ProTxEntries :=
  if env.isConnected then (proTxEntries env tx).toOption.getD .none else .none

/-- What is erased with a transaction, if the managers are connected. -/
def erasedOf (env : MempoolEnv) (tx : CTransaction) : ProTxErased :=
  if env.isConnected then (proTxErased env tx).toOption.getD .none else .none

/-- The references of a transaction, without that of a registration to its own
collateral if it is dropped. -/
def refsOf (env : MempoolEnv) (dropped : List Uint256) (tx : CTransaction) :
    List (Uint256 × Uint256) :=
  (proTxOf env tx).refs.filter fun ref => ref.1 ≠ env.getHash tx ∨ ref.1 ∉ dropped

def deltasOf (env : MempoolEnv) (view : COutPoint → CTxOut) (entry : CTxMemPoolEntry) :
    List (CMempoolAddressDeltaKey × CMempoolAddressDelta) :=
  if env.fAddressIndex then addressDeltasOf env view entry else []

def spentOf (env : MempoolEnv) (view : COutPoint → CTxOut) (tx : CTransaction) :
    List (COutPoint × CSpentIndexValue) :=
  if env.fSpentIndex then spentInfosOf env view tx else []

def insertedDeltasOf (env : MempoolEnv) (view : COutPoint → CTxOut)
    (entry : CTxMemPoolEntry) : List (Uint256 × List CMempoolAddressDeltaKey) :=
  if env.fAddressIndex then [(env.getHash entry.tx, (addressDeltasOf env view entry).map fst)]
  else []

def insertedSpentOf (env : MempoolEnv) (view : COutPoint → CTxOut) (tx : CTransaction) :
    List (Uint256 × List COutPoint) :=
  if env.fSpentIndex then [(env.getHash tx, (spentInfosOf env view tx).map fst)]
  else []

/-- Transactions of which neither spends, reveals, registers or erases what the
other does. -/
structure TxApart (env : MempoolEnv) (a b : CTransaction) : Prop where
  hash : env.getHash a ≠ env.getHash b
  nextTx : Apart fst nextTxOf (fun tx => tx.vin.map prevout) a b
  nullifiers : Apart fst saplingNullifiersOf
    (fun tx => tx.sapData.vShieldedSpend.map nullifier) a b
  refs : Apart id (fun tx => (proTxOf env tx).refs) (fun tx => (erasedOf env tx).refs) a b
  addresses : Apart fst (fun tx => (proTxOf env tx).addresses)
    (fun tx => (erasedOf env tx).addresses) a b
  pubKeyIDs : Apart fst (fun tx => (proTxOf env tx).pubKeyIDs)
    (fun tx => (erasedOf env tx).pubKeyIDs) a b
  blsPubKeyHashes : Apart fst (fun tx => (proTxOf env tx).blsPubKeyHashes)
    (fun tx => (erasedOf env tx).blsPubKeyHashes) a b
  collaterals : Apart fst (fun tx => (proTxOf env tx).collaterals)
    (fun tx => (erasedOf env tx).collaterals) a b

theorem TxApart.symm {a b : CTransaction} (h : TxApart env a b) : TxApart env b a :=
  ⟨h.hash.symm, h.nextTx.symm, h.nullifiers.symm, h.refs.symm, h.addresses.symm,
    h.pubKeyIDs.symm, h.blsPubKeyHashes.symm, h.collaterals.symm⟩

/-- The maps hold the entries of the transactions in the pool and nothing else,
up to the references of dropped registrations. -/
structure Exact (env : MempoolEnv) (view : COutPoint → CTxOut)
    (dropped : List Uint256) (pool : CTxMemPool) : Prop where
  apart : pool.mapTx.Pairwise fun a b => TxApart env a.tx b.tx
  nextTx : Indexes (fun entry => nextTxOf entry.tx) pool.mapTx pool.mapNextTx
  nullifiers : Indexes (fun entry => saplingNullifiersOf entry.tx) pool.mapTx
    pool.mapSaplingNullifiers
  refs : Indexes (fun entry => refsOf env dropped entry.tx) pool.mapTx pool.mapProTxRefs
  addresses : Indexes (fun entry => (proTxOf env entry.tx).addresses) pool.mapTx
    pool.mapProTxAddresses
  pubKeyIDs : Indexes (fun entry => (proTxOf env entry.tx).pubKeyIDs) pool.mapTx
    pool.mapProTxPubKeyIDs
  blsPubKeyHashes : Indexes (fun entry => (proTxOf env entry.tx).blsPubKeyHashes)
    pool.mapTx pool.mapProTxBlsPubKeyHashes
  collaterals : Indexes (fun entry => (proTxOf env entry.tx).collaterals) pool.mapTx
    pool.mapProTxCollaterals
  expiry : Indexes (fun entry => (proTxOf env entry.tx).expiry) pool.mapTx pool.mapAssetUnlockExpiry
  address : Indexes (deltasOf env view) pool.mapTx pool.mapAddress
  addressInserted : Indexes (insertedDeltasOf env view) pool.mapTx pool.mapAddressInserted
  spent : Indexes (fun entry => spentOf env view entry.tx) pool.mapTx pool.mapSpent
  spentInserted : Indexes (fun entry => insertedSpentOf env view entry.tx) pool.mapTx
    pool.mapSpentInserted

theorem exact_new : Exact env view [] new :=
  ⟨.nil, .nil _, .nil _, .nil _, .nil _, .nil _, .nil _, .nil _, .nil _, .nil _, .nil _,
    .nil _, .nil _⟩

/-! ## What is erased with a transaction -/

/-- Every entry is among those that are erased. A reference names the transaction,
or is the only one of a registration; the expiry height and the collateral are
those of the transaction. -/
structure Covers (txHash : Uint256) (entries : ProTxEntries) (erased : ProTxErased) : Prop where
  refs : ∀ x ∈ entries.refs, x ∈ erased.refs
  addresses : ∀ x ∈ entries.addresses, x.1 ∈ erased.addresses
  pubKeyIDs : ∀ x ∈ entries.pubKeyIDs, x.1 ∈ erased.pubKeyIDs
  blsPubKeyHashes : ∀ x ∈ entries.blsPubKeyHashes, x.1 ∈ erased.blsPubKeyHashes
  collaterals : ∀ x ∈ entries.collaterals, x.1 ∈ erased.collaterals
  expiry : ∀ x ∈ entries.expiry, x.1 ∈ erased.expiry
  refHash : ∀ x ∈ entries.refs, x.2 = txHash ∨ x.1 = txHash ∧ entries.refs = [x]
  expiryHash : ∀ x ∈ entries.expiry, x.1 = txHash
  collateralHash : ∀ x ∈ entries.collaterals, x.2 = txHash
  single : entries.pubKeyIDs.length ≤ 1 ∧ entries.blsPubKeyHashes.length ≤ 1 ∧
    entries.collaterals.length ≤ 1 ∧ entries.expiry.length ≤ 1

theorem covers_none (txHash : Uint256) (erased : ProTxErased) : Covers txHash .none erased :=
  ⟨nofun, nofun, nofun, nofun, nofun, nofun, nofun, nofun, nofun,
    zero_le, zero_le, zero_le, zero_le⟩

theorem isNull_of_hash {o : COutPoint} (h : o.hash ≠ 0) : o.isNull = false := by
  rw [COutPoint.isNull, Bool.and_eq_false_iff]
  exact .inl (beq_eq_false_iff_ne.mpr h)

variable {tx : CTransaction}

theorem covers_register (htype : tx.nType = transactionProviderRegister)
    {entries : ProTxEntries} (hentries : proTxEntries env tx = .ok entries) :
    ∃ erased, proTxErased env tx = .ok erased ∧ Covers (env.getHash tx) entries erased := by
  unfold proTxEntries at hentries
  unfold proTxErased
  rw [if_pos htype] at hentries ⊢
  obtain ⟨proTx, hpayload, rfl⟩ := exists_of_ofOption_bind hentries
  rw [hpayload]
  refine ⟨_, rfl, fun x hx => ?_, fun x hx => ?_, fun x hx => ?_, fun x hx => ?_,
    fun x hx => ?_, nofun, fun x hx => ?_, nofun, fun x hx => ?_,
    le_rfl, le_rfl, le_rfl, zero_le⟩
  · split_ifs at hx with hhash
    · cases hx
    · rwa [isNull_of_hash hhash]
  · obtain ⟨entry, hentry, rfl⟩ := mem_map.mp hx
    exact hentry
  · rw [mem_singleton.mp hx]
    exact mem_singleton_self _
  · rw [mem_singleton.mp hx]
    exact mem_singleton_self _
  · rw [mem_singleton.mp hx]
    split_ifs <;> simp
  · split_ifs at hx ⊢ with hhash
    · cases hx
    · obtain rfl := mem_singleton.mp hx
      exact .inr ⟨rfl, rfl⟩
  · rw [mem_singleton.mp hx]

theorem covers_of_ok {entries : ProTxEntries} (hentries : proTxEntries env tx = .ok entries) :
    ∃ erased, proTxErased env tx = .ok erased ∧ Covers (env.getHash tx) entries erased := by
  by_cases htype : tx.nType = transactionProviderRegister
  · exact covers_register htype hentries
  unfold proTxEntries at hentries
  unfold proTxErased
  split_ifs at hentries ⊢
  · obtain ⟨proTx, hpayload, rfl⟩ := exists_of_ofOption_bind hentries
    rw [hpayload]
    refine ⟨_, rfl, fun x hx => hx, fun x hx => ?_, nofun, nofun, nofun, nofun,
      fun x hx => ?_, nofun, nofun, zero_le, zero_le, zero_le,
      zero_le⟩
    · obtain ⟨entry, hentry, rfl⟩ := mem_map.mp hx
      exact hentry
    · rw [mem_singleton.mp hx]
      exact .inl rfl
  · obtain ⟨proTx, hpayload, rfl⟩ := exists_of_ofOption_bind hentries
    rw [hpayload]
    refine ⟨_, rfl, fun x hx => hx, nofun, nofun, fun x hx => ?_, nofun, nofun,
      fun x hx => ?_, nofun, nofun, zero_le, le_rfl, zero_le, zero_le⟩
    · rw [mem_singleton.mp hx]
      exact mem_singleton_self _
    · rw [mem_singleton.mp hx]
      exact .inl rfl
  · obtain ⟨proTx, hpayload, rfl⟩ := exists_of_ofOption_bind hentries
    rw [hpayload]
    refine ⟨_, rfl, fun x hx => hx, nofun, nofun, nofun, nofun, nofun, fun x hx => ?_,
      nofun, nofun, zero_le, zero_le, zero_le, zero_le⟩
    rw [mem_singleton.mp hx]
    exact .inl rfl
  · obtain ⟨payload, -, rfl⟩ := exists_of_ofOption_bind hentries
    refine ⟨_, rfl, nofun, nofun, nofun, nofun, nofun, fun x hx => ?_, nofun,
      fun x hx => ?_, nofun, zero_le, zero_le, zero_le, le_rfl⟩
    · rw [mem_singleton.mp hx]
      exact mem_singleton_self _
    · rw [mem_singleton.mp hx]
  · cases hentries
    exact ⟨_, rfl, covers_none _ _⟩

theorem covers_proTxOf (env : MempoolEnv) (tx : CTransaction) :
    Covers (env.getHash tx) (proTxOf env tx) (erasedOf env tx) := by
  unfold proTxOf erasedOf
  split_ifs
  · cases hentries : proTxEntries env tx with
    | error e => exact covers_none _ _
    | ok entries =>
      obtain ⟨erased, herased, hcovers⟩ := covers_of_ok hentries
      rw [herased]
      exact hcovers
  · exact covers_none _ _

theorem mem_of_refsOf {x : Uint256 × Uint256} (hx : x ∈ refsOf env dropped tx) :
    x ∈ (proTxOf env tx).refs :=
  (mem_filter.mp hx).1

theorem hash_of_erased_expiry {k : Uint256} (hk : k ∈ (erasedOf env tx).expiry) :
    k = env.getHash tx := by
  unfold erasedOf at hk
  split_ifs at hk
  · cases herased : proTxErased env tx with
    | error e =>
      rw [herased] at hk
      cases hk
    | ok erased =>
      rw [herased] at hk
      unfold proTxErased at herased
      split_ifs at herased
      -- the types for masternodes erase none
      iterate 4
        · obtain ⟨_, _, rfl⟩ := exists_of_ofOption_bind herased
          cases hk
      · cases herased
        exact mem_singleton.mp hk
      · cases herased
        cases hk
  · cases hk

theorem TxApart.expiry {a b : CTransaction} (h : TxApart env a b) :
    Apart fst (fun tx => (proTxOf env tx).expiry) (fun tx => (erasedOf env tx).expiry) a b :=
  .of_names id (fun {tx x} => (covers_proTxOf env tx).expiryHash x) hash_of_erased_expiry h.hash

/-! ## Addresses -/

variable {x : CMempoolAddressDeltaKey × CMempoolAddressDelta}

theorem key_of_inputDelta {input : CTxIn × Nat} (h : inputDelta env view entry input = some x) :
    x.1.txHash = env.getHash entry.tx ∧ x.1.txIndex = input.2 ∧ x.1.txSpent = true := by
  obtain ⟨address, -, rfl⟩ := Option.map_eq_some_iff.mp h
  exact ⟨rfl, rfl, rfl⟩

theorem key_of_outputDelta {output : CTxOut × Nat} (h : outputDelta env entry output = some x) :
    x.1.txHash = env.getHash entry.tx ∧ x.1.txIndex = output.2 ∧ x.1.txSpent = false := by
  obtain ⟨address, -, rfl⟩ := Option.map_eq_some_iff.mp h
  exact ⟨rfl, rfl, rfl⟩

theorem txHash_of_deltas (hx : x ∈ deltasOf env view entry) :
    x.1.txHash = env.getHash entry.tx := by
  unfold deltasOf at hx
  split_ifs at hx
  · rcases mem_append.mp hx with hx | hx
    · obtain ⟨input, -, hx⟩ := mem_filterMap.mp hx
      exact (key_of_inputDelta hx).1
    · obtain ⟨output, -, hx⟩ := mem_filterMap.mp hx
      exact (key_of_outputDelta hx).1
  · cases hx

variable {a b : CTxMemPoolEntry}

theorem prevout_of_spent {x : COutPoint × CSpentIndexValue}
    (hx : x ∈ spentOf env view tx) : x.1 ∈ tx.vin.map prevout := by
  unfold spentOf spentInfosOf at hx
  split_ifs at hx
  · obtain ⟨input, hmem, hx⟩ := mem_filterMap.mp hx
    obtain ⟨address, -, rfl⟩ := Option.map_eq_some_iff.mp hx
    exact mem_map_of_mem (fst_mem_of_mem_zipIdx hmem)
  · cases hx

theorem TxApart.spent {a b : CTransaction} (h : TxApart env a b) :
    Apart fst (spentOf env view) (fun tx => (spentOf env view tx).map fst) a b := by
  have hne {a b : CTransaction} (h : TxApart env a b) (x)
      (hx : x ∈ spentOf env view a) : x.1 ∉ (spentOf env view b).map fst := by
    intro hmem
    obtain ⟨y, hy, heq⟩ := mem_map.mp hmem
    obtain ⟨txin, htxin, hprevout⟩ := mem_map.mp (prevout_of_spent hx)
    refine h.nextTx.1 (txin.prevout, a) (mem_map_of_mem htxin) ?_
    show txin.prevout ∈ b.vin.map prevout
    rw [hprevout, ← heq]
    exact prevout_of_spent hy
  exact ⟨hne h, hne h.symm⟩

theorem hash_of_insertedDeltas {x : Uint256 × List CMempoolAddressDeltaKey}
    (hx : x ∈ insertedDeltasOf env view entry) : x.1 = env.getHash entry.tx := by
  unfold insertedDeltasOf at hx
  split_ifs at hx
  · rw [mem_singleton.mp hx]
  · cases hx

theorem hash_of_insertedSpent {x : Uint256 × List COutPoint}
    (hx : x ∈ insertedSpentOf env view tx) : x.1 = env.getHash tx := by
  unfold insertedSpentOf at hx
  split_ifs at hx
  · rw [mem_singleton.mp hx]
  · cases hx

/-! ## Keys -/

abbrev EntryApart (env : MempoolEnv) (a b : CTxMemPoolEntry) : Prop := TxApart env a.tx b.tx

theorem keyed_nextTx : Keyed (EntryApart env) fst (fun e => nextTxOf e.tx)
    fun e => e.tx.vin.map prevout where
  own x hx := by
    obtain ⟨txin, htxin, rfl⟩ := mem_map.mp hx
    exact mem_map_of_mem htxin
  apart h := h.nextTx

theorem keyed_nullifiers : Keyed (EntryApart env) fst (fun e => saplingNullifiersOf e.tx)
    fun e => e.tx.sapData.vShieldedSpend.map nullifier where
  own x hx := by
    obtain ⟨spend, hspend, rfl⟩ := mem_map.mp hx
    exact mem_map_of_mem hspend
  apart h := h.nullifiers

theorem keyed_refs : Keyed (EntryApart env) id (fun e => refsOf env dropped e.tx)
    fun e => (erasedOf env e.tx).refs where
  own x hx := (covers_proTxOf env _).refs x (mem_of_refsOf hx)
  apart h := ⟨fun x hx => h.refs.1 x (mem_of_refsOf hx), fun x hx => h.refs.2 x (mem_of_refsOf hx)⟩

theorem keyed_addresses : Keyed (EntryApart env) fst (fun e => (proTxOf env e.tx).addresses)
    fun e => (erasedOf env e.tx).addresses :=
  ⟨(covers_proTxOf env _).addresses, TxApart.addresses⟩

theorem keyed_pubKeyIDs : Keyed (EntryApart env) fst (fun e => (proTxOf env e.tx).pubKeyIDs)
    fun e => (erasedOf env e.tx).pubKeyIDs :=
  ⟨(covers_proTxOf env _).pubKeyIDs, TxApart.pubKeyIDs⟩

theorem keyed_blsPubKeyHashes : Keyed (EntryApart env) fst
    (fun e => (proTxOf env e.tx).blsPubKeyHashes) fun e => (erasedOf env e.tx).blsPubKeyHashes :=
  ⟨(covers_proTxOf env _).blsPubKeyHashes, TxApart.blsPubKeyHashes⟩

theorem keyed_collaterals : Keyed (EntryApart env) fst (fun e => (proTxOf env e.tx).collaterals)
    fun e => (erasedOf env e.tx).collaterals :=
  ⟨(covers_proTxOf env _).collaterals, TxApart.collaterals⟩

theorem keyed_expiry : Keyed (EntryApart env) fst (fun e => (proTxOf env e.tx).expiry)
    fun e => (erasedOf env e.tx).expiry :=
  ⟨(covers_proTxOf env _).expiry, TxApart.expiry⟩

theorem keyed_deltas : Keyed (EntryApart env) fst (deltasOf env view)
    fun e => (deltasOf env view e).map fst := by
  refine ⟨fun _ => mem_map_of_mem, fun h => .of_names txHash txHash_of_deltas (fun hk => ?_) h.hash⟩
  obtain ⟨x, hx, rfl⟩ := mem_map.mp hk
  exact txHash_of_deltas hx

theorem keyed_spent : Keyed (EntryApart env) fst (fun e => spentOf env view e.tx)
    fun e => (spentOf env view e.tx).map fst :=
  ⟨fun _ => mem_map_of_mem, TxApart.spent⟩

theorem keyed_inserted {V : Type} {f : CTxMemPoolEntry → List (Uint256 × V)}
    (hf : ∀ {entry x}, x ∈ f entry → x.1 = env.getHash entry.tx) :
    Keyed (EntryApart env) fst f fun e => [env.getHash e.tx] where
  own _ hx := hf hx ▸ mem_singleton_self _
  apart h := .of_names id hf mem_singleton.mp h.hash

/-! ## Removing one transaction -/

theorem findTx_eq_some (h : pool.findTx env hash = some entry) :
    entry ∈ pool.mapTx ∧ env.getHash entry.tx = hash :=
  ⟨mem_of_find?_eq_some h, by simpa using find?_some h⟩

instance : Std.Symm fun a b : CTxMemPoolEntry => TxApart env a.tx b.tx :=
  ⟨fun _ _ => TxApart.symm⟩

theorem Exact.eq_of_hash (h : Exact env view dropped pool) (ha : a ∈ pool.mapTx)
    (hb : b ∈ pool.mapTx) (heq : env.getHash a.tx = env.getHash b.tx) : a = b := by
  by_contra hne
  exact (h.apart.forall ha hb hne).hash heq

theorem removeAddressIndex_eq (view : COutPoint → CTxOut) {items : List CTxMemPoolEntry}
    (hinserted : Indexes (insertedDeltasOf env view) items pool.mapAddressInserted)
    (haddress : Indexes (deltasOf env view) items pool.mapAddress) (hentry : entry ∈ items)
    (hunique : ∀ b ∈ items, env.getHash b.tx = env.getHash entry.tx → b = entry) :
    removeAddressIndex (env.getHash entry.tx) pool = { pool with
      mapAddress := eraseKeys pool.mapAddress ((deltasOf env view entry).map fst)
      mapAddressInserted :=
        eraseKeys pool.mapAddressInserted [env.getHash entry.tx] } := by
  unfold removeAddressIndex
  rcases hinserted.find_remembered haddress hentry hunique with hfind | ⟨hfind, hnil, hnil'⟩
  · rw [hfind]
    rfl
  · rw [hfind, hnil, hnil']
    simp only [eraseKeys, eraseBy, filter_nil]
    rw [← hnil, ← hnil']

theorem removeSpentIndex_eq (view : COutPoint → CTxOut) {items : List CTxMemPoolEntry}
    (hinserted : Indexes (fun entry => insertedSpentOf env view entry.tx) items
      pool.mapSpentInserted)
    (hspent : Indexes (fun entry => spentOf env view entry.tx) items pool.mapSpent)
    (hentry : entry ∈ items)
    (hunique : ∀ b ∈ items, env.getHash b.tx = env.getHash entry.tx → b = entry) :
    removeSpentIndex (env.getHash entry.tx) pool = { pool with
      mapSpent := eraseKeys pool.mapSpent ((spentOf env view entry.tx).map fst)
      mapSpentInserted := eraseKeys pool.mapSpentInserted [env.getHash entry.tx] } := by
  unfold removeSpentIndex
  rcases hinserted.find_remembered hspent hentry hunique with hfind | ⟨hfind, hnil, hnil'⟩
  · rw [hfind]
    rfl
  · rw [hfind, hnil, hnil']
    simp only [eraseKeys, eraseBy, filter_nil]
    rw [← hnil, ← hnil']

def without (env : MempoolEnv) (view : COutPoint → CTxOut) (entry : CTxMemPoolEntry)
    (pool : CTxMemPool) : CTxMemPool :=
  let tx := entry.tx
  let erased := erasedOf env tx
  { pool with
    mapTx := pool.mapTx.filter fun b => env.getHash b.tx ≠ env.getHash tx
    mapNextTx := eraseKeys pool.mapNextTx (tx.vin.map prevout)
    mapSaplingNullifiers := eraseKeys pool.mapSaplingNullifiers
      (tx.sapData.vShieldedSpend.map nullifier)
    mapProTxRefs := eraseEntries pool.mapProTxRefs erased.refs
    mapProTxAddresses := eraseKeys pool.mapProTxAddresses erased.addresses
    mapProTxPubKeyIDs := eraseKeys pool.mapProTxPubKeyIDs erased.pubKeyIDs
    mapProTxBlsPubKeyHashes :=
      eraseKeys pool.mapProTxBlsPubKeyHashes erased.blsPubKeyHashes
    mapProTxCollaterals := eraseKeys pool.mapProTxCollaterals erased.collaterals
    mapAssetUnlockExpiry := eraseKeys pool.mapAssetUnlockExpiry erased.expiry
    mapAddress := eraseKeys pool.mapAddress ((deltasOf env view entry).map fst)
    mapAddressInserted := eraseKeys pool.mapAddressInserted [env.getHash tx]
    mapSpent := eraseKeys pool.mapSpent ((spentOf env view tx).map fst)
    mapSpentInserted := eraseKeys pool.mapSpentInserted [env.getHash tx] }

theorem removeUnchecked_eq (h : Exact env view dropped pool)
    (hremove : removeUnchecked env hash pool = .ok pool') :
    ∃ entry ∈ pool.mapTx, env.getHash entry.tx = hash ∧ pool' = without env view entry pool := by
  obtain ⟨entry, hfind, hremove⟩ := bind_eq_ok_iff.mp hremove
  obtain ⟨hentry, rfl⟩ := findTx_eq_some (ofOption_eq_ok_iff.mp hfind)
  refine ⟨entry, hentry, rfl, ?_⟩
  obtain ⟨pool₁, hproTx, hremove⟩ := bind_eq_ok_iff.mp hremove
  have hunique : ∀ b ∈ pool.mapTx, env.getHash b.tx = env.getHash entry.tx → b = entry :=
    fun b hb heq => h.eq_of_hash hb hentry heq
  have hpool₁ : pool₁ = { pool with
      mapNextTx := eraseKeys pool.mapNextTx (entry.tx.vin.map prevout)
      mapSaplingNullifiers := eraseKeys pool.mapSaplingNullifiers
        (entry.tx.sapData.vShieldedSpend.map nullifier)
      mapProTxRefs := eraseEntries pool.mapProTxRefs (erasedOf env entry.tx).refs
      mapProTxAddresses :=
        eraseKeys pool.mapProTxAddresses (erasedOf env entry.tx).addresses
      mapProTxPubKeyIDs :=
        eraseKeys pool.mapProTxPubKeyIDs (erasedOf env entry.tx).pubKeyIDs
      mapProTxBlsPubKeyHashes :=
        eraseKeys pool.mapProTxBlsPubKeyHashes (erasedOf env entry.tx).blsPubKeyHashes
      mapProTxCollaterals :=
        eraseKeys pool.mapProTxCollaterals (erasedOf env entry.tx).collaterals
      mapAssetUnlockExpiry :=
        eraseKeys pool.mapAssetUnlockExpiry (erasedOf env entry.tx).expiry } := by
    unfold whenConnected at hproTx
    unfold erasedOf
    split_ifs at hproTx ⊢
    · obtain ⟨erased, herased, hproTx⟩ := bind_eq_ok_iff.mp hproTx
      rw [herased, ← Except.ok.inj hproTx]
      rfl
    · rw [← Except.ok.inj hproTx]
      simp only [ProTxErased.none, eraseKeys, eraseEntries, eraseBy_nil]
  rw [← Except.ok.inj hremove, hpool₁]
  refine (congrArg (removeSpentIndex _) (removeAddressIndex_eq view ?_ ?_ hentry hunique)).trans ?_
  · exact h.addressInserted
  · exact h.address
  refine (removeSpentIndex_eq view ?_ ?_ hentry hunique).trans ?_
  · exact h.spentInserted
  · exact h.spent
  rfl

theorem Exact.without (h : Exact env view dropped pool) (hentry : entry ∈ pool.mapTx) :
    Exact env view dropped (without env view entry pool) := by
  have hitem : ∀ b ∈ pool.mapTx,
      decide (env.getHash b.tx ≠ env.getHash entry.tx) = false → b = entry :=
    fun b hb hkeep => h.eq_of_hash hb hentry (by simpa using hkeep)
  have hapart : ∀ b ∈ pool.mapTx, decide (env.getHash b.tx ≠ env.getHash entry.tx) = true →
      TxApart env b.tx entry.tx :=
    fun b hb hkeep => h.apart.forall hb hentry fun heq => of_decide_eq_true hkeep (heq ▸ rfl)
  refine ⟨h.apart.filter _, ?_, ?_, ?_, ?_, ?_, ?_, ?_, ?_, ?_, ?_, ?_, ?_⟩
  · exact h.nextTx.remove keyed_nextTx hitem hapart
  · exact h.nullifiers.remove keyed_nullifiers hitem hapart
  · exact h.refs.remove keyed_refs hitem hapart
  · exact h.addresses.remove keyed_addresses hitem hapart
  · exact h.pubKeyIDs.remove keyed_pubKeyIDs hitem hapart
  · exact h.blsPubKeyHashes.remove keyed_blsPubKeyHashes hitem hapart
  · exact h.collaterals.remove keyed_collaterals hitem hapart
  · exact h.expiry.remove keyed_expiry hitem hapart
  · exact h.address.remove keyed_deltas hitem hapart
  · exact h.addressInserted.remove (keyed_inserted hash_of_insertedDeltas) hitem hapart
  · exact h.spent.remove keyed_spent hitem hapart
  · exact h.spentInserted.remove (keyed_inserted hash_of_insertedSpent) hitem hapart

/-! ## Adding a transaction -/

/-- A transaction that shares nothing with those in the pool and repeats nothing
itself, and whose inputs are what the view says. -/
structure Fresh (env : MempoolEnv) (view view' : COutPoint → CTxOut)
    (entry : CTxMemPoolEntry) (pool : CTxMemPool) : Prop where
  apart : ∀ b ∈ pool.mapTx, TxApart env b.tx entry.tx
  prevouts : (entry.tx.vin.map prevout).Nodup
  nullifiers : (entry.tx.sapData.vShieldedSpend.map nullifier).Nodup
  addresses : ((proTxOf env entry.tx).addresses.map fst).Nodup
  view : ∀ txin ∈ entry.tx.vin, view' txin.prevout = view txin.prevout

theorem nodup_of_single {α β : Type} (f : α → β) {l : List α} (h : l.length ≤ 1) :
    (l.map f).Nodup := by
  match l, h with
  | [], _ => exact nodup_nil
  | [a], _ => exact nodup_singleton _

theorem map_filterMap_sublist {α β γ : Type} {f : α → Option β} {g : β → γ} {k : α → γ}
    (hk : ∀ a b, f a = some b → g b = k a) : ∀ l : List α, ((l.filterMap f).map g).Sublist (l.map k)
  | [] => .slnil
  | a :: l => by
    rw [filterMap_cons]
    cases hf : f a with
    | none => exact (map_filterMap_sublist hk l).cons _
    | some b =>
      rw [map_cons, hk a b hf]
      exact (map_filterMap_sublist hk l).cons_cons _

theorem nodup_deltas : ((deltasOf env view entry).map fst).Nodup := by
  unfold deltasOf
  split_ifs
  · rw [addressDeltasOf, map_append, nodup_append]
    refine ⟨?_, ?_, ?_⟩
    · refine Nodup.of_map txIndex ?_
      rw [map_map]
      exact (map_filterMap_sublist (fun _ _ h => (key_of_inputDelta h).2.1) _).nodup
        (nodup_zipIdx_map_snd _)
    · refine Nodup.of_map txIndex ?_
      rw [map_map]
      exact (map_filterMap_sublist (fun _ _ h => (key_of_outputDelta h).2.1) _).nodup
        (nodup_zipIdx_map_snd _)
    · -- an input is marked as spent, an output is not
      intro key hkey key' hkey' heq
      obtain ⟨x, hx, rfl⟩ := mem_map.mp hkey
      obtain ⟨y, hy, rfl⟩ := mem_map.mp hkey'
      obtain ⟨input, -, hx⟩ := mem_filterMap.mp hx
      obtain ⟨output, -, hy⟩ := mem_filterMap.mp hy
      have hspent := (key_of_inputDelta hx).2.2
      rw [heq, (key_of_outputDelta hy).2.2] at hspent
      cases hspent
  · exact nodup_nil

theorem nodup_spent (h : (tx.vin.map prevout).Nodup) : ((spentOf env view tx).map fst).Nodup := by
  unfold spentOf
  split_ifs
  · rw [spentInfosOf]
    refine (map_filterMap_sublist (k := fun input => input.1.prevout)
      (fun input x hx => ?_) _).nodup ?_
    · obtain ⟨address, -, rfl⟩ := Option.map_eq_some_iff.mp hx
      rfl
    · have hmap := map_map (g := prevout) (f := fst) (l := tx.vin.zipIdx)
      rw [zipIdx_map_fst] at hmap
      exact hmap ▸ h
  · exact nodup_nil

variable {view' : COutPoint → CTxOut}

theorem addressDeltasOf_congr (h : ∀ txin ∈ entry.tx.vin, view' txin.prevout = view txin.prevout) :
    addressDeltasOf env view' entry = addressDeltasOf env view entry := by
  unfold addressDeltasOf
  congr 1
  refine filterMap_congr fun input hinput => ?_
  unfold inputDelta
  dsimp only
  rw [h input.1 (fst_mem_of_mem_zipIdx hinput)]

theorem spentInfosOf_congr (h : ∀ txin ∈ tx.vin, view' txin.prevout = view txin.prevout) :
    spentInfosOf env view' tx = spentInfosOf env view tx := by
  refine filterMap_congr fun input hinput => ?_
  unfold spentInfo
  dsimp only
  rw [h input.1 (fst_mem_of_mem_zipIdx hinput)]

theorem refsOf_nil (tx : CTransaction) : refsOf env [] tx = (proTxOf env tx).refs := by
  simp [refsOf]

def withEntry (env : MempoolEnv) (view : COutPoint → CTxOut) (entry : CTxMemPoolEntry)
    (pool : CTxMemPool) : CTxMemPool :=
  let tx := entry.tx
  let entries := proTxOf env tx
  { pool with
    mapTx := pool.mapTx ++ [entry]
    mapNextTx := emplaceAll pool.mapNextTx (nextTxOf tx)
    mapSaplingNullifiers := emplaceAll pool.mapSaplingNullifiers (saplingNullifiersOf tx)
    mapProTxRefs := pool.mapProTxRefs ++ entries.refs
    mapProTxAddresses := emplaceAll pool.mapProTxAddresses entries.addresses
    mapProTxPubKeyIDs := emplaceAll pool.mapProTxPubKeyIDs entries.pubKeyIDs
    mapProTxBlsPubKeyHashes :=
      emplaceAll pool.mapProTxBlsPubKeyHashes entries.blsPubKeyHashes
    mapProTxCollaterals := emplaceAll pool.mapProTxCollaterals entries.collaterals
    mapAssetUnlockExpiry := emplaceAll pool.mapAssetUnlockExpiry entries.expiry
    mapAddress := emplaceAll pool.mapAddress (deltasOf env view entry)
    mapAddressInserted :=
      emplaceAll pool.mapAddressInserted (insertedDeltasOf env view entry)
    mapSpent := emplaceAll pool.mapSpent (spentOf env view tx)
    mapSpentInserted := emplaceAll pool.mapSpentInserted (insertedSpentOf env view tx) }

theorem Exact.withEntry (h : Exact env view [] pool) (hfresh : Fresh env view view' entry pool) :
    Exact env view [] (withEntry env view entry pool) := by
  obtain ⟨hpubKeyIDs, hbls, hcollaterals, hexpiry⟩ := (covers_proTxOf env entry.tx).single
  have hapart := hfresh.apart
  refine ⟨?_, ?_, ?_, ?_, ?_, ?_, ?_, ?_, ?_, ?_, ?_, ?_, ?_⟩
  · refine pairwise_append.mpr ⟨h.apart, pairwise_singleton _ _, ?_⟩
    intro b hb c hc
    rw [mem_singleton.mp hc]
    exact hapart b hb
  · refine h.nextTx.add keyed_nextTx hapart ?_
    rw [nextTxOf, map_map]
    exact hfresh.prevouts
  · refine h.nullifiers.add keyed_nullifiers hapart ?_
    rw [saplingNullifiersOf, map_map]
    exact hfresh.nullifiers
  · have hrefs := h.refs.append entry
    rw [refsOf_nil] at hrefs
    exact hrefs
  · exact h.addresses.add keyed_addresses hapart hfresh.addresses
  · exact h.pubKeyIDs.add keyed_pubKeyIDs hapart (nodup_of_single _ hpubKeyIDs)
  · exact h.blsPubKeyHashes.add keyed_blsPubKeyHashes hapart (nodup_of_single _ hbls)
  · exact h.collaterals.add keyed_collaterals hapart (nodup_of_single _ hcollaterals)
  · exact h.expiry.add keyed_expiry hapart (nodup_of_single _ hexpiry)
  · exact h.address.add keyed_deltas hapart nodup_deltas
  · refine h.addressInserted.add (keyed_inserted hash_of_insertedDeltas) hapart
      (nodup_of_single _ ?_)
    unfold insertedDeltasOf
    split_ifs <;> simp
  · exact h.spent.add keyed_spent hapart (nodup_spent hfresh.prevouts)
  · refine h.spentInserted.add (keyed_inserted hash_of_insertedSpent) hapart
      (nodup_of_single _ ?_)
    unfold insertedSpentOf
    split_ifs <;> simp

end CTxMemPool

end KorshCore

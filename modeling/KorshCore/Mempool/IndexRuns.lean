import KorshCore.Mempool.Indexes
import KorshCore.Mempool.Removal

/-!
# Runs of the memory pool

The loop over references drops those of a registration whose collateral is not
in the pool: in `removeConflicts` the registration itself is removed
afterwards, but in `removeProTxSpentCollateralConflicts` it stays.
-/

namespace KorshCore

open Except SecondaryIndex List

namespace CTxMemPool

variable {env : MempoolEnv} {view : COutPoint → CTxOut} {dropped : List Uint256}
  {pool pool' : CTxMemPool} {hash : Uint256} {entry : CTxMemPoolEntry}

def Reduced (env : MempoolEnv) (view : COutPoint → CTxOut) (dropped : List Uint256)
    (pool pool' : CTxMemPool) : Prop :=
  Exact env view dropped pool' ∧ pool'.mapTx ⊆ pool.mapTx

theorem Reduced.refl (h : Exact env view dropped pool) : Reduced env view dropped pool pool :=
  ⟨h, fun _ hb => hb⟩

theorem Reduced.trans {pool₁ pool₂ : CTxMemPool} (h : Reduced env view dropped pool pool₁)
    (h' : Reduced env view dropped pool₁ pool₂) : Reduced env view dropped pool pool₂ :=
  ⟨h'.1, fun _ hb => h.2 (h'.2 hb)⟩

theorem Exact.links (h : Exact env view dropped pool) (links : Uint256 → TxLinks) :
    Exact env view dropped { pool with links := links } :=
  ⟨h.apart, h.nextTx, h.nullifiers, h.refs, h.addresses, h.pubKeyIDs,
    h.blsPubKeyHashes, h.collaterals, h.expiry, h.address, h.addressInserted, h.spent,
    h.spentInserted⟩

theorem hereditary_reduced (pool : CTxMemPool) :
    Hereditary env (Reduced env view dropped pool) where
  unchecked hreduced hremove := by
    obtain ⟨entry, hentry, rfl, rfl⟩ := removeUnchecked_eq hreduced.1 hremove
    exact hreduced.trans ⟨hreduced.1.without hentry, filter_sublist.subset⟩
  links links hreduced := ⟨hreduced.1.links links, hreduced.2⟩

theorem Reduced.removeRecursive {origTx : CTransaction} (h : Exact env view dropped pool) :
    (removeRecursive env origTx pool).Ensures (Reduced env view dropped pool) :=
  (hereditary_reduced pool).removeRecursive (.refl h)

/-! ## References -/

/-- The registration has a reference to its own collateral. -/
def HasExternalCollateral (env : MempoolEnv) (tx : CTransaction) : Prop :=
  ∃ ref ∈ (proTxOf env tx).refs, ref.1 = env.getHash tx

variable {tx : CTransaction}

theorem refsOf_congr {dropped dropped' : List Uint256}
    (h : HasExternalCollateral env tx → (env.getHash tx ∈ dropped ↔ env.getHash tx ∈ dropped')) :
    refsOf env dropped tx = refsOf env dropped' tx := by
  refine filter_congr fun ref href => decide_eq_decide.mpr ?_
  by_cases hkey : ref.1 = env.getHash tx
  · rw [hkey, h ⟨ref, href, hkey⟩]
  · simp [hkey]

theorem Exact.congr {dropped' : List Uint256} (h : Exact env view dropped pool)
    (hdropped : ∀ entry ∈ pool.mapTx, HasExternalCollateral env entry.tx →
      (env.getHash entry.tx ∈ dropped ↔ env.getHash entry.tx ∈ dropped')) :
    Exact env view dropped' pool :=
  ⟨h.apart, h.nextTx, h.nullifiers,
    h.refs.congr fun entry hentry => refsOf_congr (hdropped entry hentry), h.addresses,
    h.pubKeyIDs, h.blsPubKeyHashes, h.collaterals, h.expiry, h.address,
    h.addressInserted, h.spent, h.spentInserted⟩

theorem Exact.undrop (h : Exact env view (hash :: dropped) pool)
    (hgone : ∀ entry ∈ pool.mapTx, env.getHash entry.tx = hash →
      ¬ HasExternalCollateral env entry.tx) : Exact env view dropped pool := by
  refine h.congr fun entry hentry hexternal => ?_
  rw [mem_cons, or_iff_right]
  exact fun heq => hgone entry hentry heq hexternal

theorem Exact.registration_of_ref (h : Exact env view dropped pool)
    {ref : Uint256 × Uint256} (href : ref ∈ pool.mapProTxRefs)
    (hout : ¬ InPool env ref.2 pool) : ∃ entry ∈ pool.mapTx,
      env.getHash entry.tx = ref.1 ∧ ref.1 ∉ dropped ∧ (proTxOf env entry.tx).refs = [ref] := by
  obtain ⟨entry, hentry, hmem⟩ := h.refs.mem_iff.mp href
  have hkept := (mem_filter.mp hmem).2
  rcases (covers_proTxOf env entry.tx).refHash ref (mem_of_refsOf hmem) with hself | hown
  · exact absurd ⟨entry, hentry, hself.symm⟩ hout
  · refine ⟨entry, hentry, hown.1.symm, ?_, hown.2⟩
    simpa [hown.1] using hkept

theorem Exact.dropRef (h : Exact env view dropped pool) {ref : Uint256 × Uint256}
    (href : ref ∈ pool.mapProTxRefs) (hout : ¬ InPool env ref.2 pool) :
    Exact env view (ref.1 :: dropped)
      { pool with mapProTxRefs := pool.mapProTxRefs.erase ref } := by
  obtain ⟨entry, hentry, hhash, hkept, hrefs⟩ := h.registration_of_ref href hout
  have hnodup : pool.mapTx.Nodup := by
    refine Pairwise.imp ?_ h.apart
    intro a b hapart heq
    exact hapart.hash (by rw [heq])
  have hrefs' : Indexes (fun entry => refsOf env (ref.1 :: dropped) entry.tx) pool.mapTx
      (pool.mapProTxRefs.erase ref) := by
    have hothers : ∀ b ∈ pool.mapTx, b ≠ entry →
        refsOf env (ref.1 :: dropped) b.tx = refsOf env dropped b.tx := by
      intro b hb hne
      refine refsOf_congr fun _ => ?_
      rw [mem_cons, or_iff_right]
      exact fun heq => hne (h.eq_of_hash hb hentry (heq.trans hhash.symm))
    have hbefore : refsOf env dropped entry.tx = [ref] := by
      rw [refsOf, hrefs]
      simp [hkept]
    have hafter : refsOf env (ref.1 :: dropped) entry.tx = [] := by
      rw [refsOf, hrefs]
      simp [hhash]
    exact h.refs.eraseOne hnodup hentry hbefore hafter hothers
  exact ⟨h.apart, h.nextTx, h.nullifiers, hrefs', h.addresses, h.pubKeyIDs,
    h.blsPubKeyHashes, h.collaterals, h.expiry, h.address, h.addressInserted, h.spent,
    h.spentInserted⟩

theorem Reduced.removeRefs : ∀ {turns : Nat} {dropped : List Uint256} {pool : CTxMemPool},
    Exact env view dropped pool → (CTxMemPool.removeRefs env hash turns pool).Ensures
      (Reduced env view (hash :: dropped) pool)
  | 0, _, _, _ => nofun
  | turns + 1, dropped, pool, h => by
    rw [CTxMemPool.removeRefs]
    cases hfind : pool.mapProTxRefs.find? fun ref => ref.1 = hash with
    | none =>
      refine .ok (.refl (h.congr fun entry hentry hexternal => ?_))
      obtain ⟨ref, href, hkey⟩ := hexternal
      rw [mem_cons]
      refine ⟨.inr, fun hmem => ?_⟩
      rcases hmem with heq | hmem
      · by_contra hkept
        have hin : ref ∈ pool.mapProTxRefs := h.refs.mem_iff.mpr ⟨entry, hentry,
          mem_filter.mpr ⟨href, by simp [hkey, hkept]⟩⟩
        have hne := find?_eq_none.mp hfind ref hin
        simp [hkey, heq] at hne
      · exact hmem
    | some ref =>
      have href := mem_of_find?_eq_some hfind
      have hkey : ref.1 = hash := by simpa using find?_some hfind
      dsimp only
      cases htx : pool.findTx env ref.2 with
      | some entry =>
        refine .bind fun pool₁ hfirst pool' hrest => ?_
        obtain ⟨hexact, hsub⟩ := Reduced.removeRecursive h hfirst
        obtain ⟨hexact', hsub'⟩ := Reduced.removeRefs hexact hrest
        exact ⟨hexact', fun _ hb => hsub (hsub' hb)⟩
      | none =>
        have hout : ¬ InPool env ref.2 pool := by
          rw [inPool_iff_contains, contains, htx]
          decide
        intro pool' hremove
        obtain ⟨hexact, hsub⟩ := Reduced.removeRefs (h.dropRef href hout) hremove
        refine ⟨hexact.congr fun _ _ _ => ?_, hsub⟩
        rw [hkey]
        simp

theorem Reduced.removeInputConflict {txin : CTxIn} (h : Exact env view dropped pool) :
    (removeInputConflict env tx pool txin).Ensures (Reduced env view dropped pool) := by
  unfold CTxMemPool.removeInputConflict removeConflictRefs
  split
  · exact .ok (.refl h)
  split_ifs
  · exact .ok (.refl h)
  · refine .bind fun pool₁ hrefs pool' hremove => ?_
    obtain ⟨hexact, hsub⟩ := Reduced.removeRefs h hrefs
    obtain ⟨hexact', hsub'⟩ := Reduced.removeRecursive hexact hremove
    refine ⟨hexact'.undrop fun entry hentry heq => ?_, fun _ hb => hsub (hsub' hb)⟩
    exact absurd ⟨entry, hentry, heq⟩ (gone_of_removeRecursive hremove)
  · exact Reduced.removeRecursive h

theorem Reduced.removeConflicts (h : Exact env view dropped pool) :
    (removeConflicts env tx pool).Ensures (Reduced env view dropped pool) := by
  refine .bind fun pool₁ hinputs => ?_
  have hfirst : Reduced env view dropped pool pool₁ := by
    refine Ensures.foldlM (fun _ _ _ hturn _ hstep => ?_) (.refl h) hinputs
    exact hturn.trans (Reduced.removeInputConflict hturn.1 hstep)
  exact .foldlM (fun _ _ _ hturn => (hereditary_reduced pool).removeNullifierConflict hturn) hfirst

/-- The input does not spend the external collateral of a registration in the pool,
nor that of a masternode whose registration is in the pool. -/
def KeepsCollaterals (env : MempoolEnv) (tip : TipList) (txin : CTxIn) (pool : CTxMemPool) : Prop :=
  ∀ entry ∈ pool.mapTx, HasExternalCollateral env entry.tx →
    (∀ x ∈ (proTxOf env entry.tx).collaterals, x.1 ≠ txin.prevout) ∧
    ∀ dmn, tip.getMNByCollateral txin.prevout = some dmn → dmn.proTxHash ≠ env.getHash entry.tx

variable {tip : TipList}

theorem KeepsCollaterals.mono {txin : CTxIn}
    (h : KeepsCollaterals env tip txin pool) (hsub : pool'.mapTx ⊆ pool.mapTx) :
    KeepsCollaterals env tip txin pool' :=
  fun entry hentry => h entry (hsub hentry)

theorem Reduced.removeSpentCollateralConflict (h : Exact env view dropped pool) :
    ∀ {proTxHash : Option Uint256}, (∀ entry ∈ pool.mapTx, HasExternalCollateral env entry.tx →
      proTxHash ≠ some (env.getHash entry.tx)) →
    (removeSpentCollateralConflict env proTxHash pool).Ensures (Reduced env view dropped pool)
  | none, _ => .ok (.refl h)
  | some proTxHash, hother => by
    intro pool' hremove
    obtain ⟨hexact, hsub⟩ := Reduced.removeRefs h hremove
    refine ⟨hexact.undrop fun entry hentry heq hexternal => ?_, hsub⟩
    exact hother entry (hsub hentry) hexternal (by rw [heq])

theorem Reduced.removeSpentCollateral {txin : CTxIn} (h : Exact env view dropped pool)
    (hkeeps : KeepsCollaterals env tip txin pool) :
    (removeSpentCollateral env tip pool txin).Ensures (Reduced env view dropped pool) := by
  refine .bind fun pool₁ hpending pool' hlisted => ?_
  have h₁ : Reduced env view dropped pool pool₁ := by
    refine Reduced.removeSpentCollateralConflict h (fun entry hentry hexternal hfind => ?_) hpending
    obtain ⟨b, hb, hmem⟩ := h.collaterals.mem_iff.mp (mem_of_find hfind)
    have hhash := (covers_proTxOf env b.tx).collateralHash _ hmem
    obtain rfl := h.eq_of_hash hb hentry hhash.symm
    exact (hkeeps b hb hexternal).1 _ hmem rfl
  refine h₁.trans (Reduced.removeSpentCollateralConflict h₁.1
    (fun entry hentry hexternal hdmn => ?_) hlisted)
  obtain ⟨dmn, hdmn, heq⟩ := Option.map_eq_some_iff.mp hdmn
  exact (hkeeps entry (h₁.2 hentry) hexternal).2 dmn hdmn heq

theorem Reduced.removeForBlockTx (h : Exact env view dropped pool)
    (hkeeps : ∀ txin ∈ tx.vin, KeepsCollaterals env tip txin pool) :
    (removeForBlockTx env tip pool tx).Ensures (Reduced env view dropped pool) := by
  refine .bind fun pool₁ hmined => .bind fun pool₂ hconflicts => ?_
  have h₁ : Reduced env view dropped pool pool₁ :=
    (hereditary_reduced pool).removeMined (.refl h) hmined
  have h₂ := h₁.trans (Reduced.removeConflicts h₁.1 hconflicts)
  unfold whenConnected
  split_ifs
  · refine .bind fun pool₃ hspent => (hereditary_reduced pool).removeTypeConflicts ?_
    refine Ensures.foldlM (fun txin _ htxin hturn _ hstep => ?_) h₂ hspent
    exact hturn.trans
      (Reduced.removeSpentCollateral hturn.1 ((hkeeps txin htxin).mono hturn.2) hstep)
  · exact .ok h₂

theorem Reduced.removeForBlock {vtx : List CTransaction} (h : Exact env view dropped pool)
    (hkeeps : ∀ tx ∈ vtx, ∀ txin ∈ tx.vin, KeepsCollaterals env tip txin pool) :
    (removeForBlock env tip vtx pool).Ensures (Reduced env view dropped pool) := by
  refine .foldlM (fun tx _ htx hturn _ hstep => ?_) (.refl h)
  exact hturn.trans (Reduced.removeForBlockTx hturn.1
    (fun txin htxin => (hkeeps tx htx txin htxin).mono hturn.2) hstep)

/-! ## Additions -/

theorem addWithIndexes_eq {view' : COutPoint → CTxOut} (hfresh : Fresh env view view' entry pool)
    (hadd : addWithIndexes env tip view' entry pool = .ok pool') :
    ∃ newit links, newit.tx = entry.tx ∧ newit.nTime = entry.nTime ∧
      pool' = { withEntry env view newit pool with links := links } := by
  obtain ⟨pool₁, hadd, hindexes⟩ := bind_eq_ok_iff.mp hadd
  obtain ⟨key, _, hadd⟩ := bind_eq_ok_iff.mp hadd
  have hnew : pool.contains env (env.getHash entry.tx) = false := by
    rw [← Bool.not_eq_true, ← inPool_iff_contains]
    rintro ⟨b, hb, heq⟩
    exact (hfresh.apart b hb).hash heq
  dsimp only at hadd
  rw [hnew, if_neg Bool.false_ne_true] at hadd
  -- the maps of `addUnchecked`, with or without those about masternodes
  have hpool₁ : ∃ links, pool₁ = { pool with
      links := links
      mapTx := pool.mapTx ++ [⟨entry.tx, entry.nTime, key.1, key.2⟩]
      mapNextTx := emplaceAll pool.mapNextTx (nextTxOf entry.tx)
      mapSaplingNullifiers :=
        emplaceAll pool.mapSaplingNullifiers (saplingNullifiersOf entry.tx)
      mapProTxRefs := pool.mapProTxRefs ++ (proTxOf env entry.tx).refs
      mapProTxAddresses :=
        emplaceAll pool.mapProTxAddresses (proTxOf env entry.tx).addresses
      mapProTxPubKeyIDs :=
        emplaceAll pool.mapProTxPubKeyIDs (proTxOf env entry.tx).pubKeyIDs
      mapProTxBlsPubKeyHashes :=
        emplaceAll pool.mapProTxBlsPubKeyHashes (proTxOf env entry.tx).blsPubKeyHashes
      mapProTxCollaterals :=
        emplaceAll pool.mapProTxCollaterals (proTxOf env entry.tx).collaterals
      mapAssetUnlockExpiry :=
        emplaceAll pool.mapAssetUnlockExpiry (proTxOf env entry.tx).expiry } := by
    unfold whenConnected at hadd
    unfold proTxOf
    split_ifs at hadd ⊢
    · obtain ⟨entries, hentries, hadd⟩ := bind_eq_ok_iff.mp hadd
      rw [hentries]
      exact ⟨_, (Except.ok.inj hadd).symm⟩
    · rw [show ProTxEntries.none.refs = [] from rfl, append_nil]
      exact ⟨_, (Except.ok.inj hadd).symm⟩
  obtain ⟨links, rfl⟩ := hpool₁
  refine ⟨⟨entry.tx, entry.nTime, key.1, key.2⟩, links, rfl, rfl, ?_⟩
  have hdeltas : addressDeltasOf env view' entry = addressDeltasOf env view entry :=
    addressDeltasOf_congr hfresh.view
  have hspent : spentInfosOf env view' entry.tx = spentInfosOf env view entry.tx :=
    spentInfosOf_congr hfresh.view
  rw [← Except.ok.inj hindexes]
  unfold withEntry deltasOf insertedDeltasOf spentOf insertedSpentOf addAddressIndex addSpentIndex
  rw [hdeltas, hspent]
  split_ifs <;> rfl

theorem Exact.addWithIndexes {view' : COutPoint → CTxOut}
    (h : Exact env view [] pool) (hfresh : Fresh env view view' entry pool)
    (hadd : addWithIndexes env tip view' entry pool = .ok pool') : Exact env view [] pool' := by
  obtain ⟨newit, links, htx, _, rfl⟩ := addWithIndexes_eq hfresh hadd
  have hfresh' : Fresh env view view' newit pool :=
    ⟨htx ▸ hfresh.apart, htx ▸ hfresh.prevouts, htx ▸ hfresh.nullifiers,
      htx ▸ hfresh.addresses, htx ▸ hfresh.view⟩
  exact (h.withEntry hfresh').links links

/-! ## Operations -/

inductive PoolOp where
  | addUnchecked (tip : TipList) (view : COutPoint → CTxOut) (entry : CTxMemPoolEntry)
  | removeUnchecked (hash : Uint256)
  | removeRecursive (origTx : CTransaction)
  | removeConflicts (tx : CTransaction)
  | removeForBlock (tip : TipList) (vtx : List CTransaction)
  | removeForReorg (isInvalid hasValidLocks : CTxMemPoolEntry → Bool)
  | removeExpiredAssetUnlock (nBlockHeight : Int)
  | clear

def runOp (env : MempoolEnv) : PoolOp → CTxMemPool → Except MempoolError CTxMemPool
  | .addUnchecked tip view entry, pool => CTxMemPool.addWithIndexes env tip view entry pool
  | .removeUnchecked hash, pool => CTxMemPool.removeUnchecked env hash pool
  | .removeRecursive origTx, pool => CTxMemPool.removeRecursive env origTx pool
  | .removeConflicts tx, pool => CTxMemPool.removeConflicts env tx pool
  | .removeForBlock tip vtx, pool => CTxMemPool.removeForBlock env tip vtx pool
  | .removeForReorg isInvalid hasValidLocks, pool =>
    CTxMemPool.removeForReorg env isInvalid hasValidLocks pool
  | .removeExpiredAssetUnlock nBlockHeight, pool =>
    CTxMemPool.removeExpiredAssetUnlock env nBlockHeight pool
  | .clear, pool => .ok pool.clear

/-- The maps that `clear` leaves as they are have no entries. -/
structure ClearsAll (pool : CTxMemPool) : Prop where
  refs : pool.mapProTxRefs = []
  blsPubKeyHashes : pool.mapProTxBlsPubKeyHashes = []
  collaterals : pool.mapProTxCollaterals = []
  expiry : pool.mapAssetUnlockExpiry = []
  address : pool.mapAddress = []
  addressInserted : pool.mapAddressInserted = []
  spent : pool.mapSpent = []
  spentInserted : pool.mapSpentInserted = []

theorem ClearsAll.exact_clear (h : ClearsAll pool) : Exact env view [] pool.clear :=
  ⟨.nil, .nil _, .nil _, h.refs ▸ .nil _, .nil _, .nil _, h.blsPubKeyHashes ▸ .nil _,
    h.collaterals ▸ .nil _, h.expiry ▸ .nil _, h.address ▸ .nil _,
    h.addressInserted ▸ .nil _, h.spent ▸ .nil _, h.spentInserted ▸ .nil _⟩

/-- When an operation keeps the maps exact: a transaction is apart from those in
the pool, a block spends no external collateral of a registration in the pool, and
`clear` has nothing to forget in the maps it does not clear. -/
def Permitted (env : MempoolEnv) (view : COutPoint → CTxOut) : PoolOp → CTxMemPool → Prop
  | .addUnchecked _ view' entry, pool => Fresh env view view' entry pool
  | .removeForBlock tip vtx, pool =>
    ∀ tx ∈ vtx, ∀ txin ∈ tx.vin, KeepsCollaterals env tip txin pool
  | .clear, pool => ClearsAll pool
  | _, _ => True

inductive PoolReach (env : MempoolEnv) (view : COutPoint → CTxOut) : CTxMemPool → Prop
  | new : PoolReach env view .new
  | step {op : PoolOp} {pool pool' : CTxMemPool} (hreach : PoolReach env view pool)
      (hpermitted : Permitted env view op pool) (hop : runOp env op pool = .ok pool') :
      PoolReach env view pool'

theorem Exact.runOp {op : PoolOp} (h : Exact env view [] pool)
    (hpermitted : Permitted env view op pool)
    (hop : CTxMemPool.runOp env op pool = .ok pool') : Exact env view [] pool' := by
  have hremoves : Hereditary env (Reduced env view [] pool) := hereditary_reduced pool
  cases op with
  | addUnchecked tip view' entry => exact h.addWithIndexes hpermitted hop
  | removeUnchecked hash => exact (hremoves.unchecked (.refl h) hop).1
  | removeRecursive origTx => exact (hremoves.removeRecursive (.refl h) hop).1
  | removeConflicts tx => exact (Reduced.removeConflicts h hop).1
  | removeForBlock tip vtx => exact (Reduced.removeForBlock h hpermitted hop).1
  | removeForReorg isInvalid hasValidLocks => exact (hremoves.removeForReorg (.refl h) hop).1
  | removeExpiredAssetUnlock nBlockHeight => exact (hremoves.removeExpired (.refl h) hop).1
  | clear =>
    cases hop
    exact hpermitted.exact_clear

/-- In every run of permitted operations all maps hold the entries of the
transactions in the pool and nothing else. -/
theorem exact_of_poolReach (h : PoolReach env view pool) : Exact env view [] pool := by
  induction h with
  | new => exact exact_new
  | step _ hpermitted hop ih => exact ih.runOp hpermitted hop

/-! ## Samples -/

def poolRegistration : CProRegTx where
  nVersion := 1
  nType := .regular
  nMode := 0
  collateralOutpoint := ⟨5, 0⟩
  netInfo := .mn .invalid
  platformNodeID := 0
  platformP2PPort := 0
  platformHTTPPort := 0
  keyIDOwner := 1
  pubKeyOperator := none
  keyIDVoting := 1
  nOperatorReward := 0
  scriptPayout := []
  inputsHash := 0
  vchSig := []

/-- A transaction is known by its lock time; every payload can be read. -/
def poolEnv : MempoolEnv where
  getHash tx := (tx.nLockTime : Uint256)
  proRegTx _ := some poolRegistration
  proUpServTx _ := none
  proUpRegTx _ := none
  proUpRevTx _ := none
  assetUnlock _ := some ⟨1, 1, 10, 100, 0, []⟩
  operatorKeyHash _ := 2
  serializeKeyHash _ := 3
  hash160 _ := 0
  isConnected := true
  fAddressIndex := true
  fSpentIndex := true

def poolTx (nType nLockTime : Nat) (prevout : COutPoint) : CTransaction :=
  ⟨[⟨prevout, [], 0⟩], [], 3, nType, nLockTime, ⟨0, [], [], []⟩, []⟩

def poolUnlock : CTxMemPoolEntry := ⟨poolTx transactionAssetUnlock 1 ⟨8, 0⟩, 0, 0, false⟩

def poolRegister : CTxMemPoolEntry :=
  ⟨poolTx transactionProviderRegister 2 ⟨9, 0⟩, 0, 0, false⟩

def poolTip : TipList := ⟨fun _ => none, fun _ => none⟩

def poolView : COutPoint → CTxOut := fun _ => ⟨0, []⟩

def poolAddition : PoolOp := .addUnchecked poolTip poolView poolRegister

def poolConnection (prevout : COutPoint) : PoolOp :=
  .removeForBlock poolTip [poolTx 0 3 prevout]

theorem exact_of_poolReach_sample : ∃ pool pool', runOp poolEnv poolAddition new = .ok pool ∧
    runOp poolEnv (poolConnection ⟨7, 0⟩) pool = .ok pool' ∧
    pool'.mapTx = [poolRegister] ∧ Exact poolEnv poolView [] pool' := by
  have hfresh : Permitted poolEnv poolView poolAddition new :=
    ⟨nofun, by decide, by decide, by decide, fun _ _ => rfl⟩
  have hsteps : ∃ pool pool', runOp poolEnv poolAddition new = .ok pool ∧
      runOp poolEnv (poolConnection ⟨7, 0⟩) pool = .ok pool' ∧
      pool.mapTx = [poolRegister] ∧ pool'.mapTx = [poolRegister] :=
    ⟨_, _, rfl, rfl, by decide +kernel, by decide +kernel⟩
  obtain ⟨pool, pool', hadd, hconnect, hentries, hentries'⟩ := hsteps
  have hkeeps : Permitted poolEnv poolView (poolConnection ⟨7, 0⟩) pool := by
    intro tx htx txin htxin entry hentry _
    rw [mem_singleton.mp htx] at htxin
    rw [mem_singleton.mp htxin]
    rw [hentries] at hentry
    rw [mem_singleton.mp hentry]
    exact ⟨by decide, fun _ hdmn => absurd hdmn (Option.some_ne_none _).symm⟩
  exact ⟨pool, pool', hadd, hconnect, hentries',
    exact_of_poolReach (.step (.step .new hfresh hadd) hkeeps hconnect)⟩

/-- After `clear` the pool has no transaction, but the expiry height of an asset
unlock. After a block that spends the external collateral of a registration the
registration is still there, but not its reference. -/
theorem expiry_outlives_clear_and_ref_lost_at_block :
    (∃ pool pool', runOp poolEnv (.addUnchecked poolTip poolView poolUnlock) new = .ok pool ∧
      runOp poolEnv .clear pool = .ok pool' ∧
      pool'.mapTx = [] ∧ pool'.mapAssetUnlockExpiry = [(1, 148)]) ∧
    ∃ pool pool', runOp poolEnv poolAddition new = .ok pool ∧
      runOp poolEnv (poolConnection ⟨5, 0⟩) pool = .ok pool' ∧
      poolRegister ∈ pool'.mapTx ∧ pool'.mapProTxRefs = [] ∧
      refsOf poolEnv [] poolRegister.tx = [(2, 5)] := by
  refine ⟨⟨_, _, rfl, rfl, by decide, by decide +kernel⟩, ⟨_, _, rfl, rfl, ?_, ?_, ?_⟩⟩
  · decide +kernel
  · decide +kernel
  · decide +kernel

end CTxMemPool

end KorshCore

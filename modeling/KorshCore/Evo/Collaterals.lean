import KorshCore.Chain.Updates
import KorshCore.Evo.PaymentChain
import KorshCore.Script.Standard

/-!
# Collaterals are unspent coins

Every masternode of the list of a block has its collateral among the coins
after the block, with the amount of its type, and no two have the same one.
-/

namespace KorshCore

open Except List Function Option

/-! ## The rebuild once more -/

namespace CDeterministicMNList

variable {H : Type} [DecidableEq H] {hash : UniqueProperty → H} {env : ProTxEnv}
  {ctx : BlockContext} {l₀ l l₁ l' r : CDeterministicMNList H}
  {done txs : List CTransaction} {spent : List COutPoint} {tx : CTransaction} {block : CBlock}

def RegisteredBy (env : ProTxEnv) (ctx : BlockContext) (tx : CTransaction)
    (p : Uint256) (b : CDeterministicMN) : Prop :=
  isRegistration tx = true ∧ p = env.getHash tx ∧ ∃ ptx internalId,
    env.proRegTx tx = some ptx ∧ SameMN (registeredMN env ctx internalId tx ptx) b

variable {b : CDeterministicMN}

theorem RegisteredBy.congr {p : Uint256} {a : CDeterministicMN}
    (h : RegisteredBy env ctx tx p a) (hsame : SameMN a b) : RegisteredBy env ctx tx p b := by
  obtain ⟨hreg, hp, ptx, internalId, hptx, hmn⟩ := h
  exact ⟨hreg, hp, ptx, internalId, hptx, hmn.trans hsame⟩

theorem getMN_of_updateMN (hl : l.Indexed hash) {p : Uint256} {dmn : CDeterministicMN}
    (hdmn : l.getMN p = some dmn) {state : CDeterministicMNState}
    (h : l.updateMN hash p state = .ok l') {q : Uint256}
    (hb : l'.getMN q = some b) : ∃ a, l.getMN q = some a ∧ SameMN a b := by
  obtain ⟨heq, hlisted⟩ := hl.updateMN hdmn state
  rw [getMN_updateMNState (heq ▸ h)] at hb
  split_ifs at hb with hq
  · cases hb
    exact ⟨dmn, hq ▸ hlisted, .setState dmn state⟩
  · exact ⟨b, hb, .refl b⟩

theorem getMN_of_turn (hl : l.Indexed hash) (h : TxTurn hash env ctx l₀ tx l l')
    {q : Uint256} (hb : l'.getMN q = some b) :
    (∃ a, l.getMN q = some a ∧ SameMN a b) ∨ RegisteredBy env ctx tx q b := by
  cases h with
  | ordinary _ heq => exact .inl ⟨b, heq ▸ hb, .refl b⟩
  | register hreg hcheck hremove hadd =>
    rw [getMN_addMN hadd] at hb
    split_ifs at hb with hq
    · cases hb
      exact .inr ⟨hreg, hq, _, l.nTotalRegisteredCount, hcheck.payload, .refl _⟩
    · exact .inl ⟨b, getMN_of_removeReplaced hremove hb, .refl b⟩
  | service _ _ _ hdmn _ hupdate => exact .inl (getMN_of_updateMN hl hdmn hupdate hb)
  | registrar _ _ _ hdmn hupdate => exact .inl (getMN_of_updateMN hl hdmn hupdate hb)
  | revoke _ _ _ hdmn hupdate => exact .inl (getMN_of_updateMN hl hdmn hupdate hb)
  | other _ _ _ _ hrest =>
    rcases hrest with hcommitment | rfl
    · obtain ⟨_, hquiet, -⟩ := applyCommitment_preserves (P := fun _ => True) hl trivial
        (fun _ _ _ _ => trivial) hcommitment
      obtain ⟨a, ha, hquiet⟩ := hquiet.back hb
      exact .inl ⟨a, ha, hquiet.same⟩
    · exact .inl ⟨b, hb, .refl b⟩

/-- The list `l` on the way from `l₀`: where its masternodes come from, and that
their collaterals are not among the `spent` ones. -/
structure Pledged (env : ProTxEnv) (ctx : BlockContext) (l₀ : CDeterministicMNList H)
    (done : List CTransaction) (spent : List COutPoint) (l : CDeterministicMNList H) : Prop where
  origin : ∀ {p b}, l.getMN p = some b → (∃ a, l₀.getMN p = some a ∧ SameMN a b) ∨
    ∃ tx ∈ done, RegisteredBy env ctx tx p b
  unspent : ∀ {p b}, l.getMN p = some b → b.collateralOutpoint ∉ spent

omit [DecidableEq H] in
theorem Pledged.of_back (h : Pledged env ctx l₀ done spent l)
    (hback : ∀ {p b}, l'.getMN p = some b → ∃ a, l.getMN p = some a ∧ SameMN a b) :
    Pledged env ctx l₀ done spent l' where
  origin := by
    intro p b hb
    obtain ⟨a, ha, hsame⟩ := hback hb
    rcases h.origin ha with ⟨a₀, ha₀, hsame₀⟩ | ⟨tx, htx, hregistered⟩
    · exact .inl ⟨a₀, ha₀, hsame₀.trans hsame⟩
    · exact .inr ⟨tx, htx, hregistered.congr hsame⟩
  unspent := by
    intro p b hb
    obtain ⟨a, ha, hsame⟩ := hback hb
    rw [hsame.collateralOutpoint]
    exact h.unspent ha

theorem Pledged.applyTx (h : Pledged env ctx l₀ done [] l) (hl : l.Indexed hash)
    (hturn : TxTurn hash env ctx l₀ tx l l') : Pledged env ctx l₀ (done ++ [tx]) [] l' where
  origin := by
    intro p b hb
    rcases getMN_of_turn hl hturn hb with ⟨a, ha, hsame⟩ | hregistered
    · rcases h.origin ha with ⟨a₀, ha₀, hsame₀⟩ | ⟨tx', htx', hregistered⟩
      · exact .inl ⟨a₀, ha₀, hsame₀.trans hsame⟩
      · exact .inr ⟨tx', mem_append_left _ htx', hregistered.congr hsame⟩
    · exact .inr ⟨tx, by simp, hregistered⟩
  unspent _ := not_mem_nil

theorem Pledged.spend (h : Pledged env ctx l₀ done spent l)
    (hl : Rebuilding hash env ctx l₀ done spent l) (hinj : Injective hash)
    {vin : CTxIn} (hspend : spendCollateral hash l vin = .ok l') :
    Pledged env ctx l₀ done (spent ++ [vin.prevout]) l' := by
  rw [spendCollateral_eq hl.indexed hinj] at hspend
  obtain ⟨_, _, _, hget⟩ := removeReplaced_effect hl.indexed hinj hl.listable hspend
  have hback : ∀ {q b}, l'.getMN q = some b →
      l.getMN q = some b ∧ b.collateralOutpoint ≠ vin.prevout := by
    intro q b hb
    rw [hget, filter_eq_some_iff] at hb
    exact ⟨hb.1, of_decide_eq_true hb.2⟩
  refine ⟨fun hb => h.origin (hback hb).1, fun hb => ?_⟩
  rw [mem_append, not_or, mem_singleton]
  exact ⟨h.unspent (hback hb).1, (hback hb).2⟩

theorem ChainSound.pledged (h : ChainSound hash env txs l) (hinj : Injective hash)
    (hdistinct : DistinctHashes env (block.vtx ++ txs))
    (haccepted : Accepted hash env ctx block l l') : Pledged env ctx l block.withoutCoinbase
      (KorshCore.spentOutpoints block.withoutCoinbase) l' := by
  obtain ⟨l₄, l₅, hstage₄, hpledged₄, h₅, h₆⟩ :=
    (h.rebuildable hinj hdistinct haccepted).stages (Q := Pledged env ctx l)
      (fun _ _ _ _ _ _ hquiet => ⟨fun hb => .inl (by
        obtain ⟨a, ha, hmn⟩ := hquiet.back hb
        exact ⟨a, ha, hmn.same⟩), fun _ => not_mem_nil⟩)
      (fun _ _ _ _ _ _ hx hpledged hturn => hpledged.applyTx hx.indexed hturn)
      (fun _ _ _ _ hx hpledged hone => hpledged.spend hx hinj hone)
      haccepted.rebuilt
  obtain ⟨hl₅, hquiet₅⟩ := quiet_recordPayee hstage₄.indexed h₅
  obtain ⟨_, hquiet₆, -⟩ := resetPayments_preserves (P := fun _ => True) hl₅ trivial
    (fun _ _ _ => trivial) h₆
  refine hpledged₄.of_back fun hb => ?_
  obtain ⟨a, ha, hquiet⟩ := (hquiet₅.trans hquiet₆).back hb
  exact ⟨a, ha, hquiet.same⟩

theorem NextList.exists_rebuilt (hnext : NextList hash env ctx block l r)
    (h : ChainSound hash env txs l) (hinj : Injective hash)
    (hdistinct : DistinctHashes env (block.vtx ++ txs)) :
    ∃ l', Accepted hash env ctx block l l' ∧ ∀ {p c}, r.getMN p = some c →
      ∃ b, l'.getMN p = some b ∧ SameMN b c := by
  cases hnext with
  | @rebuilt l₁ _ haccepted hsame =>
    refine ⟨l₁, haccepted, fun {p c} hc => ⟨c, ?_, .refl c⟩⟩
    rw [hsame.mns] at hc
    exact hc
  | @applied l₁ l₂ _ diff haccepted hsame hdiff hr =>
    have hfollows := (h.follows hinj hdistinct haccepted).congr hsame
    obtain ⟨r', hr', _, _, _, _, hget⟩ := hfollows.applyDiff hinj hdiff block.hash ctx.nHeight
    cases hr.symm.trans hr'
    refine ⟨l₁, haccepted, fun {p c} hc => ?_⟩
    rw [hget] at hc
    obtain ⟨b, hb, rfl⟩ := map_eq_some_iff.mp hc
    refine ⟨b, by rw [← hsame.mns]; exact hb, ?_⟩
    cases ha : l.getMN p with
    | none => exact .refl b
    | some a =>
      rw [map_some, targetMN_eq (hfollows.same ha hb)]
      exact .setState b _

end CDeterministicMNList

section Checks

variable {env : ProTxEnv} {ctx : BlockContext} {tx : CTransaction} {ptx : CProRegTx}

/-- The collateral of a registration is a coin of the previous block, or an
output of the transaction that becomes a coin. -/
inductive CollateralChecked (ctx : BlockContext) (tx : CTransaction) (ptx : CProRegTx) : Prop where
  | external {coin : Coin} : ptx.collateralOutpoint.hash ≠ 0 →
      ctx.getCoin ptx.collateralOutpoint = some coin →
      coin.out.nValue = ptx.nType.collatAmount → CollateralChecked ctx tx ptx
  | internal {out : CTxOut} : ptx.collateralOutpoint.hash = 0 →
      tx.vout[ptx.collateralOutpoint.n]? = some out →
      isUnspendable out.scriptPubKey = false →
      out.nValue = ptx.nType.collatAmount → CollateralChecked ctx tx ptx

variable {hash160 : List UInt8 → Uint160}

theorem collateralChecked_of_checkCollateral
    (hdest : env.extractDestination = extractDestination hash160)
    {dest : CTxDestination × Option Uint160}
    (h : checkCollateral env ctx tx ptx = .ok dest) : CollateralChecked ctx tx ptx := by
  unfold checkCollateral at h
  split_ifs at h with hhash
  · cases hcoin : ctx.getCoin ptx.collateralOutpoint with
    | none =>
      rw [hcoin] at h
      cases h
    | some coin =>
      rw [hcoin] at h
      obtain ⟨_, hvalue, _⟩ := bind_eq_ok_iff.mp h
      have hvalue := require_eq_ok_iff.mp hvalue
      rw [Bool.and_eq_true, beq_iff_eq] at hvalue
      exact .external hhash hcoin hvalue.2
  · rw [not_not] at hhash
    cases hout : tx.vout[ptx.collateralOutpoint.n]? with
    | none =>
      rw [hout] at h
      cases h
    | some out =>
      rw [hout] at h
      obtain ⟨_, hvalue, dest, hextract, _⟩ := bind₂_eq_ok_iff.mp h
      have hextract := ofOption_eq_ok_iff.mp hextract
      rw [hdest] at hextract
      exact .internal hhash hout (isUnspendable_of_extractDestination hextract)
        (beq_iff_eq.mp (require_eq_ok_iff.mp hvalue))

theorem collateralChecked_of_checkProRegTx {H : Type} [DecidableEq H]
    {hash : UniqueProperty → H} {l : CDeterministicMNList H}
    (hdest : env.extractDestination = extractDestination hash160)
    (hptx : env.proRegTx tx = some ptx) {u : Unit}
    (h : checkProRegTx hash env ctx l tx = .ok u) : CollateralChecked ctx tx ptx := by
  simp only [checkProRegTx, bind_eq_ok_iff, ofOption_eq_ok_iff] at h
  obtain ⟨_, _, _, hpayload, _, _, _, _, _, _, _, _, _, hcollateral, _⟩ := h
  cases hptx.symm.trans hpayload
  exact collateralChecked_of_checkCollateral hdest hcollateral

end Checks

/-! ## Chains -/

namespace CDeterministicMNList

variable {H : Type} [DecidableEq H] {hash : UniqueProperty → H} {env : ProTxEnv}
  {coins : CoinsEnv} {assets : AssetEnv} {ctx : BlockContext} {cctx : ConnectContext}
  {block : CBlock} {blocks : List (BlockContext × CBlock)} {txs : List CTransaction}
  {view view' : ChainView} {l l' : CDeterministicMNList H}

/-- A block that `ConnectBlock` accepts: the view and the list after it. The
special transactions see the coins before it. Without DIP0003 there is no
list. -/
structure ConnectsBlock (hash : UniqueProperty → H) (env : ProTxEnv) (chain : ChainEnv)
    (ctx : BlockContext) (cctx : ConnectContext) (block : CBlock)
    (view view' : ChainView) (l l' : CDeterministicMNList H) : Prop where
  notGenesis : block.hash ≠ cctx.hashGenesisBlock
  getCoin : ctx.getCoin = view.coins
  checks : ∀ tx ∈ block.vtx, checkSpecialTx hash env ctx l tx = .ok ()
  list : if ctx.isDIP0003Active then NextList hash env ctx block l l'
    else l' = .empty
  connected : ∃ vtxundo, connectBlock chain cctx block view = .ok (vtxundo, view')

/-- The views and lists of a chain of connected blocks, of which the last one
comes first. The genesis block only sets the best block. -/
inductive MNChain (hash : UniqueProperty → H) (env : ProTxEnv) (chain : ChainEnv) :
    List (BlockContext × CBlock) → ChainView → CDeterministicMNList H → Prop where
  | empty (genesis : Uint256) : MNChain hash env chain []
      ((ChainView.new chain.coins).call chain.coins (.setBestBlock genesis)) .empty
  | initial (genesis : Uint256) (nHeight : Int) : MNChain hash env chain []
      ((ChainView.new chain.coins).call chain.coins (.setBestBlock genesis))
      (make genesis nHeight 0)
  | next {blocks : List (BlockContext × CBlock)} {view₁ view₂ : ChainView}
      {l₁ l₂ : CDeterministicMNList H} (ctx : BlockContext) (cctx : ConnectContext)
      (block : CBlock) : MNChain hash env chain blocks view₁ l₁ →
      ConnectsBlock hash env chain ctx cctx block view₁ view₂ l₁ l₂ →
      MNChain hash env chain ((ctx, block) :: blocks) view₂ l₂

def chainEnv (env : ProTxEnv) (coins : CoinsEnv) (assets : AssetEnv) : ChainEnv :=
  ⟨env.getHash, coins, assets⟩

def Backed (view : ChainView) (l : CDeterministicMNList H) : Prop :=
  ∀ p dmn, l.getMN p = some dmn → view.HasValue dmn.collateralOutpoint dmn.nType.collatAmount

theorem chainSound_empty (txs : List CTransaction) :
    ChainSound hash env txs (.empty : CDeterministicMNList H) where
  indexed := indexed_make 0 (-1) 0
  listable h := by cases h
  count := Nat.two_pow_pos 32
  registered h := by cases h

theorem ConnectsBlock.chainSound
    (h : ConnectsBlock hash env (chainEnv env coins assets) ctx cctx block view view' l l')
    (hsound : ChainSound hash env txs l) (hinj : Injective hash)
    (hdistinct : DistinctHashes env (block.vtx ++ txs)) :
    ChainSound hash env (block.vtx ++ txs) l' := by
  have hlist := h.list
  split_ifs at hlist
  · exact hlist.chainSound hsound hinj hdistinct
  · rw [hlist]
    exact chainSound_empty _

theorem outputWorth_of_hasValue (hprovenance : Provenance (chainEnv env coins assets) txs
      view.coins) (hdistinct : DistinctHashes env txs) {o : COutPoint} {v : Int}
    (h : view.HasValue o v) : OutputWorth (chainEnv env coins assets) txs o v := by
  obtain ⟨coin, hcoin, hv⟩ := h
  obtain ⟨tx, htx, hhash, hout⟩ := hprovenance o coin hcoin
  intro tx' htx' hhash' out hout'
  obtain rfl : tx = tx' := hdistinct htx htx' (hhash.trans hhash'.symm)
  rw [hout] at hout'
  rw [← some.inj hout', hv]

theorem notMem_spentOutpoints (hchecked : BlockChecked block) {o : COutPoint}
    (ho : o ∉ KorshCore.spentOutpoints block.withoutCoinbase) :
    ∀ tx ∈ block.vtx, o ∉ tx.spentOutpoints := by
  obtain ⟨cb, rest, hvtx, hcoinbase⟩ := hchecked.coinbase
  intro tx htx hmem
  rw [hvtx] at htx
  rcases mem_cons.mp htx with rfl | htx
  · rw [CTransaction.spentOutpoints, CTransaction.spentInputs, if_pos hcoinbase] at hmem
    cases hmem
  · have htail : tx ∈ block.withoutCoinbase := by
      rw [CBlock.withoutCoinbase, hvtx]
      exact htx
    have hnot := hchecked.others tx htail
    rw [CTransaction.spentOutpoints, CTransaction.spentInputs, hnot] at hmem
    refine ho ?_
    obtain ⟨txin, htxin, rfl⟩ := mem_map.mp hmem
    exact mem_map_of_mem (mem_flatMap.mpr ⟨tx, htail, htxin⟩)

variable {hash160 : List UInt8 → Uint160}

theorem Backed.next (hdest : env.extractDestination = extractDestination hash160)
    (hbacked : Backed view l) (hsound : ChainSound hash env txs l)
    (hprovenance : Provenance (chainEnv env coins assets) txs view.coins)
    (hinj : Injective hash) (hdistinct : DistinctHashes env (block.vtx ++ txs))
    (h : ConnectsBlock hash env (chainEnv env coins assets) ctx cctx block view view'
      l l') : Backed view' l' := by
  have hlist := h.list
  split_ifs at hlist
  swap
  · rw [hlist]
    intro p dmn hdmn
    cases hdmn
  obtain ⟨vtxundo, hconnect⟩ := h.connected
  obtain ⟨state, hconnected⟩ := connectBlock_eq_ok h.notGenesis hconnect
  obtain ⟨l₁, haccepted, hback⟩ := hlist.exists_rebuilt hsound hinj hdistinct
  have hpledged := hsound.pledged hinj hdistinct haccepted
  have hprovenance' := hprovenance.mono (subset_append_right block.vtx txs)
  -- a coin of the previous block that the block does not spend
  have hkept : ∀ {o v}, view.HasValue o v →
      o ∉ KorshCore.spentOutpoints block.withoutCoinbase → view'.HasValue o v := by
    intro o v hvalue hunspent
    have hworth := outputWorth_of_hasValue hprovenance' hdistinct hvalue
    rw [hconnected.view]
    exact HasValue.connectTxs hvalue (notMem_spentOutpoints hconnected.checked hunspent)
      (fun tx htx => hworth tx (mem_append_left _ htx)) hconnected.loop
  intro p c hc
  obtain ⟨b, hb, hsame⟩ := hback hc
  rw [hsame.collateralOutpoint, hsame.nType]
  have hunspent := hpledged.unspent hb
  rcases hpledged.origin hb with ⟨a, ha, hsame⟩ | ⟨tx, htx, hreg, -, ptx, id, hptx, hsame⟩
  · rw [hsame.collateralOutpoint] at hunspent ⊢
    rw [hsame.nType]
    exact hkept (hbacked p a ha) hunspent
  · rw [hsame.collateralOutpoint] at hunspent ⊢
    rw [hsame.nType]
    show view'.HasValue (collateralOf env tx ptx) ptx.nType.collatAmount
    have hmem := mem_of_mem_tail htx
    rw [isRegistration, Bool.and_eq_true, beq_iff_eq] at hreg
    have hchecked := checkSpecialTx_special hreg.1 (by rw [hreg.2]; decide)
      (haccepted.checks tx hmem)
    rw [if_pos hreg.2] at hchecked
    cases collateralChecked_of_checkProRegTx hdest hptx hchecked with
    | @external coin hhash hcoin hv =>
      have hcollateral : collateralOf env tx ptx = ptx.collateralOutpoint := if_neg hhash
      refine hkept ⟨coin, ?_, hv⟩ hunspent
      rw [hcollateral, ← h.getCoin]
      exact hcoin
    | @internal out hhash hout hspendable hv =>
      have hcollateral : collateralOf env tx ptx
          = ⟨env.getHash tx, ptx.collateralOutpoint.n⟩ := if_pos hhash
      rw [hconnected.view]
      refine hasValue_of_output hmem (congrArg COutPoint.hash hcollateral)
        (by rw [hcollateral]; exact hout) hspendable hv
        (notMem_spentOutpoints hconnected.checked hunspent) ?_ hconnected.loop
      intro tx' htx' hhash' out' hout'
      rw [hcollateral] at hhash' hout'
      obtain rfl : tx' = tx := hdistinct (mem_append_left _ htx') (mem_append_left _ hmem) hhash'
      rw [hout] at hout'
      rw [← some.inj hout', hv]

structure MNChainSound (hash : UniqueProperty → H) (env : ProTxEnv) (chain : ChainEnv)
    (txs : List CTransaction) (view : ChainView) (l : CDeterministicMNList H) : Prop where
  list : ChainSound hash env txs l
  provenance : Provenance chain txs view.coins
  backed : Backed view l

theorem MNChain.sound (hdest : env.extractDestination = extractDestination hash160)
    (h : MNChain hash env (chainEnv env coins assets) blocks view l) (hinj : Injective hash)
    (hdistinct : DistinctHashes env (chainTxs blocks)) :
    MNChainSound hash env (chainEnv env coins assets) (chainTxs blocks) view l := by
  induction h with
  | empty genesis =>
    refine ⟨chainSound_empty _, fun _ _ h => ?_, fun _ _ h => ?_⟩
    · cases h
    · cases h
  | initial genesis nHeight =>
    refine ⟨chainSound_make genesis nHeight, fun _ _ h => ?_, fun _ _ h => ?_⟩
    · cases h
    · cases h
  | @next blocks view₁ view₂ l₁ l₂ ctx cctx block _ hconnects ih =>
    obtain ⟨hlist, hprovenance, hbacked⟩ := ih hdistinct.tail
    refine ⟨hconnects.chainSound hlist hinj hdistinct, ?_,
      hbacked.next hdest hlist hprovenance hinj hdistinct hconnects⟩
    obtain ⟨vtxundo, hconnect⟩ := hconnects.connected
    obtain ⟨state, hconnected⟩ := connectBlock_eq_ok hconnects.notGenesis hconnect
    rw [hconnected.view]
    exact (hprovenance.mono (subset_append_right block.vtx _)).connectTxs
      (subset_append_left _ _) hconnected.loop

/-- After every block of a chain, the collateral of every masternode is an
unspent coin with the amount of its type, and no two masternodes have the
same collateral. -/
theorem collateral_unspent_unique {H : Type} [DecidableEq H] {hash : UniqueProperty → H}
    {env : ProTxEnv} {coins : CoinsEnv} {assets : AssetEnv}
    {hash160 : List UInt8 → Uint160} {blocks : List (BlockContext × CBlock)}
    {view : ChainView} {l : CDeterministicMNList H}
    (h : MNChain hash env (chainEnv env coins assets) blocks view l)
    (hinj : Function.Injective hash) (hdistinct : DistinctHashes env (chainTxs blocks))
    (hdest : env.extractDestination = extractDestination hash160) :
    (∀ p dmn, l.getMN p = some dmn → ∃ coin,
      view.coins dmn.collateralOutpoint = some coin ∧ coin.isSpent = false ∧
      coin.out.nValue = dmn.nType.collatAmount) ∧
    ∀ p q dmn dmn', l.getMN p = some dmn → l.getMN q = some dmn' →
      dmn.collateralOutpoint = dmn'.collateralOutpoint → p = q := by
  obtain ⟨hlist, -, hbacked⟩ := h.sound hdest hinj hdistinct
  constructor
  · intro p dmn hdmn
    obtain ⟨coin, hcoin, hv⟩ := hbacked p dmn hdmn
    refine ⟨coin, hcoin, ?_, hv⟩
    -- no type has the amount of a spent coin
    have hamount : dmn.nType.collatAmount ≠ -1 := by
      unfold MnType.collatAmount
      split <;> decide
    rw [Coin.isSpent, CTxOut.isNull, hv]
    simpa using hamount
  · intro p q dmn dmn' hp hq heq
    have hkey := hlist.indexed.key hp
    have howns : l.Owns dmn (.outpoint dmn'.collateralOutpoint) :=
      ⟨hkey.symm ▸ hp, heq ▸ (hlist.listable hp).outpoint_mem⟩
    exact hkey.symm.trans (hlist.indexed.owner_unique hinj hq
      (hlist.listable hq).outpoint_mem howns)

/-! ## A registration with its own collateral -/

def pledgeCoinbase : CTransaction where
  vin := [⟨⟨0, COutPoint.nullIndex⟩, [1, 1], 0⟩]
  vout := [⟨0, sampleScript⟩]
  nVersion := 3
  nType := transactionCoinbase
  nLockTime := 0
  sapData := .default
  vExtraPayload := [5]

def pledgeTx : CTransaction where
  vin := []
  vout := [⟨1500 * coin, sampleScript⟩]
  nVersion := 4
  nType := transactionProviderRegister
  nLockTime := 0
  sapData := ⟨1500 * coin, [⟨0, 1, 7, 0, [], []⟩], [], []⟩
  vExtraPayload := [1]

def pledgeBlock : CBlock := ⟨11, [pledgeCoinbase, pledgeTx]⟩

def pledgeEnv : ProTxEnv :=
  { sampleEnv with extractDestination := extractDestination fun _ => 0 }

def pledgeContext : BlockContext :=
  { sampleContext 9 0 with getCoin := fun _ => none }

def openContext (nHeight : Nat) : ConnectContext where
  nHeight := nHeight
  hashPrevBlock := 9
  hashGenesisBlock := 9
  fEnforceBIP30 := true
  checkBlock _ := true
  checkScripts _ _ := true
  isBlockValueValid _ _ := true
  isBlockPayeeValid _ _ := true

def noAssets : AssetEnv := ⟨fun _ => none, fun _ => none⟩

theorem accepted_pledgeBlock : ∃ l : CDeterministicMNList UniqueProperty,
    Accepted id pledgeEnv pledgeContext pledgeBlock .empty l ∧ (l.getMN 1).isSome = true := by
  refine ⟨_, ⟨?_, rfl⟩, ?_⟩
  · decide
  · rfl

def pledgeChain : ChainEnv := chainEnv pledgeEnv CoinsStack.oneEntryEnv noAssets

def pledgeStart : ChainView :=
  (ChainView.new pledgeChain.coins).call pledgeChain.coins (.setBestBlock 9)

theorem connectBlock_pledgeBlock : ∃ r,
    connectBlock pledgeChain (openContext 1) pledgeBlock pledgeStart = .ok r := by
  refine exists_of_isOk ?_
  decide +kernel

theorem distinctHashes_pledge :
    DistinctHashes pledgeEnv (chainTxs [(pledgeContext, pledgeBlock)]) := by
  have hnodup : ((chainTxs [(pledgeContext, pledgeBlock)]).map pledgeEnv.getHash).Nodup := by decide
  intro a ha b hb heq
  exact inj_on_of_nodup_map hnodup ha hb heq

theorem collateral_unspent_registered : ∃ (view : ChainView)
    (l : CDeterministicMNList UniqueProperty) (dmn : CDeterministicMN),
    MNChain id pledgeEnv pledgeChain [(pledgeContext, pledgeBlock)] view l ∧
    l.getMN 1 = some dmn ∧ ∃ coin, view.coins dmn.collateralOutpoint = some coin ∧
      coin.isSpent = false ∧ coin.out.nValue = dmn.nType.collatAmount := by
  obtain ⟨l, haccepted, hlisted⟩ := accepted_pledgeBlock
  obtain ⟨⟨vtxundo, view⟩, hconnect⟩ := connectBlock_pledgeBlock
  obtain ⟨dmn, hdmn⟩ := isSome_iff_exists.mp hlisted
  have hchain : MNChain id pledgeEnv pledgeChain [(pledgeContext, pledgeBlock)] view
      (l.setBlockHash 11) := by
    refine .next pledgeContext (openContext 1) pledgeBlock (.empty 9)
      ⟨by decide, rfl, haccepted.checks, ?_, vtxundo, hconnect⟩
    exact .rebuilt haccepted (.refl _)
  exact ⟨view, _, dmn, hchain, hdmn, (collateral_unspent_unique hchain
    injective_id distinctHashes_pledge rfl).1 1 dmn hdmn⟩

end CDeterministicMNList

end KorshCore

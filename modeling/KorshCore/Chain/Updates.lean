import KorshCore.Chain.ConnectBlock

/-!
# What connecting a transaction changes

`UpdateCoins` in closed form (`Updated`): the coins that are spent are gone,
those of the outputs are there, the nullifiers of the spends are set, and the
anchors are the same or have a new root. From it follows what a block changes.
-/

namespace KorshCore

open Except List Option SpendDescription Function

variable {env : ChainEnv} {ctx : ConnectContext} {nHeight : Nat} {tx : CTransaction}
  {view view' : ChainView} {o : COutPoint}

/-! ## Coins -/

def CTransaction.spentOutpoints (tx : CTransaction) : List COutPoint :=
  tx.spentInputs.map CTxIn.prevout

def createdCoin (env : ChainEnv) (nHeight : Nat) (tx : CTransaction)
    (o : COutPoint) : Option Coin :=
  if o.hash = env.getHash tx then tx.vout[o.n]?.bind fun out =>
      if isUnspendable out.scriptPubKey then none
      else some (outputCoin tx nHeight out)
  else none

def coinsAfter (env : ChainEnv) (nHeight : Nat) (tx : CTransaction)
    (coins : COutPoint → Option Coin) (o : COutPoint) : Option Coin :=
  (createdCoin env nHeight tx o).or (if o ∈ tx.spentOutpoints then none else coins o)

theorem createdCoin_eq_some {coin : Coin} (h : createdCoin env nHeight tx o = some coin) :
    o.hash = env.getHash tx ∧ ∃ out, tx.vout[o.n]? = some out ∧
      isUnspendable out.scriptPubKey = false ∧ coin = outputCoin tx nHeight out := by
  unfold createdCoin at h
  split_ifs at h with hhash
  obtain ⟨out, hout, h⟩ := bind_eq_some_iff.mp h
  split_ifs at h with hunspendable
  exact ⟨hhash, out, hout, by simpa using hunspendable, (some.inj h).symm⟩

theorem call_spendCoin (env : CoinsEnv) (view : ChainView) (prevout o : COutPoint) :
    (view.call env (.spendCoin prevout)).coins o = if o = prevout then none else view.coins o :=
  update_apply _ _ _ _

theorem spendInputs_view : ∀ {vin : List CTxIn} {view : ChainView} {coins : List Coin},
    spendInputs env vin view = .ok (coins, view') →
    (∀ o, view'.coins o = if o ∈ vin.map CTxIn.prevout then none else view.coins o) ∧
    view'.nullifiers = view.nullifiers ∧ view'.anchors = view.anchors
  | [], _, _, h => by
    cases h
    exact ⟨fun _ => rfl, rfl, rfl⟩
  | txin :: vin, view, coins, h => by
    obtain ⟨coin, hcoin, ⟨rest, view₁⟩, hrest, h⟩ := bind₂_eq_ok_iff.mp h
    cases h
    obtain ⟨hcoins, hnullifiers, hanchors⟩ := spendInputs_view hrest
    refine ⟨fun o => ?_, hnullifiers, hanchors⟩
    rw [hcoins, call_spendCoin]
    by_cases hfirst : o = txin.prevout
    · simp [hfirst]
    · simp [hfirst]

theorem calls_addCoin (env : ChainEnv) (txid : Uint256) (coinOf : CTxOut → Coin)
    (fCoinbase : Bool) : ∀ (vout : List CTxOut) (k : Nat) (view : ChainView),
    let after := view.calls env.coins ((vout.zipIdx k).map fun out =>
      .addCoin ⟨txid, out.2⟩ (coinOf out.1) fCoinbase)
    (∀ o, after.coins o = (if o.hash = txid ∧ k ≤ o.n then vout[o.n - k]?.bind fun out =>
        if isUnspendable (coinOf out).out.scriptPubKey then none
        else some (coinOf out) else none).or (view.coins o)) ∧
    after.nullifiers = view.nullifiers ∧ after.anchors = view.anchors
  | [], k, view => by
    refine ⟨fun o => ?_, rfl, rfl⟩
    simp [ChainView.calls]
  | out :: vout, k, view => by
    obtain ⟨hcoins, hnullifiers, hanchors⟩ :=
      calls_addCoin env txid coinOf fCoinbase vout (k + 1)
        (view.call env.coins (.addCoin ⟨txid, k⟩ (coinOf out) fCoinbase))
    refine ⟨fun o => (hcoins o).trans ?_, hnullifiers, hanchors⟩
    have hcall : (view.call env.coins (.addCoin ⟨txid, k⟩ (coinOf out) fCoinbase)).coins o
        = if isUnspendable (coinOf out).out.scriptPubKey then view.coins o
          else if o = ⟨txid, k⟩ then some (coinOf out) else view.coins o := by
      show (if _ then _ else _ : COutPoint → Option Coin) o = _
      split_ifs with hunspendable ho
      · rfl
      · rw [ho, update_self]
      · rw [update_of_ne ho]
    rw [hcall]
    obtain ⟨hash, n⟩ := o
    -- the first output, a later one, or none
    by_cases hhash : hash = txid
    · subst hhash
      rcases Nat.lt_trichotomy n k with hn | rfl | hn
      · have h₁ : ¬ k ≤ n := by omega
        have h₂ : ¬ k + 1 ≤ n := by omega
        have h₃ : n ≠ k := by omega
        simp [h₁, h₂, h₃]
      · simp only [Nat.sub_self, getElem?_cons_zero, le_refl, and_self, if_true,
          bind_some, Nat.not_succ_le_self, and_false, if_false, none_or]
        split_ifs <;> rfl
      · have h₁ : k + 1 ≤ n := hn
        have h₂ : k ≤ n := by omega
        have h₃ : n ≠ k := by omega
        have h₄ : n - k = (n - (k + 1)) + 1 := by omega
        simp [h₁, h₂, h₃, h₄]
    · have hne : (⟨hash, n⟩ : COutPoint) ≠ ⟨txid, k⟩ := fun heq =>
        hhash (congrArg COutPoint.hash heq)
      simp [hhash, hne]

theorem setNullifiers_apply (spends : List SpendDescription) (spent : Bool)
    (nullifiers : Uint256 → Bool) (nf : Uint256) : spends.foldl (fun nullifiers spend =>
      update nullifiers spend.nullifier spent) nullifiers nf
      = if nf ∈ spends.map nullifier then spent else nullifiers nf := by
  induction spends generalizing nullifiers with
  | nil => rfl
  | cons spend spends ih =>
    rw [foldl_cons, ih]
    by_cases hfirst : nf = spend.nullifier
    · simp [hfirst]
    · simp [hfirst]

def anchorsAfter (env : ChainEnv) (anchors : FlatAnchors) (tx : CTransaction) : FlatAnchors :=
  if tx.hasShieldedPayload && !tx.sapData.vShieldedOutput.isEmpty then
    match anchors.anchors anchors.best with
    | none => anchors
    | some tree =>
      match appendOutputs env tree tx.sapData.vShieldedOutput with
      | .error _ => anchors
      | .ok tree => (flatAnchors env.coins (.pushAnchor tree) anchors).2
  else anchors

theorem updateSapling_eq_ok (h : updateSapling env tx view = .ok view') :
    view'.coins = view.coins ∧ view'.anchors = anchorsAfter env view.anchors tx ∧
      ∀ nf, view'.nullifiers nf = if nf ∈ tx.shieldedSpends.map nullifier then true
          else view.nullifiers nf := by
  unfold updateSapling at h
  cases hpayload : tx.hasShieldedPayload with
  | false =>
    rw [hpayload] at h
    cases h
    refine ⟨rfl, ?_, fun nf => ?_⟩
    · rw [anchorsAfter, hpayload]
      rfl
    · rw [CTransaction.shieldedSpends_of_not_payload hpayload]
      rfl
  | true =>
    rw [hpayload, if_pos rfl] at h
    unfold pushOutputs at h
    cases hempty : tx.sapData.vShieldedOutput.isEmpty with
    | true =>
      rw [hempty] at h
      cases h
      refine ⟨rfl, ?_, setNullifiers_apply tx.shieldedSpends true view.nullifiers⟩
      rw [anchorsAfter, hpayload, hempty]
      rfl
    | false =>
      rw [hempty] at h
      obtain ⟨tree, htree, tree', happend, h⟩ := bind₂_eq_ok_iff.mp h
      cases h
      refine ⟨rfl, ?_, setNullifiers_apply tx.shieldedSpends true view.nullifiers⟩
      have htree : view.anchors.anchors view.anchors.best = some tree := ofOption_eq_ok_iff.mp htree
      rw [anchorsAfter, hpayload, hempty, htree]
      dsimp only
      rw [mapError_eq_ok_iff.mp happend]
      rfl

/-- What `UpdateCoins` changes. -/
structure Updated (env : ChainEnv) (nHeight : Nat) (tx : CTransaction)
    (view view' : ChainView) : Prop where
  coins : ∀ o, view'.coins o = coinsAfter env nHeight tx view.coins o
  nullifiers : ∀ nf, view'.nullifiers nf = if nf ∈ tx.shieldedSpends.map nullifier then true
      else view.nullifiers nf
  anchors : view'.anchors = anchorsAfter env view.anchors tx

theorem updated_of_updateCoins {txundo : CTxUndo}
    (h : updateCoins env nHeight tx view = .ok (txundo, view')) :
    Updated env nHeight tx view view' := by
  obtain ⟨⟨vprevout, view₁⟩, hspend, view₂, hsapling, h⟩ := bind₂_eq_ok_iff.mp h
  cases h
  obtain ⟨hcoins₁, hnullifiers₁, hanchors₁⟩ := spendInputs_view hspend
  obtain ⟨hcoins₂, hnullifiers₂, hanchors₂⟩ := calls_addCoin env
    (env.getHash tx) (outputCoin tx nHeight) tx.isCoinBase tx.vout 0 view₁
  obtain ⟨hcoins, hanchors, hnullifiers⟩ := updateSapling_eq_ok hsapling
  refine ⟨fun o => ?_, fun nf => ?_, ?_⟩
  · rw [hcoins]
    refine (hcoins₂ o).trans ?_
    rw [hcoins₁]
    simp only [zero_le, and_true, Nat.sub_zero]
    rfl
  · rw [hnullifiers, ← hnullifiers₁, ← hnullifiers₂]
    rfl
  · rw [hanchors, ← hanchors₁, ← hanchors₂]
    rfl

variable {state state' : Connecting}

theorem connectTx_eq_ok (h : connectTx env ctx state tx = .ok state') :
    addFee env ctx state tx = .ok state'.nFees ∧ ∃ txundo,
      updateCoins env ctx.nHeight tx state.view = .ok (txundo, state'.view) ∧
      state'.vtxundo = state.vtxundo ++ [txundo] := by
  obtain ⟨nFees, hfee, _, _, ⟨txundo, view⟩, hupdate, h⟩ := bind₃_eq_ok_iff.mp h
  cases h
  exact ⟨hfee, txundo, hupdate, rfl⟩

theorem updated_of_connectTx (h : connectTx env ctx state tx = .ok state') :
    Updated env ctx.nHeight tx state.view state'.view := by
  obtain ⟨_, _, hupdate, _⟩ := connectTx_eq_ok h
  exact updated_of_updateCoins hupdate

/-- What `CheckBlock` guarantees. -/
structure BlockChecked (block : CBlock) : Prop where
  coinbase : ∃ cb rest, block.vtx = cb :: rest ∧ cb.isCoinBase = true
  others : ∀ tx ∈ block.withoutCoinbase, tx.isCoinBase = false
  txs : ∀ tx ∈ block.vtx, TxChecked tx

theorem blockChecked_of_checkBlock {block : CBlock} {u : Unit}
    (h : checkBlock ctx block = .ok u) : BlockChecked block := by
  obtain ⟨_, _, _, hfirst, _, hothers, h⟩ := bind₃_eq_ok_iff.mp h
  have hfirst := require_eq_ok_iff.mp hfirst
  have hothers := all_eq_true.mp (require_eq_ok_iff.mp hothers)
  refine ⟨?_, fun tx htx => by simpa using hothers tx htx, fun tx htx => ?_⟩
  · cases hvtx : block.vtx with
    | nil => simp [hvtx] at hfirst
    | cons cb rest => exact ⟨cb, rest, rfl, by simpa [hvtx] using hfirst⟩
  · exact checkTransaction_eq_ok (forM_eq_ok (mapError_eq_ok_iff.mp h) tx htx)

/-- A block that is not the first one is connected by the loop. -/
structure BlockConnected (env : ChainEnv) (ctx : ConnectContext) (block : CBlock)
    (view : ChainView) (vtxundo : List CTxUndo) (view' : ChainView)
    (state : Connecting) : Prop where
  checked : BlockChecked block
  bestBlock : view.bestBlock = ctx.hashPrevBlock
  loop : block.vtx.foldlM (connectTx env ctx) ⟨0, [], view⟩ = .ok state
  undo : vtxundo = state.vtxundo.tail
  view : view' = state.view.call env.coins (.setBestBlock block.hash)

theorem connectBlock_eq_ok {block : CBlock} {vtxundo : List CTxUndo}
    (hgenesis : block.hash ≠ ctx.hashGenesisBlock)
    (h : connectBlock env ctx block view = .ok (vtxundo, view')) :
    ∃ state, BlockConnected env ctx block view vtxundo view' state := by
  obtain ⟨_, hcheck, _, hbest, h⟩ := bind₂_eq_ok_iff.mp h
  rw [if_neg hgenesis] at h
  obtain ⟨_, _, state, hloop, h⟩ := bind₂_eq_ok_iff.mp h
  obtain ⟨_, _, _, _, h⟩ := bind₂_eq_ok_iff.mp h
  cases h
  exact ⟨state, blockChecked_of_checkBlock hcheck,
    beq_iff_eq.mp (require_eq_ok_iff.mp hbest), hloop, rfl, rfl⟩

structure ChainStep where
  ctx : ConnectContext
  before : ChainView
  block : CBlock

/-- A chain of blocks that `ConnectBlock` accepted, of which the last one comes
first, and the view after it. The genesis block only sets the best block. -/
inductive ConnectedChain (env : ChainEnv) : List ChainStep → ChainView → Prop where
  | genesis (hash : Uint256) : ConnectedChain env []
      ((ChainView.new env.coins).call env.coins (.setBestBlock hash))
  | next {steps : List ChainStep} {view₁ view₂ : ChainView} (ctx : ConnectContext)
      (block : CBlock) (vtxundo : List CTxUndo) : ConnectedChain env steps view₁ →
      block.hash ≠ ctx.hashGenesisBlock →
      connectBlock env ctx block view₁ = .ok (vtxundo, view₂) →
      ConnectedChain env (⟨ctx, view₁, block⟩ :: steps) view₂

def Provenance (env : ChainEnv) (txs : List CTransaction)
    (coins : COutPoint → Option Coin) : Prop :=
  ∀ o coin, coins o = some coin →
    ∃ tx ∈ txs, env.getHash tx = o.hash ∧ tx.vout[o.n]? = some coin.out

variable {txs : List CTransaction}

theorem Provenance.mono {txs' : List CTransaction}
    {coins : COutPoint → Option Coin} (h : Provenance env txs coins)
    (hsub : txs ⊆ txs') : Provenance env txs' coins := by
  intro o coin hcoin
  obtain ⟨tx, htx, hout⟩ := h o coin hcoin
  exact ⟨tx, hsub htx, hout⟩

theorem Updated.provenance
    (h : Updated env nHeight tx view view') (hprovenance : Provenance env txs view.coins)
    (htx : tx ∈ txs) : Provenance env txs view'.coins := by
  intro o coin hcoin
  rw [h.coins, coinsAfter, or_eq_some_iff] at hcoin
  rcases hcoin with hcreated | ⟨-, hold⟩
  · obtain ⟨hhash, out, hout, -, rfl⟩ := createdCoin_eq_some hcreated
    exact ⟨tx, htx, hhash.symm, hout⟩
  · split_ifs at hold
    exact hprovenance o coin hold

variable {vtx : List CTransaction}

theorem Provenance.connectTxs (h : Provenance env txs state.view.coins) (hsub : vtx ⊆ txs)
    (hloop : vtx.foldlM (connectTx env ctx) state = .ok state') :
    Provenance env txs state'.view.coins :=
  foldlM_preserves (P := fun state => Provenance env txs state.view.coins)
    (fun _ _ _ htx hstate hturn =>
      (updated_of_connectTx hturn).provenance hstate (hsub htx)) h hloop

/-! ## Coins that stay -/

/-- There is a coin with the value `v`. -/
def ChainView.HasValue (view : ChainView) (o : COutPoint) (v : Int) : Prop :=
  ∃ coin, view.coins o = some coin ∧ coin.out.nValue = v

/-- Whichever of the transactions creates the output, it has the value `v`. -/
def OutputWorth (env : ChainEnv) (txs : List CTransaction) (o : COutPoint) (v : Int) : Prop :=
  ∀ tx ∈ txs, env.getHash tx = o.hash → ∀ out, tx.vout[o.n]? = some out → out.nValue = v

variable {v : Int}

theorem Updated.hasValue (h : Updated env nHeight tx view view')
    (hvalue : view.HasValue o v) (hunspent : o ∉ tx.spentOutpoints)
    (hworth : OutputWorth env [tx] o v) : view'.HasValue o v := by
  cases hcreated : createdCoin env nHeight tx o with
  | none =>
    obtain ⟨coin, hcoin, hv⟩ := hvalue
    refine ⟨coin, ?_, hv⟩
    rw [h.coins, coinsAfter, hcreated, none_or, if_neg hunspent, hcoin]
  | some coin =>
    obtain ⟨hhash, out, hout, -, rfl⟩ := createdCoin_eq_some hcreated
    refine ⟨outputCoin tx nHeight out, ?_, ?_⟩
    · rw [h.coins, coinsAfter, hcreated, some_or]
    · exact hworth tx mem_cons_self hhash.symm out hout

theorem HasValue.connectTxs
    (h : state.view.HasValue o v) (hunspent : ∀ tx ∈ vtx, o ∉ tx.spentOutpoints)
    (hworth : OutputWorth env vtx o v) (hloop : vtx.foldlM (connectTx env ctx) state = .ok state') :
    state'.view.HasValue o v := by
  refine foldlM_preserves (P := fun state : Connecting => state.view.HasValue o v)
    (fun tx _ _ htx hstate hturn => ?_) h hloop
  refine (updated_of_connectTx hturn).hasValue hstate (hunspent tx htx) ?_
  intro tx' htx' hhash out hout
  rw [mem_singleton] at htx'
  exact hworth tx' (htx' ▸ htx) hhash out hout

theorem hasValue_of_output (htx : tx ∈ vtx)
    (hhash : o.hash = env.getHash tx) {out : CTxOut} (hout : tx.vout[o.n]? = some out)
    (hspendable : isUnspendable out.scriptPubKey = false) (hv : out.nValue = v)
    (hunspent : ∀ tx ∈ vtx, o ∉ tx.spentOutpoints) (hworth : OutputWorth env vtx o v)
    (hloop : vtx.foldlM (connectTx env ctx) state = .ok state') : state'.view.HasValue o v := by
  obtain ⟨before, after, rfl⟩ := append_of_mem htx
  rw [foldlM_append] at hloop
  obtain ⟨state₁, _, state₂, hturn, hrest⟩ := bind₂_eq_ok_iff.mp hloop
  have hcreated : createdCoin env ctx.nHeight tx o = some (outputCoin tx ctx.nHeight out) := by
    rw [createdCoin, if_pos hhash, hout, bind_some, hspendable]
    rfl
  have hhas : state₂.view.HasValue o v := by
    refine ⟨outputCoin tx ctx.nHeight out, ?_, hv⟩
    rw [(updated_of_connectTx hturn).coins, coinsAfter, hcreated, some_or]
  exact HasValue.connectTxs hhas (fun tx' htx' => hunspent tx' (by simp [htx']))
    (fun tx' htx' => hworth tx' (by simp [htx'])) hrest

end KorshCore

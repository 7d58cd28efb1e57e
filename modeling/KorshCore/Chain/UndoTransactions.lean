import KorshCore.Chain.DisconnectBlock

/-!
# Undoing transactions

The loop of `DisconnectBlock` over the transactions, with the undo data that
`UpdateCoins` left.
-/

namespace KorshCore

open Except List Option Function SpendDescription

variable {env : ChainEnv} {ctx : ConnectContext} {tx : CTransaction}
  {view view' : ChainView} {fEnforceBIP30 : Bool}

/-! ## Coins -/

def CoinsWellFormed (coins : COutPoint → Option Coin) : Prop :=
  ∀ o coin, coins o = some coin → coin.nHeight ≠ 0 ∧ isUnspendable coin.out.scriptPubKey = false

theorem Updated.wellFormed {nHeight : Nat} (h : Updated env nHeight tx view view')
    (hheight : nHeight ≠ 0) (hcoins : CoinsWellFormed view.coins) :
    CoinsWellFormed view'.coins := by
  intro o coin hcoin
  rw [h.coins, coinsAfter, or_eq_some_iff] at hcoin
  rcases hcoin with hcreated | ⟨-, hold⟩
  · obtain ⟨-, out, -, hspendable, rfl⟩ := createdCoin_eq_some hcreated
    exact ⟨hheight, hspendable⟩
  · split_ifs at hold
    exact hcoins o coin hold

theorem CoinsWellFormed.connectTxs {vtx : List CTransaction} {state state' : Connecting}
    (h : CoinsWellFormed state.view.coins) (hheight : ctx.nHeight ≠ 0)
    (hloop : vtx.foldlM (connectTx env ctx) state = .ok state') :
    CoinsWellFormed state'.view.coins :=
  foldlM_preserves (P := fun state : Connecting => CoinsWellFormed state.view.coins)
    (fun _ _ _ _ hstate hturn => (updated_of_connectTx hturn).wellFormed hheight hstate) h hloop

/-- By induction on the blocks of a chain, none of which has the height of the genesis
block. -/
theorem ConnectedChain.wellFormed {steps : List ChainStep} (h : ConnectedChain env steps view)
    (hheights : ∀ step ∈ steps, step.ctx.nHeight ≠ 0) : CoinsWellFormed view.coins := by
  induction h with
  | genesis hash => exact fun _ _ hcoin => by cases hcoin
  | next ctx block vtxundo _ hgenesis hconnect ih =>
    have hbefore := ih fun step hstep => hheights step (mem_cons_of_mem _ hstep)
    obtain ⟨state, hconnected⟩ := connectBlock_eq_ok hgenesis hconnect
    rw [hconnected.view]
    exact hbefore.connectTxs (hheights _ mem_cons_self) hconnected.loop

/-- The coins of the outputs are there, and those of the inputs are not. -/
def CleanlyUndone (env : ChainEnv) (nHeight : Nat) (tx : CTransaction)
    (coins : COutPoint → Option Coin) : Prop :=
  (∀ o coin, createdCoin env nHeight tx o = some coin → coins o = some coin) ∧
  ∀ o ∈ tx.spentOutpoints, createdCoin env nHeight tx o = none → coins o = none

def coinsUndone (env : ChainEnv) (nHeight : Nat) (tx : CTransaction)
    (before coins : COutPoint → Option Coin) (o : COutPoint) : Option Coin :=
  if o ∈ tx.spentOutpoints then before o
  else if (createdCoin env nHeight tx o).isSome then none else coins o

/-- No output overwrites a coin, unless the transaction spends it. -/
def FreeOutput (env : ChainEnv) (nHeight : Nat) (tx : CTransaction)
    (coins : COutPoint → Option Coin) : Prop :=
  ∀ o, (createdCoin env nHeight tx o).isSome = true → o ∉ tx.spentOutpoints → coins o = none

theorem restores_iff {nHeight : Nat} {before coins : COutPoint → Option Coin} :
    CleanlyUndone env nHeight tx coins ∧ coinsUndone env nHeight tx before coins = before ↔
      coins = coinsAfter env nHeight tx before ∧ FreeOutput env nHeight tx before := by
  constructor
  · rintro ⟨⟨hcreated, hspent⟩, hundone⟩
    have hundone (o) : coinsUndone env nHeight tx before coins o = before o := congrFun hundone o
    constructor
    · funext o
      unfold coinsAfter
      cases hcoin : createdCoin env nHeight tx o with
      | some coin => exact hcreated o coin hcoin
      | none =>
        rw [none_or]
        split_ifs with ho
        · exact hspent o ho hcoin
        · rw [← hundone o, coinsUndone, if_neg ho, hcoin]
          rfl
    · intro o hsome ho
      rw [← hundone o, coinsUndone, if_neg ho, if_pos hsome]
  · rintro ⟨rfl, hfree⟩
    refine ⟨⟨fun o coin hcoin => ?_, fun o ho hcoin => ?_⟩, funext fun o => ?_⟩
    · rw [coinsAfter, hcoin, some_or]
    · rw [coinsAfter, hcoin, none_or, if_pos ho]
    · unfold coinsUndone
      split_ifs with ho hsome
      · rfl
      · exact (hfree o hsome ho).symm
      · rw [Bool.not_eq_true, isSome_eq_false_iff, isNone_iff_eq_none] at hsome
        rw [coinsAfter, hsome, none_or, if_neg ho]

/-! ## One transaction -/

def spendableCoin (tx : CTransaction) (nHeight : Nat) (out : CTxOut) : Option Coin :=
  if isUnspendable out.scriptPubKey then none else some (outputCoin tx nHeight out)

def createdFrom (env : ChainEnv) (nHeight : Nat) (tx : CTransaction)
    (vout : List CTxOut) (k : Nat) (o : COutPoint) : Option Coin :=
  if o.hash = env.getHash tx ∧ k ≤ o.n then vout[o.n - k]?.bind (spendableCoin tx nHeight)
  else none

theorem createdFrom_zero (nHeight : Nat) :
    createdFrom env nHeight tx tx.vout 0 = createdCoin env nHeight tx := by
  funext o
  simp only [createdFrom, createdCoin, zero_le, and_true, Nat.sub_zero]
  rfl

theorem createdFrom_cons (nHeight : Nat) (out : CTxOut) (vout : List CTxOut) (k : Nat)
    (o : COutPoint) : createdFrom env nHeight tx (out :: vout) k o
      = if o = ⟨env.getHash tx, k⟩ then spendableCoin tx nHeight out
        else createdFrom env nHeight tx vout (k + 1) o := by
  obtain ⟨hash, n⟩ := o
  unfold createdFrom
  by_cases hhash : hash = env.getHash tx
  · rcases Nat.lt_trichotomy n k with hn | rfl | hn
    · have h₁ : ¬ k ≤ n := by omega
      have h₂ : ¬ k + 1 ≤ n := by omega
      have h₃ : n ≠ k := by omega
      simp [h₁, h₂, h₃]
    · simp
    · have h₁ : k + 1 ≤ n := hn
      have h₂ : k ≤ n := by omega
      have h₃ : n ≠ k := by omega
      have h₄ : n - k = (n - (k + 1)) + 1 := by omega
      simp [h₁, h₂, h₃, h₄]
  · simp [hhash]

theorem spendOutput_eq (env : ChainEnv) (ctx : ConnectContext)
    (hexception : (tx.isCoinBase && !fEnforceBIP30) = false)
    (state : Disconnecting) (out : CTxOut) (k : Nat) : let first : COutPoint := ⟨env.getHash tx, k⟩
    let after := spendOutput env ctx fEnforceBIP30 tx state (out, k)
    (after.fClean = true ↔ state.fClean = true ∧ ∀ coin,
      spendableCoin tx ctx.nHeight out = some coin → state.view.coins first = some coin) ∧
    after.view = { state.view with
      coins := fun o => if o = first ∧ (spendableCoin tx ctx.nHeight out).isSome = true
        then none else state.view.coins o } := by
  unfold spendOutput spendableCoin
  by_cases hunspendable : isUnspendable out.scriptPubKey = true
  · simp [hunspendable]
  · rw [if_neg hunspendable, if_neg hunspendable, hexception]
    refine ⟨by simp, ?_⟩
    simp only [isSome_some, and_true]
    exact congrArg (fun coins => { state.view with coins := coins })
      (funext fun o => call_spendCoin env.coins state.view _ o)

theorem spendOutputs_eq (env : ChainEnv) (ctx : ConnectContext)
    (hexception : (tx.isCoinBase && !fEnforceBIP30) = false) :
    ∀ (vout : List CTxOut) (k : Nat) (state : Disconnecting),
    let created := createdFrom env ctx.nHeight tx vout k
    let after := (vout.zipIdx k).foldl (spendOutput env ctx fEnforceBIP30 tx) state
    (after.fClean = true ↔ state.fClean = true ∧
      ∀ o coin, created o = some coin → state.view.coins o = some coin) ∧
    after.view = { state.view with
      coins := fun o => if (created o).isSome then none else state.view.coins o }
  | [], k, state => by
    simp [createdFrom]
  | out :: vout, k, state => by
    obtain ⟨hclean, hview⟩ := spendOutputs_eq env ctx hexception vout (k + 1)
      (spendOutput env ctx fEnforceBIP30 tx state (out, k))
    obtain ⟨hclean₁, hview₁⟩ := spendOutput_eq env ctx hexception state out k
    dsimp only at hclean hview hclean₁ hview₁ ⊢
    have hself : createdFrom env ctx.nHeight tx vout (k + 1) ⟨env.getHash tx, k⟩ = none := by
      simp [createdFrom]
    rw [zipIdx_cons, foldl_cons, hclean, hview, hclean₁, hview₁]
    simp only [createdFrom_cons]
    refine ⟨?_, ?_⟩
    · rw [and_assoc]
      refine and_congr_right fun _ => ⟨fun ⟨hfirst, hrest⟩ o coin ho => ?_,
        fun h => ⟨fun coin hcoin => h _ coin (by rw [if_pos rfl, hcoin]), fun o coin ho => ?_⟩⟩
      · split_ifs at ho with heq
        · exact heq ▸ hfirst coin ho
        · have hcoin := hrest o coin ho
          rwa [if_neg fun h => heq h.1] at hcoin
      · have heq : o ≠ ⟨env.getHash tx, k⟩ := by
          rintro rfl
          rw [hself] at ho
          cases ho
        rw [if_neg fun h => heq h.1]
        exact h o coin (by rw [if_neg heq, ho])
    · congr 1
      funext o
      by_cases heq : o = ⟨env.getHash tx, k⟩
      · subst heq
        simp [hself]
      · simp [heq]

variable {before : COutPoint → Option Coin}

theorem applyTxInUndo_eq (hwell : CoinsWellFormed before) {input : CTxIn × Coin}
    (hcoin : before input.1.prevout = some input.2) (state : Disconnecting) :
    applyTxInUndo env state input = .ok
      ⟨state.fClean && (state.view.coins input.1.prevout).isNone, { state.view with
          coins := update state.view.coins input.1.prevout (some input.2) }⟩ := by
  obtain ⟨hheight, hspendable⟩ := hwell _ _ hcoin
  have hrestored : restoredCoin input.2 state.view input.1.prevout = .ok input.2 := by
    rw [restoredCoin, if_neg hheight]
  unfold applyTxInUndo
  dsimp only
  rw [hrestored]
  have hcall : (flatCoins (.addCoin input.1.prevout input.2
      !(state.view.coins input.1.prevout).isNone) state.view.coins).2
        = update state.view.coins input.1.prevout (some input.2) := by
    show (if _ then _ else _) = _
    rw [if_neg (by simp [hspendable])]
  exact congrArg (fun coins => Except.ok (Disconnecting.mk _
    { state.view with coins := coins })) hcall

theorem applyTxInUndos_eq (env : ChainEnv) (hwell : CoinsWellFormed before) :
    ∀ {inputs : List (CTxIn × Coin)}
    (state : Disconnecting), (∀ input ∈ inputs, before input.1.prevout = some input.2) →
    (inputs.map fun input => input.1.prevout).Nodup →
    ∃ after, inputs.foldlM (applyTxInUndo env) state = .ok after ∧
      (after.fClean = true ↔ state.fClean = true ∧
        ∀ o ∈ inputs.map fun input => input.1.prevout, state.view.coins o = none) ∧
      after.view = { state.view with
        coins := fun o => if o ∈ inputs.map fun input => input.1.prevout
          then before o else state.view.coins o }
  | [], state, _, _ => ⟨state, rfl, by simp, by simp⟩
  | input :: inputs, state, hcoins, hnodup => by
    rw [map_cons, nodup_cons] at hnodup
    have hfirst := hcoins input mem_cons_self
    obtain ⟨after, hfold, hclean, hview⟩ := applyTxInUndos_eq env hwell
      ⟨state.fClean && (state.view.coins input.1.prevout).isNone, { state.view with
          coins := update state.view.coins input.1.prevout (some input.2) }⟩
      (fun input' hinput' => hcoins input' (mem_cons_of_mem _ hinput')) hnodup.2
    refine ⟨after, ?_, ?_, ?_⟩
    · rw [foldlM_cons, applyTxInUndo_eq hwell hfirst, ok_bind, hfold]
    · rw [hclean]
      simp only [Bool.and_eq_true, isNone_iff_eq_none, map_cons, forall_mem_cons, and_assoc]
      refine and_congr_right fun _ => and_congr_right fun _ =>
        forall_congr' fun o => forall_congr' fun ho => ?_
      rw [update_of_ne (ne_of_mem_of_not_mem ho hnodup.1)]
    · rw [hview]
      dsimp only
      congr 1
      funext o
      by_cases ho : o = input.1.prevout
      · subst ho
        rw [if_neg hnodup.1, update_self, map_cons, if_pos mem_cons_self, hfirst]
      · rw [update_of_ne ho]
        refine if_congr ?_ rfl rfl
        rw [map_cons, mem_cons, or_iff_right ho]

/-- The undo data of a transaction are the coins that its inputs had. There
are none for a coinbase. -/
def UndoOf (tx : CTransaction) (before : COutPoint → Option Coin) : Option CTxUndo → Prop
  | none => tx.spentInputs = []
  | some txundo => tx.spentInputs = tx.vin ∧ tx.spentOutpoints.Nodup ∧
    tx.vin.map (fun txin => before txin.prevout) = txundo.vprevout.map some

theorem mem_zip_of_map_eq : ∀ {vin : List CTxIn}
    {coins : List Coin}, vin.map (fun txin => before txin.prevout) = coins.map some →
    vin.length = coins.length ∧ ∀ input ∈ vin.zip coins, before input.1.prevout = some input.2
  | [], [], _ => ⟨rfl, by simp⟩
  | txin :: vin, coin :: coins, h => by
    rw [map_cons, map_cons, cons.injEq] at h
    obtain ⟨hlength, hinputs⟩ := mem_zip_of_map_eq h.2
    refine ⟨congrArg (· + 1) hlength, fun input hinput => ?_⟩
    rw [zip_cons_cons, mem_cons] at hinput
    rcases hinput with rfl | hinput
    · exact h.1
    · exact hinputs input hinput

theorem restoreUndo_eq (env : ChainEnv) (hwell : CoinsWellFormed before)
    {entry : Option CTxUndo} (hundo : UndoOf tx before entry) (state : Disconnecting) :
    ∃ after, restoreUndo env tx state entry = .ok after ∧
      (after.fClean = true ↔ state.fClean = true ∧
        ∀ o ∈ tx.spentOutpoints, state.view.coins o = none) ∧ after.view = { state.view with
        coins := fun o => if o ∈ tx.spentOutpoints then before o
          else state.view.coins o } := by
  cases entry with
  | none =>
    refine ⟨state, rfl, ?_, ?_⟩ <;>
      simp [CTransaction.spentOutpoints, show tx.spentInputs = [] from hundo]
  | some txundo =>
    obtain ⟨hinputs, hnodup, hcoins⟩ := hundo
    obtain ⟨hlength, hmem⟩ := mem_zip_of_map_eq hcoins
    have hprevouts : ((tx.vin.zip txundo.vprevout).reverse.map
        fun input => input.1.prevout) = tx.spentOutpoints.reverse := by
      have hmap := map_map (g := CTxIn.prevout) (f := Prod.fst) (l := tx.vin.zip txundo.vprevout)
      rw [map_fst_zip hlength.le] at hmap
      rw [map_reverse, CTransaction.spentOutpoints, hinputs, hmap]
      rfl
    obtain ⟨after, hfold, hclean, hview⟩ := applyTxInUndos_eq env hwell state
      (fun input hinput => hmem input (mem_reverse.mp hinput))
      (hprevouts ▸ nodup_reverse.mpr hnodup)
    refine ⟨after, ?_, ?_, ?_⟩
    · show restoreInputs env tx txundo state = _
      rw [restoreInputs, if_neg (by simp [hlength]), hfold]
    · rw [hclean, hprevouts]
      simp
    · rw [hview, hprevouts]
      simp

theorem disconnectTx_eq (env : ChainEnv) (ctx : ConnectContext)
    (hwell : CoinsWellFormed before) (hexception : (tx.isCoinBase && !fEnforceBIP30) = false)
    {entry : Option CTxUndo} (hundo : UndoOf tx before entry) (state : Disconnecting) :
    ∃ after, disconnectTx env ctx fEnforceBIP30 state (tx, entry) = .ok after ∧
      (after.fClean = true ↔ state.fClean = true ∧
        CleanlyUndone env ctx.nHeight tx state.view.coins) ∧
      after.view.coins = coinsUndone env ctx.nHeight tx before state.view.coins ∧
      (∀ nf, after.view.nullifiers nf = if nf ∈ tx.shieldedSpends.map nullifier then false
          else state.view.nullifiers nf) ∧ after.view.anchors = state.view.anchors ∧
      after.view.bestBlock = state.view.bestBlock := by
  obtain ⟨hclean₁, hview₁⟩ := spendOutputs_eq env ctx hexception tx.vout 0 state
  obtain ⟨state₂, hrestore, hclean₂, hview₂⟩ := restoreUndo_eq env hwell hundo
    (tx.vout.zipIdx.foldl (spendOutput env ctx fEnforceBIP30 tx) state)
  rw [createdFrom_zero] at hclean₁ hview₁
  rw [hview₁] at hview₂
  rw [hclean₁, hview₁] at hclean₂
  refine ⟨_, bind_eq_ok_iff.mpr ⟨state₂, hrestore, rfl⟩, ?_, ?_⟩
  · dsimp only at hclean₂ ⊢
    rw [hclean₂, and_assoc]
    refine and_congr_right fun _ => and_congr_right fun _ =>
      forall_congr' fun o => forall_congr' fun _ => ?_
    cases createdCoin env ctx.nHeight tx o <;> simp
  · cases hpayload : tx.hasShieldedPayload with
    | false =>
      rw [hview₂, CTransaction.shieldedSpends_of_not_payload hpayload]
      exact ⟨rfl, fun _ => rfl, rfl, rfl⟩
    | true =>
      rw [hview₂]
      exact ⟨rfl, setNullifiers_apply tx.shieldedSpends false state.view.nullifiers, rfl, rfl⟩

/-! ## All transactions of a block -/

def FreeOutputs (env : ChainEnv) (nHeight : Nat) : List CTransaction →
    (COutPoint → Option Coin) → Prop
  | [], _ => True
  | tx :: txs, coins => FreeOutput env nHeight tx coins ∧
    FreeOutputs env nHeight txs (coinsAfter env nHeight tx coins)

/-- Transactions that `UpdateCoins` took one after the other, with their undo
data. -/
inductive Undoable (env : ChainEnv) (nHeight : Nat) : List CTransaction → ChainView →
    List (Option CTxUndo) → ChainView → Prop where
  | nil (view : ChainView) : Undoable env nHeight [] view [] view
  | cons {tx : CTransaction} {txs : List CTransaction} {view view₁ view₂ : ChainView}
      {txundo : CTxUndo} {entry : Option CTxUndo} {entries : List (Option CTxUndo)} :
      updateCoins env nHeight tx view = .ok (txundo, view₁) →
      UndoOf tx view.coins entry → Undoable env nHeight txs view₁ entries view₂ →
      Undoable env nHeight (tx :: txs) view (entry :: entries) view₂

theorem Undoable.disconnect {txs : List CTransaction} {entries : List (Option CTxUndo)}
    (h : Undoable env ctx.nHeight txs view entries view') (hheight : ctx.nHeight ≠ 0)
    (hwell : CoinsWellFormed view.coins) (state : Disconnecting)  :
    ∃ after, (txs.zip entries).reverse.foldlM (disconnectTx env ctx true) state = .ok after ∧
      (after.fClean = true ∧ after.view.coins = view.coins ↔ state.fClean = true ∧
        state.view.coins = view'.coins ∧ FreeOutputs env ctx.nHeight txs view.coins) ∧
      (∀ nf, after.view.nullifiers nf
        = if nf ∈ revealedBy txs then false else state.view.nullifiers nf) ∧
      after.view.anchors = state.view.anchors ∧ after.view.bestBlock = state.view.bestBlock := by
  generalize hn : ctx.nHeight = n at h
  induction h with
  | nil view =>
    refine ⟨state, rfl, ?_, fun _ => rfl, rfl, rfl⟩
    simp [FreeOutputs]
  | @cons tx txs view view₁ view₂ txundo entry entries hupdate hundo hrest ih =>
    subst hn
    have hupdated := updated_of_updateCoins hupdate
    obtain ⟨mid, hfold, hiff, hnullifiers, hanchors, hblock⟩ :=
      ih (hupdated.wellFormed hheight hwell)
    have henforced : (tx.isCoinBase && !true) = false := Bool.and_false _
    obtain ⟨after, hstep, hclean, hcoins, hnullifiers', hanchors', hblock'⟩ :=
      disconnectTx_eq env ctx hwell henforced hundo mid
    have hrevealed : revealedBy (tx :: txs)
        = tx.shieldedSpends.map nullifier ++ revealedBy txs := rfl
    refine ⟨after, ?_, ?_, fun nf => ?_, hanchors'.trans hanchors, hblock'.trans hblock⟩
    · rw [zip_cons_cons, reverse_cons, foldlM_append, hfold, ok_bind, foldlM_cons, hstep]
      rfl
    · rw [hclean, hcoins, and_assoc, restores_iff, ← funext hupdated.coins, ← and_assoc,
        hiff, FreeOutputs, ← funext hupdated.coins]
      exact ⟨fun ⟨⟨hclean, hview, hrest⟩, hfree⟩ => ⟨hclean, hview, hfree, hrest⟩,
        fun ⟨hclean, hview, hfree, hrest⟩ => ⟨⟨hclean, hview, hrest⟩, hfree⟩⟩
    · rw [hnullifiers', hnullifiers, hrevealed]
      by_cases hfirst : nf ∈ tx.shieldedSpends.map nullifier
      · rw [if_pos hfirst, if_pos (mem_append_left _ hfirst)]
      · rw [if_neg hfirst]
        refine if_congr ?_ rfl rfl
        rw [mem_append, or_iff_right hfirst]

end KorshCore

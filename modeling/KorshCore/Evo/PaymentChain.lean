import KorshCore.Evo.PaymentSteps

/-!
# The payment data of a chain

The lists of a chain of accepted blocks, and what holds for the payment data
in each of them (`PaymentSound`): no height lies ahead, one masternode at most
was paid by the last block, and only this one has payments in a row.
-/

namespace KorshCore

open CDeterministicMN Option Function

namespace CDeterministicMNList

variable {H : Type} [DecidableEq H] {hash : UniqueProperty → H} {env : ProTxEnv}
  {ctx : BlockContext} {block : CBlock} {txs : List CTransaction} {l l' r : CDeterministicMNList H}

/-! ## Chains -/

/-- The list after one more block. It is computed, or reached by the
difference, and its maps may be in any order. -/
inductive NextList (hash : UniqueProperty → H) (env : ProTxEnv) (ctx : BlockContext)
    (block : CBlock) (l : CDeterministicMNList H) : CDeterministicMNList H → Prop where
  | rebuilt {l₁ l₂ : CDeterministicMNList H} : Accepted hash env ctx block l l₁ →
      SameList (l₁.setBlockHash block.hash) l₂ → NextList hash env ctx block l l₂
  | applied {l₁ l₂ l₃ : CDeterministicMNList H} {diff : CDeterministicMNListDiff} :
      Accepted hash env ctx block l l₁ → SameList l₁ l₂ →
      SameDiff (l.buildDiff l₂) diff →
      applyDiff hash block.hash ctx.nHeight diff l = .ok l₃ →
      NextList hash env ctx block l l₃

/-- The list is that of the previous block, or there was none. -/
def FollowsHeight (ctx : BlockContext) (l : CDeterministicMNList H) : Prop :=
  0 ≤ ctx.prevHeight ∧ (l.nHeight = ctx.prevHeight ∨ l.nHeight = -1)

omit [DecidableEq H] in
theorem FollowsHeight.lt (h : FollowsHeight ctx l) : l.nHeight < ctx.nHeight ∧ 0 < ctx.nHeight := by
  obtain ⟨hpos, hheight⟩ := h
  unfold BlockContext.nHeight
  omega

/-- The lists of a chain of accepted blocks, of which the last one comes
first. -/
inductive PaidChain (hash : UniqueProperty → H) (env : ProTxEnv) :
    List (BlockContext × CBlock) → CDeterministicMNList H → Prop where
  | empty : PaidChain hash env [] .empty
  | initial (blockHash : Uint256) (nHeight : Int) : 0 ≤ nHeight →
      PaidChain hash env [] (make blockHash nHeight 0)
  | next {blocks : List (BlockContext × CBlock)} {l₁ l₂ : CDeterministicMNList H}
      (ctx : BlockContext) (block : CBlock) :
      PaidChain hash env blocks l₁ → FollowsHeight ctx l₁ →
      NextList hash env ctx block l₁ l₂ →
      PaidChain hash env ((ctx, block) :: blocks) l₂

theorem ChainSound.setBlockHash (h : ChainSound hash env txs l) (blockHash : Uint256) :
    ChainSound hash env txs (l.setBlockHash blockHash) :=
  ⟨h.indexed.setHeader _ _, h.listable, h.count, h.registered⟩

theorem NextList.chainSound (hnext : NextList hash env ctx block l r)
    (h : ChainSound hash env txs l) (hinj : Injective hash)
    (hdistinct : DistinctHashes env (block.vtx ++ txs)) :
    ChainSound hash env (block.vtx ++ txs) r := by
  cases hnext with
  | rebuilt haccepted hsame =>
    exact ((h.rebuilt hinj hdistinct haccepted).setBlockHash block.hash).congr hsame
  | applied haccepted hsame hdiff hr =>
    exact h.applied hinj hdistinct haccepted hsame hdiff hr

omit [DecidableEq H] in
theorem PaysBlock.congr (h : PaysBlock ctx l l') (hheight : r.nHeight = l'.nHeight)
    (hpayments : ∀ p, r.payments p = l'.payments p) : PaysBlock ctx l r where
  height := hheight.trans h.height
  old hdata hdata' := h.old hdata (hpayments _ ▸ hdata')
  new hnone hdata := h.new hnone (hpayments _ ▸ hdata)

theorem NextList.paysBlock (hnext : NextList hash env ctx block l r)
    (h : ChainSound hash env txs l) (hinj : Injective hash)
    (hdistinct : DistinctHashes env (block.vtx ++ txs)) : PaysBlock ctx l r := by
  cases hnext with
  | rebuilt haccepted hsame =>
    refine (h.paysBlock hinj hdistinct haccepted).congr hsame.nHeight fun p => ?_
    exact congrArg _ (hsame.mns p)
  | applied haccepted hsame hdiff hr =>
    rename_i l' l₂ diff
    have hfollows := (h.follows hinj hdistinct haccepted).congr hsame
    obtain ⟨r', hr', _, _, hheight, _, hget⟩ := hfollows.applyDiff hinj hdiff block.hash ctx.nHeight
    cases hr.symm.trans hr'
    have hpays := h.paysBlock hinj hdistinct haccepted
    refine hpays.congr (hheight.trans hpays.height.symm) fun p => ?_
    unfold payments
    rw [hget, target, ← hsame.mns]
    cases hb : l₂.getMN p with
    | none => rfl
    | some b =>
      cases ha : l.getMN p with
      | none => rfl
      | some a =>
        simp only [map_some, getD_some]
        rw [targetMN_eq (hfollows.same ha hb)]
        rfl

/-! ## The payment data of a chain -/

structure PaymentSound (l : CDeterministicMNList H) : Prop where
  nType : ∀ {p data}, l.payments p = some data → data.nType.isValid = true
  registered : ∀ {p data}, l.payments p = some data → data.nRegisteredHeight ≤ l.nHeight
  paid : ∀ {p data}, l.payments p = some data → data.nLastPaidHeight ≤ l.nHeight
  revived : ∀ {p data}, l.payments p = some data → data.nPoSeRevivedHeight ≤ l.nHeight
  payee : ∀ {p q data data'}, l.payments p = some data → l.payments q = some data' →
    data.nLastPaidHeight = l.nHeight → data'.nLastPaidHeight = l.nHeight → p = q
  /-- Only this one has payments in a row. -/
  inARow : ∀ {p data}, l.payments p = some data → data.nType = .evo →
    data.nConsecutivePayments ≠ 0 → data.nLastPaidHeight = l.nHeight
  nonneg : ∀ {p data}, l.payments p = some data → data.nType = .evo → 0 ≤ data.nConsecutivePayments

omit [DecidableEq H] in
theorem paymentSound_make (blockHash : Uint256) (nHeight : Int) (count : Nat) :
    (make blockHash nHeight count : CDeterministicMNList H).PaymentSound := by
  have hnone : ∀ p, (make blockHash nHeight count : CDeterministicMNList H).payments p
      = none := fun _ => rfl
  constructor <;> simp [hnone]

omit [DecidableEq H] in
theorem PaysBlock.eq_payee (hpays : PaysBlock ctx l l') (h : l.PaymentSound)
    (hheight : FollowsHeight ctx l) {p : Uint256} {data : PaymentData}
    (hdata : l'.payments p = some data) (hpaid : data.nLastPaidHeight = l'.nHeight) :
    (l.getMNPayee ctx).map proTxHash = some p := by
  have hlt := hheight.lt
  rw [hpays.height] at hpaid
  cases hold : l.payments p with
  | none =>
    have := (hpays.new hold hdata).paid
    omega
  | some before =>
    by_contra hnot
    have hkept := (hpays.old hold hdata).unpaid hnot
    have := h.paid hold
    omega

omit [DecidableEq H] in
theorem PaymentSound.next (h : l.PaymentSound) (hheight : FollowsHeight ctx l)
    (hpays : PaysBlock ctx l l') : l'.PaymentSound := by
  have hlt := hheight.lt
  have hnew := hpays.height
  refine ⟨?_, ?_, ?_, ?_, ?_, ?_, ?_⟩
  · intro p data hdata
    cases hold : l.payments p with
    | none => exact (hpays.new hold hdata).nType
    | some before =>
      rw [(hpays.old hold hdata).nType]
      exact h.nType hold
  · intro p data hdata
    cases hold : l.payments p with
    | none => exact ((hpays.new hold hdata).registered.trans hnew.symm).le
    | some before =>
      have := (hpays.old hold hdata).registered
      have := h.registered hold
      omega
  · intro p data hdata
    cases hold : l.payments p with
    | none =>
      have := (hpays.new hold hdata).paid
      omega
    | some before =>
      by_cases hpayee : (l.getMNPayee ctx).map proTxHash = some p
      · exact ((hpays.old hold hdata).paid hpayee |>.trans hnew.symm).le
      · have := (hpays.old hold hdata).unpaid hpayee
        have := h.paid hold
        omega
  · intro p data hdata
    cases hold : l.payments p with
    | none =>
      have := (hpays.new hold hdata).revived
      omega
    | some before =>
      have := (hpays.old hold hdata).revived
      have := h.revived hold
      omega
  · intro p q data data' hp hq hpaid hpaid'
    exact some.inj ((hpays.eq_payee h hheight hp hpaid).symm.trans
      (hpays.eq_payee h hheight hq hpaid'))
  · intro p data hdata hevo hnonzero
    cases hold : l.payments p with
    | none => exact absurd (hpays.new hold hdata).consecutive hnonzero
    | some before =>
      have hpaid := hpays.old hold hdata
      rw [hpaid.nType] at hevo
      by_cases hpayee : (l.getMNPayee ctx).map proTxHash = some p
      · exact (hpaid.paid hpayee).trans hnew.symm
      · exact absurd (hpaid.reset hevo fun hboth => hpayee hboth.1) hnonzero
  · intro p data hdata hevo
    cases hold : l.payments p with
    | none => exact (hpays.new hold hdata).consecutive.ge
    | some before =>
      have hpaid := hpays.old hold hdata
      rw [hpaid.nType] at hevo
      by_cases hboth : (l.getMNPayee ctx).map proTxHash = some p ∧
          ctx.isMNRewardReallocation = false
      · have := hpaid.inARow hevo hboth.1 hboth.2
        have := h.nonneg hold hevo
        omega
      · exact (hpaid.reset hevo hboth).ge

theorem PaidChain.sound {blocks : List (BlockContext × CBlock)}
    (h : PaidChain hash env blocks l) (hinj : Injective hash)
    (hdistinct : DistinctHashes env (chainTxs blocks)) :
    ChainSound hash env (chainTxs blocks) l ∧ l.PaymentSound := by
  induction h with
  | empty => exact ⟨chainSound_make 0 (-1), paymentSound_make 0 (-1) 0⟩
  | initial blockHash nHeight _ =>
    exact ⟨chainSound_make blockHash nHeight, paymentSound_make blockHash nHeight 0⟩
  | next ctx block _ hheight hnext ih =>
    obtain ⟨hsound, hpayments⟩ := ih hdistinct.tail
    exact ⟨hnext.chainSound hsound hinj hdistinct,
      hpayments.next hheight (hnext.paysBlock hsound hinj hdistinct)⟩

end CDeterministicMNList

end KorshCore

import KorshCore.Evo.PaymentChain
import KorshCore.Lib.RoundRobin

/-!
# Payments in turn

As long as the valid masternodes stay the same and none of them is revived, the
payments are a weighted round robin: a list stands for a point of its cycle
(`Represents`), and the block leads to the next point (`Represents.next`).
-/

namespace KorshCore

open CDeterministicMN List Function MnType ProTxVersion

namespace CDeterministicMNList

variable {H : Type} [DecidableEq H] {hash : UniqueProperty → H} {env : ProTxEnv}
  {ctx : BlockContext} {txs : List CTransaction} {l l' : CDeterministicMNList H}

/-! ## Points of the cycle -/

def paymentWeight (inARow : Bool) (nType : MnType) : Nat :=
  if inARow then nType.votingWeight else 1

theorem paymentWeight_pos {inARow : Bool} {nType : MnType}
    (h : nType.isValid = true) : 0 < paymentWeight inARow nType := by
  unfold paymentWeight
  cases nType with
  | invalid code => cases h
  | regular => split_ifs <;> decide
  | evo => split_ifs <;> decide

/-- The masternode `p` comes before `q` in the queue. -/
def Before (l : CDeterministicMNList H) (p q : Uint256) : Prop :=
  ∀ data data', l.payments p = some data → l.payments q = some data' →
    paymentKey p data < paymentKey q data'

inductive Phase (inARow : Bool) (l : CDeterministicMNList H) : Round Uint256 → Prop where
  /-- The last payee is done and comes last. -/
  | waiting {current : Uint256} {queue : List Uint256} : (∀ p ∈ queue, l.Before p current) →
      (inARow = true → ∀ q, ¬ l.Continues q) →
      (inARow = true → ∀ p data, queue.head? = some p → l.payments p = some data →
        data.nType = .evo → data.nConsecutivePayments = 0) →
      Phase inARow l ⟨current, 0, queue⟩
  /-- The last payee is paid again. -/
  | continuing {current : Uint256} {left : Nat} {queue : List Uint256}
      {data : PaymentData} : inARow = true → l.payments current = some data →
      data.nPoSeBanHeight = -1 → data.nType = .evo →
      data.nLastPaidHeight = l.nHeight →
      data.nConsecutivePayments + (left + 1) = (evo.votingWeight : Int) →
      Phase inARow l ⟨current, left + 1, queue⟩
  /-- The last payee is done, and first in the queue once more, as the others
  have come to the list with the same block. -/
  | again {current : Uint256} {queue : List Uint256} : (∀ p ∈ queue, l.Before current p) →
      (inARow = true → ∀ q, ¬ l.Continues q) →
      (inARow = true → ∀ data, l.payments current = some data → data.nType = .evo →
        (evo.votingWeight : Int) ≤ data.nConsecutivePayments + 1) →
      Phase inARow l ⟨current, 1, queue⟩
  /-- There is nobody else. -/
  | alone {current : Uint256} {left : Nat} : Phase inARow l ⟨current, left, []⟩

structure Represents (inARow : Bool) (weight : Uint256 → Nat)
    (l : CDeterministicMNList H) (round : Round Uint256) : Prop where
  members : ∀ p, p ∈ round.members ↔ l.Valid p
  wellFormed : round.WellFormed weight
  weight : ∀ {p data}, p ∈ round.members → l.payments p = some data →
    weight p = paymentWeight inARow data.nType
  sorted : round.queue.Pairwise l.Before
  phase : Phase inARow l round

variable {inARow : Bool} {weight : Uint256 → Nat} {round : Round Uint256}

/-! ## Who is paid -/

variable {p : Uint256}

theorem getMNPayee_of_alone (hl : l.Indexed hash) (h : ∀ q, l.Valid q ↔ q = p) :
    (l.getMNPayee ctx).map proTxHash = some p := by
  by_cases hcontinues : paysInARow ctx = true ∧ l.Continues p
  · exact getMNPayee_of_continues hl hcontinues.1 hcontinues.2 fun q hq => (h q).mp hq.valid
  · obtain ⟨data, hdata, hvalid⟩ := (h p).mpr rfl
    refine getMNPayee_of_first hl ?_ hdata hvalid ?_
    · intro hrule q hq
      have heq := (h q).mp hq.valid
      subst heq
      exact hcontinues ⟨hrule, hq⟩
    · intro q data' hne hdata' hvalid'
      exact absurd ((h q).mp ⟨data', hdata', hvalid'⟩) hne

theorem getMNPayee_of_before (hl : l.Indexed hash)
    (hnobody : paysInARow ctx = true → ∀ q, ¬ l.Continues q)
    (hvalid : l.Valid p) (hfirst : ∀ q, q ≠ p → l.Valid q → l.Before p q) :
    (l.getMNPayee ctx).map proTxHash = some p := by
  obtain ⟨data, hdata, hunbanned⟩ := hvalid
  refine getMNPayee_of_first hl hnobody hdata hunbanned ?_
  intro q data' hne hdata' hunbanned'
  exact hfirst q hne ⟨data', hdata', hunbanned'⟩ data data' hdata hdata'

theorem Represents.payee (h : l.Represents inARow weight round)
    (hl : l.Indexed hash) (hsound : l.PaymentSound) (hrule : paysInARow ctx = inARow) :
    (l.getMNPayee ctx).map proTxHash = some round.served := by
  obtain ⟨hmembers, -, -, hsorted, hphase⟩ := h
  subst hrule
  cases hphase with
  | @waiting current queue hlast hnobody _ =>
    cases queue with
    | nil =>
      refine getMNPayee_of_alone hl fun q => ?_
      rw [← hmembers]
      exact mem_singleton
    | cons x queue =>
      refine getMNPayee_of_before hl hnobody ((hmembers x).mp (mem_cons_of_mem _ mem_cons_self)) ?_
      intro q hne hq
      rcases mem_cons.mp ((hmembers q).mpr hq) with rfl | hmem
      · exact hlast x mem_cons_self
      · rcases mem_cons.mp hmem with rfl | hmem
        · exact absurd rfl hne
        · exact (pairwise_cons.mp hsorted).1 q hmem
  | @continuing current left queue data hinARow hdata hunbanned hevo hpaid hsum =>
    refine getMNPayee_of_continues hl hinARow ⟨data, hdata, hunbanned, hevo, hpaid, by omega⟩ ?_
    rintro q ⟨data', hdata', _, _, hpaid', _⟩
    exact hsound.payee hdata' hdata hpaid' hpaid
  | @again current queue hfirst hnobody _ =>
    refine getMNPayee_of_before hl hnobody ((hmembers current).mp mem_cons_self) ?_
    intro q hne hq
    rcases mem_cons.mp ((hmembers q).mpr hq) with rfl | hmem
    · exact absurd rfl hne
    · exact hfirst q hmem
  | @alone current left =>
    have hserved : Round.served ⟨current, left, []⟩ = current := by
      unfold Round.served
      split_ifs <;> rfl
    rw [hserved]
    refine getMNPayee_of_alone hl fun q => ?_
    rw [← hmembers]
    exact mem_singleton

/-! ## One block -/

variable {data : PaymentData}

omit [DecidableEq H] in
theorem PaymentSound.height_le (h : l.PaymentSound)
    (hdata : l.payments p = some data) : data.height ≤ l.nHeight := by
  unfold PaymentData.height
  split_ifs
  · exact h.revived hdata
  · exact h.registered hdata
  · exact h.paid hdata

structure Steady (l l' : CDeterministicMNList H) : Prop where
  valid : ∀ p, l'.Valid p ↔ l.Valid p
  revived : ∀ {p data data'}, l.Valid p → l.payments p = some data →
    l'.payments p = some data' → data'.nPoSeRevivedHeight = data.nPoSeRevivedHeight

/-- A block that pays `x` and is steady otherwise. -/
structure SteadyPayment (ctx : BlockContext) (l l' : CDeterministicMNList H)
    (x : Uint256) : Prop where
  before : l.PaymentSound
  height : FollowsHeight ctx l
  pays : PaysBlock ctx l l'
  steady : Steady l l'
  payee : (l.getMNPayee ctx).map CDeterministicMN.proTxHash = some x

omit [DecidableEq H] in
theorem evo_of_paymentWeight {nType : MnType} (h : 1 < paymentWeight inARow nType) :
    inARow = true ∧ nType = .evo := by
  unfold paymentWeight at h
  cases nType with
  | evo =>
    split_ifs at h with hinARow
    · exact ⟨hinARow, rfl⟩
    · omega
  | regular => split_ifs at h <;> simp [votingWeight] at h
  | invalid code => split_ifs at h <;> simp [votingWeight] at h

theorem isMNRewardReallocation_of_paysInARow (h : paysInARow ctx = true) :
    ctx.isMNRewardReallocation = false := by
  unfold paysInARow at h
  simp only [Bool.and_eq_true, Bool.not_eq_true'] at h
  exact h.2

namespace SteadyPayment

omit [DecidableEq H]

variable {x p q : Uint256} {data' : PaymentData} {queue : List Uint256}
  (h : SteadyPayment ctx l l' x)

include h

theorem exists_paid (hp : l.Valid p) (hdata' : l'.payments p = some data') :
    ∃ data, l.payments p = some data ∧ Paid ctx (x = p) data data' ∧
      data'.nPoSeRevivedHeight = data.nPoSeRevivedHeight := by
  obtain ⟨data, hdata, hunbanned⟩ := hp
  have hpaid := h.pays.old hdata hdata'
  rw [h.payee, Option.some.injEq] at hpaid
  exact ⟨data, hdata, hpaid, h.steady.revived ⟨data, hdata, hunbanned⟩ hdata hdata'⟩

theorem height_other (hp : l.Valid p) (hne : p ≠ x) (hdata' : l'.payments p = some data') :
    ∃ data, l.payments p = some data ∧ data'.height = data.height := by
  obtain ⟨data, hdata, hpaid, hrevived⟩ := h.exists_paid hp hdata'
  refine ⟨data, hdata, ?_⟩
  unfold PaymentData.height
  rw [hrevived, hpaid.unpaid (Ne.symm hne), hpaid.registered]

theorem height_payee (hx : l.Valid x) (hdata' : l'.payments x = some data') :
    data'.height = ctx.nHeight := by
  obtain ⟨data, hdata, hpaid, hrevived⟩ := h.exists_paid hx hdata'
  have hlt := h.height.lt
  have hle := h.before.revived hdata
  have hnew := hpaid.paid rfl
  unfold PaymentData.height
  rw [if_neg (by omega), if_neg (by omega)]
  exact hnew

theorem before_other (hp : l.Valid p) (hq : l.Valid q) (hpx : p ≠ x) (hqx : q ≠ x)
    (hbefore : l.Before p q) : l'.Before p q := by
  intro data data' hdata hdata'
  obtain ⟨old, hold, heq⟩ := h.height_other hp hpx hdata
  obtain ⟨old', hold', heq'⟩ := h.height_other hq hqx hdata'
  have hless := hbefore old old' hold hold'
  unfold paymentKey at hless ⊢
  rw [heq, heq']
  exact hless

theorem before_payee (hp : l.Valid p) (hx : l.Valid x) (hpx : p ≠ x) : l'.Before p x := by
  intro data data' hdata hdata'
  obtain ⟨old, hold, heq⟩ := h.height_other hp hpx hdata
  have hle := h.before.height_le hold
  have hlt := h.height.lt
  unfold paymentKey
  rw [h.height_payee hx hdata']
  left
  omega

theorem eq_of_continues (hcontinues : l'.Continues q) : q = x := by
  obtain ⟨data', hdata', _, _, hpaid, _⟩ := hcontinues
  have hpayee := h.pays.eq_payee h.before h.height hdata' hpaid
  exact (Option.some.inj (h.payee.symm.trans hpayee)).symm

theorem waiting (hvalid : ∀ p ∈ x :: queue, l.Valid p) (hnodup : (x :: queue).Nodup)
    (hdone : inARow = true → ¬ l'.Continues x) : Phase inARow l' ⟨x, 0, queue⟩ := by
  have hne : ∀ p ∈ queue, p ≠ x := by
    rintro p hp rfl
    exact (nodup_cons.mp hnodup).1 hp
  have hx := hvalid x mem_cons_self
  refine .waiting ?_ ?_ ?_
  · intro p hp
    exact h.before_payee (hvalid p (mem_cons_of_mem x hp)) hx (hne p hp)
  · intro hinARow q hq
    have heq := h.eq_of_continues hq
    subst heq
    exact hdone hinARow hq
  · intro _ p data hhead hdata hevo
    have hp := mem_of_mem_head? hhead
    obtain ⟨_, -, hpaid, -⟩ := h.exists_paid (hvalid p (mem_cons_of_mem x hp)) hdata
    exact hpaid.reset (hpaid.nType ▸ hevo) fun hboth => hne p hp hboth.1.symm

theorem pairwise (hvalid : ∀ p ∈ queue, l.Valid p) (hne : x ∉ queue)
    (hsorted : queue.Pairwise l.Before) : queue.Pairwise l'.Before := by
  refine hsorted.imp_of_mem fun {p q} hp hq hbefore => ?_
  refine h.before_other (hvalid p hp) (hvalid q hq) ?_ ?_ hbefore
  · rintro rfl
    exact hne hp
  · rintro rfl
    exact hne hq

theorem exists_inARow (hrule : paysInARow ctx = true) (hdata : l.payments x = some data)
    (hx : l.Valid x) (hevo : data.nType = .evo) :
    ∃ data', l'.payments x = some data' ∧ data'.nPoSeBanHeight = -1 ∧
      data'.nType = .evo ∧ data'.nLastPaidHeight = l'.nHeight ∧
      data'.nConsecutivePayments = data.nConsecutivePayments + 1 := by
  obtain ⟨data', hdata', hunbanned⟩ := (h.steady.valid x).mpr hx
  obtain ⟨data₀, hdata₀, hpaid, _⟩ := h.exists_paid hx hdata'
  cases hdata.symm.trans hdata₀
  exact ⟨data', hdata', hunbanned, hpaid.nType.trans hevo,
    (hpaid.paid rfl).trans h.pays.height.symm,
    hpaid.inARow hevo rfl (isMNRewardReallocation_of_paysInARow hrule)⟩

theorem not_continues (hrule : paysInARow ctx = true) (hx : l.Valid x)
    (hdone : ∀ data, l.payments x = some data → data.nType = .evo →
      (evo.votingWeight : Int) ≤ data.nConsecutivePayments + 1) : ¬ l'.Continues x := by
  rintro ⟨data', hdata', _, hevo', _, hless⟩
  obtain ⟨data, hdata, hpaid, _⟩ := h.exists_paid hx hdata'
  have hevo : data.nType = .evo := hpaid.nType ▸ hevo'
  have hnext := hpaid.inARow hevo rfl (isMNRewardReallocation_of_paysInARow hrule)
  have := hdone data hdata hevo
  omega

theorem serve {current : Uint256} (hrule : paysInARow ctx = inARow)
    (hrep : l.Represents inARow weight ⟨current, 0, x :: queue⟩)
    (hlast : ∀ p ∈ x :: queue, l.Before p current)
    (hfresh : inARow = true → ∀ data, l.payments x = some data → data.nType =
      .evo → data.nConsecutivePayments = 0) : (queue ++ [current]).Pairwise l'.Before ∧
      Phase inARow l' ⟨x, weight x - 1, queue ++ [current]⟩ := by
  have hperm : (x :: (queue ++ [current])).Perm (current :: x :: queue) :=
    perm_append_singleton current (x :: queue)
  have hvalid : ∀ p ∈ x :: (queue ++ [current]), l.Valid p := fun p hp =>
    (hrep.members p).mp (hperm.subset hp)
  have hnodup : (x :: (queue ++ [current])).Nodup := hperm.nodup_iff.mpr hrep.wellFormed.nodup
  constructor
  · refine h.pairwise (fun p hp => hvalid p (mem_cons_of_mem x hp))
      (nodup_cons.mp hnodup).1 (pairwise_append.mpr ⟨?_, ?_, ?_⟩)
    · exact (pairwise_cons.mp hrep.sorted).2
    · exact pairwise_singleton _ _
    · intro p hp q hq
      rw [mem_singleton.mp hq]
      exact hlast p (mem_cons_of_mem x hp)
  · have hx := hvalid x mem_cons_self
    have ⟨data, hdata, _⟩ := hx
    have hmember : x ∈ Round.members ⟨current, 0, x :: queue⟩ := mem_cons_of_mem _ mem_cons_self
    have hweight := hrep.weight hmember hdata
    cases hleft : weight x - 1 with
    | zero =>
      refine h.waiting hvalid hnodup fun hinARow => ?_
      refine h.not_continues (hrule.trans hinARow) hx fun data₁ hdata₁ hevo => ?_
      -- an Evo node would have more than one payment
      cases hdata.symm.trans hdata₁
      rw [paymentWeight, if_pos hinARow, hevo, votingWeight] at hweight
      omega
    | succ left =>
      have hseveral : 1 < paymentWeight inARow data.nType := by omega
      obtain ⟨hinARow, hevo⟩ := evo_of_paymentWeight hseveral
      obtain ⟨data', hdata', hunbanned', hevo', hpaid', hnext⟩ :=
        h.exists_inARow (hrule.trans hinARow) hdata hx hevo
      refine .continuing hinARow hdata' hunbanned' hevo' hpaid' ?_
      rw [hnext, hfresh hinARow data hdata hevo]
      rw [paymentWeight, if_pos hinARow, hevo] at hweight
      omega

end SteadyPayment

omit [DecidableEq H] in
theorem Represents.next (h : l.Represents inARow weight round)
    (hrule : paysInARow ctx = inARow) (hpay : SteadyPayment ctx l l' round.served) :
    l'.Represents inARow weight (round.next weight) := by
  have hrest : (round.next weight).queue.Pairwise l'.Before ∧
      Phase inARow l' (round.next weight) := by
    have hmembers := h.members
    have hnodup := h.wellFormed.nodup
    have hsorted := h.sorted
    have hphase := h.phase
    cases hphase with
    | @waiting current queue hlast _ hfresh =>
      cases queue with
      | nil => exact ⟨Pairwise.nil, .alone⟩
      | cons x queue =>
        exact hpay.serve hrule h hlast fun hinARow data =>
          hfresh hinARow x data rfl
    | @continuing current left queue data hinARow hdata hunbanned hevo hpaid hsum =>
      have hcurrent := (hmembers current).mp mem_cons_self
      have hqueue : ∀ p ∈ queue, l.Valid p := fun p hp =>
        (hmembers p).mp (mem_cons_of_mem current hp)
      refine ⟨hpay.pairwise hqueue (nodup_cons.mp hnodup).1 hsorted, ?_⟩
      cases left with
      | zero =>
        refine hpay.waiting (fun p hp => (hmembers p).mp hp) hnodup fun _ => ?_
        refine hpay.not_continues (hrule.trans hinARow) hcurrent fun data₁ hdata₁ _ => ?_
        cases hdata.symm.trans hdata₁
        show (evo.votingWeight : Int) ≤ _
        omega
      | succ left =>
        obtain ⟨data', hdata', hunbanned', hevo', hpaid', hnext⟩ :=
          hpay.exists_inARow (hrule.trans hinARow) hdata hcurrent hevo
        exact .continuing hinARow hdata' hunbanned' hevo' hpaid' (by omega)
    | @again current queue hfirst _ hdone =>
      have hcurrent := (hmembers current).mp mem_cons_self
      have hqueue : ∀ p ∈ queue, l.Valid p := fun p hp =>
        (hmembers p).mp (mem_cons_of_mem current hp)
      refine ⟨hpay.pairwise hqueue (nodup_cons.mp hnodup).1 hsorted, ?_⟩
      refine hpay.waiting (fun p hp => (hmembers p).mp hp) hnodup fun hinARow => ?_
      exact hpay.not_continues (hrule.trans hinARow) hcurrent (hdone hinARow)
    | @alone current left =>
      unfold Round.next
      split_ifs
      · exact ⟨Pairwise.nil, .alone⟩
      · exact ⟨Pairwise.nil, .alone⟩
  refine ⟨?_, h.wellFormed.next, ?_, hrest.1, hrest.2⟩
  · intro p
    rw [Round.members_next.mem_iff, h.members, hpay.steady.valid]
  · intro p data' hp hdata'
    have hp := Round.members_next.subset hp
    obtain ⟨data, hdata, hpaid, _⟩ := hpay.exists_paid ((h.members p).mp hp) hdata'
    rw [h.weight hp hdata, hpaid.nType]

/-! ## Where a chain stands -/

theorem exists_queue (hl : l.Indexed hash) : ∃ queue : List Uint256,
    queue.Perm (l.validMNs.map proTxHash) ∧ queue.Pairwise l.Before := by
  have hnodup : (l.validMNs.map proTxHash).Nodup := hl.nodup_mns.sublist (filter_sublist.map _)
  have hperm := perm_insertionSort (fun a b : CDeterministicMN => a.key ≤ b.key) l.validMNs
  refine ⟨(l.validMNs.insertionSort fun a b => a.key ≤ b.key).map proTxHash, hperm.map _, ?_⟩
  have hdistinct := pairwise_map.mp ((hperm.map _).nodup_iff.mpr hnodup)
  have hle := pairwise_insertionSort (fun a b : CDeterministicMN => a.key ≤ b.key) l.validMNs
  refine pairwise_map.mpr ((hle.and hdistinct).imp_of_mem ?_)
  rintro a b ha hb ⟨hab, hne⟩ data data' hdata hdata'
  obtain rfl := Option.some.inj (hdata.symm.trans (hl.payments_of_mem (hperm.subset ha)))
  obtain rfl := Option.some.inj (hdata'.symm.trans (hl.payments_of_mem (hperm.subset hb)))
  refine lt_of_le_of_ne hab fun heq => hne ?_
  exact uint256Bytes_injective (congrArg Prod.snd (toLex.injective heq))

def weightOf (inARow : Bool) (l : CDeterministicMNList H) (p : Uint256) : Nat :=
  (l.payments p).elim 0 fun data => paymentWeight inARow data.nType

omit [DecidableEq H] in
theorem weightOf_eq (h : l.payments p = some data) :
    weightOf inARow l p = paymentWeight inARow data.nType := by
  rw [weightOf, h]
  rfl

theorem represents_of_perm (hl : l.Indexed hash) (hsound : l.PaymentSound)
    (hperm : round.members.Perm (l.validMNs.map proTxHash))
    (hleft : round.left ≤ weightOf inARow l round.current)
    (hsorted : round.queue.Pairwise l.Before) (hphase : Phase inARow l round) :
    l.Represents inARow (weightOf inARow l) round := by
  have hmembers : ∀ p, p ∈ round.members ↔ l.Valid p := by
    intro p
    rw [hperm.mem_iff, mem_map, hl.valid_iff]
  refine ⟨hmembers, ⟨?_, hleft, ?_⟩, ?_, hsorted, hphase⟩
  · intro p hp
    obtain ⟨data, hdata, _⟩ := (hmembers p).mp hp
    rw [weightOf_eq hdata]
    exact paymentWeight_pos (hsound.nType hdata)
  · exact hperm.nodup_iff.mpr (hl.nodup_mns.sublist (filter_sublist.map _))
  · intro p data _ hdata
    exact weightOf_eq hdata

theorem exists_represents (hl : l.Indexed hash) (hsound : l.PaymentSound)
    (inARow : Bool) (hne : l.validMNs ≠ []) :
    ∃ round, l.Represents inARow (weightOf inARow l) round ∧
      round.members.Perm (l.validMNs.map proTxHash) := by
  obtain ⟨queue, hperm, hsorted⟩ := exists_queue hl
  have hvalid : ∀ p, p ∈ queue ↔ l.Valid p := by
    intro p
    rw [hperm.mem_iff, mem_map, hl.valid_iff]
  by_cases hcontinues : inARow = true ∧ ∃ p, l.Continues p
  · -- the last payee is still to be paid
    obtain ⟨hinARow, p, hp⟩ := hcontinues
    have hmem := (hvalid p).mpr hp.valid
    obtain ⟨data, hdata, hunbanned, hevo, hpaid, hless⟩ := hp
    have hnonneg := hsound.nonneg hdata hevo
    obtain ⟨left, hleft⟩ : ∃ left : Nat, data.nConsecutivePayments + (left + 1)
        = (evo.votingWeight : Int) := ⟨((evo.votingWeight : Int)
          - data.nConsecutivePayments - 1).toNat, by omega⟩
    have hperm' : (p :: queue.erase p).Perm (l.validMNs.map proTxHash) :=
      (perm_cons_erase hmem).symm.trans hperm
    refine ⟨⟨p, left + 1, queue.erase p⟩, represents_of_perm hl hsound hperm' ?_
      (hsorted.sublist erase_sublist)
      (.continuing hinARow hdata hunbanned hevo hpaid hleft), hperm'⟩
    rw [weightOf_eq hdata, paymentWeight, if_pos hinARow, hevo]
    show left + 1 ≤ _
    omega
  have hnobody : inARow = true → ∀ q, ¬ l.Continues q := fun hinARow q hq =>
    hcontinues ⟨hinARow, q, hq⟩
  cases queue with
  | nil => exact absurd (map_eq_nil_iff.mp hperm.symm.eq_nil) hne
  | cons x queue =>
    obtain ⟨data, hdata, hunbanned⟩ := (hvalid x).mp mem_cons_self
    by_cases hagain : inARow = true ∧ data.nType = .evo ∧ data.nConsecutivePayments ≠ 0
    · -- the last payee is done, and first again
      obtain ⟨hinARow, hevo, hnonzero⟩ := hagain
      have hpaid := hsound.inARow hdata hevo hnonzero
      refine ⟨⟨x, 1, queue⟩, represents_of_perm hl hsound hperm ?_ (pairwise_cons.mp hsorted).2
        (.again (pairwise_cons.mp hsorted).1 hnobody ?_), hperm⟩
      · rw [weightOf_eq hdata]
        exact paymentWeight_pos (hsound.nType hdata)
      · intro _ data₁ hdata₁ _
        cases hdata.symm.trans hdata₁
        by_contra hless
        exact hnobody hinARow x ⟨data, hdata, hunbanned, hevo, hpaid, by omega⟩
    · have hsplit : (x :: queue).dropLast ++ [(x :: queue).getLast (by simp)]
          = x :: queue := dropLast_append_getLast (by simp)
      have hperm' : ((x :: queue).getLast (by simp) :: (x :: queue).dropLast).Perm
          (l.validMNs.map proTxHash) := by
        refine Perm.trans ?_ hperm
        rw [perm_comm]
        nth_rewrite 1 [← hsplit]
        exact perm_append_singleton _ _
      rw [← hsplit, pairwise_append] at hsorted
      refine ⟨⟨(x :: queue).getLast (by simp), 0, (x :: queue).dropLast⟩,
        represents_of_perm hl hsound hperm' (Nat.zero_le _) hsorted.1
          (.waiting ?_ hnobody ?_), hperm'⟩
      · intro p hp
        exact hsorted.2.2 p hp _ (mem_singleton.mpr rfl)
      · intro hinARow p data₁ hhead hdata₁ hevo
        cases queue with
        | nil => cases hhead
        | cons y queue =>
          obtain rfl : x = p := Option.some.inj hhead
          cases hdata.symm.trans hdata₁
          by_contra hnonzero
          exact hagain ⟨hinARow, hevo, hnonzero⟩

/-! ## Consecutive blocks -/

structure PaidBlock (H : Type) where
  ctx : BlockContext
  block : CBlock
  prevList : CDeterministicMNList H
  newList : CDeterministicMNList H

def PaidBlock.payee (b : PaidBlock H) : Option Uint256 :=
  (b.prevList.getMNPayee b.ctx).map CDeterministicMN.proTxHash

def PaidBlock.RecordsPayee (b : PaidBlock H) : Prop :=
  ∀ p, b.payee = some p → ∃ dmn, b.newList.getMN p = some dmn ∧
    dmn.pdmnState.nLastPaidHeight = b.ctx.nHeight

/-- Consecutive accepted blocks on the list `l`. -/
def ConsecutiveBlocks (hash : UniqueProperty → H) (env : ProTxEnv) :
    CDeterministicMNList H → List (PaidBlock H) → Prop
  | _, [] => True
  | l, b :: bs => b.prevList = l ∧ FollowsHeight b.ctx l ∧
      NextList hash env b.ctx b.block l b.newList ∧
      ConsecutiveBlocks hash env b.newList bs

def blocksTxs (bs : List (PaidBlock H)) : List CTransaction :=
  bs.flatMap fun b => b.block.vtx

def totalWeight (inARow : Bool) (l : CDeterministicMNList H) : Nat :=
  (l.validMNs.map fun dmn => paymentWeight inARow dmn.nType).sum

/-- The payees of consecutive steady blocks are those that the round robin
serves. -/
theorem payees_eq_serve (hinj : Injective hash) {bs : List (PaidBlock H)}
    (h : l.Represents inARow weight round) (hchain : ChainSound hash env txs l)
    (hsound : l.PaymentSound) (hblocks : ConsecutiveBlocks hash env l bs)
    (hdistinct : DistinctHashes env (blocksTxs bs ++ txs))
    (hrule : ∀ b ∈ bs, paysInARow b.ctx = inARow)
    (hsteady : ∀ b ∈ bs, Steady b.prevList b.newList) :
    bs.map PaidBlock.payee = (round.serve weight bs.length).map some ∧
      ∀ b ∈ bs, b.RecordsPayee := by
  induction bs generalizing l round txs with
  | nil => exact ⟨rfl, fun _ hb => absurd hb (not_mem_nil)⟩
  | cons b bs ih =>
    obtain ⟨rfl, hheight, hnext, hrest⟩ := hblocks
    have hrule₀ := hrule b mem_cons_self
    have hdistinct₀ : DistinctHashes env (b.block.vtx ++ txs) := by
      refine Set.InjOn.mono (fun tx htx => ?_) hdistinct
      rcases mem_append.mp htx with htx | htx
      · exact mem_append_left _ (mem_append_left _ htx)
      · exact mem_append_right _ htx
    have hpayee := h.payee hchain.indexed hsound hrule₀
    have hpays := hnext.paysBlock hchain hinj hdistinct₀
    have hpay : SteadyPayment b.ctx b.prevList b.newList round.served :=
      ⟨hsound, hheight, hpays, hsteady b mem_cons_self, hpayee⟩
    have hdistinct₁ : DistinctHashes env (blocksTxs bs ++ (b.block.vtx ++ txs)) := by
      refine Set.InjOn.mono (fun tx htx => ?_) hdistinct
      simp only [blocksTxs, flatMap_cons, Set.mem_ofPred_eq, mem_append] at htx ⊢
      tauto
    obtain ⟨hpayees, hrecords⟩ := ih (h.next hrule₀ hpay)
      (hnext.chainSound hchain hinj hdistinct₀) (hsound.next hheight hpays) hrest
      hdistinct₁ (fun b' hb' => hrule b' (mem_cons_of_mem b hb'))
      (fun b' hb' => hsteady b' (mem_cons_of_mem b hb'))
    constructor
    · rw [map_cons, hpayees]
      exact congrArg (· :: _) hpayee
    · intro b' hb'
      rcases mem_cons.mp hb' with rfl | hb'
      · intro p hp
        cases hpayee.symm.trans hp
        have hvalid := (h.members _).mp Round.served_mem
        obtain ⟨data', hdata', _⟩ := (hpay.steady.valid _).mpr hvalid
        obtain ⟨_, _, hpaid, _⟩ := hpay.exists_paid hvalid hdata'
        obtain ⟨dmn, hdmn, rfl⟩ := Option.map_eq_some_iff.mp hdata'
        exact ⟨dmn, hdmn, hpaid.paid rfl⟩
      · exact hrecords b' hb'

/-- On every list of a chain, over as many blocks as the valid masternodes
weigh together, during which they stay the same, none of them is revived and
the payment rule does not change: each valid masternode is the payee of as
many blocks as it weighs, and every block records its payee. -/
theorem count_payees_eq_weight {H : Type} [DecidableEq H]
    {hash : UniqueProperty → H} (hinj : Injective hash) {env : ProTxEnv}
    {blocks : List (BlockContext × CBlock)} {l : CDeterministicMNList H}
    (hchain : PaidChain hash env blocks l) {inARow : Bool} {bs : List (PaidBlock H)}
    (hblocks : ConsecutiveBlocks hash env l bs)
    (hdistinct : DistinctHashes env (blocksTxs bs ++ chainTxs blocks))
    (hlength : bs.length = totalWeight inARow l) (hrule : ∀ b ∈ bs, paysInARow b.ctx = inARow)
    (hsteady : ∀ b ∈ bs, Steady b.prevList b.newList) : (∀ b ∈ bs, b.RecordsPayee) ∧
    ∀ dmn ∈ l.validMNs, (bs.map PaidBlock.payee).count (some dmn.proTxHash)
      = paymentWeight inARow dmn.nType := by
  obtain ⟨hsound, hpayments⟩ := hchain.sound hinj hdistinct.tail
  by_cases hne : l.validMNs = []
  · have hnil : bs = [] := by
      rw [totalWeight, hne] at hlength
      exact length_eq_zero_iff.mp hlength
    subst hnil
    exact ⟨fun _ hb => absurd hb (not_mem_nil), fun dmn hdmn => absurd (hne ▸ hdmn) (not_mem_nil)⟩
  obtain ⟨round, hrep, hperm⟩ := exists_represents hsound.indexed hpayments inARow hne
  obtain ⟨hpayees, hrecords⟩ := payees_eq_serve hinj hrep hsound hpayments hblocks
    hdistinct hrule hsteady
  refine ⟨hrecords, fun dmn hdmn => ?_⟩
  have hdata := hsound.indexed.payments_of_mem hdmn
  have hweights : (round.members.map (weightOf inARow l)).sum = bs.length := by
    rw [hlength, (hperm.map _).sum_eq, map_map]
    refine congrArg sum (map_congr_left fun a ha => ?_)
    exact weightOf_eq (hsound.indexed.payments_of_mem ha)
  have hmember : dmn.proTxHash ∈ round.members := hperm.mem_iff.mpr (mem_map_of_mem hdmn)
  rw [hpayees, count_map_of_injective _ _ (Option.some_injective _),
    Round.count_serve hrep.wellFormed hweights.symm hmember, weightOf_eq hdata]
  rfl

/-! ## Two masternodes -/

def pairEnv : ProTxEnv :=
  { sampleEnv with
    proRegTx := fun tx =>
      let id := tx.vExtraPayload.headD 0
      some
        { nVersion := legacyBLS
          nType := .regular
          nMode := 0
          collateralOutpoint := ⟨0, 0⟩
          netInfo := .mn (.service ⟨.ipv4, [id, 1, 1, 1], 9777⟩)
          platformNodeID := 0
          platformP2PPort := 0
          platformHTTPPort := 0
          keyIDOwner := BitVec.ofNat 160 id.toNat
          pubKeyOperator := some ⟨[id], true⟩
          keyIDVoting := BitVec.ofNat 160 id.toNat
          nOperatorReward := 0
          scriptPayout := sampleScript
          inputsHash := 0
          vchSig := [] }
    proUpServTx := fun _ => some
      { nVersion := legacyBLS
        nType := .regular
        proTxHash := 2
        netInfo := .mn (.service ⟨.ipv4, [2, 1, 1, 1], 9777⟩)
        platformNodeID := 0
        platformP2PPort := 0
        platformHTTPPort := 0
        scriptOperatorPayout := []
        inputsHash := 0
        sig := [] }
    proUpRegTx := fun _ => some
      { nVersion := legacyBLS
        proTxHash := 2
        nMode := 0
        pubKeyOperator := some ⟨[9], true⟩
        keyIDVoting := 2
        scriptPayout := sampleScript
        inputsHash := 0
        vchSig := [] } }

def pairBlock : CBlock := ⟨11, [sampleTx 0 5, sampleTx 1 1, sampleTx 1 2]⟩

def plainBlock (hash : Uint256) (id : UInt8) : CBlock := ⟨hash, [sampleTx 0 id]⟩

/-- A block that bans the second masternode by a new operator key, and revives
it by a service update. -/
def revivalBlock : CBlock := ⟨12, [sampleTx 0 6, sampleTx 3 7, sampleTx 2 8]⟩

def pairNext (ctx : BlockContext) (block : CBlock)
    (l : CDeterministicMNList UniqueProperty) : CDeterministicMNList UniqueProperty :=
  match rebuildListFromBlock id pairEnv ctx block l with
  | .ok l' => l'.setBlockHash block.hash
  | .error _ => l

def pairList : CDeterministicMNList UniqueProperty :=
  pairNext (sampleContext 0 9) pairBlock .empty

def pairRun (first : CBlock) : List (PaidBlock UniqueProperty) :=
  let newList := pairNext (sampleContext 11 10) first pairList
  [⟨sampleContext 11 10, first, pairList, newList⟩, ⟨sampleContext 12 11, plainBlock 13 9, newList,
      pairNext (sampleContext 12 11) (plainBlock 13 9) newList⟩]

theorem paidChain_pairList : PaidChain id pairEnv [(sampleContext 0 9, pairBlock)] pairList := by
  refine .next _ _ .empty ⟨by decide, .inr rfl⟩ (.rebuilt ⟨?_, rfl⟩ (.refl _))
  decide

theorem consecutiveBlocks_plain :
    ConsecutiveBlocks id pairEnv pairList (pairRun (plainBlock 12 6)) := by
  refine ⟨rfl, ⟨by decide, .inl rfl⟩, .rebuilt ⟨?_, rfl⟩ (.refl _),
    rfl, ⟨by decide, .inl rfl⟩, .rebuilt ⟨?_, rfl⟩ (.refl _), trivial⟩
  · decide
  · decide

theorem consecutiveBlocks_revival :
    ConsecutiveBlocks id pairEnv pairList (pairRun revivalBlock) := by
  refine ⟨rfl, ⟨by decide, .inl rfl⟩, .rebuilt ⟨?_, rfl⟩ (.refl _),
    rfl, ⟨by decide, .inl rfl⟩, .rebuilt ⟨?_, rfl⟩ (.refl _), trivial⟩
  · decide
  · decide

theorem distinctHashes_pairRun (first : CBlock)
    (h : ((blocksTxs (pairRun first) ++ pairBlock.vtx).map pairEnv.getHash).Nodup) :
    DistinctHashes pairEnv
      (blocksTxs (pairRun first) ++ chainTxs [(sampleContext 0 9, pairBlock)]) := by
  intro a ha b hb heq
  exact inj_on_of_nodup_map h ha hb heq

theorem ConsecutiveBlocks.indexed (hinj : Injective hash)
    {bs : List (PaidBlock H)} (h : ConsecutiveBlocks hash env l bs)
    (hsound : ChainSound hash env txs l) (hdistinct : DistinctHashes env (blocksTxs bs ++ txs)) :
    ∀ b ∈ bs, b.prevList.Indexed hash ∧ b.newList.Indexed hash := by
  induction bs generalizing l txs with
  | nil => exact fun _ hb => absurd hb (not_mem_nil)
  | cons b bs ih =>
    obtain ⟨rfl, _, hnext, hrest⟩ := h
    have hdistinct' : DistinctHashes env (blocksTxs bs ++ (b.block.vtx ++ txs)) := by
      refine Set.InjOn.mono (fun tx htx => ?_) hdistinct
      simp only [blocksTxs, flatMap_cons, Set.mem_ofPred_eq, mem_append] at htx ⊢
      tauto
    have hsound' := hnext.chainSound hsound hinj hdistinct'.tail
    intro b' hb'
    rcases mem_cons.mp hb' with rfl | hb'
    · exact ⟨hsound.indexed, hsound'.indexed⟩
    · exact ih hrest hsound' hdistinct' b' hb'

theorem steady_of_validMNs (hl : l.Indexed hash) (hl' : l'.Indexed hash)
    (h : (l'.validMNs.map fun dmn => (dmn.proTxHash, dmn.pdmnState.nPoSeRevivedHeight)).Perm
      (l.validMNs.map fun dmn => (dmn.proTxHash, dmn.pdmnState.nPoSeRevivedHeight))) :
    Steady l l' where
  valid p := by
    have hhashes := (h.map Prod.fst).mem_iff (a := p)
    rw [map_map, map_map] at hhashes
    rw [hl.valid_iff, hl'.valid_iff]
    simpa only [mem_map, comp_apply] using hhashes
  revived := by
    intro p data data' hp hdata hdata'
    obtain ⟨dmn, hdmn, rfl⟩ := hl.valid_iff.mp hp
    cases hdata.symm.trans (hl.payments_of_mem hdmn)
    have hmem : (dmn.proTxHash, dmn.pdmnState.nPoSeRevivedHeight) ∈ l'.validMNs.map
        fun dmn => (dmn.proTxHash, dmn.pdmnState.nPoSeRevivedHeight) :=
      h.mem_iff.mpr (mem_map_of_mem hdmn)
    obtain ⟨dmn', hdmn', heq⟩ := mem_map.mp hmem
    rw [Prod.mk.injEq] at heq
    rw [← heq.1] at hdata'
    cases hdata'.symm.trans (hl'.payments_of_mem hdmn')
    exact heq.2

theorem count_payees_plain : (∀ b ∈ pairRun (plainBlock 12 6), b.RecordsPayee) ∧
    ∀ dmn ∈ pairList.validMNs, ((pairRun (plainBlock 12 6)).map PaidBlock.payee).count
      (some dmn.proTxHash) = paymentWeight true dmn.nType := by
  have hdistinct := distinctHashes_pairRun (plainBlock 12 6) (by decide)
  have hindexed := consecutiveBlocks_plain.indexed injective_id
    (paidChain_pairList.sound injective_id hdistinct.tail).1 hdistinct
  refine count_payees_eq_weight injective_id paidChain_pairList
    consecutiveBlocks_plain hdistinct (by decide) (by decide) ?_
  intro b hb
  have hsame : ∀ b ∈ pairRun (plainBlock 12 6), (b.newList.validMNs.map fun dmn =>
      (dmn.proTxHash, dmn.pdmnState.nPoSeRevivedHeight)).Perm (b.prevList.validMNs.map
        fun dmn => (dmn.proTxHash, dmn.pdmnState.nPoSeRevivedHeight)) := by
    decide
  exact steady_of_validMNs (hindexed b hb).1 (hindexed b hb).2 (hsame b hb)

/-- The second masternode is valid in every list, and paid by none of the two
blocks: the first one has banned and revived it. -/
theorem count_payees_ne_of_revived :
    PaidChain id pairEnv [(sampleContext 0 9, pairBlock)] pairList ∧
    ConsecutiveBlocks id pairEnv pairList (pairRun revivalBlock) ∧
    DistinctHashes pairEnv (blocksTxs (pairRun revivalBlock)
      ++ chainTxs [(sampleContext 0 9, pairBlock)]) ∧
    (pairRun revivalBlock).length = totalWeight true pairList ∧
    (∀ b ∈ pairRun revivalBlock, paysInARow b.ctx = true) ∧
    (∀ b ∈ pairRun revivalBlock, (b.newList.validMNs.map CDeterministicMN.proTxHash).Perm
        (b.prevList.validMNs.map CDeterministicMN.proTxHash)) ∧
    (∃ dmn ∈ pairList.validMNs, dmn.proTxHash = 2 ∧ paymentWeight true dmn.nType = 1) ∧
    ((pairRun revivalBlock).map PaidBlock.payee).count (some 2) = 0 :=
  ⟨paidChain_pairList, consecutiveBlocks_revival,
    distinctHashes_pairRun revivalBlock (by decide), by decide, by decide, by decide,
    by decide, by decide⟩

end CDeterministicMNList

end KorshCore

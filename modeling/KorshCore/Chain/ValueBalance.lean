import KorshCore.Chain.ConnectBlock
import KorshCore.Masternode.PaymentMatching

/-!
# The value of a transaction

What `CheckTransaction` and `CheckTxInputs` say about the value of a
transaction that is neither a coinbase nor an asset unlock. Amounts are 64-bit
numbers in the source. Each is tested before its sum is used, so both loops
stay below `2 * MAX_MONEY` and no sum leaves its type.

* The outputs. `OutputsChecked` is what `CheckTransaction` has tested, and
  `OutputsChecked.getValueOut` is the sum that `GetValueOut` then gives.
* The inputs. `foldlM_checkInput` is the loop of `CheckTxInputs` over the coins,
  and `addValueBalance_eq_ok` adds what leaves the shielded pool.
* The sums on the way. `scanl_within` bounds each of them by the last one, and
  `bmod_eq_self` says that such a sum is what the 64-bit number holds.
-/

namespace KorshCore

open Except CTransaction ChainView List Option

namespace CTransaction

variable (tx : CTransaction)

/-- `valueBalance` of a transaction whose version has the Sapling part. -/
def valueBalance : Int :=
  if tx.hasShieldedPayloadField then tx.sapData.valueBalance else 0

def shieldedIn : Int := max 0 tx.valueBalance

def shieldedOut : Int := max 0 (-tx.valueBalance)

end CTransaction

namespace ChainView

variable (view : ChainView) (tx : CTransaction)

def coinValue (txin : CTxIn) : Int :=
  ((view.coins txin.prevout).map fun coin => coin.out.nValue).getD 0

def spentValues : List Int := tx.vin.map view.coinValue

def sums : List Int :=
  (tx.vout.map CTxOut.nValue).scanl (· + ·) 0 ++ (view.spentValues tx).scanl (· + ·) 0 ++
    [tx.shieldedOut, voutSum tx.vout + tx.shieldedOut, (view.spentValues tx).sum + tx.shieldedIn,
      (view.spentValues tx).sum + tx.shieldedIn - (voutSum tx.vout + tx.shieldedOut)]

structure KeepsValue (fee : Int) : Prop where
  coins : ∀ txin ∈ tx.vin, (view.coins txin.prevout).isSome = true
  valueOut : tx.getValueOut = some (voutSum tx.vout + tx.shieldedOut)
  value : (view.spentValues tx).sum + tx.shieldedIn = voutSum tx.vout + tx.shieldedOut + fee
  fee : moneyRange fee = true
  /-- Every sum is its own 64-bit value. -/
  exact : ∀ n ∈ view.sums tx, n.bmod (2 ^ 64) = n

end ChainView

/-! ## The outputs -/

theorem foldlM_checkValueOut {vout : List CTxOut} {sum total : Int} :
    vout.foldlM checkValueOut sum = .ok total ↔
      vout.foldlM (fun sum out => addValueOut sum out.nValue) sum = some total := by
  induction vout generalizing sum with
  | nil => simp [pure, Except.pure]
  | cons out vout ih =>
    have hturn : ∀ next, checkValueOut sum out = .ok next ↔
        addValueOut sum out.nValue = some next := by
      intro next
      simp only [checkValueOut, bind_eq_ok_iff, require_eq_ok_iff, exists_const,
        addValueOut, moneyRange]
      grind
    simp only [foldlM_cons, bind_eq_ok_iff, bind_eq_bind, bind_eq_some_iff, hturn, ih]

/-- What the checks say about the outputs and the balance. -/
structure OutputsChecked (tx : CTransaction) : Prop where
  values : ∀ out ∈ tx.vout, 0 ≤ out.nValue
  total : voutSum tx.vout + tx.shieldedOut ≤ maxMoney
  balance : tx.valueBalance ≤ maxMoney

variable {tx : CTransaction} {view : ChainView}

theorem outputsChecked_of_checkTransaction {u : Unit}
    (h : checkTransaction tx = .ok u) : OutputsChecked tx := by
  simp only [checkTransaction, bind_eq_ok_iff, require_eq_ok_iff, exists_const] at h
  obtain ⟨_, _, _, _, _, nValueOut, hvalues, _, hsapling, _⟩ := h
  obtain ⟨hall, hle, htotal⟩ := (foldlM_addValueOut (le_refl 0) (by decide)).mp
    (foldlM_checkValueOut.mp hvalues)
  have hmax : 0 ≤ maxMoney := by decide
  unfold checkSapling at hsapling
  cases hpayload : tx.hasShieldedPayload with
  | false =>
    -- an empty Sapling part has no balance
    have hzero : tx.valueBalance = 0 := by
      unfold hasShieldedPayload SaplingTxData.isEmpty at hpayload
      unfold valueBalance
      split_ifs with hfield <;> simp_all
    refine ⟨hall, ?_, ?_⟩
    · rw [shieldedOut, hzero]
      simpa using hle
    · rw [hzero]
      exact hmax
  | true =>
    rw [hpayload, if_neg (by decide)] at hsapling
    simp only [checkSaplingData, bind_eq_ok_iff, require_eq_ok_iff, exists_const] at hsapling
    obtain ⟨_, _, _, hrange, _, hout, _⟩ := hsapling
    have hfield := (Bool.and_eq_true_iff.mp hpayload).1
    have hbalance : tx.valueBalance = tx.sapData.valueBalance := if_pos hfield
    simp only [Bool.and_eq_true, decide_eq_true_eq] at hrange
    refine ⟨hall, ?_, by rw [hbalance]; exact hrange.1⟩
    rw [shieldedOut]
    by_cases hneg : tx.sapData.valueBalance < 0
    · rw [checkIf, if_pos (decide_eq_true hneg)] at hout
      have hsum := require_eq_ok_iff.mp hout
      rw [moneyRange_iff] at hsum
      omega
    · omega

theorem OutputsChecked.getValueOut (h : OutputsChecked tx) :
    tx.getValueOut = some (voutSum tx.vout + tx.shieldedOut) := by
  have htotal := h.total
  have hnonneg : 0 ≤ tx.shieldedOut := le_max_left _ _
  have hsum : tx.vout.foldlM (fun sum out => CTransaction.addValueOut sum out.nValue) 0
      = some (voutSum tx.vout) :=
    (foldlM_addValueOut (le_refl 0) (by decide)).mpr ⟨h.values, by omega, by omega⟩
  have hvout : 0 ≤ voutSum tx.vout := sum_nonneg fun v hv => by
    obtain ⟨out, hout, rfl⟩ := mem_map.mp hv
    exact h.values out hout
  unfold CTransaction.getValueOut
  rw [hsum]
  unfold CTransaction.shieldedOut at *
  cases hfield : tx.hasShieldedPayloadField with
  | false =>
    have hzero : tx.valueBalance = 0 := by simp [CTransaction.valueBalance, hfield]
    simp [hzero]
  | true =>
    have hbalance : tx.valueBalance = tx.sapData.valueBalance := if_pos hfield
    by_cases hneg : tx.sapData.valueBalance < 0
    · simp only [hneg, decide_true, Bool.and_self, if_true]
      exact addValueOut_eq_some.mpr ⟨by omega, by omega, by omega⟩
    · simp only [hneg, decide_false, Bool.and_false, Bool.false_eq_true, if_false]
      exact congrArg some (by omega)

theorem foldlM_checkInput {nSpendHeight : Nat} {vin : List CTxIn} {sum total : Int}
    (h : vin.foldlM (view.checkInput nSpendHeight) sum = .ok total) (hsum : sum ≤ maxMoney) :
    (∀ txin ∈ vin, (view.coins txin.prevout).isSome = true) ∧
      (∀ v ∈ vin.map view.coinValue, 0 ≤ v) ∧
      total = sum + (vin.map view.coinValue).sum ∧ total ≤ maxMoney := by
  induction vin generalizing sum with
  | nil =>
    cases h
    simpa using hsum
  | cons txin vin ih =>
    simp only [foldlM_cons, checkInput, bind_eq_ok_iff,
      ofOption_eq_ok_iff, require_eq_ok_iff, exists_const, Bool.and_eq_true,
      moneyRange_iff] at h
    obtain ⟨next, ⟨coin, hcoin, -, hrange, hnext⟩, hrest⟩ := h
    cases hnext
    have hvalue : view.coinValue txin = coin.out.nValue := by
      rw [coinValue, hcoin]
      rfl
    obtain ⟨hsome, hvalues, htotal, hle⟩ := ih hrest hrange.2.2
    rw [map_cons, sum_cons, hvalue]
    refine ⟨?_, ?_, by omega, hle⟩
    · intro x hx
      rcases mem_cons.mp hx with rfl | hx
      · rw [hcoin]
        rfl
      · exact hsome x hx
    · intro v hv
      rcases mem_cons.mp hv with rfl | hv
      · exact hrange.1.1
      · exact hvalues v hv

theorem addValueBalance_eq_ok {sum total : Int} (hsum : sum ≤ maxMoney)
    (h : addValueBalance tx sum = .ok total) : total = sum + tx.shieldedIn ∧ total ≤ maxMoney := by
  unfold addValueBalance at h
  unfold shieldedIn valueBalance
  cases hfield : tx.hasShieldedPayloadField with
  | false =>
    simp only [hfield, Bool.false_and, Bool.false_eq_true, if_false, ok.injEq] at h ⊢
    omega
  | true =>
    by_cases hpos : 0 < tx.sapData.valueBalance
    · simp only [hfield, hpos, decide_true, Bool.and_self, if_true, bind_eq_ok_iff,
        require_eq_ok_iff, exists_const, Bool.and_eq_true, moneyRange_iff,
        ok.injEq] at h ⊢
      omega
    · simp only [hfield, hpos, decide_false, Bool.and_false, Bool.false_eq_true,
        if_false, if_true, ok.injEq] at h ⊢
      omega

/-! ## The sums -/

theorem scanl_within {amounts : List Int} (h : ∀ v ∈ amounts, 0 ≤ v) (start : Int) :
    ∀ n ∈ amounts.scanl (· + ·) start, start ≤ n ∧ n ≤ start + amounts.sum := by
  induction amounts generalizing start with
  | nil => simp
  | cons v amounts ih =>
    have hv := h v mem_cons_self
    have hrest : ∀ w ∈ amounts, 0 ≤ w := fun w hw => h w (mem_cons_of_mem v hw)
    have hsum := sum_nonneg hrest
    intro n hn
    rw [scanl_cons, mem_cons] at hn
    rw [sum_cons]
    rcases hn with rfl | hn
    · omega
    · have := ih hrest (start + v) n hn
      omega

theorem bmod_eq_self {n : Int} (h : 0 ≤ n) (hle : n ≤ 2 * maxMoney) : n.bmod (2 ^ 64) = n := by
  unfold maxMoney coin at hle
  rw [Int.bmod_def]
  omega

/-- A transaction that passes both checks and is not an asset unlock keeps the
value. -/
theorem keepsValue_of_checkTxInputs (assets : AssetEnv) (nSpendHeight : Nat) (fee : Int)
    (hcheck : checkTransaction tx = .ok ()) (hunlock : tx.isPlatformTransfer = false)
    (h : view.checkTxInputs assets nSpendHeight tx = .ok fee) : view.KeepsValue tx fee := by
  have hout := outputsChecked_of_checkTransaction hcheck
  unfold checkTxInputs at h
  rw [hunlock, if_neg (by decide)] at h
  simp only [bind_eq_ok_iff, require_eq_ok_iff, exists_const, ofOption_eq_ok_iff,
    decide_eq_true_eq, hout.getValueOut, some.injEq, ok.injEq] at h
  obtain ⟨_, _, sum, hsum, nValueIn, hin, _, rfl, hbelow, hrange, rfl⟩ := h
  obtain ⟨hcoins, hspent, htotal, hle⟩ := foldlM_checkInput hsum (by decide)
  change ∀ v ∈ view.spentValues tx, 0 ≤ v at hspent
  change sum = 0 + (view.spentValues tx).sum at htotal
  obtain ⟨rfl, hmax⟩ := addValueBalance_eq_ok hle hin
  have hvout : ∀ v ∈ tx.vout.map CTxOut.nValue, 0 ≤ v := by
    intro v hv
    obtain ⟨out, hmem, rfl⟩ := mem_map.mp hv
    exact hout.values out hmem
  have hvoutSum : 0 ≤ voutSum tx.vout := sum_nonneg hvout
  have hshielded : 0 ≤ tx.shieldedOut := le_max_left _ _
  refine ⟨hcoins, hout.getValueOut, ?_, hrange, fun n hn => ?_⟩
  · omega
  · simp only [sums, mem_append, mem_cons, not_mem_nil, or_false] at hn
    rcases hn with (hn | hn) | rfl | rfl | rfl | rfl
    · have hn := scanl_within hvout 0 n hn
      change 0 ≤ n ∧ n ≤ 0 + voutSum tx.vout at hn
      exact bmod_eq_self hn.1 (by omega)
    · have hn := scanl_within hspent 0 n hn
      exact bmod_eq_self hn.1 (by omega)
    · exact bmod_eq_self hshielded (by omega)
    · exact bmod_eq_self (by omega) (by omega)
    · exact bmod_eq_self (by omega) (by omega)
    · exact bmod_eq_self (by omega) (by omega)

def unshielding : CTransaction :=
  ⟨[⟨⟨1, 0⟩, [], 0⟩], [⟨75, []⟩], 4, transactionNormal, 0, ⟨30, [⟨0, 0, 0, 0, [], []⟩], [], []⟩, []⟩

def unshieldingView : ChainView :=
  ⟨fun _ => some ⟨⟨50, []⟩, false, 1⟩, fun _ => false, ⟨fun _ => some .empty, 0⟩, 0⟩

theorem keepsValue_unshielding :
    checkTransaction unshielding = .ok () ∧ unshieldingView.KeepsValue unshielding 5 :=
  have hcheck : checkTransaction unshielding = .ok () := by decide +kernel
  ⟨hcheck, keepsValue_of_checkTxInputs ⟨fun _ => none, fun _ => none⟩ 2 5 hcheck
    (by decide) (by decide +kernel)⟩

end KorshCore

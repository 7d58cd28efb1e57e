import KorshCore.Consensus.Params
import Mathlib.Algebra.BigOperators.Intervals
import Mathlib.Algebra.Order.BigOperators.Group.Finset
import Mathlib.Tactic.Ring
import Mathlib.Tactic.Linarith
import Mathlib.Tactic.NormNum.BigOperators

/-!
# The block subsidy

`GetBlockSubsidyHelper` of `validation.cpp` and the sums of what it emits.

The award is cut so that the amount already issued plus the award stays within
`nMaxMoney`. The amount already issued is not read from the chain. It is
recomputed by a loop over the halving eras, and that loop knows nothing of the
floor of one KSH.
-/

namespace KorshCore.Subsidy

open Finset

/-! ## The source functions -/

def kBaseSubsidy : Int := 2 * coin

/-- The halving interval after the v0.1.4 fork. -/
def kNewHalvingInterval : Nat := 2500000

/-- The floor of the award after the v0.4.0 fork. -/
def kKSHv040MinSubsidy : Int := coin

/-- The `while` loop of `GetBlockSubsidyHelper`: the amount issued by
`nRemainingRewardedBlocks` blocks, one halving era at a time. -/
def eraLoop (nHalvingInterval nRemainingRewardedBlocks : Nat) (nEraSubsidy nIssued : Int) : Int :=
  if _h : 0 < nRemainingRewardedBlocks ∧ 0 < nEraSubsidy then
    let nEraBlocks := min nRemainingRewardedBlocks nHalvingInterval
    eraLoop nHalvingInterval (nRemainingRewardedBlocks - nEraBlocks)
      (nEraSubsidy >>> (1 : Nat)) (nIssued + nEraBlocks * nEraSubsidy)
  else nIssued
termination_by nEraSubsidy.toNat
decreasing_by
  rw [Int.shiftRight_eq_div_pow]
  omega

def halvingInterval (params : Params) (nPrevHeight : Nat) : Nat :=
  if params.isKSHv040Active (nPrevHeight + 1) ∨ params.nKSHv014Height ≤ nPrevHeight then
    kNewHalvingInterval
  else params.nSubsidyHalvingInterval

def uncappedSubsidy (params : Params) (nPrevHeight : Nat) : Int :=
  let nSubsidyShift := nPrevHeight / halvingInterval params nPrevHeight
  let nSubsidy : Int :=
    if 64 ≤ nSubsidyShift then 0 else kBaseSubsidy >>> nSubsidyShift
  if params.isKSHv040Active (nPrevHeight + 1) ∧ nSubsidy < kKSHv040MinSubsidy then
    kKSHv040MinSubsidy
  else nSubsidy

/-- `nIssued`: what the loop takes for the amount issued so far. -/
def issuedBefore (params : Params) (nPrevHeight : Nat) : Int :=
  eraLoop (halvingInterval params nPrevHeight) nPrevHeight kBaseSubsidy 0

def cappedSubsidy (params : Params) (nPrevHeight : Nat) : Int :=
  let nSubsidy := uncappedSubsidy params nPrevHeight
  let nIssued := issuedBefore params nPrevHeight
  if params.nMaxMoney ≤ nIssued then 0
  else if params.nMaxMoney - nIssued < nSubsidy then
    -- only the remaining amount in the cap-reaching block
    params.nMaxMoney - nIssued
  else nSubsidy

/-- The yearly decline of the other networks, `n` times. -/
def decline : Nat → Int → Int
  | 0, nSubsidy => nSubsidy
  | n + 1, nSubsidy => decline n (nSubsidy - nSubsidy / 14)

/-- `GetBlockSubsidyHelper`: the block subsidy and the part withheld for
superblocks, for the block after height `nPrevHeight`.

Off the main and test networks the base of the subsidy comes from a
floating-point formula in the difficulty. `difficultyBase` stands for that
value; the rest of the branch is integer arithmetic. -/
def getBlockSubsidyHelper (difficultyBase : Nat → Nat → Int)
    (nPrevBits nPrevHeight : Nat) (params : Params) (fV20Active : Bool) : Int × Int :=
  if params.networkId = .main ∨ params.networkId = .testnet then
    let nSubsidy := cappedSubsidy params nPrevHeight
    -- 10 % treasury regardless of the V20 state
    let nSuperblockPart :=
      if params.nBudgetPaymentsStartBlock < nPrevHeight then nSubsidy / 10
      else 0
    (nSubsidy - nSuperblockPart, nSuperblockPart)
  else
    let isDevnet := params.networkId = .devnet
    let nSubsidyBase :=
      if fV20Active ∨ (isDevnet ∧ params.nHighSubsidyBlocks ≤ nPrevHeight)
      then 5 else difficultyBase nPrevBits nPrevHeight
    let nDeclined :=
      decline (nPrevHeight / params.nSubsidyHalvingInterval) (nSubsidyBase * coin)
    let nSubsidy :=
      if nPrevHeight < params.nHighSubsidyBlocks then nDeclined * params.nHighSubsidyFactor
      else nDeclined
    let nSuperblockPart :=
      if params.nBudgetPaymentsStartBlock < nPrevHeight then
        nSubsidy / (if fV20Active then 5 else 10)
      else 0
    (nSubsidy - nSuperblockPart, nSuperblockPart)

def getSuperblockSubsidyInner (difficultyBase : Nat → Nat → Int)
    (nPrevBits nPrevHeight : Nat) (params : Params) (fV20Active : Bool) : Int :=
  (getBlockSubsidyHelper difficultyBase nPrevBits nPrevHeight params fV20Active).2

def getBlockSubsidyInner (difficultyBase : Nat → Nat → Int)
    (nPrevBits nPrevHeight : Nat) (params : Params) (fV20Active : Bool) : Int :=
  (getBlockSubsidyHelper difficultyBase nPrevBits nPrevHeight params fV20Active).1

/-! ## What the era loop adds up -/

def scheduled (interval : Nat) (nEraSubsidy : Int) (n : Nat) : Int :=
  ∑ q ∈ range n, nEraSubsidy >>> (q / interval)

theorem shiftRight_one_shiftRight (x : Int) (k : Nat) : x >>> (1 : Nat) >>> k = x >>> (k + 1) := by
  rw [← Int.shiftRight_add, add_comm]

variable {n : Nat} {interval : Nat}

theorem scheduled_first_era (x : Int) (hn : n ≤ interval) : scheduled interval x n = n * x := by
  have hterm : ∀ q ∈ range n, x >>> (q / interval) = x := by
    intro q hq
    have hlt : q < interval := lt_of_lt_of_le (mem_range.mp hq) hn
    rw [Nat.div_eq_of_lt hlt, Int.shiftRight_zero]
  rw [scheduled, sum_congr rfl hterm, sum_const, card_range, nsmul_eq_mul]

theorem scheduled_next_era (hpos : 0 < interval) (x : Int) (n : Nat) :
    scheduled interval x (interval + n)
      = interval * x + scheduled interval (x >>> (1 : Nat)) n := by
  have htail : ∀ q ∈ range n,
      x >>> ((interval + q) / interval) = x >>> (1 : Nat) >>> (q / interval) := by
    intro q _
    rw [Nat.add_div_left _ hpos, shiftRight_one_shiftRight]
  have hhead := scheduled_first_era x (le_refl interval)
  rw [scheduled] at hhead
  rw [scheduled, sum_range_add, hhead, sum_congr rfl htail, scheduled]

theorem scheduled_zero (interval n : Nat) : scheduled interval 0 n = 0 := by
  simp [scheduled]

theorem eraLoop_eq (hpos : 0 < interval) (n : Nat) {x : Int} (hx : 0 ≤ x) (acc : Int) :
    eraLoop interval n x acc = acc + scheduled interval x n := by
  -- The induction follows the loop; the award halves at each turn.
  induction n, x, acc using eraLoop.induct interval with
  | case1 n x acc hcond nEraBlocks ih =>
    rw [eraLoop, dif_pos hcond]
    have hx' : (0 : Int) ≤ x >>> (1 : Nat) := by
      rw [Int.shiftRight_eq_div_pow]
      omega
    have hrec := ih hx'
    rw [hrec]
    rcases Nat.le_total n interval with hle | hle
    · have hmin : nEraBlocks = n := Nat.min_eq_left hle
      rw [hmin, scheduled_first_era x hle]
      simp [scheduled]
    · have hmin : nEraBlocks = interval := Nat.min_eq_right hle
      have hn : n = interval + (n - interval) := by omega
      rw [hmin, hn, Nat.add_sub_cancel_left, scheduled_next_era hpos]
      ring
  | case2 n x acc hcond =>
    rw [eraLoop, dif_neg hcond]
    rcases Nat.eq_zero_or_pos n with hn | hn
    · simp [hn, scheduled]
    · have hx0 : x = 0 := by
        by_contra hne
        exact hcond ⟨hn, lt_of_le_of_ne hx (Ne.symm hne)⟩
      rw [hx0, scheduled_zero, add_zero]

theorem scheduled_succ (interval : Nat) (x : Int) (n : Nat) :
    scheduled interval x (n + 1) = scheduled interval x n + x >>> (n / interval) :=
  sum_range_succ _ _

theorem shiftRight_nonneg {x : Int} (hx : 0 ≤ x) (k : Nat) : 0 ≤ x >>> k := by
  rw [Int.shiftRight_eq_div_pow]
  exact Int.ediv_nonneg hx (by positivity)

theorem scheduled_mono (interval : Nat) {x : Int} (hx : 0 ≤ x) {m : Nat} (hle : m ≤ n) :
    scheduled interval x m ≤ scheduled interval x n := by
  refine monotone_nat_of_le_succ (fun n => ?_) hle
  rw [scheduled_succ]
  have := shiftRight_nonneg hx (n / interval)
  omega

theorem scheduled_eq {r : Nat} (hpos : 0 < interval) (hr : r ≤ interval) (K : Nat) (x : Int) :
    scheduled interval x (interval * K + r)
      = interval * ∑ k ∈ range K, x >>> k + r * (x >>> K) := by
  induction K generalizing x with
  | zero => simpa using scheduled_first_era x hr
  | succ K ih =>
    have hsplit : interval * (K + 1) + r = interval + (interval * K + r) := by
      ring
    rw [hsplit, scheduled_next_era hpos, ih, sum_range_succ']
    simp only [shiftRight_one_shiftRight, Int.shiftRight_zero]
    ring

/-! ## The schedule of the two public networks -/

/-- What the schedule awards to the block after `nPrevHeight`. -/
def plainSubsidy (nPrevHeight : Nat) : Int :=
  kBaseSubsidy >>> (nPrevHeight / kNewHalvingInterval)

/-- What the schedule has awarded to the first `n` blocks. -/
def plainIssued (n : Nat) : Int := scheduled kNewHalvingInterval kBaseSubsidy n

theorem plainIssued_succ (n : Nat) : plainIssued (n + 1) = plainIssued n + plainSubsidy n :=
  scheduled_succ _ _ _

theorem plainIssued_mono {m : Nat} (hle : m ≤ n) : plainIssued m ≤ plainIssued n :=
  scheduled_mono _ (by decide) hle

theorem plainIssued_eq {r : Nat} (hr : r ≤ 2500000) (K : Nat) : plainIssued (2500000 * K + r)
      = 2500000 * ∑ k ∈ range K, (200000000 : Int) >>> k + r * ((200000000 : Int) >>> K) :=
  scheduled_eq (by decide) hr K kBaseSubsidy

theorem plainSubsidy_nonneg (n : Nat) : 0 ≤ plainSubsidy n :=
  shiftRight_nonneg (by decide) _

theorem plainSubsidy_eq_div (n : Nat) : plainSubsidy n = 200000000 / 2 ^ (n / 2500000) := by
  rw [plainSubsidy, Int.shiftRight_eq_div_pow]
  norm_num [kBaseSubsidy, coin, kNewHalvingInterval]

theorem plainSubsidy_late (hn : 70000000 ≤ n) : plainSubsidy n = 0 := by
  have hera : 28 ≤ n / 2500000 := by omega
  have hpow : (2 : Int) ^ 28 ≤ 2 ^ (n / 2500000) := pow_le_pow_right₀ (by norm_num) hera
  rw [plainSubsidy_eq_div]
  exact Int.ediv_eq_zero_of_lt (by norm_num) (by linarith)

theorem plainIssued_late (hn : 70000000 ≤ n) : plainIssued n = 999999970000000 := by
  induction n, hn using Nat.le_induction with
  | base =>
    have hclosed := plainIssued_eq (Nat.zero_le 2500000) 28
    have hsum : ∑ k ∈ range 28, (200000000 : Int) >>> k = 399999988 := by
      decide
    rw [hsum] at hclosed
    simpa using hclosed
  | succ n hn ih => rw [plainIssued_succ, ih, plainSubsidy_late hn, add_zero]

theorem plainIssued_le (n : Nat) : plainIssued n ≤ 999999970000000 := by
  rcases Nat.le_total n 70000000 with hn | hn
  · calc plainIssued n ≤ plainIssued 70000000 := plainIssued_mono hn
      _ = 999999970000000 := plainIssued_late le_rfl
  · exact le_of_eq (plainIssued_late hn)

/-! ## What one block emits -/

theorem kBaseSubsidy_shiftRight_guard (k : Nat) :
    (if 64 ≤ k then 0 else kBaseSubsidy >>> k) = kBaseSubsidy >>> k := by
  split_ifs with hk
  · have hpow : (2 : Int) ^ 64 ≤ 2 ^ k := pow_le_pow_right₀ (by norm_num) hk
    rw [Int.shiftRight_eq_div_pow]
    refine (Int.ediv_eq_zero_of_lt (by decide) ?_).symm
    norm_num [kBaseSubsidy, coin]
    linarith
  · rfl

variable {params : Params}

section

variable (hnet : params = mainParams ∨ params = testNetParams)
include hnet

/-- Both networks take the loop through the plain schedule. The test
network starts with another interval, but switches before its first
halving. -/
theorem issuedBefore_eq (p : Nat) : issuedBefore params p = plainIssued p := by
  rw [issuedBefore, halvingInterval]
  split_ifs with hfork
  · rw [eraLoop_eq (by decide) p (by decide), zero_add, plainIssued]
  · rcases hnet with rfl | rfl
    · rw [eraLoop_eq (by decide) p (by decide), zero_add]
      rfl
    · have hp : p < 40000 := by
        by_contra hge
        exact hfork (.inr (not_lt.mp hge))
      rw [eraLoop_eq (by decide) p (by decide), zero_add, plainIssued,
        scheduled_first_era _ (Nat.le_trans hp.le (by decide)),
        scheduled_first_era _ (Nat.le_trans hp.le (by decide))]

theorem uncappedSubsidy_eq (p : Nat) : uncappedSubsidy params p
      = if params.nKSHv040Height ≤ p + 1 ∧ plainSubsidy p < coin then coin else plainSubsidy p := by
  have hshift : kBaseSubsidy >>> (p / halvingInterval params p) = plainSubsidy p := by
    rw [halvingInterval]
    split_ifs with hfork
    · rfl
    · rcases hnet with rfl | rfl
      · rfl
      · have hp : p < 40000 := by
          by_contra hge
          exact hfork (.inr (not_lt.mp hge))
        rw [plainSubsidy, Nat.div_eq_of_lt (Nat.lt_trans hp (by decide)),
          Nat.div_eq_of_lt (Nat.lt_trans hp (by decide))]
  have haward := kBaseSubsidy_shiftRight_guard (p / halvingInterval params p)
  rw [hshift] at haward
  simp only [uncappedSubsidy, haward, hshift, Params.isKSHv040Active,
    kKSHv040MinSubsidy, decide_eq_true_eq]

theorem nMaxMoney_eq : params.nMaxMoney = 1000000000000000 := by
  rcases hnet with rfl | rfl <;> rfl

theorem cappedSubsidy_eq (p : Nat) :
    cappedSubsidy params p = min (uncappedSubsidy params p) (1000000000000000 - plainIssued p) := by
  have hle := plainIssued_le p
  rw [cappedSubsidy, issuedBefore_eq hnet, nMaxMoney_eq hnet]
  grind

theorem cappedSubsidy_of_plain {p : Nat}
    (hplain : p + 1 < params.nKSHv040Height ∨ coin ≤ plainSubsidy p) :
    cappedSubsidy params p = plainSubsidy p := by
  have hle := plainIssued_le (p + 1)
  rw [plainIssued_succ] at hle
  rw [cappedSubsidy_eq hnet, uncappedSubsidy_eq hnet, if_neg (by omega)]
  exact min_eq_left (by omega)

theorem cappedSubsidy_of_floor {p : Nat}
    (hfork : params.nKSHv040Height ≤ p + 1) (hlow : plainSubsidy p < coin) :
    cappedSubsidy params p = min coin (1000000000000000 - plainIssued p) := by
  rw [cappedSubsidy_eq hnet, uncappedSubsidy_eq hnet, if_pos ⟨hfork, hlow⟩]

theorem cappedSubsidy_nonneg (p : Nat) : 0 ≤ cappedSubsidy params p := by
  have hle := plainIssued_le p
  have hnonneg := plainSubsidy_nonneg p
  rw [cappedSubsidy_eq hnet, uncappedSubsidy_eq hnet]
  split_ifs <;> omega

end

/-! ## The sum over a chain -/

section Chain

variable (difficultyBase : Nat → Nat → Int) (nBits : Nat → Nat) (fV20Active : Nat → Bool)

/-- What blocks `1` to `H` emit: their subsidies and the parts withheld for
superblocks. `nBits` and `fV20Active` give the difficulty and the V20 state
of the block at each height. -/
def totalIssuance (params : Params) (H : Nat) : Int :=
  ∑ h ∈ Icc 1 H,
    let subsidy := getBlockSubsidyHelper difficultyBase (nBits (h - 1))
      (h - 1) params (fV20Active h)
    subsidy.1 + subsidy.2

variable {params : Params}

theorem sum_cappedSubsidy_const {a : Nat} {c : Int} (n : Nat)
    (hconst : ∀ p, a ≤ p → p < a + n → cappedSubsidy params p = c) :
    ∑ p ∈ range (a + n), cappedSubsidy params p
      = ∑ p ∈ range a, cappedSubsidy params p + n * c := by
  rw [sum_range_add]
  congr 1
  rw [sum_congr rfl fun q hq => hconst (a + q) (Nat.le_add_right a q)
    (Nat.add_lt_add_left (mem_range.mp hq) a)]
  simp

section

variable (hnet : params = mainParams ∨ params = testNetParams)
include hnet

theorem totalIssuance_eq (H : Nat) : totalIssuance difficultyBase nBits fV20Active params H
      = ∑ p ∈ range H, cappedSubsidy params p := by
  induction H with
  | zero => rfl
  | succ H ih =>
    rw [totalIssuance, sum_Icc_succ_top (by omega), sum_range_succ]
    congr 1
    have hid : params.networkId = .main ∨ params.networkId = .testnet := by
      rcases hnet with rfl | rfl
      · exact .inl rfl
      · exact .inr rfl
    rw [getBlockSubsidyHelper, if_pos hid]
    exact sub_add_cancel _ _

theorem sum_cappedSubsidy_eq_plainIssued (H : Nat)
    (hplain : ∀ p < H, p + 1 < params.nKSHv040Height ∨ coin ≤ plainSubsidy p) :
    ∑ p ∈ range H, cappedSubsidy params p = plainIssued H := by
  induction H with
  | zero => rfl
  | succ H ih =>
    rw [sum_range_succ, plainIssued_succ, ih fun p hp => hplain p (Nat.lt_succ_of_lt hp),
      cappedSubsidy_of_plain hnet (hplain H (Nat.lt_succ_self H))]

theorem sum_cappedSubsidy_mono {m : Nat} (hle : m ≤ n) :
    ∑ p ∈ range m, cappedSubsidy params p ≤ ∑ p ∈ range n, cappedSubsidy params p :=
  sum_le_sum_of_subset_of_nonneg (range_mono hle) fun p _ _ => cappedSubsidy_nonneg hnet p

end

/-- The main network follows the schedule up to the fork, where the loop has
long reached its final value. From then on each block emits what the loop
takes to be left. -/
theorem sum_cappedSubsidy_mainParams_late (n : Nat) :
    ∑ p ∈ range (999999998 + n), cappedSubsidy mainParams p = 999999970000000 + n * 30000000 := by
  rw [sum_cappedSubsidy_const n]
  · rw [sum_cappedSubsidy_eq_plainIssued (.inl rfl), plainIssued_late (by decide)]
    intro p hp
    exact .inl (show p + 1 < 999999999 by omega)
  · intro p hge _
    have hlate : 70000000 ≤ p := by omega
    rw [cappedSubsidy_of_floor (.inl rfl) (show 999999999 ≤ p + 1 by omega), plainIssued_late hlate]
    · rfl
    · rw [plainSubsidy_late hlate]
      decide

theorem coin_le_plainSubsidy {p : Nat} (hp : p < 5000000) : coin ≤ plainSubsidy p := by
  have hera : p / 2500000 = 0 ∨ p / 2500000 = 1 := by omega
  rw [plainSubsidy_eq_div]
  rcases hera with h | h <;> rw [h] <;> decide

theorem plainSubsidy_lt_coin {p : Nat} (hp : 5000000 ≤ p) : plainSubsidy p < coin := by
  have hera : 2 ≤ p / 2500000 := by omega
  have hpow : (2 : Int) ^ 2 ≤ 2 ^ (p / 2500000) := pow_le_pow_right₀ (by norm_num) hera
  rw [plainSubsidy_eq_div]
  refine Int.ediv_lt_of_lt_mul (by positivity) ?_
  norm_num [coin]
  linarith

/-- The test network follows the schedule for two eras and then emits the
floor, which the loop does not see, until well after the cap is passed. -/
theorem sum_cappedSubsidy_testNetParams_floor (hn : n ≤ 5000000) :
    ∑ p ∈ range (5000000 + n), cappedSubsidy testNetParams p = 750000000000000 + n * 100000000 := by
  have hfirst : plainIssued 5000000 = 750000000000000 := by
    have hclosed := plainIssued_eq (Nat.zero_le 2500000) 2
    norm_num [sum_range_succ, Int.shiftRight_eq_div_pow] at hclosed
    exact hclosed
  have hlast : plainIssued 10000000 = 937500000000000 := by
    have hclosed := plainIssued_eq (Nat.zero_le 2500000) 4
    norm_num [sum_range_succ, Int.shiftRight_eq_div_pow] at hclosed
    exact hclosed
  rw [sum_cappedSubsidy_const n]
  · rw [sum_cappedSubsidy_eq_plainIssued (.inr rfl), hfirst]
    exact fun p hp => .inr (coin_le_plainSubsidy hp)
  · intro p hge hlt
    have hissued : plainIssued p ≤ 937500000000000 := by
      rw [← hlast]
      exact plainIssued_mono (by omega)
    rw [cappedSubsidy_of_floor (.inr rfl) (show 172800 ≤ p + 1 by omega) (plainSubsidy_lt_coin hge)]
    exact min_eq_left (show (100000000 : Int) ≤ _ by omega)

theorem sum_cappedSubsidy_le_iff
    (hnet : params = mainParams ∨ params = testNetParams) {H₀ : Nat} {m : Int}
    (hwithin : ∑ p ∈ range H₀, cappedSubsidy params p ≤ m)
    (hover : m < ∑ p ∈ range (H₀ + 1), cappedSubsidy params p) (H : Nat) :
    ∑ p ∈ range H, cappedSubsidy params p ≤ m ↔ H ≤ H₀ := by
  constructor
  · intro hle
    by_contra hgt
    have hmono := sum_cappedSubsidy_mono hnet (Nat.lt_of_not_le hgt)
    exact absurd (lt_of_lt_of_le hover hmono) (not_lt.mpr hle)
  · intro hle
    exact le_trans (sum_cappedSubsidy_mono hnet hle) hwithin

/-- The main network stays within `nMaxMoney` exactly up to height
999999999, the test network exactly up to height 7500000. After that the
floor is paid on top of what the era loop accounts for. -/
theorem totalIssuance_le_nMaxMoney_iff (H : Nat) :
    (totalIssuance difficultyBase nBits fV20Active mainParams H
        ≤ mainParams.nMaxMoney ↔ H ≤ 999999999) ∧
      (totalIssuance difficultyBase nBits fV20Active testNetParams H
        ≤ testNetParams.nMaxMoney ↔ H ≤ 7500000) := by
  rw [totalIssuance_eq _ _ _ (.inl rfl), totalIssuance_eq _ _ _ (.inr rfl),
    nMaxMoney_eq (.inl rfl), nMaxMoney_eq (.inr rfl)]
  constructor
  · refine sum_cappedSubsidy_le_iff (.inl rfl) ?_ ?_ H
    · rw [sum_cappedSubsidy_mainParams_late 1]
      norm_num
    · rw [sum_cappedSubsidy_mainParams_late 2]
      norm_num
  · refine sum_cappedSubsidy_le_iff (.inr rfl) ?_ ?_ H
    · rw [sum_cappedSubsidy_testNetParams_floor (n := 2500000) (by decide)]
      norm_num
    · rw [sum_cappedSubsidy_testNetParams_floor (n := 2500001) (by decide)]
      norm_num

end Chain

theorem nMaxMoney_lt_totalIssuance_testNetParams : testNetParams.nMaxMoney
      < totalIssuance (fun _ _ => 0) (fun _ => 0) (fun _ => true) testNetParams 7500001 := by
  rw [totalIssuance_eq _ _ _ (.inr rfl), nMaxMoney_eq (.inr rfl),
    sum_cappedSubsidy_testNetParams_floor (n := 2500001) (by decide)]
  norm_num

end KorshCore.Subsidy

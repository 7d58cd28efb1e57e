import KorshCore.Consensus.Subsidy
import KorshCore.Pow.Compact

/-!
# Superblock budgets

`CSuperblock::IsValidBlockHeight` and `CSuperblock::GetPaymentsLimit` of
`governance/classes.cpp`, compared with what the block subsidy withholds for
superblocks.
-/

namespace KorshCore.Superblock

open Finset Subsidy

def isValidBlockHeight (params : Params) (nBlockHeight : Nat) : Bool :=
  if nBlockHeight < params.nSuperblockStartBlock then false
  else if nBlockHeight < params.nKSHv040Height then nBlockHeight % params.nSuperblockCycle == 0
  else if nBlockHeight == params.nKSHv040Height then
    -- the pre-fork governance cycle closes at the fork height
    nBlockHeight % params.nSuperblockCycle == 0
  else (nBlockHeight - params.nKSHv040Height) % params.nKSHv040SuperblockCycle == 0

def getPaymentsLimit (difficultyBase : Nat → Nat → Int) (params : Params)
    (nBlockHeight : Nat) : Int :=
  if isValidBlockHeight params nBlockHeight = false then 0
  else
    let fV20Active := decide (params.v20Height ≤ nBlockHeight)
    let nBits :=
      if params.fPowAllowMinDifficultyBlocks then
        ((ArithUint256.uintToArith256 params.powLimit).getCompact false).toNat
      else 1
    let nSuperblockPartOfSubsidy := getSuperblockSubsidyInner difficultyBase
      nBits (nBlockHeight - 1) params fV20Active
    nSuperblockPartOfSubsidy * params.superblockBudgetCycle nBlockHeight

/-! ## What one block withholds -/

/-- The part of the award of the two public networks that is withheld from
the block after height `p`. -/
def superblockPart (params : Params) (p : Nat) : Int :=
  if params.nBudgetPaymentsStartBlock < p then cappedSubsidy params p / 10
  else 0

variable {params : Params}

theorem getSuperblockSubsidyInner_eq (hnet : params = mainParams ∨ params = testNetParams)
    (difficultyBase : Nat → Nat → Int) (nPrevBits p : Nat) (v20 : Bool) :
    getSuperblockSubsidyInner difficultyBase nPrevBits p params v20 = superblockPart params p := by
  have hid : params.networkId = .main ∨ params.networkId = .testnet := by
    rcases hnet with rfl | rfl
    · exact .inl rfl
    · exact .inr rfl
  rw [getSuperblockSubsidyInner, getBlockSubsidyHelper, if_pos hid]
  rfl

theorem getPaymentsLimit_eq (hnet : params = mainParams ∨ params = testNetParams)
    (difficultyBase : Nat → Nat → Int) (h : Nat) :
    getPaymentsLimit difficultyBase params h = if isValidBlockHeight params h = false then 0
        else superblockPart params (h - 1) * params.superblockBudgetCycle h := by
  simp only [getPaymentsLimit, getSuperblockSubsidyInner_eq hnet]

theorem superblockPart_mainParams (p : Nat) :
    superblockPart mainParams p = if 999999999 < p then 3000000 else 0 := by
  change (if 999999999 < p then cappedSubsidy mainParams p / 10 else 0) = _
  split_ifs with hp
  · have hlate : 70000000 ≤ p := by omega
    have hlow : plainSubsidy p < coin := by
      rw [plainSubsidy_late hlate]
      decide
    rw [cappedSubsidy_of_floor (.inl rfl) (show 999999999 ≤ p + 1 by omega) hlow,
      plainIssued_late hlate]
    rfl
  · rfl

theorem superblockPart_testNetParams {p : Nat} (hp : p ≤ 59021739) :
    superblockPart testNetParams p = if p ≤ 27600 then 0 else if p < 2500000 then 20000000
        else 10000000 := by
  change (if 27600 < p then cappedSubsidy testNetParams p / 10 else 0) = _
  by_cases hstart : p ≤ 27600
  · rw [if_neg (by omega), if_pos hstart]
  rw [if_pos (by omega), if_neg hstart]
  by_cases hplain : p < 5000000
  · rw [cappedSubsidy_of_plain (.inr rfl) (.inr (coin_le_plainSubsidy hplain)), plainSubsidy_eq_div]
    split_ifs with hera
    · rw [Nat.div_eq_of_lt hera]
      rfl
    · have hone : p / 2500000 = 1 := by omega
      rw [hone]
      rfl
  · have hissued : plainIssued p ≤ 999999900000000 := by
      have hlast := plainIssued_eq (show 1521739 ≤ 2500000 by decide) 23
      have hsum : ∑ k ∈ range 23, (200000000 : Int) >>> k = 399999946 := by
        decide
      have hshift : (200000000 : Int) >>> (23 : Nat) = 23 := by decide
      have hmono := plainIssued_mono (show p ≤ 2500000 * 23 + 1521739 by omega)
      omega
    rw [cappedSubsidy_of_floor (.inr rfl) (show 172800 ≤ p + 1 by omega)
      (plainSubsidy_lt_coin (by omega)), if_neg (by omega),
      min_eq_left (show coin ≤ _ by rw [coin]; omega)]
    rfl

/-! ## The two sums -/

section Sums

variable (difficultyBase : Nat → Nat → Int) (nBits : Nat → Nat) (fV20Active : Nat → Bool)

/-- What blocks `1` to `h` have withheld for superblocks. `nBits` and
`fV20Active` give the difficulty and the V20 state of the block at each
height. -/
def withheldUpTo (params : Params) (h : Nat) : Int :=
  ∑ b ∈ Icc 1 h, getSuperblockSubsidyInner difficultyBase (nBits (b - 1))
    (b - 1) params (fV20Active b)

/-- What the superblocks up to height `h` may pay. -/
def limitsUpTo (params : Params) (h : Nat) : Int :=
  ∑ s ∈ Icc 1 h with isValidBlockHeight params s = true, getPaymentsLimit difficultyBase params s

/-- The superblocks up to `h` may pay at most what has been withheld. -/
def Covered (params : Params) (h : Nat) : Prop :=
  limitsUpTo difficultyBase params h ≤ withheldUpTo difficultyBase nBits fV20Active params h

theorem withheldUpTo_succ (hnet : params = mainParams ∨ params = testNetParams) (h : Nat) :
    withheldUpTo difficultyBase nBits fV20Active params (h + 1)
      = withheldUpTo difficultyBase nBits fV20Active params h + superblockPart params h := by
  rw [withheldUpTo, sum_Icc_succ_top (by omega), ← withheldUpTo,
    getSuperblockSubsidyInner_eq hnet, Nat.add_sub_cancel]

theorem limitsUpTo_succ (hnet : params = mainParams ∨ params = testNetParams) (h : Nat) :
    limitsUpTo difficultyBase params (h + 1) = limitsUpTo difficultyBase params h
        + if isValidBlockHeight params (h + 1) = true then
            superblockPart params h * params.superblockBudgetCycle (h + 1) else 0 := by
  have hIcc : Icc 1 (h + 1) = insert (h + 1) (Icc 1 h) := by
    ext x
    simp only [mem_Icc, mem_insert]
    omega
  rw [limitsUpTo, hIcc, filter_insert]
  split_ifs with hvalid
  · rw [sum_insert (by simp), getPaymentsLimit_eq hnet, if_neg (by simp [hvalid]),
      Nat.add_sub_cancel, limitsUpTo, add_comm]
  · rw [limitsUpTo, add_zero]

/-! ## The main network -/

theorem isValidBlockHeight_mainParams (h : Nat) :
    isValidBlockHeight mainParams h = true ↔ 999999999 < h ∧ (h - 999999999) % 10800 = 0 := by
  change (if h < 999999999 then false
    else if h < 999999999 then h % 21600 == 0
    else if h == 999999999 then h % 21600 == 0
    else (h - 999999999) % 10800 == 0) = true ↔ _
  split_ifs with h₁ h₂
  · simp
    omega
  · have hh : h = 999999999 := by simpa using h₂
    simp [hh]
  · have hne : h ≠ 999999999 := by simpa using h₂
    simp
    omega

variable {h : Nat}

theorem superblockBudgetCycle_mainParams (hfork : 999999999 < h) :
    mainParams.superblockBudgetCycle h = 10800 :=
  if_pos hfork

theorem withheldUpTo_mainParams (h : Nat) :
    withheldUpTo difficultyBase nBits fV20Active mainParams h
      = 3000000 * ((h - 1000000000 : Nat) : Int) := by
  induction h with
  | zero => rfl
  | succ h ih =>
    rw [withheldUpTo_succ _ _ _ (.inl rfl), superblockPart_mainParams]
    split_ifs <;> omega

theorem limitsUpTo_mainParams (h : Nat) : limitsUpTo difficultyBase mainParams h
      = 3000000 * 10800 * (((h - 999999999) / 10800 : Nat) : Int) := by
  induction h with
  | zero => rfl
  | succ h ih =>
    rw [limitsUpTo_succ _ (.inl rfl), superblockPart_mainParams]
    split_ifs with hvalid hpart
    · have hv := (isValidBlockHeight_mainParams (h + 1)).mp hvalid
      rw [superblockBudgetCycle_mainParams hv.1]
      omega
    · omega
    · have hv := (isValidBlockHeight_mainParams (h + 1)).not.mp hvalid
      omega

theorem covered_mainParams_iff (h : Nat) : Covered difficultyBase nBits fV20Active mainParams h ↔
      isValidBlockHeight mainParams h = false := by
  rw [Covered, withheldUpTo_mainParams, limitsUpTo_mainParams,
    ← Bool.not_eq_true, isValidBlockHeight_mainParams]
  omega

/-! ## The test network -/

theorem isValidBlockHeight_testNetParams (h : Nat) : isValidBlockHeight testNetParams h = true ↔
      (27700 ≤ h ∧ h ≤ 172800 ∧ h % 21600 = 0) ∨ (172800 < h ∧ (h - 172800) % 10800 = 0) := by
  change (if h < 27700 then false
    else if h < 172800 then h % 21600 == 0
    else if h == 172800 then h % 21600 == 0
    else (h - 172800) % 10800 == 0) = true ↔ _
  split_ifs with h₁ h₂ h₃ <;> simp_all <;> omega

theorem superblockBudgetCycle_testNetParams (h : Nat) :
    testNetParams.superblockBudgetCycle h = if 172800 < h then 10800 else 21600 := rfl

theorem withheldUpTo_testNetParams (hh : h ≤ 59021740) :
    withheldUpTo difficultyBase nBits fV20Active testNetParams h
      = 20000000 * ((min h 2500000 - 27601 : Nat) : Int)
        + 10000000 * ((h - 2500000 : Nat) : Int) := by
  induction h with
  | zero => rfl
  | succ h ih =>
    rw [withheldUpTo_succ _ _ _ (.inr rfl), superblockPart_testNetParams (by omega)]
    split_ifs <;> omega

/-- The superblocks of the old cycle up to height `h`. -/
def oldCycles (h : Nat) : Nat := min h 172800 / 21600 - 1

/-- The superblocks of the new cycle in the first era. -/
def newCycles (h : Nat) : Nat := (min h 2500000 - 172800) / 10800

/-- The superblocks of the new cycle after the halving. -/
def lateCycles (h : Nat) : Nat := (h - 172800) / 10800 - 215

theorem cycles_succ_of_valid (hvalid : isValidBlockHeight testNetParams (h + 1) = true) :
    (h + 1 ≤ 172800 ∧ 27600 < h ∧ oldCycles (h + 1) = oldCycles h + 1 ∧
        newCycles (h + 1) = newCycles h ∧ lateCycles (h + 1) = lateCycles h) ∨
      (172800 < h + 1 ∧ h < 2500000 ∧ oldCycles (h + 1) = oldCycles h ∧
        newCycles (h + 1) = newCycles h + 1 ∧ lateCycles (h + 1) = lateCycles h) ∨
      (172800 < h + 1 ∧ 2500000 ≤ h ∧ oldCycles (h + 1) = oldCycles h ∧
        newCycles (h + 1) = newCycles h ∧ lateCycles (h + 1) = lateCycles h + 1) := by
  unfold oldCycles newCycles lateCycles
  rcases (isValidBlockHeight_testNetParams (h + 1)).mp hvalid with hold | hnew
  · left
    omega
  · right
    by_cases hera : h < 2500000
    · left
      omega
    · right
      omega

theorem cycles_succ_of_not_valid (hvalid : ¬isValidBlockHeight testNetParams (h + 1) = true) :
    oldCycles (h + 1) = oldCycles h ∧ newCycles (h + 1) = newCycles h ∧
      lateCycles (h + 1) = lateCycles h := by
  rw [isValidBlockHeight_testNetParams] at hvalid
  unfold oldCycles newCycles lateCycles
  refine ⟨?_, ?_, ?_⟩ <;> omega

theorem limitsUpTo_testNetParams (hh : h ≤ 59021740) : limitsUpTo difficultyBase testNetParams h
      = 432000000000 * (oldCycles h : Int) + 216000000000 * (newCycles h : Int)
        + 108000000000 * (lateCycles h : Int) := by
  induction h with
  | zero => rfl
  | succ h ih =>
    rw [limitsUpTo_succ _ (.inr rfl), ih (by omega), superblockPart_testNetParams (by omega),
      superblockBudgetCycle_testNetParams]
    by_cases hvalid : isValidBlockHeight testNetParams (h + 1) = true
    · rw [if_pos hvalid]
      rcases cycles_succ_of_valid hvalid with
        ⟨hle, hstart, hold, hnew, hlate⟩ | ⟨hgt, hera, hold, hnew, hlate⟩ |
        ⟨hgt, hera, hold, hnew, hlate⟩
      · rw [if_neg (by omega), if_pos (by omega), if_neg (by omega), hold, hnew, hlate]
        push_cast
        ring
      · rw [if_neg (by omega), if_pos hera, if_pos hgt, hold, hnew, hlate]
        push_cast
        ring
      · rw [if_neg (by omega), if_neg (by omega), if_pos hgt, hold, hnew, hlate]
        push_cast
        ring
    · obtain ⟨hold, hnew, hlate⟩ := cycles_succ_of_not_valid hvalid
      rw [if_neg hvalid, hold, hnew, hlate, add_zero]

/-- How many blocks of its cycle a height needs before the sums are even
again: those that the first superblock was short of, counted at the award
of the era. -/
def blocksBehind (h : Nat) : Nat := if h < 2494800 then 6001 else 6802

theorem covered_testNetParams_iff (hh : h ≤ 59021740) :
    Covered difficultyBase nBits fV20Active testNetParams h ↔
      h < 43200 ∨ (h < 172800 ∧ blocksBehind h ≤ h % 21600) ∨
        (172800 ≤ h ∧ blocksBehind h ≤ h % 10800) := by
  rw [Covered, withheldUpTo_testNetParams _ _ _ hh, limitsUpTo_testNetParams _ hh]
  unfold oldCycles newCycles lateCycles blocksBehind
  rcases Nat.lt_or_ge h 172800 with hold | hnew
  · have h₁ : h < 2494800 := by omega
    rw [if_pos h₁]
    omega
  · split_ifs with hera
    · omega
    · omega

/-- Where the limits stay within what was withheld. On the main network
that is every height but the superblocks. On the test network it is every
height before the first superblock and, as long as the cap does not cut the
award, the heights that are far enough into their cycle; so a chain on which
it never fails ends before the first superblock. -/
theorem covered_iff : (∀ h, Covered difficultyBase nBits fV20Active mainParams h ↔
      isValidBlockHeight mainParams h = false) ∧
    (∀ h ≤ 59021740, Covered difficultyBase nBits fV20Active testNetParams h ↔
      h < 43200 ∨ (h < 172800 ∧ blocksBehind h ≤ h % 21600) ∨
        (172800 ≤ h ∧ blocksBehind h ≤ h % 10800)) ∧
    (∀ H, (∀ h ≤ H, Covered difficultyBase nBits fV20Active testNetParams h) ↔ H < 43200) := by
  refine ⟨covered_mainParams_iff _ _ _, fun h hh => covered_testNetParams_iff _ _ _ hh, fun H => ?_⟩
  constructor
  · intro hall
    by_contra hge
    have hfirst := (covered_testNetParams_iff _ _ _ (by decide)).mp
      (hall 43200 (not_lt.mp hge))
    revert hfirst
    decide
  · intro hlt h hle
    exact (covered_testNetParams_iff _ _ _ (by omega)).mpr (.inl (by omega))

end Sums

theorem covered_testNetParams_after_first :
    Covered (fun _ _ => 0) (fun _ => 0) (fun _ => true) testNetParams 49201 :=
  ((covered_iff _ _ _).2.1 49201 (by decide)).mpr (.inr (.inl (by decide)))

theorem not_covered_testNetParams_first :
    ¬Covered (fun _ _ => 0) (fun _ => 0) (fun _ => true) testNetParams 43200 := by
  rw [covered_testNetParams_iff _ _ _ (by decide)]
  decide

/-! ## The nearest superblocks -/

section Nearest

def firstSuperblock (params : Params) : Nat :=
  params.nSuperblockStartBlock +
    (params.nSuperblockCycle - params.nSuperblockStartBlock % params.nSuperblockCycle) %
      params.nSuperblockCycle

/-- `CSuperblock::GetNearestSuperblocksHeights`: the last superblock and the
next one. -/
def getNearestSuperblocksHeights (params : Params) (nBlockHeight : Nat) : Nat × Nat :=
  if nBlockHeight < firstSuperblock params then (0, firstSuperblock params)
  else if nBlockHeight < params.nKSHv040Height then
    let nLastSuperblock := nBlockHeight - nBlockHeight % params.nSuperblockCycle
    (nLastSuperblock, nLastSuperblock + params.nSuperblockCycle)
  else
    let nForkCycle := params.nKSHv040SuperblockCycle
    let nLastSuperblock := params.nKSHv040Height +
      (nBlockHeight - params.nKSHv040Height) / nForkCycle * nForkCycle
    (nLastSuperblock, nLastSuperblock + nForkCycle)

variable {params : Params} {c s h : Nat}

theorem le_lastMultiple (hs : c ∣ s) (hle : s ≤ h) : s ≤ h / c * c := by
  have hdiv := Nat.div_le_div_right (c := c) hle
  calc s = s / c * c := (Nat.div_mul_cancel hs).symm
    _ ≤ h / c * c := Nat.mul_le_mul_right c hdiv

theorem nextMultiple_le (hs : c ∣ s) (hlt : h < s) : h / c * c + c ≤ s := by
  have hdiv : h / c < s / c := Nat.div_lt_div_of_lt_of_dvd hs hlt
  calc h / c * c + c = (h / c + 1) * c := (Nat.succ_mul _ _).symm
    _ ≤ s / c * c := Nat.mul_le_mul_right c hdiv
    _ = s := Nat.div_mul_cancel hs

theorem roundUp_spec (hc : 0 < c) (a : Nat) :
    c ∣ a + (c - a % c) % c ∧ ∀ s, c ∣ s → a ≤ s → a + (c - a % c) % c ≤ s := by
  have hmod := Nat.mod_lt a hc
  have hdiv := Nat.div_add_mod' a c
  by_cases hr : a % c = 0
  · rw [hr, Nat.sub_zero, Nat.mod_self, Nat.add_zero]
    exact ⟨Nat.dvd_of_mod_eq_zero hr, fun _ _ hle => hle⟩
  · -- `a` is inside a cycle, which the first multiple closes
    rw [Nat.mod_eq_of_lt (by omega), show a + (c - a % c) = a / c * c + c by omega]
    refine ⟨Nat.dvd_add (Nat.dvd_mul_left _ _) (dvd_refl _), fun s hs hle => ?_⟩
    have hne : a ≠ s := by
      rintro rfl
      exact hr (Nat.mod_eq_zero_of_dvd hs)
    exact nextMultiple_le hs (by omega)

/-- The accepted heights: the multiples of the old cycle up to the fork, and
every new cycle from it. -/
theorem isValidBlockHeight_iff (hc : 0 < params.nSuperblockCycle)
    (hfork : params.nSuperblockCycle ∣ params.nKSHv040Height)
    (hfirst : firstSuperblock params ≤ params.nKSHv040Height) (s : Nat) :
    isValidBlockHeight params s = true ↔
      firstSuperblock params ≤ s ∧ s ≤ params.nKSHv040Height ∧ params.nSuperblockCycle ∣ s ∨
      params.nKSHv040Height ≤ s ∧ params.nKSHv040SuperblockCycle ∣ s - params.nKSHv040Height := by
  have hstart : params.nSuperblockStartBlock ≤ firstSuperblock params := Nat.le_add_right _ _
  have hleast := (roundUp_spec hc params.nSuperblockStartBlock).2
  rw [isValidBlockHeight]
  split_ifs with h₁ h₂ h₃ <;> simp only [beq_iff_eq, ← Nat.dvd_iff_mod_eq_zero, false_iff]
  · omega
  · constructor
    · exact fun hs => .inl ⟨hleast s hs (by omega), by omega, hs⟩
    · rintro (⟨_, _, hs⟩ | ⟨hle, _⟩)
      · exact hs
      · omega
  · rw [eq_of_beq h₃]
    exact iff_of_true hfork (.inl ⟨hfirst, le_rfl, hfork⟩)
  · rw [beq_iff_eq] at h₃
    constructor
    · exact fun hs => .inr ⟨by omega, hs⟩
    · rintro (⟨_, hle, _⟩ | ⟨_, hs⟩)
      · omega
      · exact hs

/-- The two heights are the accepted ones around a height; the cycles are what
the code divides by. -/
theorem getNearestSuperblocksHeights_spec (hc : 0 < params.nSuperblockCycle)
    (hnew : 0 < params.nKSHv040SuperblockCycle)
    (hfork : params.nSuperblockCycle ∣ params.nKSHv040Height)
    (hfirst : firstSuperblock params ≤ params.nKSHv040Height) (h : Nat) :
    (IsGreatest {s | s ≤ h ∧ isValidBlockHeight params s = true}
        (getNearestSuperblocksHeights params h).1 ∨ (getNearestSuperblocksHeights params h).1 = 0 ∧
        ∀ s ≤ h, isValidBlockHeight params s = false) ∧
    IsLeast {s | h < s ∧ isValidBlockHeight params s = true}
      (getNearestSuperblocksHeights params h).2 := by
  have hdvd : params.nSuperblockCycle ∣ firstSuperblock params := (roundUp_spec hc _).1
  simp only [IsGreatest, IsLeast, mem_upperBounds, mem_lowerBounds, Set.mem_ofPred_eq,
    ← Bool.not_eq_true, isValidBlockHeight_iff hc hfork hfirst, getNearestSuperblocksHeights]
  generalize params.nSuperblockCycle = c at *
  generalize params.nKSHv040SuperblockCycle = d at *
  generalize params.nKSHv040Height = fork at *
  split_ifs with h₁ h₂
  · refine ⟨.inr ⟨rfl, fun s hs => ?_⟩, ⟨h₁, .inl ⟨le_rfl, hfirst, hdvd⟩⟩, fun s ⟨_, hs⟩ => ?_⟩
    · omega
    · omega
  · have hlast : h - h % c = h / c * c := by
      have := Nat.div_add_mod' h c
      omega
    have hle := Nat.div_mul_le_self h c
    have hge := le_lastMultiple hdvd (not_lt.mp h₁)
    have hnext := nextMultiple_le hfork h₂
    have hlt := Nat.lt_div_mul_add hc (a := h)
    have hmul := Nat.dvd_mul_left c (h / c)
    simp only [hlast]
    refine ⟨.inl ⟨⟨hle, .inl ⟨hge, by omega, hmul⟩⟩, fun s ⟨hs, hv⟩ => ?_⟩,
      ⟨hlt, .inl ⟨by omega, hnext, Nat.dvd_add hmul (dvd_refl _)⟩⟩, fun s ⟨hs, hv⟩ => ?_⟩
    · rcases hv with ⟨_, _, hv⟩ | ⟨_, _⟩
      · exact le_lastMultiple hv hs
      · omega
    · rcases hv with ⟨_, _, hv⟩ | ⟨_, _⟩
      · exact nextMultiple_le hv hs
      · omega
  · have hle := Nat.div_mul_le_self (h - fork) d
    have hlt := Nat.lt_div_mul_add hnew (a := h - fork)
    have hmul := Nat.dvd_mul_left d ((h - fork) / d)
    refine ⟨.inl ⟨⟨by omega, .inr ⟨by omega, ?_⟩⟩, fun s ⟨hs, hv⟩ => ?_⟩,
      ⟨by omega, .inr ⟨by omega, ?_⟩⟩, fun s ⟨hs, hv⟩ => ?_⟩
    · rwa [Nat.add_sub_cancel_left]
    · rcases hv with ⟨_, _, _⟩ | ⟨_, hv⟩
      · omega
      · have := le_lastMultiple hv (Nat.sub_le_sub_right hs fork)
        omega
    · rw [add_assoc, Nat.add_sub_cancel_left]
      exact Nat.dvd_add hmul (dvd_refl _)
    · rcases hv with ⟨_, _, _⟩ | ⟨_, hv⟩
      · omega
      · have := nextMultiple_le hv (show h - fork < s - fork by omega)
        omega

end Nearest

theorem getNearestSuperblocksHeights_testNetParams :
    IsLeast {s | 50000 < s ∧ isValidBlockHeight testNetParams s = true} 64800 :=
  (getNearestSuperblocksHeights_spec (by decide) (by decide) (by decide) (by decide) 50000).2

end KorshCore.Superblock

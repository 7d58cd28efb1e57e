import KorshCore.Consensus.Params
import KorshCore.Lib.Except
import KorshCore.Pow.Compact

/-!
# The difficulty adjustment

`DarkGravityWave` of `pow.cpp`: the next target is the average of the last
twenty targets, scaled by the time that the last twenty blocks took.

An entry of the block index is the list of its own header and those of its
ancestors, newest first, so that `pprev` is the tail of the list and
`nHeight` the length of the tail.
-/

namespace KorshCore.Pow

open ArithUint256 List Except

/-! ## The source function -/

/-- The fields of a `CBlockIndex` that the difficulty adjustment reads. -/
structure BlockHeader where
  nTime : BitVec 32
  nBits : BitVec 32
  deriving DecidableEq

def BlockHeader.getBlockTime (header : BlockHeader) : Int := header.nTime.toNat

inductive PowError where
  | assertPprev
  | uintError (e : UintError)
  deriving DecidableEq

/-- `a / b`, with what `operator/=` throws. -/
def divide (a b : ArithUint256) : Except PowError ArithUint256 :=
  match a.div b with
  | .ok q => .ok q
  | .error e => .error (.uintError e)

def nPastBlocks : Nat := 20

/-- `bnPastTargetAvg` after the turn `nCountBlocks`. The source notes that
this is not an average really. -/
def nextAverage (nCountBlocks : Nat) (bnPastTargetAvg bnTarget : ArithUint256) :
    Except PowError ArithUint256 :=
  if nCountBlocks = 1 then .ok bnTarget
  else divide ((bnPastTargetAvg.mulUInt32 (.ofNat 32 nCountBlocks)).add bnTarget)
    (ofUInt64 (.ofNat 64 (nCountBlocks + 1)))

/-- The `for` loop of `DarkGravityWave` with `todo` turns to go: it walks
back from `pindex`, whose ancestors are `pprev`, and ends with the average
and the block it stopped at. -/
def averageLoop : (todo nCountBlocks : Nat) → (pindex : BlockHeader) →
    (pprev : List BlockHeader) → (bnPastTargetAvg : ArithUint256) →
    Except PowError (ArithUint256 × BlockHeader)
  | 0, _, pindex, _, bnPastTargetAvg => .ok (bnPastTargetAvg, pindex)
  | todo + 1, nCountBlocks, pindex, pprev, bnPastTargetAvg => do
    let bnPastTargetAvg ← nextAverage nCountBlocks bnPastTargetAvg (setCompact pindex.nBits).value
    if nCountBlocks ≠ nPastBlocks then
      match pprev with
      | [] => .error .assertPprev
      | prev :: pprev =>
        averageLoop todo (nCountBlocks + 1) prev pprev bnPastTargetAvg
    else averageLoop todo (nCountBlocks + 1) pindex pprev bnPastTargetAvg

/-- The clamp on `nActualTimespan`. -/
def limitTimespan (nActualTimespan nTargetTimespan : Int) : Int :=
  let nActualTimespan :=
    if nActualTimespan < nTargetTimespan / 3 then nTargetTimespan / 3
    else nActualTimespan
  if nTargetTimespan * 3 < nActualTimespan then nTargetTimespan * 3
  else nActualTimespan

def darkGravityWave (pindexLast : List BlockHeader) (params : Params)
    (nTargetSpacing : Int) : Except PowError (BitVec 32) :=
  let bnPowLimit := uintToArith256 params.powLimit
  match pindexLast with
  | [] => .ok (bnPowLimit.getCompact false)
  | tip :: pprev =>
    if pprev.length < nPastBlocks then .ok (bnPowLimit.getCompact false)
    else do
      let (bnPastTargetAvg, pindex) ← averageLoop nPastBlocks 1 tip pprev zero
      let nTargetTimespan := nPastBlocks * nTargetSpacing
      let nActualTimespan :=
        limitTimespan (tip.getBlockTime - pindex.getBlockTime) nTargetTimespan
      -- the multiplication takes a `uint32_t`, the division an `arith_uint256`
      let bnNew ← divide (bnPastTargetAvg.mulUInt32 (.ofInt 32 nActualTimespan))
        (ofUInt64 (.ofInt 64 nTargetTimespan))
      let bnNew := if bnNew.compareTo bnPowLimit = .gt then bnPowLimit else bnNew
      .ok (bnNew.getCompact false)

/-! ## The average -/

def target (header : BlockHeader) : Nat :=
  (setCompact header.nBits).value.toNat

def averageFrom : Nat → Nat → List Nat → Nat
  | _, avg, [] => avg
  | n, avg, t :: ts => averageFrom (n + 1) ((avg * n + t) / (n + 1)) ts

def targetAverage : List Nat → Nat
  | [] => 0
  | t :: ts => averageFrom 2 t ts

variable {limit : Nat}

theorem averageFrom_le {avg : Nat} (n : Nat) {ts : List Nat}
    (havg : avg ≤ limit) (hts : ∀ t ∈ ts, t ≤ limit) : averageFrom n avg ts ≤ limit := by
  induction ts generalizing n avg with
  | nil => exact havg
  | cons t ts ih =>
    refine ih (n + 1) ?_ fun x hx => hts x (mem_cons_of_mem _ hx)
    have ht := hts t (by simp)
    have hmul := Nat.mul_le_mul_right n havg
    apply Nat.div_le_of_le_mul
    rw [add_mul, mul_comm n]
    omega

theorem averageFrom_replicate (n t k : Nat) : averageFrom n t (replicate k t) = t := by
  induction k generalizing n with
  | zero => rfl
  | succ k ih =>
    have hstep : (t * n + t) / (n + 1) = t := by
      rw [← Nat.mul_succ]
      exact Nat.mul_div_cancel _ (Nat.succ_pos n)
    rw [replicate_succ, averageFrom, hstep, ih]

theorem divide_eq {a b : ArithUint256} (hb : 0 < b.toNat) :
    ∃ q, divide a b = .ok q ∧ q.toNat = a.toNat / b.toNat := by
  obtain ⟨q, hq, hvalue⟩ := div_eq_ok (a := a) hb
  exact ⟨q, by rw [divide, hq], hvalue⟩

variable {avg : ArithUint256}

theorem nextAverage_eq {n : Nat} {t : ArithUint256}
    (hlimit : 22 * limit < 2 ^ 256) (hn : 2 ≤ n) (hn' : n ≤ 20)
    (havg : avg.toNat ≤ limit) (ht : t.toNat ≤ limit) :
    ∃ q, nextAverage n avg t = .ok q ∧ q.toNat = (avg.toNat * n + t.toNat) / (n + 1) := by
  have hword : (BitVec.ofNat 32 n).toNat = n := by
    rw [BitVec.toNat_ofNat]
    omega
  have hdivisor : (ofUInt64 (.ofNat 64 (n + 1))).toNat = n + 1 := by
    rw [toNat_ofUInt64, BitVec.toNat_ofNat]
    omega
  have hmul : avg.toNat * n ≤ limit * 20 := Nat.mul_le_mul havg hn'
  obtain ⟨q, hq, hvalue⟩ := divide_eq (a := (avg.mulUInt32 (.ofNat 32 n)).add t)
    (b := ofUInt64 (.ofNat 64 (n + 1))) (by rw [hdivisor]; omega)
  refine ⟨q, by rw [nextAverage, if_neg (by omega), hq], ?_⟩
  rw [hvalue, hdivisor, toNat_add, toNat_mulUInt32, hword,
    Nat.mod_eq_of_lt (show avg.toNat * n < 2 ^ 256 by omega),
    Nat.mod_eq_of_lt (by omega)]

variable {pprev : List BlockHeader} {header : BlockHeader}

theorem averageLoop_step {n : Nat} (hn : n ≠ nPastBlocks) (todo : Nat)
    {prev : BlockHeader} {q : ArithUint256}
    (hq : nextAverage n avg (setCompact header.nBits).value = .ok q) :
    averageLoop (todo + 1) n header (prev :: pprev) avg
      = averageLoop todo (n + 1) prev pprev q := by
  rw [averageLoop, hq]
  simp only [ok_bind, if_pos hn]

theorem averageLoop_eq (hlimit : 22 * limit < 2 ^ 256) (todo : Nat) {n : Nat}
    (hn : 2 ≤ n) (hcount : n + todo = nPastBlocks) (hlen : todo ≤ pprev.length)
    (havg : avg.toNat ≤ limit) (htargets : ∀ b ∈ header :: pprev, target b ≤ limit) :
    ∃ avg', averageLoop (todo + 1) n header pprev avg
        = .ok (avg', (header :: pprev).getD todo header) ∧
      avg'.toNat = averageFrom n avg.toNat (((header :: pprev).take (todo + 1)).map target) := by
  have htwenty : nPastBlocks = 20 := rfl
  induction todo generalizing n header pprev avg with
  | zero =>
    have hlast : n = nPastBlocks := hcount
    obtain ⟨q, hq, hvalue⟩ := nextAverage_eq hlimit hn (by omega) havg (htargets header (by simp))
    rw [hlast] at hq ⊢
    refine ⟨q, ?_, ?_⟩
    · unfold averageLoop
      rw [hq]
      rfl
    · rw [hvalue, hlast]
      simp [averageFrom, target]
  | succ todo ih =>
    have hne : n ≠ nPastBlocks := by omega
    obtain ⟨q, hq, hvalue⟩ := nextAverage_eq hlimit hn (by omega) havg (htargets header (by simp))
    have hheader : ∀ t ∈ [target header], t ≤ limit := by
      simpa using htargets header (by simp)
    have hqle : q.toNat ≤ limit := by
      rw [hvalue]
      exact averageFrom_le n havg hheader
    cases pprev with
    | nil => simp at hlen
    | cons prev pprev =>
      have htail : ∀ b ∈ prev :: pprev, target b ≤ limit :=
        fun b hb => htargets b (mem_cons_of_mem _ hb)
      obtain ⟨avg', hrun, havg'⟩ := ih (show 2 ≤ n + 1 by omega) (by omega)
        (by simpa using hlen) hqle htail
      have hin : todo < (prev :: pprev).length := by
        simp at hlen ⊢
        omega
      refine ⟨avg', ?_, ?_⟩
      · rw [averageLoop_step hne _ hq, hrun, getD_cons_succ,
          getD_eq_getElem _ _ hin, getD_eq_getElem _ _ hin]
      · rw [havg', hvalue]
        rfl

theorem averageLoop_full (hlimit : 22 * limit < 2 ^ 256)
    {tip : BlockHeader} (hlen : nPastBlocks ≤ pprev.length)
    (htargets : ∀ b ∈ tip :: pprev, target b ≤ limit) :
    ∃ avg, averageLoop nPastBlocks 1 tip pprev zero = .ok (avg, (tip :: pprev).getD 19 tip) ∧
      avg.toNat = targetAverage (((tip :: pprev).take 20).map target) := by
  cases pprev with
  | nil => simp [nPastBlocks] at hlen
  | cons prev pprev =>
    have hlen' : 18 ≤ pprev.length := by
      simp [nPastBlocks] at hlen
      omega
    have htip : (setCompact tip.nBits).value.toNat ≤ limit := htargets tip (by simp)
    have htail : ∀ b ∈ prev :: pprev, target b ≤ limit :=
      fun b hb => htargets b (mem_cons_of_mem _ hb)
    obtain ⟨avg, hrun, havg⟩ := averageLoop_eq hlimit 18 (le_refl 2) rfl hlen' htip htail
    have hcount : 18 + 1 = 19 := rfl
    have hin : 18 < (prev :: pprev).length := by
      simp
      omega
    have hstop : (tip :: prev :: pprev).getD (18 + 1) tip = (prev :: pprev).getD 18 prev := by
      rw [getD_cons_succ, getD_eq_getElem _ _ hin, getD_eq_getElem _ _ hin]
    refine ⟨avg, ?_, ?_⟩
    · -- the first turn only reads the target of the tip
      have hread : nextAverage 1 zero (setCompact tip.nBits).value
          = .ok (setCompact tip.nBits).value := by
        rw [nextAverage, if_pos rfl]
      rw [nPastBlocks, hstop, averageLoop_step (by decide) 19 hread, hrun]
    · rw [havg]
      rfl

/-! ## The retarget -/

theorem limitTimespan_eq {t S : Int} (hS : 0 ≤ S) :
    limitTimespan t S = max (S / 3) (min (3 * S) t) := by
  simp only [limitTimespan]
  split_ifs <;> omega

theorem powTargetSpacing_eq {params : Params}
    (hnet : params = mainParams ∨ params = testNetParams) (nHeight : Nat) :
    params.powTargetSpacing nHeight = 60 ∨ params.powTargetSpacing nHeight = 120 := by
  unfold Params.powTargetSpacing
  rcases hnet with rfl | rfl
  · left
    split_ifs <;> rfl
  · split_ifs
    · exact .inr rfl
    · exact .inl rfl

theorem powLimit_eq {params : Params} (hnet : params = mainParams ∨ params = testNetParams) :
    params.powLimit = 0xffffffff * 2 ^ 216 := by
  rcases hnet with rfl | rfl <;> rfl

theorem divide_retarget (avg : ArithUint256) {S T : Int} (hS : 0 < S)
    (hS' : S ≤ 2400) (hT : 0 ≤ T) (hT' : T ≤ 3 * S) :
    ∃ q, divide (avg.mulUInt32 (.ofInt 32 T)) (ofUInt64 (.ofInt 64 S)) = .ok q ∧
      q.toNat = avg.toNat * T.toNat % 2 ^ 256 / S.toNat := by
  have hword : (BitVec.ofInt 32 T).toNat = T.toNat := by
    rw [BitVec.toNat_ofInt]
    omega
  have hdivisor : (ofUInt64 (.ofInt 64 S)).toNat = S.toNat := by
    rw [toNat_ofUInt64, BitVec.toNat_ofInt]
    omega
  obtain ⟨q, hq, hvalue⟩ := divide_eq
    (a := avg.mulUInt32 (.ofInt 32 T)) (b := ofUInt64 (.ofInt 64 S)) (by rw [hdivisor]; omega)
  refine ⟨q, hq, ?_⟩
  rw [hvalue, hdivisor, toNat_mulUInt32, hword]

theorem cap_eq (hlimit : limit < 2 ^ 256) (q : ArithUint256) :
    (if q.compareTo (uintToArith256 limit) = .gt then uintToArith256 limit
      else q) = uintToArith256 (min limit q.toNat) := by
  apply toNat_injective
  have hmin : min limit q.toNat < 2 ^ 256 := lt_of_le_of_lt (Nat.min_le_left _ _) hlimit
  rw [toNat_uintToArith256 hmin, compareTo_eq, toNat_uintToArith256 hlimit]
  split_ifs with hgt
  · have := compare_gt_iff_gt.mp hgt
    rw [toNat_uintToArith256 hlimit]
    omega
  · have : ¬limit < q.toNat := fun h => hgt (compare_gt_iff_gt.mpr h)
    omega

section Retarget

variable {params : Params} {chain : List BlockHeader}

def targetTimespan (params : Params) (chain : List BlockHeader) : Int :=
  20 * params.powTargetSpacing chain.length

/-- The observed span of the last twenty blocks, between a third and three
times the target span. -/
def observedTimespan (params : Params) (chain : List BlockHeader) : Int :=
  let S := targetTimespan params chain
  let observed := (chain.getD 0 ⟨0, 0⟩).getBlockTime - (chain.getD 19 ⟨0, 0⟩).getBlockTime
  max (S / 3) (min (3 * S) observed)

def averageTarget (chain : List BlockHeader) : Nat :=
  targetAverage ((chain.take 20).map target)

def unboundedTarget (params : Params) (chain : List BlockHeader) : Nat :=
  min params.powLimit (averageTarget chain
    * (observedTimespan params chain).toNat / (targetTimespan params chain).toNat)

theorem targetTimespan_eq (hnet : params = mainParams ∨ params = testNetParams)
    (chain : List BlockHeader) :
    targetTimespan params chain = 1200 ∨ targetTimespan params chain = 2400 := by
  unfold targetTimespan
  rcases powTargetSpacing_eq hnet chain.length with h | h <;> rw [h]
  · exact .inl rfl
  · exact .inr rfl

theorem observedTimespan_bounds (hS : 0 ≤ targetTimespan params chain) :
    0 ≤ observedTimespan params chain ∧
      observedTimespan params chain ≤ 3 * targetTimespan params chain := by
  simp only [observedTimespan]
  constructor <;> omega

/-- What `DarkGravityWave` returns: the compact form of the capped quotient
of a product that wraps at `2 ^ 256`. -/
theorem darkGravityWave_eq (hnet : params = mainParams ∨ params = testNetParams)
    (hheight : nPastBlocks < chain.length) (htargets : ∀ b ∈ chain, target b ≤ params.powLimit) :
    darkGravityWave chain params (params.powTargetSpacing chain.length)
      = .ok ((uintToArith256 (min params.powLimit
          (averageTarget chain * (observedTimespan params chain).toNat
            % 2 ^ 256 / (targetTimespan params chain).toNat))).getCompact false) := by
  have hpow := powLimit_eq hnet
  have hspan := targetTimespan_eq hnet chain
  cases chain with
  | nil => simp at hheight
  | cons tip pprev =>
    have hlen : nPastBlocks ≤ pprev.length := Nat.le_of_lt_succ hheight
    obtain ⟨avg, hloop, havg⟩ := averageLoop_full (by rw [hpow]; norm_num) hlen htargets
    have hin : 19 < (tip :: pprev).length := by
      simp only [nPastBlocks] at hlen
      simp only [length_cons]
      omega
    have hobserved : limitTimespan (tip.getBlockTime - ((tip :: pprev).getD 19 tip).getBlockTime)
        (nPastBlocks * params.powTargetSpacing (tip :: pprev).length)
        = observedTimespan params (tip :: pprev) := by
      change limitTimespan _ (targetTimespan params (tip :: pprev)) = _
      rw [limitTimespan_eq (by omega), observedTimespan,
        getD_eq_getElem _ _ hin, getD_eq_getElem _ _ hin]
      rfl
    have hpos : 0 < targetTimespan params (tip :: pprev) := by omega
    have hbounds := observedTimespan_bounds hpos.le
    obtain ⟨q, hq, hvalue⟩ := divide_retarget avg hpos (by omega) hbounds.1 hbounds.2
    have hlimit : params.powLimit < 2 ^ 256 := by
      rw [hpow]
      norm_num
    have hcap := cap_eq hlimit q
    have htarget : (nPastBlocks : Int) * params.powTargetSpacing (tip :: pprev).length
        = targetTimespan params (tip :: pprev) := rfl
    rw [htarget] at hobserved
    unfold darkGravityWave
    simp only [if_neg (not_lt.mpr hlen), hloop, ok_bind, htarget,
      hobserved, hq, hcap, hvalue, havg]
    rfl

theorem getCompact_ne_of_two_mul_le {x y : Nat} (hy : y < 2 ^ 256) (hpos : 0 < y)
    (hle : 2 * x ≤ y) :
    (uintToArith256 x).getCompact false ≠ (uintToArith256 y).getCompact false := by
  intro heq
  have hx : x < 2 ^ 256 := by omega
  have hlow := decode_getCompact_le (uintToArith256 x)
  have hhigh := lt_two_mul_decode_getCompact (a := uintToArith256 y)
    (by rw [toNat_uintToArith256 hy]; exact hpos)
  rw [heq, toNat_uintToArith256 hx] at hlow
  rw [toNat_uintToArith256 hy] at hhigh
  omega

theorem two_mul_mod_le {m n : Nat} (hn : 0 < n) (hwrap : n ≤ m) : 2 * (m % n) ≤ m := by
  have hmod := Nat.mod_lt m hn
  have hdiv := Nat.div_add_mod m n
  have hge : n * 1 ≤ n * (m / n) := Nat.mul_le_mul_left n (Nat.div_pos hwrap hn)
  omega

/-- `DarkGravityWave` returns the target of unbounded arithmetic exactly if
the product of the average and the time span fits in 256 bits. -/
theorem darkGravityWave_eq_unbounded_iff
    (hnet : params = mainParams ∨ params = testNetParams) (hheight : nPastBlocks < chain.length)
    (htargets : ∀ b ∈ chain, 0 < target b ∧ target b ≤ params.powLimit) :
    darkGravityWave chain params (params.powTargetSpacing chain.length)
        = .ok ((uintToArith256 (unboundedTarget params chain)).getCompact false)
      ↔ averageTarget chain * (observedTimespan params chain).toNat < 2 ^ 256 := by
  rw [darkGravityWave_eq hnet hheight fun b hb => (htargets b hb).2, unboundedTarget]
  have hpow := powLimit_eq hnet
  have hspan := targetTimespan_eq hnet chain
  generalize averageTarget chain * (observedTimespan params chain).toNat = m
  generalize hS : (targetTimespan params chain).toNat = S
  have hSge : 1200 ≤ S := by omega
  have hSle : S ≤ 2400 := by omega
  constructor
  · intro heq
    by_contra hwrap
    have hm : 2 ^ 256 ≤ m := not_lt.mp hwrap
    -- the wrapped quotient is at most half of the true one and of the limit
    have hhalf : 2 * (m % 2 ^ 256 / S) ≤ m / S :=
      le_trans (Nat.mul_div_le_mul_div_assoc 2 _ S)
        (Nat.div_le_div_right (two_mul_mod_le (by decide) hm))
    have hsmall : m % 2 ^ 256 / S ≤ 2 ^ 256 / 1200 :=
      Nat.div_le_div (Nat.le_of_lt (Nat.mod_lt _ (by decide))) hSge (by decide)
    have hlarge : 2 ^ 256 / 2400 ≤ m / S := Nat.div_le_div hm hSle (by omega)
    rw [ok.injEq] at heq
    refine getCompact_ne_of_two_mul_le ?_ ?_ ?_ heq
    · rw [hpow]
      omega
    · rw [hpow]
      omega
    · rw [hpow]
      omega
  · intro hfits
    rw [Nat.mod_eq_of_lt hfits]

end Retarget

theorem averageTarget_of_nBits {chain : List BlockHeader} {c : BitVec 32}
    (hlen : 20 ≤ chain.length) (hbits : ∀ b ∈ chain, b.nBits = c) :
    averageTarget chain = (setCompact c).value.toNat := by
  have hmap : (chain.take 20).map target = replicate 20 (setCompact c).value.toNat := by
    refine eq_replicate_iff.mpr ⟨by simpa using hlen, ?_⟩
    intro t ht
    obtain ⟨b, hb, rfl⟩ := mem_map.mp ht
    rw [target, hbits b (mem_of_mem_take hb)]
  rw [averageTarget, hmap, replicate_succ, targetAverage, averageFrom_replicate]

def steadyChain : List BlockHeader :=
  (List.range 21).map fun i => ⟨.ofNat 32 (60 * (20 - i)), 0x1d00ffff#32⟩

theorem darkGravityWave_steadyChain : darkGravityWave steadyChain mainParams
        (mainParams.powTargetSpacing steadyChain.length)
      = .ok ((uintToArith256 (unboundedTarget mainParams steadyChain)).getCompact false) := by
  have hbits : ∀ b ∈ steadyChain, b.nBits = 0x1d00ffff#32 := by decide
  have hvalue : (setCompact 0x1d00ffff#32).value.toNat = 0xffff * 2 ^ 208 := by
    rw [toNat_setCompact]
    decide
  refine (darkGravityWave_eq_unbounded_iff (.inl rfl) (by decide) ?_).mpr ?_
  · intro b hb
    rw [target, hbits b hb, hvalue]
    decide
  · rw [averageTarget_of_nBits (by decide) hbits]
    decide

def slowChain : List BlockHeader :=
  ⟨3600#32, 0x2000ffff#32⟩ :: List.replicate 20 ⟨0#32, 0x2000ffff#32⟩

theorem darkGravityWave_slowChain_ne : darkGravityWave slowChain mainParams
        (mainParams.powTargetSpacing slowChain.length)
      ≠ .ok ((uintToArith256 (unboundedTarget mainParams slowChain)).getCompact false) := by
  have hbits : ∀ b ∈ slowChain, b.nBits = 0x2000ffff#32 := by decide
  have hvalue : (setCompact 0x2000ffff#32).value.toNat = 0xffff * 2 ^ 232 := by
    rw [toNat_setCompact]
    decide
  have htargets : ∀ b ∈ slowChain, target b ≤ mainParams.powLimit := by
    intro b hb
    rw [target, hbits b hb, hvalue]
    decide
  rw [darkGravityWave_eq (.inl rfl) (by decide) htargets]
  intro heq
  rw [ok.injEq] at heq
  exact getCompact_ne_of_two_mul_le (by decide) (by decide) (by decide) heq

end KorshCore.Pow

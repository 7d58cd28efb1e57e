import KorshCore.Pow.Compact

/-!
# Chain work

`GetBlockProof` of `chain.cpp`, and `nChainWork` as `AddToBlockIndex` of
`node/blockstorage.cpp` sums it up.
-/

namespace KorshCore.ArithUint256

open Limbs BitVec

/-- `operator~`. -/
def not (a : ArithUint256) : ArithUint256 where
  pn := a.pn.map (~~~ ·)
  length_pn := by simp [a.length_pn]

theorem toNat_not (a : ArithUint256) : a.not.toNat + a.toNat + 1 = 2 ^ 256 := by
  have hcomplement := value_complement a.pn
  rwa [a.length_pn] at hcomplement

/-- Whether `SetCompact` gives a target that a hash can meet. -/
def CompactValue.isTarget (bnTarget : CompactValue) : Bool :=
  !(bnTarget.fNegative || bnTarget.fOverflow || bnTarget.value == zero)

def getBlockProof (nBits : BitVec 32) : Except UintError ArithUint256 :=
  let bnTarget := setCompact nBits
  if bnTarget.isTarget then do
    let quotient ← bnTarget.value.not.div (bnTarget.value.add (ofUInt64 1))
    .ok (quotient.add (ofUInt64 1))
  else .ok zero

/-- `nChainWork` of a chain, given by its `nBits`, the newest first. -/
def nChainWork : List (BitVec 32) → Except UintError ArithUint256
  | [] => .ok zero
  | nBits :: pprev => do
    let work ← nChainWork pprev
    let proof ← getBlockProof nBits
    .ok (work.add proof)

/-- How many hashes it takes on average to meet the target. -/
def expectedHashes (nBits : BitVec 32) : Nat :=
  if (setCompact nBits).isTarget then 2 ^ 256 / ((setCompact nBits).value.toNat + 1) else 0

theorem target_lt {nBits : BitVec 32} (h : (setCompact nBits).fOverflow = false) :
    (setCompact nBits).value.toNat + 1 < 2 ^ 256 := by
  obtain ⟨m, hm, k, hk⟩ := hasMantissa_decodeCompact (e := nBits.toNat / 2 ^ 24)
    (Nat.mod_lt nBits.toNat (show 0 < 2 ^ 23 by decide))
  rw [← toNat_setCompact_of_not_overflow h] at hk
  have hlt := (setCompact nBits).value.toNat_lt
  -- all ones would be an odd number, and so the mantissa itself
  cases k with
  | zero => omega
  | succ k =>
    rw [pow_succ, ← mul_assoc] at hk
    omega

theorem getBlockProof_eq (nBits : BitVec 32) :
    ∃ proof, getBlockProof nBits = .ok proof ∧ proof.toNat = expectedHashes nBits := by
  simp only [getBlockProof, expectedHashes]
  split
  case isFalse => exact ⟨zero, rfl, toNat_zero⟩
  case isTrue htarget =>
    simp only [CompactValue.isTarget, Bool.not_eq_true', Bool.or_eq_false_iff, beq_eq_false_iff_ne]
      at htarget
    obtain ⟨⟨-, hoverflow⟩, hzero⟩ := htarget
    have hlt := target_lt hoverflow
    generalize (setCompact nBits).value = bnTarget at *
    have hpos : bnTarget.toNat ≠ 0 := fun h => hzero (toNat_injective (h.trans toNat_zero.symm))
    have hnot := bnTarget.toNat_not
    have hone : (bnTarget.add (ofUInt64 1)).toNat = bnTarget.toNat + 1 := by
      rw [toNat_add, toNat_ofUInt64]
      exact Nat.mod_eq_of_lt hlt
    obtain ⟨quotient, hdiv, hquotient⟩ :=
      div_eq_ok (a := bnTarget.not) (b := bnTarget.add (ofUInt64 1)) (by omega)
    refine ⟨_, by rw [hdiv]; rfl, ?_⟩
    have hsplit : 2 ^ 256 / (bnTarget.toNat + 1) =
        bnTarget.not.toNat / (bnTarget.toNat + 1) + 1 := by
      rw [Nat.div_eq_sub_div (by omega) hlt.le]
      congr 2
      omega
    have hhalf : 2 ^ 256 / (bnTarget.toNat + 1) ≤ 2 ^ 256 / 2 :=
      Nat.div_le_div_left (by omega) (by decide)
    rw [toNat_add, toNat_ofUInt64, hquotient, hone, hsplit]
    exact Nat.mod_eq_of_lt ((hsplit ▸ hhalf).trans_lt (by decide))

/-- The work of a chain is the number of hashes that its blocks take on average,
each rounded down, as long as the sum has 256 bits. No division is by zero. -/
theorem nChainWork_eq (chain : List (BitVec 32)) : ∃ work, nChainWork chain = .ok work ∧
    work.toNat = (chain.map expectedHashes).sum % 2 ^ 256 := by
  induction chain with
  | nil => exact ⟨zero, rfl, toNat_zero⟩
  | cons nBits pprev ih =>
    obtain ⟨work, hwork, hsum⟩ := ih
    obtain ⟨proof, hproof, hhashes⟩ := getBlockProof_eq nBits
    refine ⟨work.add proof, by rw [nChainWork, hwork, hproof]; rfl, ?_⟩
    rw [toNat_add, hsum, hhashes, List.map_cons, List.sum_cons, Nat.mod_add_mod, add_comm]

end KorshCore.ArithUint256

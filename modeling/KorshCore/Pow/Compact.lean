import KorshCore.Pow.ArithUint256

/-!
# The compact form of a target

`arith_uint256::SetCompact` and `GetCompact`: a 32-bit code holds an
exponent of base 256 in its top byte and a 23-bit mantissa below the sign
bit.
-/

namespace KorshCore.ArithUint256

open Limbs BitVec

/-! ## The source functions -/

structure CompactValue where
  value : ArithUint256
  fNegative : Bool
  fOverflow : Bool

def setCompact (nCompact : BitVec 32) : CompactValue :=
  let nSize := (nCompact >>> 24).toNat
  let nMantissa := nCompact &&& 0x007fffff#32
  let nWord := if nSize ≤ 3 then nMantissa >>> (8 * (3 - nSize))
    else nMantissa
  { value :=
      if nSize ≤ 3 then ofUInt64 (nWord.setWidth 64)
      else (ofUInt64 (nWord.setWidth 64)).shiftLeft (8 * (nSize - 3))
    fNegative := nWord ≠ 0#32 && nCompact &&& 0x00800000#32 ≠ 0#32
    fOverflow := nWord ≠ 0#32 && (34 < nSize ||
      (0xff#32 < nWord && 33 < nSize) || (0xffff#32 < nWord && 32 < nSize)) }

/-- The top three bytes of a number of `nSize` bytes. -/
def topBytes (a : ArithUint256) (nSize : Nat) : BitVec 32 :=
  if nSize ≤ 3 then (a.getLow64 <<< (8 * (3 - nSize))).setWidth 32
  else (a.shiftRight (8 * (nSize - 3))).getLow64.setWidth 32

def compactParts (a : ArithUint256) : BitVec 32 × Nat :=
  let nSize := (a.bits + 7) / 8
  let nCompact := a.topBytes nSize
  -- the 0x00800000 bit denotes the sign
  if nCompact &&& 0x00800000#32 ≠ 0#32 then (nCompact >>> 8, nSize + 1)
  else (nCompact, nSize)

/-- `GetCompact`. Its two assertions are `compactParts_fst_lt` and
`compactParts_snd_le`. -/
def getCompact (a : ArithUint256) (fNegative : Bool) : BitVec 32 :=
  let nCompact := a.compactParts.1 ||| (BitVec.ofNat 32 a.compactParts.2 <<< 24)
  nCompact ||| (if fNegative && nCompact &&& 0x007fffff#32 ≠ 0#32 then 0x00800000#32 else 0#32)

/-! ## The same on integers -/

/-- The top three of `e` bytes of `v`. -/
def mantissaOf (v e : Nat) : Nat := v * 2 ^ 24 / 2 ^ (8 * e)

/-- The value of a mantissa that stands for the top three of `e` bytes. -/
def decodeCompact (m e : Nat) : Nat := m * 2 ^ (8 * e) / 2 ^ 24

variable {e : Nat}

theorem mantissaOf_of_le_three {v : Nat} (he : e ≤ 3) : mantissaOf v e = v * 2 ^ (8 * (3 - e)) := by
  have hsplit : 2 ^ 24 = 2 ^ (8 * (3 - e)) * 2 ^ (8 * e) := by
    rw [← pow_add]
    congr 1
    omega
  rw [mantissaOf, hsplit, ← Nat.mul_assoc, Nat.mul_div_cancel _ (Nat.two_pow_pos _)]

theorem mantissaOf_of_three_le {v : Nat} (he : 3 ≤ e) : mantissaOf v e = v / 2 ^ (8 * (e - 3)) := by
  have hsplit : 2 ^ (8 * e) = 2 ^ (8 * (e - 3)) * 2 ^ 24 := by
    rw [← pow_add]
    congr 1
    omega
  rw [mantissaOf, hsplit, Nat.mul_div_mul_right _ _ (Nat.two_pow_pos _)]

theorem decodeCompact_of_le_three {m : Nat} (he : e ≤ 3) :
    decodeCompact m e = m / 2 ^ (8 * (3 - e)) := by
  have hsplit : 2 ^ 24 = 2 ^ (8 * (3 - e)) * 2 ^ (8 * e) := by
    rw [← pow_add]
    congr 1
    omega
  rw [decodeCompact, hsplit, Nat.mul_div_mul_right _ _ (Nat.two_pow_pos _)]

theorem decodeCompact_of_three_le {m : Nat} (he : 3 ≤ e) :
    decodeCompact m e = m * 2 ^ (8 * (e - 3)) := by
  have hsplit : 2 ^ (8 * e) = 2 ^ (8 * (e - 3)) * 2 ^ 24 := by
    rw [← pow_add]
    congr 1
    omega
  rw [decodeCompact, hsplit, ← Nat.mul_assoc, Nat.mul_div_cancel _ (Nat.two_pow_pos _)]

theorem mantissaOf_succ (v e : Nat) : mantissaOf v (e + 1) = mantissaOf v e / 2 ^ 8 := by
  rw [mantissaOf, mantissaOf, Nat.div_div_eq_div_mul, ← pow_add]
  rfl

theorem decodeCompact_mantissaOf_le (v e : Nat) : decodeCompact (mantissaOf v e) e ≤ v := by
  rw [decodeCompact]
  apply Nat.div_le_of_le_mul
  rw [mul_comm (2 ^ 24)]
  exact Nat.div_mul_le_self _ _

theorem lt_two_mul_decodeCompact {v : Nat} (hpos : 0 < mantissaOf v e) :
    v < 2 * decodeCompact (mantissaOf v e) e := by
  rcases Nat.le_total e 3 with he | he
  · have hv : 0 < v := by
      refine Nat.pos_of_ne_zero fun h => ?_
      simp [mantissaOf, h] at hpos
    rw [decodeCompact_of_le_three he, mantissaOf_of_le_three he,
      Nat.mul_div_cancel _ (Nat.two_pow_pos _)]
    omega
  · rw [mantissaOf_of_three_le he] at hpos ⊢
    rw [decodeCompact_of_three_le he]
    have hlt := Nat.lt_mul_div_succ v (Nat.two_pow_pos (8 * (e - 3)))
    have hdouble : 2 ^ (8 * (e - 3)) * (v / 2 ^ (8 * (e - 3)) + 1)
        ≤ 2 * (v / 2 ^ (8 * (e - 3)) * 2 ^ (8 * (e - 3))) := by
      have hle := Nat.mul_le_mul_left (2 ^ (8 * (e - 3)))
        (show v / 2 ^ (8 * (e - 3)) + 1 ≤ 2 * (v / 2 ^ (8 * (e - 3))) by omega)
      calc _ ≤ 2 ^ (8 * (e - 3)) * (2 * (v / 2 ^ (8 * (e - 3)))) := hle
        _ = 2 * (v / 2 ^ (8 * (e - 3)) * 2 ^ (8 * (e - 3))) := by ring
    omega

/-! ## The words of the source -/

variable (a : ArithUint256)

theorem toNat_getLow64 : a.getLow64.toNat = a.toNat % 2 ^ 64 := by
  obtain ⟨pn, hlen⟩ := a
  match pn, hlen with
  | p :: q :: rest, _ =>
    have hp := p.isLt
    have hor : p.toNat ||| q.toNat <<< 32 = q.toNat <<< 32 + p.toNat := by
      rw [Nat.or_comm, Nat.shiftLeft_add_eq_or_of_lt hp]
    simp only [getLow64, toNat, value_cons, List.getD_cons_zero,
      List.getD_cons_succ, BitVec.toNat_or, BitVec.toNat_setWidth,
      BitVec.toNat_shiftLeft]
    have hp64 : p.toNat % 2 ^ 64 = p.toNat := Nat.mod_eq_of_lt (by omega)
    have hq64 : q.toNat % 2 ^ 64 = q.toNat := Nat.mod_eq_of_lt (by omega)
    have hshift : q.toNat <<< 32 % 2 ^ 64 = q.toNat <<< 32 := by
      rw [Nat.shiftLeft_eq]
      omega
    rw [hp64, hq64, hshift]
    omega

/-- The exponent that `GetCompact` settles on. -/
def compactExponent (v : Nat) : Nat :=
  let e := (v.size + 7) / 8
  if 2 ^ 23 ≤ mantissaOf v e then e + 1 else e

theorem lt_two_pow_bytes (v : Nat) : v < 2 ^ (8 * ((v.size + 7) / 8)) :=
  Nat.size_le.mp (by omega)

theorem mantissaOf_bytes_lt (v : Nat) : mantissaOf v ((v.size + 7) / 8) < 2 ^ 24 := by
  apply Nat.div_lt_of_lt_mul
  exact Nat.mul_lt_mul_of_pos_right (lt_two_pow_bytes v) (by decide)

theorem toNat_topBytes : (a.topBytes ((a.toNat.size + 7) / 8)).toNat
      = mantissaOf a.toNat ((a.toNat.size + 7) / 8) := by
  have hlt := mantissaOf_bytes_lt a.toNat
  have hv := lt_two_pow_bytes a.toNat
  rw [topBytes]
  split_ifs with hsmall
  · rw [mantissaOf_of_le_three hsmall] at hlt ⊢
    have hv24 : a.toNat < 2 ^ 24 := lt_of_lt_of_le hv (Nat.pow_le_pow_right (by decide) (by omega))
    rw [BitVec.toNat_setWidth, BitVec.toNat_shiftLeft, toNat_getLow64,
      Nat.shiftLeft_eq, Nat.mod_eq_of_lt (show a.toNat < 2 ^ 64 by omega)]
    omega
  · have hlarge : 3 ≤ (a.toNat.size + 7) / 8 := by omega
    rw [mantissaOf_of_three_le hlarge] at hlt ⊢
    rw [BitVec.toNat_setWidth, toNat_getLow64, toNat_shiftRight,
      Nat.mod_eq_of_lt (lt_trans hlt (by decide)),
      Nat.mod_eq_of_lt (lt_trans hlt (by decide))]

theorem and_signBit_ne_zero {x : BitVec 32} (hx : x.toNat < 2 ^ 24) :
    x &&& 0x00800000#32 ≠ 0#32 ↔ 2 ^ 23 ≤ x.toNat := by
  have hand : (x &&& 0x00800000#32).toNat = (x.toNat.testBit 23).toNat * 2 ^ 23 := by
    rw [toNat_and]
    exact Nat.and_two_pow x.toNat 23
  rw [Ne, ← toNat_inj, hand]
  constructor
  · intro hne
    refine Nat.ge_two_pow_of_testBit ?_
    by_contra hbit
    exact hne (by simp [hbit])
  · intro hge
    rw [Nat.testBit_of_two_pow_le_and_two_pow_add_one_gt hge hx]
    decide

theorem compactParts_eq : a.compactParts.1.toNat = mantissaOf a.toNat (compactExponent a.toNat) ∧
      a.compactParts.2 = compactExponent a.toNat := by
  have hmantissa := toNat_topBytes a
  have hlt := mantissaOf_bytes_lt a.toNat
  rw [← hmantissa] at hlt
  have hsign := and_signBit_ne_zero hlt
  rw [hmantissa] at hsign
  simp only [compactParts, compactExponent, bits_eq]
  by_cases hge : 2 ^ 23 ≤ mantissaOf a.toNat ((a.toNat.size + 7) / 8)
  · rw [if_pos (hsign.mpr hge), if_pos hge, mantissaOf_succ, ← hmantissa,
      toNat_ushiftRight, Nat.shiftRight_eq_div_pow]
    exact ⟨rfl, rfl⟩
  · rw [if_neg fun h => hge (hsign.mp h), if_neg hge]
    exact ⟨hmantissa, rfl⟩

theorem compactParts_fst_lt : a.compactParts.1.toNat < 2 ^ 23 := by
  have hlt := mantissaOf_bytes_lt a.toNat
  rw [a.compactParts_eq.1, compactExponent]
  split_ifs with hge
  · rw [mantissaOf_succ]
    omega
  · omega

theorem compactParts_snd_le : a.compactParts.2 ≤ 33 := by
  have hsize : a.toNat.size ≤ 256 := Nat.size_le.mpr a.toNat_lt
  rw [a.compactParts_eq.2, compactExponent]
  split_ifs <;> omega

theorem toNat_getCompact : (a.getCompact false).toNat
      = 2 ^ 24 * compactExponent a.toNat + mantissaOf a.toNat (compactExponent a.toNat) := by
  have hfst := a.compactParts_fst_lt
  have hsnd := a.compactParts_snd_le
  have hsize : (BitVec.ofNat 32 a.compactParts.2 <<< 24).toNat = a.compactParts.2 <<< 24 := by
    rw [BitVec.toNat_shiftLeft, BitVec.toNat_ofNat]
    omega
  have hcode : (a.getCompact false) = a.compactParts.1
      ||| (BitVec.ofNat 32 a.compactParts.2 <<< 24) := by
    simp [getCompact]
  rw [hcode, BitVec.toNat_or, hsize, Nat.or_comm,
    ← Nat.shiftLeft_add_eq_or_of_lt (by omega), Nat.shiftLeft_eq,
    a.compactParts_eq.1, a.compactParts_eq.2, mul_comm]

variable {c : BitVec 32}

theorem toNat_mantissa (c : BitVec 32) : (c &&& 0x007fffff#32).toNat = c.toNat % 2 ^ 23 := by
  rw [toNat_and]
  exact Nat.and_two_pow_sub_one_eq_mod c.toNat 23

theorem toNat_exponent : (c >>> 24).toNat = c.toNat / 2 ^ 24 := by
  rw [toNat_ushiftRight, Nat.shiftRight_eq_div_pow]

theorem fOverflow_setCompact_iff : (setCompact c).fOverflow = true ↔ let m := c.toNat % 2 ^ 23
    let e := c.toNat / 2 ^ 24
    m ≠ 0 ∧ (34 < e ∨ 0xff < m ∧ 33 < e ∨ 0xffff < m ∧ 32 < e) := by
  simp only [setCompact, toNat_exponent]
  split_ifs with hsmall
  · simp only [Bool.and_eq_true, Bool.or_eq_true, decide_eq_true_eq]
    omega
  · simp only [Bool.and_eq_true, Bool.or_eq_true, decide_eq_true_eq, lt_def, ne_eq, ← toNat_inj,
      toNat_mantissa, toNat_ofNat]
    omega

theorem toNat_setCompact (c : BitVec 32) : (setCompact c).value.toNat
      = decodeCompact (c.toNat % 2 ^ 23) (c.toNat / 2 ^ 24) % 2 ^ 256 := by
  have hmask := toNat_mantissa c
  simp only [setCompact, toNat_exponent]
  split_ifs with hsmall
  · have hle := Nat.div_le_self (c.toNat % 2 ^ 23) (2 ^ (8 * (3 - c.toNat / 2 ^ 24)))
    have hlt : c.toNat % 2 ^ 23 / 2 ^ (8 * (3 - c.toNat / 2 ^ 24)) < 2 ^ 64 :=
      by omega
    rw [toNat_ofUInt64, toNat_setWidth, toNat_ushiftRight,
      Nat.shiftRight_eq_div_pow, hmask, decodeCompact_of_le_three hsmall,
      Nat.mod_eq_of_lt hlt, Nat.mod_eq_of_lt (lt_trans hlt (by decide))]
  · rw [toNat_shiftLeft, toNat_ofUInt64, toNat_setWidth, hmask,
      decodeCompact_of_three_le (by omega),
      Nat.mod_eq_of_lt (show c.toNat % 2 ^ 23 < 2 ^ 64 by omega)]

theorem decode_getCompact : (setCompact (a.getCompact false)).value.toNat
      = decodeCompact (mantissaOf a.toNat (compactExponent a.toNat)) (compactExponent a.toNat) := by
  have hfst := a.compactParts_fst_lt
  rw [a.compactParts_eq.1] at hfst
  have hmod : (a.getCompact false).toNat % 2 ^ 23
      = mantissaOf a.toNat (compactExponent a.toNat) := by
    rw [toNat_getCompact]
    omega
  have hdiv : (a.getCompact false).toNat / 2 ^ 24 = compactExponent a.toNat := by
    rw [toNat_getCompact]
    omega
  have hle := decodeCompact_mantissaOf_le a.toNat (compactExponent a.toNat)
  rw [toNat_setCompact, hmod, hdiv, Nat.mod_eq_of_lt (lt_of_le_of_lt hle a.toNat_lt)]

theorem decode_getCompact_le : (setCompact (a.getCompact false)).value.toNat ≤ a.toNat := by
  rw [decode_getCompact]
  exact decodeCompact_mantissaOf_le _ _

theorem le_mantissaOf {v : Nat} (hv : 0 < v) : 2 ^ 15 ≤ mantissaOf v (compactExponent v) := by
  have hsize := Nat.size_pos.mpr hv
  have hge : 2 ^ (v.size - 1) ≤ v := Nat.lt_size.mp (by omega)
  rw [compactExponent]
  split_ifs with hsign
  · rw [mantissaOf_succ]
    omega
  · rw [mantissaOf, Nat.le_div_iff_mul_le (Nat.two_pow_pos _)]
    calc 2 ^ 15 * 2 ^ (8 * ((v.size + 7) / 8)) = 2 ^ (15 + 8 * ((v.size + 7) / 8)) :=
          (pow_add _ _ _).symm
      _ ≤ 2 ^ (v.size - 1 + 24) := Nat.pow_le_pow_right (by decide) (by omega)
      _ = 2 ^ (v.size - 1) * 2 ^ 24 := pow_add _ _ _
      _ ≤ v * 2 ^ 24 := Nat.mul_le_mul_right _ hge

theorem lt_two_mul_decode_getCompact {a : ArithUint256} (ha : 0 < a.toNat) :
    a.toNat < 2 * (setCompact (a.getCompact false)).value.toNat := by
  rw [decode_getCompact]
  exact lt_two_mul_decodeCompact (lt_of_lt_of_le (by decide) (le_mantissaOf ha))

/-! ## The largest value with a code, the smallest code of a value -/

/-- A three-byte mantissa whose top bit is clear, followed by bytes that are zero. -/
def HasMantissa (x : Nat) : Prop := ∃ m < 2 ^ 23, ∃ k, x = m * 256 ^ k

theorem two_pow_mul_eight (k : Nat) : 2 ^ (8 * k) = 256 ^ k := pow_mul 2 8 k

theorem hasMantissa_decodeCompact {m : Nat} (hm : m < 2 ^ 23) :
    HasMantissa (decodeCompact m e) := by
  rcases Nat.le_total e 3 with he | he
  · rw [decodeCompact_of_le_three he]
    exact ⟨_, (Nat.div_le_self _ _).trans_lt hm, 0, by rw [pow_zero, mul_one]⟩
  · exact ⟨m, hm, e - 3, by rw [decodeCompact_of_three_le he, two_pow_mul_eight]⟩

theorem HasMantissa.le_decode {x v : Nat} (hx : HasMantissa x) (hle : x ≤ v) :
    x ≤ decodeCompact (mantissaOf v (compactExponent v)) (compactExponent v) := by
  rcases Nat.le_total (compactExponent v) 3 with he | he
  · rwa [decodeCompact_of_le_three he, mantissaOf_of_le_three he,
      Nat.mul_div_cancel _ (Nat.two_pow_pos _)]
  · obtain ⟨m, hm, k, rfl⟩ := hx
    rcases Nat.eq_zero_or_pos v with rfl | hv
    · exact hle.trans (Nat.zero_le _)
    have hfull := le_mantissaOf hv
    rw [mantissaOf_of_three_le he, two_pow_mul_eight] at hfull
    rw [decodeCompact_of_three_le he, mantissaOf_of_three_le he, two_pow_mul_eight]
    generalize compactExponent v - 3 = d at hfull ⊢
    rcases Nat.lt_or_ge k d with hk | hk
    · -- fewer zero bytes: the mantissa of `v` is larger by its own top bytes
      calc m * 256 ^ k ≤ 2 ^ 23 * 256 ^ (d - 1) :=
            Nat.mul_le_mul hm.le (Nat.pow_le_pow_right (by decide) (by omega))
        _ = 2 ^ 15 * 256 ^ (d - 1 + 1) := by rw [pow_succ]; ring
        _ = 2 ^ 15 * 256 ^ d := by rw [Nat.sub_add_cancel (by omega)]
        _ ≤ v / 256 ^ d * 256 ^ d := Nat.mul_le_mul_right _ hfull
    · have hsplit : m * 256 ^ k = m * 256 ^ (k - d) * 256 ^ d := by
        rw [mul_assoc, ← pow_add, Nat.sub_add_cancel hk]
      rw [hsplit] at hle ⊢
      exact Nat.mul_le_mul_right _ ((Nat.le_div_iff_mul_le (by positivity)).mpr hle)

theorem compactExponent_decodeCompact {m : Nat} (hm : m < 2 ^ 23) : let v := decodeCompact m e
    mantissaOf v e ≤ m ∧ compactExponent v ≤ e := by
  intro v
  have hmantissa : mantissaOf v e ≤ m := by
    refine Nat.div_le_of_le_mul ?_
    rw [mul_comm (2 ^ (8 * e))]
    exact Nat.div_mul_le_self _ _
  have hbytes : v < 2 ^ (8 * e) := by
    have hlt : mantissaOf v e < 2 ^ 24 := by omega
    rw [mantissaOf, Nat.div_lt_iff_lt_mul (Nat.two_pow_pos _), mul_comm] at hlt
    exact Nat.lt_of_mul_lt_mul_left hlt
  have hsize := Nat.size_le.mpr hbytes
  refine ⟨hmantissa, ?_⟩
  rw [compactExponent]
  split_ifs with hsign
  · have hne : (v.size + 7) / 8 ≠ e := by
      intro heq
      rw [heq] at hsign
      omega
    omega
  · omega

theorem toNat_setCompact_of_not_overflow {c : BitVec 32} (h : (setCompact c).fOverflow = false) :
    (setCompact c).value.toNat = decodeCompact (c.toNat % 2 ^ 23) (c.toNat / 2 ^ 24) := by
  have hm : c.toNat % 2 ^ 23 < 2 ^ 23 := Nat.mod_lt _ (by decide)
  have hfits := mt fOverflow_setCompact_iff.mpr (by rw [h]; decide)
  rw [toNat_setCompact]
  generalize c.toNat % 2 ^ 23 = m at hm hfits ⊢
  generalize c.toNat / 2 ^ 24 = e at hfits ⊢
  refine Nat.mod_eq_of_lt (Nat.div_lt_of_lt_mul ?_)
  -- the mantissa has three, two or one bytes, or there is none
  obtain ⟨k, hk, hle⟩ : ∃ k, m < 2 ^ k ∧ (m = 0 ∨ k + 8 * e ≤ 24 + 256) := by
    rcases Nat.eq_zero_or_pos m with hzero | hpos
    · exact ⟨23, hm, .inl hzero⟩
    · by_cases h16 : 0xffff < m
      · exact ⟨23, hm, .inr (by omega)⟩
      · by_cases h8 : 0xff < m
        · exact ⟨16, by omega, .inr (by omega)⟩
        · exact ⟨8, by omega, .inr (by omega)⟩
  rcases hle with rfl | hle
  · rw [Nat.zero_mul]
    positivity
  · calc m * 2 ^ (8 * e) < 2 ^ k * 2 ^ (8 * e) := Nat.mul_lt_mul_of_pos_right hk (by positivity)
      _ = 2 ^ (k + 8 * e) := (pow_add _ _ _).symm
      _ ≤ 2 ^ 24 * 2 ^ 256 :=
          (Nat.pow_le_pow_right (by decide) hle).trans_eq (pow_add 2 24 256)

theorem flags_getCompact (v : ArithUint256) : (setCompact (v.getCompact false)).fNegative = false ∧
    (setCompact (v.getCompact false)).fOverflow = false := by
  have hv := v.toNat_lt
  have hcode := v.toNat_getCompact
  have hm := v.compactParts_fst_lt
  have he := v.compactParts_snd_le
  rw [v.compactParts_eq.1] at hm
  rw [v.compactParts_eq.2] at he
  generalize hE : compactExponent v.toNat = E at hcode hm he
  constructor
  · have hbit : (v.getCompact false &&& 0x00800000#32) = 0#32 := by
      apply BitVec.eq_of_toNat_eq
      rw [toNat_and]
      refine (Nat.and_two_pow _ 23).trans ?_
      rw [Nat.testBit_eq_decide_div_mod_eq, hcode, decide_eq_false (by omega)]
      rfl
    simp [setCompact, hbit]
  · refine Bool.eq_false_iff.mpr fun hover => ?_
    obtain ⟨-, hlarge⟩ := fOverflow_setCompact_iff.mp hover
    rw [hcode] at hlarge
    have hE33 : E = 33 := by omega
    have hlow : mantissaOf v.toNat E < 2 ^ 16 := by
      rw [hE33, mantissaOf_of_three_le (by decide)]
      exact Nat.div_lt_of_lt_mul (by omega)
    omega

/-- No code of the same value is smaller. -/
def Canonical (c : BitVec 32) : Prop :=
  ∀ c', (setCompact c').value = (setCompact c).value → (setCompact c').fOverflow = false →
    c.toNat ≤ c'.toNat

/-- Coding a value and reading it back rounds it down to the next value that has a mantissa.
Reading a code and coding it again gives the smallest code of the same value. -/
theorem setCompact_getCompact : (∀ v : ArithUint256, let r := setCompact (v.getCompact false)
      r.fNegative = false ∧ r.fOverflow = false ∧
        IsGreatest {x | HasMantissa x ∧ x ≤ v.toNat} r.value.toNat) ∧
    ∀ c : BitVec 32, (setCompact c).fNegative = false → (setCompact c).fOverflow = false →
      let c' := (setCompact c).value.getCompact false
      (setCompact c').value = (setCompact c).value ∧ Canonical c' := by
  have hround (v : ArithUint256) : IsGreatest {x | HasMantissa x ∧ x ≤ v.toNat}
      (setCompact (v.getCompact false)).value.toNat := by
    have hm := v.compactParts_fst_lt
    rw [v.compactParts_eq.1] at hm
    refine ⟨⟨?_, decode_getCompact_le v⟩, fun x hx => ?_⟩
    · rw [decode_getCompact]
      exact hasMantissa_decodeCompact hm
    · rw [decode_getCompact]
      exact hx.1.le_decode hx.2
  refine ⟨fun v => ⟨(flags_getCompact v).1, (flags_getCompact v).2, hround v⟩, ?_⟩
  intro c _ hover c'
  have hm (c : BitVec 32) : c.toNat % 2 ^ 23 < 2 ^ 23 := Nat.mod_lt _ (by decide)
  have hsame : (setCompact c').value = (setCompact c).value := by
    refine toNat_injective (Nat.le_antisymm (decode_getCompact_le _) ((hround _).2 ⟨?_, le_rfl⟩))
    rw [toNat_setCompact_of_not_overflow hover]
    exact hasMantissa_decodeCompact (hm c)
  refine ⟨hsame, fun d hvalue hd => ?_⟩
  obtain ⟨hmantissa, hexponent⟩ := compactExponent_decodeCompact (e := d.toNat / 2 ^ 24) (hm d)
  rw [← toNat_setCompact_of_not_overflow hd, hvalue, hsame] at hmantissa hexponent
  rw [show c'.toNat = _ from toNat_getCompact _]
  rcases hexponent.lt_or_eq with hlt | heq
  · have hfst := (setCompact c).value.compactParts_fst_lt
    rw [compactParts_eq _ |>.1] at hfst
    omega
  · rw [heq]
    omega

theorem setCompact_getCompact_sample :
    Canonical ((setCompact 0x1e0ffff0#32).value.getCompact false) :=
  (setCompact_getCompact.2 0x1e0ffff0#32 (by decide +kernel) (by decide +kernel)).2

end KorshCore.ArithUint256

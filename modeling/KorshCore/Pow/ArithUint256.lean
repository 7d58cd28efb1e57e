import KorshCore.Lib.Limbs
import Mathlib.Data.Nat.ModEq

/-!
# 256-bit arithmetic

`base_uint<256>` and `arith_uint256` of `arith_uint256.{h,cpp}`: eight 32-bit
words and the loops that work on them. Every operation is translated from its
loop, and a theorem says which integer operation `toNat` turns it into.
-/

namespace KorshCore

open Limbs List

/-- `WIDTH`, the number of words. -/
def width : Nat := 8

/-- `arith_uint256`: the words `pn`, lowest first. -/
@[ext] structure ArithUint256 where
  pn : List (BitVec 32)
  length_pn : pn.length = width
  deriving DecidableEq

inductive UintError where
  | divisionByZero
  deriving DecidableEq, Repr

namespace ArithUint256

/-! ## The operations -/

def zero : ArithUint256 := ⟨List.replicate width 0#32, rfl⟩

/-- The constructor from a `uint64_t`. -/
def ofUInt64 (b : BitVec 64) : ArithUint256 where
  pn := b.setWidth 32 :: (b >>> 32).setWidth 32 :: List.replicate 6 0#32
  length_pn := rfl

/-- `UintToArith256`, with the `uint256` given as a number. -/
def uintToArith256 (a : Nat) : ArithUint256 where
  pn := wordsOf 32 width a
  length_pn := length_wordsOf _ _

/-- `operator+=`. -/
def add (a b : ArithUint256) : ArithUint256 where
  pn := ripple 32 0 (List.zipWith (fun x y => x.toNat + y.toNat) a.pn b.pn)
  length_pn := by simp [a.length_pn, b.length_pn]

/-- The unary minus: the complement of every word, plus one. -/
def neg (a : ArithUint256) : ArithUint256 where
  pn := increment (a.pn.map (~~~ ·))
  length_pn := by simp [a.length_pn]

/-- `operator-=`. -/
def sub (a b : ArithUint256) : ArithUint256 := a.add b.neg

/-- `operator*=` with a `uint32_t`. -/
def mulUInt32 (a : ArithUint256) (b32 : BitVec 32) : ArithUint256 where
  pn := ripple 32 0 (a.pn.map fun x => b32.toNat * x.toNat)
  length_pn := by simp [a.length_pn]

/-- Turn `j` of the outer loop of `operator*=`: the inner loop adds the products of
word `j` from column `j` on. -/
def mulRow (b : ArithUint256) (pn : List (BitVec 32)) (j : Nat) (x : BitVec 32) :
    List (BitVec 32) :=
  pn.take j ++
    ripple 32 0 (List.zipWith (fun y z => y.toNat + x.toNat * z.toNat) (pn.drop j) b.pn)

theorem length_mulRow {b : ArithUint256} {pn : List (BitVec 32)} (h : pn.length = width)
    (j : Nat) (x : BitVec 32) : (b.mulRow pn j x).length = width := by
  simp only [mulRow, length_append, length_take, length_ripple, length_zipWith, length_drop, h,
    b.length_pn]
  omega

/-- The words after `n` turns of the outer loop. -/
def mulRows (a b : ArithUint256) : Nat → List (BitVec 32)
  | 0 => zero.pn
  | j + 1 => b.mulRow (mulRows a b j) j (a.pn.getD j 0#32)

theorem length_mulRows (a b : ArithUint256) : ∀ n, (mulRows a b n).length = width
  | 0 => rfl
  | n + 1 => length_mulRow (length_mulRows a b n) n _

/-- `operator*=`. -/
def mul (a b : ArithUint256) : ArithUint256 := ⟨mulRows a b width, length_mulRows a b width⟩

/-- What turn `i` of the loop of `operator<<=` writes. -/
def shiftLeftWrites (a : ArithUint256) (k shift i : Nat) : List (Nat × BitVec 32) :=
  (if i + k + 1 < width ∧ shift ≠ 0 then
    [(i + k + 1, a.pn.getD i 0#32 >>> (32 - shift))] else []) ++
  (if i + k < width then [(i + k, a.pn.getD i 0#32 <<< shift)] else [])

/-- `operator<<=`. -/
def shiftLeft (a : ArithUint256) (shift : Nat) : ArithUint256 where
  pn := orAll (List.replicate width 0#32)
    ((List.range width).flatMap (shiftLeftWrites a (shift / 32) (shift % 32)))
  length_pn := by simp

/-- What turn `i` of the loop of `operator>>=` writes. -/
def shiftRightWrites (a : ArithUint256) (k shift i : Nat) : List (Nat × BitVec 32) :=
  (if k + 1 ≤ i ∧ shift ≠ 0 then [(i - k - 1, a.pn.getD i 0#32 <<< (32 - shift))] else []) ++
  (if k ≤ i then [(i - k, a.pn.getD i 0#32 >>> shift)] else [])

/-- `operator>>=`. -/
def shiftRight (a : ArithUint256) (shift : Nat) : ArithUint256 where
  pn := orAll (List.replicate width 0#32)
    ((List.range width).flatMap (shiftRightWrites a (shift / 32) (shift % 32)))
  length_pn := by simp

def compareTo (a b : ArithUint256) : Ordering := compareFrom a.pn b.pn width

def bits (a : ArithUint256) : Nat := bitsFrom a.pn width

def getLow64 (a : ArithUint256) : BitVec 64 :=
  (a.pn.getD 0 0#32).setWidth 64 ||| (a.pn.getD 1 0#32).setWidth 64 <<< 32

/-- `pn[shift / 32] |= (1U << (shift & 31))`. -/
def setBit (a : ArithUint256) (shift : Nat) : ArithUint256 where
  pn := orAt a.pn (shift / 32) (1#32 <<< (shift % 32))
  length_pn := by simp [a.length_pn]

/-- The `while` loop of `operator/=`, whose counter runs from `n - 1` down
to zero. -/
def divLoop : Nat → (num div quotient : ArithUint256) → ArithUint256
  | 0, _, _, quotient => quotient
  | shift + 1, num, div, quotient =>
    if num.compareTo div ≠ .lt then
      divLoop shift (num.sub div) (div.shiftRight 1) (quotient.setBit shift)
    else divLoop shift num (div.shiftRight 1) quotient

/-- `operator/=`. -/
def div (a b : ArithUint256) : Except UintError ArithUint256 :=
  if b.bits = 0 then .error .divisionByZero
  else if a.bits < b.bits then .ok zero
  else
    let shift := a.bits - b.bits
    .ok (divLoop (shift + 1) a (b.shiftLeft shift) zero)

/-! ## The integer behind the words -/

def toNat (a : ArithUint256) : Nat := value a.pn

variable (a : ArithUint256)

theorem toNat_lt : a.toNat < 2 ^ 256 := by
  have := value_lt a.pn
  rwa [a.length_pn] at this

theorem take_width : a.pn.take width = a.pn :=
  take_of_length_le (le_of_eq a.length_pn)

theorem testBit_toNat (i : Nat) : a.toNat.testBit i = (a.pn.getD (i / 32) 0#32).getLsbD (i % 32) :=
  testBit_value (by decide) a.pn i

@[simp] theorem toNat_zero : zero.toNat = 0 := value_replicate_zero width

@[simp] theorem toNat_ofUInt64 (b : BitVec 64) : (ofUInt64 b).toNat = b.toNat := by
  have hb := b.isLt
  have hrest : value (replicate 6 0#32) = 0 := value_replicate_zero 6
  rw [toNat, ofUInt64, value_cons, value_cons, hrest]
  simp only [BitVec.toNat_setWidth, BitVec.toNat_ushiftRight, Nat.shiftRight_eq_div_pow]
  omega

theorem toNat_uintToArith256 {a : Nat} (ha : a < 2 ^ 256) : (uintToArith256 a).toNat = a := by
  rw [toNat, uintToArith256, value_wordsOf]
  exact Nat.mod_eq_of_lt ha

theorem toNat_injective : Function.Injective toNat := by
  intro a b hab
  apply ArithUint256.ext
  refine ext_getElem (by rw [a.length_pn, b.length_pn]) ?_
  intro k ha hb
  apply BitVec.eq_of_getLsbD_eq
  intro r hr
  have hbit := congrArg (fun n => n.testBit (32 * k + r)) hab
  simp only [testBit_toNat] at hbit
  rw [Nat.mul_add_div (by decide), Nat.mul_add_mod, Nat.div_eq_of_lt hr,
    Nat.mod_eq_of_lt hr] at hbit
  simpa [getD_eq_getElem, ha, hb] using hbit

/-! ## Sums and products -/

theorem columnValue_zipWith_add (xs ys : List (BitVec 32)) (hlen : xs.length = ys.length) :
    columnValue 32 (zipWith (fun x y => x.toNat + y.toNat) xs ys) = value xs + value ys := by
  induction xs generalizing ys with
  | nil =>
    rw [length_eq_zero_iff.mp hlen.symm]
    rfl
  | cons x xs ih =>
    cases ys with
    | nil => simp at hlen
    | cons y ys =>
      rw [zipWith_cons_cons, columnValue_cons, value_cons, value_cons, ih ys (by simpa using hlen)]
      ring

theorem toNat_add (b : ArithUint256) : (a.add b).toNat = (a.toNat + b.toNat) % 2 ^ 256 := by
  have hcolumns : ∀ c ∈ zipWith (fun x y : BitVec 32 => x.toNat + y.toNat) a.pn b.pn,
      c + 2 ^ 32 ≤ 2 ^ (2 * 32) := by
    intro c hc
    rw [mem_iff_getElem] at hc
    obtain ⟨i, hi, rfl⟩ := hc
    rw [getElem_zipWith]
    omega
  rw [toNat, add, value_ripple (by decide) hcolumns,
    columnValue_zipWith_add _ _ (by rw [a.length_pn, b.length_pn])]
  simp [a.length_pn, b.length_pn, width, toNat]

theorem toNat_neg : a.neg.toNat = (2 ^ 256 - a.toNat) % 2 ^ 256 := by
  have hcomplement := value_complement a.pn
  rw [a.length_pn] at hcomplement
  rw [toNat, neg, value_increment, length_map, a.length_pn]
  change _ = (2 ^ (32 * width) - value a.pn) % _
  congr 1
  omega

variable {a b : ArithUint256}

theorem toNat_sub (hle : b.toNat ≤ a.toNat) : (a.sub b).toNat = a.toNat - b.toNat := by
  have ha := a.toNat_lt
  rw [sub, toNat_add, toNat_neg]
  omega

theorem columnValue_map_mul (b : Nat) (xs : List (BitVec 32)) :
    columnValue 32 (xs.map fun x => b * x.toNat) = b * value xs := by
  induction xs with
  | nil => simp
  | cons x xs ih =>
    rw [map_cons, columnValue_cons, ih, value_cons]
    ring

theorem column_le (y x z : BitVec 32) : y.toNat + x.toNat * z.toNat + 2 ^ 32 ≤ 2 ^ (2 * 32) := by
  have hprod : x.toNat * z.toNat ≤ (2 ^ 32 - 1) * (2 ^ 32 - 1) :=
    Nat.mul_le_mul (by have := x.isLt; omega) (by have := z.isLt; omega)
  omega

theorem toNat_mulUInt32 (b32 : BitVec 32) :
    (a.mulUInt32 b32).toNat = (a.toNat * b32.toNat) % 2 ^ 256 := by
  have hcolumns : ∀ c ∈ a.pn.map fun x => b32.toNat * x.toNat, c + 2 ^ 32 ≤ 2 ^ (2 * 32) := by
    intro c hc
    obtain ⟨x, _, rfl⟩ := mem_map.mp hc
    simpa using column_le 0#32 b32 x
  rw [toNat, mulUInt32, value_ripple (by decide) hcolumns, columnValue_map_mul]
  simp [a.length_pn, width, toNat, mul_comm]

theorem columnValue_zipWith_mul (x : BitVec 32) : ∀ {xs ys : List (BitVec 32)},
    xs.length ≤ ys.length →
    columnValue 32 (zipWith (fun y z => y.toNat + x.toNat * z.toNat) xs ys) =
      value xs + x.toNat * value (ys.take xs.length)
  | [], _, _ => rfl
  | y :: xs, z :: ys, hle => by
    rw [zipWith_cons_cons, columnValue_cons, length_cons, take_succ_cons, value_cons, value_cons,
      columnValue_zipWith_mul x (Nat.le_of_succ_le_succ hle)]
    ring

theorem value_mulRow {pn : List (BitVec 32)} (hpn : pn.length = width) {j : Nat} (hj : j < width)
    (x : BitVec 32) :
    value (b.mulRow pn j x) ≡ value pn + 2 ^ (32 * j) * x.toNat * b.toNat [MOD 2 ^ 256] := by
  have hcolumns : ∀ c ∈ zipWith (fun y z : BitVec 32 => y.toNat + x.toNat * z.toNat)
      (pn.drop j) b.pn, c + 2 ^ 32 ≤ 2 ^ (2 * 32) := by
    intro c hc
    obtain ⟨i, hi, rfl⟩ := mem_iff_getElem.mp hc
    rw [getElem_zipWith]
    exact column_le _ x _
  have hdrop : (pn.drop j).length = width - j := by rw [length_drop, hpn]
  have htake : (pn.take j).length = j := by
    rw [length_take]
    omega
  have hpow : 2 ^ 256 = 2 ^ (32 * j) * 2 ^ (32 * (width - j)) := by
    rw [← pow_add, ← Nat.mul_add, Nat.add_sub_cancel' hj.le]
    rfl
  have hlength : (zipWith (fun y z : BitVec 32 => y.toNat + x.toNat * z.toNat)
      (pn.drop j) b.pn).length = width - j := by
    rw [length_zipWith, hdrop, b.length_pn]
    omega
  have hsplit : value pn = value (pn.take j) + 2 ^ (32 * j) * value (pn.drop j) := by
    conv_lhs => rw [← take_append_drop j pn, value_append, htake]
  have hlow : b.toNat = value (b.pn.take (width - j)) +
      2 ^ (32 * (width - j)) * value (b.pn.drop (width - j)) := by
    conv_lhs => rw [toNat, ← take_append_drop (width - j) b.pn, value_append, length_take]
    rw [Nat.min_eq_left (b.length_pn ▸ Nat.sub_le width j)]
  rw [mulRow, value_append, htake, value_ripple (by decide) hcolumns, hlength,
    columnValue_zipWith_mul x (by rw [hdrop, b.length_pn]; omega), hdrop, zero_add,
    ← Nat.mul_mod_mul_left, ← hpow, hsplit, hlow]
  calc value (pn.take j) + 2 ^ (32 * j) *
        (value (pn.drop j) + x.toNat * value (b.pn.take (width - j))) % 2 ^ 256
      ≡ value (pn.take j) + 2 ^ (32 * j) *
        (value (pn.drop j) + x.toNat * value (b.pn.take (width - j))) [MOD 2 ^ 256] :=
        (Nat.mod_modEq _ _).add_left _
    _ ≡ value (pn.take j) + 2 ^ (32 * j) * (value (pn.drop j) + x.toNat *
        value (b.pn.take (width - j))) + 2 ^ 256 * (x.toNat * value (b.pn.drop (width - j)))
        [MOD 2 ^ 256] := (Nat.add_mul_mod_self_left _ _ _).symm
    _ = _ := by
        rw [hpow]
        ring

theorem toNat_mul : (a.mul b).toNat = a.toNat * b.toNat % 2 ^ 256 := by
  -- after `n` rows the words hold the product with the lowest `n` words
  have hrows : ∀ n ≤ width,
      value (mulRows a b n) ≡ value (a.pn.take n) * b.toNat [MOD 2 ^ 256] := by
    intro n hn
    induction n with
    | zero => simp [mulRows, Nat.ModEq.refl, zero]
    | succ n ih =>
      refine (value_mulRow (length_mulRows a b n) hn _).trans ?_
      rw [value_take_succ (by rw [a.length_pn]; exact hn), Nat.add_mul]
      exact (ih (Nat.le_of_succ_le hn)).add_right _
  have hall := hrows width le_rfl
  rw [take_width] at hall
  rw [← Nat.mod_eq_of_lt (a.mul b).toNat_lt]
  exact hall

/-! ## Shifts -/

theorem testBit_toNat_of_le {i : Nat} (hi : 256 ≤ i) : a.toNat.testBit i = false :=
  Nat.testBit_eq_false_of_lt (lt_of_lt_of_le a.toNat_lt (Nat.pow_le_pow_right (by decide) hi))

theorem getLsbD_orAll_flatMap {writes : Nat → List (Nat × BitVec 32)}
    (hwrites : ∀ i, ∀ write ∈ writes i, i < width → write.1 < width) (j r : Nat) :
    ((orAll (replicate width 0#32) ((range width).flatMap writes)).getD j 0#32).getLsbD r = true ↔
      ∃ i < width, ∃ write ∈ writes i, write.1 = j ∧ write.2.getLsbD r = true := by
  have hin : ∀ write ∈ (range width).flatMap writes, write.1 < (replicate width 0#32).length := by
    intro write hwrite
    obtain ⟨i, hi, hmem⟩ := mem_flatMap.mp hwrite
    rw [length_replicate]
    exact hwrites i write hmem (mem_range.mp hi)
  have hzero : ((replicate width 0#32).getD j 0#32).getLsbD r = false := by
    simp [getD_eq_getElem?_getD, getElem?_replicate]
    split_ifs <;> simp
  rw [getLsbD_orAll hin, hzero]
  simp only [Bool.false_eq_true, false_or, mem_flatMap, mem_range]
  constructor
  · rintro ⟨write, ⟨i, hi, hmem⟩, hj, hr⟩
    exact ⟨i, hi, write, hmem, hj, hr⟩
  · rintro ⟨i, hi, write, hmem, hj, hr⟩
    exact ⟨write, ⟨i, hi, hmem⟩, hj, hr⟩

variable {a : ArithUint256}

theorem mem_shiftLeftWrites {k shift i : Nat} {write : Nat × BitVec 32} :
    write ∈ shiftLeftWrites a k shift i ↔
      ((i + k + 1 < width ∧ shift ≠ 0) ∧ write = (i + k + 1, a.pn.getD i 0#32 >>> (32 - shift))) ∨
      (i + k < width ∧ write = (i + k, a.pn.getD i 0#32 <<< shift)) := by
  rw [shiftLeftWrites, mem_append]
  split_ifs <;> simp_all

variable (shift : Nat)

theorem testBit_shiftLeft (i : Nat) : (a.shiftLeft shift).toNat.testBit i
      = (decide (i < 256) && decide (shift ≤ i) && a.toNat.testBit (i - shift)) := by
  have hs : shift % 32 < 32 := Nat.mod_lt _ (by decide)
  have hr : i % 32 < 32 := Nat.mod_lt _ (by decide)
  have hwidth : width = 8 := rfl
  rw [Bool.eq_iff_iff, testBit_toNat, shiftLeft, getLsbD_orAll_flatMap]
  · simp only [Bool.and_eq_true, decide_eq_true_eq, testBit_toNat]
    constructor
    · -- a write to word `i / 32` comes from one of the two words below it
      rintro ⟨n, hn, write, hmem, hj, hbit⟩
      rcases mem_shiftLeftWrites.mp hmem with ⟨hc, rfl⟩ | ⟨hc, rfl⟩
      · simp only [BitVec.getLsbD_ushiftRight] at hj hbit
        have hlow := BitVec.lt_of_getLsbD hbit
        have hdiv : (i - shift) / 32 = n := by omega
        have hmod : (i - shift) % 32 = 32 - shift % 32 + i % 32 := by omega
        rw [hdiv, hmod]
        exact ⟨by omega, hbit⟩
      · simp only [BitVec.getLsbD_shiftLeft, Bool.and_eq_true,
          decide_eq_true_eq, Bool.not_eq_true', decide_eq_false_iff_not]
          at hj hbit
        have hdiv : (i - shift) / 32 = n := by omega
        have hmod : (i - shift) % 32 = i % 32 - shift % 32 := by omega
        rw [hdiv, hmod]
        exact ⟨by omega, hbit.2⟩
    · rintro ⟨⟨hi, hle⟩, hbit⟩
      refine ⟨(i - shift) / 32, by omega, ?_⟩
      by_cases hcross : i % 32 < shift % 32
      · refine ⟨_, mem_shiftLeftWrites.mpr (.inl ⟨by omega, rfl⟩), by omega, ?_⟩
        have hmod : 32 - shift % 32 + i % 32 = (i - shift) % 32 := by omega
        rw [BitVec.getLsbD_ushiftRight, hmod, hbit]
      · refine ⟨_, mem_shiftLeftWrites.mpr (.inr ⟨by omega, rfl⟩), by omega, ?_⟩
        have hmod : i % 32 - shift % 32 = (i - shift) % 32 := by omega
        rw [BitVec.getLsbD_shiftLeft, hmod, hbit]
        simp [hr, hcross]
  · intro n write hmem hn
    rcases mem_shiftLeftWrites.mp hmem with ⟨hc, rfl⟩ | ⟨hc, rfl⟩
    · exact hc.1
    · exact hc

theorem mem_shiftRightWrites {k shift i : Nat} {write : Nat × BitVec 32} :
    write ∈ shiftRightWrites a k shift i ↔
      ((k + 1 ≤ i ∧ shift ≠ 0) ∧ write = (i - k - 1, a.pn.getD i 0#32 <<< (32 - shift))) ∨
      (k ≤ i ∧ write = (i - k, a.pn.getD i 0#32 >>> shift)) := by
  rw [shiftRightWrites, mem_append]
  split_ifs <;> simp_all

theorem testBit_shiftRight (i : Nat) :
    (a.shiftRight shift).toNat.testBit i = a.toNat.testBit (shift + i) := by
  have hs : shift % 32 < 32 := Nat.mod_lt _ (by decide)
  have hr : i % 32 < 32 := Nat.mod_lt _ (by decide)
  have hwidth : width = 8 := rfl
  rw [Bool.eq_iff_iff, testBit_toNat, shiftRight, getLsbD_orAll_flatMap]
  · constructor
    · rintro ⟨n, hn, write, hmem, hj, hbit⟩
      rw [testBit_toNat]
      rcases mem_shiftRightWrites.mp hmem with ⟨hc, rfl⟩ | ⟨hc, rfl⟩
      · simp only [BitVec.getLsbD_shiftLeft, Bool.and_eq_true,
          decide_eq_true_eq, Bool.not_eq_true', decide_eq_false_iff_not]
          at hj hbit
        have hdiv : (shift + i) / 32 = n := by omega
        have hmod : (shift + i) % 32 = i % 32 - (32 - shift % 32) := by omega
        rw [hdiv, hmod]
        exact hbit.2
      · simp only [BitVec.getLsbD_ushiftRight] at hj hbit
        have hlow := BitVec.lt_of_getLsbD hbit
        have hdiv : (shift + i) / 32 = n := by omega
        have hmod : (shift + i) % 32 = shift % 32 + i % 32 := by omega
        rw [hdiv, hmod]
        exact hbit
    · intro hbit
      have hi : shift + i < 256 := by
        by_contra hge
        rw [a.testBit_toNat_of_le (not_lt.mp hge)] at hbit
        exact Bool.false_ne_true hbit
      rw [testBit_toNat] at hbit
      refine ⟨(shift + i) / 32, by omega, ?_⟩
      by_cases hcross : shift % 32 + i % 32 < 32
      · refine ⟨_, mem_shiftRightWrites.mpr (.inr ⟨by omega, rfl⟩),
          by omega, ?_⟩
        have hmod : shift % 32 + i % 32 = (shift + i) % 32 := by omega
        rw [BitVec.getLsbD_ushiftRight, hmod, hbit]
      · refine ⟨_, mem_shiftRightWrites.mpr (.inl ⟨by omega, rfl⟩),
          by omega, ?_⟩
        have hmod : i % 32 - (32 - shift % 32) = (shift + i) % 32 := by omega
        have hge : ¬i % 32 < 32 - shift % 32 := by omega
        rw [BitVec.getLsbD_shiftLeft, hmod, hbit]
        simp [hr, hge]
  · intro n write hmem hn
    rcases mem_shiftRightWrites.mp hmem with ⟨hc, rfl⟩ | ⟨hc, rfl⟩
    · exact lt_of_le_of_lt (by omega) hn
    · exact lt_of_le_of_lt (Nat.sub_le _ _) hn

theorem toNat_shiftLeft : (a.shiftLeft shift).toNat = (a.toNat * 2 ^ shift) % 2 ^ 256 := by
  apply Nat.eq_of_testBit_eq
  intro i
  rw [testBit_shiftLeft, Nat.testBit_mod_two_pow, mul_comm,
    Nat.testBit_two_pow_mul, Bool.and_assoc]

theorem toNat_shiftRight : (a.shiftRight shift).toNat = a.toNat / 2 ^ shift := by
  apply Nat.eq_of_testBit_eq
  intro i
  rw [testBit_shiftRight, Nat.testBit_div_two_pow, add_comm]

/-! ## Comparison and division -/

theorem compareTo_eq (b : ArithUint256) : a.compareTo b = compare a.toNat b.toNat := by
  rw [compareTo, compareFrom_eq _ _ _ (le_of_eq a.length_pn.symm)
    (le_of_eq b.length_pn.symm), take_width, take_width]
  rfl

theorem compareTo_ne_lt : a.compareTo b ≠ .lt ↔ b.toNat ≤ a.toNat := by
  rw [compareTo_eq, Ne, compare_lt_iff_lt, not_lt]

theorem bits_eq : a.bits = a.toNat.size := by
  rw [bits, bitsFrom_eq (by decide) _ _ (le_of_eq a.length_pn.symm), take_width]
  rfl

theorem toNat_setBit {shift : Nat} (hs : shift < 256) (hclear : a.toNat % 2 ^ (shift + 1) = 0) :
    (a.setBit shift).toNat = a.toNat + 2 ^ shift :=
  value_orAt_one (by decide) (by rw [a.length_pn]; exact hs) hclear

/-- The invariant of the division loop: with `n` turns to go the divisor is
half of `b * 2 ^ n`, the quotient has no bits below `n`, and what is left of
the numerator is below `b * 2 ^ n`. -/
structure DivInvariant (a b n : Nat) (num div quotient : ArithUint256) : Prop where
  div_eq : div.toNat = b * 2 ^ n / 2
  clear : quotient.toNat % 2 ^ n = 0
  split : a = quotient.toNat * b + num.toNat
  lt : num.toNat < b * 2 ^ n

variable {num div quotient : ArithUint256}

theorem DivInvariant.halve {a b n : Nat} (hinv : DivInvariant a b (n + 1) num div quotient) :
    div.toNat = b * 2 ^ n ∧ (div.shiftRight 1).toNat = b * 2 ^ n / 2 ∧ 2 ^ n ∣ quotient.toNat := by
  have hdiv := hinv.div_eq
  have hpow : b * 2 ^ (n + 1) = 2 * (b * 2 ^ n) := by ring
  have hdiv' : div.toNat = b * 2 ^ n := by omega
  refine ⟨hdiv', by rw [toNat_shiftRight, hdiv', pow_one], ?_⟩
  exact dvd_trans (pow_dvd_pow 2 (Nat.le_succ n)) (Nat.dvd_of_mod_eq_zero hinv.clear)

theorem DivInvariant.subtract {a b n : Nat} (hn : n < 256)
    (hinv : DivInvariant a b (n + 1) num div quotient) (hge : div.toNat ≤ num.toNat) :
    DivInvariant a b n (num.sub div) (div.shiftRight 1) (quotient.setBit n) := by
  obtain ⟨hdiv, hhalf, hdvd⟩ := hinv.halve
  obtain ⟨-, hclear, hsplit, hlt⟩ := hinv
  have hpow : b * 2 ^ (n + 1) = 2 * (b * 2 ^ n) := by ring
  refine ⟨hhalf, ?_, ?_, ?_⟩
  · rw [toNat_setBit hn hclear]
    exact Nat.mod_eq_zero_of_dvd (Nat.dvd_add hdvd (Nat.dvd_refl _))
  · rw [toNat_setBit hn hclear, toNat_sub hge, add_mul, mul_comm (2 ^ n) b]
    omega
  · rw [toNat_sub hge]
    omega

theorem DivInvariant.skip {a b n : Nat}
    (hinv : DivInvariant a b (n + 1) num div quotient) (hlt' : num.toNat < div.toNat) :
    DivInvariant a b n num (div.shiftRight 1) quotient := by
  obtain ⟨hdiv, hhalf, hdvd⟩ := hinv.halve
  exact ⟨hhalf, Nat.mod_eq_zero_of_dvd hdvd, hinv.split, hdiv ▸ hlt'⟩

theorem toNat_divLoop {a b n : Nat} (hn : n ≤ 256) (hinv : DivInvariant a b n num div quotient) :
    (divLoop n num div quotient).toNat = a / b := by
  induction n generalizing num div quotient with
  | zero =>
    obtain ⟨_, _, hsplit, hlt⟩ := hinv
    rw [divLoop, hsplit]
    symm
    apply Nat.div_eq_of_lt_le
    · omega
    · rw [add_mul]
      omega
  | succ n ih =>
    rw [divLoop]
    split_ifs with hge
    · exact ih (Nat.le_of_succ_le hn) (hinv.subtract hn (compareTo_ne_lt.mp hge))
    · refine ih (Nat.le_of_succ_le hn) (hinv.skip ?_)
      exact Nat.lt_of_not_le fun hle => hge (compareTo_ne_lt.mpr hle)

theorem div_eq_ok (hb : 0 < b.toNat) : ∃ q, a.div b = .ok q ∧ q.toNat = a.toNat / b.toNat := by
  have hbits : b.bits ≠ 0 := by
    rw [bits_eq]
    exact (Nat.size_pos.mpr hb).ne'
  rw [div, if_neg hbits]
  split_ifs with hlt
  · refine ⟨zero, rfl, ?_⟩
    rw [bits_eq, bits_eq] at hlt
    have hab : a.toNat < b.toNat := by
      by_contra hge
      exact absurd (Nat.size_le_size (not_lt.mp hge)) (not_le.mpr hlt)
    rw [toNat_zero, Nat.div_eq_of_lt hab]
  · refine ⟨_, rfl, ?_⟩
    have hbound : a.bits ≤ 256 := by
      rw [bits_eq]
      exact Nat.size_le.mpr a.toNat_lt
    have hsum : a.toNat.size - b.toNat.size + b.toNat.size = a.toNat.size := by
      rw [bits_eq, bits_eq] at hlt
      omega
    -- the aligned divisor still fits: it has as many bits as the numerator
    have hfit : b.toNat * 2 ^ (a.bits - b.bits) < 2 ^ 256 := by
      calc b.toNat * 2 ^ (a.bits - b.bits) < 2 ^ b.toNat.size * 2 ^ (a.bits - b.bits) :=
            Nat.mul_lt_mul_of_pos_right (Nat.lt_size_self _) (Nat.two_pow_pos _)
        _ = 2 ^ a.toNat.size := by
            rw [← pow_add, bits_eq, bits_eq, add_comm, hsum]
        _ ≤ 2 ^ 256 :=
            Nat.pow_le_pow_right (by decide) (by rw [← bits_eq]; exact hbound)
    have hpow : b.toNat * 2 ^ (a.bits - b.bits + 1)
        = 2 * (b.toNat * 2 ^ (a.bits - b.bits)) := by ring
    have hpos : 1 ≤ b.toNat.size := Nat.size_pos.mpr hb
    have hturns : a.bits - b.bits + 1 ≤ 256 := by omega
    refine toNat_divLoop hturns ⟨?_, ?_, ?_, ?_⟩
    · rw [toNat_shiftLeft]
      omega
    · simp
    · simp
    · have hpred : 2 ^ (b.toNat.size - 1) ≤ b.toNat := Nat.lt_size.mp (by omega)
      calc a.toNat < 2 ^ a.toNat.size := Nat.lt_size_self _
        _ = 2 ^ (b.toNat.size - 1) * 2 ^ (a.bits - b.bits + 1) := by
            rw [← pow_add, bits_eq, bits_eq]
            congr 1
            omega
        _ ≤ b.toNat * 2 ^ (a.bits - b.bits + 1) :=
            Nat.mul_le_mul_right _ hpred

/-- The operators compute on the integers modulo `2 ^ 256`, and division throws on zero
and is the integer quotient otherwise. -/
theorem operators_toNat (a b : ArithUint256) (b32 : BitVec 32) (shift : Nat) :
    (a.shiftLeft shift).toNat = a.toNat * 2 ^ shift % 2 ^ 256 ∧
    (a.shiftRight shift).toNat = a.toNat / 2 ^ shift % 2 ^ 256 ∧
    (a.mulUInt32 b32).toNat = a.toNat * b32.toNat % 2 ^ 256 ∧
    (a.mul b).toNat = a.toNat * b.toNat % 2 ^ 256 ∧
    a.div b = if b.toNat = 0 then .error .divisionByZero
      else .ok (uintToArith256 (a.toNat / b.toNat)) := by
  have hshift : a.toNat / 2 ^ shift < 2 ^ 256 := (Nat.div_le_self _ _).trans_lt a.toNat_lt
  refine ⟨toNat_shiftLeft shift, ?_, toNat_mulUInt32 b32, toNat_mul, ?_⟩
  · rw [toNat_shiftRight, Nat.mod_eq_of_lt hshift]
  · split_ifs with hb
    · rw [div, if_pos (by rw [bits_eq, hb, Nat.size_zero])]
    · obtain ⟨q, hq, hvalue⟩ := div_eq_ok (a := a) (Nat.pos_of_ne_zero hb)
      rw [hq, ← hvalue]
      exact congrArg _ (toNat_injective (toNat_uintToArith256 q.toNat_lt).symm)

end ArithUint256

end KorshCore

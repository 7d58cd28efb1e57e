import Mathlib.Data.Nat.Size
import Mathlib.Data.Nat.Bitwise
import Mathlib.Tactic.Ring
import Mathlib.Tactic.Linarith

/-!
# Little-endian limb arithmetic

A multi-word natural number is a list of `w`-bit words, lowest word first.
`value` is the number it stands for.
-/

namespace Limbs

open List

variable {w : Nat}

/-! ## Value -/

def value : List (BitVec w) → Nat
  | [] => 0
  | d :: ds => d.toNat + 2 ^ w * value ds

@[simp] theorem value_nil : value ([] : List (BitVec w)) = 0 := rfl

theorem value_cons (d : BitVec w) (ds : List (BitVec w)) :
    value (d :: ds) = d.toNat + 2 ^ w * value ds := rfl

variable (ds : List (BitVec w))

theorem two_pow_mul_succ (w n : Nat) : 2 ^ (w * (n + 1)) = 2 ^ w * 2 ^ (w * n) := by
  rw [Nat.mul_succ, add_comm, pow_add]

theorem value_lt : value ds < 2 ^ (w * ds.length) := by
  induction ds with
  | nil => simp
  | cons d ds ih =>
    calc value (d :: ds) < 2 ^ w + 2 ^ w * value ds := by
          rw [value_cons]
          omega
      _ = 2 ^ w * (value ds + 1) := by ring
      _ ≤ 2 ^ w * 2 ^ (w * ds.length) := Nat.mul_le_mul_left _ ih
      _ = 2 ^ (w * (d :: ds).length) := (two_pow_mul_succ w ds.length).symm

theorem value_append (xs ys : List (BitVec w)) :
    value (xs ++ ys) = value xs + 2 ^ (w * xs.length) * value ys := by
  induction xs with
  | nil => simp
  | cons x xs ih =>
    rw [cons_append, value_cons, value_cons, ih, length_cons]
    ring

@[simp] theorem value_replicate_zero (n : Nat) : value (replicate n 0#w) = 0 := by
  induction n with
  | zero => rfl
  | succ n ih => simp [replicate_succ, value_cons, ih]

variable {ds : List (BitVec w)}

theorem value_take_succ {k : Nat} (hk : k < ds.length) :
    value (ds.take (k + 1)) = value (ds.take k) + 2 ^ (w * k) * (ds.getD k 0#w).toNat := by
  rw [← take_append_getElem hk, value_append, length_take,
    Nat.min_eq_left hk.le, getD_eq_getElem ds 0#w hk]
  simp [value_cons]

theorem value_take_lt {k : Nat} (hk : k ≤ ds.length) : value (ds.take k) < 2 ^ (w * k) := by
  simpa [Nat.min_eq_left hk] using value_lt (ds.take k)

theorem testBit_value (hw : 0 < w) (ds : List (BitVec w)) (i : Nat) :
    (value ds).testBit i = (ds.getD (i / w) 0#w).getLsbD (i % w) := by
  induction ds generalizing i with
  | nil => simp
  | cons d ds ih =>
    rw [value_cons, add_comm, Nat.testBit_two_pow_mul_add _ d.isLt]
    split_ifs with hi
    · simp [Nat.div_eq_of_lt hi, Nat.mod_eq_of_lt hi, BitVec.getLsbD]
    · have hge : w ≤ i := not_lt.mp hi
      have hdiv : i / w = (i - w) / w + 1 := Nat.div_eq_sub_div hw hge
      rw [ih, hdiv, Nat.mod_eq_sub_mod hge]
      rfl

/-- The lowest `n` words of a number. -/
def wordsOf (w : Nat) : Nat → Nat → List (BitVec w)
  | 0, _ => []
  | n + 1, v => BitVec.ofNat w v :: wordsOf w n (v / 2 ^ w)

@[simp] theorem length_wordsOf (n v : Nat) : (wordsOf w n v).length = n := by
  induction n generalizing v with
  | zero => rfl
  | succ n ih => simp [wordsOf, ih]

theorem value_wordsOf (n v : Nat) : value (wordsOf w n v) = v % 2 ^ (w * n) := by
  induction n generalizing v with
  | zero => simp [wordsOf, Nat.mod_one]
  | succ n ih =>
    rw [wordsOf, value_cons, ih, BitVec.toNat_ofNat, Nat.mul_succ,
      add_comm (w * n), pow_add, Nat.mod_mul]

/-! ## Carries -/

/-- The number that the columns of a sum stand for. -/
def columnValue (w : Nat) : List Nat → Nat
  | [] => 0
  | c :: cs => c + 2 ^ w * columnValue w cs

@[simp] theorem columnValue_nil : columnValue w [] = 0 := rfl

@[simp] theorem columnValue_cons (c : Nat) (cs : List Nat) :
    columnValue w (c :: cs) = c + 2 ^ w * columnValue w cs := rfl

/-- Normalise the columns of a sum: each step adds the carry to its column
in a double word, keeps the low word and carries the high one. -/
def ripple (w : Nat) : Nat → List Nat → List (BitVec w)
  | _, [] => []
  | carry, column :: columns =>
    let n := (carry + column) % 2 ^ (2 * w)
    BitVec.ofNat w n :: ripple w (n >>> w) columns

@[simp] theorem length_ripple (carry : Nat) (columns : List Nat) :
    (ripple w carry columns).length = columns.length := by
  induction columns generalizing carry with
  | nil => rfl
  | cons column columns ih => simp [ripple, ih]

/-- If no column overflows, rippling computes the sum modulo the size of the
result. -/
theorem value_ripple {carry : Nat} {columns : List Nat} (hcarry : carry < 2 ^ w)
    (hcolumns : ∀ c ∈ columns, c + 2 ^ w ≤ 2 ^ (2 * w)) : value (ripple w carry columns)
      = (carry + columnValue w columns) % 2 ^ (w * columns.length) := by
  induction columns generalizing carry with
  | nil => simp [ripple, Nat.mod_one]
  | cons column columns ih =>
    have hroom := hcolumns column (by simp)
    have hfit : carry + column < 2 ^ (2 * w) := by omega
    have hsplit : 2 ^ (2 * w) = 2 ^ w * 2 ^ w := by
      rw [← pow_add]
      congr 1
      ring
    have hnext : (carry + column) / 2 ^ w < 2 ^ w := Nat.div_lt_of_lt_mul (hsplit ▸ hfit)
    have htail := ih hnext fun c hc => hcolumns c (mem_cons_of_mem _ hc)
    rw [ripple, value_cons, Nat.mod_eq_of_lt hfit, Nat.shiftRight_eq_div_pow,
      htail, BitVec.toNat_ofNat, length_cons, two_pow_mul_succ, columnValue_cons,
      ← add_assoc, Nat.mod_mul]
    -- low word and rest of `carry + column + 2 ^ w * rest`
    rw [Nat.add_mul_mod_self_left, Nat.add_mul_div_left _ _ (Nat.two_pow_pos w)]

/-! ## Negation -/

/-- Add one, going on to the next word while a word wraps to zero. -/
def increment : List (BitVec w) → List (BitVec w)
  | [] => []
  | d :: ds => if d + 1 = 0#w then (d + 1) :: increment ds else (d + 1) :: ds

@[simp] theorem length_increment : (increment ds).length = ds.length := by
  induction ds with
  | nil => rfl
  | cons d ds ih =>
    rw [increment]
    split_ifs <;> simp [ih]

theorem value_increment : value (increment ds) = (value ds + 1) % 2 ^ (w * ds.length) := by
  induction ds with
  | nil => simp [increment]
  | cons d ds ih =>
    have hd := d.isLt
    have hsucc : (d + 1).toNat = (d.toNat + 1) % 2 ^ w := by
      simp [BitVec.toNat_add]
    rw [increment]
    split_ifs with hwrap
    · -- the word wraps, so it was all ones and the next word is incremented
      have hones : d.toNat + 1 = 2 ^ w := by
        rw [hwrap] at hsucc
        have hdvd := Nat.dvd_of_mod_eq_zero hsucc.symm
        exact Nat.le_antisymm hd (Nat.le_of_dvd (Nat.succ_pos _) hdvd)
      have hvalue : value (d :: ds) + 1 = 2 ^ w * (value ds + 1) := by
        rw [value_cons, Nat.mul_add]
        omega
      rw [hvalue, length_cons, two_pow_mul_succ, Nat.mul_mod_mul_left, value_cons, ih, hwrap]
      simp
    · have hlt : d.toNat + 1 < 2 ^ w := by
        refine lt_of_le_of_ne hd fun heq => hwrap ?_
        apply BitVec.eq_of_toNat_eq
        rw [hsucc, heq]
        simp
      have hvalue : value ((d + 1) :: ds) = value (d :: ds) + 1 := by
        rw [value_cons, value_cons, hsucc, Nat.mod_eq_of_lt hlt]
        omega
      have hbound := value_lt ((d + 1) :: ds)
      rw [hvalue, length_cons] at hbound
      rw [hvalue, length_cons, Nat.mod_eq_of_lt hbound]

theorem value_complement (ds : List (BitVec w)) :
    value (ds.map (~~~ ·)) + value ds + 1 = 2 ^ (w * ds.length) := by
  induction ds with
  | nil => simp
  | cons d ds ih =>
    have hword : (~~~d).toNat + d.toNat + 1 = 2 ^ w := by
      rw [BitVec.toNat_not]
      omega
    rw [length_cons, two_pow_mul_succ, ← ih]
    calc (~~~d).toNat + 2 ^ w * value (ds.map (~~~ ·)) + (d.toNat + 2 ^ w * value ds) + 1
        = ((~~~d).toNat + d.toNat + 1) + 2 ^ w * (value (ds.map (~~~ ·)) + value ds) := by ring
      _ = 2 ^ w * (value (ds.map (~~~ ·)) + value ds + 1) := by
          rw [hword]
          ring

/-! ## Scans from the top -/

/-- Compare two lists word by word, from below position `k` downwards. -/
def compareFrom (a b : List (BitVec w)) : Nat → Ordering
  | 0 => .eq
  | k + 1 =>
    if a.getD k 0#w < b.getD k 0#w then .lt
    else if b.getD k 0#w < a.getD k 0#w then .gt
    else compareFrom a b k

theorem add_mul_lt_add_mul {B x y u v : Nat} (hx : x < B) (huv : u < v) :
    x + B * u < y + B * v := by
  calc x + B * u < B + B * u := by omega
    _ = B * (u + 1) := by ring
    _ ≤ B * v := Nat.mul_le_mul_left _ huv
    _ ≤ y + B * v := Nat.le_add_left _ _

theorem compareFrom_eq (a b : List (BitVec w)) (k : Nat) (ha : k ≤ a.length) (hb : k ≤ b.length) :
    compareFrom a b k = compare (value (a.take k)) (value (b.take k)) := by
  induction k with
  | zero => simp [compareFrom]
  | succ k ih =>
    have hla := value_take_lt (Nat.le_of_succ_le ha)
    have hlb := value_take_lt (Nat.le_of_succ_le hb)
    rw [compareFrom, value_take_succ ha, value_take_succ hb]
    split_ifs with hlt hgt
    · exact (compare_lt_iff_lt.mpr (add_mul_lt_add_mul hla (BitVec.lt_def.mp hlt))).symm
    · exact (compare_gt_iff_gt.mpr (add_mul_lt_add_mul hlb (BitVec.lt_def.mp hgt))).symm
    · have heq : (a.getD k 0#w).toNat = (b.getD k 0#w).toNat :=
        Nat.le_antisymm (BitVec.not_lt.mp hgt) (BitVec.not_lt.mp hlt)
      rw [ih (Nat.le_of_succ_le ha) (Nat.le_of_succ_le hb), heq]
      rcases lt_trichotomy (value (a.take k)) (value (b.take k)) with h | h | h
      · rw [compare_lt_iff_lt.mpr h, compare_lt_iff_lt.mpr (by omega)]
      · rw [h]
        simp
      · rw [compare_gt_iff_gt.mpr h, compare_gt_iff_gt.mpr (by omega)]

/-- The number of bits of a non-zero word, scanning down from bit `n`. -/
def wordBitsFrom (d : BitVec w) : Nat → Nat
  | 0 => 1
  | n + 1 => if d.getLsbD (n + 1) then n + 2 else wordBitsFrom d n

theorem wordBitsFrom_eq {d : BitVec w} {n : Nat} (hpos : 0 < d.toNat)
    (hlt : d.toNat < 2 ^ (n + 1)) : wordBitsFrom d n = d.toNat.size := by
  induction n with
  | zero =>
    have hone : d.toNat = 1 := by omega
    rw [wordBitsFrom, hone, Nat.size_one]
  | succ n ih =>
    rw [wordBitsFrom]
    split_ifs with hbit
    · have hge : 2 ^ (n + 1) ≤ d.toNat := Nat.ge_two_pow_of_testBit hbit
      exact Nat.le_antisymm (Nat.lt_size.mpr hge) (Nat.size_le.mpr hlt)
    · refine ih ?_
      by_contra hge
      have htop : d.toNat.testBit (n + 1) = true :=
        Nat.testBit_of_two_pow_le_and_two_pow_add_one_gt (not_lt.mp hge) hlt
      exact hbit htop

/-- The number of bits of a list, scanning words down from below position
`k` for the first that is not zero. -/
def bitsFrom (ds : List (BitVec w)) : Nat → Nat
  | 0 => 0
  | k + 1 =>
    if ds.getD k 0#w ≠ 0#w then
      w * k + wordBitsFrom (ds.getD k 0#w) (w - 1)
    else bitsFrom ds k

theorem bitsFrom_eq (hw : 0 < w) (ds : List (BitVec w)) (k : Nat)
    (hk : k ≤ ds.length) : bitsFrom ds k = (value (ds.take k)).size := by
  induction k with
  | zero => simp [bitsFrom]
  | succ k ih =>
    have hlow := value_take_lt (Nat.le_of_succ_le hk)
    rw [bitsFrom, value_take_succ hk]
    split_ifs with hne
    · have hpos : 0 < (ds.getD k 0#w).toNat := by
        refine Nat.pos_of_ne_zero fun hzero => hne ?_
        exact BitVec.eq_of_toNat_eq (by simpa using hzero)
      have hlt : (ds.getD k 0#w).toNat < 2 ^ (w - 1 + 1) := by
        rw [Nat.sub_add_cancel hw]
        exact (ds.getD k 0#w).isLt
      rw [wordBitsFrom_eq hpos hlt]
      -- both bounds of the size come from the top word
      have hsize := Nat.lt_size_self (ds.getD k 0#w).toNat
      have hpred := Nat.lt_size.mp (Nat.sub_lt (Nat.size_pos.mpr hpos) Nat.one_pos)
      apply Nat.le_antisymm
      · have hge : 2 ^ (w * k + ((ds.getD k 0#w).toNat.size - 1))
            ≤ value (ds.take k) + 2 ^ (w * k) * (ds.getD k 0#w).toNat := by
          rw [pow_add]
          exact le_trans (Nat.mul_le_mul_left _ hpred) (Nat.le_add_left _ _)
        have := Nat.lt_size.mpr hge
        omega
      · rw [Nat.size_le, pow_add]
        calc value (ds.take k) + 2 ^ (w * k) * (ds.getD k 0#w).toNat
            < 0 + 2 ^ (w * k) * 2 ^ (ds.getD k 0#w).toNat.size :=
              add_mul_lt_add_mul hlow hsize
          _ = 2 ^ (w * k) * 2 ^ (ds.getD k 0#w).toNat.size := zero_add _
    · have hzero : ds.getD k 0#w = 0#w := by simpa using hne
      rw [ih (Nat.le_of_succ_le hk), hzero]
      simp

/-! ## Words combined by `or` -/

/-- Combine word `k` with `x` by `or`. -/
def orAt (ds : List (BitVec w)) (k : Nat) (x : BitVec w) : List (BitVec w) :=
  ds.modify k (· ||| x)

@[simp] theorem length_orAt (k : Nat) (x : BitVec w) : (orAt ds k x).length = ds.length :=
  length_modify ..

theorem getD_orAt {k : Nat} (hk : k < ds.length) (x : BitVec w) (j : Nat) :
    (orAt ds k x).getD j 0#w = if j = k then ds.getD j 0#w ||| x else ds.getD j 0#w := by
  simp only [orAt, getD_eq_getElem?_getD, getElem?_modify]
  split_ifs with hkj hjk hjk
  · subst hkj
    simp [getElem?_eq_getElem hk]
  · exact absurd hkj.symm hjk
  · exact absurd hjk.symm hkj
  · simp

/-- Combine several words by `or`, one write after another. -/
def orAll (ds : List (BitVec w)) (writes : List (Nat × BitVec w)) : List (BitVec w) :=
  writes.foldl (fun ds write => orAt ds write.1 write.2) ds

@[simp] theorem length_orAll (writes : List (Nat × BitVec w)) :
    (orAll ds writes).length = ds.length := by
  induction writes generalizing ds with
  | nil => rfl
  | cons write writes ih =>
    rw [orAll, foldl_cons, ← orAll, ih, length_orAt]

theorem getLsbD_orAll {writes : List (Nat × BitVec w)}
    (hwrites : ∀ write ∈ writes, write.1 < ds.length) (j r : Nat) :
    ((orAll ds writes).getD j 0#w).getLsbD r = true ↔ (ds.getD j 0#w).getLsbD r = true ∨
        ∃ write ∈ writes, write.1 = j ∧ write.2.getLsbD r = true := by
  induction writes generalizing ds with
  | nil => simp [orAll]
  | cons write writes ih =>
    have hhead := hwrites write (by simp)
    have htail : ∀ x ∈ writes, x.1 < (orAt ds write.1 write.2).length := by
      intro x hx
      rw [length_orAt]
      exact hwrites x (mem_cons_of_mem _ hx)
    rw [orAll, foldl_cons, ← orAll, ih htail, getD_orAt hhead]
    split_ifs with hj
    · subst hj
      simp [or_assoc]
    · have hj' : write.1 ≠ j := fun h => hj h.symm
      simp [hj']

theorem testBit_value_orAt_one (hw : 0 < w) {s : Nat} (hs : s < w * ds.length) (i : Nat) :
    (value (orAt ds (s / w) (1#w <<< (s % w)))).testBit i
      = ((value ds).testBit i || decide (i = s)) := by
  have hk : s / w < ds.length := Nat.div_lt_of_lt_mul hs
  have hsmod : s % w < w := Nat.mod_lt _ hw
  have hi := Nat.div_add_mod i w
  have hsd := Nat.div_add_mod s w
  rw [testBit_value hw, testBit_value hw, getD_orAt hk]
  split_ifs with heq
  · rw [BitVec.getLsbD_or, BitVec.getLsbD_shiftLeft]
    rw [heq] at hi
    congr 1
    by_cases hr : i % w = s % w
    · have his : i = s := by omega
      simp [his, hsmod, hw]
    · have his : i ≠ s := fun h => hr (by rw [h])
      simp only [his, decide_false]
      grind
  · have his : i ≠ s := fun h => heq (by rw [h])
    simp [his]

theorem value_orAt_one (hw : 0 < w) {s : Nat} (hs : s < w * ds.length)
    (hclear : (value ds) % 2 ^ (s + 1) = 0) :
    value (orAt ds (s / w) (1#w <<< (s % w))) = value ds + 2 ^ s := by
  obtain ⟨q, hq⟩ := Nat.dvd_of_mod_eq_zero hclear
  have hpow : 2 ^ s < 2 ^ (s + 1) := Nat.pow_lt_pow_right (by decide) (by omega)
  apply Nat.eq_of_testBit_eq
  intro i
  rw [testBit_value_orAt_one hw hs, hq, Nat.testBit_two_pow_mul_add q hpow,
    Nat.testBit_two_pow_mul, Nat.testBit_two_pow]
  by_cases hi : i < s + 1
  · simp [hi, not_le.mpr hi, eq_comm]
  · have his : i ≠ s := by omega
    simp [hi, not_lt.mp hi, his]

end Limbs

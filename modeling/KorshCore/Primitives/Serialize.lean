import KorshCore.Lib.Lossless
import KorshCore.Primitives.Transaction

/-!
# Serialization

The formats of `serialize.h`: integers, `CompactSize` lengths, byte vectors and
vectors, and with them the `SERIALIZE_METHODS` of inputs, outputs and Sapling
data. As in the source, one definition gives both directions.
-/

namespace KorshCore

inductive SerializeError where
  /-- "end of data". -/
  | endOfData
  /-- "non-canonical ReadCompactSize()". -/
  | nonCanonicalCompactSize
  /-- "ReadCompactSize(): size too large". -/
  | sizeTooLarge
  /-- "ReadVarInt(): size too large". -/
  | varIntTooLarge
  deriving DecidableEq, Repr

/-- A format of `serialize.h`. -/
abbrev Format (α : Type) := Codec SerializeError α

namespace Format

open Codec List

/-! ## Integers -/

/-- An unsigned integer of `k` bytes. -/
def uint (k : Nat) : Format Nat := Codec.nat .endOfData k

theorem uint_valid_iff {k n : Nat} : (uint k).Valid n ↔ n < 256 ^ k :=
  nat_valid_iff _

def uint256 : Format Uint256 :=
  (uint 32).map (BitVec.ofNat 256) BitVec.toNat (by
    intro n h
    exact Nat.mod_eq_of_lt (uint_valid_iff.mp h))

theorem uint256_valid (hash : Uint256) : uint256.Valid hash :=
  ⟨uint_valid_iff.mpr hash.isLt, BitVec.ofNat_toNat 256 hash⟩

def uint160 : Format (BitVec 160) :=
  (uint 20).map (BitVec.ofNat 160) BitVec.toNat (by
    intro n h
    exact Nat.mod_eq_of_lt (uint_valid_iff.mp h))

theorem uint160_valid (id : BitVec 160) : uint160.Valid id :=
  ⟨uint_valid_iff.mpr id.isLt, BitVec.ofNat_toNat 160 id⟩

/-- `BigEndianFormatter`. -/
def uintBE (k : Nat) : Format Nat :=
  (Codec.take .endOfData k).map (fun bytes => ofBytes bytes.reverse)
    (fun n => (toBytes k n).reverse) (by
    intro bytes hk
    change bytes.length = k at hk
    rw [← hk, ← length_reverse, toBytes_ofBytes, reverse_reverse])

theorem uintBE_valid_of_lt {k n : Nat} (h : n < 256 ^ k) : (uintBE k).Valid n := by
  constructor
  · show (toBytes k n).reverse.length = k
    rw [length_reverse, length_toBytes]
  · show ofBytes (toBytes k n).reverse.reverse = n
    rw [reverse_reverse, ofBytes_toBytes h]

theorem uintBE_lt_of_valid {k n : Nat} (h : (uintBE k).Valid n) : n < 256 ^ k := by
  have heq : ofBytes (toBytes k n).reverse.reverse = n := h.2
  have hlt := ofBytes_lt (toBytes k n).reverse.reverse
  rwa [heq, reverse_reverse, length_toBytes] at hlt

/-- A signed integer of `k` bytes. -/
def int (k : Nat) : Format Int :=
  (uint k).map (fun n => (BitVec.ofNat (8 * k) n).toInt)
    (fun i => (BitVec.ofInt (8 * k) i).toNat) (by
    intro n h
    rw [BitVec.ofInt_toInt]
    apply Nat.mod_eq_of_lt
    rw [pow_mul]
    exact uint_valid_iff.mp h)

theorem int_valid_iff {k : Nat} (hk : k ≠ 0) {i : Int} :
    (int k).Valid i ↔ -2 ^ (8 * k - 1) ≤ i ∧ i < 2 ^ (8 * k - 1) := by
  have hfits : (uint k).Valid (BitVec.ofInt (8 * k) i).toNat := by
    have hlt := (BitVec.ofInt (8 * k) i).isLt
    rw [pow_mul] at hlt
    exact uint_valid_iff.mpr hlt
  have hhalf : (2 ^ (8 * k) : Nat) = 2 * 2 ^ (8 * k - 1) := by
    rw [← pow_succ', Nat.sub_add_cancel (by omega)]
  have hpow : ((2 ^ (8 * k - 1) : Nat) : Int) = 2 ^ (8 * k - 1) := by push_cast; rfl
  show (uint k).Valid (BitVec.ofInt (8 * k) i).toNat ∧
    (BitVec.ofNat (8 * k) (BitVec.ofInt (8 * k) i).toNat).toInt = i ↔ _
  rw [BitVec.ofNat_toNat, BitVec.setWidth_eq, BitVec.toInt_ofInt]
  constructor
  · rintro ⟨_, h⟩
    have hlow := Int.le_bmod (x := i) (m := 2 ^ (8 * k)) (Nat.two_pow_pos _)
    have hhigh := Int.bmod_lt (x := i) (m := 2 ^ (8 * k)) (Nat.two_pow_pos _)
    omega
  · intro h
    exact ⟨hfits, Int.bmod_eq_of_le (by omega) (by omega)⟩

/-- `int64_t`. -/
def int64 : Format Int :=
  (uint 8).map (fun n => (BitVec.ofNat 64 n).toInt) (fun i => (BitVec.ofInt 64 i).toNat) (by
    intro n h
    rw [BitVec.ofInt_toInt]
    exact Nat.mod_eq_of_lt (uint_valid_iff.mp h))

theorem int64_valid_iff {i : Int} : int64.Valid i ↔ -2 ^ 63 ≤ i ∧ i < 2 ^ 63 :=
  int_valid_iff (k := 8) (by decide)

/-! ## Lengths -/

def maxSize : Nat := 0x02000000

/-- The first byte of `WriteCompactSize`. -/
def compactSizeMarker (nSize : Nat) : Nat :=
  if nSize < 253 then nSize
  else if nSize ≤ 0xffff then 253
  else if nSize ≤ 0xffffffff then 254
  else 255

/-- What follows the first byte of a `CompactSize`. -/
def compactSizeRest (chSize : Nat) : Format Nat :=
  if chSize < 253 then absent chSize
  else if chSize = 253 then (uint 2).check (253 ≤ ·) .nonCanonicalCompactSize
  else if chSize = 254 then (uint 4).check (0x10000 ≤ ·) .nonCanonicalCompactSize
  else (uint 8).check (0x100000000 ≤ ·) .nonCanonicalCompactSize

theorem compactSizeRest_valid_iff {chSize nSize : Nat} (hch : chSize < 256) :
    (compactSizeRest chSize).Valid nSize ↔ compactSizeMarker nSize = chSize ∧ nSize < 2 ^ 64 := by
  unfold compactSizeRest
  split_ifs with h h' h''
  · show nSize = chSize ↔ _
    unfold compactSizeMarker
    split_ifs <;> omega
  · show (uint 2).Valid nSize ∧ 253 ≤ nSize ↔ _
    rw [uint_valid_iff]
    unfold compactSizeMarker
    split_ifs <;> omega
  · show (uint 4).Valid nSize ∧ 0x10000 ≤ nSize ↔ _
    rw [uint_valid_iff]
    unfold compactSizeMarker
    split_ifs <;> omega
  · show (uint 8).Valid nSize ∧ 0x100000000 ≤ nSize ↔ _
    rw [uint_valid_iff]
    unfold compactSizeMarker
    split_ifs <;> omega

/-- `WriteCompactSize`, and `ReadCompactSize` without its range check. -/
def compactSizeAny : Format Nat :=
  ((uint 1).andThen compactSizeRest).map Prod.snd
    (fun nSize => (compactSizeMarker nSize, nSize)) (by
    rintro ⟨chSize, nSize⟩ ⟨hch, hrest⟩
    have hmarker := ((compactSizeRest_valid_iff (uint_valid_iff.mp hch)).mp hrest).1
    exact Prod.ext hmarker rfl)

theorem compactSizeAny_valid_iff {nSize : Nat} : compactSizeAny.Valid nSize ↔ nSize < 2 ^ 64 := by
  have hmarker : compactSizeMarker nSize < 256 := by
    unfold compactSizeMarker
    split_ifs <;> omega
  show ((uint 1).Valid (compactSizeMarker nSize) ∧
    (compactSizeRest (compactSizeMarker nSize)).Valid nSize) ∧ nSize = nSize ↔ _
  rw [compactSizeRest_valid_iff hmarker, uint_valid_iff]
  omega

/-- `ReadCompactSize`. -/
def compactSize : Format Nat := compactSizeAny.check (· ≤ maxSize) .sizeTooLarge

theorem compactSize_valid_iff {nSize : Nat} : compactSize.Valid nSize ↔ nSize ≤ maxSize := by
  show compactSizeAny.Valid nSize ∧ nSize ≤ maxSize ↔ _
  rw [compactSizeAny_valid_iff, maxSize]
  omega

/-! ## Vectors -/

/-- A block of `k` bytes. -/
def block (k : Nat) : Format (List UInt8) := Codec.take .endOfData k

def byteVector : Format (List UInt8) := counted compactSize block fun _ _ h => h

theorem byteVector_valid_iff {bytes : List UInt8} :
    byteVector.Valid bytes ↔ bytes.length ≤ maxSize := by
  show (compactSize.Valid bytes.length ∧ bytes.length = bytes.length) ∧ bytes = bytes ↔ _
  rw [compactSize_valid_iff]
  simp only [and_true]

/-- `VectorFormatter`. -/
def vector {α : Type} (item : Format α) : Format (List α) :=
  counted compactSize item.items fun _ _ h => h.1

theorem vector_valid_iff {α : Type} {item : Format α} {as : List α} :
    (vector item).Valid as ↔ as.length ≤ maxSize ∧ ∀ a ∈ as, item.Valid a := by
  show (compactSize.Valid as.length ∧ as.length = as.length ∧ ∀ a ∈ as, item.Valid a) ∧ as = as ↔ _
  rw [compactSize_valid_iff]
  simp only [true_and, and_true]

/-! ## Variable-length integers -/

/-- The loop of `WriteVarInt`: the bytes of `n` in front of `tmp`, as long as
there is space. Every byte but the one that is written last has the high
bit. -/
def writeVarIntLoop : (space n : Nat) → (len : Bool) → (tmp : List UInt8) → List UInt8
  | 0, _, _, tmp => tmp
  | space + 1, n, len, tmp =>
    let chData := UInt8.ofNat (n % 128 + if len then 128 else 0)
    if n ≤ 0x7f then chData :: tmp
    else writeVarIntLoop space (n / 128 - 1) true (chData :: tmp)

/-- `WriteVarInt` of a `uint64_t`, whose buffer has 10 bytes. -/
def writeVarInt (n : Nat) : List UInt8 := writeVarIntLoop 10 n false []

/-- The loop of `ReadVarInt` for `uint64_t`. -/
def readVarIntLoop (n : Nat) : List UInt8 → Except SerializeError (Nat × List UInt8)
  | [] => .error .endOfData
  | chData :: rest =>
    if (2 ^ 64 - 1) / 128 < n then .error .varIntTooLarge
    else
      let n := n * 128 + chData.toNat % 128
      if 128 ≤ chData.toNat then
        if n = 2 ^ 64 - 1 then .error .varIntTooLarge else readVarIntLoop (n + 1) rest
      else .ok (n, rest)

theorem readVarIntLoop_cons {n m : Nat} {len : Bool} (rest : List UInt8)
    (hn : n < 2 ^ 64) (hlen : len → n < 2 ^ 64 - 1) (hm : m * 128 + n % 128 = n) :
    readVarIntLoop m (UInt8.ofNat (n % 128 + if len then 128 else 0) :: rest) =
      if len then readVarIntLoop (n + 1) rest else .ok (n, rest) := by
  have hm' : ¬ (2 ^ 64 - 1) / 128 < m := by omega
  cases len with
  | false =>
    have hbyte : (UInt8.ofNat (n % 128 + 0)).toNat = n % 128 := by
      rw [UInt8.toNat_ofNat']
      omega
    simp only [readVarIntLoop, hm', if_false, Bool.false_eq_true, hbyte, Nat.mod_mod, hm]
    rw [if_neg (by omega)]
  | true =>
    have hbyte : (UInt8.ofNat (n % 128 + 128)).toNat = n % 128 + 128 := by
      rw [UInt8.toNat_ofNat']
      omega
    have hlow : (n % 128 + 128) % 128 = n % 128 := by omega
    have hlt := hlen rfl
    simp only [readVarIntLoop, hm', if_false, if_true, hbyte, hlow, hm]
    rw [if_pos (by omega), if_neg (by omega)]

theorem readVarIntLoop_writeVarIntLoop (rest : List UInt8) :
    ∀ {space n : Nat} {len : Bool} (tmp : List UInt8), space ≠ 0 →
    n < 128 ^ space → n < 2 ^ 64 → (len → n < 2 ^ 64 - 1) →
    readVarIntLoop 0 (writeVarIntLoop space n len tmp ++ rest) =
      if len then readVarIntLoop (n + 1) (tmp ++ rest) else .ok (n, tmp ++ rest) := by
  intro space
  induction space with
  | zero => exact fun _ h => absurd rfl h
  | succ space ih =>
    intro n len tmp _ hspace hn hlen
    rw [writeVarIntLoop]
    by_cases hsmall : n ≤ 0x7f
    · rw [if_pos hsmall]
      exact readVarIntLoop_cons (m := 0) _ hn hlen (by omega)
    · have hmore : space ≠ 0 := by
        rintro rfl
        omega
      rw [if_neg hsmall, ih _ hmore (by omega) (by omega) (by omega)]
      exact readVarIntLoop_cons _ hn hlen (by omega)

theorem readVarIntLoop_lt : ∀ {bytes : List UInt8} {n k : Nat}
    {rest : List UInt8}, readVarIntLoop n bytes = .ok (k, rest) → k < 2 ^ 64
  | [], n, k, rest, h => by cases h
  | chData :: bytes, n, k, rest, h => by
    simp only [readVarIntLoop] at h
    split_ifs at h with hn hmore hmax
    · exact readVarIntLoop_lt h
    · cases h
      omega

/-- `VARINT` of a `uint64_t`. -/
def varInt : Lossless SerializeError Nat where
  encode := writeVarInt
  decode := readVarIntLoop 0
  Valid n := n < 2 ^ 64
  decode_encode := by
    intro n rest h
    exact readVarIntLoop_writeVarIntLoop rest [] (by decide) (h.trans (by decide)) h (by simp)
  valid_of_decode := readVarIntLoop_lt

end Format

end KorshCore

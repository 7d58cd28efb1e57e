import KorshCore.Primitives.Serialize
import Mathlib.Tactic.IntervalCases

/-!
# Compressed coins

The two formats of a coin: `Coin::Serialize` of `coins.h`, for the database, and
`TxInUndoFormatter` of `undo.h`, for the undo files. Both use the amounts and
scripts of `compressor.cpp`.

Keys on the curve are taken from outside (`PubKeys`).
-/

namespace KorshCore

open List Format Except

/-! ## Amounts -/

/-- The loop of `CompressAmount`. -/
def stripZeros (n e : Nat) : Nat × Nat :=
  if n % 10 = 0 ∧ e < 9 then stripZeros (n / 10) (e + 1) else (n, e)
  termination_by 9 - e

/-- `CompressAmount` of a `uint64_t`. -/
def compressAmount (n : Nat) : Nat :=
  if n = 0 then 0
  else
    let (n, e) := stripZeros n 0
    if e < 9 then (1 + (n / 10 * 9 + n % 10 - 1) * 10 + e) % 2 ^ 64
    else (1 + (n - 1) * 10 + 9) % 2 ^ 64

def decompressAmount (x : Nat) : Nat :=
  if x = 0 then 0
  else
    let e := (x - 1) % 10
    let x := (x - 1) / 10
    (if e < 9 then x / 9 * 10 + (x % 9 + 1) else x + 1) * 10 ^ e % 2 ^ 64

theorem stripZeros_spec (n e : Nat) (he : e ≤ 9) :
    (stripZeros n e).1 * 10 ^ (stripZeros n e).2 = n * 10 ^ e ∧ (stripZeros n e).2 ≤ 9 ∧
      ((stripZeros n e).2 < 9 → (stripZeros n e).1 % 10 ≠ 0) := by
  induction n, e using stripZeros.induct with
  | case1 n e h ih =>
    rw [stripZeros, if_pos h]
    obtain ⟨heq, hrest⟩ := ih (by omega)
    refine ⟨heq.trans ?_, hrest⟩
    rw [pow_succ', ← mul_assoc, Nat.div_mul_cancel (Nat.dvd_of_mod_eq_zero h.1)]
  | case2 n e h =>
    rw [stripZeros, if_neg h]
    exact ⟨rfl, he, fun hlt hmod => h ⟨hmod, hlt⟩⟩

theorem decompressAmount_compressAmount {n : Nat} (hn : n < 2 ^ 60) :
    decompressAmount (compressAmount n) = n ∧ compressAmount n < 2 ^ 64 := by
  obtain ⟨heq, he, hdigit⟩ := stripZeros_spec n 0 (by omega)
  obtain rfl | hzero := Nat.eq_zero_or_pos n
  · simp [compressAmount, decompressAmount]
  rw [compressAmount, if_neg hzero.ne']
  generalize stripZeros n 0 = p at *
  obtain ⟨m, e⟩ := p
  simp only [pow_zero, mul_one] at *
  have hm : m ≤ n := heq ▸ Nat.le_mul_of_pos_right m (Nat.pow_pos (n := e) (show 0 < 10 by decide))
  have hpos : m ≠ 0 := by
    rintro rfl
    omega
  split
  case isTrue hlt =>
    have hne := hdigit hlt
    have h₁ : (1 + (m / 10 * 9 + m % 10 - 1) * 10 + e - 1) % 10 = e := by omega
    have h₂ : (1 + (m / 10 * 9 + m % 10 - 1) * 10 + e - 1) / 10 = m / 10 * 9 + (m % 10 - 1) := by
      omega
    have h₃ : (m / 10 * 9 + (m % 10 - 1)) / 9 * 10 + ((m / 10 * 9 + (m % 10 - 1)) % 9 + 1) = m := by
      omega
    rw [Nat.mod_eq_of_lt (by omega), decompressAmount, if_neg (by omega)]
    simp only [h₁, h₂, h₃, if_pos hlt, heq]
    omega
  case isFalse hlt =>
    have h₁ : (1 + (m - 1) * 10 + 9 - 1) % 10 = e := by omega
    have h₂ : (1 + (m - 1) * 10 + 9 - 1) / 10 + 1 = m := by omega
    rw [Nat.mod_eq_of_lt (by omega), decompressAmount, if_neg (by omega)]
    simp only [h₁, h₂, if_neg hlt, heq]
    omega

/-! ## Scripts -/

/-- What `CPubKey` does with a key on the curve: an uncompressed key that is
valid is recovered from its first coordinate and the parity of the second. -/
structure PubKeys where
  isFullyValid : List UInt8 → Bool
  decompress : List UInt8 → Option (List UInt8)
  decompress_compress : ∀ pubkey : List UInt8, pubkey.length = 65 → pubkey.head? = some 4 →
    isFullyValid pubkey →
    decompress ((2 ||| (pubkey.getD 64 0 &&& 1)) :: (pubkey.drop 1).take 32) = some pubkey

def opDup : UInt8 := 0x76
def opEqual : UInt8 := 0x87
def opEqualVerify : UInt8 := 0x88
def opHash160 : UInt8 := 0xa9
def opCheckSig : UInt8 := 0xac

/-- The `k` bytes between `front` and `back`, where the script has no others. -/
def between (front back : List UInt8) (k : Nat) (script : List UInt8) : Option (List UInt8) :=
  if script.length = front.length + k + back.length ∧ script.take front.length = front ∧
      script.drop (front.length + k) = back then
    some ((script.drop front.length).take k)
  else none

theorem between_eq_some {front back : List UInt8} {k : Nat} {script body : List UInt8}
    (h : between front back k script = some body) :
    script = front ++ body ++ back ∧ body.length = k := by
  unfold between at h
  split_ifs at h with hscript
  obtain ⟨hlen, hfront, hback⟩ := hscript
  cases h
  constructor
  · calc
      script = script.take front.length ++ script.drop front.length :=
        (take_append_drop ..).symm
      _ = front ++ ((script.drop front.length).take k ++ script.drop (front.length + k)) := by
        rw [hfront, ← drop_drop, take_append_drop]
      _ = _ := by rw [hback, append_assoc]
  · simp
    omega

def isToKeyID : List UInt8 → Option (List UInt8) :=
  between [opDup, opHash160, 20] [opEqualVerify, opCheckSig] 20

def isToScriptID : List UInt8 → Option (List UInt8) :=
  between [opHash160, 20] [opEqual] 20

namespace PubKeys

variable (keys : PubKeys)

def isToPubKey (script : List UInt8) : Option (List UInt8) :=
  match between [33] [opCheckSig] 33 script, between [65] [opCheckSig] 65 script with
  | some pubkey, _ =>
    if pubkey.head? = some 2 ∨ pubkey.head? = some 3 then some pubkey else none
  | none, some pubkey =>
    if pubkey.head? = some 4 ∧ keys.isFullyValid pubkey then some pubkey else none
  | none, none => none

def compressScript (script : List UInt8) : Option (List UInt8) :=
  match isToKeyID script, isToScriptID script, keys.isToPubKey script with
  | some keyID, _, _ => some (0 :: keyID)
  | none, some scriptID, _ => some (1 :: scriptID)
  | none, none, some pubkey =>
    let head := pubkey.headD 0
    some ((if head = 4 then 4 ||| (pubkey.getD 64 0 &&& 1) else head) ::
      (pubkey.drop 1).take 32)
  | none, none, none => none

def getSpecialScriptSize (nSize : Nat) : Nat :=
  if nSize ≤ 1 then 20 else if nSize ≤ 5 then 32 else 0

def decompressScript (nSize : Nat) (body : List UInt8) : Option (List UInt8) :=
  match nSize with
  | 0 => some ([opDup, opHash160, 20] ++ body ++ [opEqualVerify, opCheckSig])
  | 1 => some ([opHash160, 20] ++ body ++ [opEqual])
  | 2 => some ([33, 2] ++ body ++ [opCheckSig])
  | 3 => some ([33, 3] ++ body ++ [opCheckSig])
  | 4 => (keys.decompress (2 :: body)).map fun pubkey => 65 :: pubkey ++ [opCheckSig]
  | 5 => (keys.decompress (3 :: body)).map fun pubkey => 65 :: pubkey ++ [opCheckSig]
  | _ => none

theorem isToPubKey_eq_some {script pubkey : List UInt8}
    (h : keys.isToPubKey script = some pubkey) :
    (script = 33 :: pubkey ++ [opCheckSig] ∧ ∃ tail, tail.length = 32 ∧
        (pubkey = 2 :: tail ∨ pubkey = 3 :: tail)) ∨
      script = 65 :: pubkey ++ [opCheckSig] ∧ pubkey.length = 65 ∧ pubkey.head? = some 4 ∧
        keys.isFullyValid pubkey = true := by
  unfold isToPubKey at h
  split at h
  case h_1 heq =>
    obtain ⟨hscript, hlen⟩ := between_eq_some heq
    split_ifs at h with hhead
    cases h
    match pubkey, hlen with
    | head :: tail, hlen => exact .inl ⟨hscript, tail, by simpa using hlen, by simpa using hhead⟩
  case h_2 heq =>
    obtain ⟨hscript, hlen⟩ := between_eq_some heq
    split_ifs at h with hhead
    cases h
    exact .inr ⟨hscript, hlen, hhead⟩
  case h_3 => cases h

theorem decompressScript_compressScript {script compr : List UInt8}
    (h : keys.compressScript script = some compr) :
    ∃ nSize body, compr = UInt8.ofNat nSize :: body ∧ nSize < 6 ∧
      body.length = getSpecialScriptSize nSize ∧
      keys.decompressScript nSize body = some script := by
  unfold compressScript at h
  split at h
  case h_1 heq =>
    obtain ⟨rfl, hlen⟩ := between_eq_some heq
    exact ⟨0, _, (Option.some.inj h).symm, by omega, hlen, rfl⟩
  case h_2 heq =>
    obtain ⟨rfl, hlen⟩ := between_eq_some heq
    exact ⟨1, _, (Option.some.inj h).symm, by omega, hlen, rfl⟩
  case h_3 pubkey _ _ heq =>
    rw [← Option.some.inj h]
    obtain ⟨rfl, tail, hlen, rfl | rfl⟩ | ⟨rfl, hlen, hhead, hvalid⟩ := keys.isToPubKey_eq_some heq
    · exact ⟨2, tail, by simp [take_of_length_le hlen.le], by omega, hlen, rfl⟩
    · exact ⟨3, tail, by simp [take_of_length_le hlen.le], by omega, hlen, rfl⟩
    · have hkey := keys.decompress_compress pubkey hlen hhead hvalid
      have hbody : ((pubkey.drop 1).take 32).length = 32 := by simp [hlen]
      have hbit : pubkey.getD 64 0 &&& 1 = 0 ∨ pubkey.getD 64 0 &&& 1 = 1 := by
        have hmod := Nat.mod_two_eq_zero_or_one (pubkey.getD 64 0).toNat
        simpa [← UInt8.toNat_inj, Nat.and_one_is_mod] using hmod
      rw [headD_eq_head?_getD, hhead]
      obtain hbit | hbit := hbit <;> rw [hbit] at hkey ⊢
      · exact ⟨4, _, rfl, by omega, hbody, by rw [decompressScript]; exact hkey ▸ rfl⟩
      · exact ⟨5, _, rfl, by omega, hbody, by rw [decompressScript]; exact hkey ▸ rfl⟩
  case h_4 => cases h

/-! ## Coins -/

/-- `ReadVarInt` of a `uint32_t`, which throws where the value does not fit. -/
def readVarInt32 (bytes : List UInt8) : Except SerializeError (Nat × List UInt8) := do
  let (n, rest) ← varInt.decode bytes
  if n < 2 ^ 32 then .ok (n, rest) else .error .varIntTooLarge

theorem readVarInt32_writeVarInt {n : Nat} (rest : List UInt8) (hn : n < 2 ^ 32) :
    readVarInt32 (writeVarInt n ++ rest) = .ok (n, rest) := by
  have hread := varInt.decode_encode rest (show varInt.Valid n from hn.trans (by decide))
  rw [readVarInt32, show writeVarInt n = varInt.encode n from rfl, hread, ok_bind]
  exact if_pos hn

def nSpecialScripts : Nat := 6

/-- `ScriptCompression::Ser` -/
def serScript (script : List UInt8) : List UInt8 :=
  match keys.compressScript script with
  | some compr => compr
  | none => writeVarInt (script.length + nSpecialScripts) ++ script

/-- `Span` and `ignore`: the next `k` bytes. -/
def readSpan (k : Nat) : List UInt8 → Except SerializeError (List UInt8 × List UInt8) :=
  (Codec.take .endOfData k).decode

/-- `ScriptCompression::Unser` into an empty script. An overlong script becomes
an invalid one. -/
def unserScript (bytes : List UInt8) : Except SerializeError (List UInt8 × List UInt8) := do
  let (nSize, rest) ← readVarInt32 bytes
  if nSize < nSpecialScripts then
    let (vch, rest) ← readSpan (getSpecialScriptSize nSize) rest
    .ok ((keys.decompressScript nSize vch).getD [], rest)
  else if maxScriptSize < nSize - nSpecialScripts then
    let (_, rest) ← readSpan (nSize - nSpecialScripts) rest
    .ok ([opReturn], rest)
  else readSpan (nSize - nSpecialScripts) rest

theorem unserScript_serScript {script : List UInt8} (rest : List UInt8)
    (hsize : script.length ≤ maxScriptSize) :
    keys.unserScript (keys.serScript script ++ rest) = .ok (script, rest) := by
  have hspan : ∀ body : List UInt8, readSpan body.length (body ++ rest) = .ok (body, rest) :=
    fun _ => (Codec.take _ _).decode_encode rest rfl
  unfold serScript
  split
  case h_1 compr hcompr =>
    obtain ⟨nSize, body, rfl, hlt, hlen, hscript⟩ := keys.decompressScript_compressScript hcompr
    have hbyte : UInt8.ofNat nSize :: body ++ rest = writeVarInt nSize ++ (body ++ rest) := by
      have : writeVarInt nSize = [UInt8.ofNat nSize] := by
        interval_cases nSize <;> rfl
      rw [this]
      rfl
    rw [hbyte, unserScript, readVarInt32_writeVarInt _ (by omega), ok_bind]
    simp only [if_pos (show nSize < nSpecialScripts from hlt), ← hlen, hspan, hscript, ok_bind,
      Option.getD_some]
  case h_2 =>
    have hfits : script.length + nSpecialScripts < 2 ^ 32 := by
      have hle : script.length ≤ 10000 := hsize
      simp only [nSpecialScripts]
      omega
    rw [append_assoc, unserScript, readVarInt32_writeVarInt _ hfits, ok_bind]
    simp only [Nat.add_sub_cancel, Nat.not_lt.mpr (Nat.le_add_left ..), if_false,
      if_neg (Nat.not_lt.mpr hsize), hspan]

/-- `TxOutCompression`, writing; the amount is converted to `uint64_t`. -/
def serTxOut (out : CTxOut) : List UInt8 :=
  writeVarInt (compressAmount (out.nValue % 2 ^ 64).toNat) ++ keys.serScript out.scriptPubKey

/-- `TxOutCompression`, reading; the amount is converted to `int64_t`. -/
def unserTxOut (bytes : List UInt8) : Except SerializeError (CTxOut × List UInt8) := do
  let (v, rest) ← varInt.decode bytes
  let (scriptPubKey, rest) ← keys.unserScript rest
  .ok (⟨(decompressAmount v : Int).bmod (2 ^ 64), scriptPubKey⟩, rest)

/-- `Coin::Serialize` -/
def serializeCoin (coin : Coin) : List UInt8 :=
  writeVarInt ((coin.nHeight * 2 + coin.fCoinBase.toNat) % 2 ^ 32) ++ keys.serTxOut coin.out

/-- `Coin::Unserialize` -/
def unserializeCoin (bytes : List UInt8) : Except SerializeError (Coin × List UInt8) := do
  let (code, rest) ← readVarInt32 bytes
  let (out, rest) ← keys.unserTxOut rest
  .ok (⟨out, code % 2 == 1, code / 2⟩, rest)

/-- `TxInUndoFormatter::Ser` -/
def serUndo (coin : Coin) : List UInt8 :=
  writeVarInt ((coin.nHeight * 2 + coin.fCoinBase.toNat) % 2 ^ 32) ++
    (if 0 < coin.nHeight then [0] else []) ++ keys.serTxOut coin.out

/-- `TxInUndoFormatter::Unser` -/
def unserUndo (bytes : List UInt8) : Except SerializeError (Coin × List UInt8) := do
  let (nCode, rest) ← readVarInt32 bytes
  let rest ← if 0 < nCode / 2 then Prod.snd <$> readVarInt32 rest else .ok rest
  let (out, rest) ← keys.unserTxOut rest
  .ok (⟨out, nCode % 2 == 1, nCode / 2⟩, rest)

variable {keys}

theorem unserTxOut_serTxOut {out : CTxOut} (rest : List UInt8)
    (hvalue : moneyRange out.nValue = true) (hsize : out.scriptPubKey.length ≤ maxScriptSize) :
    keys.unserTxOut (keys.serTxOut out ++ rest) = .ok (out, rest) := by
  obtain ⟨hle, hmax⟩ : 0 ≤ out.nValue ∧ out.nValue ≤ 1000000000000000 := by
    rw [moneyRange, Bool.and_eq_true, decide_eq_true_iff, decide_eq_true_iff] at hvalue
    exact hvalue
  obtain ⟨hamount, hfits⟩ := decompressAmount_compressAmount
    (n := (out.nValue % 2 ^ 64).toNat) (by omega)
  have hread := varInt.decode_encode (keys.serScript out.scriptPubKey ++ rest) hfits
  have hnum : ((decompressAmount (compressAmount (out.nValue % 2 ^ 64).toNat) : Nat) : Int).bmod
      (2 ^ 64) = out.nValue := by
    rw [hamount, Int.toNat_of_nonneg (by omega)]
    exact (Int.bmod_eq_of_le (by omega) (by omega)).trans (Int.emod_eq_of_lt hle (by omega))
  rw [serTxOut, append_assoc, unserTxOut, show writeVarInt _ = varInt.encode _ from rfl, hread,
    ok_bind]
  simp only [keys.unserScript_serScript rest hsize, ok_bind, hnum]

/-- Both formats give back every coin that can be in the database, whatever
bytes follow. -/
theorem unserialize_serialize_coin (coin : Coin) (rest : List UInt8)
    (hheight : coin.nHeight < 2 ^ 31) (hvalue : moneyRange coin.out.nValue = true)
    (hsize : coin.out.scriptPubKey.length ≤ maxScriptSize) :
    keys.unserializeCoin (keys.serializeCoin coin ++ rest) = .ok (coin, rest) ∧
      keys.unserUndo (keys.serUndo coin ++ rest) = .ok (coin, rest) := by
  have hbit : coin.fCoinBase.toNat < 2 := Bool.toNat_lt _
  have hcode : (coin.nHeight * 2 + coin.fCoinBase.toNat) % 2 ^ 32 =
      coin.nHeight * 2 + coin.fCoinBase.toNat := Nat.mod_eq_of_lt (by omega)
  have hheight' : (coin.nHeight * 2 + coin.fCoinBase.toNat) / 2 = coin.nHeight := by omega
  have hbase : ((coin.nHeight * 2 + coin.fCoinBase.toNat) % 2 == 1) = coin.fCoinBase := by
    cases coin.fCoinBase <;> simp
  have hout := @unserTxOut_serTxOut keys coin.out rest hvalue hsize
  constructor
  · rw [serializeCoin, hcode, append_assoc, unserializeCoin,
      readVarInt32_writeVarInt _ (by omega), ok_bind]
    simp only [hout, ok_bind, hheight', hbase]
  · rw [serUndo, hcode, append_assoc, append_assoc, unserUndo,
      readVarInt32_writeVarInt _ (by omega), ok_bind]
    simp only [hheight', hbase]
    split
    · have hdummy : readVarInt32 ([0] ++ (keys.serTxOut coin.out ++ rest)) =
          .ok (0, keys.serTxOut coin.out ++ rest) :=
        readVarInt32_writeVarInt (n := 0) _ (by decide)
      simp only [hdummy, map_ok, ok_bind, hout]
    · simp only [nil_append, ok_bind, hout]

/-- No key is on the curve. -/
def empty : PubKeys := ⟨fun _ => false, fun _ => none, fun _ _ _ h => by cases h⟩

/-- The coin of a block reward, paid to a key. -/
theorem unserialize_serialize_reward :
    empty.serUndo ⟨⟨5000000000, 33 :: 2 :: replicate 32 7 ++ [opCheckSig]⟩, true, 1⟩ =
        [3, 0, 50, 2] ++ replicate 32 7 ∧
      empty.unserUndo ([3, 0, 50, 2] ++ replicate 32 7 ++ [1]) =
        .ok (⟨⟨5000000000, 33 :: 2 :: replicate 32 7 ++ [opCheckSig]⟩, true, 1⟩, [1]) := by
  have hser : empty.serUndo ⟨⟨5000000000, 33 :: 2 :: replicate 32 7 ++ [opCheckSig]⟩, true, 1⟩ =
      [3, 0, 50, 2] ++ replicate 32 7 := by
    simp [serUndo, serTxOut, compressAmount, stripZeros]
    decide
  refine ⟨hser, ?_⟩
  rw [← hser]
  exact (unserialize_serialize_coin _ [1] (by decide) (by decide) (by decide)).2

end PubKeys

end KorshCore

import KorshCore.Primitives.Serialize
import Mathlib.Tactic.IntervalCases

/-!
# The transaction format

`SERIALIZE_METHODS` of inputs, outputs and Sapling data, and `Serialize` and
`Unserialize` of a transaction. The version and the type share one 32-bit
word and decide which of the optional sections follow.
-/

namespace KorshCore

open Codec Format SaplingTxData BitVec Except

/-! ## Records -/

/-- The format of `COutPoint`. -/
def COutPoint.format : Format COutPoint :=
  (uint256.seq (uint 4)).map (fun x => ⟨x.1, x.2⟩) (fun o => (o.hash, o.n))
    fun _ _ => rfl

/-- The format of `CTxIn`. -/
def CTxIn.format : Format CTxIn :=
  (COutPoint.format.seq (byteVector.seq (uint 4))).map
    (fun x => ⟨x.1, x.2.1, x.2.2⟩)
    (fun txin => (txin.prevout, txin.scriptSig, txin.nSequence)) fun _ _ => rfl

/-- The format of `CTxOut`. -/
def CTxOut.format : Format CTxOut :=
  (int64.seq byteVector).map (fun x => ⟨x.1, x.2⟩)
    (fun out => (out.nValue, out.scriptPubKey)) fun _ _ => rfl

def grothProofSize : Nat := 48 + 96 + 48

/-- The size of `spend_auth_sig_t`. -/
def spendAuthSigSize : Nat := 64

/-- `ZC_SAPLING_ENCCIPHERTEXT_SIZE`. -/
def saplingEncCiphertextSize : Nat := 1 + 11 + 8 + 32 + 512 + 16

/-- `ZC_SAPLING_OUTCIPHERTEXT_SIZE`. -/
def saplingOutCiphertextSize : Nat := 32 + 32 + 16

def bindingSigSize : Nat := 64

/-- The format of `SpendDescription`. -/
def SpendDescription.format : Format SpendDescription :=
  (uint256.seq (uint256.seq (uint256.seq (uint256.seq
    ((block grothProofSize).seq (block spendAuthSigSize)))))).map
    (fun x => ⟨x.1, x.2.1, x.2.2.1, x.2.2.2.1, x.2.2.2.2.1, x.2.2.2.2.2⟩)
    (fun spend => (spend.cv, spend.anchor, spend.nullifier, spend.rk,
      spend.zkproof, spend.spendAuthSig)) fun _ _ => rfl

/-- The format of `OutputDescription`. -/
def OutputDescription.format : Format OutputDescription :=
  (uint256.seq (uint256.seq (uint256.seq ((block saplingEncCiphertextSize).seq
    ((block saplingOutCiphertextSize).seq (block grothProofSize)))))).map
    (fun x => ⟨x.1, x.2.1, x.2.2.1, x.2.2.2.1, x.2.2.2.2.1, x.2.2.2.2.2⟩)
    (fun output => (output.cv, output.cmu, output.ephemeralKey,
      output.encCiphertext, output.outCiphertext, output.zkproof))
    fun _ _ => rfl

/-- The format of `SaplingTxData`. -/
def SaplingTxData.format : Format SaplingTxData :=
  (int64.seq ((vector SpendDescription.format).seq
    ((vector OutputDescription.format).seq (block bindingSigSize)))).map
    (fun x => ⟨x.1, x.2.1, x.2.2.1, x.2.2.2⟩)
    (fun sapData => (sapData.valueBalance, sapData.vShieldedSpend,
      sapData.vShieldedOutput, sapData.bindingSig)) fun _ _ => rfl

def SaplingTxData.default : SaplingTxData :=
  ⟨0, [], [], List.replicate bindingSigSize 0⟩

/-! ## What the records can carry -/

def COutPoint.Carriable (prevout : COutPoint) : Prop := prevout.n < 2 ^ 32

instance (prevout : COutPoint) : Decidable prevout.Carriable :=
  inferInstanceAs (Decidable (_ < _))

theorem COutPoint.format_valid_iff {prevout : COutPoint} :
    COutPoint.format.Valid prevout ↔ prevout.Carriable := by
  show (uint256.Valid prevout.hash ∧ (uint 4).Valid prevout.n) ∧ prevout = prevout ↔ _
  rw [uint_valid_iff]
  simp only [uint256_valid, true_and, and_true]
  exact Iff.rfl

def CTxIn.Carriable (txin : CTxIn) : Prop :=
  txin.prevout.Carriable ∧ txin.scriptSig.length ≤ maxSize ∧ txin.nSequence < 2 ^ 32

instance (txin : CTxIn) : Decidable txin.Carriable :=
  inferInstanceAs (Decidable (_ ∧ _))

theorem CTxIn.format_valid_iff {txin : CTxIn} : CTxIn.format.Valid txin ↔ txin.Carriable := by
  show (COutPoint.format.Valid txin.prevout ∧ byteVector.Valid txin.scriptSig ∧
    (uint 4).Valid txin.nSequence) ∧ txin = txin ↔ _
  rw [COutPoint.format_valid_iff, byteVector_valid_iff, uint_valid_iff]
  simp only [and_true]
  exact Iff.rfl

def CTxOut.Carriable (out : CTxOut) : Prop :=
  (-2 ^ 63 ≤ out.nValue ∧ out.nValue < 2 ^ 63) ∧ out.scriptPubKey.length ≤ maxSize

instance (out : CTxOut) : Decidable out.Carriable :=
  inferInstanceAs (Decidable (_ ∧ _))

theorem CTxOut.format_valid_iff {out : CTxOut} : CTxOut.format.Valid out ↔ out.Carriable := by
  show (int64.Valid out.nValue ∧ byteVector.Valid out.scriptPubKey) ∧ out = out ↔ _
  rw [int64_valid_iff, byteVector_valid_iff]
  simp only [and_true]
  exact Iff.rfl

def SpendDescription.Carriable (spend : SpendDescription) : Prop :=
  spend.zkproof.length = grothProofSize ∧ spend.spendAuthSig.length = spendAuthSigSize

instance (spend : SpendDescription) : Decidable spend.Carriable :=
  inferInstanceAs (Decidable (_ ∧ _))

theorem SpendDescription.format_valid_iff {spend : SpendDescription} :
    SpendDescription.format.Valid spend ↔ spend.Carriable := by
  show (uint256.Valid spend.cv ∧ uint256.Valid spend.anchor ∧
    uint256.Valid spend.nullifier ∧ uint256.Valid spend.rk ∧
    spend.Carriable) ∧ spend = spend ↔ _
  simp only [uint256_valid, true_and, and_true]

def OutputDescription.Carriable (output : OutputDescription) : Prop :=
  output.encCiphertext.length = saplingEncCiphertextSize ∧
    output.outCiphertext.length = saplingOutCiphertextSize ∧
    output.zkproof.length = grothProofSize

instance (output : OutputDescription) : Decidable output.Carriable :=
  inferInstanceAs (Decidable (_ ∧ _))

theorem OutputDescription.format_valid_iff {output : OutputDescription} :
    OutputDescription.format.Valid output ↔ output.Carriable := by
  show (uint256.Valid output.cv ∧ uint256.Valid output.cmu ∧
    uint256.Valid output.ephemeralKey ∧ output.Carriable) ∧ output = output ↔ _
  simp only [uint256_valid, true_and, and_true]

def SaplingTxData.Carriable (sapData : SaplingTxData) : Prop :=
  (-2 ^ 63 ≤ sapData.valueBalance ∧ sapData.valueBalance < 2 ^ 63) ∧
    (sapData.vShieldedSpend.length ≤ maxSize ∧ ∀ spend ∈ sapData.vShieldedSpend, spend.Carriable) ∧
    (sapData.vShieldedOutput.length ≤ maxSize ∧
      ∀ output ∈ sapData.vShieldedOutput, output.Carriable) ∧
    sapData.bindingSig.length = bindingSigSize

instance (sapData : SaplingTxData) : Decidable sapData.Carriable :=
  inferInstanceAs (Decidable (_ ∧ _))

theorem SaplingTxData.format_valid_iff {sapData : SaplingTxData} :
    format.Valid sapData ↔ sapData.Carriable := by
  show (int64.Valid sapData.valueBalance ∧
    (vector SpendDescription.format).Valid sapData.vShieldedSpend ∧
    (vector OutputDescription.format).Valid sapData.vShieldedOutput ∧
    sapData.bindingSig.length = bindingSigSize) ∧ sapData = sapData ↔ _
  rw [int64_valid_iff, vector_valid_iff, vector_valid_iff]
  simp only [SpendDescription.format_valid_iff, OutputDescription.format_valid_iff, and_true]
  exact Iff.rfl

/-! ## The header word -/

namespace CTransaction

/-- `nVersion | (nType << 16)`: the version is an `int16_t` and keeps its sign
when it becomes an `int`. -/
def n32bitVersion (nVersion : Int) (nType : Nat) : BitVec 32 :=
  (BitVec.ofInt 16 nVersion).signExtend 32 ||| BitVec.ofNat 32 nType <<< 16

/-- `(int16_t) (n32bitVersion & 0xffff)`. -/
def versionOf (word : BitVec 32) : Int := ((word &&& 0xffff).setWidth 16).toInt

/-- `(uint16_t) ((n32bitVersion >> 16) & 0xffff)`. -/
def typeOf (word : BitVec 32) : Nat :=
  ((word.sshiftRight 16 &&& 0xffff).setWidth 16).toNat

theorem getLsbD_n32bitVersion (nVersion : Int) (nType i : Nat) :
    (n32bitVersion nVersion nType).getLsbD i =
      (decide (i < 32) && if i < 16 then (BitVec.ofInt 16 nVersion).getLsbD i
        else (BitVec.ofInt 16 nVersion).msb || nType.testBit (i - 16)) := by
  unfold n32bitVersion
  rw [BitVec.getLsbD_or, BitVec.getLsbD_signExtend, BitVec.getLsbD_shiftLeft, BitVec.getLsbD_ofNat]
  by_cases hlow : i < 16
  · simp [hlow]
  · by_cases hhigh : i < 32
    · have hfits : i - 16 < 32 := by omega
      simp [hlow, hhigh, hfits]
    · simp [hlow, hhigh]

variable (word : BitVec 32)

theorem versionOf_eq : versionOf word = (word.setWidth 16).toInt := by
  unfold versionOf
  congr 1
  ext i hi
  interval_cases i <;> simp

theorem typeOf_eq : typeOf word = (word.extractLsb' 16 16).toNat := by
  unfold typeOf
  congr 1
  ext i hi
  interval_cases i <;> simp [getElem_sshiftRight]

/-- `int16_t` and `uint16_t`. -/
def HeaderFits (nVersion : Int) (nType : Nat) : Prop :=
  (-2 ^ 15 ≤ nVersion ∧ nVersion < 2 ^ 15) ∧ nType < 2 ^ 16

instance (nVersion : Int) (nType : Nat) : Decidable (HeaderFits nVersion nType) :=
  inferInstanceAs (Decidable (_ ∧ _))

/-- The word keeps the type: the version is not negative, or the type has all
its bits set anyway. -/
def HeaderKept (nVersion : Int) (nType : Nat) : Prop :=
  0 ≤ nVersion ∨ nType = 0xffff

theorem headerFits_versionOf_typeOf : HeaderFits (versionOf word) (typeOf word) := by
  have hlow := le_toInt (word.setWidth 16)
  have hhigh := toInt_lt (x := word.setWidth 16)
  rw [versionOf_eq]
  exact ⟨⟨by simpa using hlow, by simpa using hhigh⟩, isLt _⟩

theorem toInt_ofInt_version {nVersion : Int} (h : -2 ^ 15 ≤ nVersion ∧ nVersion < 2 ^ 15) :
    (BitVec.ofInt 16 nVersion).toInt = nVersion := by
  rw [BitVec.toInt_ofInt]
  exact Int.bmod_eq_of_le (by omega) (by omega)

theorem versionOf_n32bitVersion {nVersion : Int} {nType : Nat}
    (h : -2 ^ 15 ≤ nVersion ∧ nVersion < 2 ^ 15) :
    versionOf (n32bitVersion nVersion nType) = nVersion := by
  have hhalf : (n32bitVersion nVersion nType).setWidth 16 = BitVec.ofInt 16 nVersion := by
    apply BitVec.eq_of_getLsbD_eq
    intro i hi
    have hi' : i < 32 := by omega
    rw [BitVec.getLsbD_setWidth, getLsbD_n32bitVersion]
    simp [hi, hi']
  rw [versionOf_eq, hhalf, toInt_ofInt_version h]

theorem typeOf_n32bitVersion {nVersion : Int} {nType : Nat} (h : HeaderFits nVersion nType) :
    typeOf (n32bitVersion nVersion nType) = if nVersion < 0 then 0xffff else nType := by
  have hhalf : (n32bitVersion nVersion nType).extractLsb' 16 16
      = if nVersion < 0 then BitVec.allOnes 16 else BitVec.ofNat 16 nType := by
    apply BitVec.eq_of_getLsbD_eq
    intro i hi
    have hi' : 16 + i < 32 := by omega
    rw [BitVec.getLsbD_extractLsb', getLsbD_n32bitVersion, BitVec.msb_eq_toInt,
      toInt_ofInt_version h.1]
    by_cases hneg : nVersion < 0
    · rw [if_pos hneg, BitVec.getLsbD_allOnes]
      simp [hi, hi', hneg]
    · rw [if_neg hneg, BitVec.getLsbD_ofNat]
      simp [hi, hi', hneg]
  rw [typeOf_eq, hhalf]
  split_ifs
  · rfl
  · exact Nat.mod_eq_of_lt h.2

theorem n32bitVersion_eq_iff : n32bitVersion (versionOf word) (typeOf word) = word ↔
      HeaderKept (versionOf word) (typeOf word) := by
  have hfits := headerFits_versionOf_typeOf word
  constructor
  · intro h
    have htype := typeOf_n32bitVersion hfits
    rw [h] at htype
    split_ifs at htype with hneg
    · exact .inr htype
    · exact .inl (by omega)
  · intro hkept
    have hversion : BitVec.ofInt 16 (versionOf word) = word.setWidth 16 := by
      rw [versionOf_eq, BitVec.ofInt_toInt]
    have htype : ∀ j < 16, (typeOf word).testBit j = word.getLsbD (16 + j) := by
      intro j hj
      rw [typeOf_eq, ← BitVec.getLsbD]
      simp [hj]
    apply BitVec.eq_of_getLsbD_eq
    intro i hi
    rw [getLsbD_n32bitVersion, BitVec.msb_eq_toInt, toInt_ofInt_version hfits.1, hversion]
    by_cases hlow : i < 16
    · rw [if_pos hlow]
      simp [hi, hlow]
    · have hbit := htype (i - 16) (by omega)
      rw [show 16 + (i - 16) = i by omega] at hbit
      rw [if_neg hlow, hbit]
      rcases hkept with hsign | hones
      · have hsign' : ¬versionOf word < 0 := by omega
        simp [hi, hsign']
      · rw [hones, show 0xffff = 2 ^ 16 - 1 by rfl, Nat.testBit_two_pow_sub_one] at hbit
        have hi' : i - 16 < 16 := by omega
        simp [hi, ← hbit, hi']

/-! ## The transaction -/

/-- Everything after the header word: inputs, outputs, lock time, and the
sections that the version and the type ask for. -/
def bodyFormat (nVersion : Int) (nType : Nat) :
    Format (List CTxIn × List CTxOut × Nat × SaplingTxData × List UInt8) :=
  (vector CTxIn.format).seq ((vector CTxOut.format).seq ((uint 4).seq
    ((if 4 ≤ nVersion then SaplingTxData.format
      else absent SaplingTxData.default).seq
    (if 3 ≤ nVersion ∧ nType ≠ transactionNormal then byteVector
      else absent []))))

def body (tx : CTransaction) : List CTxIn × List CTxOut × Nat × SaplingTxData × List UInt8 :=
  (tx.vin, tx.vout, tx.nLockTime, tx.sapData, tx.vExtraPayload)

def serialize (tx : CTransaction) : List UInt8 :=
  (uint 4).encode (n32bitVersion tx.nVersion tx.nType).toNat
    ++ (bodyFormat tx.nVersion tx.nType).encode tx.body

def unserialize (bytes : List UInt8) : Except SerializeError (CTransaction × List UInt8) := do
  let (word, rest) ← (uint 4).decode bytes
  let nVersion := versionOf (BitVec.ofNat 32 word)
  let nType := typeOf (BitVec.ofNat 32 word)
  let ((vin, vout, nLockTime, sapData, vExtraPayload), rest) ←
    (bodyFormat nVersion nType).decode rest
  .ok (⟨vin, vout, nVersion, nType, nLockTime, sapData, vExtraPayload⟩, rest)

/-- The format can carry the transaction: every field fits, and a section
that is left out has its default value. -/
def Carriable (tx : CTransaction) : Prop :=
  HeaderFits tx.nVersion tx.nType ∧
  (tx.vin.length ≤ maxSize ∧ ∀ txin ∈ tx.vin, txin.Carriable) ∧
  (tx.vout.length ≤ maxSize ∧ ∀ out ∈ tx.vout, out.Carriable) ∧
  tx.nLockTime < 2 ^ 32 ∧
  (if 4 ≤ tx.nVersion then tx.sapData.Carriable
    else tx.sapData = SaplingTxData.default) ∧
  (if 3 ≤ tx.nVersion ∧ tx.nType ≠ transactionNormal then
    tx.vExtraPayload.length ≤ maxSize else tx.vExtraPayload = [])

instance (tx : CTransaction) : Decidable tx.Carriable :=
  inferInstanceAs (Decidable (_ ∧ _))

variable {tx : CTransaction}

theorem carriable_iff : tx.Carriable ↔
    HeaderFits tx.nVersion tx.nType ∧ (bodyFormat tx.nVersion tx.nType).Valid tx.body := by
  have hsap : (if 4 ≤ tx.nVersion then format
      else absent default).Valid tx.sapData ↔
      if 4 ≤ tx.nVersion then tx.sapData.Carriable
        else tx.sapData = default := by
    split_ifs
    · exact format_valid_iff
    · exact Iff.rfl
  have hpayload : (if 3 ≤ tx.nVersion ∧ tx.nType ≠ transactionNormal then
      byteVector else absent []).Valid tx.vExtraPayload ↔
      if 3 ≤ tx.nVersion ∧ tx.nType ≠ transactionNormal then
        tx.vExtraPayload.length ≤ maxSize else tx.vExtraPayload = [] := by
    split_ifs
    · exact byteVector_valid_iff
    · exact Iff.rfl
  have hvin : (vector CTxIn.format).Valid tx.vin ↔
      tx.vin.length ≤ maxSize ∧ ∀ txin ∈ tx.vin, txin.Carriable := by
    simp only [vector_valid_iff, CTxIn.format_valid_iff]
  have hvout : (vector CTxOut.format).Valid tx.vout ↔
      tx.vout.length ≤ maxSize ∧ ∀ out ∈ tx.vout, out.Carriable := by
    simp only [vector_valid_iff, CTxOut.format_valid_iff]
  have hlock : (uint 4).Valid tx.nLockTime ↔ tx.nLockTime < 2 ^ 32 := uint_valid_iff
  exact and_congr Iff.rfl (and_congr hvin.symm (and_congr hvout.symm
    (and_congr hlock.symm (and_congr hsap.symm hpayload.symm))))

theorem unserialize_serialize (h : tx.Carriable) (rest : List UInt8) :
    unserialize (tx.serialize ++ rest) = .ok ({ tx with
      nType := if tx.nVersion < 0 then 0xffff else tx.nType }, rest) := by
  obtain ⟨hfits, hbody⟩ := carriable_iff.mp h
  have hword := (uint 4).decode_encode ((bodyFormat tx.nVersion tx.nType).encode tx.body ++ rest)
    (uint_valid_iff.mpr (n32bitVersion tx.nVersion tx.nType).isLt)
  have hformat : bodyFormat tx.nVersion
      (if tx.nVersion < 0 then 0xffff else tx.nType) = bodyFormat tx.nVersion tx.nType := by
    split_ifs with hneg
    · -- a negative version has neither of the optional sections
      unfold bodyFormat
      rw [if_neg (by omega), if_neg (by omega), if_neg (by omega)]
    · rfl
  unfold unserialize serialize
  rw [List.append_assoc, hword, ok_bind]
  dsimp only
  rw [ofNat_toNat, setWidth_eq, versionOf_n32bitVersion hfits.1,
    typeOf_n32bitVersion hfits, hformat,
    (bodyFormat tx.nVersion tx.nType).decode_encode rest hbody]
  rfl

theorem unserialize_eq_ok {bytes : List UInt8} {rest : List UInt8}
    (h : unserialize bytes = .ok (tx, rest)) :
    ∃ word : BitVec 32, tx.nVersion = versionOf word ∧ tx.nType = typeOf word ∧
      (bodyFormat tx.nVersion tx.nType).Valid tx.body ∧ bytes = (uint 4).encode word.toNat
        ++ (bodyFormat tx.nVersion tx.nType).encode tx.body ++ rest := by
  obtain ⟨⟨word, rest'⟩, hword, h⟩ := bind_eq_ok_iff.mp h
  obtain ⟨⟨body, rest''⟩, hbody, h⟩ := bind_eq_ok_iff.mp h
  cases h
  obtain ⟨hfits, rfl⟩ := (uint 4).encode_of_decode hword
  obtain ⟨hvalid, rfl⟩ := Codec.encode_of_decode _ hbody
  have hsame : (BitVec.ofNat 32 word).toNat = word := Nat.mod_eq_of_lt (uint_valid_iff.mp hfits)
  refine ⟨BitVec.ofNat 32 word, rfl, rfl, hvalid, ?_⟩
  rw [hsame]
  rfl

/-- The condition on the header word, read off the bytes: the sign bit of the
version is clear, or both bytes of the type are `0xff`. -/
def WordKept (bytes : List UInt8) : Prop :=
  bytes.getD 1 0 < 0x80 ∨ bytes.getD 2 0 = 0xff ∧ bytes.getD 3 0 = 0xff

theorem wordKept_iff (rest : List UInt8) :
    WordKept ((uint 4).encode word.toNat ++ rest) ↔ HeaderKept (versionOf word) (typeOf word) := by
  have hversion : 0 ≤ versionOf word ↔ word.toNat % 2 ^ 16 < 2 ^ 15 := by
    rw [versionOf_eq, toInt_eq_toNat_cond, toNat_setWidth]
    split_ifs <;> omega
  have htype : typeOf word = word.toNat / 2 ^ 16 := by
    rw [typeOf_eq, extractLsb'_toNat]
    omega
  show UInt8.ofNat (word.toNat / 256) < 0x80 ∨ UInt8.ofNat (word.toNat / 256 / 256) = 0xff ∧
    UInt8.ofNat (word.toNat / 256 / 256 / 256) = 0xff ↔ _
  rw [UInt8.lt_iff_toNat_lt, ← UInt8.toNat_inj, ← UInt8.toNat_inj,
    UInt8.toNat_ofNat', UInt8.toNat_ofNat', UInt8.toNat_ofNat', HeaderKept]
  show _ < 128 ∨ _ = 255 ∧ _ = 255 ↔ _
  omega

/-- Writing and reading are inverse to each other exactly where the header
word keeps both of its halves: a carriable transaction is read back, and
accepted bytes are written again. -/
theorem serialize_inverse_iff (tx : CTransaction) (bytes rest : List UInt8) :
    (tx.Carriable → (unserialize (tx.serialize ++ rest) = .ok (tx, rest) ↔
      HeaderKept tx.nVersion tx.nType)) ∧ (unserialize bytes = .ok (tx, rest) →
      tx.Carriable ∧ (tx.serialize ++ rest = bytes ↔ WordKept bytes)) := by
  constructor
  · intro h
    rw [unserialize_serialize h rest]
    constructor
    · intro heq
      have htype : (if tx.nVersion < 0 then 0xffff else tx.nType) = tx.nType :=
        congrArg nType (congrArg Prod.fst (ok.inj heq))
      split_ifs at htype with hneg
      · exact .inr htype.symm
      · exact .inl (by omega)
    · intro hkept
      have htype : (if tx.nVersion < 0 then 0xffff else tx.nType) = tx.nType := by
        split_ifs with hneg
        · rcases hkept with hsign | htype
          · omega
          · exact htype.symm
        · rfl
      rw [htype]
  · intro h
    obtain ⟨word, hversion, htype, hvalid, rfl⟩ := unserialize_eq_ok h
    have hfits := headerFits_versionOf_typeOf word
    rw [← hversion, ← htype] at hfits
    refine ⟨carriable_iff.mpr ⟨hfits, hvalid⟩, ?_⟩
    rw [List.append_assoc, wordKept_iff, ← n32bitVersion_eq_iff, ← hversion,
      ← htype, serialize, List.append_assoc]
    constructor
    · intro hbytes
      exact eq_of_toNat_eq ((uint 4).encode_append_inj
        (uint_valid_iff.mpr (isLt _)) (uint_valid_iff.mpr word.isLt)
        hbytes).1
    · intro hword
      rw [hword]

def assetLockTx : CTransaction :=
  ⟨[⟨⟨7, 1⟩, [0x51], 0xffffffff⟩], [⟨500, [0x6a, 0]⟩], 3, transactionAssetLock,
    0, SaplingTxData.default, [1, 2]⟩

theorem serialize_inverse_assetLockTx :
    unserialize (assetLockTx.serialize ++ []) = .ok (assetLockTx, []) ∧
      (assetLockTx.serialize ++ [] = assetLockTx.serialize ↔ WordKept assetLockTx.serialize) := by
  have hread : unserialize (assetLockTx.serialize ++ []) = .ok (assetLockTx, []) :=
    ((serialize_inverse_iff assetLockTx [] []).1 (by decide)).mpr (.inl (by decide))
  exact ⟨by rw [List.append_nil]; exact hread, ((serialize_inverse_iff assetLockTx _ []).2 hread).2⟩

def negativeVersionTx : CTransaction :=
  ⟨[], [], -1, transactionNormal, 0, SaplingTxData.default, []⟩

/-- Both directions fail: the transaction comes back with another type, and
the ten bytes that spell it come back as others. -/
theorem serialize_negativeVersionTx : unserialize negativeVersionTx.serialize
      = .ok ({ negativeVersionTx with nType := 0xffff }, []) ∧
    unserialize [0xff, 0xff, 0, 0, 0, 0, 0, 0, 0, 0] = .ok (negativeVersionTx, []) ∧
    negativeVersionTx.serialize = [0xff, 0xff, 0xff, 0xff, 0, 0, 0, 0, 0, 0] := by
  decide

end CTransaction

end KorshCore

import KorshCore.Evo.ProviderTx

/-!
# The destination of a script

`ExtractDestination` of `script/standard.cpp`. It recognizes payments to a
public key, to the hash of one and to the hash of a script. None of them is
provably unspendable, so an output with a destination always becomes a coin.
-/

namespace KorshCore

/-- `CPubKey::GetLen`. -/
def pubKeyLen (chHeader : UInt8) : Nat :=
  if chHeader = 2 ∨ chHeader = 3 then 33
  else if chHeader = 4 ∨ chHeader = 6 ∨ chHeader = 7 then 65
  else 0

/-- `CPubKey::ValidSize`. -/
def validPubKeySize (vch : List UInt8) : Bool :=
  match vch.head? with
  | none => false
  | some chHeader => pubKeyLen chHeader == vch.length

/-- One of the two cases of `MatchPayToPubkey`: a key of `size` bytes is pushed
and checked. -/
def matchPubkeyOfSize (size : Nat) (script : List UInt8) : Option (List UInt8) :=
  if script.length == size + 2 && script.head? == some (UInt8.ofNat size) &&
      script.getLast? == some 0xac then
    some ((script.drop 1).take size)
  else none

/-- `MatchPayToPubkey`: an uncompressed key, or a compressed one. -/
def matchPayToPubkey (script : List UInt8) : Option (List UInt8) :=
  ((matchPubkeyOfSize 65 script).or (matchPubkeyOfSize 33 script)).filter validPubKeySize

/-- The bytes of a `uint160`. -/
def uint160OfBytes (bytes : List UInt8) : Uint160 :=
  .ofNat 160 (bytes.foldr (fun byte n => byte.toNat + 256 * n) 0)

/-- `ExtractDestination`, where `hash160` is the hash of a public key. Multisig
scripts and data carriers have no destination. -/
def extractDestination (hash160 : List UInt8 → Uint160) (script : List UInt8) :
    Option CTxDestination :=
  if isPayToScriptHash script then some (.scriptHash (uint160OfBytes ((script.drop 2).take 20)))
  else
    match matchPayToPubkey script with
    | some pubkey => some (.pkHash (hash160 pubkey))
    | none =>
      if isPayToPublicKeyHash script then some (.pkHash (uint160OfBytes ((script.drop 3).take 20)))
      else none

variable {script : List UInt8}

theorem isUnspendable_of_head {op : UInt8} (hhead : script.head? = some op)
    (hop : op ≠ opReturn) (hlength : script.length ≤ maxScriptSize) :
    isUnspendable script = false := by
  unfold isUnspendable
  rw [hhead, Bool.or_eq_false_iff]
  refine ⟨?_, decide_eq_false (not_lt.mpr hlength)⟩
  simpa using hop

theorem head?_of_take {k : Nat} {op : UInt8} {rest : List UInt8}
    (h : script.take k = op :: rest) : script.head? = some op := by
  cases script with
  | nil => simp at h
  | cons b bytes =>
    cases k with
    | zero => simp at h
    | succ k =>
      rw [List.head?_cons, (List.cons.inj h).1]

theorem isUnspendable_of_matchPubkey {size : Nat} {script pubkey : List UInt8}
    (hsize : size = 33 ∨ size = 65) (h : matchPubkeyOfSize size script = some pubkey) :
    isUnspendable script = false := by
  unfold matchPubkeyOfSize at h
  split_ifs at h with hmatch
  simp only [Bool.and_eq_true, beq_iff_eq] at hmatch
  obtain ⟨⟨hlength, hhead⟩, -⟩ := hmatch
  refine isUnspendable_of_head hhead ?_ ?_
  · rcases hsize with rfl | rfl <;> decide
  · rw [maxScriptSize]
    omega

theorem isUnspendable_of_extractDestination {hash160 : List UInt8 → Uint160}
    {dest : CTxDestination} (h : extractDestination hash160 script = some dest) :
    isUnspendable script = false := by
  unfold extractDestination at h
  by_cases hscript : isPayToScriptHash script = true
  · unfold isPayToScriptHash at hscript
    simp only [Bool.and_eq_true, beq_iff_eq] at hscript
    obtain ⟨⟨hlength, htake⟩, -⟩ := hscript
    refine isUnspendable_of_head (head?_of_take htake) (by decide) ?_
    rw [hlength]
    decide
  cases hpubkey : matchPayToPubkey script with
  | some pubkey =>
    obtain ⟨hmatch, -⟩ := Option.filter_eq_some_iff.mp hpubkey
    rcases Option.or_eq_some_iff.mp hmatch with hmatch | ⟨-, hmatch⟩
    · exact isUnspendable_of_matchPubkey (.inr rfl) hmatch
    · exact isUnspendable_of_matchPubkey (.inl rfl) hmatch
  | none =>
    rw [hpubkey] at h
    split_ifs at h with hkey
    unfold isPayToPublicKeyHash at hkey
    simp only [Bool.and_eq_true, beq_iff_eq] at hkey
    obtain ⟨⟨hlength, htake⟩, -⟩ := hkey
    refine isUnspendable_of_head (head?_of_take htake) (by decide) ?_
    rw [hlength]
    decide

end KorshCore

import KorshCore.Llmq.BlockProcessor

/-!
# Signatures of stored commitments

`ProcessBlock` leaves the signatures of commitments to a queue and does not
look at the verdict of `VerifySignatureAsync`. For a quorum with one member
that function checks the member signature itself and only reports it, so a
wrong one goes unnoticed.
-/

namespace KorshCore

open Except CFinalCommitment List BlsCheck Option

namespace CFinalCommitment

variable {B : BLSScheme} {env : QuorumEnv B} {qc : CFinalCommitment B} {base : CBlockIndex}
  {params : LLMQParams} {members : List B.PublicKey}

/-- What the queue does not check: the member signature of a quorum with one member,
and the aggregate of a single signer of a larger one. -/
def SignaturesSound (env : QuorumEnv B) (qc : CFinalCommitment B) (params : LLMQParams)
    (members : List B.PublicKey) : Prop :=
  if params.isSingleMember then
    ∀ key ∈ members.head?, B.verifyInsecure qc.membersSig key (qc.commitmentHash env) = true
  else
    ∀ key, signerKeys members qc.signers = .ok [key] →
      B.verifySecureAggregated qc.membersSig [key] (qc.commitmentHash env) = true

theorem verify_true_eq (h : qc.verify env base false = .ok true) : qc.verify env base true
      = (qc.verifySignatureAsync env base false >>= fun verdict => .ok verdict.1) := by
  unfold verify at h ⊢
  cases hparams : env.getLLMQ qc.llmqType with
  | none =>
    rw [hparams] at h
    exact nomatch h
  | some params =>
    rw [hparams] at h
    dsimp only at h ⊢
    by_cases hheader : qc.verifyHeader env params base = true
    · rw [hheader] at h ⊢
      obtain ⟨members, hmembers, hbits⟩ := bind_eq_ok_iff.mp h
      by_cases hverify : qc.verifyBits members = true
      · simp [hmembers, hverify]
      · simp [hverify] at hbits
    · simp [hheader] at h

section

variable (hparams : env.getLLMQ qc.llmqType = some params)
include hparams

variable {verdict : Bool × List (BlsCheck B)}

theorem exists_of_verifySignatureAsync {queue : Bool}
    (h : qc.verifySignatureAsync env base queue = .ok verdict) :
    ∃ members membersCheck, env.getAllQuorumMembers qc.llmqType base = .ok members ∧
      qc.checkMembersSig params members (qc.commitmentHash env) queue = .ok membersCheck ∧
      verdict = if membersCheck.1 then ((qc.checkQuorumSig (qc.commitmentHash env) queue).1,
            membersCheck.2 ++ (qc.checkQuorumSig (qc.commitmentHash env) queue).2)
        else (false, membersCheck.2) := by
  obtain ⟨members, hmembers, h⟩ := bind_eq_ok_iff.mp h
  rw [hparams] at h
  obtain ⟨membersCheck, hcheck, h⟩ := bind_eq_ok_iff.mp h
  refine ⟨members, membersCheck, hmembers, hcheck, ?_⟩
  cases hverdict : membersCheck.1 with
  | false =>
    rw [hverdict] at h
    exact (ok.inj h).symm
  | true =>
    rw [hverdict] at h
    exact (ok.inj h).symm

theorem verifySignatureAsync_false_eq
    (hmembers : env.getAllQuorumMembers qc.llmqType base = .ok members) :
    qc.verifySignatureAsync env base false
      = (qc.checkMembersSig params members (qc.commitmentHash env) false >>= fun check =>
          .ok (check.1 && B.verifyInsecure qc.quorumSig qc.quorumPublicKey
            (qc.commitmentHash env), check.2)) := by
  unfold verifySignatureAsync
  rw [hmembers, hparams]
  show (qc.checkMembersSig params members _ false >>= _) = _
  congr 1
  funext check
  cases hcheck : check.1 with
  | false => rfl
  | true => simp [checkQuorumSig]

theorem verifySignature_iff (hmembers : env.getAllQuorumMembers qc.llmqType base = .ok members)
    (hqueue : qc.verifySignatureAsync env base true = .ok verdict)
    (hpass : verdict.2.all run = true) :
    (qc.verifySignatureAsync env base false >>= fun verdict => .ok verdict.1) = .ok true ↔
      qc.SignaturesSound env params members := by
  obtain ⟨members', check, hmembers', hcheck, rfl⟩ := exists_of_verifySignatureAsync hparams hqueue
  obtain rfl : members' = members := ok.inj (hmembers'.symm.trans hmembers)
  rw [verifySignatureAsync_false_eq hparams hmembers]
  unfold SignaturesSound
  unfold checkMembersSig at hcheck ⊢
  by_cases hsingle : params.isSingleMember = true
  · rw [if_pos hsingle] at hcheck ⊢
    rw [if_pos hsingle]
    cases members' with
    | nil => exact nomatch hcheck
    | cons key rest =>
      cases hcheck
      -- the quorum signature is queued once the member signature is right
      by_cases hkey : B.verifyInsecure qc.membersSig key (qc.commitmentHash env) = true
      · have hquorum : B.verifyInsecure qc.quorumSig qc.quorumPublicKey
            (qc.commitmentHash env) = true := by
          simpa [hkey, checkQuorumSig, run] using hpass
        simp [hkey, hquorum]
      · simp [hkey]
  · rw [if_neg hsingle] at hcheck ⊢
    rw [if_neg hsingle]
    obtain ⟨keys, hkeys, hcheck⟩ := bind_eq_ok_iff.mp hcheck
    cases hcheck
    have hboth : run ⟨qc.membersSig, keys, qc.commitmentHash env⟩ = true ∧
        B.verifyInsecure qc.quorumSig qc.quorumPublicKey (qc.commitmentHash env) = true := by
      simpa [checkQuorumSig, run] using hpass
    rw [hkeys]
    cases keys with
    | nil => exact nomatch hboth.1
    | cons key others =>
      cases others with
      | nil => simp [hboth.2]
      | cons other others =>
        have hsecure : B.verifySecureAggregated qc.membersSig (key :: other :: others)
            (qc.commitmentHash env) = true := hboth.1
        simp [hboth.2, hsecure]

end

end CFinalCommitment

namespace CQuorumBlockProcessor

variable {B : BLSScheme} {env : QuorumEnv B} {chain : ActiveChain}

theorem exists_of_queueChecks : ∀ {qcs : List (CFinalCommitment B)} {checks : List (BlsCheck B)},
    queueChecks env chain qcs = .ok checks → checks.all run = true →
    ∀ qc ∈ qcs, qc.isNull = false → ∃ base verdict,
      chain.lookupBlockIndex qc.quorumHash = some base ∧
      qc.verifySignatureAsync env base true = .ok verdict ∧ verdict.2.all run = true
  | [], _, _, _, _, hmem, _ => nomatch hmem
  | first :: rest, checks, h, hpass, qc, hmem, hnull => by
    unfold queueChecks at h
    by_cases hfirst : first.isNull = true
    · rw [if_pos hfirst] at h
      rcases mem_cons.mp hmem with rfl | hmem
      · rw [hfirst] at hnull
        exact nomatch hnull
      · exact exists_of_queueChecks h hpass qc hmem hnull
    · rw [if_neg hfirst] at h
      obtain ⟨base, hbase, verdict, hverdict, others, hothers, h⟩ := bind₃_eq_ok_iff.mp h
      cases h
      rw [all_append, Bool.and_eq_true] at hpass
      rcases mem_cons.mp hmem with rfl | hmem
      · exact ⟨base, verdict, ofOption_eq_ok_iff.mp hbase, mapError_eq_ok_iff.mp hverdict, hpass.1⟩
      · exact exists_of_queueChecks hothers hpass.2 qc hmem hnull

/-! ## What gets stored -/

def storedCommitments (env : QuorumEnv B) (block : CBlock) (pindex : CBlockIndex) :
    List (CFinalCommitment B) :=
  match getCommitmentsFromBlock env block pindex with
  | .ok qcs => qcs.filter (!·.isNull)
  | .error _ => []

def FilledBy (qcs : List (CFinalCommitment B)) (blockHash : Uint256) (s s' : ProcessorState B) :
    Prop :=
  ∀ t hash, s'.db.tables.minedCommitment t hash = s.db.tables.minedCommitment t hash ∧
      (∀ qc ∈ qcs, qc.isNull = false → ¬ (qc.llmqType = t ∧ qc.quorumHash = hash)) ∨
    ∃ qc ∈ qcs, qc.isNull = false ∧ qc.llmqType = t ∧ qc.quorumHash = hash ∧
      s'.db.tables.minedCommitment t hash = some (qc, blockHash)

theorem filledBy_forEach {nHeight : Nat} {blockHash : Uint256} :
    ∀ {qcs : List (CFinalCommitment B)} {s s' : ProcessorState B},
    Attempt.forEach (processCommitment env chain nHeight blockHash false) qcs s = (.ok (), s') →
    FilledBy qcs blockHash s s'
  | [], s, s', h, t, hash => by
    obtain rfl : s = s' := (Prod.mk.inj h).2
    exact .inl ⟨rfl, nofun⟩
  | qc :: rest, s, s', h, t, hash => by
    obtain ⟨⟨⟩, s₁, hfirst, hrest⟩ := Attempt.bind_eq_ok_iff.mp h
    rcases filledBy_forEach hrest t hash with ⟨hsame, hnone⟩ | ⟨qc', hmem, hqc'⟩
    · obtain ⟨params, hparams, -, -, hstep⟩ := processCommitment_ok hfirst
      rcases hstep with ⟨hnull, rfl⟩ | ⟨hnull, -, -, base, -, -, hs₁⟩
      · refine .inl ⟨hsame, fun other hother hother' => ?_⟩
        rcases mem_cons.mp hother with rfl | hother
        · rw [hnull] at hother'
          exact nomatch hother'
        · exact hnone other hother hother'
      · have htype := QuorumEnv.type_of_getLLMQ hparams
        have hslot := @minedCommitment_storeCommitment _ env params nHeight blockHash qc
          base (hasMinedCommitment params.type qc.quorumHash s).2 t hash
        rw [if_neg (by simp)] at hs₁
        rw [← hs₁, tables_hasMinedCommitment, htype] at hslot
        by_cases hkey : t = qc.llmqType ∧ hash = qc.quorumHash
        · rw [if_pos hkey] at hslot
          exact .inr ⟨qc, mem_cons_self, hnull, hkey.1.symm, hkey.2.symm, hsame.trans hslot⟩
        · rw [if_neg hkey] at hslot
          refine .inl ⟨hsame.trans hslot, fun other hother hother' => ?_⟩
          rcases mem_cons.mp hother with rfl | hother
          · exact fun heq => hkey ⟨heq.1.symm, heq.2.symm⟩
          · exact hnone other hother hother'
    · exact .inr ⟨qc', mem_cons_of_mem _ hmem, hqc'⟩

theorem FilledBy.filter {qcs : List (CFinalCommitment B)} {blockHash : Uint256}
    {s s' : ProcessorState B} (h : FilledBy qcs blockHash s s') :
    FilledBy (qcs.filter (!·.isNull)) blockHash s s' := by
  intro t hash
  rcases h t hash with ⟨hsame, hnone⟩ | ⟨qc, hmem, hnull, hqc⟩
  · exact .inl ⟨hsame, fun qc hqc => hnone qc (mem_filter.mp hqc).1⟩
  · exact .inr ⟨qc, mem_filter.mpr ⟨hmem, by simpa using hnull⟩, hnull, hqc⟩

theorem storedCommitments_of_inactive {block : CBlock} {pindex : CBlockIndex}
    (h : env.dip0003ActiveAt pindex = false) : storedCommitments env block pindex = [] := by
  unfold storedCommitments
  cases hqcs : getCommitmentsFromBlock env block pindex with
  | error e => rfl
  | ok qcs =>
    rw [qcs_of_inactive h hqcs]
    rfl

def PassesVerify (env : QuorumEnv B) (chain : ActiveChain) (qc : CFinalCommitment B) : Prop :=
  ∃ base, chain.lookupBlockIndex qc.quorumHash = some base ∧ qc.verify env base true = .ok true

/-- The signatures that the queue does not check are sound. -/
def QueueSuffices (env : QuorumEnv B) (chain : ActiveChain) (qc : CFinalCommitment B) : Prop :=
  ∀ base params members, chain.lookupBlockIndex qc.quorumHash = some base →
    env.getLLMQ qc.llmqType = some params →
    env.getAllQuorumMembers qc.llmqType base = .ok members →
    qc.SignaturesSound env params members

theorem passesVerify_iff {qc : CFinalCommitment B} {base : CBlockIndex}
    {verdict : Bool × List (BlsCheck B)} (hbase : chain.lookupBlockIndex qc.quorumHash = some base)
    (hverify : qc.verify env base false = .ok true)
    (hqueue : qc.verifySignatureAsync env base true = .ok verdict)
    (hpass : verdict.2.all run = true) :
    PassesVerify env chain qc ↔ QueueSuffices env chain qc := by
  have hsignatures : PassesVerify env chain qc ↔
      (qc.verifySignatureAsync env base false >>= fun verdict => .ok verdict.1) = .ok true := by
    rw [← verify_true_eq hverify]
    constructor
    · rintro ⟨base', hbase', hverified⟩
      obtain rfl : base' = base := some.inj (hbase'.symm.trans hbase)
      exact hverified
    · exact fun hverified => ⟨base, hbase, hverified⟩
  rw [hsignatures]
  constructor
  · intro hverified base' params members hbase' hparams hmembers
    obtain rfl : base' = base := some.inj (hbase'.symm.trans hbase)
    exact (verifySignature_iff hparams hmembers hqueue hpass).mp hverified
  · intro hsound
    unfold verify at hverify
    cases hparams : env.getLLMQ qc.llmqType with
    | none =>
      rw [hparams] at hverify
      exact nomatch hverify
    | some params =>
      obtain ⟨members, -, hmembers, -⟩ := exists_of_verifySignatureAsync hparams hqueue
      exact (verifySignature_iff hparams hmembers hqueue hpass).mpr
        (hsound base params members hbase hparams hmembers)

/-- A block that is accepted with signature checks stores its non-null commitments
and nothing else. They all pass `Verify` with signatures exactly if the
signatures that the queue does not check are sound. -/
theorem verify_stored_iff {block : CBlock} {pindex : CBlockIndex} {s s' : ProcessorState B}
    (h : processBlock env chain block pindex false true s = (.ok (), s')) :
    FilledBy (storedCommitments env block pindex) pindex.hash s s' ∧
    ((∀ qc ∈ storedCommitments env block pindex, PassesVerify env chain qc) ↔
      ∀ qc ∈ storedCommitments env block pindex, QueueSuffices env chain qc) := by
  by_cases hactive : env.dip0003ActiveAt pindex = true
  · obtain ⟨qcs, enabled, s₁, s₂, hqcs, hnumbers, hsignatures, hprocess, rfl⟩ :=
      processBlock_ok hactive h
    have hstored : storedCommitments env block pindex = qcs.filter (!·.isNull) := by
      unfold storedCommitments
      rw [hqcs]
    rw [hstored]
    constructor
    · have hdb : s₁.db = s.db :=
        (keeps_checkNumbers (P := fun t => t.db = s.db)
          (fun _ _ t ht => (tables_hasMinedCommitment _ _ t).trans ht) _ _ _).of_eq hnumbers rfl
      have hfilled := (filledBy_forEach hprocess).filter
      unfold FilledBy at hfilled ⊢
      rw [hdb] at hfilled
      exact hfilled
    · obtain ⟨checks, hchecks, hpass⟩ := bind_eq_ok_iff.mp hsignatures
      have hpass := require_eq_ok_iff.mp hpass
      have hsame : ∀ qc ∈ qcs.filter (!·.isNull),
          (PassesVerify env chain qc ↔ QueueSuffices env chain qc) := by
        intro qc hqc
        obtain ⟨hmem, hnull⟩ := mem_filter.mp hqc
        have hnull : qc.isNull = false := by simpa using hnull
        obtain ⟨base, verdict, hbase, hqueue, hrun⟩ :=
          exists_of_queueChecks hchecks hpass qc hmem hnull
        obtain ⟨t₁, t₂, hqc⟩ := exists_of_forEach hprocess qc hmem
        obtain ⟨params, -, -, -, hstep⟩ := processCommitment_ok hqc
        rcases hstep with ⟨hnull', -⟩ | ⟨-, -, -, base', hbase', hverify, -⟩
        · rw [hnull] at hnull'
          exact nomatch hnull'
        · obtain rfl : base' = base := some.inj (hbase'.symm.trans hbase)
          exact passesVerify_iff hbase hverify hqueue hrun
      exact forall₂_congr hsame
  · have hinactive : env.dip0003ActiveAt pindex = false := by simpa using hactive
    rw [storedCommitments_of_inactive hinactive]
    unfold processBlock at h
    rw [hinactive] at h
    obtain rfl := (Prod.mk.inj h).2
    exact ⟨fun t hash => .inl ⟨rfl, nofun⟩, iff_of_true nofun nofun⟩

/-! ## A quorum with one member -/

/-- Keys and signatures as numbers: a key signs with its own number, and keys sign
together with their sum. -/
def numberScheme : BLSScheme where
  PublicKey := Nat
  Signature := Nat
  isValidKey := (· != 0)
  isValidSig := (· != 0)
  verifyInsecure sig key _ := sig == key
  verifySecureAggregated sig keys _ := sig == keys.sum

def soloCommitment (membersSig : Nat) : CFinalCommitment numberScheme where
  nVersion := 1
  llmqType := .llmqTest
  quorumHash := 25
  quorumIndex := 0
  signers := [true]
  validMembers := [true]
  quorumPublicKey := (9 : Nat)
  quorumVvecHash := 0
  quorumSig := (9 : Nat)
  membersSig := membersSig
  quorumIndex_of_version := fun _ => rfl

def soloEnv : QuorumEnv numberScheme where
  network := .regtest
  llmqs := [⟨.llmqTest, false, 1, 1, 24, 10, 18, 2, 3⟩]
  llmqs_distinct := by decide
  dip0003ActiveAt _ := true
  dip0020ActiveAfter _ := true
  dip0024ActiveAfter _ := true
  v19ActiveAfter _ := false
  testDummyActiveAfter _ := false
  dip0024QuorumsHeight := 0
  nKSHSmallQuorumsHeight := 0
  getInstantSendType _ := .llmqTest
  selectMembers _ _ := [(7 : Nat)]
  buildCommitmentHash _ _ _ _ _ := 1
  readCommitment tx := some (soloCommitment tx.nLockTime)

/-- The block at height 33. The quorum is based on the one at height 24. -/
def soloTip : CBlockIndex := ⟨34, ((range' 1 33).map (↑)).reverse⟩

def soloChain : ActiveChain := .ofTip soloTip (by decide)

def soloBlock (hash : Uint256) (membersSig : Nat) : CBlock :=
  ⟨hash, [⟨[], [], 3, transactionQuorumCommitment, membersSig, ⟨0, [], [], []⟩,
    [.ofNat hash.toNat]⟩]⟩

def soloState : ProcessorState numberScheme := ⟨⟨.empty, none⟩, fun _ => .new 3 0⟩

def soloNext (membersSig : Nat) : ProcessorState numberScheme :=
  (processBlock soloEnv soloChain (soloBlock 35 membersSig) (soloTip.child 35) false true
    soloState).2

theorem verify_stored_iff_solo :
    FilledBy (storedCommitments soloEnv (soloBlock 35 7) (soloTip.child 35)) 35 soloState
      (soloNext 7) ∧
    ((∀ qc ∈ storedCommitments soloEnv (soloBlock 35 7) (soloTip.child 35),
        PassesVerify soloEnv soloChain qc) ↔
      ∀ qc ∈ storedCommitments soloEnv (soloBlock 35 7) (soloTip.child 35),
        QueueSuffices soloEnv soloChain qc) :=
  verify_stored_iff (Prod.ext (by decide +kernel) rfl)

theorem solo_stores_unverified :
    (processBlock soloEnv soloChain (soloBlock 35 8) (soloTip.child 35) false true
      soloState).1 = .ok () ∧ soloChain.lookupBlockIndex 25 = some ⟨25, soloTip.ancestors.drop 9⟩ ∧
    ((soloNext 8).db.tables.minedCommitment .llmqTest 25).map
      (fun entry => entry.1.verify soloEnv ⟨25, soloTip.ancestors.drop 9⟩ true)
        = some (.ok false) := by
  decide +kernel

end CQuorumBlockProcessor

end KorshCore

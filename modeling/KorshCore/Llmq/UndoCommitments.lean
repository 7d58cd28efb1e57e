import KorshCore.Llmq.MinedCache

/-!
# Undoing the commitments of a block

`ProcessBlock` files a commitment under rotation as its base block sees it, and
`UndoBlock` removes it under rotation as the mining block sees it. Both are the
same, so a block is turned back as long as it stores nothing that is stored
already. The cache of mined commitments is to ensure that, and it can be wrong.
-/

namespace KorshCore

open Attempt MinedTables Except SortedMap Option
open List hiding lookup

open QuorumEnv (cycleStart)

variable {B : BLSScheme}

/-! ## The entries of a commitment -/

inductive MinedKey where
  | commitment (llmqType : LLMQType) (hash : Uint256)
  | height (key : ℕ ×ₗ ℤ)
  | indexed (key : ℕ ×ₗ (ℕ ×ₗ ℤ))
  deriving DecidableEq

namespace MinedTables

def lookup (tables : MinedTables B) : MinedKey → Option ((CFinalCommitment B × Uint256) ⊕ Nat)
  | .commitment llmqType hash => (tables.minedCommitment llmqType hash).map .inl
  | .height key => (tables.byInversedHeight.find key).map .inr
  | .indexed key => (tables.byInversedHeightIndexed.find key).map .inr

theorem ext_lookup {T T' : MinedTables B} (h : ∀ key, T.lookup key = T'.lookup key) : T = T' := by
  have hcommitment : T.minedCommitment = T'.minedCommitment := by
    funext llmqType hash
    exact map_injective Sum.inl_injective (h (.commitment llmqType hash))
  have hheight : T.byInversedHeight = T'.byInversedHeight :=
    ext_find fun key => map_injective Sum.inr_injective (h (.height key))
  have hindexed : T.byInversedHeightIndexed = T'.byInversedHeightIndexed :=
    ext_find fun key => map_injective Sum.inr_injective (h (.indexed key))
  cases T
  cases T'
  cases hcommitment
  cases hheight
  cases hindexed
  rfl

end MinedTables

def heightKey (rotated : Bool) (nHeight : Nat) (qc : CFinalCommitment B) : MinedKey :=
  if rotated then
    .indexed (buildInversedHeightKeyIndexed qc.llmqType nHeight (qc.quorumIndex.signExtend 32))
  else .height (buildInversedHeightKey qc.llmqType nHeight)

def keysOf (rotated : Bool) (nHeight : Nat) (qc : CFinalCommitment B) : List MinedKey :=
  [.commitment qc.llmqType qc.quorumHash, heightKey rotated nHeight qc]

variable {nHeight : Nat}

namespace MinedTables

variable (T : MinedTables B)

theorem lookup_setCommitment (llmqType : LLMQType) (hash : Uint256)
    (entry : Option (CFinalCommitment B × Uint256)) (key : MinedKey) :
    (T.setCommitment llmqType hash entry).lookup key
      = if key = .commitment llmqType hash then entry.map .inl else T.lookup key := by
  cases key with
  | commitment t h =>
    unfold lookup setCommitment
    dsimp only
    by_cases hkey : t = llmqType ∧ h = hash
    · simp [hkey]
    · rw [if_neg hkey, if_neg (by simpa using hkey)]
  | height key => rfl
  | indexed key => rfl

theorem lookup_writeHeight (rotated : Bool) (nHeight : Nat)
    (qc : CFinalCommitment B) (baseHeight : Nat) (key : MinedKey) :
    (T.writeHeight rotated nHeight qc baseHeight).lookup key
      = if key = heightKey rotated nHeight qc then some (.inr baseHeight) else T.lookup key := by
  unfold writeHeight heightKey
  cases rotated with
  | false =>
    cases key with
    | height key =>
      simp only [Bool.false_eq_true, if_false, lookup, find_insert, MinedKey.height.injEq]
      exact apply_ite _ _ _ _
    | commitment t h => rfl
    | indexed key => rfl
  | true =>
    cases key with
    | indexed key =>
      simp only [if_true, lookup, find_insert, MinedKey.indexed.injEq]
      exact apply_ite _ _ _ _
    | commitment t h => rfl
    | height key => rfl

theorem lookup_eraseHeight (rotated : Bool) (nHeight : Nat)
    (qc : CFinalCommitment B) (key : MinedKey) : (T.eraseHeight rotated nHeight qc).lookup key
      = if key = heightKey rotated nHeight qc then none else T.lookup key := by
  unfold eraseHeight heightKey
  cases rotated with
  | false =>
    cases key with
    | height key =>
      simp only [Bool.false_eq_true, if_false, lookup, find_erase, MinedKey.height.injEq]
      exact apply_ite _ _ _ _
    | commitment t h => rfl
    | indexed key => rfl
  | true =>
    cases key with
    | indexed key =>
      simp only [if_true, lookup, find_erase, MinedKey.indexed.injEq]
      exact apply_ite _ _ _ _
    | commitment t h => rfl
    | height key => rfl

end MinedTables

namespace CQuorumBlockProcessor

variable {env : QuorumEnv B} {chain : ActiveChain}

variable {qc : CFinalCommitment B} {params : LLMQParams}

theorem base_of_expected {tip base : CBlockIndex} (htip : chain.tip = some tip)
    (hexpected : expectedQuorumHash chain params nHeight qc = qc.quorumHash)
    (hnonzero : qc.quorumHash ≠ 0) (hbase : chain.lookupBlockIndex qc.quorumHash = some base)
    (hindex : ((base.nHeight % params.dkgInterval : Nat) : Int) = qc.quorumIndex.toInt) :
    tip.getAncestor base.nHeight = some base ∧
      base.nHeight = cycleStart params nHeight + base.nHeight % params.dkgInterval := by
  unfold expectedQuorumHash getQuorumBlockHash at hexpected
  rw [htip] at hexpected
  dsimp only [getBlockHash] at hexpected
  rw [← hindex] at hexpected
  split_ifs at hexpected with hrange hminus
  · exact absurd hexpected.symm hnonzero
  · omega
  · cases hanc : tip.getAncestor
        (cycleStart params nHeight + (base.nHeight % params.dkgInterval : Nat)) with
    | none =>
      rw [hanc] at hexpected
      exact absurd hexpected.symm hnonzero
    | some anc =>
      rw [hanc] at hexpected
      have hknown := chain.lookup_ancestor tip _ anc htip hanc
      have hhash : anc.hash = qc.quorumHash := hexpected
      rw [hhash, hbase] at hknown
      cases hknown
      have hheight := CBlockIndex.nHeight_of_getAncestor hanc
      refine ⟨by rw [hheight]; exact hanc, ?_⟩
      omega

variable {hash : Uint256}

/-- The base block and the block that mines the commitment agree on rotation. -/
theorem rotation_eq {tip base : CBlockIndex} (hanc : tip.getAncestor base.nHeight = some base)
    (hcycle : base.nHeight = cycleStart params (tip.nHeight + 1) + base.nHeight
      % params.dkgInterval) : env.isQuorumRotationEnabled params base
      = env.isQuorumRotationEnabled params (tip.child hash) := by
  refine QuorumEnv.isQuorumRotationEnabled_congr ?_ ?_
  · exact CBlockIndex.getAncestor_trans (CBlockIndex.getAncestor_child_nHeight tip hash) hanc
  · show base.nHeight - base.nHeight % params.dkgInterval = _
    rw [CBlockIndex.nHeight_child]
    omega

variable {base : CBlockIndex}

theorem index_of_verify {checkSigs : Bool} (hparams : env.getLLMQ qc.llmqType = some params)
    (h : qc.verify env base checkSigs = .ok true) :
    ((base.nHeight % params.dkgInterval : Nat) : Int) = qc.quorumIndex.toInt := by
  unfold CFinalCommitment.verify at h
  rw [hparams] at h
  by_cases hheader : qc.verifyHeader env params base = true
  · unfold CFinalCommitment.verifyHeader at hheader
    simp only [Bool.and_eq_true, decide_eq_true_eq] at hheader
    tauto
  · simp [hheader] at h

/-! ## Processing adds entries -/

def rotatedAt (env : QuorumEnv B) (pindex : CBlockIndex) (qc : CFinalCommitment B) : Bool :=
  match env.getLLMQ qc.llmqType with
  | some params => env.isQuorumRotationEnabled params pindex
  | none => false

def blockKeys (env : QuorumEnv B) (pindex : CBlockIndex) (qcs : List (CFinalCommitment B)) :
    List MinedKey :=
  (qcs.filter (!·.isNull)).flatMap fun qc =>
    keysOf (rotatedAt env pindex qc) pindex.nHeight qc

variable {llmqType : LLMQType} {s : ProcessorState B}

theorem blockKeys_cons (pindex : CBlockIndex) (qc : CFinalCommitment B)
    (rest : List (CFinalCommitment B)) (hnull : qc.isNull = false) :
    blockKeys env pindex (qc :: rest)
      = keysOf (rotatedAt env pindex qc) pindex.nHeight qc ++ blockKeys env pindex rest := by
  unfold blockKeys
  rw [filter_cons_of_pos (by simpa using hnull), flatMap_cons]

variable {pindex : CBlockIndex}

theorem mem_blockKeys_cons {rest : List (CFinalCommitment B)} {key : MinedKey} :
    key ∈ blockKeys env pindex (qc :: rest) ↔
      key ∈ blockKeys env pindex [qc] ∨ key ∈ blockKeys env pindex rest := by
  unfold blockKeys
  rw [← singleton_append, filter_append, flatMap_append, mem_append]

theorem not_mining_of_no_tip {n : Nat} : isMiningPhase params none (n + 1) ≠ .ok true := by
  intro h
  obtain ⟨⟨⟩, hassert, -⟩ := bind_eq_ok_iff.mp h
  have hheight := of_decide_eq_true (require_eq_ok_iff.mp hassert)
  simp only [chainHeight] at hheight
  omega

variable {tip : CBlockIndex} {fJustCheck : Bool}

theorem lookup_processCommitment {s s' : ProcessorState B}
    (htip : chain.tip = some tip ∨ chain.tip = none)
    (h : processCommitment env chain (tip.child hash).nHeight (tip.child
      hash).hash fJustCheck qc s = (.ok (), s')) {key : MinedKey}
    (hkey : key ∉ blockKeys env (tip.child hash) [qc]) :
    s'.db.tables.lookup key = s.db.tables.lookup key := by
  obtain ⟨params, hparams, hexpected, hnonzero, hstep⟩ := processCommitment_ok h
  rcases hstep with ⟨-, rfl⟩ | ⟨hnull, -, hphase, base, hbase, hverify, rfl⟩
  · rfl
  · have htype := QuorumEnv.type_of_getLLMQ hparams
    have htip : chain.tip = some tip := by
      rcases htip with htip | htip
      · exact htip
      · rw [htip] at hphase
        exact absurd hphase not_mining_of_no_tip
    obtain ⟨hanc, hcycle⟩ :=
      base_of_expected htip hexpected hnonzero hbase (index_of_verify hparams hverify)
    have hrotated : env.isQuorumRotationEnabled params base
        = rotatedAt env (tip.child hash) qc := by
      unfold rotatedAt
      rw [hparams]
      exact rotation_eq hanc hcycle
    cases fJustCheck with
    | true => rw [if_pos rfl, tables_hasMinedCommitment]
    | false =>
      rw [if_neg (by simp)]
      show (writeHeight _ _ _ _ _).lookup key = _
      rw [lookup_writeHeight, hrotated, lookup_setCommitment, tables_hasMinedCommitment, htype]
      rw [blockKeys_cons _ _ _ hnull] at hkey
      simp only [keysOf, mem_append, mem_cons, not_or] at hkey
      rw [if_neg hkey.1.2.1, if_neg hkey.1.1]

theorem lookup_forEach_processCommitment (htip : chain.tip = some tip ∨ chain.tip = none)
    {key : MinedKey} : ∀ {qcs : List (CFinalCommitment B)} {s s' : ProcessorState B},
    forEach (processCommitment env chain (tip.child hash).nHeight
      (tip.child hash).hash fJustCheck) qcs s = (.ok (), s') →
    key ∉ blockKeys env (tip.child hash) qcs → s'.db.tables.lookup key = s.db.tables.lookup key
  | [], s, s', h, _ => by
    obtain rfl : s = s' := (Prod.mk.inj h).2
    rfl
  | qc :: rest, s, s', h, hkey => by
    obtain ⟨⟨⟩, s₁, hfirst, hrest⟩ := bind_eq_ok_iff.mp h
    obtain ⟨hkeyOne, hkeyRest⟩ := not_or.mp fun hmem => hkey (mem_blockKeys_cons.mpr hmem)
    rw [lookup_forEach_processCommitment htip hrest hkeyRest,
      lookup_processCommitment htip hfirst hkeyOne]

/-! ## Undoing removes them -/

variable {qcs : List (CFinalCommitment B)} {block : CBlock}

theorem known_of_getCommitments (h : getCommitmentsFromBlock env block pindex = .ok qcs) :
    ∀ qc ∈ qcs, ∃ params, env.getLLMQ qc.llmqType = some params := by
  obtain ⟨qcs', hqcs, ⟨⟩, -, h⟩ := bind₂_eq_ok_iff.mp h
  cases h
  refine foldlM_preserves
    (P := fun qcs => ∀ qc ∈ qcs, ∃ params, env.getLLMQ qc.llmqType = some params)
    (fun tx done done' _ hdone hstep => ?_) nofun hqcs
  unfold collectCommitment at hstep
  split_ifs at hstep
  · obtain ⟨qc, -, params, hparams, ⟨⟩, -, hstep⟩ := bind₃_eq_ok_iff.mp hstep
    cases hstep
    intro other hother
    rcases mem_append.mp hother with hother | hother
    · exact hdone other ((takeWhile_sublist _).subset hother)
    · rcases mem_cons.mp hother with rfl | hother
      · exact ⟨params, ofOption_eq_ok_iff.mp hparams⟩
      · exact hdone other ((dropWhile_sublist _).subset hother)
  · cases hstep
    exact hdone

theorem undoCommitment_spec (hknown : ∃ params, env.getLLMQ qc.llmqType = some params)
    (s : ProcessorState B) :
    ∃ s', undoCommitment env pindex qc s = (.ok (), s') ∧ ∀ key, s'.db.tables.lookup key
        = if key ∈ blockKeys env pindex [qc] then none else s.db.tables.lookup key := by
  obtain ⟨params, hparams⟩ := hknown
  unfold undoCommitment
  by_cases hnull : qc.isNull = true
  · rw [if_pos hnull, blockKeys, filter_cons_of_neg (by simpa using hnull)]
    exact ⟨s, rfl, fun key => rfl⟩
  · have hnull : qc.isNull = false := by simpa using hnull
    rw [if_neg (by simpa using hnull), blockKeys_cons _ _ _ hnull, hparams]
    refine ⟨_, rfl, fun key => ?_⟩
    show (eraseHeight _ _ _ _).lookup key = _
    rw [lookup_eraseHeight]
    show (if _ then _ else (setCommitment _ _ _ _).lookup key) = _
    rw [lookup_setCommitment]
    have hrotated : rotatedAt env pindex qc = env.isQuorumRotationEnabled params pindex := by
      unfold rotatedAt
      rw [hparams]
    rw [hrotated]
    simp only [keysOf, blockKeys, filter_nil, flatMap_nil, append_nil,
      mem_cons, not_mem_nil, or_false, map_none]
    split_ifs <;> tauto

theorem undo_forEach : ∀ {qcs : List (CFinalCommitment B)},
    (∀ qc ∈ qcs, ∃ params, env.getLLMQ qc.llmqType = some params) →
    ∀ s : ProcessorState B, ∃ s', forEach (undoCommitment env pindex) qcs s = (.ok (), s') ∧
      ∀ key, s'.db.tables.lookup key
        = if key ∈ blockKeys env pindex qcs then none else s.db.tables.lookup key
  | [], _, s => ⟨s, rfl, fun key => rfl⟩
  | qc :: rest, hknown, s => by
    obtain ⟨s₁, hfirst, hone⟩ := @undoCommitment_spec _ env _ pindex (hknown qc mem_cons_self) s
    obtain ⟨s', hrest, hothers⟩ := @undo_forEach _
      (fun other hother => hknown other (mem_cons_of_mem _ hother)) s₁
    refine ⟨s', bind_eq_ok_iff.mpr ⟨(), s₁, hfirst, hrest⟩, fun key => ?_⟩
    rw [hothers, hone]
    simp only [@mem_blockKeys_cons _ env qc pindex rest]
    split_ifs <;> tauto

/-! ## A block and its undoing -/

theorem undoBlock_of_ok
    (h : getCommitmentsFromBlock env block (tip.child hash) = .ok qcs) (s : ProcessorState B) :
    ∃ s', undoBlock env block (tip.child hash) s = (.ok (), s') ∧
      ∀ key, s'.db.tables.lookup key = if key ∈ blockKeys env (tip.child hash) qcs then none
          else s.db.tables.lookup key := by
  obtain ⟨s₁, hloop, hkeys⟩ :=
    @undo_forEach _ env (tip.child hash) qcs (known_of_getCommitments h) s
  refine ⟨s₁.writeBestBlock tip.hash, ?_, hkeys⟩
  refine lift_bind_eq_ok_iff.mpr ⟨qcs, h, ?_⟩
  exact bind_eq_ok_iff.mpr ⟨(), s₁, hloop, rfl⟩

/-- An accepted block changes entries of its own commitments only. -/
theorem lookup_processBlock {fBLSChecks : Bool} {s s' : ProcessorState B}
    (htip : chain.tip = some tip ∨ chain.tip = none)
    (h : processBlock env chain block (tip.child hash) fJustCheck fBLSChecks s = (.ok (), s')) :
    s'.db.tables = s.db.tables ∧ env.dip0003ActiveAt (tip.child hash) = false ∨
    ∃ qcs, getCommitmentsFromBlock env block (tip.child hash) = .ok qcs ∧
      ∀ key ∉ blockKeys env (tip.child hash) qcs,
        s'.db.tables.lookup key = s.db.tables.lookup key := by
  by_cases hactive : env.dip0003ActiveAt (tip.child hash) = true
  · obtain ⟨qcs, enabled, s₁, s₂, hqcs, hnumbers, -, hprocess, rfl⟩ := processBlock_ok hactive h
    have hdb : s₁.db = s.db :=
      (keeps_checkNumbers (P := fun t => t.db = s.db)
        (fun _ _ t ht => (tables_hasMinedCommitment _ _ t).trans ht) _ _ _).of_eq hnumbers rfl
    refine .inr ⟨qcs, hqcs, fun key hkey => ?_⟩
    rw [← hdb]
    exact (lookup_forEach_processCommitment htip hprocess hkey : s₂.db.tables.lookup key = _)
  · have hinactive : env.dip0003ActiveAt (tip.child hash) = false := by simpa using hactive
    unfold processBlock at h
    rw [hinactive] at h
    obtain rfl := (Prod.mk.inj h).2
    exact .inl ⟨rfl, hinactive⟩

/-! ## Runs of a node -/

structure QuorumNode (B : BLSScheme) where
  state : ProcessorState B
  tip : CBlockIndex
  blocks : List CBlock

/-- What a node does: a block is connected, the tip is disconnected, or only the caches
change. The last covers the parts of queries of other threads, in any order, a block
that is refused or only checked, after which the database is rolled back, and a start
of the node. -/
inductive QuorumStep (env : QuorumEnv B) : QuorumNode B → QuorumNode B → Prop where
  | connect {node : QuorumNode B} {chain : ActiveChain} {block : CBlock} {hash : Uint256}
      {fBLSChecks : Bool} {s' : ProcessorState B} :
      chain.tip = some node.tip →
      processBlock env chain block (node.tip.child hash) false fBLSChecks node.state
        = (.ok (), s') →
      QuorumStep env node ⟨s', node.tip.child hash, block :: node.blocks⟩
  | disconnect {node : QuorumNode B} {prev : CBlockIndex} {block : CBlock}
      {blocks : List CBlock} {s' : ProcessorState B} :
      node.tip.pprev = some prev → node.blocks = block :: blocks →
      undoBlock env block node.tip node.state = (.ok (), s') →
      QuorumStep env node ⟨s', prev, blocks⟩
  | cached {node : QuorumNode B} (caches : LLMQType → UnorderedLruCache Uint256 Bool) :
      QuorumStep env node { node with state := ⟨node.state.db, caches⟩ }

inductive QuorumReach (env : QuorumEnv B) : QuorumNode B → Prop where
  | genesis (hash : Uint256) (best : Option Uint256)
      (caches : LLMQType → UnorderedLruCache Uint256 Bool) :
      QuorumReach env ⟨⟨⟨.empty, best⟩, caches⟩, ⟨hash, []⟩, []⟩
  | step {node node' : QuorumNode B} :
      QuorumReach env node → QuorumStep env node node' → QuorumReach env node'

/-- A key of a commitment in one of the blocks up to a tip. -/
inductive MinedBelow (env : QuorumEnv B) : CBlockIndex → List CBlock → MinedKey → Prop where
  | tip {tip : CBlockIndex} {hash : Uint256} {block : CBlock} {blocks : List CBlock}
      {qcs : List (CFinalCommitment B)} {key : MinedKey} :
      getCommitmentsFromBlock env block (tip.child hash) = .ok qcs →
      key ∈ blockKeys env (tip.child hash) qcs →
      MinedBelow env (tip.child hash) (block :: blocks) key
  | deeper {tip : CBlockIndex} {hash : Uint256} {block : CBlock} {blocks : List CBlock}
      {key : MinedKey} : MinedBelow env tip blocks key →
      MinedBelow env (tip.child hash) (block :: blocks) key

theorem heightKey_mem_blockKeys {rotated : Bool} {m : Nat}
    (h : heightKey rotated m qc ∈ blockKeys env pindex qcs) : m = pindex.nHeight := by
  obtain ⟨other, -, hkey⟩ := mem_flatMap.mp h
  unfold keysOf heightKey at hkey
  cases rotated with
  | false =>
    simp only [Bool.false_eq_true, if_false] at hkey
    split_ifs at hkey
    · simp at hkey
    · have hpair := congrArg (fun k => (ofLex k).2) (by simpa using hkey :
        buildInversedHeightKey qc.llmqType m
          = buildInversedHeightKey other.llmqType pindex.nHeight)
      simp only [buildInversedHeightKey, ofLex_toLex] at hpair
      omega
  | true =>
    simp only [if_true] at hkey
    split_ifs at hkey
    · have hpair := congrArg (fun k => (ofLex (ofLex k).2).2) (by simpa using hkey :
        buildInversedHeightKeyIndexed qc.llmqType m (qc.quorumIndex.signExtend 32)
          = buildInversedHeightKeyIndexed other.llmqType pindex.nHeight
            (other.quorumIndex.signExtend 32))
      simp only [buildInversedHeightKeyIndexed, ofLex_toLex] at hpair
      omega
    · simp at hkey

theorem MinedBelow.height_le {rotated : Bool} {m : Nat} {blocks : List CBlock}
    {key : MinedKey} (h : MinedBelow env tip blocks key) (hkey : key = heightKey rotated m qc) :
    m ≤ tip.nHeight := by
  induction h with
  | tip _ hmem =>
    subst hkey
    exact (heightKey_mem_blockKeys hmem).le
  | deeper _ ih => exact (ih hkey).trans (Nat.le_succ _)

/-- Every entry of the tables belongs to a commitment of a block of the chain. -/
theorem mined_of_reach {node : QuorumNode B} (h : QuorumReach env node) :
    ∀ key, node.state.db.tables.lookup key ≠ none → MinedBelow env node.tip node.blocks key := by
  induction h with
  | genesis hash best caches =>
    intro key hkey
    cases key with
    | commitment llmqType hash => exact absurd rfl hkey
    | height key => exact absurd rfl hkey
    | indexed key => exact absurd rfl hkey
  | @step node node' _ hstep ih =>
    intro key hkey
    cases hstep with
    | @connect chain block hash _ _ htip hprocess =>
      rcases lookup_processBlock (.inl htip) hprocess with ⟨hsame, -⟩ | ⟨qcs, hqcs, hframe⟩
      · refine .deeper (ih key ?_)
        rw [← hsame]
        exact hkey
      · by_cases hmem : key ∈ blockKeys env (node.tip.child hash) qcs
        · exact .tip hqcs hmem
        · refine .deeper (ih key ?_)
          rw [← hframe key hmem]
          exact hkey
    | @disconnect prev block blocks s' hprev hblocks hundo =>
      obtain ⟨state, ⟨hash, _ | ⟨hash', ancestors⟩⟩, blocks'⟩ := node
      · exact nomatch hprev
      obtain rfl : (⟨hash', ancestors⟩ : CBlockIndex) = prev := some.inj hprev
      cases hblocks
      obtain ⟨qcs, hqcs, -⟩ := lift_bind_eq_ok_iff.mp hundo
      have hqcs : getCommitmentsFromBlock env block
          (CBlockIndex.child ⟨hash', ancestors⟩ hash) = .ok qcs := hqcs
      obtain ⟨s₁, hundo', hkeys⟩ := undoBlock_of_ok hqcs state
      obtain rfl : s₁ = s' := (Prod.mk.inj (hundo'.symm.trans hundo)).2
      have hkey : s₁.db.tables.lookup key ≠ none := hkey
      rw [hkeys] at hkey
      split_ifs at hkey with hmem
      · exact absurd rfl hkey
      · cases ih key hkey with
        | tip hqcs' hmem' =>
          obtain rfl := ok.inj (hqcs'.symm.trans hqcs)
          exact absurd hmem' hmem
        | deeper hbelow => exact hbelow
    | cached caches => exact ih key hkey

/-- For every block that is accepted on top of the tip of a node, or while it
replays blocks, `UndoBlock` restores the tables that the node had before the block
exactly if none of its commitments was stored already. It succeeds unless the block is
from before the deployment, when the tables are not touched. -/
theorem undo_of_reach_iff {node : QuorumNode B} (hreach : QuorumReach env node) {block : CBlock}
    {hash : Uint256} {fJustCheck fBLSChecks : Bool} {s' : ProcessorState B}
    (htip : chain.tip = some node.tip ∨ chain.tip = none)
    (h : processBlock env chain block (node.tip.child hash) fJustCheck fBLSChecks node.state
      = (.ok (), s')) :
    ((undoBlock env block (node.tip.child hash) s').2.db.tables = node.state.db.tables ↔
      ∀ qc ∈ storedCommitments env block (node.tip.child hash),
        node.state.db.tables.minedCommitment qc.llmqType qc.quorumHash = none) ∧
    (env.dip0003ActiveAt (node.tip.child hash) = true →
      (undoBlock env block (node.tip.child hash) s').1 = .ok ()) := by
  rcases lookup_processBlock htip h with ⟨hsame, hinactive⟩ | ⟨qcs, hqcs, hframe⟩
  · refine ⟨iff_of_true ?_ ?_, fun hactive => absurd (hinactive.symm.trans hactive) (by simp)⟩
    · rw [← hsame]
      cases hqcs : getCommitmentsFromBlock env block (node.tip.child hash) with
      | error e =>
        unfold undoBlock
        rw [hqcs]
        rfl
      | ok qcs =>
        obtain ⟨t, hundo, hkeys⟩ := undoBlock_of_ok hqcs s'
        rw [hundo]
        have hempty := qcs_of_inactive hinactive hqcs
        subst hempty
        exact ext_lookup hkeys
    · rw [storedCommitments_of_inactive hinactive]
      exact nofun
  · obtain ⟨t, hundo, hkeys⟩ := undoBlock_of_ok hqcs s'
    have hstored : storedCommitments env block (node.tip.child hash)
        = qcs.filter (!·.isNull) := by
      unfold storedCommitments
      rw [hqcs]
    rw [hundo, hstored]
    refine ⟨⟨fun hback qc hqc => ?_, fun hnew => ext_lookup fun key => ?_⟩, fun _ => rfl⟩
    · have hkey : MinedKey.commitment qc.llmqType qc.quorumHash
          ∈ blockKeys env (node.tip.child hash) qcs :=
        mem_flatMap.mpr ⟨qc, hqc, mem_cons_self⟩
      have hback : t.db.tables = node.state.db.tables := hback
      have hnone := hkeys (.commitment qc.llmqType qc.quorumHash)
      rw [if_pos hkey, hback] at hnone
      exact map_eq_none_iff.mp hnone
    · rw [hkeys]
      split_ifs with hkey
      · -- an entry for a height is above the tip, so it was not there before
        obtain ⟨qc, hqc, hkey⟩ := mem_flatMap.mp hkey
        symm
        rcases mem_cons.mp hkey with rfl | hkey
        · exact map_eq_none_iff.mpr (hnew qc hqc)
        · by_contra hentry
          have hle := (mined_of_reach hreach key hentry).height_le (mem_singleton.mp hkey)
          exact absurd hle (Nat.not_succ_le_self _)
      · exact hframe key hkey

def rotatedCommitment : CFinalCommitment numberScheme :=
  { soloCommitment 7 with
    nVersion := 2
    llmqType := .llmqTestDip0024
    quorumIndex_of_version := nofun }

def rotatedParams : LLMQParams := ⟨.llmqTestDip0024, true, 1, 1, 24, 10, 20, 1, 3⟩

def rotatedEnv : QuorumEnv numberScheme :=
  { soloEnv with
    llmqs := [rotatedParams]
    llmqs_distinct := by decide
    dip0003ActiveAt := fun pindex => 34 ≤ pindex.nHeight
    dip0024ActiveAfter := fun pindex => 22 ≤ pindex.nHeight
    readCommitment := fun _ => some rotatedCommitment }

def emptyState (best : Uint256) : ProcessorState numberScheme :=
  ⟨⟨.empty, some best⟩, fun _ => .new 3 0⟩

theorem reach_inactive : ∀ {hash : Uint256} {ancestors : List Uint256},
    (hash :: ancestors).Nodup → ancestors.length < 34 →
    ∃ blocks, QuorumReach rotatedEnv ⟨emptyState hash, ⟨hash, ancestors⟩, blocks⟩
  | hash, [], _, _ => ⟨[], .genesis hash (some hash) fun _ => .new 3 0⟩
  | hash, prev :: ancestors, hnodup, hlength => by
    have hbelow := (nodup_cons.mp hnodup).2
    obtain ⟨blocks, hreach⟩ := reach_inactive hbelow (Nat.lt_of_succ_lt hlength)
    refine ⟨⟨hash, []⟩ :: blocks, hreach.step (@QuorumStep.connect _ _ _
      (.ofTip ⟨prev, ancestors⟩ hbelow) _ _ true _ rfl ?_)⟩
    have hinactive : rotatedEnv.dip0003ActiveAt (CBlockIndex.child ⟨prev, ancestors⟩ hash)
        = false := decide_eq_false (Nat.not_le.mpr hlength)
    unfold processBlock
    rw [if_pos (by simpa using hinactive)]
    rfl

/-- The first block of the deployment stores a commitment under rotation. -/
theorem undo_of_reach_rotated :
    rotatedEnv.isQuorumRotationEnabled rotatedParams ⟨25, soloTip.ancestors.drop 9⟩ = true ∧
    (storedCommitments rotatedEnv (soloBlock 35 7) (soloTip.child 35)).length = 1 ∧
    (undoBlock rotatedEnv (soloBlock 35 7) (soloTip.child 35)
      (processBlock rotatedEnv soloChain (soloBlock 35 7) (soloTip.child 35) false true
        (emptyState 34)).2).2.db.tables = (emptyState 34).db.tables := by
  have hblocks : ∃ blocks, QuorumReach rotatedEnv ⟨emptyState 34, soloTip, blocks⟩ :=
    reach_inactive (by decide) (by decide)
  obtain ⟨blocks, hreach⟩ := hblocks
  have hok : processBlock rotatedEnv soloChain (soloBlock 35 7) (soloTip.child 35) false true
      (emptyState 34) = (.ok (), (processBlock rotatedEnv soloChain (soloBlock 35 7)
        (soloTip.child 35) false true (emptyState 34)).2) := Prod.ext (by decide +kernel) rfl
  have hundo := (undo_of_reach_iff hreach (.inl rfl) hok).1.mpr fun _ _ => rfl
  dsimp only at hundo
  exact ⟨by decide, by decide +kernel, hundo⟩

/-- In the state that the late answer of a thread leaves, a second block with the stored
commitment is accepted, and undoing it erases the entry of the first one. -/
theorem undo_erases_stored :
    (runEvents ([.look 1 .llmqTest 25, .ask 1] ++ soloStores ++ [.commit, .insert 1])
      soloShared).map (fun s =>
        let next := soloTip.child 35
        let result := processBlock soloEnv (.ofTip next (by decide)) (soloBlock 36 7)
          (next.child 36) false true s.state
        let undone := undoBlock soloEnv (soloBlock 36 7) (next.child 36) result.2
        (s.state.db.tables.hasCommitment .llmqTest 25, result.1, undone.1,
          undone.2.db.tables.hasCommitment .llmqTest 25))
      = some (true, .ok (), .ok (), false) := by
  decide +kernel

end CQuorumBlockProcessor

end KorshCore

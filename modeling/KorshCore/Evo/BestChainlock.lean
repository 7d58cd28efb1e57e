import KorshCore.Chain.SkipPointers
import KorshCore.Lib.Attempt

/-!
# The chainlock of the coinbase

`CheckCbTxBestChainlock` of `evo/specialtxman.cpp`. The check reads the
coinbase of the parent, and two things that are not part of the chain: the best
chainlock of the node, and one cached payload.

A block index is identified with its history, and a signature that is not valid
is the null signature.
-/

namespace KorshCore

open Except CBlockIndex Option

/-- What is read of the chainlock part of `CCbTx`. -/
structure ChainLockCbTx (S : Type) where
  nVersion : Nat
  bestCLHeightDiff : UInt32
  bestCLSignature : Option S
  deriving DecidableEq, Repr

structure ChainLockSig (S : Type) where
  nHeight : Int
  blockHash : Uint256
  sig : Option S
  deriving DecidableEq

def ChainLockSig.null {S : Type} : ChainLockSig S := ⟨-1, 0, none⟩

inductive VerifyRecSigStatus where
  | noQuorum
  | invalid
  | valid
  deriving DecidableEq, Repr

/-- Why the check fails. `nullAncestor` is not a verdict: the program reads the
hash behind a null pointer. -/
inductive ChainLockReject where
  | badCbtxNullClsig
  | badCbtxOlderClsig
  | badCbtxInvalidClsig
  | badCbtxCldiff
  | nullAncestor
  deriving DecidableEq, Repr

structure ChainLockEnv (S : Type) where
  v20Height : Nat
  skips : SkipPointers
  /-- The payload of the coinbase of a block on disk. `COMPACTSIZE` does not read a
  difference above `MAX_SIZE`. -/
  coinbase : CBlockIndex → Option (ChainLockCbTx S)
  coinbase_le : ∀ {pindex cbTx}, coinbase pindex = some cbTx →
    cbTx.bestCLHeightDiff.toNat ≤ 0x02000000
  /-- Whether the quorum that is selected at a block for a height has signed a
  hash; `none` if there is no quorum. -/
  verifyAt : CBlockIndex → Int → Uint256 → S → Option Bool

structure ChainLockNode (S : Type) where
  bestChainLock : ChainLockSig S
  cachedPindex : Option CBlockIndex
  cachedChainlock : Option (Option S × UInt32)

namespace ChainLockNode

variable {S : Type}

def start : ChainLockNode S := ⟨.null, none, none⟩

def remember (cbTx : ChainLockCbTx S) (pindex : CBlockIndex) (node : ChainLockNode S) :
    ChainLockNode S :=
  { node with
    cachedPindex := some pindex
    cachedChainlock := some (cbTx.bestCLSignature, cbTx.bestCLHeightDiff) }

end ChainLockNode

namespace ChainLockEnv

variable {S : Type} (env : ChainLockEnv S)

def v20ActiveAt (pindex : CBlockIndex) : Bool := env.v20Height ≤ pindex.nHeight

def getNonNullCoinbaseChainlock (pindex : Option CBlockIndex) : Option (Option S × UInt32) := do
  let pindex ← pindex
  if env.v20ActiveAt pindex then
    let cbTx ← env.coinbase pindex
    if cbTx.bestCLSignature.isSome then some (cbTx.bestCLSignature, cbTx.bestCLHeightDiff)
    else none
  else none

/-- `VerifyChainLock`, with `SelectQuorumForSigning` and the active chain given by
its tip. -/
def verifyChainLock (chain : CBlockIndex) (clsig : ChainLockSig S) : VerifyRecSigStatus :=
  let signHeight : Int := if clsig.nHeight = -1 then chain.nHeight else clsig.nHeight
  match chain.getAncestor (signHeight - 8) with
  | none => .noQuorum
  | some start =>
    match clsig.sig with
    | none => .invalid
    | some sig =>
      match env.verifyAt start clsig.nHeight clsig.blockHash sig with
      | none => .noQuorum
      | some verified => if verified then .valid else .invalid

/-- `curBlockCoinbaseCLHeight`, computed with 32-bit integers. -/
def claimedHeight (pindex : CBlockIndex) (cbTx : ChainLockCbTx S) : Int :=
  ((pindex.nHeight : Int) - (cbTx.bestCLHeightDiff.toNat : Int).bmod (2 ^ 32) - 1).bmod (2 ^ 32)

def prevBlockCoinbaseChainlock (pindex : CBlockIndex) (node : ChainLockNode S) :
    Option (Option S × UInt32) :=
  (if node.cachedPindex = pindex.pprev then node.cachedChainlock else none) <|>
    env.getNonNullCoinbaseChainlock pindex.pprev

def checkNotOlder (cbTx : ChainLockCbTx S) :
    Option (Option S × UInt32) → Except ChainLockReject Unit
  | none => .ok ()
  | some (_, prevDiff) => do
    require .badCbtxNullClsig cbTx.bestCLSignature.isSome
    require .badCbtxOlderClsig (cbTx.bestCLHeightDiff ≤ prevDiff + 1)

variable [DecidableEq S]

def checkSignature (cbTx : ChainLockCbTx S) (pindex chain : CBlockIndex)
    (best : ChainLockSig S) : Except ChainLockReject Unit :=
  let height := claimedHeight pindex cbTx
  -- the best chainlock of the node need not be verified again
  if best.nHeight = height ∧ best.sig = cbTx.bestCLSignature then .ok ()
  else do
    let anc ← ofOption .nullAncestor (pindex.getAncestorBySkips env.skips.pskip height)
    require .badCbtxInvalidClsig
      (env.verifyChainLock chain ⟨height, anc.hash, cbTx.bestCLSignature⟩ = .valid)

def checkCbTxBestChainlock (cbTx : ChainLockCbTx S) (pindex chain : CBlockIndex) :
    Attempt (ChainLockNode S) ChainLockReject Unit := fun node =>
  let best := node.bestChainLock
  if cbTx.nVersion < 3 then (.ok (), node)
  else if best.nHeight = pindex.nHeight - 1 ∧ cbTx.bestCLHeightDiff = 0 ∧
      cbTx.bestCLSignature = best.sig then
    (.ok (), node.remember cbTx pindex)
  else (do
      Attempt.lift (checkNotOlder cbTx (env.prevBlockCoinbaseChainlock pindex node))
      if cbTx.bestCLSignature.isSome then do
        Attempt.lift (env.checkSignature cbTx pindex chain best)
        Attempt.modify (ChainLockNode.remember cbTx pindex)
      else Attempt.require .badCbtxCldiff (cbTx.bestCLHeightDiff = 0)
      : Attempt (ChainLockNode S) ChainLockReject Unit) node

/-! ## What is allowed -/

omit [DecidableEq S] in
def Carries (pindex : CBlockIndex) : Prop :=
  (env.getNonNullCoinbaseChainlock (some pindex)).isSome

def Signed (pindex : CBlockIndex) (sig : S) : Prop :=
  ∃ start, pindex.getAncestor (pindex.nHeight - 8) = some start ∧
    env.verifyAt start pindex.nHeight pindex.hash sig = some true

/-- The signature is one over the ancestor at the claimed height. -/
def AncestorSigned (pindex : CBlockIndex) (diff : UInt32) (sig : S) : Prop :=
  ∃ anc, pindex.getAncestor (pindex.nHeight - diff.toNat - 1) = some anc ∧ env.Signed anc sig

/-- The block that is claimed to be signed is not below the one that the coinbase of
the parent claims. -/
def NotOlder (pindex : CBlockIndex) (diff : UInt32) : Prop :=
  ∀ prev last, pindex.pprev = some prev → env.getNonNullCoinbaseChainlock (some prev) = some last →
    (prev.nHeight : Int) - last.2.toNat - 1 ≤ pindex.nHeight - diff.toNat - 1

/-- What the payload of a block has to be. -/
def Allowed (pindex : CBlockIndex) (cbTx : ChainLockCbTx S) : Prop :=
  cbTx.nVersion < 3 ∨ match cbTx.bestCLSignature with
    | none =>
      cbTx.bestCLHeightDiff = 0 ∧ ∀ (anc : CBlockIndex) (height : Nat), height < pindex.nHeight →
          pindex.getAncestor height = some anc → ¬ env.Carries anc
    | some sig =>
      env.NotOlder pindex cbTx.bestCLHeightDiff ∧
        env.AncestorSigned pindex cbTx.bestCLHeightDiff sig

/-- The check uses no missing ancestor and accepts what is allowed. -/
def Right (pindex chain : CBlockIndex) (cbTx : ChainLockCbTx S) (node : ChainLockNode S) : Prop :=
  (env.checkCbTxBestChainlock cbTx pindex chain node).1 ≠ .error .nullAncestor ∧
    ((env.checkCbTxBestChainlock cbTx pindex chain node).1 = .ok () ↔ env.Allowed pindex cbTx)

/-! ## The states of a node -/

/-- The states of a node that checks the coinbases of blocks and receives
chainlocks. -/
inductive NodeReach : ChainLockNode S → Prop where
  | start : NodeReach .start
  /-- The check of a block on top of another one. `CheckCbTx` has compared the
  version with V20 before. -/
  | check {node pindex prev cbTx} (chain : CBlockIndex) : NodeReach node →
      pindex.pprev = some prev → env.coinbase pindex = some cbTx →
      (env.v20ActiveAt pindex = decide (3 ≤ cbTx.nVersion)) →
      NodeReach (env.checkCbTxBestChainlock cbTx pindex chain node).2
  /-- `UpdateBestChainlock` after `ProcessNewChainLock` has verified the chainlock
  with the active chain of that time. -/
  | update {node clsig} (chain : CBlockIndex) : NodeReach node →
      node.bestChainLock.nHeight < clsig.nHeight →
      env.verifyChainLock chain clsig = .valid →
      NodeReach { node with bestChainLock := clsig }
  | reset {node} : NodeReach node → NodeReach { node with bestChainLock := .null }

/-- The cached payload is the one on disk, and only the missing best chainlock has no
signature. -/
structure NodeRight (node : ChainLockNode S) : Prop where
  cached : ∀ {last}, node.cachedChainlock = some last → ∃ pindex, node.cachedPindex = some pindex ∧
      env.getNonNullCoinbaseChainlock (some pindex) = some last
  best : node.bestChainLock.sig = none → node.bestChainLock.nHeight = -1

variable {env} {pindex : CBlockIndex} {cbTx : ChainLockCbTx S} {node : ChainLockNode S}
  {chain : CBlockIndex} {prev : CBlockIndex} {anc : CBlockIndex}

section Parts

omit [DecidableEq S]

theorem getNonNullCoinbaseChainlock_eq_some {last : Option S × UInt32}
    (h : env.getNonNullCoinbaseChainlock (some pindex) = some last) :
    env.v20ActiveAt pindex = true ∧ ∃ cbTx, env.coinbase pindex = some cbTx ∧
      cbTx.bestCLSignature.isSome ∧ last = (cbTx.bestCLSignature, cbTx.bestCLHeightDiff) := by
  simp only [getNonNullCoinbaseChainlock, bind_eq_bind, bind_some] at h
  split_ifs at h with hv20
  obtain ⟨cbTx, hcbTx, hlast⟩ := bind_eq_some_iff.mp h
  split_ifs at hlast with hsome
  exact ⟨hv20, cbTx, hcbTx, hsome, (some.inj hlast).symm⟩

theorem getNonNullCoinbaseChainlock_of (hv20 : env.v20ActiveAt pindex = true)
    (hcbTx : env.coinbase pindex = some cbTx) (hsome : cbTx.bestCLSignature.isSome) :
    env.getNonNullCoinbaseChainlock (some pindex) =
      some (cbTx.bestCLSignature, cbTx.bestCLHeightDiff) := by
  simp [getNonNullCoinbaseChainlock, hv20, hcbTx, hsome]

theorem Carries.v20 (h : env.Carries prev)
    (hprev : pindex.pprev = some prev) : env.v20ActiveAt pindex = true := by
  obtain ⟨last, hlast⟩ := isSome_iff_exists.mp h
  have hbelow := of_decide_eq_true (getNonNullCoinbaseChainlock_eq_some hlast).1
  have hheight := nHeight_of_pprev hprev
  exact decide_eq_true (by omega)

theorem NodeRight.prevBlockCoinbaseChainlock_eq (hnode : env.NodeRight node)
    (pindex : CBlockIndex) :
    env.prevBlockCoinbaseChainlock pindex node = env.getNonNullCoinbaseChainlock pindex.pprev := by
  unfold prevBlockCoinbaseChainlock
  split_ifs with hsame
  · cases hcached : node.cachedChainlock with
    | none => rfl
    | some last =>
      obtain ⟨idx, hidx, hlast⟩ := hnode.cached hcached
      rw [← hsame, hidx, hlast]
      rfl
  · rfl

theorem sig_of_verifyChainLock {clsig : ChainLockSig S}
    (h : env.verifyChainLock chain clsig = .valid) : clsig.sig ≠ none := by
  intro hnone
  unfold verifyChainLock at h
  dsimp only at h
  rw [hnone] at h
  generalize chain.getAncestor _ = start at h
  cases start <;> exact nomatch h

theorem verifyChainLock_eq_valid_iff {sig : S}
    (hsame : chain.getAncestor (anc.nHeight - 8) = anc.getAncestor (anc.nHeight - 8)) :
    env.verifyChainLock chain ⟨anc.nHeight, anc.hash, some sig⟩ = .valid ↔ env.Signed anc sig := by
  unfold verifyChainLock Signed
  dsimp only
  rw [if_neg (by omega), hsame]
  cases anc.getAncestor (anc.nHeight - 8) with
  | none => simp
  | some start =>
    rcases hverify : env.verifyAt start anc.nHeight anc.hash sig with _ | _ | _ <;>
      simp [hverify]

theorem checkNotOlder_eq_ok_iff (hsome : cbTx.bestCLSignature.isSome) :
    checkNotOlder cbTx (env.getNonNullCoinbaseChainlock pindex.pprev) = .ok () ↔
      env.NotOlder pindex cbTx.bestCLHeightDiff := by
  unfold NotOlder
  cases hprev : pindex.pprev with
  | none => simp [checkNotOlder, getNonNullCoinbaseChainlock]
  | some prev =>
    have hheight := nHeight_of_pprev hprev
    cases hlast : env.getNonNullCoinbaseChainlock (some prev) with
    | none =>
      refine iff_of_true rfl fun prev' last' hprev' hlast' => ?_
      cases hprev'
      rw [hlast] at hlast'
      exact nomatch hlast'
    | some last =>
      obtain ⟨-, prevTx, hprevTx, -, rfl⟩ := getNonNullCoinbaseChainlock_eq_some hlast
      have hsmall := env.coinbase_le hprevTx
      have hsum : (prevTx.bestCLHeightDiff + 1).toNat = prevTx.bestCLHeightDiff.toNat + 1 := by
        rw [UInt32.toNat_add]
        exact Nat.mod_eq_of_lt (by simp; omega)
      simp only [checkNotOlder, hsome, bind_eq_ok_iff, require_eq_ok_iff,
        decide_eq_true_eq, UInt32.le_iff_toNat_le, hsum]
      constructor
      · rintro ⟨_, -, hle⟩ prev' last' hprev' hlast'
        cases hprev'
        rw [hlast] at hlast'
        cases hlast'
        dsimp only
        omega
      · intro hnotOlder
        have hle := hnotOlder prev _ rfl hlast
        dsimp only at hle
        exact ⟨(), trivial, by omega⟩

theorem checkNotOlder_ne_null (cbTx : ChainLockCbTx S) (last : Option (Option S × UInt32)) :
    checkNotOlder cbTx last ≠ .error .nullAncestor := by
  cases last with
  | none => nofun
  | some last =>
    intro h
    rcases bind_eq_error_iff.mp h with hnull | ⟨_, -, hnull⟩
    · exact nomatch (require_eq_error_iff.mp hnull).2
    · exact nomatch (require_eq_error_iff.mp hnull).2

variable (hint : pindex.nHeight < 2 ^ 31)
include hint

theorem claimedHeight_of_le (hle : cbTx.bestCLHeightDiff.toNat ≤ pindex.nHeight) :
    claimedHeight pindex cbTx = pindex.nHeight - cbTx.bestCLHeightDiff.toNat - 1 := by
  unfold claimedHeight
  simp only [Int.bmod]
  split_ifs <;> omega

theorem claimedHeight_of_max (hmax : cbTx.bestCLHeightDiff.toNat = 2 ^ 32 - 1) :
    claimedHeight pindex cbTx = pindex.nHeight := by
  unfold claimedHeight
  simp only [Int.bmod]
  split_ifs <;> omega

theorem claimedHeight_of_ge (hge : pindex.nHeight ≤ cbTx.bestCLHeightDiff.toNat)
    (hmax : cbTx.bestCLHeightDiff.toNat ≠ 2 ^ 32 - 1) :
    claimedHeight pindex cbTx < 0 ∨ pindex.nHeight < claimedHeight pindex cbTx := by
  have hword := cbTx.bestCLHeightDiff.toNat_lt
  unfold claimedHeight
  simp only [Int.bmod]
  split_ifs <;> omega

end Parts

variable (env) in
/-- The check without the cache and without the first shortcut. -/
def verdict (cbTx : ChainLockCbTx S) (pindex chain : CBlockIndex) (best : ChainLockSig S) :
    Except ChainLockReject Unit := do
  checkNotOlder cbTx (env.getNonNullCoinbaseChainlock pindex.pprev)
  if cbTx.bestCLSignature.isSome then env.checkSignature cbTx pindex chain best
  else require .badCbtxCldiff (cbTx.bestCLHeightDiff = 0)

theorem NodeRight.verdict_of_shortcut (hnode : env.NodeRight node)
    (hint : pindex.nHeight < 2 ^ 31) (chain : CBlockIndex)
    (hheight : node.bestChainLock.nHeight = pindex.nHeight - 1) (hzero : cbTx.bestCLHeightDiff = 0)
    (hsig : cbTx.bestCLSignature = node.bestChainLock.sig) :
    env.verdict cbTx pindex chain node.bestChainLock = .ok () := by
  unfold verdict
  cases hcases : cbTx.bestCLSignature with
  | none =>
    -- there is no best chainlock, so this is the genesis block
    have hnone := hnode.best (hsig.symm.trans hcases)
    have hgenesis : pindex.pprev = none := by
      cases hprev : pindex.pprev with
      | none => rfl
      | some prev =>
        have hpos := nHeight_of_pprev hprev
        omega
    rw [hgenesis]
    simp [checkNotOlder, getNonNullCoinbaseChainlock, hzero, require]
  | some sig =>
    have hfresh : checkNotOlder cbTx (env.getNonNullCoinbaseChainlock pindex.pprev) = .ok () := by
      cases env.getNonNullCoinbaseChainlock pindex.pprev with
      | none => rfl
      | some last => simp [checkNotOlder, hcases, hzero, require]
    have hclaimed : claimedHeight pindex cbTx = pindex.nHeight - 1 := by
      rw [claimedHeight_of_le hint (by simp [hzero]), hzero]
      simp
    rw [hfresh]
    simp [checkSignature, hclaimed, hheight, hsig]

theorem NodeRight.verdict_eq (hnode : env.NodeRight node)
    (hversion : 3 ≤ cbTx.nVersion) (hint : pindex.nHeight < 2 ^ 31) (chain : CBlockIndex) :
    (env.checkCbTxBestChainlock cbTx pindex chain node).1 =
      env.verdict cbTx pindex chain node.bestChainLock := by
  unfold checkCbTxBestChainlock
  rw [if_neg (not_lt.mpr hversion), hnode.prevBlockCoinbaseChainlock_eq]
  by_cases hbest : node.bestChainLock.nHeight = pindex.nHeight - 1 ∧
      cbTx.bestCLHeightDiff = 0 ∧ cbTx.bestCLSignature = node.bestChainLock.sig
  · rw [if_pos hbest]
    exact (hnode.verdict_of_shortcut hint chain hbest.1 hbest.2.1 hbest.2.2).symm
  · rw [if_neg hbest, Attempt.lift_bind_fst]
    congr 1
    funext
    split_ifs with hsome
    · rw [Attempt.lift_bind_fst]
      cases env.checkSignature cbTx pindex chain node.bestChainLock with
      | error reject => rfl
      | ok => rfl
    · rfl

variable {pindex : CBlockIndex}

theorem NodeRight.state_cases (hnode : env.NodeRight node) (cbTx : ChainLockCbTx S)
    (hprev : pindex.pprev = some prev) (chain : CBlockIndex) :
    (env.checkCbTxBestChainlock cbTx pindex chain node).2 = node ∨
      3 ≤ cbTx.nVersion ∧ cbTx.bestCLSignature.isSome ∧
        (env.checkCbTxBestChainlock cbTx pindex chain node).2 = node.remember cbTx pindex := by
  have hpos := nHeight_of_pprev hprev
  unfold checkCbTxBestChainlock
  by_cases hversion : cbTx.nVersion < 3
  · rw [if_pos hversion]
    exact .inl rfl
  rw [if_neg hversion]
  by_cases hbest : node.bestChainLock.nHeight = pindex.nHeight - 1 ∧
      cbTx.bestCLHeightDiff = 0 ∧ cbTx.bestCLSignature = node.bestChainLock.sig
  · rw [if_pos hbest]
    refine .inr ⟨not_lt.mp hversion, ?_, rfl⟩
    cases hsig : cbTx.bestCLSignature with
    | some sig => rfl
    | none =>
      have hnone := hnode.best (hbest.2.2.symm.trans hsig)
      omega
  · rw [if_neg hbest]
    cases checkNotOlder cbTx (env.prevBlockCoinbaseChainlock pindex node) with
    | error reject => exact .inl rfl
    | ok =>
      by_cases hsome : cbTx.bestCLSignature.isSome
      · rw [if_pos hsome]
        cases env.checkSignature cbTx pindex chain node.bestChainLock with
        | error reject => exact .inl rfl
        | ok => exact .inr ⟨not_lt.mp hversion, hsome, rfl⟩
      · rw [if_neg hsome]
        exact .inl rfl

theorem nodeRight_of_reach (h : env.NodeReach node) : env.NodeRight node := by
  induction h with
  | start => exact ⟨nofun, fun _ => rfl⟩
  | @check node pindex prev cbTx chain _ hprev hcbTx hv20 ih =>
    rcases ih.state_cases cbTx hprev chain with hsame | ⟨hversion, hsome, hremember⟩
    · rw [hsame]
      exact ih
    · rw [hremember]
      refine ⟨fun hlast => ⟨pindex, rfl, ?_⟩, ih.best⟩
      rw [← hlast]
      exact getNonNullCoinbaseChainlock_of (hv20.trans (decide_eq_true hversion)) hcbTx hsome
  | @update node clsig chain _ _ hvalid ih =>
    exact ⟨ih.cached, fun hnone => absurd hnone (sig_of_verifyChainLock hvalid)⟩
  | reset _ ih => exact ⟨ih.cached, fun _ => rfl⟩

variable (env) in
def Accepted (pindex : CBlockIndex) : Prop :=
  ∃ cbTx node chain, env.NodeReach node ∧ env.coinbase pindex = some cbTx ∧
    3 ≤ cbTx.nVersion ∧ (env.checkCbTxBestChainlock cbTx pindex chain node).1 = .ok ()

variable (env) in
def AncestorsAccepted (pindex : CBlockIndex) : Prop :=
  ∀ {anc prev : CBlockIndex} {height : Nat}, height < pindex.nHeight →
    pindex.getAncestor height = some anc → anc.pprev = some prev →
    env.v20ActiveAt anc = true → env.Accepted anc

theorem Accepted.carries (h : env.Accepted pindex)
    (hint : pindex.nHeight < 2 ^ 31) (hprev : pindex.pprev = some prev)
    (hcarries : env.Carries prev) : env.Carries pindex := by
  obtain ⟨cbTx, node, chain, hreach, hcbTx, hversion, hok⟩ := h
  obtain ⟨last, hlast⟩ := isSome_iff_exists.mp hcarries
  rw [(nodeRight_of_reach hreach).verdict_eq hversion hint] at hok
  unfold verdict at hok
  rw [hprev, hlast] at hok
  obtain ⟨_, hnotOlder, -⟩ := bind_eq_ok_iff.mp hok
  obtain ⟨_, hsome, -⟩ := bind_eq_ok_iff.mp hnotOlder
  unfold Carries
  rw [getNonNullCoinbaseChainlock_of (hcarries.v20 hprev) hcbTx (require_eq_ok_iff.mp hsome)]
  rfl

theorem AncestorsAccepted.carries {height : Nat}
    (h : env.AncestorsAccepted pindex) (hint : pindex.nHeight < 2 ^ 31)
    (hprev : pindex.pprev = some prev) (hlt : height < pindex.nHeight)
    (hanc : pindex.getAncestor height = some anc) (hcarries : env.Carries anc) :
    env.Carries prev := by
  have hprevHeight := nHeight_of_pprev hprev
  -- from the ancestor up, every block carries one
  have hup : ∀ n, height ≤ n → ∀ anc', n < pindex.nHeight →
      pindex.getAncestor n = some anc' → env.Carries anc' := by
    intro n hn
    induction n, hn using Nat.le_induction with
    | base =>
      intro anc' _ hanc'
      rw [hanc] at hanc'
      exact some.inj hanc' ▸ hcarries
    | succ n hn ih =>
      intro next hnlt hnext
      obtain ⟨below, hbelow⟩ := @exists_getAncestor pindex n (by omega)
      have hcarriesBelow := ih below (by omega) hbelow
      have hnextPrev := pprev_of_getAncestor hnext hbelow
      have hnextHeight := nHeight_of_getAncestor hnext
      exact (h hnlt hnext hnextPrev (hcarriesBelow.v20 hnextPrev)).carries (by omega)
        hnextPrev hcarriesBelow
  refine hup prev.nHeight (by omega) prev (by omega) ?_
  rw [getAncestor_pprev hprev le_rfl, getAncestor_self]

/-! ## The verdict -/

theorem getAncestor_of_onTop {height : Int}
    (hchain : ∀ {prev}, pindex.pprev = some prev → chain.getAncestor prev.nHeight = some prev)
    (hanc : pindex.getAncestor height = some anc) :
    chain.getAncestor (anc.nHeight - 8) = anc.getAncestor (anc.nHeight - 8) := by
  have hheight := nHeight_of_getAncestor hanc
  have hle : anc.nHeight ≤ pindex.nHeight := by
    have hsuffix := (getAncestor_eq_some_iff.mp hanc).1.length_le
    rw [length_path, length_path] at hsuffix
    omega
  have hown : pindex.getAncestor (anc.nHeight - 8) = anc.getAncestor (anc.nHeight - 8) :=
    getAncestor_eq_of_le hanc (by omega)
  rw [← hown]
  cases hprev : pindex.pprev with
  | none =>
    have hgenesis : ¬ 0 < pindex.nHeight := by
      intro hpos
      obtain ⟨prev, hsome⟩ := exists_pprev hpos
      rw [hprev] at hsome
      cases hsome
    unfold getAncestor
    rw [if_pos (by simp; omega), if_pos (by simp; omega)]
  | some prev =>
    have hprevHeight := nHeight_of_pprev hprev
    rw [getAncestor_pprev hprev (by omega)]
    exact getAncestor_eq_of_le (hchain hprev) (by omega)

/-- The best chainlock of the node is the one that the payload claims. -/
def Matches (best : ChainLockSig S) (pindex : CBlockIndex) (cbTx : ChainLockCbTx S) : Prop :=
  best.nHeight = claimedHeight pindex cbTx ∧ best.sig = cbTx.bestCLSignature

section Verdict

variable {pindex chain : CBlockIndex} {cbTx : ChainLockCbTx S} {sig : S} {best : ChainLockSig S}

theorem verdict_eq_ok_iff
    (hchain : ∀ {prev}, pindex.pprev = some prev → chain.getAncestor prev.nHeight = some prev)
    (hsig : cbTx.bestCLSignature = some sig) :
    env.verdict cbTx pindex chain best = .ok () ↔ env.NotOlder pindex cbTx.bestCLHeightDiff ∧
        (Matches best pindex cbTx ∨
          ∃ anc, pindex.getAncestor (claimedHeight pindex cbTx) = some anc ∧
            env.Signed anc sig) := by
  have hsome := isSome_of_eq_some hsig
  have hsignature : env.checkSignature cbTx pindex chain best = .ok () ↔ Matches best pindex cbTx ∨
        ∃ anc, pindex.getAncestor (claimedHeight pindex cbTx) = some anc ∧ env.Signed anc sig := by
    unfold checkSignature Matches
    dsimp only
    split_ifs with hmatches
    · exact iff_of_true rfl (.inl hmatches)
    · rw [env.skips.getAncestorBySkips_eq]
      constructor
      · intro h
        obtain ⟨anc, hanc, hverify⟩ := bind_eq_ok_iff.mp h
        have hanc := ofOption_eq_ok_iff.mp hanc
        have hverify := of_decide_eq_true (require_eq_ok_iff.mp hverify)
        rw [← nHeight_of_getAncestor hanc, hsig,
          verifyChainLock_eq_valid_iff (getAncestor_of_onTop hchain hanc)] at hverify
        exact .inr ⟨anc, hanc, hverify⟩
      · rintro (hmatches' | ⟨anc, hanc, hsigned⟩)
        · exact absurd hmatches' hmatches
        · refine bind_eq_ok_iff.mpr ⟨anc, ofOption_eq_ok_iff.mpr hanc,
            require_eq_ok_iff.mpr (decide_eq_true ?_)⟩
          rw [← nHeight_of_getAncestor hanc, hsig,
            verifyChainLock_eq_valid_iff (getAncestor_of_onTop hchain hanc)]
          exact hsigned
  unfold verdict
  rw [if_pos hsome, bind_eq_ok_iff, ← hsignature, ← checkNotOlder_eq_ok_iff hsome]
  exact ⟨fun ⟨_, hnotOlder, h⟩ => ⟨hnotOlder, h⟩, fun ⟨hnotOlder, h⟩ => ⟨(), hnotOlder, h⟩⟩

theorem verdict_eq_null_iff (hsig : cbTx.bestCLSignature = some sig) :
    env.verdict cbTx pindex chain best = .error .nullAncestor ↔
      env.NotOlder pindex cbTx.bestCLHeightDiff ∧ ¬ Matches best pindex cbTx ∧
        pindex.getAncestor (claimedHeight pindex cbTx) = none := by
  have hsome := isSome_of_eq_some hsig
  have hsignature : env.checkSignature cbTx pindex chain best = .error .nullAncestor ↔
      ¬ Matches best pindex cbTx ∧ pindex.getAncestor (claimedHeight pindex cbTx) = none := by
    unfold checkSignature Matches
    generalize claimedHeight pindex cbTx = height
    dsimp only
    split_ifs with hmatches
    · exact iff_of_false nofun fun h => h.1 hmatches
    · rw [env.skips.getAncestorBySkips_eq]
      cases pindex.getAncestor height with
      | none => exact iff_of_true rfl ⟨hmatches, rfl⟩
      | some anc =>
        refine iff_of_false (fun h => ?_) fun h => nomatch h.2
        rw [ofOption, ok_bind] at h
        cases (require_eq_error_iff.mp h).2
  unfold verdict
  rw [if_pos hsome, bind_eq_error_iff, ← hsignature, ← checkNotOlder_eq_ok_iff hsome]
  constructor
  · rintro (hnull | ⟨_, hnotOlder, h⟩)
    · exact absurd hnull (checkNotOlder_ne_null _ _)
    · exact ⟨hnotOlder, h⟩
  · rintro ⟨hnotOlder, h⟩
    exact .inr ⟨(), hnotOlder, h⟩

theorem verdict_of_null (hint : pindex.nHeight < 2 ^ 31)
    (hancestors : env.AncestorsAccepted pindex) (hversion : 3 ≤ cbTx.nVersion)
    (hsig : cbTx.bestCLSignature = none) :
    env.verdict cbTx pindex chain best ≠ .error .nullAncestor ∧
      (env.verdict cbTx pindex chain best = .ok () ↔ env.Allowed pindex cbTx) := by
  unfold verdict Allowed
  rw [hsig]
  cases hlast : env.getNonNullCoinbaseChainlock pindex.pprev with
  | some last =>
    have hreject : checkNotOlder cbTx (some last) = .error .badCbtxNullClsig := by
      unfold checkNotOlder
      rw [hsig]
      rfl
    rw [hreject]
    refine ⟨nofun, iff_of_false nofun ?_⟩
    rintro (hold | ⟨-, hnone⟩)
    · omega
    · cases hprev : pindex.pprev with
      | none =>
        rw [hprev] at hlast
        exact nomatch hlast
      | some prev =>
        have hheight := nHeight_of_pprev hprev
        rw [hprev] at hlast
        refine hnone prev prev.nHeight (by omega) ?_ (isSome_iff_exists.mpr ⟨_, hlast⟩)
        rw [getAncestor_pprev hprev le_rfl, getAncestor_self]
  | none =>
    have hnone : ∀ (anc : CBlockIndex) (height : Nat), height < pindex.nHeight →
        pindex.getAncestor height = some anc → ¬ env.Carries anc := by
      intro anc height hlt hanc hcarries
      obtain ⟨prev, hprev⟩ := @exists_pprev pindex (by omega)
      have hparent := hancestors.carries hint hprev hlt hanc hcarries
      unfold Carries at hparent
      rw [← hprev, hlast] at hparent
      exact nomatch hparent
    have hcldiff : ∀ reject : ChainLockReject, require .badCbtxCldiff
        (decide (cbTx.bestCLHeightDiff = 0)) = .error reject → reject ≠ .nullAncestor := by
      intro reject h
      rw [← (require_eq_error_iff.mp h).2]
      nofun
    refine ⟨fun h => hcldiff _ h rfl, ?_⟩
    show require _ _ = _ ↔ _
    rw [require_eq_ok_iff, decide_eq_true_eq]
    constructor
    · exact fun hzero => .inr ⟨hzero, hnone⟩
    · rintro (hold | ⟨hzero, -⟩)
      · omega
      · exact hzero

end Verdict

variable (env) in
/-- The signature is not one that the node takes on trust although it is not one over
the ancestor, and the claimed height is one of an ancestor.

The largest difference is a case of its own: as a signed number it is `-1`, so the
check looks for a signature over the block itself. -/
def Trustworthy (pindex : CBlockIndex) (cbTx : ChainLockCbTx S) (node : ChainLockNode S) : Prop :=
  ∀ sig, 3 ≤ cbTx.nVersion → cbTx.bestCLSignature = some sig →
    env.NotOlder pindex cbTx.bestCLHeightDiff →
    (Matches node.bestChainLock pindex cbTx → env.AncestorSigned pindex cbTx.bestCLHeightDiff sig) ∧
    (¬ Matches node.bestChainLock pindex cbTx → cbTx.bestCLHeightDiff.toNat < pindex.nHeight ∨
        cbTx.bestCLHeightDiff.toNat = 2 ^ 32 - 1 ∧ ¬ env.Signed pindex sig)

theorem verdict_of_signature {sig : S} {best : ChainLockSig S} (hint : pindex.nHeight < 2 ^ 31)
    (hchain : ∀ {prev}, pindex.pprev = some prev → chain.getAncestor
      prev.nHeight = some prev) (hsig : cbTx.bestCLSignature = some sig)
    (hnotOlder : env.NotOlder pindex cbTx.bestCLHeightDiff) :
    env.verdict cbTx pindex chain best ≠ .error .nullAncestor ∧
        (env.verdict cbTx pindex chain best = .ok () ↔
          env.AncestorSigned pindex cbTx.bestCLHeightDiff sig) ↔
      (Matches best pindex cbTx → env.AncestorSigned pindex cbTx.bestCLHeightDiff sig) ∧
      (¬ Matches best pindex cbTx → cbTx.bestCLHeightDiff.toNat < pindex.nHeight ∨
          cbTx.bestCLHeightDiff.toNat = 2 ^ 32 - 1 ∧ ¬ env.Signed pindex sig) := by
  rw [verdict_eq_ok_iff hchain hsig, Ne, verdict_eq_null_iff hsig]
  by_cases hmatches : Matches best pindex cbTx
  · simp [hnotOlder, hmatches]
  by_cases hlt : cbTx.bestCLHeightDiff.toNat < pindex.nHeight
  · -- the ancestor exists, and the check is the one that is asked for
    have hanc : pindex.getAncestor (claimedHeight pindex cbTx) ≠ none := by
      rw [claimedHeight_of_le hint hlt.le]
      obtain ⟨anc, hanc⟩ := @exists_getAncestor pindex
        (pindex.nHeight - cbTx.bestCLHeightDiff.toNat - 1) (by omega)
      have hcast : ((pindex.nHeight - cbTx.bestCLHeightDiff.toNat - 1 : Nat) : Int) =
          pindex.nHeight - cbTx.bestCLHeightDiff.toNat - 1 := by omega
      rw [← hcast, hanc]
      nofun
    have hsigned : (∃ anc, pindex.getAncestor (claimedHeight pindex cbTx) = some anc ∧
        env.Signed anc sig) ↔ env.AncestorSigned pindex cbTx.bestCLHeightDiff sig := by
      rw [claimedHeight_of_le hint hlt.le]
      rfl
    simp only [hnotOlder, hmatches, hlt, hanc, hsigned]
    simp
  · have hnone : ¬ env.AncestorSigned pindex cbTx.bestCLHeightDiff sig := by
      rintro ⟨anc, hanc, -⟩
      have hheight := nHeight_of_getAncestor hanc
      omega
    by_cases hmax : cbTx.bestCLHeightDiff.toNat = 2 ^ 32 - 1
    · -- the block itself is taken for the ancestor
      have hself : pindex.getAncestor (claimedHeight pindex cbTx) = some pindex := by
        rw [claimedHeight_of_max hint hmax, getAncestor_self]
      simp only [hnotOlder, hmatches, hself, hnone, hlt, false_or]
      simp [hmax]
    · have hnull : pindex.getAncestor (claimedHeight pindex cbTx) = none := by
        unfold getAncestor
        have hout := claimedHeight_of_ge hint (not_lt.mp hlt) hmax
        rw [if_pos (by simp; omega)]
      simp only [hnotOlder, hmatches, hlt, hnull, hmax]
      simp

/-- The check of a block on top of the active chain, whose ancestors were accepted,
is right in every state of the node in which the signature is trustworthy, and in no
other. -/
theorem checkCbTxBestChainlock_right_iff {node : ChainLockNode S}
    (hreach : env.NodeReach node) {pindex chain : CBlockIndex} (hint : pindex.nHeight < 2 ^ 31)
    (hchain : ∀ {prev}, pindex.pprev = some prev → chain.getAncestor prev.nHeight = some prev)
    (hancestors : env.AncestorsAccepted pindex) (cbTx : ChainLockCbTx S) :
    env.Right pindex chain cbTx node ↔ env.Trustworthy pindex cbTx node := by
  have hnode := nodeRight_of_reach hreach
  unfold Right Trustworthy
  by_cases hversion : cbTx.nVersion < 3
  · have hok : (env.checkCbTxBestChainlock cbTx pindex chain node).1 = .ok () := by
      unfold checkCbTxBestChainlock
      rw [if_pos hversion]
    rw [hok]
    refine iff_of_true ⟨nofun, iff_of_true rfl (.inl hversion)⟩ ?_
    intro sig hnew
    omega
  have hversion := not_lt.mp hversion
  rw [hnode.verdict_eq hversion hint]
  cases hsig : cbTx.bestCLSignature with
  | none =>
    exact iff_of_true (verdict_of_null hint hancestors hversion hsig) nofun
  | some sig =>
    have hallowed : env.Allowed pindex cbTx ↔ env.NotOlder pindex cbTx.bestCLHeightDiff ∧
        env.AncestorSigned pindex cbTx.bestCLHeightDiff sig := by
      unfold Allowed
      rw [hsig]
      exact ⟨fun h => h.resolve_left (by omega), .inr⟩
    rw [hallowed]
    by_cases hnotOlder : env.NotOlder pindex cbTx.bestCLHeightDiff
    · rw [and_iff_right hnotOlder, verdict_of_signature hint hchain hsig hnotOlder]
      constructor
      · intro h sig' _ hsig' _
        cases hsig'
        exact h
      · intro h
        exact h sig hversion rfl hnotOlder
    · rw [verdict_eq_ok_iff hchain hsig, Ne, verdict_eq_null_iff hsig]
      refine iff_of_true ⟨fun h => hnotOlder h.1, iff_of_false (fun h => hnotOlder h.1)
        fun h => hnotOlder h.1⟩ fun sig' _ _ h => absurd h hnotOlder

/-! ## A fork -/

/-- V20 starts at height 10, and a signature over a hash is that hash. -/
def forkEnv : ChainLockEnv Uint256 where
  v20Height := 10
  skips := .unset
  coinbase _ := none
  coinbase_le h := nomatch h
  verifyAt _ _ hash sig := some (decide (hash = sig))

/-- Two blocks of height 9 on one parent. The first one has a chainlock. -/
def lockedBlock : CBlockIndex := ⟨100, [8, 7, 6, 5, 4, 3, 2, 1, 0]⟩

def otherBlock : CBlockIndex := ⟨200, [8, 7, 6, 5, 4, 3, 2, 1, 0]⟩

def lockedCbTx : ChainLockCbTx Uint256 := ⟨3, 0, some 100⟩

def lockedNode : ChainLockNode Uint256 :=
  { ChainLockNode.start with bestChainLock := ⟨9, 100, some 100⟩ }

theorem reach_lockedNode : forkEnv.NodeReach lockedNode :=
  .update lockedBlock .start (by decide) (by decide +kernel)

/-- The locked block is under V20 and its coinbase has the chainlock of its parent. -/
def carryingEnv : ChainLockEnv Uint256 where
  v20Height := 9
  skips := .unset
  coinbase pindex := if pindex = lockedBlock then some ⟨3, 0, some 8⟩ else none
  coinbase_le h := by
    split_ifs at h
    cases h
    decide
  verifyAt _ _ hash sig := some (decide (hash = sig))

theorem reach_carrying : carryingEnv.NodeReach lockedNode :=
  .update lockedBlock .start (by decide) (by decide +kernel)

theorem accepted_lockedBlock : carryingEnv.Accepted lockedBlock :=
  ⟨⟨3, 0, some 8⟩, .start, ⟨8, [7, 6, 5, 4, 3, 2, 1, 0]⟩, .start, by decide, by decide,
    by decide +kernel⟩

theorem ancestorsAccepted_carrying : carryingEnv.AncestorsAccepted (lockedBlock.child 101) := by
  intro anc prev height hlt hanc _ hv20
  have hheight := nHeight_of_getAncestor hanc
  have hactive : 9 ≤ anc.nHeight := of_decide_eq_true hv20
  have hlt' : height < 10 := hlt
  obtain rfl : height = 9 := by omega
  have hself : (lockedBlock.child 101).getAncestor (9 : Nat) = some lockedBlock := by
    decide +kernel
  rw [hself] at hanc
  cases hanc
  exact accepted_lockedBlock

/-- The chainlock of the locked block, in the coinbase of the block after it. Its own
coinbase has an older one. -/
theorem checkCbTxBestChainlock_right_locked :
    carryingEnv.Carries lockedBlock ∧
    carryingEnv.Right (lockedBlock.child 101) lockedBlock lockedCbTx lockedNode := by
  have hcarries : (carryingEnv.getNonNullCoinbaseChainlock (some lockedBlock)).isSome = true := by
    decide +kernel
  refine ⟨hcarries, (checkCbTxBestChainlock_right_iff reach_carrying (by decide) ?_
    ancestorsAccepted_carrying lockedCbTx).mpr ?_⟩
  · intro prev hprev
    cases hprev
    exact getAncestor_self lockedBlock
  · intro sig _ hsig _
    cases hsig
    refine ⟨fun _ => ⟨lockedBlock, by decide +kernel, ?_⟩, fun h => absurd ?_ h⟩
    · exact ⟨⟨1, [0]⟩, by decide +kernel, by decide +kernel⟩
    · exact ⟨by decide +kernel, rfl⟩

/-- On top of the other block the same payload is accepted although its signature is
not one over an ancestor. A node without a chainlock reads a null pointer when the
difference reaches below the genesis block. -/
theorem chainlock_of_other_branch_accepted :
    forkEnv.NodeReach lockedNode ∧
    (forkEnv.checkCbTxBestChainlock lockedCbTx (otherBlock.child 201) otherBlock
        lockedNode).1 = .ok () ∧ ¬ forkEnv.Allowed (otherBlock.child 201) lockedCbTx ∧
      (forkEnv.checkCbTxBestChainlock ⟨3, 10, some 100⟩ (otherBlock.child 201) otherBlock
        .start).1 = .error .nullAncestor := by
  refine ⟨reach_lockedNode, by decide +kernel, ?_, by decide +kernel⟩
  rintro (hold | ⟨-, anc, hanc, start, -, hverify⟩)
  · exact absurd hold (by decide)
  · have hother : (otherBlock.child 201).getAncestor
        ((otherBlock.child 201).nHeight - (lockedCbTx.bestCLHeightDiff.toNat : Int) - 1) =
          some otherBlock := by decide +kernel
    cases hanc
    have hhash : decide (otherBlock.hash = 100) = true := some.inj hverify
    exact absurd hhash (by decide)

end ChainLockEnv

end KorshCore

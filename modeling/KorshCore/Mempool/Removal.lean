import KorshCore.Mempool.Pool

/-!
# What leaves the memory pool

Everything that makes the pool smaller is made of `removeUnchecked` and of
changes of the links between entries. A property of pools that both keep
(`Hereditary`) is kept by `removeRecursive`, `removeForReorg` and the removal
of conflicts.

* What is gone. `gone_of_removeRecursive` says that the transaction itself has left.
* The loop over references. `turnsLeft` gets smaller with every turn, so
  `removeAllRefs_ne_endless`: the turns that the model gives the loop are enough.
-/

namespace KorshCore

open Except SecondaryIndex List

namespace CTxMemPool

variable {env : MempoolEnv} {P : CTxMemPool → Prop} {pool pool' : CTxMemPool}

structure Hereditary (env : MempoolEnv) (P : CTxMemPool → Prop) : Prop where
  unchecked : ∀ {hash : Uint256} {pool pool' : CTxMemPool}, P pool →
    removeUnchecked env hash pool = .ok pool' → P pool'
  links : ∀ {pool : CTxMemPool} (links : Uint256 → TxLinks), P pool → P { pool with links := links }

namespace Hereditary

variable {tx : CTransaction} (h : Hereditary env P) (hpool : P pool)
include h hpool

theorem removeStaged {stage : List Uint256} : (removeStaged env stage pool).Ensures P :=
  .foldlM (fun _ _ _ hturn _ => h.unchecked hturn) (h.links _ hpool)

theorem removeRecursive {origTx : CTransaction} : (removeRecursive env origTx pool).Ensures P :=
  .bind fun _ _ => h.removeStaged hpool

theorem removeForReorg {isInvalid hasValidLocks : CTxMemPoolEntry → Bool} :
    (removeForReorg env isInvalid hasValidLocks pool).Ensures P :=
  .bind fun _ hstaged => .bind fun _ _ => .ok (h.removeStaged hpool hstaged)

theorem removeExpired {nBlockHeight : Int} :
    (removeExpiredAssetUnlock env nBlockHeight pool).Ensures P :=
  .bind fun _ _ => .foldlM (fun _ _ _ hturn => h.removeRecursive hturn) hpool

theorem removeMined : (removeMined env tx pool).Ensures P := by
  unfold CTxMemPool.removeMined
  split_ifs
  · exact h.removeStaged hpool
  · exact .ok hpool

theorem removeNullifierConflict {spend : SpendDescription} :
    (removeNullifierConflict env tx pool spend).Ensures P := by
  unfold CTxMemPool.removeNullifierConflict
  split
  · exact .ok hpool
  split_ifs
  · exact .ok hpool
  · exact h.removeRecursive hpool

theorem removeNamed {conflictHash : Option Uint256} :
    (removeNamed env tx conflictHash pool).Ensures P := by
  unfold CTxMemPool.removeNamed
  split
  · exact .ok hpool
  split_ifs
  · exact .ok hpool
  split
  · exact .ok hpool
  · exact h.removeRecursive hpool

theorem removeAddressConflicts {netInfo : NetInfo} :
    (removeAddressConflicts env tx netInfo pool).Ensures P :=
  .foldlM (fun _ _ _ hturn => h.removeNamed hturn) hpool

theorem removeKeyChanged {proTxHash newKeyHash : Uint256} :
    (removeProTxKeyChangedConflicts env proTxHash newKeyHash pool).Ensures P :=
  .foldlM (fun _ _ _ hturn => .bind fun _ _ => h.removeRecursive hturn) hpool

theorem removeTypeConflicts : (removeProTxTypeConflicts env tx pool).Ensures P := by
  unfold removeProTxTypeConflicts
  split_ifs
  · split
    · exact .ok hpool
    · refine .bind fun pool₁ haddresses => .bind fun pool₂ howner => .bind fun pool₃ hoperator => ?_
      have h₁ := h.removeAddressConflicts hpool haddresses
      exact h.removeNamed (h.removeNamed (h.removeNamed h₁ howner) hoperator)
  · split
    · exact .ok hpool
    · exact h.removeAddressConflicts hpool
  · split
    · exact .ok hpool
    · exact .bind fun _ hoperator => h.removeKeyChanged (h.removeNamed hpool hoperator)
  · split
    · exact .ok hpool
    · exact h.removeKeyChanged hpool
  · exact .ok hpool

end Hereditary

/-! ## What is gone -/

def InPool (env : MempoolEnv) (hash : Uint256) (pool : CTxMemPool) : Prop :=
  ∃ entry ∈ pool.mapTx, env.getHash entry.tx = hash

variable {hash : Uint256}

theorem inPool_iff_contains : InPool env hash pool ↔ pool.contains env hash = true := by
  simp [InPool, contains, findTx]

theorem InPool.mono (h : InPool env hash pool') (hsub : pool'.mapTx ⊆ pool.mapTx) :
    InPool env hash pool := by
  obtain ⟨entry, hentry, rfl⟩ := h
  exact ⟨entry, hsub hentry, rfl⟩

theorem removeUnchecked_spec : (removeUnchecked env hash pool).Ensures fun pool' =>
    ∃ entry ∈ pool.mapTx, env.getHash entry.tx = hash ∧
      pool'.mapTx = pool.mapTx.filter (fun entry => env.getHash entry.tx ≠ hash) ∧
      pool'.mapSaplingNullifiers = eraseKeys pool.mapSaplingNullifiers
        (entry.tx.sapData.vShieldedSpend.map SpendDescription.nullifier) := by
  refine .bind fun entry hentry => .bind fun pool₁ hproTx => .ok ?_
  have hfind := ofOption_eq_ok_iff.mp hentry
  refine ⟨entry, mem_of_find?_eq_some hfind, by simpa using find?_some hfind, ?_⟩
  have hindexes : ∀ pool, (removeSpentIndex hash (removeAddressIndex hash pool)).mapTx
      = pool.mapTx ∧ (removeSpentIndex hash (removeAddressIndex hash pool)).mapSaplingNullifiers
      = pool.mapSaplingNullifiers := by
    intro pool
    unfold removeSpentIndex removeAddressIndex
    split <;> split <;> exact ⟨rfl, rfl⟩
  rw [(hindexes _).1, (hindexes _).2]
  unfold whenConnected at hproTx
  split_ifs at hproTx
  · obtain ⟨erased, _, hproTx⟩ := bind_eq_ok_iff.mp hproTx
    rw [← Except.ok.inj hproTx]
    exact ⟨rfl, rfl⟩
  · rw [← Except.ok.inj hproTx]
    exact ⟨rfl, rfl⟩

theorem mapTx_removeUnchecked : (removeUnchecked env hash pool).Ensures fun pool' =>
    pool'.mapTx = pool.mapTx.filter fun entry => env.getHash entry.tx ≠ hash := by
  intro pool' hremove
  obtain ⟨_, _, _, hmapTx, _⟩ := removeUnchecked_spec hremove
  exact hmapTx

theorem hereditary_entries (env : MempoolEnv) (Q : CTxMemPoolEntry → Prop) :
    Hereditary env fun pool => ∀ entry ∈ pool.mapTx, Q entry where
  unchecked hpool hremove := by
    rw [mapTx_removeUnchecked hremove]
    exact fun entry hentry => hpool entry (filter_sublist.subset hentry)
  links _ hpool := hpool

theorem hereditary_subset (env : MempoolEnv) (entries : List CTxMemPoolEntry) :
    Hereditary env fun pool => pool.mapTx ⊆ entries :=
  hereditary_entries env (· ∈ entries)

theorem hereditary_gone (env : MempoolEnv) (hash : Uint256) :
    Hereditary env fun pool => ¬ InPool env hash pool where
  unchecked hpool hremove hin := hpool (hin.mono
    ((hereditary_subset env _).unchecked (List.Subset.refl _) hremove))
  links _ hpool := hpool

theorem gone_of_removeUnchecked :
    (removeUnchecked env hash pool).Ensures fun pool' => ¬ InPool env hash pool' := by
  rintro pool' hremove ⟨entry, hentry, heq⟩
  rw [mapTx_removeUnchecked hremove] at hentry
  simpa [heq] using (mem_filter.mp hentry).2

theorem gone_of_removeStaged {stage : List Uint256} :
    (removeStaged env stage pool).Ensures fun pool' => ∀ hash ∈ stage, ¬ InPool env hash pool' := by
  refine fun pool' hremove => (Ensures.foldlM_each (P := fun _ => True)
    (R := fun hash pool => ¬ InPool env hash pool) trivial (fun hash pool _ pool' hstep => ?_)
    hremove).2
  exact ⟨trivial, gone_of_removeUnchecked hstep,
    fun _ hgone => (hereditary_gone env _).unchecked hgone hstep⟩

theorem subset_descend (links : Uint256 → TxLinks) : ∀ (turns : Nat)
    (stage found : List Uint256), found ⊆ descend links turns stage found
  | 0, _, _ => fun _ hmem => hmem
  | _ + 1, [], _ => fun _ hmem => hmem
  | turns + 1, _ :: _, _ => fun _ hmem =>
    subset_descend links turns _ _ (mem_append_left _ hmem)

theorem mem_calculateDescendants (hin : InPool env hash pool) :
    hash ∈ pool.calculateDescendants [] hash := by
  obtain ⟨entry, hentry, -⟩ := hin
  obtain ⟨turns, hturns⟩ : ∃ turns, pool.mapTx.length = turns + 1 :=
    Nat.exists_eq_succ_of_ne_zero (length_pos_of_mem hentry).ne'
  unfold calculateDescendants
  rw [hturns]
  show hash ∈ descend pool.links turns _ [hash]
  exact subset_descend _ _ _ _ (mem_singleton_self hash)

theorem gone_of_removeRecursive {origTx : CTransaction}
    (hremove : removeRecursive env origTx pool = .ok pool') :
    ¬ InPool env (env.getHash origTx) pool' := by
  intro hin
  have hsub := (hereditary_subset env pool.mapTx).removeRecursive (List.Subset.refl _) hremove
  have hbefore := hin.mono hsub
  obtain ⟨roots, hroots, hremove⟩ := bind_eq_ok_iff.mp hremove
  unfold removalRoots at hroots
  rw [if_pos (inPool_iff_contains.mp hbefore)] at hroots
  cases hroots
  exact gone_of_removeStaged hremove _ (mem_calculateDescendants hbefore) hin

/-! ## The loop over references ends -/

theorem refs_removeUnchecked : (removeUnchecked env hash pool).Ensures fun pool' =>
    pool'.mapProTxRefs <+ pool.mapProTxRefs := by
  intro pool' hremove
  obtain ⟨entry, -, hremove⟩ := bind_eq_ok_iff.mp hremove
  obtain ⟨pool₁, hproTx, hremove⟩ := bind_eq_ok_iff.mp hremove
  have hindexes : ∀ pool, (removeSpentIndex hash (removeAddressIndex hash pool)).mapProTxRefs
      = pool.mapProTxRefs := by
    intro pool
    unfold removeSpentIndex removeAddressIndex
    split <;> split <;> rfl
  rw [← Except.ok.inj hremove, hindexes]
  unfold whenConnected at hproTx
  split_ifs at hproTx
  · obtain ⟨erased, -, hproTx⟩ := bind_eq_ok_iff.mp hproTx
    rw [← Except.ok.inj hproTx]
    exact filter_sublist
  · rw [← Except.ok.inj hproTx]

theorem hereditary_refs (env : MempoolEnv) (refs : List (Uint256 × Uint256)) :
    Hereditary env fun pool => pool.mapProTxRefs <+ refs where
  unchecked hpool hremove := (refs_removeUnchecked hremove).trans hpool
  links _ hpool := hpool

theorem proTxErased_ne_endless (tx : CTransaction) : proTxErased env tx ≠ .error .endless := by
  unfold proTxErased
  split_ifs <;> simp only [ne_eq, bind_eq_error_iff, ofOption_eq_error_iff] <;> simp

theorem removeUnchecked_ne_endless (hash : Uint256) (pool : CTxMemPool) :
    removeUnchecked env hash pool ≠ .error .endless := by
  intro hremove
  rcases bind_eq_error_iff.mp hremove with hfind | ⟨entry, -, hremove⟩
  · simp [ofOption_eq_error_iff] at hfind
  rcases bind_eq_error_iff.mp hremove with hproTx | ⟨_, -, hremove⟩
  · unfold whenConnected at hproTx
    split_ifs at hproTx
    rcases bind_eq_error_iff.mp hproTx with herased | ⟨_, -, hproTx⟩
    · exact proTxErased_ne_endless _ herased
    · cases hproTx
  · cases hremove

theorem removeRecursive_ne_endless (origTx : CTransaction) (pool : CTxMemPool) :
    removeRecursive env origTx pool ≠ .error .endless := by
  intro hremove
  rcases bind_eq_error_iff.mp hremove with hroots | ⟨roots, -, hremove⟩
  · unfold removalRoots at hroots
    dsimp only at hroots
    split_ifs at hroots
    rcases bind_eq_error_iff.mp hroots with hfound | ⟨_, -, hroots⟩
    · exact absurd (require_eq_error_iff.mp hfound).2 (by decide)
    · cases hroots
  · exact foldlM_ne_error (fun pool hash => removeUnchecked_ne_endless hash pool) hremove

/-- The turns that the references still take: one for each, and one more for each
whose transaction is in the pool. -/
def turnsLeft (env : MempoolEnv) (pool : CTxMemPool) : Nat :=
  pool.mapProTxRefs.length + pool.mapProTxRefs.countP fun ref => pool.contains env ref.2

theorem turnsLeft_of_removeRecursive {ref : Uint256 × Uint256} {entry : CTxMemPoolEntry}
    (href : ref ∈ pool.mapProTxRefs) (hfind : pool.findTx env ref.2 = some entry)
    (hremove : removeRecursive env entry.tx pool = .ok pool') :
    turnsLeft env pool' < turnsLeft env pool := by
  have hrefs := (hereditary_refs env pool.mapProTxRefs).removeRecursive (Sublist.refl _) hremove
  have hsub := (hereditary_subset env pool.mapTx).removeRecursive (List.Subset.refl _) hremove
  have hhash : env.getHash entry.tx = ref.2 := by simpa using find?_some hfind
  have hin : pool.contains env ref.2 = true := by
    rw [contains, hfind]
    rfl
  have hgone : pool'.contains env ref.2 = false := by
    rw [← hhash, ← Bool.not_eq_true, ← inPool_iff_contains]
    exact gone_of_removeRecursive hremove
  -- the transaction of `ref` is not in the pool any more, and none came in
  have hfewer : (pool.mapProTxRefs.countP fun ref => pool'.contains env ref.2)
      < pool.mapProTxRefs.countP fun ref => pool.contains env ref.2 := by
    have hrest : ((pool.mapProTxRefs.erase ref).countP fun ref => pool'.contains env ref.2)
        ≤ (pool.mapProTxRefs.erase ref).countP fun ref => pool.contains env ref.2 :=
      countP_mono_left fun other _ hother =>
        inPool_iff_contains.mp ((inPool_iff_contains.mpr hother).mono hsub)
    rw [(perm_cons_erase href).countP_eq, (perm_cons_erase href).countP_eq, countP_cons,
      countP_cons, if_pos hin, if_neg (by simp [hgone])]
    omega
  have hlength := hrefs.length_le
  have hcount := hrefs.countP_le (p := fun ref => pool'.contains env ref.2)
  unfold turnsLeft
  omega

theorem turnsLeft_of_erase (env : MempoolEnv) {ref : Uint256 × Uint256}
    (href : ref ∈ pool.mapProTxRefs) :
    turnsLeft env { pool with mapProTxRefs := pool.mapProTxRefs.erase ref }
      < turnsLeft env pool := by
  have hlength := length_erase_of_mem href
  have hpos := length_pos_of_mem href
  have hcount := (erase_sublist (a := ref) (l := pool.mapProTxRefs)).countP_le
    (p := fun ref => pool.contains env ref.2)
  show (pool.mapProTxRefs.erase ref).length
    + (pool.mapProTxRefs.erase ref).countP (fun ref => pool.contains env ref.2) < turnsLeft env pool
  unfold turnsLeft
  omega

/-- By induction on the turns: each one takes a turn off those that are left. -/
theorem removeRefs_ne_endless (proTxHash : Uint256) : ∀ {turns : Nat} {pool : CTxMemPool},
    turnsLeft env pool < turns → removeRefs env proTxHash turns pool ≠ .error .endless
  | 0, _, hturns => absurd hturns (Nat.not_lt_zero _)
  | turns + 1, pool, hturns => by
    intro hremove
    rw [removeRefs] at hremove
    cases hfind : pool.mapProTxRefs.find? fun ref => ref.1 = proTxHash with
    | none =>
      rw [hfind] at hremove
      cases hremove
    | some ref =>
      have href := mem_of_find?_eq_some hfind
      rw [hfind] at hremove
      dsimp only at hremove
      cases htx : pool.findTx env ref.2 with
      | some entry =>
        rw [htx] at hremove
        rcases bind_eq_error_iff.mp hremove with hfirst | ⟨pool₁, hfirst, hrest⟩
        · exact removeRecursive_ne_endless _ _ hfirst
        · have hless := turnsLeft_of_removeRecursive href htx hfirst
          exact removeRefs_ne_endless proTxHash (by omega) hrest
      | none =>
        rw [htx] at hremove
        have hless := turnsLeft_of_erase env href
        exact removeRefs_ne_endless proTxHash (by omega) hremove

theorem removeAllRefs_ne_endless (proTxHash : Uint256) (pool : CTxMemPool) :
    removeAllRefs env proTxHash pool ≠ .error .endless := by
  refine removeRefs_ne_endless proTxHash ?_
  have hcount : (pool.mapProTxRefs.countP fun ref => pool.contains env ref.2)
      ≤ pool.mapProTxRefs.length := countP_le_length
  unfold turnsLeft
  omega

end CTxMemPool

end KorshCore

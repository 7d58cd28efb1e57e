import KorshCore.Wallet.SaplingWallet

/-!
# Rebuilding the witnesses again

A rebuild writes only what `ClearWitnesses` throws away, apart from the spends:
they are added to a multimap that is not cleared.
-/

namespace KorshCore

open Except List

variable {K F N : Type} {env : SaplingEnv K F N} {chain : WalletChain}
  {notes notes' : List (WalletNote K)}

/-- Notes that differ only in what `ClearWitnesses` throws away. -/
def SameNotes (notes notes' : List (WalletNote K)) : Prop :=
  notes'.map (fun note => note.set note.nd.cleared) = notes.map fun note => note.set note.nd.cleared

theorem map_of_mapM {α β ε : Type} {f : α → Except ε α} {g : α → β}
    (hf : ∀ {x y}, f x = .ok y → g y = g x) :
    ∀ {xs ys : List α}, xs.mapM f = .ok ys → ys.map g = xs.map g
  | [], ys, h => by
    cases h
    rfl
  | x :: xs, ys, h => by
    simp only [mapM_cons, bind_eq_ok_iff] at h
    obtain ⟨y, hy, rest, hrest, h⟩ := h
    cases h
    rw [map_cons, map_cons, hf hy, map_of_mapM hf hrest]

theorem cleared_of_appendCommitment {H : MerkleHash} {cmu : Uint256}
    {nd nd' : SaplingNoteData K} (h : nd.appendCommitment H cmu = .ok nd') :
    nd'.cleared = nd.cleared := by
  unfold SaplingNoteData.appendCommitment at h
  split at h
  · cases h
    rfl
  · split_ifs at h
    · obtain ⟨witness, _, h⟩ := bind_eq_ok_iff.mp h
      cases h
      rfl
    · cases h
      rfl

namespace SaplingEnv

theorem sameNotes_of_replayOutput {height : Nat} {txid : Uint256}
    {output : OutputDescription × Nat} {tree tree' : IncrementalMerkleTree}
    (h : env.replayOutput height txid (tree, notes) output = .ok (tree', notes')) :
    SameNotes notes notes' := by
  obtain ⟨appended, happend, _, _, h⟩ := bind₂_eq_ok_iff.mp h
  cases h
  unfold SameNotes
  rw [map_map]
  refine Eq.trans (map_congr_left fun note _ => ?_) (map_of_mapM ?_ happend)
  · dsimp only [Function.comp]
    split_ifs <;> rfl
  · intro note note' hnote
    cases hnd : note.nd.appendCommitment env.merkle output.1.cmu with
    | error e =>
      rw [hnd] at hnote
      cases hnote
    | ok nd =>
      rw [hnd] at hnote
      cases hnote
      show note.set nd.cleared = note.set note.nd.cleared
      rw [cleared_of_appendCommitment hnd]

theorem replayTx_spends {height : Nat} {st st' : Replay K} {tx : CTransaction}
    (h : env.replayTx height st tx = .ok st') : SameNotes st.notes st'.notes ∧
      ∀ spends, env.replayTx height { st with saplingSpends := spends } tx
        = .ok { st' with saplingSpends := spends ++ env.spendsOf tx } := by
  unfold replayTx at h ⊢
  split_ifs at h ⊢ with hpayload
  · obtain ⟨⟨tree, notes⟩, hloop, h⟩ := bind_eq_ok_iff.mp h
    cases h
    refine ⟨?_, fun spends => ?_⟩
    · refine foldlM_preserves (P := fun x : IncrementalMerkleTree × List (WalletNote K) =>
        SameNotes st.notes x.2) (fun _ _ _ _ hkept hturn => ?_) ?_ hloop
      · exact (sameNotes_of_replayOutput hturn).trans hkept
      · rfl
    · rw [hloop, ok_bind]
  · cases h
    refine ⟨rfl, fun spends => ?_⟩
    rw [spendsOf, if_neg hpayload, append_nil]

theorem foldlM_replayTx_spends {height : Nat} : ∀ {txs : List CTransaction}
    {st st' : Replay K}, txs.foldlM (env.replayTx height) st = .ok st' →
    SameNotes st.notes st'.notes ∧
      ∀ spends, txs.foldlM (env.replayTx height) { st with saplingSpends := spends }
        = .ok { st' with saplingSpends := spends ++ txs.flatMap env.spendsOf }
  | [], st, st', h => by
    cases h
    refine ⟨rfl, fun spends => ?_⟩
    rw [flatMap_nil, append_nil]
    rfl
  | tx :: txs, st, st', h => by
    obtain ⟨st₁, h₁, h⟩ := bind_eq_ok_iff.mp h
    obtain ⟨hsame₁, hspends₁⟩ := replayTx_spends h₁
    obtain ⟨hsame, hspends⟩ := foldlM_replayTx_spends h
    refine ⟨hsame.trans hsame₁, fun spends => ?_⟩
    rw [foldlM_cons, hspends₁, ok_bind, hspends, flatMap_cons, append_assoc]

def readSpends (env : SaplingEnv K F N) (chain : WalletChain) (heights : List Nat) :
    List (Uint256 × Uint256) :=
  (chain.readTxs heights).flatMap env.spendsOf

theorem replayBlocks_spends : ∀ {heights : List Nat} {st st' : Replay K} {done : Bool},
    env.replayBlocks chain heights st = .ok (done, st') → SameNotes st.notes st'.notes ∧
      ∀ spends, env.replayBlocks chain heights { st with saplingSpends := spends }
        = .ok (done, { st' with
            saplingSpends := spends ++ env.readSpends chain heights })
  | [], st, st', done, h => by
    cases h
    refine ⟨rfl, fun spends => ?_⟩
    rw [readSpends, WalletChain.readTxs, flatMap_nil, append_nil]
    rfl
  | height :: heights, st, st', done, h => by
    unfold replayBlocks at h ⊢
    unfold readSpends WalletChain.readTxs
    cases hblock : chain.findBlock height with
    | none =>
      rw [hblock] at h
      cases h
      refine ⟨rfl, fun spends => ?_⟩
      rw [flatMap_nil, append_nil]
    | some block =>
      rw [hblock] at h
      obtain ⟨st₁, h₁, h⟩ := bind_eq_ok_iff.mp h
      obtain ⟨hsame₁, hspends₁⟩ := foldlM_replayTx_spends h₁
      obtain ⟨hsame, hspends⟩ := replayBlocks_spends h
      refine ⟨hsame.trans hsame₁, fun spends => ?_⟩
      dsimp only
      rw [hspends₁, ok_bind, hspends, append_assoc, flatMap_append, readSpends]

end SaplingEnv

variable {w w₁ : SaplingWallet K}

theorem SameNotes.hasSaplingNotes {w' : SaplingWallet K}
    (h : SameNotes w.notes w'.notes) : w'.hasSaplingNotes = w.hasSaplingNotes := by
  have hany : ∀ notes : List (WalletNote K), notes.any (·.nd.isMyNote)
      = (notes.map fun note => note.set note.nd.cleared).any (·.nd.isMyNote) := by
    intro notes
    rw [any_map]
    rfl
  unfold SaplingWallet.hasSaplingNotes
  rw [hany, show map _ _ = _ from h, ← hany]

namespace SaplingWallet

theorem deriveNullifiers_clearWitnesses (w : SaplingWallet K) :
    w.clearWitnesses.deriveNullifiers env = w.clearWitnesses := by
  have hnone : ∀ note ∈ w.clearWitnesses.notes, env.nullifierOf w.clearWitnesses note = none := by
    intro note hnote
    obtain ⟨note, _, rfl⟩ := mem_map.mp hnote
    rfl
  have hknown : w.clearWitnesses.notes.filterMap (fun note =>
      (env.nullifierOf w.clearWitnesses note).map (·, note.op)) = [] :=
    filterMap_eq_nil_iff.mpr fun note hnote => by rw [hnone note hnote]; rfl
  have hnotes : w.clearWitnesses.notes.map (fun note => note.set { note.nd with
      nullifier := (env.nullifierOf w.clearWitnesses note).or note.nd.nullifier })
      = w.clearWitnesses.notes := by
    refine (map_congr_left fun note hnote => ?_).trans (map_id _)
    rw [hnone note hnote]
    rfl
  unfold deriveNullifiers
  rw [hknown, hnotes]
  rfl

def replay (env : SaplingEnv K F N) (chain : WalletChain) (w : SaplingWallet K) :
    Except TreeError (Bool × Replay K) :=
  env.replayBlocks chain (replayHeights env chain) ⟨.empty, w.clearWitnesses.notes, w.saplingSpends⟩

def replayed (env : SaplingEnv K F N) (w : SaplingWallet K) (done : Bool)
    (st : Replay K) : SaplingWallet K :=
  let w := { w.clearWitnesses with notes := st.notes, saplingSpends := st.saplingSpends }
  if done then w.deriveNullifiers env else w

theorem rebuildWitnesses_eq (hnotes : w.hasSaplingNotes = true) : w.rebuildWitnesses env chain
      = (w.replay env chain).map fun x => (x.1, replayed env w x.1 x.2) := by
  have hempty : replayHeights env chain = [] → .ok (true, w.clearWitnesses)
      = (w.replay env chain).map fun x => (x.1, replayed env w x.1 x.2) := by
    intro hheights
    rw [replay, hheights]
    show _ = Except.ok (true, w.clearWitnesses.deriveNullifiers env)
    rw [deriveNullifiers_clearWitnesses]
  unfold rebuildWitnesses
  rw [hnotes, if_neg (by decide)]
  cases hheight : chain.height with
  | none => exact hempty (by rw [replayHeights, hheight])
  | some tip =>
    dsimp only
    split_ifs with hactive
    · refine hempty ?_
      rw [replayHeights, hheight]
      dsimp only
      split_ifs
      · rfl
      · rw [range'_eq_nil_iff]
        omega
    · show (w.replay env chain >>= _) = _
      cases w.replay env chain <;> rfl

theorem sameNotes_replayed {done : Bool} {st : Replay K}
    (hreplay : w.replay env chain = .ok (done, st)) :
    SameNotes w.notes (replayed env w done st).notes := by
  have hsame : SameNotes w.notes st.notes := by
    refine (SaplingEnv.replayBlocks_spends hreplay).1.trans ?_
    simp only [clearWitnesses, map_map]
    rfl
  unfold replayed
  dsimp only
  split_ifs
  · refine Eq.trans ?_ hsame
    simp only [deriveNullifiers, map_map]
    rfl
  · exact hsame

theorem rebuildWitnesses_again (hnotes : w.hasSaplingNotes = true)
    (h : w.rebuildWitnesses env chain = .ok (true, w₁)) :
    w₁.rebuildWitnesses env chain = .ok (true, { w₁ with
      saplingSpends := w₁.saplingSpends ++ env.readSpends chain (replayHeights env chain) }) := by
  rw [rebuildWitnesses_eq hnotes] at h
  cases hreplay : w.replay env chain with
  | error e =>
    rw [hreplay] at h
    cases h
  | ok x =>
    obtain ⟨done, st⟩ := x
    rw [hreplay] at h
    cases h
    have hsame := sameNotes_replayed hreplay
    have hagain := (SaplingEnv.replayBlocks_spends hreplay).2 (replayed env w true st).saplingSpends
    rw [show w.clearWitnesses.notes = (replayed env w true st).clearWitnesses.notes from
      hsame.symm] at hagain
    rw [rebuildWitnesses_eq (hsame.hasSaplingNotes.trans hnotes),
      show replay env chain _ = _ from hagain]
    rfl

/-- After a rebuild that read every block, another one changes nothing just if
the replayed blocks reveal no nullifier, or the wallet has no notes. -/
theorem rebuildWitnesses_twice_iff (h : w.rebuildWitnesses env chain = .ok (true, w₁)) :
    w₁.rebuildWitnesses env chain = .ok (true, w₁) ↔ (w.hasSaplingNotes = true →
        env.readSpends chain (replayHeights env chain) = []) := by
  cases hnotes : w.hasSaplingNotes with
  | false =>
    rw [rebuildWitnesses, hnotes] at h
    cases h
    simp [rebuildWitnesses, hnotes]
  | true =>
    rw [rebuildWitnesses_again hnotes h]
    constructor
    · intro heq _
      have hspends := congrArg SaplingWallet.saplingSpends (Prod.mk.inj (Except.ok.inj heq)).2
      exact append_right_eq_self.mp hspends
    · intro hnone
      rw [hnone rfl, append_nil]

/-! ## A wallet with one note -/

def sampleSapling : SaplingEnv Unit Unit Unit where
  getHash tx := BitVec.ofNat 256 tx.nLockTime
  merkle := ⟨fun _ _ _ => 0, fun _ => 0⟩
  nKSHShieldHeight := 5
  decrypt _ _ := some ()
  fullViewingKey _ := some ()
  noteNullifier _ _ position := some (position.setWidth 256 + 9)

def shieldedTx (id : Nat) (nullifiers cmus : List Uint256) : CTransaction :=
  ⟨[], [], 4, 0, id, ⟨0, nullifiers.map fun nf => ⟨0, 0, nf, 0, [], []⟩,
    cmus.map fun cmu => ⟨0, cmu, 0, [], [], []⟩, []⟩, []⟩

def shieldedChain (txs : List CTransaction) : WalletChain where
  height := some (4 + txs.length)
  findBlock height := (txs[height - 5]?).map fun tx => ⟨0, [tx]⟩

def oneNote : SaplingWallet Unit where
  mapWallet txid := if txid = 1 then some (shieldedTx 1 [] [7])
    else if txid = 2 then some (shieldedTx 2 [9] []) else none
  notes := [⟨1, ⟨1, 0⟩, ⟨[], some (), -1, none⟩⟩]
  saplingSpends := []
  nullifiersToNotes _ := none

theorem rebuildWitnesses_twice_received :
    ∃ w₁, oneNote.rebuildWitnesses sampleSapling (shieldedChain [shieldedTx 1 [] [7]])
        = .ok (true, w₁) ∧ w₁.nullifiersToNotes 9 = some ⟨1, 0⟩ ∧
      w₁.rebuildWitnesses sampleSapling (shieldedChain [shieldedTx 1 [] [7]]) = .ok (true, w₁) := by
  refine ⟨_, rfl, by decide, (rebuildWitnesses_twice_iff (w := oneNote) rfl).mpr ?_⟩
  intro _
  decide

theorem rebuildWitnesses_twice_spent : ∃ w₁ w₂, oneNote.rebuildWitnesses sampleSapling
        (shieldedChain [shieldedTx 1 [] [7], shieldedTx 2 [9] []]) = .ok (true, w₁) ∧
      w₁.rebuildWitnesses sampleSapling
        (shieldedChain [shieldedTx 1 [] [7], shieldedTx 2 [9] []]) = .ok (true, w₂) ∧
      w₁.saplingSpends = [(9, 2)] ∧ w₂.saplingSpends = [(9, 2), (9, 2)] := by
  refine ⟨_, _, rfl, rfl, ?_, ?_⟩
  · decide
  · decide

end SaplingWallet

end KorshCore

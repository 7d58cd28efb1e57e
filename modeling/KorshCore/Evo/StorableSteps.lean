import KorshCore.Evo.RebuildBlock
import KorshCore.Evo.Snapshot

/-!
# Storable masternodes through the rebuild of a list

`Kept` is what every step of a rebuild keeps for every masternode of the list:
it can be stored, and its counters stay in range.
-/

namespace KorshCore

open Except Format List ProTxVersion

/-- The ports of the payloads: none unless they are read. -/
def PortsRead (nVersion : Nat) (nType : MnType) (p2p http : Nat) : Prop :=
  p2p < 2 ^ 16 ∧ http < 2 ^ 16 ∧ (¬ (nType = .evo ∧ nVersion < extAddr) → p2p = 0 ∧ http = 0)

/-- The payloads of known versions are read by the formats of
`evo/providertx.h`. -/
structure ReadsPayloads (keys : BLSKeys) (env : ProTxEnv) : Prop where
  reg : ∀ {tx ptx}, env.proRegTx tx = some ptx → ptx.nVersion ≠ 0 → ptx.nVersion ≤ extAddr →
    ptx.collateralOutpoint.n < 2 ^ 32 ∧
    (∃ bytes rest, (NetInfo.format env.netRules
      (extAddr ≤ ptx.nVersion)).decode bytes = .ok (ptx.netInfo, rest)) ∧
    (∃ bytes rest, (keys.format (ptx.nVersion == legacyBLS)).decode
      bytes = .ok (ptx.pubKeyOperator, rest)) ∧
    PortsRead ptx.nVersion ptx.nType ptx.platformP2PPort ptx.platformHTTPPort
  serv : ∀ {tx ptx}, env.proUpServTx tx = some ptx → ptx.nVersion ≠ 0 → ptx.nVersion ≤ extAddr →
    (∃ bytes rest, (NetInfo.format env.netRules
      (extAddr ≤ ptx.nVersion)).decode bytes = .ok (ptx.netInfo, rest)) ∧
    PortsRead ptx.nVersion ptx.nType ptx.platformP2PPort ptx.platformHTTPPort
  upReg : ∀ {tx ptx}, env.proUpRegTx tx = some ptx → ptx.nVersion ≠ 0 → ptx.nVersion ≤ extAddr →
    ∃ bytes rest, (keys.format (ptx.nVersion == legacyBLS)).decode
      bytes = .ok (ptx.pubKeyOperator, rest)

/-! ## Platform ports -/

def CDeterministicMNState.platformPorts (state : CDeterministicMNState) :
    Nat × Nat := (state.platformP2PPort, state.platformHTTPPort)

/-- The platform ports of the masternode `p` after one transaction. -/
def portsAfterTx (env : ProTxEnv) (p : Uint256) (ports : Nat × Nat)
    (tx : CTransaction) : Nat × Nat :=
  if !tx.isSpecialTxVersion then ports
  else if tx.nType = transactionProviderUpdateService then
    match env.proUpServTx tx with
    | none => ports
    | some ptx =>
      if ptx.proTxHash = p ∧ ptx.nType = .evo ∧ ptx.nVersion < extAddr then
        (ptx.platformP2PPort, ptx.platformHTTPPort)
      else ports
  else ports

/-- The platform ports of the masternode `p` after transactions. -/
def portsAfter (env : ProTxEnv) (p : Uint256) (ports : Nat × Nat)
    (txs : List CTransaction) : Nat × Nat :=
  txs.foldl (portsAfterTx env p) ports

theorem portsAfter_concat (env : ProTxEnv) (p : Uint256) (ports : Nat × Nat)
    (txs : List CTransaction) (tx : CTransaction) :
    portsAfter env p ports (txs ++ [tx]) = portsAfterTx env p (portsAfter env p ports txs) tx :=
  foldl_append

theorem portsAfterTx_of_nType {env : ProTxEnv} {tx : CTransaction}
    (h : tx.nType ≠ transactionProviderUpdateService) (p : Uint256)
    (ports : Nat × Nat) : portsAfterTx env p ports tx = ports := by
  rw [portsAfterTx, if_neg h, ite_self]

/-! ## States -/

namespace CDeterministicMNState

variable {keys : BLSKeys} {rules : NetRules} {s : CDeterministicMNState}

structure InRange (keys : BLSKeys) (rules : NetRules) (n : Nat)
    (s : CDeterministicMNState) : Prop where
  storable : s.Storable keys rules
  payments : 0 ≤ s.nConsecutivePayments ∧ s.nConsecutivePayments ≤ n
  penalty : 0 ≤ s.nPoSePenalty

theorem InRange.mono {n m : Nat} (h : s.InRange keys rules n) (hnm : n ≤ m) :
    s.InRange keys rules m :=
  ⟨h.storable, ⟨h.payments.1, h.payments.2.trans (by exact_mod_cast hnm)⟩, h.penalty⟩

def IsHeight (height : Int) : Prop := 0 ≤ height ∧ height < 2 ^ 31

theorem IsHeight.fitsInt {height : Int} (h : IsHeight height) : FitsInt height :=
  ⟨by have := h.1; omega, h.2⟩

theorem fitsInt_zero : FitsInt 0 := ⟨by decide, by decide⟩

theorem fitsInt_neg_one : FitsInt (-1) := ⟨by decide, by decide⟩

theorem InRange.banIfNotBanned {n : Nat} {height : Int}
    (h : s.InRange keys rules n) (hheight : IsHeight height) :
    (s.banIfNotBanned height).InRange keys rules n := by
  unfold CDeterministicMNState.banIfNotBanned
  split_ifs
  · exact h
  · exact ⟨{ h.storable with ban := hheight.fitsInt }, h.payments, h.penalty⟩

theorem banIfNotBanned_fixed (s : CDeterministicMNState) (height : Int) :
    (s.banIfNotBanned height).nVersion = s.nVersion ∧
      (s.banIfNotBanned height).platformPorts = s.platformPorts := by
  unfold CDeterministicMNState.banIfNotBanned
  split_ifs <;> exact ⟨rfl, rfl⟩

theorem InRange.revive {n : Nat} {height : Int}
    (h : s.InRange keys rules n) (hheight : IsHeight height) :
    (s.revive height).InRange keys rules n :=
  ⟨{ h.storable with
      penalty := fitsInt_zero
      ban := fitsInt_neg_one
      revived := hheight.fitsInt }, h.payments, le_rfl⟩

theorem valid_noNetInfo (rules : NetRules) : (NetInfo.format rules false).Valid (.mn .invalid) :=
  ⟨rfl, null_valid, rfl⟩

theorem InRange.resetOperatorFields {n : Nat} (h : s.InRange keys rules n) :
    s.resetOperatorFields.InRange keys rules n :=
  ⟨{ h.storable with
      version := show legacyBLS ≤ _ by decide
      reason := Nat.two_pow_pos 16
      operator := keys.valid_none _
      netInfo := valid_noNetInfo rules
      operatorPayout := zero_le
      noPorts := fun h => absurd h
        (show ¬ extAddr ≤ legacyBLS by decide) },
    h.payments, h.penalty⟩

end CDeterministicMNState

/-! ## Masternodes -/

namespace CDeterministicMNList

open CDeterministicMNState

variable {H : Type} [DecidableEq H] {hash : UniqueProperty → H}
  {keys : BLSKeys} {env : ProTxEnv} {ctx : BlockContext} {v24 : Bool} {n m : Nat}
  {l₀ l l₁ l' : CDeterministicMNList H} {done : List CTransaction}
  {tx : CTransaction} {b : CDeterministicMN}

/-- What the steps of a rebuild keep for a masternode; `v24` says whether the
deployment is active. -/
structure Kept (keys : BLSKeys) (env : ProTxEnv) (v24 : Bool) (n : Nat)
    (l₀ : CDeterministicMNList H) (done : List CTransaction) (b : CDeterministicMN) : Prop where
  internalId : b.internalId < 2 ^ 32
  collateral : b.collateralOutpoint.Carriable
  reward : b.nOperatorReward < 2 ^ 16
  nType : b.nType.isValid = true
  state : b.pdmnState.InRange keys env.netRules n
  version : v24 = false → b.pdmnState.nVersion ≤ basicBLS
  ports : ∀ a, l₀.getMN b.proTxHash = some a → b.pdmnState.platformPorts
    = portsAfter env b.proTxHash a.pdmnState.platformPorts done

section Kept

omit [DecidableEq H]

variable (h : Kept keys env v24 n l₀ done b)
include h

theorem Kept.storable : b.Storable keys env.netRules :=
  ⟨h.internalId.trans (by decide), h.collateral, h.reward, h.nType, h.state.storable⟩

theorem Kept.tick {s : CDeterministicMNState} (hs : s.InRange keys env.netRules m)
    (hversion : s.nVersion = b.pdmnState.nVersion)
    (hports : s.platformPorts = b.pdmnState.platformPorts) :
    Kept keys env v24 m l₀ done { b with pdmnState := s } where
  internalId := h.internalId
  collateral := h.collateral
  reward := h.reward
  nType := h.nType
  state := hs
  version hv24 := hversion ▸ h.version hv24
  ports a ha := hports.trans (h.ports a ha)

theorem Kept.mono (hnm : n ≤ m) : Kept keys env v24 m l₀ done b :=
  h.tick (h.state.mono hnm) rfl rfl

end Kept

def AllKept (keys : BLSKeys) (env : ProTxEnv) (v24 : Bool) (n : Nat)
    (l₀ : CDeterministicMNList H) (done : List CTransaction) (l : CDeterministicMNList H) : Prop :=
  ∀ ⦃p b⦄, l.getMN p = some b → Kept keys env v24 n l₀ done b

theorem AllKept.updateMNState (h : AllKept keys env v24 n l₀ done l)
    {dmn : CDeterministicMN} {state : CDeterministicMNState}
    (hstate : Kept keys env v24 n l₀ done { dmn with pdmnState := state })
    (hupdate : l.updateMNState hash dmn state = .ok l') :
    AllKept keys env v24 n l₀ done l' := by
  intro p b hb
  rw [getMN_updateMNState hupdate] at hb
  split_ifs at hb
  · cases hb
    exact hstate
  · exact h hb

omit [DecidableEq H] in
theorem AllKept.mono (h : AllKept keys env v24 n l₀ done l) (hnm : n ≤ m) :
    AllKept keys env v24 m l₀ done l := fun _ _ hb => (h hb).mono hnm

omit [DecidableEq H] in
theorem AllKept.of_filter (h : AllKept keys env v24 n l₀ done l)
    {p : CDeterministicMN → Bool} (hget : ∀ q, l'.getMN q = (l.getMN q).filter p) :
    AllKept keys env v24 n l₀ done l' := by
  intro q b hb
  rw [hget, Option.filter_eq_some_iff] at hb
  exact h hb.1

omit [DecidableEq H] in
theorem getAllMNsCount_le {hashes : List Uint256}
    (h : ∀ q, (l.getMN q).isSome = true → q ∈ hashes) : l.getAllMNsCount ≤ hashes.length := by
  have hsubset : l.mnMap.entries.keys ⊆ hashes := by
    intro q hq
    exact h q (dlookup_isSome.mpr hq)
  have hle := (subperm_of_subset l.mnMap.nodupKeys hsubset).length_le
  rwa [keys, length_map] at hle

theorem Rebuilding.getAllMNsCount_le {spent : List COutPoint}
    (h : Rebuilding hash env ctx l₀ done spent l) :
    l.getAllMNsCount ≤ l₀.getAllMNsCount + (registrations done).length := by
  have hmem : ∀ q, (l.getMN q).isSome = true →
      q ∈ l₀.mnMap.entries.keys ++ (registrations done).map env.getHash := by
    intro q hq
    obtain ⟨b, hb⟩ := Option.isSome_iff_exists.mp hq
    rw [mem_append]
    cases ha : l₀.getMN q with
    | some a =>
      left
      refine dlookup_isSome.mp (?_ : (l₀.getMN q).isSome = true)
      rw [ha]
      rfl
    | none =>
      obtain ⟨i, ⟨tx, _, htx, _, rfl, _⟩, _⟩ := h.new ha hb
      exact .inr (mem_map_of_mem (mem_of_getElem? htx))
  have hle := CDeterministicMNList.getAllMNsCount_le hmem
  rwa [length_append, length_map, keys, length_map] at hle

omit [DecidableEq H] in
theorem inRange_punishedState {rules : NetRules} {s : CDeterministicMNState}
    (h : s.InRange keys rules n) (hheight : IsHeight l.nHeight)
    (hcount : l.getAllMNsCount ≤ maxSize) :
    (l.punishedState (l.calcPenalty 66) s).InRange keys rules n := by
  have hmax : 0 ≤ l.calcMaxPoSePenalty ∧ l.calcMaxPoSePenalty < 2 ^ 31 := by
    rw [maxSize] at hcount
    unfold calcMaxPoSePenalty
    omega
  have hpenalty : 0 ≤ l.calcPenalty 66 := by
    unfold calcPenalty
    omega
  have hset : ∀ p : Int, 0 ≤ p → p < 2 ^ 31 →
      { s with nPoSePenalty := p }.InRange keys rules n := fun p hlow hhigh =>
    ⟨{ h.storable with penalty := IsHeight.fitsInt ⟨hlow, hhigh⟩ }, h.payments, hlow⟩
  have hold := h.penalty
  have hpunished := hset (min l.calcMaxPoSePenalty
    (s.nPoSePenalty + l.calcPenalty 66)) (by omega) (by omega)
  unfold punishedState
  dsimp only
  split_ifs
  · exact hpunished.banIfNotBanned hheight
  · exact hpunished

omit [DecidableEq H] in
theorem punishedState_fixed (l : CDeterministicMNList H) (penalty : Int)
    (s : CDeterministicMNState) : (l.punishedState penalty s).nVersion = s.nVersion ∧
      (l.punishedState penalty s).platformPorts = s.platformPorts := by
  unfold punishedState CDeterministicMNState.banIfNotBanned
  dsimp only
  split_ifs <;> exact ⟨rfl, rfl⟩

/-! ## Quiet stages -/

theorem kept_confirmMN (h : AllKept keys env v24 n l₀ done l')
    (hl : l.Indexed hash) (hl' : l'.Indexed hash) (hmap : l'.mnMap = l.mnMap)
    (hloop : l.mns.foldlM (confirmMN hash env ctx) l' = .ok l₁) :
    AllKept keys env v24 n l₀ done l₁ := by
  refine (confirmMN_preserves hl hl' hmap h (fun hx hdmn hupdate => ?_) hloop).2.2
  refine hx.updateMNState ((hx hdmn).tick ?_ (by rfl) (by rfl)) hupdate
  exact ⟨{ (hx hdmn).state.storable with }, (hx hdmn).state.payments, (hx hdmn).state.penalty⟩

section Stages

variable (h : AllKept keys env v24 n l₀ done l) (hl : l.Indexed hash)
include h hl

theorem kept_decreaseScores (hdecrease : l.decreaseScores hash = .ok l') :
    AllKept keys env v24 n l₀ done l' := by
  refine (decreaseScores_preserves hl h (fun {x x' dmn} hx hdmn hpositive hupdate => ?_)
    hdecrease).2.2
  have hstate := (hx hdmn).state
  have hfits := hstate.storable.penalty
  refine hx.updateMNState ((hx hdmn).tick ?_ (by rfl) (by rfl)) hupdate
  refine ⟨{ hstate.storable with penalty := ⟨?_, ?_⟩ }, hstate.payments, ?_⟩
  · have := hfits.1
    show -2 ^ 31 ≤ dmn.pdmnState.nPoSePenalty - 1
    omega
  · have := hfits.2
    show dmn.pdmnState.nPoSePenalty - 1 < 2 ^ 31
    omega
  · show 0 ≤ dmn.pdmnState.nPoSePenalty - 1
    omega

theorem kept_resetPayments {payee : Option CDeterministicMN}
    (hloop : l.mns.foldlM (resetPayments hash ctx payee) l = .ok l') :
    AllKept keys env v24 n l₀ done l' := by
  refine (resetPayments_preserves hl h (fun hx hdmn hupdate => ?_) hloop).2.2
  refine hx.updateMNState ((hx hdmn).tick ?_ (by rfl) (by rfl)) hupdate
  exact ⟨{ (hx hdmn).state.storable with payments := fitsInt_zero },
    ⟨le_rfl, Int.natCast_nonneg n⟩, (hx hdmn).state.penalty⟩

theorem kept_recordPayee (hheight : IsHeight ctx.nHeight) (hn : n + 1 < 2 ^ 31)
    {payee : Option CDeterministicMN} (hrecord : recordPayee hash ctx payee l = .ok l') :
    AllKept keys env v24 (n + 1) l₀ done l' := by
  have hmono := h.mono (Nat.le_succ n)
  obtain rfl | ⟨dmn, hdmn, hupdate⟩ := recordPayee_turn hl hrecord
  · exact hmono
  · have hkept := h hdmn
    have hpaid : ({ dmn.pdmnState with nLastPaidHeight := ctx.nHeight } :
        CDeterministicMNState).InRange keys env.netRules n :=
      ⟨{ hkept.state.storable with paid := hheight.fitsInt },
        hkept.state.payments, hkept.state.penalty⟩
    refine hmono.updateMNState (hkept.tick ?_ ?_ ?_) hupdate
    · unfold paidState
      obtain ⟨hlow, hhigh⟩ := hkept.state.payments
      split_ifs
      · refine ⟨{ hpaid.storable with payments := ⟨?_, ?_⟩ }, ⟨?_, ?_⟩, hpaid.penalty⟩
        all_goals
          push_cast
          omega
      · exact hpaid.mono (Nat.le_succ n)
    · unfold paidState
      split_ifs <;> rfl
    · unfold paidState
      split_ifs <;> rfl

theorem kept_applyCommitment (hheight : IsHeight l.nHeight)
    (hcount : l.getAllMNsCount ≤ maxSize) (happly : applyCommitment hash ctx l tx = .ok l') :
    AllKept keys env v24 n l₀ done l' := by
  refine (applyCommitment_preserves hl h (fun {x x' dmn} hquiet hx hdmn hupdate => ?_) happly).2.2
  -- the list has not become longer
  have hcount' : x.getAllMNsCount ≤ maxSize := by
    have hmem : ∀ q, (x.getMN q).isSome = true → q ∈ l.mnMap.entries.keys := by
      intro q hq
      rw [hquiet.isSome] at hq
      exact List.dlookup_isSome.mp hq
    have hle := getAllMNsCount_le hmem
    rw [List.keys, List.length_map] at hle
    exact hle.trans hcount
  have hheight' : IsHeight x.nHeight := hquiet.header.nHeight ▸ hheight
  obtain ⟨hversion, hports⟩ := x.punishedState_fixed (x.calcPenalty 66) dmn.pdmnState
  exact hx.updateMNState ((hx hdmn).tick
    (inRange_punishedState (hx hdmn).state hheight' hcount') hversion hports) hupdate

end Stages

end CDeterministicMNList

end KorshCore

import KorshCore.Evo.DiffFaithful
import Mathlib.Data.List.Lex
import Mathlib.Data.Prod.Lex

/-!
# Who is paid next

`GetMNPayee` reads of each masternode its type, three heights, the number of
payments in a row and whether it is banned (`PaymentData`). Masternodes that
wait are ordered by `CompareByLastPaid`, and the first one is paid.
-/

namespace KorshCore

open CDeterministicMN List

/-- The bytes of a hash, as they are stored. -/
def uint256Bytes (v : Uint256) : List Nat :=
  (List.range 32).map fun i => (v.extractLsb' (8 * i) 8).toNat

theorem uint256Bytes_injective : Function.Injective uint256Bytes := by
  intro v w h
  refine BitVec.eq_of_getLsbD_eq fun j hj => ?_
  have hbyte : v.extractLsb' (8 * (j / 8)) 8 = w.extractLsb' (8 * (j / 8)) 8 := by
    apply BitVec.eq_of_toNat_eq
    exact map_inj_left.mp h (j / 8) (mem_range.mpr (by omega))
  have hbit := congrArg (fun byte => byte.getLsbD (j % 8)) hbyte
  simpa [BitVec.getLsbD_extractLsb', Nat.mod_lt, Nat.div_add_mod] using hbit

/-! ## What payments read -/

structure PaymentData where
  nType : MnType
  nRegisteredHeight : Int
  nLastPaidHeight : Int
  nConsecutivePayments : Int
  nPoSeRevivedHeight : Int
  nPoSeBanHeight : Int
  deriving DecidableEq, Repr

def CDeterministicMN.paymentData (dmn : CDeterministicMN) : PaymentData where
  nType := dmn.nType
  nRegisteredHeight := dmn.pdmnState.nRegisteredHeight
  nLastPaidHeight := dmn.pdmnState.nLastPaidHeight
  nConsecutivePayments := dmn.pdmnState.nConsecutivePayments
  nPoSeRevivedHeight := dmn.pdmnState.nPoSeRevivedHeight
  nPoSeBanHeight := dmn.pdmnState.nPoSeBanHeight

def PaymentData.height (data : PaymentData) : Int :=
  if data.nPoSeRevivedHeight ≠ -1 ∧ data.nLastPaidHeight < data.nPoSeRevivedHeight then
    data.nPoSeRevivedHeight
  else if data.nLastPaidHeight = 0 then data.nRegisteredHeight
  else data.nLastPaidHeight

def paymentKey (proTxHash : Uint256) (data : PaymentData) : Int ×ₗ List Nat :=
  toLex (data.height, uint256Bytes proTxHash)

def CDeterministicMN.key (dmn : CDeterministicMN) : Int ×ₗ List Nat :=
  paymentKey dmn.proTxHash dmn.paymentData

theorem compareByLastPaid_iff {a b : CDeterministicMN} :
    compareByLastPaid a b = true ↔ a.key < b.key := by
  have hheight : ∀ dmn : CDeterministicMN,
      compareByLastPaidHeight dmn = dmn.paymentData.height := fun _ => rfl
  unfold compareByLastPaid key paymentKey
  rw [Prod.Lex.toLex_lt_toLex, hheight, hheight]
  split_ifs with heq
  · rw [heq]
    simp only [lt_irrefl, true_and, false_or, uint256Less, decide_eq_true_eq]
    rfl
  · simp [heq]

namespace CDeterministicMNList

variable {H : Type} {l : CDeterministicMNList H}

def payments (l : CDeterministicMNList H) (p : Uint256) : Option PaymentData :=
  (l.getMN p).map CDeterministicMN.paymentData

def Valid (l : CDeterministicMNList H) (p : Uint256) : Prop :=
  ∃ data, l.payments p = some data ∧ data.nPoSeBanHeight = -1

/-- The payment rule of `GetMNPayee`: Evo nodes are paid in a row. -/
def paysInARow (ctx : BlockContext) : Bool :=
  ctx.isV19Active && !ctx.isMNRewardReallocation

def Continues (l : CDeterministicMNList H) (p : Uint256) : Prop :=
  ∃ data, l.payments p = some data ∧ data.nPoSeBanHeight = -1 ∧
    data.nType = .evo ∧ data.nLastPaidHeight = l.nHeight ∧
    data.nConsecutivePayments < (MnType.evo.votingWeight : Int)

variable {p : Uint256}

theorem Continues.valid (h : l.Continues p) : l.Valid p := by
  obtain ⟨data, hdata, hvalid, _⟩ := h
  exact ⟨data, hdata, hvalid⟩

/-! ## The payee -/

variable [DecidableEq H] {hash : UniqueProperty → H} {ctx : BlockContext}

variable {dmn : CDeterministicMN}

theorem foldl_best : ∀ (dmns : List CDeterministicMN) (b : CDeterministicMN),
    ∃ m, dmns.foldl (fun best dmn =>
        match best with
        | none => some dmn
        | some b => if compareByLastPaid dmn b then some dmn else some b) (some b) = some m ∧
      m ∈ b :: dmns ∧ ∀ x ∈ b :: dmns, m.key ≤ x.key
  | [], b => ⟨b, rfl, mem_cons_self, fun x hx => by
      rw [mem_singleton.mp hx]⟩
  | dmn :: dmns, b => by
    rw [foldl_cons]
    dsimp only
    by_cases hless : compareByLastPaid dmn b = true
    · obtain ⟨m, hm, hmem, hle⟩ := foldl_best dmns dmn
      rw [if_pos hless]
      refine ⟨m, hm, mem_cons_of_mem b hmem, ?_⟩
      intro x hx
      rcases mem_cons.mp hx with rfl | hx
      · exact (hle dmn mem_cons_self).trans (compareByLastPaid_iff.mp hless).le
      · exact hle x hx
    · obtain ⟨m, hm, hmem, hle⟩ := foldl_best dmns b
      rw [if_neg hless]
      refine ⟨m, hm, ?_, ?_⟩
      · rcases mem_cons.mp hmem with rfl | hmem
        · exact mem_cons_self
        · exact mem_cons_of_mem _ (mem_cons_of_mem _ hmem)
      · intro x hx
        rcases mem_cons.mp hx with rfl | hx
        · exact hle x mem_cons_self
        · rcases mem_cons.mp hx with rfl | hx
          · rw [compareByLastPaid_iff, not_lt] at hless
            exact (hle b mem_cons_self).trans hless
          · exact hle x (mem_cons_of_mem b hx)

omit [DecidableEq H] in
theorem mem_validMNs_of_getMNPayee {payee : CDeterministicMN}
    (h : l.getMNPayee ctx = some payee) : payee ∈ l.validMNs := by
  unfold getMNPayee at h
  dsimp only at h
  split at h
  · next dmn hagain =>
    cases h
    split_ifs at hagain
    exact mem_of_mem_filter (mem_of_getLast? hagain)
  · cases hdmns : l.validMNs with
    | nil => rw [hdmns] at h; cases h
    | cons b dmns =>
      rw [hdmns] at h
      obtain ⟨m, hm, hmem, _⟩ := foldl_best dmns b
      cases hm.symm.trans h
      exact hmem

section

variable (hl : l.Indexed hash)
include hl

theorem Indexed.mem_validMNs_iff :
    dmn ∈ l.validMNs ↔ l.getMN dmn.proTxHash = some dmn ∧ dmn.pdmnState.nPoSeBanHeight = -1 := by
  unfold validMNs
  rw [mem_filter, hl.mem_mns_iff]
  simp [CDeterministicMNState.isBanned]

theorem Indexed.valid_iff : l.Valid p ↔ ∃ dmn ∈ l.validMNs, dmn.proTxHash = p := by
  constructor
  · rintro ⟨data, hdata, hvalid⟩
    obtain ⟨dmn, hdmn, rfl⟩ := Option.map_eq_some_iff.mp hdata
    have hkey := hl.key hdmn
    exact ⟨dmn, hl.mem_validMNs_iff.mpr ⟨hkey.symm ▸ hdmn, hvalid⟩, hkey⟩
  · rintro ⟨dmn, hdmn, rfl⟩
    obtain ⟨hlisted, hvalid⟩ := hl.mem_validMNs_iff.mp hdmn
    exact ⟨dmn.paymentData, congrArg _ hlisted, hvalid⟩

theorem Indexed.payments_of_mem (h : dmn ∈ l.validMNs) :
    l.payments dmn.proTxHash = some dmn.paymentData :=
  congrArg _ (hl.mem_validMNs_iff.mp h).1

theorem Indexed.mem_consecutive_iff : dmn ∈ (l.validMNs.filter fun dmn =>
      dmn.pdmnState.nLastPaidHeight == l.nHeight && dmn.nType == .evo &&
        decide (dmn.pdmnState.nConsecutivePayments < (MnType.evo.votingWeight : Int)))
      ↔ l.getMN dmn.proTxHash = some dmn ∧ l.Continues dmn.proTxHash := by
  rw [mem_filter, hl.mem_validMNs_iff]
  simp only [Bool.and_eq_true, beq_iff_eq, decide_eq_true_eq]
  constructor
  · rintro ⟨⟨hlisted, hvalid⟩, ⟨hpaid, hevo⟩, hless⟩
    exact ⟨hlisted, dmn.paymentData, congrArg _ hlisted, hvalid, hevo, hpaid, hless⟩
  · rintro ⟨hlisted, data, hdata, hvalid, hevo, hpaid, hless⟩
    unfold payments at hdata
    rw [hlisted] at hdata
    cases hdata
    exact ⟨⟨hlisted, hvalid⟩, ⟨hpaid, hevo⟩, hless⟩

theorem getMNPayee_of_continues (hrule : paysInARow ctx = true) (h : l.Continues p)
    (hunique : ∀ q, l.Continues q → q = p) : (l.getMNPayee ctx).map proTxHash = some p := by
  obtain ⟨dmn, hdmn, rfl⟩ := hl.valid_iff.mp h.valid
  have hne := ne_nil_of_mem (hl.mem_consecutive_iff.mpr ⟨(hl.mem_validMNs_iff.mp hdmn).1, h⟩)
  have hlast := hl.mem_consecutive_iff.mp (getLast_mem hne)
  have hagain : l.consecutivePayee = some (getLast _ hne) := getLast?_eq_some_getLast hne
  unfold paysInARow at hrule
  unfold getMNPayee
  rw [hrule, hagain]
  exact congrArg some (hunique _ hlast.2)

theorem getMNPayee_of_first (hnobody : paysInARow ctx = true → ∀ q, ¬ l.Continues q)
    {data : PaymentData} (hdata : l.payments p = some data) (hvalid : data.nPoSeBanHeight = -1)
    (hfirst : ∀ q data', q ≠ p → l.payments q = some data' →
      data'.nPoSeBanHeight = -1 → paymentKey p data < paymentKey q data') :
    (l.getMNPayee ctx).map proTxHash = some p := by
  have hagain : (if ctx.isV19Active && !ctx.isMNRewardReallocation then
      l.consecutivePayee else none) = none := by
    split_ifs with hrule
    · refine getLast?_eq_none_iff.mpr (eq_nil_iff_forall_not_mem.mpr ?_)
      intro dmn hdmn
      exact hnobody hrule dmn.proTxHash (hl.mem_consecutive_iff.mp hdmn).2
    · rfl
  obtain ⟨dmn, hdmn, rfl⟩ := hl.valid_iff.mp ⟨data, hdata, hvalid⟩
  cases hdata.symm.trans (hl.payments_of_mem hdmn)
  unfold getMNPayee
  rw [hagain]
  cases hdmns : l.validMNs with
  | nil => rw [hdmns] at hdmn; cases hdmn
  | cons b dmns =>
    rw [foldl_cons]
    obtain ⟨m, hm, hmem, hle⟩ := foldl_best dmns b
    refine (congrArg (Option.map proTxHash) hm).trans ?_
    rw [← hdmns] at hmem hle
    by_contra hne
    have hother := hfirst m.proTxHash m.paymentData
      (fun heq => hne (congrArg some heq)) (hl.payments_of_mem hmem)
      (hl.mem_validMNs_iff.mp hmem).2
    exact absurd (hle dmn hdmn) (not_le.mpr hother)

end

end CDeterministicMNList

end KorshCore

import KorshCore.Evo.MNListRuns
import KorshCore.Evo.PaymentOrder

/-!
# Simplified lists and their differences

A `CSimplifiedMNListEntry` is what a light client holds of a masternode. A
simplified list has the entries in the order of their hashes (`sortByHash`).

`operator==` of entries leaves out the two payout scripts, which are never
sent, and the scheme of the operator key.
-/

namespace KorshCore

open CDeterministicMN List Except ProTxVersion

/-! ## Entries -/

structure CSimplifiedMNListEntry where
  proRegTxHash : Uint256
  confirmedHash : Uint256
  netInfo : NetInfo
  pubKeyOperator : Option CBLSLazyPublicKey
  keyIDVoting : Uint160
  isValid : Bool
  platformHTTPPort : Nat
  platformNodeID : Uint160
  scriptPayout : List UInt8
  scriptOperatorPayout : List UInt8
  nVersion : Nat
  nType : MnType
  deriving DecidableEq, Repr

namespace CSimplifiedMNListEntry

/-- `operator==`. -/
def same (a b : CSimplifiedMNListEntry) : Bool :=
  a.proRegTxHash == b.proRegTxHash && a.confirmedHash == b.confirmedHash &&
  a.netInfo == b.netInfo && sameKey a.pubKeyOperator b.pubKeyOperator &&
  a.keyIDVoting == b.keyIDVoting && a.isValid == b.isValid &&
  a.nVersion == b.nVersion && a.nType == b.nType &&
  a.platformHTTPPort == b.platformHTTPPort && a.platformNodeID == b.platformNodeID

end CSimplifiedMNListEntry

open CSimplifiedMNListEntry

section Sorted

variable {α β : Type} {hash : α → Uint256} {xs ys : List α}

end Sorted

namespace CDeterministicMNList

variable {H : Type}

end CDeterministicMNList

namespace CDeterministicMNList

variable {H : Type} {l l' : CDeterministicMNList H}

variable [DecidableEq H] {hash : UniqueProperty → H}

namespace Keyed

theorem step (hl : l.Keyed) {c : ListCall} (h : step hash c l = .ok l') : l'.Keyed := by
  cases c with
  | addMN dmn b => exact hl.addMN h
  | updateMNState oldDmn state => exact hl.updateMNState h
  | updateMN p state =>
    obtain ⟨dmn, _, hupdate⟩ := bind_eq_ok_iff.mp h
    exact hl.updateMNState hupdate
  | updateMNDiff oldDmn stateDiff => exact hl.updateMNState h
  | removeMN p => exact hl.removeMN h
  | applyDiff blockHash nHeight diff =>
    obtain ⟨l₁, hremoved, l₂, hadded, hupdated⟩ := bind₂_eq_ok_iff.mp h
    have hl₁ : l₁.Keyed := by
      refine foldlM_preserves (P := Keyed) ?_ ?_ hremoved
      · intro id l l' _ hl h
        obtain ⟨dmn, _, h⟩ := bind_eq_ok_iff.mp h
        exact hl.removeMN h
      · exact hl
    have hl₂ : l₂.Keyed := foldlM_preserves (P := Keyed) (fun _ _ _ _ hl h => hl.addMN h) hl₁ hadded
    refine foldlM_preserves (P := Keyed) ?_ hl₂ hupdated
    intro p l l' _ hl h
    obtain ⟨dmn, _, h⟩ := bind_eq_ok_iff.mp h
    exact hl.updateMNState h

end Keyed

end CDeterministicMNList

end KorshCore

import Mathlib.Data.List.Basic
import Mathlib.Order.Lattice

/-!
# Cursors and what they enumerate

A cursor is a state with a validity test, an entry at its position and a step,
which may fail. `Enumerates` says that the cursor goes through exactly the
entries of a list, without a failing step, and is invalid after the last one.
-/

namespace Cursor

variable {I E K : Type}

/-- The cursor `i` goes through the entries of the list and then ends. -/
def Enumerates (valid : I → Bool) (next : I → Option I) (entry : I → E) : I → List E → Prop
  | i, [] => valid i = false
  | i, e :: l => valid i = true ∧ entry i = e ∧
    ∃ i', next i = some i' ∧ Enumerates valid next entry i' l

variable {valid : I → Bool} {next : I → Option I}

theorem Enumerates.valid_eq {entry : I → E} {i : I} {l : List E}
    (h : Enumerates valid next entry i l) : valid i = !l.isEmpty := by
  cases l with
  | nil => exact h
  | cons e l => exact h.1

theorem Enumerates.map {F : Type} {entry : I → E} {other : I → F} {f : E → F}
    (h : ∀ i, valid i = true → other i = f (entry i)) {l : List E} :
    ∀ {i : I}, Enumerates valid next entry i l → Enumerates valid next other i (l.map f) := by
  induction l with
  | nil => exact fun hi => hi
  | cons e l ih =>
    intro i ⟨hvalid, hentry, i', hnext, hrest⟩
    exact ⟨hvalid, hentry ▸ h i hvalid, i', hnext, ih hrest⟩

theorem pairwise_merge_lt [LinearOrder K] {l l' : List K} (hl : l.Pairwise (· < ·))
    (hl' : l'.Pairwise (· < ·)) (hdisjoint : l.Disjoint l') :
    (l.merge l' fun a b => decide (a ≤ b)).Pairwise (· < ·) := by
  have hle : (l.merge l' fun a b => decide (a ≤ b)).Pairwise fun a b =>
      decide (a ≤ b) = true := by
    refine List.pairwise_merge (fun a b c => ?_) (fun a b => ?_) l l' ?_ ?_
    · simpa using fun hab hbc => le_trans hab hbc
    · simpa using le_total a b
    · exact hl.imp fun hlt => decide_eq_true (le_of_lt hlt)
    · exact hl'.imp fun hlt => decide_eq_true (le_of_lt hlt)
  have hnodup : (l.merge l' fun a b => decide (a ≤ b)).Nodup := by
    refine (List.merge_perm_append _).nodup_iff.mpr ?_
    refine List.nodup_append.mpr ⟨hl.imp fun hlt => ne_of_lt hlt,
      hl'.imp fun hlt => ne_of_lt hlt, fun a ha b hb heq => ?_⟩
    exact hdisjoint ha (heq ▸ hb)
  refine (hle.and hnodup).imp fun ⟨hab, hne⟩ => ?_
  exact lt_of_le_of_ne (of_decide_eq_true hab) hne

end Cursor

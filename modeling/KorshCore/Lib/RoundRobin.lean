import Mathlib.Algebra.BigOperators.Group.List.Basic
import Mathlib.Algebra.Ring.Nat
import Mathlib.Data.List.Nodup

/-!
# Weighted round robin

Members of a queue are served in turn, each of them several times in a row,
as often as its weight. A member that is done goes to the end of the queue.
-/

namespace KorshCore

open List

/-- A point of the cycle: the member that is served, how often it is still to
be served before the next one, and the others. -/
structure Round (α : Type) where
  current : α
  left : Nat
  queue : List α

namespace Round

variable {α : Type} (weight : α → Nat) (r : Round α)

def members : List α := r.current :: r.queue

def served : α := if r.left = 0 then r.queue.headD r.current else r.current

def next : Round α :=
  if r.left = 0 then
    match r.queue with
    | [] => ⟨r.current, weight r.current - 1, []⟩
    | x :: queue => ⟨x, weight x - 1, queue ++ [r.current]⟩
  else { r with left := r.left - 1 }

/-- The next `n` members that are served. -/
def serve : Nat → Round α → List α
  | 0, _ => []
  | n + 1, r => r.served :: serve n (r.next weight)

def services : List α :=
  List.replicate r.left r.current ++ r.queue.flatMap (fun x => List.replicate (weight x) x)
    ++ List.replicate (weight r.current - r.left) r.current

/-- Every member has a weight, and no more of it is left than there is. -/
structure WellFormed : Prop where
  pos : ∀ x ∈ r.members, 0 < weight x
  left_le : r.left ≤ weight r.current
  nodup : r.members.Nodup

variable {weight r}

theorem members_next : (r.next weight).members.Perm r.members := by
  unfold next members
  split_ifs
  · cases r.queue with
    | nil => exact Perm.refl _
    | cons x queue =>
      exact (perm_append_singleton r.current (x :: queue))
  · exact Perm.refl _

theorem WellFormed.next (h : r.WellFormed weight) : (r.next weight).WellFormed weight where
  pos x hx := h.pos x (members_next.subset hx)
  left_le := by
    unfold Round.next
    split_ifs
    · cases r.queue with
      | nil => exact Nat.sub_le _ _
      | cons x queue => exact Nat.sub_le _ _
    · exact Nat.le_trans (Nat.sub_le _ _) h.left_le
  nodup := members_next.nodup_iff.mpr h.nodup

theorem served_mem : r.served ∈ r.members := by
  unfold served members
  split_ifs
  · cases r.queue with
    | nil => exact mem_cons_self
    | cons x queue => exact mem_cons_of_mem _ mem_cons_self
  · exact mem_cons_self

theorem replicate_pos {n : Nat} (h : 0 < n) (x : α) : replicate n x = x :: replicate (n - 1) x := by
  obtain ⟨m, rfl⟩ := Nat.exists_eq_add_of_lt h
  simp [replicate_succ]

theorem services_next (h : r.WellFormed weight) : ∃ rest, r.services weight = r.served :: rest ∧
      (r.next weight).services weight = rest ++ [r.served] := by
  obtain ⟨current, left, queue⟩ := r
  by_cases hleft : left = 0
  · subst hleft
    cases queue with
    | nil =>
      have hpos : 0 < weight current := h.pos current mem_cons_self
      refine ⟨replicate (weight current - 1) current, ?_, ?_⟩
      · simp [services, served, replicate_pos hpos]
      · simp [services, served, next, Nat.sub_sub_self hpos]
    | cons x queue =>
      have hpos : 0 < weight x := h.pos x (mem_cons_of_mem _ mem_cons_self)
      refine ⟨replicate (weight x - 1) x ++ queue.flatMap (fun x => replicate (weight x) x)
        ++ replicate (weight current) current, ?_, ?_⟩
      · simp [services, served, replicate_pos hpos]
      · simp [services, served, next, Nat.sub_sub_self hpos]
  · have hpos : 0 < left := Nat.pos_of_ne_zero hleft
    have hle : left ≤ weight current := h.left_le
    have hgrow : weight current - (left - 1) = weight current - left + 1 := by omega
    refine ⟨replicate (left - 1) current ++ queue.flatMap (fun x => replicate (weight x) x)
      ++ replicate (weight current - left) current, ?_, ?_⟩
    · simp [services, served, hleft, replicate_pos hpos]
    · simp [services, served, next, hleft, hgrow, replicate_succ']

theorem length_services (h : r.WellFormed weight) :
    (r.services weight).length = (r.members.map weight).sum := by
  have hle := h.left_le
  have hqueue : (r.queue.flatMap fun x => replicate (weight x) x).length
      = (r.queue.map weight).sum := by
    simp only [length_flatMap, length_replicate]
  simp only [services, members, length_append, length_replicate, hqueue, map_cons, sum_cons]
  omega

theorem serve_eq_take : ∀ {n : Nat} {r : Round α}, r.WellFormed weight →
    n ≤ (r.services weight).length → serve weight n r = (r.services weight).take n
  | 0, _, _, _ => take_zero.symm
  | n + 1, r, h, hn => by
    obtain ⟨rest, hfirst, hrest⟩ := services_next h
    rw [hfirst, length_cons] at hn
    have hlength : n ≤ ((r.next weight).services weight).length := by
      rw [hrest, length_append]
      omega
    rw [serve, serve_eq_take h.next hlength, hfirst, take_succ_cons, hrest,
      take_append_of_le_length (by omega)]

variable [DecidableEq α]

theorem count_flatMap_replicate {x : α} : ∀ {queue : List α}, queue.Nodup →
    (queue.flatMap fun y => replicate (weight y) y).count x = if x ∈ queue then weight x else 0
  | [], _ => rfl
  | y :: queue, h => by
    rw [flatMap_cons, count_append, count_replicate, count_flatMap_replicate (nodup_cons.mp h).2]
    by_cases hy : y = x
    · subst hy
      simp [(nodup_cons.mp h).1]
    · simp [hy, Ne.symm hy]

theorem count_serve (h : r.WellFormed weight) {n : Nat}
    (hn : n = (r.members.map weight).sum) {x : α} (hx : x ∈ r.members) :
    (serve weight n r).count x = weight x := by
  rw [← length_services h] at hn
  rw [serve_eq_take h (Nat.le_of_eq hn), hn, take_length]
  obtain ⟨hcurrent, hqueue⟩ := nodup_cons.mp h.nodup
  have hle := h.left_le
  simp only [services, count_append, count_replicate, count_flatMap_replicate hqueue]
  rcases mem_cons.mp hx with rfl | hmem
  · simp [hcurrent]
    omega
  · have hne : r.current ≠ x := by
      rintro rfl
      exact hcurrent hmem
    simp [hmem, hne]

end Round

end KorshCore

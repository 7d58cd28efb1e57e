import KorshCore.Chain.BlockIndex

/-!
# The walk to an ancestor

`CBlockIndex::GetAncestor` of `chain.cpp` walks down from a block. Besides the
predecessor, a block has a pointer `pskip` to an ancestor further down, and the
walk follows whichever gets it closer without passing the wanted height.
-/

namespace KorshCore

open CBlockIndex

def invertLowestOne (n : Nat) : Nat := n &&& (n - 1)

/-- `GetSkipHeight`: the height to which the skip pointer jumps. -/
def getSkipHeight (height : Nat) : Nat :=
  if height < 2 then 0
  else if height &&& 1 ≠ 0 then invertLowestOne (invertLowestOne (height - 1)) + 1
  else invertLowestOne height

theorem invertLowestOne_le (n : Nat) : invertLowestOne n ≤ n - 1 :=
  Nat.and_le_right

theorem getSkipHeight_lt {height : Nat} (h : 0 < height) : getSkipHeight height < height := by
  unfold getSkipHeight
  have hlow := invertLowestOne_le height
  have hfirst := invertLowestOne_le (height - 1)
  have hsecond := invertLowestOne_le (invertLowestOne (height - 1))
  split_ifs <;> omega

namespace CBlockIndex

/-- Whether the walk at `heightWalk` follows the skip pointer. -/
def followsSkip (height : Int) (heightWalk : Nat) : Bool :=
  let heightSkip : Int := getSkipHeight heightWalk
  let heightSkipPrev : Int := getSkipHeight (heightWalk - 1)
  heightSkip = height ||
    heightSkip > height && !(heightSkipPrev < heightSkip - 2 && heightSkipPrev ≥ height)

/-- The loop of `GetAncestor`. -/
def walkTo (pskip : CBlockIndex → Option CBlockIndex) (height : Int) :
    Nat → Nat → CBlockIndex → Option CBlockIndex
  | 0, heightWalk, pindexWalk =>
    if (heightWalk : Int) > height then none else some pindexWalk
  | fuel + 1, heightWalk, pindexWalk =>
    if (heightWalk : Int) > height then
      match pskip pindexWalk, followsSkip height heightWalk with
      | some skip, true => walkTo pskip height fuel (getSkipHeight heightWalk) skip
      -- `assert(pindexWalk->pprev)`
      | _, _ => pindexWalk.pprev.bind (walkTo pskip height fuel (heightWalk - 1))
    else some pindexWalk

def getAncestorBySkips (pskip : CBlockIndex → Option CBlockIndex) (pindex : CBlockIndex)
    (height : Int) : Option CBlockIndex :=
  if height > pindex.nHeight || height < 0 then none
  else walkTo pskip height pindex.nHeight pindex.nHeight pindex

end CBlockIndex

/-- The skip pointers of the block index. A pointer that is set was set by
`BuildSkip`. -/
structure SkipPointers where
  pskip : CBlockIndex → Option CBlockIndex
  built : ∀ {pindex skip}, pskip pindex = some skip → (pindex.pprev.bind fun prev =>
      prev.getAncestorBySkips pskip (getSkipHeight pindex.nHeight)) = some skip

namespace CBlockIndex

theorem getAncestor_pprev {pindex prev : CBlockIndex} {height : Int}
    (hprev : pindex.pprev = some prev) (hle : height ≤ prev.nHeight) :
    pindex.getAncestor height = prev.getAncestor height := by
  obtain ⟨hash, _ | ⟨hash', ancestors⟩⟩ := pindex
  · cases hprev
  · cases hprev
    exact getAncestor_child hle

theorem exists_pprev {pindex : CBlockIndex} (h : 0 < pindex.nHeight) :
    ∃ prev, pindex.pprev = some prev := by
  obtain ⟨hash, _ | ⟨hash', ancestors⟩⟩ := pindex
  · exact absurd h (lt_irrefl 0)
  · exact ⟨_, rfl⟩

theorem pprev_of_getAncestor {pindex next below : CBlockIndex} {n : Nat}
    (hnext : pindex.getAncestor (n + 1 : Nat) = some next)
    (hbelow : pindex.getAncestor n = some below) : next.pprev = some below := by
  have hnextHeight := nHeight_of_getAncestor hnext
  obtain ⟨prev, hprev⟩ := @exists_pprev next (by omega)
  have hprevHeight := nHeight_of_pprev hprev
  have heq : (n : Int) = prev.nHeight := by omega
  have hanc : next.getAncestor n = some prev := by
    rw [getAncestor_pprev hprev (by omega), heq, getAncestor_self]
  rw [getAncestor_trans hnext hanc] at hbelow
  rw [hprev, hbelow]

def SkipsBelow (pskip : CBlockIndex → Option CBlockIndex) (n : Nat) : Prop :=
  ∀ pindex skip : CBlockIndex, pindex.nHeight ≤ n → pskip pindex = some skip →
    0 < pindex.nHeight ∧ pindex.getAncestor (getSkipHeight pindex.nHeight) = some skip

variable {pskip : CBlockIndex → Option CBlockIndex}

theorem walkTo_succ {n : Nat}
    (hskips : SkipsBelow pskip n) {height : Int} (hheight : 0 ≤ height) {fuel : Nat}
    {pindex : CBlockIndex} (hn : pindex.nHeight ≤ n) (habove : height < pindex.nHeight) :
    ∃ next : CBlockIndex, walkTo pskip height (fuel + 1) pindex.nHeight pindex =
        walkTo pskip height fuel next.nHeight next ∧
      pindex.getAncestor next.nHeight = some next ∧ height ≤ next.nHeight ∧
      next.nHeight < pindex.nHeight := by
  obtain ⟨prev, hprev⟩ := @exists_pprev pindex (by omega)
  have hprevHeight := nHeight_of_pprev hprev
  -- the step to the predecessor
  have hdown : ∃ next : CBlockIndex,
      pindex.pprev.bind (walkTo pskip height fuel (pindex.nHeight - 1)) =
        walkTo pskip height fuel next.nHeight next ∧
      pindex.getAncestor next.nHeight = some next ∧ height ≤ next.nHeight ∧
      next.nHeight < pindex.nHeight := by
    refine ⟨prev, ?_, ?_, by omega, by omega⟩
    · rw [hprev, hprevHeight]
      rfl
    · rw [getAncestor_pprev hprev le_rfl, getAncestor_self]
  have hturn : walkTo pskip height (fuel + 1) pindex.nHeight pindex =
      match pskip pindex, followsSkip height pindex.nHeight with
      | some skip, true => walkTo pskip height fuel (getSkipHeight pindex.nHeight) skip
      | _, _ => pindex.pprev.bind (walkTo pskip height fuel (pindex.nHeight - 1)) :=
    if_pos habove
  rw [hturn]
  cases hskip : pskip pindex with
  | none => exact hdown
  | some skip =>
    cases hfollows : followsSkip height pindex.nHeight with
    | false => exact hdown
    | true =>
      obtain ⟨hpos, hanc⟩ := hskips pindex skip hn hskip
      have hskipHeight := nHeight_of_getAncestor hanc
      have hlt := getSkipHeight_lt hpos
      have hge : height ≤ getSkipHeight pindex.nHeight := by
        simp only [followsSkip, Bool.or_eq_true, Bool.and_eq_true, decide_eq_true_eq] at hfollows
        omega
      refine ⟨skip, ?_, ?_, by omega, by omega⟩
      · rw [Int.ofNat.inj hskipHeight]
      · rw [hskipHeight]
        exact hanc

/-- The loop ends at the ancestor: every turn goes down, so the height of the block
is enough fuel. -/
theorem walkTo_eq {n : Nat} (hskips : SkipsBelow pskip n) {height : Int} (hheight : 0 ≤ height) :
    ∀ {fuel : Nat} {pindex : CBlockIndex}, pindex.nHeight ≤ n → height ≤ pindex.nHeight →
      pindex.nHeight ≤ fuel →
      walkTo pskip height fuel pindex.nHeight pindex = pindex.getAncestor height := by
  intro fuel
  induction fuel with
  | zero =>
    intro pindex hn hle hfuel
    have heq : height = pindex.nHeight := by omega
    unfold walkTo
    rw [if_neg (by omega), heq, getAncestor_self]
  | succ fuel ih =>
    intro pindex hn hle hfuel
    by_cases habove : height < pindex.nHeight
    · obtain ⟨next, hwalk, hanc, hge, hlt⟩ := @walkTo_succ pskip n hskips height hheight fuel
        pindex hn habove
      rw [hwalk, ih (by omega) hge (by omega), getAncestor_eq_of_le hanc hge]
    · have heq : height = pindex.nHeight := by omega
      unfold walkTo
      rw [if_neg habove, heq, getAncestor_self]

theorem getAncestorBySkips_eq_of_skips {n : Nat}
    (hskips : SkipsBelow pskip n) {pindex : CBlockIndex} (hn : pindex.nHeight ≤ n)
    (height : Int) : pindex.getAncestorBySkips pskip height = pindex.getAncestor height := by
  unfold getAncestorBySkips
  split_ifs with hrange
  · unfold getAncestor
    rw [if_pos hrange]
  · have hrange : height ≤ pindex.nHeight ∧ 0 ≤ height := by
      simpa using hrange
    exact walkTo_eq hskips hrange.2 hn hrange.1 le_rfl

end CBlockIndex

namespace SkipPointers

variable (skips : SkipPointers)

/-- The pointers were built from the lower blocks up, so they are right by induction
on the height. -/
theorem skipsBelow : ∀ n, SkipsBelow skips.pskip n := by
  have hstep : ∀ {pindex skip : CBlockIndex},
      (∀ prev, pindex.pprev = some prev → SkipsBelow skips.pskip prev.nHeight) →
      skips.pskip pindex = some skip →
      0 < pindex.nHeight ∧ pindex.getAncestor (getSkipHeight pindex.nHeight) = some skip := by
    intro pindex skip hbelow hskip
    obtain ⟨prev, hprev, hanc⟩ := Option.bind_eq_some_iff.mp (skips.built hskip)
    have hheight := nHeight_of_pprev hprev
    have hlt := @getSkipHeight_lt pindex.nHeight (by omega)
    rw [getAncestorBySkips_eq_of_skips (hbelow prev hprev) le_rfl] at hanc
    refine ⟨by omega, ?_⟩
    rw [getAncestor_pprev hprev (by omega)]
    exact hanc
  intro n
  induction n with
  | zero =>
    intro pindex skip hn hskip
    refine hstep (fun prev hprev => ?_) hskip
    have hheight := nHeight_of_pprev hprev
    omega
  | succ n ih =>
    intro pindex skip hn hskip
    refine hstep (fun prev hprev => ?_) hskip
    have hheight := nHeight_of_pprev hprev
    exact fun pindex skip hle => ih pindex skip (by omega)

theorem getAncestorBySkips_eq (pindex : CBlockIndex) (height : Int) :
    pindex.getAncestorBySkips skips.pskip height = pindex.getAncestor height :=
  getAncestorBySkips_eq_of_skips (skips.skipsBelow pindex.nHeight) le_rfl height

def unset : SkipPointers where
  pskip _ := none
  built h := nomatch h

end SkipPointers

end KorshCore

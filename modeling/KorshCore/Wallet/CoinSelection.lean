import KorshCore.Consensus.Params
import KorshCore.Primitives.Transaction
import Mathlib.Algebra.BigOperators.Intervals
import Mathlib.Algebra.Order.BigOperators.Group.Finset
import Mathlib.Data.List.Perm.Subperm
import Mathlib.Order.Interval.Finset.Nat

/-!
# Branch and bound coin selection

`SelectCoinsBnB` of `wallet/coinselection.cpp`: a depth first search over subsets of the
groups, which includes a group before it omits it. It goes back when the target is
reached or out of reach or the waste is too high, and omits a group that is like an
omitted one before it.
-/

namespace KorshCore

open List

/-- A coin with its fees, which the wallet knows before it selects. -/
structure COutput where
  outpoint : COutPoint
  nValue : Int
  effectiveValue : Int
  fee : Int
  longTermFee : Int
  deriving DecidableEq, Repr

/-- The totals of a group are those that `Insert` adds up. -/
structure OutputGroup where
  outputs : List COutput
  subtractFeeOutputs : Bool
  deriving DecidableEq, Repr

namespace OutputGroup

def value (g : OutputGroup) : Int := (g.outputs.map COutput.nValue).sum

def effectiveValue (g : OutputGroup) : Int := (g.outputs.map COutput.effectiveValue).sum

def fee (g : OutputGroup) : Int := (g.outputs.map COutput.fee).sum

def longTermFee (g : OutputGroup) : Int := (g.outputs.map COutput.longTermFee).sum

def getSelectionAmount (g : OutputGroup) : Int :=
  if g.subtractFeeOutputs then g.value else g.effectiveValue

/-- What a group adds to the waste. -/
def feeDiff (g : OutputGroup) : Int := g.fee - g.longTermFee

/-- The waste of groups that are spent without change. -/
def waste (target : Int) (groups : List OutputGroup) : Int :=
  (groups.map feeDiff).sum + ((groups.map getSelectionAmount).sum - target)

end OutputGroup

open OutputGroup

/-- `GetSelectionWaste`, or none where an assertion fails. -/
def getSelectionWaste (inputs : List COutput) (changeCost target : Int)
    (useEffective : Bool) : Option Int :=
  let waste := (inputs.map fun coin => coin.fee - coin.longTermFee).sum
  let selected := (inputs.map fun coin =>
    if useEffective then coin.effectiveValue else coin.nValue).sum
  if inputs = [] then none
  else if changeCost ≠ 0 then if 0 < changeCost then some (waste + changeCost) else none
  else if target ≤ selected then some (waste + (selected - target)) else none

/-- The inputs are a set of coins that are compared by their outpoints. -/
structure SelectionResult where
  selectedInputs : List COutput
  useEffective : Bool
  waste : Option Int
  target : Int
  deriving DecidableEq, Repr

namespace SelectionResult

def insertCoin (inputs : List COutput) (coin : COutput) : List COutput :=
  if inputs.any (·.outpoint == coin.outpoint) then inputs else inputs ++ [coin]

def addInput (result : SelectionResult) (group : OutputGroup) : SelectionResult :=
  { result with
    selectedInputs := group.outputs.foldl insertCoin result.selectedInputs
    useEffective := !group.subtractFeeOutputs }

def computeAndSetWaste (result : SelectionResult) (changeCost : Int) : Option SelectionResult :=
  (getSelectionWaste result.selectedInputs changeCost result.target result.useEffective).map
    fun waste => { result with waste := some waste }

end SelectionResult

/-- The variables of the search. The selections have their last group first. -/
structure BnB where
  index : Nat
  selection : List Nat
  value : Int
  available : Int
  waste : Int
  bestSelection : List Nat
  bestWaste : Int

/-- The loop breaks, or an assertion or the access to a group fails. -/
inductive BnBEnd where
  | finished (s : BnB)
  | failed

/-- The arguments of `SelectCoinsBnB`. -/
structure BnBTask where
  pool : List OutputGroup
  target : Int
  cost : Int

/-- A number of the group at a position. -/
def fieldAt (q : BnBTask) (f : OutputGroup → Int) (i : Nat) : Int := q.pool[i]?.elim 0 f

namespace BnB

variable (q : BnBTask)

/-- Add the groups after `back` that were omitted. -/
def addBack (back : Nat) : Nat → Int → Int
  | index + 1, available =>
    if back < index then addBack back index (available + fieldAt q getSelectionAmount index)
    else available
  | 0, available => available

/-- Omit the last group that is selected. -/
def backtrack (s : BnB) : Except BnBEnd BnB :=
  match s.selection with
  | [] => .error (.finished s)
  | back :: rest =>
    match q.pool[back]? with
    | some utxo =>
      if s.index ≤ back then .error .failed
      else .ok { s with
        index := back + 1
        selection := rest
        value := s.value - utxo.getSelectionAmount
        available := addBack q back s.index s.available
        waste := s.waste - utxo.feeDiff }
    | none => .error .failed

/-- Include the next group, or omit it if the one before is the same and omitted. -/
def forward (s : BnB) : Except BnBEnd BnB :=
  match q.pool[s.index]? with
  | some utxo =>
    let omitted := { s with
      index := s.index + 1, available := s.available - utxo.getSelectionAmount }
    if s.selection = [] ∨ s.selection.head? = some (s.index - 1) ∨
        utxo.getSelectionAmount ≠ fieldAt q getSelectionAmount (s.index - 1) ∨
        utxo.fee ≠ fieldAt q OutputGroup.fee (s.index - 1) then
      .ok { omitted with
        selection := s.index :: s.selection
        value := s.value + utxo.getSelectionAmount
        waste := s.waste + utxo.feeDiff }
    else .ok omitted
  | none => .error .failed

/-- The selection is in the range: is it the best one? -/
def record (s : BnB) : BnB :=
  if s.waste + (s.value - q.target) ≤ s.bestWaste then
    { s with bestSelection := s.selection, bestWaste := s.waste + (s.value - q.target) }
  else s

/-- One try. -/
def step (s : BnB) : Except BnBEnd BnB :=
  if s.value + s.available < q.target ∨ s.value > q.target + q.cost ∨
      s.waste > s.bestWaste ∧ q.pool.head?.any (fun g => g.fee > g.longTermFee) then
    s.backtrack q
  else if s.value ≥ q.target then (s.record q).backtrack q
  else s.forward q

def run : Nat → BnB → Except BnBEnd BnB
  | 0, s => .ok s
  | tries + 1, s => do run tries (← step q s)

def start (available : Int) : BnB := ⟨0, [], 0, available, 0, [], maxMoney⟩

/-- The end of `SelectCoinsBnB`. The waste is computed again from the coins. -/
def result (s : BnB) : Except Unit (Option SelectionResult) :=
  if s.bestSelection = [] then .ok none
  else
    let groups := s.bestSelection.reverse.filterMap (q.pool[·]?)
    match (groups.foldl SelectionResult.addInput ⟨[], false, none, q.target⟩).computeAndSetWaste
      0 with
    | some result => if result.waste = s.bestWaste then .ok (some result) else .error ()
    | none => .error ()

end BnB

section

variable (sort : List OutputGroup → List OutputGroup) (q : BnBTask)

/-- The pool is sorted. The order of equal amounts is open. -/
def BnBTask.sorted : BnBTask := { q with pool := sort q.pool }

/-- The loop of `SelectCoinsBnB`, with `TOTAL_TRIES`. -/
def searchBnB : Except BnBEnd BnB :=
  BnB.run (q.sorted sort) 100000 (.start (q.pool.map getSelectionAmount).sum)

/-- `SelectCoinsBnB`. -/
def selectCoinsBnB : Except Unit (Option SelectionResult) :=
  if q.pool = [] then .ok none
  else if ∃ g ∈ q.pool, g.getSelectionAmount ≤ 0 then .error ()
  else if (q.pool.map getSelectionAmount).sum < q.target then .ok none
  else
    match searchBnB sort q with
    | .error .failed => .error ()
    | .error (.finished s) => s.result (q.sorted sort)
    | .ok s => s.result (q.sorted sort)

end

/-- Groups whose total is in the range. -/
def InRange (q : BnBTask) (groups : List OutputGroup) : Prop :=
  q.target ≤ (groups.map getSelectionAmount).sum ∧
    (groups.map getSelectionAmount).sum ≤ q.target + q.cost

/-- The target and the amounts are positive, no fee is below its long term fee, equal fees
have equal long term fees, and no waste exceeds `MAX_MONEY`. The groups are of one wallet
transaction: they have one flag and different coins, and no sum leaves the range of money. -/
structure BnBTask.Fits (q : BnBTask) : Prop where
  target : 0 < q.target
  flag : ∀ g ∈ q.pool, ∀ h ∈ q.pool, g.subtractFeeOutputs = h.subtractFeeOutputs
  outpoints : ((q.pool.flatMap OutputGroup.outputs).map COutput.outpoint).Nodup
  sums : (q.pool.map getSelectionAmount).sum ≤ maxMoney ∧
    (q.pool.map OutputGroup.fee).sum ≤ maxMoney ∧ q.target + q.cost ≤ maxMoney
  amount : ∀ g ∈ q.pool, 0 < g.getSelectionAmount
  fee : ∀ g ∈ q.pool, g.longTermFee ≤ g.fee
  same : ∀ g ∈ q.pool, ∀ h ∈ q.pool, g.fee = h.fee → g.longTermFee = h.longTermFee
  money : ∀ groups, groups <+~ q.pool → InRange q groups → waste q.target groups ≤ maxMoney

/-- The result has the coins of these groups, which are of the pool and in the range. -/
structure Selects (q : BnBTask) (groups : List OutputGroup) (result : SelectionResult) :
    Prop where
  subperm : groups <+~ q.pool
  range : InRange q groups
  inputs : result.selectedInputs = groups.flatMap OutputGroup.outputs
  waste : result.waste = waste q.target groups

/-! ## The coins of the groups -/

section Coins

open SelectionResult

theorem foldl_insertCoin : ∀ {coins inputs : List COutput},
    ((inputs ++ coins).map COutput.outpoint).Nodup →
    coins.foldl insertCoin inputs = inputs ++ coins
  | [], inputs, _ => (append_nil inputs).symm
  | coin :: coins, inputs, h => by
    have hnew : insertCoin inputs coin = inputs ++ [coin] := by
      rw [map_append, map_cons] at h
      refine if_neg fun hany => ?_
      obtain ⟨other, hother, heq⟩ := any_eq_true.mp hany
      exact (nodup_append.mp h).2.2 _ (mem_map_of_mem hother) _ mem_cons_self (eq_of_beq heq)
    rw [foldl_cons, hnew, foldl_insertCoin (by rwa [append_assoc, singleton_append]),
      append_assoc, singleton_append]

theorem foldl_addInput {flag : Bool} : ∀ {groups : List OutputGroup} {result : SelectionResult},
    (∀ g ∈ groups, g.subtractFeeOutputs = flag) →
    ((result.selectedInputs ++ groups.flatMap OutputGroup.outputs).map COutput.outpoint).Nodup →
    groups.foldl addInput result = { result with
      selectedInputs := result.selectedInputs ++ groups.flatMap OutputGroup.outputs
      useEffective := if groups = [] then result.useEffective else !flag }
  | [], result, _, _ => by simp
  | g :: groups, result, hflag, h => by
    rw [flatMap_cons, ← append_assoc] at h
    have hfirst := foldl_insertCoin (h.sublist ((sublist_append_left _ _).map _))
    have hinputs : (result.addInput g).selectedInputs = result.selectedInputs ++ g.outputs := hfirst
    rw [foldl_cons, foldl_addInput (fun g' hg' => hflag g' (mem_cons_of_mem g hg'))
      (by rw [hinputs]; exact h), hinputs, append_assoc, ← flatMap_cons]
    simp [addInput, hflag g mem_cons_self]

variable {q : BnBTask} {groups : List OutputGroup}

theorem sum_coins (f : COutput → Int) :
    ((groups.flatMap OutputGroup.outputs).map f).sum
      = (groups.map fun g => (g.outputs.map f).sum).sum := by
  rw [map_flatMap, flatMap_def, sum_flatten, map_map]
  rfl

theorem sum_feeDiff : ∀ coins : List COutput,
    (coins.map fun coin => coin.fee - coin.longTermFee).sum
      = (coins.map COutput.fee).sum - (coins.map COutput.longTermFee).sum
  | [] => rfl
  | coin :: coins => by
    simp only [map_cons, sum_cons, sum_feeDiff coins]
    omega

/-- The waste of the coins is that of the groups, and no assertion fails. -/
theorem computeAndSetWaste_groups (hq : q.Fits) (hsub : groups <+~ q.pool)
    (hrange : InRange q groups) : ∃ result,
      (groups.foldl addInput ⟨[], false, none, q.target⟩).computeAndSetWaste 0 = some result ∧
        Selects q groups result := by
  have hne : groups ≠ [] := by
    rintro rfl
    exact absurd hrange.1 (not_le.mpr hq.target)
  obtain ⟨first, rest, hgroups⟩ := exists_cons_of_ne_nil hne
  have hflag (g : OutputGroup) (hg : g ∈ groups) :
      g.subtractFeeOutputs = first.subtractFeeOutputs :=
    hq.flag g (hsub.subset hg) first (hsub.subset (hgroups ▸ mem_cons_self))
  have hnodup : ((groups.flatMap OutputGroup.outputs).map COutput.outpoint).Nodup := by
    obtain ⟨sub, hperm, hsub⟩ := hsub
    refine (((hperm.flatMap_right _).map _).nodup_iff).mp (hq.outpoints.sublist ?_)
    exact (hsub.flatMap _).map _
  have hselected : ((groups.flatMap OutputGroup.outputs).map fun coin =>
      if !first.subtractFeeOutputs then coin.effectiveValue else coin.nValue).sum
        = (groups.map getSelectionAmount).sum := by
    rw [sum_coins]
    refine congrArg _ (map_congr_left fun g hg => ?_)
    rw [getSelectionAmount, hflag g hg]
    cases first.subtractFeeOutputs with
    | false => rfl
    | true => rfl
  have hfee : ((groups.flatMap OutputGroup.outputs).map fun coin =>
      coin.fee - coin.longTermFee).sum = (groups.map feeDiff).sum := by
    rw [sum_coins]
    exact congrArg _ (map_congr_left fun g _ => sum_feeDiff g.outputs)
  have hcoins : groups.flatMap OutputGroup.outputs ≠ [] := by
    intro hnil
    rw [hnil] at hselected
    have hle := hrange.1
    rw [← hselected] at hle
    exact absurd hle (not_le.mpr hq.target)
  rw [foldl_addInput hflag (by simpa using hnodup), computeAndSetWaste, getSelectionWaste]
  simp only [nil_append, hne, hcoins, if_false, ne_eq, not_true_eq_false, hselected, hfee,
    hrange.1, if_true, Option.map_some]
  exact ⟨_, rfl, hsub, hrange, rfl, rfl⟩

end Coins

/-! ## The search -/

namespace BnB

variable {q : BnBTask} {s : BnB} {S : Finset ℕ}
  {f : OutputGroup → Int}

theorem range_filterMap : ∀ pool : List OutputGroup, (range pool.length).filterMap (pool[·]?) = pool
  | [] => rfl
  | g :: pool => by
    rw [length_cons, range_succ_eq_map, filterMap_cons_some (by rfl), filterMap_map]
    exact congrArg _ (range_filterMap pool)

theorem sum_filterMap (l : List ℕ) :
    ((l.filterMap (q.pool[·]?)).map f).sum = (l.map (fieldAt q f)).sum := by
  induction l with
  | nil => rfl
  | cons i l ih =>
    rw [map_cons, sum_cons, ← ih, fieldAt]
    cases h : q.pool[i]? with
    | none => rw [filterMap_cons_none h, Option.elim_none, zero_add]
    | some g => rw [filterMap_cons_some h, map_cons, sum_cons, Option.elim_some]

theorem filterMap_subperm {l : List ℕ} (hnodup : l.Nodup) (h : ∀ i ∈ l, i < q.pool.length) :
    l.filterMap (q.pool[·]?) <+~ q.pool := by
  obtain ⟨l', hperm, hsub⟩ := subperm_of_subset hnodup fun i hi => mem_range.mpr (h i hi)
  have hsub := hsub.filterMap (q.pool[·]?)
  rw [range_filterMap] at hsub
  exact ⟨_, hperm.filterMap _, hsub⟩

/-- The sum of a number over positions. -/
def total (q : BnBTask) (f : OutputGroup → Int) (S : Finset ℕ) : Int :=
  ∑ i ∈ S, fieldAt q f i

def wasteOf (q : BnBTask) (S : Finset ℕ) : Int :=
  total q feeDiff S + (total q getSelectionAmount S - q.target)

/-- Positions of the pool whose total is in the range. -/
structure Solution (q : BnBTask) (S : Finset ℕ) : Prop where
  subset : S ⊆ Finset.range q.pool.length
  le : q.target ≤ total q getSelectionAmount S
  ge : total q getSelectionAmount S ≤ q.target + q.cost

theorem sum_groups {l : List ℕ} (hnodup : l.Nodup) :
    ((l.filterMap (q.pool[·]?)).map f).sum = total q f l.toFinset := by
  rw [sum_filterMap, total, sum_toFinset _ hnodup]

theorem exists_positions {groups : List OutputGroup} (h : groups <+~ q.pool) :
    ∃ S ⊆ Finset.range q.pool.length, ∀ f, (groups.map f).sum = total q f S := by
  obtain ⟨sub, hperm, hsub⟩ := h
  rw [← range_filterMap q.pool] at hsub
  obtain ⟨l, hl, rfl⟩ := sublist_filterMap_iff.mp hsub
  refine ⟨l.toFinset, fun i hi => ?_, fun f => ?_⟩
  · exact Finset.mem_range.mpr (mem_range.mp (hl.subset (mem_toFinset.mp hi)))
  · rw [← sum_groups (hl.nodup nodup_range)]
    exact ((hperm.map f).sum_eq).symm

theorem wasteOf_le_maxMoney (hq : q.Fits) (hS : Solution q S) : wasteOf q S ≤ maxMoney := by
  have hsum (f : OutputGroup → Int) :
      ((S.toList.filterMap (q.pool[·]?)).map f).sum = total q f S := by
    rw [sum_groups S.nodup_toList, Finset.toList_toFinset]
  have hmoney := hq.money (S.toList.filterMap (q.pool[·]?))
    (filterMap_subperm S.nodup_toList fun i hi =>
      Finset.mem_range.mp (hS.subset (Finset.mem_toList.mp hi)))
  rw [InRange, OutputGroup.waste, hsum, hsum] at hmoney
  exact hmoney ⟨hS.le, hS.ge⟩

theorem fieldAt_nonneg (hf : ∀ g ∈ q.pool, 0 ≤ f g) (i : ℕ) : 0 ≤ fieldAt q f i := by
  unfold fieldAt
  cases h : q.pool[i]? with
  | none => exact le_rfl
  | some g => exact hf g (mem_of_getElem? h)

def Agrees (s : BnB) (S : Finset ℕ) (m : ℕ) : Prop := ∀ i < m, i ∈ S ↔ i ∈ s.selection

/-- The search has left the subset behind. -/
def Passed (s : BnB) (S : Finset ℕ) : Prop :=
  ∃ j < s.index, j ∈ S ∧ j ∉ s.selection ∧ s.Agrees S j

/-- There is a best selection that wastes no more. -/
def Bounds (q : BnBTask) (s : BnB) (S : Finset ℕ) : Prop :=
  s.bestSelection ≠ [] ∧ s.bestWaste ≤ wasteOf q S

/-- The invariant of the search. -/
structure Searching (q : BnBTask) (s : BnB) : Prop where
  index : s.index ≤ q.pool.length
  sorted : s.selection.Pairwise (· > ·)
  below : ∀ i ∈ s.selection, i < s.index
  value : s.value = (s.selection.map (fieldAt q getSelectionAmount)).sum
  waste : s.waste = (s.selection.map (fieldAt q feeDiff)).sum
  available : s.available = total q getSelectionAmount (Finset.Ico s.index q.pool.length)
  best : s.bestSelection = [] ∧ s.bestWaste = maxMoney ∨ s.bestSelection.Nodup ∧
    Solution q s.bestSelection.toFinset ∧ s.bestWaste = wasteOf q s.bestSelection.toFinset
  passed : ∀ S, Solution q S → s.Passed S → s.Bounds q S

theorem Searching.nodup (hs : Searching q s) : s.selection.Nodup :=
  hs.sorted.imp fun h => (ne_of_lt h).symm

theorem Searching.total_selection (hs : Searching q s) :
    (s.selection.map (fieldAt q f)).sum = total q f s.selection.toFinset :=
  (sum_toFinset _ hs.nodup).symm

theorem Searching.total_of_agrees (hs : Searching q s)
    (hS : S ⊆ Finset.range q.pool.length) (hagrees : s.Agrees S s.index)
    (hf : ∀ i, 0 ≤ fieldAt q f i) : (s.selection.map (fieldAt q f)).sum ≤ total q f S ∧
      total q f S ≤ (s.selection.map (fieldAt q f)).sum
        + total q f (Finset.Ico s.index q.pool.length) := by
  have hselected : S.filter (· < s.index) = s.selection.toFinset := by
    ext i
    rw [Finset.mem_filter, mem_toFinset]
    exact ⟨fun h => (hagrees i h.2).mp h.1,
      fun h => ⟨(hagrees i (hs.below i h)).mpr h, hs.below i h⟩⟩
  have hrest : S.filter (¬ · < s.index) ⊆ Finset.Ico s.index q.pool.length := by
    intro i hi
    rw [Finset.mem_filter, not_lt] at hi
    exact Finset.mem_Ico.mpr ⟨hi.2, Finset.mem_range.mp (hS hi.1)⟩
  have hle := Finset.sum_le_sum_of_subset_of_nonneg hrest fun i _ _ => hf i
  have hnonneg := Finset.sum_nonneg fun i (_ : i ∈ S.filter (¬ · < s.index)) => hf i
  rw [hs.total_selection, ← hselected]
  unfold total
  rw [← Finset.sum_filter_add_sum_filter_not S (· < s.index)]
  omega

theorem passed_or_agrees {m : ℕ} (hm : ∀ i ∈ s.selection, i < m) (hagrees : s.Agrees S m) :
    s.Passed S ∨ s.Agrees S s.index := by
  by_cases hmore : ∃ j, j < s.index ∧ m ≤ j ∧ j ∈ S
  · obtain ⟨hlt, hle, hmem⟩ := Nat.find_spec hmore
    refine .inl ⟨_, hlt, hmem, fun h => absurd (hm _ h) (not_lt.mpr hle), fun i hi => ?_⟩
    by_cases him : i < m
    · exact hagrees i him
    · have hnot := Nat.find_min hmore hi
      exact ⟨fun h => absurd ⟨hi.trans hlt, not_lt.mp him, h⟩ hnot, fun h => absurd (hm i h) him⟩
  · refine .inr fun i hi => ?_
    by_cases him : i < m
    · exact hagrees i him
    · exact ⟨fun h => absurd ⟨i, hi, not_lt.mp him, h⟩ hmore, fun h => absurd (hm i h) him⟩

theorem addBack_eq {back : ℕ} : ∀ {index : ℕ} (available : Int), back < index →
    addBack q back index available
      = available + total q getSelectionAmount (Finset.Ico (back + 1) index)
  | index + 1, available, h => by
    rw [addBack]
    split_ifs with hlt
    · rw [addBack_eq _ hlt, total, total, Finset.sum_Ico_succ_top (show back + 1 ≤ index from hlt)]
      omega
    · have heq : index = back := by omega
      rw [heq, total, Finset.Ico_self, Finset.sum_empty, add_zero]

/-- What a try leaves: the invariant, and after a break every solution is bounded. -/
def Good (q : BnBTask) : Except BnBEnd BnB → Prop
  | .ok s => Searching q s
  | .error (.finished s) => Searching q s ∧ ∀ S, Solution q S → s.Bounds q S
  | .error .failed => False

theorem fieldAt_of_getElem? {i : ℕ} {utxo : OutputGroup} (h : q.pool[i]? = some utxo)
    (f : OutputGroup → Int) : fieldAt q f i = f utxo := by
  rw [fieldAt, h, Option.elim_some]

theorem Searching.backtrack (hs : Searching q s)
    (hcut : ∀ S, Solution q S → s.Agrees S s.index → s.Bounds q S) : Good q (s.backtrack q) := by
  have hbounds {S : Finset ℕ} {m : ℕ} (hS : Solution q S)
      (hm : ∀ i ∈ s.selection, i < m) (hagrees : s.Agrees S m) : s.Bounds q S :=
    (passed_or_agrees hm hagrees).elim (hs.passed S hS) (hcut S hS)
  unfold BnB.backtrack
  cases hselection : s.selection with
  | nil =>
    refine ⟨hs, fun S hS => hbounds (m := 0) hS ?_ fun i hi => absurd hi (Nat.not_lt_zero i)⟩
    rw [hselection]
    exact fun i hi => absurd hi not_mem_nil
  | cons back rest =>
    have hback : back < s.index := hs.below back (hselection ▸ mem_cons_self)
    obtain ⟨hlt, hrest⟩ := pairwise_cons.mp (hselection ▸ hs.sorted)
    have hvalue := hs.value
    have hwaste := hs.waste
    have hlength := hback.trans_le hs.index
    have hutxo := getElem?_eq_getElem hlength
    have hfield := fieldAt_of_getElem? hutxo
    rw [hselection, map_cons, sum_cons, hfield] at hvalue hwaste
    dsimp only
    rw [hutxo]
    dsimp only
    rw [if_neg (not_le.mpr hback)]
    refine ⟨hlength, hrest, fun i hi => (hlt i hi).trans (Nat.lt_succ_self back), ?_, ?_, ?_,
      hs.best, fun S hS hpassed => ?_⟩
    · exact sub_eq_of_eq_add' hvalue
    · exact sub_eq_of_eq_add' hwaste
    · rw [addBack_eq _ hback, hs.available]
      exact (add_comm _ _).trans (Finset.sum_Ico_consecutive (fieldAt q getSelectionAmount)
        (show back + 1 ≤ s.index from hback) hs.index)
    · obtain ⟨j, hj, hmem, hnot, hagrees⟩ := hpassed
      have hsame {i : ℕ} (hi : i ≠ back) : i ∈ s.selection ↔ i ∈ rest := by
        rw [hselection, mem_cons]
        exact or_iff_right hi
      have hagrees' (i : ℕ) (hi : i < j) (hij : i ≠ back) : i ∈ S ↔ i ∈ s.selection :=
        (hagrees i hi).trans (hsame hij).symm
      by_cases hjb : j = back
      · -- the subset is below the branch that includes the last group
        subst hjb
        refine hbounds (m := j + 1) hS (fun i hi => ?_) fun i hi => ?_
        · rw [hselection, mem_cons] at hi
          rcases hi with rfl | hi
          · exact hj
          · exact (hlt i hi).trans hj
        · by_cases hij : i = j
          · subst hij
            exact iff_of_true hmem (hselection ▸ mem_cons_self)
          · exact hagrees' i (by omega) hij
      · have hj : j < back + 1 := hj
        exact hs.passed S hS ⟨j, by omega, hmem, fun h => hnot ((hsame hjb).mp h),
          fun i hi => hagrees' i hi (by omega)⟩

theorem total_swap {k j : ℕ} (hk : k ∉ S) (hj : j ∈ S) (hf : fieldAt q f k = fieldAt q f j) :
    total q f (insert k (S.erase j)) = total q f S := by
  rw [total, Finset.sum_insert fun h => hk (Finset.mem_of_mem_erase h), hf,
    Finset.add_sum_erase _ _ hj, total]

/-- A group that is like an omitted one before it can be exchanged for that one. -/
theorem Searching.bounds_of_same (hs : Searching q s) {j k : ℕ}
    (hS : Solution q S) (hkj : k < j) (hj : j ≤ s.index) (hmem : j ∈ S)
    (hk : k ∉ s.selection) (hagrees : s.Agrees S j)
    (hamount : fieldAt q getSelectionAmount k = fieldAt q getSelectionAmount j)
    (hfee : fieldAt q feeDiff k = fieldAt q feeDiff j) : s.Bounds q S := by
  have hkS : k ∉ S := fun h => hk ((hagrees k hkj).mp h)
  have hamount := total_swap hkS hmem hamount
  have hwaste : wasteOf q (insert k (S.erase j)) = wasteOf q S := by
    rw [wasteOf, total_swap hkS hmem hfee, hamount, wasteOf]
  unfold Bounds
  rw [← hwaste]
  refine hs.passed _ ⟨?_, ?_, ?_⟩ ⟨k, by omega, Finset.mem_insert_self k _, hk, fun i hi => ?_⟩
  · refine Finset.insert_subset ?_ ((Finset.erase_subset j S).trans hS.subset)
    have hlength := Finset.mem_range.mp (hS.subset hmem)
    exact Finset.mem_range.mpr (by omega)
  · rw [hamount]
    exact hS.le
  · rw [hamount]
    exact hS.ge
  · rw [Finset.mem_insert, Finset.mem_erase, ← hagrees i (by omega)]
    exact ⟨fun h => (h.resolve_left (by omega)).2, fun h => .inr ⟨by omega, h⟩⟩

theorem Searching.forward (hq : q.Fits) (hs : Searching q s)
    (hreach : q.target ≤ s.value + s.available) (hvalue : s.value < q.target) :
    Good q (s.forward q) := by
  have hlength : s.index < q.pool.length := by
    by_contra hend
    have havailable := hs.available
    rw [total, Finset.Ico_eq_empty (by omega), Finset.sum_empty] at havailable
    omega
  have hutxo := getElem?_eq_getElem hlength
  have hfield := fieldAt_of_getElem? hutxo
  have hrest := hs.available
  rw [total, Finset.sum_eq_sum_Ico_succ_bot hlength, hfield] at hrest
  unfold BnB.forward
  rw [hutxo]
  dsimp only
  split_ifs with hinclude
  · refine ⟨hlength, pairwise_cons.mpr ⟨hs.below, hs.sorted⟩, ?_, ?_, ?_, sub_eq_of_eq_add' hrest,
      hs.best, fun S hS hpassed => ?_⟩
    · intro i hi
      rcases mem_cons.mp hi with rfl | hi
      · exact Nat.lt_succ_self _
      · exact (hs.below i hi).trans (Nat.lt_succ_self _)
    · rw [map_cons, sum_cons, hfield, ← hs.value]
      exact add_comm ..
    · rw [map_cons, sum_cons, hfield, ← hs.waste]
      exact add_comm ..
    · obtain ⟨j, hj, hmem, hnot, hagrees⟩ := hpassed
      obtain ⟨hne, hnot⟩ := not_or.mp (mt mem_cons.mpr hnot)
      have hj : j < s.index := by
        have hj : j < s.index + 1 := hj
        omega
      refine hs.passed S hS ⟨j, hj, hmem, hnot, fun i hi => (hagrees i hi).trans ?_⟩
      rw [mem_cons]
      exact or_iff_right (by omega)
  · refine ⟨hlength, hs.sorted, fun i hi => (hs.below i hi).trans (Nat.lt_succ_self _), hs.value,
      hs.waste, sub_eq_of_eq_add' hrest, hs.best, fun S hS hpassed => ?_⟩
    obtain ⟨j, hj, hmem, hnot, hagrees⟩ := hpassed
    obtain hj | rfl := Nat.lt_succ_iff_lt_or_eq.mp hj
    · exact hs.passed S hS ⟨j, hj, hmem, hnot, hagrees⟩
    · push Not at hinclude
      obtain ⟨hne, hhead, hamount, hfee⟩ := hinclude
      obtain ⟨back, rest, hselection⟩ := exists_cons_of_ne_nil hne
      have hback : back < s.index := hs.below back (hselection ▸ mem_cons_self)
      have hprev : s.index - 1 ∉ s.selection := by
        have hsorted := hs.sorted
        rw [hselection] at hsorted hhead ⊢
        intro hmem
        rcases mem_cons.mp hmem with heq | hmem
        · exact hhead (congrArg some heq.symm)
        · have hlt := (pairwise_cons.mp hsorted).1 _ hmem
          omega
      have hpred := getElem?_eq_getElem (l := q.pool) (i := s.index - 1) (by omega)
      have hpredField := fieldAt_of_getElem? hpred
      rw [hpredField] at hamount hfee
      refine hs.bounds_of_same hS (by omega) le_rfl hmem hprev hagrees ?_ ?_
      · rw [hpredField, hfield, hamount]
      · have hsame := hq.same _ (mem_of_getElem? hutxo) _ (mem_of_getElem? hpred) hfee
        rw [hpredField, hfield, feeDiff, feeDiff, hfee, hsame]

theorem Searching.wasteOf_of_agrees (hq : q.Fits)
    (hs : Searching q s) (hS : S ⊆ Finset.range q.pool.length) (hagrees : s.Agrees S s.index) :
    s.value ≤ total q getSelectionAmount S ∧ total q getSelectionAmount S ≤ s.value + s.available ∧
      s.waste ≤ total q feeDiff S := by
  have hamount := hs.total_of_agrees hS hagrees
    (fieldAt_nonneg fun g hg => (hq.amount g hg).le)
  have hfee := hs.total_of_agrees (f := feeDiff) hS hagrees
    (fieldAt_nonneg fun g hg => sub_nonneg.mpr (hq.fee g hg))
  rw [hs.value, hs.available, hs.waste]
  exact ⟨hamount.1, hamount.2, hfee.1⟩

theorem Solution.ne_nil (htarget : 0 < q.target) {l : List ℕ}
    (h : Solution q l.toFinset) : l ≠ [] := by
  rintro rfl
  have hle := h.le
  rw [toFinset_nil, total, Finset.sum_empty] at hle
  omega

theorem Searching.bestSelection_ne_nil (hq : q.Fits)
    (hs : Searching q s) (hlt : s.bestWaste < maxMoney) : s.bestSelection ≠ [] := by
  rcases hs.best with ⟨-, hbest⟩ | ⟨-, hsolution, -⟩
  · omega
  · exact hsolution.ne_nil hq.target

theorem Searching.bounds_of_prune (hq : q.Fits) (hs : Searching q s)
    (h : s.value + s.available < q.target ∨ s.value > q.target + q.cost ∨ s.waste > s.bestWaste)
    (hS : Solution q S) (hagrees : s.Agrees S s.index) : s.Bounds q S := by
  obtain ⟨hamount, hreach, hfee⟩ := hs.wasteOf_of_agrees hq hS.subset hagrees
  have hle := hS.le
  have hge := hS.ge
  have hmoney := wasteOf_le_maxMoney hq hS
  have hless : s.bestWaste < wasteOf q S := by
    unfold wasteOf
    omega
  exact ⟨hs.bestSelection_ne_nil hq (hless.trans_le hmoney), hless.le⟩

theorem Searching.record (hq : q.Fits) (hs : Searching q s)
    (hle : q.target ≤ s.value) (hge : s.value ≤ q.target + q.cost) :
    Searching q (s.record q) ∧ ∀ S, Solution q S → (s.record q).Agrees S (s.record q).index →
      (s.record q).Bounds q S := by
  have hsolution : Solution q s.selection.toFinset := by
    refine ⟨fun i hi => ?_, ?_, ?_⟩
    · exact Finset.mem_range.mpr ((hs.below i (mem_toFinset.mp hi)).trans_le hs.index)
    · rwa [← hs.total_selection, ← hs.value]
    · rwa [← hs.total_selection, ← hs.value]
  have hwaste : s.waste + (s.value - q.target) = wasteOf q s.selection.toFinset := by
    rw [wasteOf, ← hs.total_selection, ← hs.total_selection, ← hs.value, ← hs.waste]
  have hmoney := wasteOf_le_maxMoney hq hsolution
  have hne := hsolution.ne_nil hq.target
  have hmore {S : Finset ℕ} (hS : Solution q S) (hagrees : s.Agrees S s.index) :
      s.waste + (s.value - q.target) ≤ wasteOf q S := by
    obtain ⟨hamount, -, hfee⟩ := hs.wasteOf_of_agrees hq hS.subset hagrees
    unfold wasteOf
    omega
  unfold BnB.record
  split_ifs with hbetter
  · refine ⟨⟨hs.index, hs.sorted, hs.below, hs.value, hs.waste, hs.available,
      .inr ⟨hs.nodup, hsolution, hwaste⟩, fun S hS hpassed => ?_⟩,
      fun S hS hagrees => ⟨hne, hmore hS hagrees⟩⟩
    exact ⟨hne, hbetter.trans (hs.passed S hS hpassed).2⟩
  · refine ⟨hs, fun S hS hagrees => ⟨hs.bestSelection_ne_nil hq (by omega), ?_⟩⟩
    exact (not_le.mp hbetter).le.trans (hmore hS hagrees)

theorem Searching.step (hq : q.Fits) (hs : Searching q s) : Good q (s.step q) := by
  unfold BnB.step
  split_ifs with hprune hreach
  · exact hs.backtrack fun S hS =>
      hs.bounds_of_prune hq (hprune.imp_right fun h => h.imp_right And.left) hS
  · obtain ⟨-, hprune⟩ := not_or.mp hprune
    obtain ⟨hrecord, hbounds⟩ := hs.record hq hreach (not_lt.mp (not_or.mp hprune).1)
    exact hrecord.backtrack hbounds
  · exact hs.forward hq (not_lt.mp (not_or.mp hprune).1) (not_le.mp hreach)

theorem Searching.run (hq : q.Fits) : ∀ {tries : ℕ} {s : BnB},
    Searching q s → Good q (run q tries s)
  | 0, _, hs => hs
  | tries + 1, s, hs => by
    have hgood := hs.step hq
    rw [BnB.run]
    cases h : s.step q with
    | error e =>
      rw [h] at hgood
      exact hgood
    | ok s' =>
      rw [h] at hgood
      exact Searching.run hq hgood

theorem total_range : total q f (Finset.range q.pool.length) = (q.pool.map f).sum := by
  rw [← toFinset_range, ← sum_groups nodup_range, range_filterMap]

theorem searching_start : Searching q (.start (q.pool.map getSelectionAmount).sum) := by
  refine ⟨Nat.zero_le _, .nil, fun i hi => absurd hi not_mem_nil, rfl, rfl, ?_, .inl ⟨rfl, rfl⟩,
    fun S _ hpassed => ?_⟩
  · rw [← total_range, Finset.range_eq_Ico]
    rfl
  · obtain ⟨j, hj, -⟩ := hpassed
    exact absurd hj (Nat.not_lt_zero j)

theorem Searching.result (hq : q.Fits) (hs : Searching q s) :
    s.bestSelection = [] ∧ s.result q = .ok none ∨ ∃ groups result,
      s.result q = .ok (some result) ∧ Selects q groups result ∧
      OutputGroup.waste q.target groups = s.bestWaste := by
  rcases hs.best with ⟨hnone, -⟩ | ⟨hnodup, hbest, hwaste⟩
  · exact .inl ⟨hnone, if_pos hnone⟩
  have hgroups (f : OutputGroup → Int) :
      ((s.bestSelection.reverse.filterMap (q.pool[·]?)).map f).sum
        = total q f s.bestSelection.toFinset := by
    rw [sum_groups (nodup_reverse.mpr hnodup), toFinset_reverse]
  have hsub : s.bestSelection.reverse.filterMap (q.pool[·]?) <+~ q.pool :=
    filterMap_subperm (nodup_reverse.mpr hnodup) fun i hi =>
      Finset.mem_range.mp (hbest.subset (mem_toFinset.mpr (mem_reverse.mp hi)))
  obtain ⟨result, hresult, hselects⟩ := computeAndSetWaste_groups hq hsub
    (by rw [InRange, hgroups]; exact ⟨hbest.le, hbest.ge⟩)
  have hsame : OutputGroup.waste q.target (s.bestSelection.reverse.filterMap (q.pool[·]?))
      = s.bestWaste := by
    rw [hwaste, OutputGroup.waste, hgroups, hgroups, wasteOf]
  refine .inr ⟨_, result, ?_, hselects, hsame⟩
  rw [BnB.result, if_neg (hbest.ne_nil hq.target)]
  dsimp only
  rw [hresult]
  exact if_pos (hselects.waste.trans (congrArg some hsame))

end BnB

section

variable {sort : List OutputGroup → List OutputGroup} {q : BnBTask}
  (hsort : sort q.pool ~ q.pool) (hq : q.Fits)
include hsort hq

theorem BnBTask.Fits.sorted : (q.sorted sort).Fits where
  target := hq.target
  flag g hg g' hg' := hq.flag g (hsort.mem_iff.mp hg) g' (hsort.mem_iff.mp hg')
  outpoints := (((hsort.flatMap_right _).map _).nodup_iff).mpr hq.outpoints
  sums := by
    have hsums := hq.sums
    rw [← (hsort.map _).sum_eq, ← (hsort.map OutputGroup.fee).sum_eq] at hsums
    exact hsums
  amount g hg := hq.amount g (hsort.mem_iff.mp hg)
  fee g hg := hq.fee g (hsort.mem_iff.mp hg)
  same g hg g' hg' := hq.same g (hsort.mem_iff.mp hg) g' (hsort.mem_iff.mp hg')
  money groups hgroups := hq.money groups (hgroups.trans hsort.subperm)

/-- `SelectCoinsBnB` ends before the search, or with the result of the search. -/
theorem selectCoinsBnB_cases :
    (q.pool.map getSelectionAmount).sum < q.target ∧ selectCoinsBnB sort q = .ok none ∨
    ∃ s, BnB.Searching (q.sorted sort) s ∧ selectCoinsBnB sort q = s.result (q.sorted sort) ∧
      (searchBnB sort q = .ok s ∨ ∀ S, BnB.Solution (q.sorted sort) S → s.Bounds (q.sorted sort) S)
    := by
  have hgood : BnB.Good (q.sorted sort) (searchBnB sort q) := by
    rw [searchBnB, ← (hsort.map getSelectionAmount).sum_eq]
    exact BnB.searching_start.run (hq.sorted hsort)
  have hpositive : ¬ ∃ g ∈ q.pool, g.getSelectionAmount ≤ 0 := by
    rintro ⟨g, hg, hle⟩
    exact absurd (hq.amount g hg) (not_lt.mpr hle)
  unfold selectCoinsBnB
  rw [if_neg hpositive]
  split_ifs with hempty hlow
  · rw [hempty]
    exact .inl ⟨hq.target, rfl⟩
  · exact .inl ⟨hlow, rfl⟩
  · cases hsearch : searchBnB sort q with
    | ok s =>
      rw [hsearch] at hgood
      exact .inr ⟨s, hgood, rfl, .inl rfl⟩
    | error e =>
      rw [hsearch] at hgood
      cases e with
      | failed => exact hgood.elim
      | finished s => exact .inr ⟨s, hgood.1, rfl, .inr hgood.2⟩

omit hq in
theorem Selects.of_sorted {groups : List OutputGroup} {result : SelectionResult}
    (h : Selects (q.sorted sort) groups result) : Selects q groups result :=
  ⟨h.subperm.trans hsort.subperm, h.range, h.inputs, h.waste⟩

end

/-- If the try limit is not reached, `SelectCoinsBnB` returns the coins of groups in the
range with the least waste, or nothing if no groups are in the range. -/
theorem selectCoinsBnB_optimal {sort : List OutputGroup → List OutputGroup} {q : BnBTask}
    (hsort : sort q.pool ~ q.pool) (hq : q.Fits) (hfinish : ∀ s, searchBnB sort q ≠ .ok s) :
    (∃ groups result, selectCoinsBnB sort q = .ok (some result) ∧ Selects q groups result ∧
      ∀ other, other <+~ q.pool → InRange q other → waste q.target groups ≤ waste q.target other) ∨
    selectCoinsBnB sort q = .ok none ∧ ∀ other, other <+~ q.pool → ¬ InRange q other := by
  have hsorted := hq.sorted hsort
  have hsolution {other : List OutputGroup} (h : other <+~ q.pool) (hrange : InRange q other) :
      ∃ S, BnB.Solution (q.sorted sort) S ∧
        BnB.wasteOf (q.sorted sort) S = waste q.target other := by
    obtain ⟨S, hS, htotal⟩ := BnB.exists_positions (q := q.sorted sort) (h.trans hsort.symm.subperm)
    rw [InRange, htotal] at hrange
    exact ⟨S, ⟨hS, hrange.1, hrange.2⟩, by rw [BnB.wasteOf, OutputGroup.waste, htotal, htotal]; rfl⟩
  rcases selectCoinsBnB_cases hsort hq with ⟨hlow, hnone⟩ | ⟨s, hs, hresult, hbounds⟩
  · refine .inr ⟨hnone, fun other hother hrange => ?_⟩
    obtain ⟨S, hS, -⟩ := hsolution hother hrange
    have hle : BnB.total _ _ S ≤ _ := Finset.sum_le_sum_of_subset_of_nonneg hS.subset
      fun i _ _ => BnB.fieldAt_nonneg (fun g hg => (hsorted.amount g hg).le) i
    have htotal := (hsort.map getSelectionAmount).sum_eq ▸
      BnB.total_range (q := q.sorted sort) (f := getSelectionAmount)
    exact absurd (hS.le.trans (hle.trans htotal.le)) (not_le.mpr hlow)
  have hbounds := hbounds.resolve_left (hfinish s)
  rw [hresult]
  rcases hs.result hsorted with ⟨hnone, hend⟩ | ⟨groups, result, hend, hselects, hwaste⟩
  · refine .inr ⟨hend, fun other hother hrange => ?_⟩
    obtain ⟨S, hS, -⟩ := hsolution hother hrange
    exact (hbounds S hS).1 hnone
  · refine .inl ⟨groups, result, hend, hselects.of_sorted hsort, fun other hother hrange => ?_⟩
    obtain ⟨S, hS, hother⟩ := hsolution hother hrange
    rw [← hother]
    exact hwaste.le.trans (hbounds S hS).2

/-- Three groups, the first one with two coins. -/
def threeGroups : BnBTask where
  pool := [⟨[⟨⟨1, 0⟩, 4, 3, 1, 0⟩, ⟨⟨1, 1⟩, 4, 3, 1, 0⟩], false⟩, ⟨[⟨⟨2, 0⟩, 6, 5, 1, 0⟩], false⟩,
    ⟨[⟨⟨3, 0⟩, 5, 4, 1, 0⟩], false⟩]
  target := 10
  cost := 1

theorem fits_threeGroups : threeGroups.Fits where
  target := by decide
  flag := by decide
  outpoints := by decide
  sums := by decide
  amount := by decide
  fee := by decide
  same := by decide
  money groups hgroups hrange := by
    obtain ⟨sub, hperm, hsub⟩ := hgroups
    have hfee : (groups.map feeDiff).sum ≤ (threeGroups.pool.map feeDiff).sum := by
      rw [← (hperm.map feeDiff).sum_eq]
      exact (hsub.map feeDiff).sum_le_sum (by decide)
    have htotal : (threeGroups.pool.map feeDiff).sum + threeGroups.cost ≤ maxMoney := by decide
    have hle := hrange.2
    rw [OutputGroup.waste]
    omega

theorem selectCoinsBnB_optimal_threeGroups :
    (∃ groups result, selectCoinsBnB id threeGroups = .ok (some result) ∧
      Selects threeGroups groups result ∧ ∀ other, other <+~ threeGroups.pool →
        InRange threeGroups other → waste 10 groups ≤ waste 10 other) ∧
    (selectCoinsBnB id threeGroups).toOption.bind (·.map SelectionResult.selectedInputs)
      = some [⟨⟨1, 0⟩, 4, 3, 1, 0⟩, ⟨⟨1, 1⟩, 4, 3, 1, 0⟩, ⟨⟨3, 0⟩, 5, 4, 1, 0⟩] := by
  have hfinish : ∀ s, searchBnB id threeGroups ≠ .ok s := by
    intro s h
    have hend : (searchBnB id threeGroups).toOption.isNone = true := by decide +kernel
    rw [h] at hend
    cases hend
  have hfound : (selectCoinsBnB id threeGroups).toOption.bind (·.map SelectionResult.selectedInputs)
      = some [⟨⟨1, 0⟩, 4, 3, 1, 0⟩, ⟨⟨1, 1⟩, 4, 3, 1, 0⟩, ⟨⟨3, 0⟩, 5, 4, 1, 0⟩] := by decide +kernel
  refine ⟨?_, hfound⟩
  rcases selectCoinsBnB_optimal (.refl _) fits_threeGroups hfinish with h | ⟨hnone, -⟩
  · exact h
  · rw [hnone] at hfound
    cases hfound

end KorshCore

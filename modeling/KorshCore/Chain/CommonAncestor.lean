import KorshCore.Chain.SkipPointers
import Mathlib.Logic.Function.Iterate

/-!
# Common ancestors

`LastCommonAncestor` and `CChain::FindFork` of `chain.cpp`, on a block index
that grows block by block. A `CChain` is what calls of `SetTip` leave.
-/

namespace KorshCore

open CBlockIndex

/-- The blocks of the index and their `pskip`. -/
structure SkipTree where
  blocks : List CBlockIndex
  pskip : CBlockIndex → Option CBlockIndex

/-- A new block on top of `prev`, for which `BuildSkip` is called. -/
def SkipTree.append (tree : SkipTree) (prev : CBlockIndex) (hash : Uint256) : SkipTree where
  blocks := prev.child hash :: tree.blocks
  pskip := Function.update tree.pskip (prev.child hash)
    (prev.getAncestorBySkips tree.pskip (getSkipHeight (prev.child hash).nHeight))

/-- The indexes that grow from a genesis block. -/
inductive SkipTree.Built (genesis : Uint256) : SkipTree → Prop where
  | start : Built genesis ⟨[⟨genesis, []⟩], fun _ => none⟩
  | append {tree : SkipTree} {prev : CBlockIndex} (h : Built genesis tree)
      (hprev : prev ∈ tree.blocks) (hash : Uint256) : Built genesis (tree.append prev hash)

theorem SkipTree.Built.skipsBelow {genesis : Uint256} {tree : SkipTree}
    (h : tree.Built genesis) (n : Nat) : SkipsBelow tree.pskip n := by
  induction h generalizing n with
  | start => exact fun _ _ _ hskip => nomatch hskip
  | @append tree prev _ _ hash ih =>
    intro pindex skip hn hskip
    by_cases hnew : pindex = prev.child hash
    · subst hnew
      have hlt := @getSkipHeight_lt (prev.child hash).nHeight (Nat.succ_pos _)
      rw [nHeight_child] at hlt
      have hskip := (Function.update_self ..).symm.trans hskip
      rw [getAncestorBySkips_eq_of_skips (ih prev.nHeight) le_rfl] at hskip
      refine ⟨Nat.succ_pos _, ?_⟩
      rw [getAncestor_child (by rw [nHeight_child]; omega)]
      exact hskip
    · exact ih n pindex skip hn ((Function.update_of_ne hnew ..).symm.trans hskip)

theorem SkipTree.Built.genesis_of_mem {genesis : Uint256} {tree : SkipTree}
    (h : tree.Built genesis) {pindex : CBlockIndex} (hmem : pindex ∈ tree.blocks) :
    pindex.getAncestor 0 = some ⟨genesis, []⟩ := by
  induction h generalizing pindex with
  | start =>
    rw [List.mem_singleton.mp hmem]
    rfl
  | append _ hprev hash ih =>
    rcases List.mem_cons.mp hmem with rfl | hmem
    · rw [getAncestor_child (Int.natCast_nonneg _), ih hprev]
    · exact ih hmem

namespace CBlockIndex

theorem iterate_pprev (n : Nat) (pindex : CBlockIndex) :
    (Option.bind · pprev)^[n] (some pindex) = ofPath (pindex.path.drop n) := by
  induction n generalizing pindex with
  | zero => rfl
  | succ n ih =>
    obtain ⟨hash, _ | ⟨first, rest⟩⟩ := pindex
    · have hnone : ∀ n, (Option.bind · pprev)^[n] none = none := Function.iterate_fixed rfl
      rw [Function.iterate_succ_apply]
      exact (hnone n).trans (by simp [path, ofPath])
    · rw [Function.iterate_succ_apply]
      exact ih ⟨first, rest⟩

/-- The block `d` is `pindex` or one of its ancestors. -/
def OnChain (pindex d : CBlockIndex) : Prop := pindex.getAncestor d.nHeight = some d

/-- The highest block of the chain of `pindex` with a property. -/
def IsHighest (P : CBlockIndex → Prop) (pindex c : CBlockIndex) : Prop :=
  (P c ∧ pindex.OnChain c) ∧ ∀ d, P d → pindex.OnChain d → d.nHeight ≤ c.nHeight

variable {P Q : CBlockIndex → Prop} {pindex prev c d : CBlockIndex}

theorem OnChain.le (h : pindex.OnChain d) : d.nHeight ≤ pindex.nHeight := by
  by_contra hlt
  rw [OnChain, getAncestor, if_pos (by simp; omega)] at h
  cases h

theorem OnChain.eq_of_le (h : pindex.OnChain d) (hle : pindex.nHeight ≤ d.nHeight) :
    d = pindex := by
  have heq := le_antisymm h.le hle
  rw [OnChain, heq, getAncestor_self] at h
  exact (Option.some.inj h).symm

theorem onChain_pprev (hprev : pindex.pprev = some prev) (hne : d ≠ pindex) :
    pindex.OnChain d ↔ prev.OnChain d := by
  have hheight := nHeight_of_pprev hprev
  by_cases hle : d.nHeight ≤ prev.nHeight
  · rw [OnChain, getAncestor_pprev hprev (by omega), OnChain]
  · exact ⟨fun h => absurd (h.eq_of_le (by omega)) hne, fun h => absurd h.le hle⟩

theorem isHighest_self (h : P pindex) : IsHighest P pindex pindex :=
  ⟨⟨h, getAncestor_self pindex⟩, fun _ _ => OnChain.le⟩

theorem IsHighest.of_pprev (hprev : pindex.pprev = some prev) (hnot : ¬ P pindex)
    (h : IsHighest P prev c) : IsHighest P pindex c := by
  have hne {d : CBlockIndex} (hd : P d) : d ≠ pindex := fun heq => hnot (heq ▸ hd)
  exact ⟨⟨h.1.1, (onChain_pprev hprev (hne h.1.1)).mpr h.1.2⟩,
    fun d hd hon => h.2 d hd ((onChain_pprev hprev (hne hd)).mp hon)⟩

theorem IsHighest.congr (h : IsHighest P pindex c) (hPQ : ∀ d, pindex.OnChain d → (P d ↔ Q d)) :
    IsHighest Q pindex c :=
  ⟨⟨(hPQ c h.1.2).mp h.1.1, h.1.2⟩, fun d hd hon => h.2 d ((hPQ d hon).mpr hd) hon⟩

theorem onChain_getAncestor {mid : CBlockIndex} {height : Int}
    (hmid : pindex.getAncestor height = some mid) (hle : d.nHeight ≤ mid.nHeight) :
    pindex.OnChain d ↔ mid.OnChain d := by
  have hheight := nHeight_of_getAncestor hmid
  rw [OnChain, getAncestor_eq_of_le hmid (by omega), OnChain]

/-- The loop of `LastCommonAncestor`. -/
def meetLoop : Nat → Option CBlockIndex → Option CBlockIndex →
    Option CBlockIndex × Option CBlockIndex
  | fuel + 1, some pa, some pb =>
    if pa ≠ pb then meetLoop fuel pa.pprev pb.pprev else (some pa, some pb)
  | _, pa, pb => (pa, pb)

def lastCommonAncestor (pskip : CBlockIndex → Option CBlockIndex) (pa pb : CBlockIndex) :
    Option CBlockIndex :=
  let pa' := if pa.nHeight > pb.nHeight then pa.getAncestorBySkips pskip pb.nHeight else some pa
  let pb' := if pb.nHeight > pa.nHeight then pb.getAncestorBySkips pskip pa.nHeight else some pb
  let met := meetLoop (pa.nHeight + 1) pa' pb'
  -- `assert(pa == pb)`
  if met.1 = met.2 then met.1 else none

theorem meetLoop_eq {first : CBlockIndex} : ∀ {fuel : Nat} {pa pb : CBlockIndex},
    pa.nHeight = pb.nHeight → pa.nHeight < fuel → pa.getAncestor 0 = some first →
    pb.getAncestor 0 = some first →
    ∃ c, meetLoop fuel (some pa) (some pb) = (some c, some c) ∧ IsHighest pb.OnChain pa c
  | fuel + 1, pa, pb, hsame, hfuel, ha, hb => by
    rw [meetLoop]
    split_ifs with hne
    · have hpos : 0 < pa.nHeight := by
        by_contra hzero
        have hfirst := nHeight_of_getAncestor ha
        have ha : pa.OnChain first := by rw [OnChain, hfirst, ha]
        have hb : pb.OnChain first := by rw [OnChain, hfirst, hb]
        exact hne ((ha.eq_of_le (by omega)).symm.trans (hb.eq_of_le (by omega)))
      obtain ⟨pa', hpa⟩ := exists_pprev hpos
      obtain ⟨pb', hpb⟩ := @exists_pprev pb (by omega)
      have hha := nHeight_of_pprev hpa
      have hhb := nHeight_of_pprev hpb
      obtain ⟨c, hmeet, hc⟩ := @meetLoop_eq first fuel pa' pb' (by omega) (by omega)
        (by rw [← getAncestor_pprev hpa (by omega), ha])
        (by rw [← getAncestor_pprev hpb (by omega), hb])
      refine ⟨c, by rw [hpa, hpb, hmeet], IsHighest.of_pprev hpa ?_ (hc.congr fun d hd => ?_)⟩
      · exact fun hon => hne (hon.eq_of_le (by omega))
      · have hle := hd.le
        exact (onChain_pprev hpb (fun heq => by rw [heq] at hle; omega)).symm
    · rw [not_ne_iff.mp hne]
      exact ⟨pb, rfl, isHighest_self (getAncestor_self pb)⟩

theorem IsHighest.of_getAncestor {mid : CBlockIndex} {height : Int}
    (hmid : pindex.getAncestor height = some mid) (hP : ∀ d, P d → d.nHeight ≤ mid.nHeight)
    (h : IsHighest P mid c) : IsHighest P pindex c :=
  ⟨⟨h.1.1, (onChain_getAncestor hmid (hP c h.1.1)).mpr h.1.2⟩,
    fun d hd hon => h.2 d hd ((onChain_getAncestor hmid (hP d hd)).mp hon)⟩

variable {pskip : CBlockIndex → Option CBlockIndex} {first : CBlockIndex}

theorem lastCommonAncestor_eq (hskips : ∀ n, SkipsBelow pskip n) {pa pb : CBlockIndex}
    (ha : pa.getAncestor 0 = some first) (hb : pb.getAncestor 0 = some first) :
    ∃ c, lastCommonAncestor pskip pa pb = some c ∧ IsHighest pb.OnChain pa c := by
  -- both blocks are replaced by their ancestors at the lower of the two heights
  have halign (p q : CBlockIndex) : (if p.nHeight > q.nHeight then
      p.getAncestorBySkips pskip q.nHeight else some p) =
      p.getAncestor (min p.nHeight q.nHeight : Nat) := by
    rw [getAncestorBySkips_eq_of_skips (hskips _) le_rfl]
    split_ifs with hlt
    · rw [min_eq_right hlt.le]
    · rw [min_eq_left (not_lt.mp hlt), getAncestor_self]
  obtain ⟨pa', hpa⟩ := exists_getAncestor (min_le_left pa.nHeight pb.nHeight)
  obtain ⟨pb', hpb⟩ := exists_getAncestor (min_le_left pb.nHeight pa.nHeight)
  have hha := nHeight_of_getAncestor hpa
  have hhb := nHeight_of_getAncestor hpb
  obtain ⟨c, hmeet, hc⟩ := @meetLoop_eq first (pa.nHeight + 1) pa' pb' (by omega) (by omega)
    (by rw [← getAncestor_eq_of_le hpa (by omega), ha])
    (by rw [← getAncestor_eq_of_le hpb (by omega), hb])
  rw [lastCommonAncestor, halign, halign, hpa, hpb, hmeet]
  refine ⟨c, if_pos rfl, ?_⟩
  have hhigh : IsHighest pb'.OnChain pa c := hc.of_getAncestor hpa fun d hd => by
    have hle := hd.le
    omega
  refine hhigh.congr fun d hd => ?_
  by_cases hle : d.nHeight ≤ pb'.nHeight
  · exact (onChain_getAncestor hpb hle).symm
  · exact ⟨fun h => absurd h.le hle, fun h => absurd (le_min h.le hd.le) (by omega)⟩

end CBlockIndex

/-! ## The active chain -/

/-- `CChain`, with the ancestors of its tip in `vChain`: `SetTip` leaves them there
(`exists_setTip`). -/
structure CChain where
  vChain : List CBlockIndex
  tip : Option CBlockIndex
  linked : ∀ h : Nat, vChain[h]? = tip.bind fun tip => tip.getAncestor h

namespace CChain

def height (chain : CChain) : Int := chain.vChain.length - 1

def contains (chain : CChain) (pindex : CBlockIndex) : Bool :=
  chain.vChain[pindex.nHeight]? = some pindex

/-- The loop of `SetTip` over the cells of the resized vector. -/
def setTipLoop : Nat → Option CBlockIndex → List (Option CBlockIndex) → List (Option CBlockIndex)
  | fuel + 1, some pindex, cells =>
    if cells[pindex.nHeight]? = some (some pindex) then cells
    else setTipLoop fuel pindex.pprev (cells.set pindex.nHeight (some pindex))
  | _, _, cells => cells

/-- `SetTip`: the cells of `vChain` after it. -/
def setTip (chain : CChain) (block : CBlockIndex) : List (Option CBlockIndex) :=
  let size := block.nHeight + 1
  setTipLoop size (some block) ((chain.vChain.map some).take size ++
    List.replicate (size - chain.vChain.length) none)

/-- The loop of `FindFork`. -/
def forkLoop (chain : CChain) : Nat → Option CBlockIndex → Option CBlockIndex
  | fuel + 1, some pindex =>
    if !chain.contains pindex then forkLoop chain fuel pindex.pprev else some pindex
  | _, pindex => pindex

def findFork (chain : CChain) (pskip : CBlockIndex → Option CBlockIndex) :
    Option CBlockIndex → Option CBlockIndex
  | none => none
  | some pindex => chain.forkLoop (pindex.nHeight + 1)
    (if pindex.nHeight > chain.height then pindex.getAncestorBySkips pskip chain.height
      else some pindex)

variable {chain : CChain} {tip pindex first : CBlockIndex}
  {pskip : CBlockIndex → Option CBlockIndex}

theorem getElem?_set_nHeight {cells : List (Option CBlockIndex)}
    (hlength : pindex.nHeight < cells.length) (i : Nat) :
    (cells.set pindex.nHeight (some pindex))[i]?
      = if i = pindex.nHeight then some (pindex.getAncestor i) else cells[i]? := by
  split_ifs with hi
  · rw [hi, List.getElem?_set_self hlength, getAncestor_self]
  · rw [List.getElem?_set_ne (Ne.symm hi)]

/-- Where the loop stops at a block that is there already, the blocks below it are its
ancestors. -/
theorem getElem?_setTipLoop : ∀ {fuel : Nat} {pindex : CBlockIndex}
    {cells : List (Option CBlockIndex)}, pindex.nHeight < fuel → pindex.nHeight < cells.length →
    (∀ j ≤ pindex.nHeight, ∀ p, cells[j]? = some (some p) →
      ∀ i : Nat, i ≤ j → cells[i]? = some (p.getAncestor i)) →
    ∀ i : Nat, (setTipLoop fuel (some pindex) cells)[i]?
      = if i ≤ pindex.nHeight then some (pindex.getAncestor i) else cells[i]?
  | fuel + 1, pindex, cells, hfuel, hlength, hclosed, i => by
    rw [setTipLoop]
    by_cases hsame : cells[pindex.nHeight]? = some (some pindex)
    · rw [if_pos hsame]
      split_ifs with hi
      · exact hclosed _ le_rfl _ hsame i hi
      · rfl
    rw [if_neg hsame]
    have hset := getElem?_set_nHeight hlength i
    cases hprev : pindex.pprev with
    | none =>
      have hzero : pindex.nHeight = 0 := by
        by_contra hne
        obtain ⟨prev, hsome⟩ := exists_pprev (Nat.pos_of_ne_zero hne)
        rw [hprev] at hsome
        cases hsome
      have hend (cells : List (Option CBlockIndex)) : setTipLoop fuel none cells = cells := by
        cases fuel <;> rfl
      rw [hend, hset]
      simp only [hzero, Nat.le_zero]
    | some prev =>
      have hheight := nHeight_of_pprev hprev
      have hbelow : ∀ j ≤ prev.nHeight, ∀ p,
          (cells.set pindex.nHeight (some pindex))[j]? = some (some p) → ∀ i : Nat, i ≤ j →
          (cells.set pindex.nHeight (some pindex))[i]? = some (p.getAncestor i) := by
        intro j hj p hp i hi
        rw [List.getElem?_set_ne (by omega)] at hp ⊢
        exact hclosed j (by omega) p hp i hi
      rw [getElem?_setTipLoop (by omega) (by rw [List.length_set]; omega) hbelow i, hset]
      by_cases hle : i ≤ prev.nHeight
      · rw [if_pos hle, if_pos (by omega), getAncestor_pprev hprev (by omega)]
      by_cases hi : i = pindex.nHeight
      · rw [if_neg hle, if_pos hi, if_pos hi.le]
      · rw [if_neg hle, if_neg hi, if_neg (by omega)]

/-- `SetTip` establishes what a `CChain` carries, for the new tip. -/
theorem exists_setTip (chain : CChain) (block : CBlockIndex) :
    ∃ chain' : CChain, chain'.tip = some block ∧ chain.setTip block = chain'.vChain.map some := by
  let size := block.nHeight + 1
  let cells := (chain.vChain.map some).take size ++ List.replicate (size - chain.vChain.length) none
  have hlength : cells.length = size := by
    simp only [cells, List.length_append, List.length_take, List.length_map, List.length_replicate]
    omega
  have hold : ∀ i, i < size → i < chain.vChain.length → cells[i]? = chain.vChain[i]?.map some := by
    intro i hi hlt
    rw [List.getElem?_append_left (by simp; omega), List.getElem?_take_of_lt hi, List.getElem?_map]
  have hclosed : ∀ j ≤ block.nHeight, ∀ p, cells[j]? = some (some p) →
      ∀ i : Nat, i ≤ j → cells[i]? = some (p.getAncestor i) := by
    intro j hj p hp i hi
    have hlt : j < chain.vChain.length := by
      by_contra hge
      rw [List.getElem?_append_right (by simp; omega)] at hp
      obtain ⟨hend, hnone⟩ := List.getElem?_eq_some_iff.mp hp
      rw [List.getElem_replicate] at hnone
      cases hnone
    rw [hold j (by omega) hlt, Option.map_eq_some_iff] at hp
    obtain ⟨p', hp', hsame⟩ := hp
    cases hsame
    rw [chain.linked] at hp'
    obtain ⟨tip, htip, hanc⟩ := Option.bind_eq_some_iff.mp hp'
    have hheight := nHeight_of_getAncestor hanc
    obtain ⟨q, hq⟩ := @exists_getAncestor p i (by omega)
    rw [hold i (by omega) (by omega), chain.linked, htip, Option.bind_some,
      getAncestor_eq_of_le hanc (by omega), hq]
    rfl
  have hcells : ∀ i : Nat, (chain.setTip block)[i]?
      = if i ≤ block.nHeight then some (block.getAncestor i) else cells[i]? :=
    getElem?_setTipLoop (Nat.lt_succ_self _) ((Nat.lt_succ_self _).trans_eq hlength.symm) hclosed
  have hget : ∀ i : Nat, ((List.range size).map fun i : Nat =>
      (block.getAncestor i).getD block)[i]? = block.getAncestor i := by
    intro i
    by_cases hi : i < size
    · obtain ⟨q, hq⟩ := @exists_getAncestor block i (by omega)
      rw [List.getElem?_map, List.getElem?_range hi, Option.map_some, hq]
      rfl
    · rw [List.getElem?_eq_none (by simpa using hi), getAncestor, if_pos (by simp; omega)]
  refine ⟨⟨_, some block, hget⟩, rfl, List.ext_getElem? fun i => ?_⟩
  rw [hcells, List.getElem?_map, hget]
  split_ifs with hi
  · obtain ⟨q, hq⟩ := @exists_getAncestor block i hi
    rw [hq]
    rfl
  · rw [List.getElem?_eq_none (by omega), getAncestor, if_pos (by simp; omega)]
    rfl

theorem contains_iff (htip : chain.tip = some tip) :
    chain.contains pindex = true ↔ tip.OnChain pindex := by
  rw [contains, decide_eq_true_iff, chain.linked, htip, Option.bind_some, OnChain]

theorem height_eq (htip : chain.tip = some tip) : chain.height = tip.nHeight := by
  have hlinked := chain.linked
  simp only [htip, Option.bind_some] at hlinked
  have hlast := hlinked tip.nHeight
  rw [getAncestor_self] at hlast
  obtain ⟨hlt, -⟩ := List.getElem?_eq_some_iff.mp hlast
  have hend := hlinked (tip.nHeight + 1)
  rw [getAncestor, if_pos (by simp), List.getElem?_eq_none_iff] at hend
  rw [height]
  omega

theorem forkLoop_eq (htip : chain.tip = some tip) (hfirst : tip.getAncestor 0 = some first) :
    ∀ {fuel : Nat} {pindex : CBlockIndex}, pindex.nHeight < fuel →
    pindex.getAncestor 0 = some first →
    ∃ c, chain.forkLoop fuel (some pindex) = some c ∧ IsHighest tip.OnChain pindex c
  | fuel + 1, pindex, hfuel, hpindex => by
    rw [forkLoop]
    split_ifs with hnot
    · have hnot : ¬ tip.OnChain pindex := by
        rw [← contains_iff htip]
        simpa using hnot
      have hpos : 0 < pindex.nHeight := by
        by_contra hzero
        have heq : (pindex.nHeight : Int) = 0 := by omega
        rw [← heq, getAncestor_self] at hpindex
        exact hnot (by rw [OnChain, heq, hfirst, hpindex])
      obtain ⟨prev, hprev⟩ := exists_pprev hpos
      have hheight := nHeight_of_pprev hprev
      obtain ⟨c, hfork, hc⟩ := @forkLoop_eq htip hfirst fuel prev (by omega)
        (by rw [← getAncestor_pprev hprev (by omega), hpindex])
      exact ⟨c, by rw [hprev, hfork], hc.of_pprev hprev hnot⟩
    · exact ⟨pindex, rfl, isHighest_self ((contains_iff htip).mp (by simpa using hnot))⟩

theorem findFork_eq (hskips : ∀ n, SkipsBelow pskip n) (htip : chain.tip = some tip)
    (hfirst : tip.getAncestor 0 = some first) (hpindex : pindex.getAncestor 0 = some first) :
    ∃ c, chain.findFork pskip (some pindex) = some c ∧ IsHighest tip.OnChain pindex c := by
  rw [findFork, height_eq htip, getAncestorBySkips_eq_of_skips (hskips _) le_rfl]
  split_ifs with hlt
  · obtain ⟨mid, hmid⟩ := @exists_getAncestor pindex tip.nHeight (by omega)
    have hheight := nHeight_of_getAncestor hmid
    obtain ⟨c, hfork, hc⟩ := @forkLoop_eq _ _ _ htip hfirst (pindex.nHeight + 1) mid (by omega)
      (by rw [← getAncestor_eq_of_le hmid (by omega), hpindex])
    refine ⟨c, by rw [hmid, hfork], hc.of_getAncestor hmid fun d hd => ?_⟩
    have hle := hd.le
    omega
  · exact forkLoop_eq htip hfirst (Nat.lt_succ_self _) hpindex

end CChain

/-- On a block index that was built block by block, `GetAncestor` follows the
predecessors, and `LastCommonAncestor` and `FindFork` find the highest common block.
`FindFork` finds none if the chain is empty. -/
theorem ancestors_of_built {genesis : Uint256} {tree : SkipTree} (h : tree.Built genesis) :
    (∀ pindex ∈ tree.blocks, ∀ height : Int, pindex.getAncestorBySkips tree.pskip height =
      if height < 0 ∨ pindex.nHeight < height then none
      else (Option.bind · pprev)^[pindex.nHeight - height.toNat] (some pindex)) ∧
    (∀ pa ∈ tree.blocks, ∀ pb ∈ tree.blocks,
      ∃ c, lastCommonAncestor tree.pskip pa pb = some c ∧ IsHighest pb.OnChain pa c) ∧
    ∀ chain : CChain, ∀ pindex ∈ tree.blocks, (∀ tip ∈ tree.blocks, chain.tip = some tip → ∃ c,
        chain.findFork tree.pskip (some pindex) = some c ∧ IsHighest tip.OnChain pindex c) ∧
      (chain.tip = none → chain.findFork tree.pskip (some pindex) = none) := by
  refine ⟨fun pindex _ height => ?_, fun pa ha pb hb => ?_, fun chain pindex hpindex => ⟨?_, ?_⟩⟩
  · rw [getAncestorBySkips_eq_of_skips (h.skipsBelow _) le_rfl, iterate_pprev, getAncestor]
    simp only [Bool.or_eq_true, decide_eq_true_eq, gt_iff_lt, or_comm]
  · exact lastCommonAncestor_eq h.skipsBelow (h.genesis_of_mem ha) (h.genesis_of_mem hb)
  · intro tip htip heq
    exact CChain.findFork_eq h.skipsBelow heq (h.genesis_of_mem htip) (h.genesis_of_mem hpindex)
  · intro hnone
    have hempty : chain.height = -1 := by
      have hzero := chain.linked 0
      rw [hnone, Option.bind_none, List.getElem?_eq_none_iff] at hzero
      rw [CChain.height]
      omega
    rw [CChain.findFork, hempty, if_pos (by omega)]
    rfl

/-- An index that is one line of blocks, and its last block, at height `n`. -/
def SkipTree.line : Nat → SkipTree × CBlockIndex
  | 0 => (⟨[⟨1, []⟩], fun _ => none⟩, ⟨1, []⟩)
  | n + 1 => ((line n).1.append (line n).2 (n + 2), (line n).2.child (n + 2))

theorem SkipTree.built_line : ∀ n, (line n).1.Built 1 ∧ (line n).2 ∈ (line n).1.blocks
  | 0 => ⟨.start, .head _⟩
  | n + 1 => ⟨(built_line n).1.append (built_line n).2 _, .head _⟩

/-- A block forks off a line of 20 blocks at height 8. -/
theorem ancestors_of_built_fork : ∃ tree : SkipTree, ∃ c : CBlockIndex, tree.Built 1 ∧
    tree.pskip (SkipTree.line 20).2 = some (SkipTree.line 16).2 ∧
    (SkipTree.line 20).2.getAncestorBySkips tree.pskip 3 = some (SkipTree.line 3).2 ∧
    lastCommonAncestor tree.pskip (SkipTree.line 20).2 ((SkipTree.line 8).2.child 100) = some c ∧
    IsHighest ((SkipTree.line 8).2.child 100).OnChain (SkipTree.line 20).2 c := by
  obtain ⟨hline, hmem⟩ := SkipTree.built_line 20
  have hbuilt := hline.append (by decide +kernel : (SkipTree.line 8).2 ∈ _) 100
  obtain ⟨hancestor, hcommon, -⟩ := ancestors_of_built hbuilt
  obtain ⟨c, hc, hhighest⟩ := hcommon _ (.tail _ hmem) _ (.head _)
  refine ⟨_, c, hbuilt, by decide +kernel, ?_, hc, hhighest⟩
  rw [hancestor _ (.tail _ hmem)]
  decide +kernel

end KorshCore

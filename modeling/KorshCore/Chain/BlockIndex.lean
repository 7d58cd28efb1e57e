import Mathlib.Data.List.Infix
import KorshCore.Primitives.Transaction

/-!
# Block indexes

`CBlockIndex` of `chain.h`. A block index points to its predecessor and, in the
end, to the genesis block, so it is kept as the hash of the block with the
hashes of all its ancestors, the nearest first. Two indexes are the same if
they have the same history. An active chain is given by its tip: the block of
the chain at a height is an ancestor of the tip.
-/

namespace KorshCore

open List

/-- `CBlockIndex`: a block with its ancestors, the nearest first. -/
structure CBlockIndex where
  hash : Uint256
  ancestors : List Uint256
  deriving DecidableEq, Repr

namespace CBlockIndex

def nHeight (pindex : CBlockIndex) : Nat := pindex.ancestors.length

def pprev (pindex : CBlockIndex) : Option CBlockIndex :=
  match pindex.ancestors with
  | [] => none
  | hash :: ancestors => some ⟨hash, ancestors⟩

def child (pindex : CBlockIndex) (hash : Uint256) : CBlockIndex :=
  ⟨hash, pindex.hash :: pindex.ancestors⟩

def path (pindex : CBlockIndex) : List Uint256 := pindex.hash :: pindex.ancestors

def ofPath : List Uint256 → Option CBlockIndex
  | [] => none
  | hash :: ancestors => some ⟨hash, ancestors⟩

def getAncestor (pindex : CBlockIndex) (height : Int) : Option CBlockIndex :=
  if height > pindex.nHeight || height < 0 then none
  else ofPath (pindex.path.drop (pindex.nHeight - height.toNat))

@[simp] theorem nHeight_child (pindex : CBlockIndex) (hash : Uint256) :
    (pindex.child hash).nHeight = pindex.nHeight + 1 := rfl

variable {pindex : CBlockIndex}

theorem nHeight_of_pprev {prev : CBlockIndex} (h : pindex.pprev = some prev) :
    pindex.nHeight = prev.nHeight + 1 := by
  obtain ⟨hash, _ | ⟨hash', ancestors⟩⟩ := pindex
  · exact nomatch h
  · cases h
    rfl

theorem length_path (pindex : CBlockIndex) : pindex.path.length = pindex.nHeight + 1 := rfl

theorem ofPath_path (pindex : CBlockIndex) : ofPath pindex.path = some pindex := rfl

theorem path_of_ofPath {l : List Uint256} (h : ofPath l = some pindex) : pindex.path = l := by
  cases l with
  | nil => exact nomatch h
  | cons hash ancestors =>
    cases h
    rfl

variable {pindex anc : CBlockIndex} {height : Int}

theorem getAncestor_eq_some_iff : pindex.getAncestor height = some anc ↔
      anc.path <:+ pindex.path ∧ (anc.nHeight : Int) = height := by
  have hlength := pindex.length_path
  have hanc := anc.length_path
  unfold getAncestor
  constructor
  · intro h
    split_ifs at h with hrange
    have hrange : height ≤ pindex.nHeight ∧ 0 ≤ height := by
      simpa using hrange
    have hpath := path_of_ofPath h
    refine ⟨hpath ▸ drop_suffix _ _, ?_⟩
    have hdrop := congrArg length hpath
    rw [length_drop] at hdrop
    omega
  · rintro ⟨⟨upper, hupper⟩, rfl⟩
    have hsum := congrArg length hupper
    rw [length_append] at hsum
    have hrange : ¬ (((anc.nHeight : Int) > pindex.nHeight) ∨ (anc.nHeight : Int) < 0) := by
      omega
    have hdrop : pindex.nHeight - (anc.nHeight : Int).toNat = upper.length := by
      rw [Int.toNat_natCast]
      omega
    rw [if_neg (by simpa using hrange), hdrop, ← hupper, drop_left, ofPath_path]

theorem nHeight_of_getAncestor
    (h : pindex.getAncestor height = some anc) : (anc.nHeight : Int) = height :=
  (getAncestor_eq_some_iff.mp h).2

@[simp] theorem getAncestor_self (pindex : CBlockIndex) :
    pindex.getAncestor pindex.nHeight = some pindex :=
  getAncestor_eq_some_iff.mpr ⟨suffix_rfl, rfl⟩

theorem exists_getAncestor {height : Nat}
    (h : height ≤ pindex.nHeight) : ∃ anc, pindex.getAncestor height = some anc := by
  have hlength := pindex.length_path
  unfold getAncestor
  rw [if_neg (by simp; omega)]
  cases hdrop : pindex.path.drop (pindex.nHeight - (height : Int).toNat) with
  | nil =>
    have hshort := congrArg length hdrop
    rw [length_drop, length_nil] at hshort
    omega
  | cons hash ancestors => exact ⟨_, rfl⟩

theorem getAncestor_trans {mid anc : CBlockIndex} {height' : Int}
    (hmid : pindex.getAncestor height = some mid) (hanc : mid.getAncestor height' = some anc) :
    pindex.getAncestor height' = some anc := by
  obtain ⟨hmidPath, -⟩ := getAncestor_eq_some_iff.mp hmid
  obtain ⟨hancPath, hheight⟩ := getAncestor_eq_some_iff.mp hanc
  exact getAncestor_eq_some_iff.mpr ⟨hancPath.trans hmidPath, hheight⟩

theorem getAncestor_eq_of_le {mid : CBlockIndex} {height' : Int}
    (hmid : pindex.getAncestor height = some mid) (hle : height' ≤ height) :
    pindex.getAncestor height' = mid.getAncestor height' := by
  have hheight := nHeight_of_getAncestor hmid
  by_cases hneg : height' < 0
  · unfold getAncestor
    rw [if_pos (by simp [hneg]), if_pos (by simp [hneg])]
  · obtain ⟨n, rfl⟩ := Int.eq_ofNat_of_zero_le (not_lt.mp hneg)
    obtain ⟨anc, hanc⟩ := @exists_getAncestor mid n (by omega)
    rw [hanc]
    exact getAncestor_trans hmid hanc

@[simp] theorem getAncestor_child_nHeight (pindex : CBlockIndex) (hash : Uint256) :
    (pindex.child hash).getAncestor pindex.nHeight = some pindex :=
  getAncestor_eq_some_iff.mpr ⟨suffix_cons _ _, rfl⟩

theorem getAncestor_child {hash : Uint256} (h : height ≤ pindex.nHeight) :
    (pindex.child hash).getAncestor height = pindex.getAncestor height :=
  getAncestor_eq_of_le (getAncestor_child_nHeight pindex hash) h

def findHash : List Uint256 → Uint256 → Option CBlockIndex
  | [], _ => none
  | first :: rest, hash => if first = hash then some ⟨first, rest⟩ else findHash rest hash

theorem findHash_of_suffix {anc : CBlockIndex} : ∀ {l : List Uint256}, l.Nodup →
    anc.path <:+ l → findHash l anc.hash = some anc
  | [], _, h => nomatch suffix_nil.mp h
  | first :: rest, hnodup, h => by
    obtain ⟨hfirst, hrest⟩ := nodup_cons.mp hnodup
    unfold findHash
    rcases suffix_cons_iff.mp h with heq | hsuffix
    · obtain ⟨rfl, rfl⟩ := cons.inj heq
      exact if_pos rfl
    · have hne : first ≠ anc.hash := by
        rintro rfl
        exact hfirst (hsuffix.subset mem_cons_self)
      rw [if_neg hne]
      exact findHash_of_suffix hrest hsuffix

end CBlockIndex

/-- A set of block indexes that has their ancestors, and at most one with a hash. -/
structure BlockTree where
  known : CBlockIndex → Prop
  ancestor : ∀ {pindex anc height}, known pindex → pindex.getAncestor height = some anc → known anc
  hash_inj : ∀ {pindex pindex'}, known pindex → known pindex' →
    pindex.hash = pindex'.hash → pindex = pindex'

def BlockTree.ofTip (tip : CBlockIndex) (hnodup : tip.path.Nodup) : BlockTree where
  known pindex := pindex.path <:+ tip.path
  ancestor h hanc := (CBlockIndex.getAncestor_eq_some_iff.mp hanc).1.trans h
  hash_inj h h' heq := by
    have hfind := CBlockIndex.findHash_of_suffix hnodup h
    rw [heq, CBlockIndex.findHash_of_suffix hnodup h'] at hfind
    exact (Option.some.inj hfind).symm

end KorshCore

import KorshCore.Primitives.Transaction
import KorshCore.Lib.Except

/-!
# The note commitment tree

`IncrementalMerkleTree` and `IncrementalWitness` of
`sapling/incrementalmerkletree.{h,cpp}`: the two newest leaves and the
collapsed left subtrees above them, and what follows one leaf while the tree
grows.

The hash function and the roots of empty subtrees come from outside the source.
They are the fields of a `MerkleHash`.
-/

namespace KorshCore

/-- What a tree takes from its hash class: `combine` with the depth of its
arguments, and `EmptyRoot`. -/
structure MerkleHash where
  combine : Uint256 → Uint256 → Nat → Uint256
  emptyRoot : Nat → Uint256

structure IncrementalMerkleTree where
  left : Option Uint256
  right : Option Uint256
  parents : List (Option Uint256)
  deriving DecidableEq, Repr

/-- `SAPLING_INCREMENTAL_MERKLE_TREE_DEPTH`. -/
def saplingTreeDepth : Nat := 32

inductive TreeError where
  /-- "tree is full". -/
  | treeIsFull
  /-- "tree has no cursor". -/
  | treeHasNoCursor
  /-- "can't create an authentication path for the beginning of the tree". -/
  | noPathForBeginning
  deriving DecidableEq, Repr

/-- `MerklePath`: the siblings from the root down, with the side of each.
The source spells every hash as its bits. -/
structure MerklePath where
  authenticationPath : List Uint256
  index : List Bool
  deriving DecidableEq, Repr

namespace IncrementalMerkleTree

def empty : IncrementalMerkleTree := ⟨none, none, []⟩

def dynamicMemoryUsage (tree : IncrementalMerkleTree) : Nat :=
  32 + 32 + tree.parents.length * 32

def isComplete (tree : IncrementalMerkleTree) (depth : Nat) : Bool :=
  tree.left.isSome && tree.right.isSome &&
    tree.parents.length == depth - 1 && tree.parents.all Option.isSome

/-- The loop of `append` that carries a combined hash up the parents, from
index `i`, for at most `turns` turns. -/
def propagate (H : MerkleHash) : (turns i : Nat) → List (Option Uint256) →
    Uint256 → List (Option Uint256)
  | 0, _, parents, _ => parents
  | _ + 1, _, [], combined => [some combined]
  | turns + 1, i, some parent :: parents, combined =>
    none :: propagate H turns (i + 1) parents (H.combine parent combined (i + 1))
  | _ + 1, _, none :: parents, combined => some combined :: parents

def append (H : MerkleHash) (depth : Nat) (tree : IncrementalMerkleTree)
    (obj : Uint256) : Except TreeError IncrementalMerkleTree :=
  if tree.isComplete depth then .error .treeIsFull
  else
    match tree.left, tree.right with
    | none, _ => .ok { tree with left := some obj }
    | some _, none => .ok { tree with right := some obj }
    | some left, some right =>
      .ok ⟨some obj, none, propagate H depth 0 tree.parents (H.combine left right 0)⟩

/-- `PathFiller::next`. -/
def nextFiller (H : MerkleHash) (depth : Nat) : List Uint256 → Uint256 × List Uint256
  | h :: queue => (h, queue)
  | [] => (H.emptyRoot depth, [])

/-- The loop of `root` over the parents, from depth `d`. -/
def rootParents (H : MerkleHash) : List (Option Uint256) → (d : Nat) →
    (root : Uint256) → (filler : List Uint256) → Nat × Uint256 × List Uint256
  | [], d, root, filler => (d, root, filler)
  | some parent :: parents, d, root, filler =>
    rootParents H parents (d + 1) (H.combine parent root d) filler
  | none :: parents, d, root, filler =>
    let (h, filler) := nextFiller H d filler
    rootParents H parents (d + 1) (H.combine root h d) filler

/-- The loop of `root` over the ancestors without parents. -/
def rootFill (H : MerkleHash) : (turns d : Nat) → (root : Uint256) →
    (filler : List Uint256) → Uint256
  | 0, _, root, _ => root
  | turns + 1, d, root, filler =>
    let (h, filler) := nextFiller H d filler
    rootFill H turns (d + 1) (H.combine root h d) filler

/-- `root` with filler hashes. -/
def rootWith (H : MerkleHash) (depth : Nat) (tree : IncrementalMerkleTree)
    (filler : List Uint256) : Uint256 :=
  let (left, filler) := match tree.left with
    | some h => (h, filler)
    | none => nextFiller H 0 filler
  let (right, filler) := match tree.right with
    | some h => (h, filler)
    | none => nextFiller H 0 filler
  let (d, root, filler) :=
    rootParents H tree.parents 1 (H.combine left right 0) filler
  rootFill H (depth - d) d root filler

def last (tree : IncrementalMerkleTree) : Except TreeError Uint256 :=
  match tree.left, tree.right with
  | _, some right => .ok right
  | some left, none => .ok left
  | none, none => .error .treeHasNoCursor

/-- `1 << k` as a `size_t`: the shift is made in a 32-bit `int`, and one by
more than 31 is undefined. -/
def shiftOne (k : Nat) : Option (BitVec 64) :=
  if k < 32 then some ((1#32 <<< k).signExtend 64) else none

/-- The loop of `size` over the parents, from index `i`. -/
def sizeParents : List (Option Uint256) → (i : Nat) → (ret : BitVec 64) → Option (BitVec 64)
  | [], _, ret => some ret
  | none :: parents, i, ret => sizeParents parents (i + 1) ret
  | some _ :: parents, i, ret => do
    let term ← shiftOne (i + 1)
    sizeParents parents (i + 1) (ret + term)

/-- `size`, where it is defined. -/
def size (tree : IncrementalMerkleTree) : Option (BitVec 64) :=
  sizeParents tree.parents 0
    ((if tree.left.isSome then 1 else 0) + if tree.right.isSome then 1 else 0)

/-- What is left of `skip` after a leaf, or nothing if the leaf is the slot
looked for. -/
def skipLeaf : Option Uint256 → (skip : Nat) → Option Nat
  | some _, skip => some skip
  | none, 0 => none
  | none, skip + 1 => some skip

/-- The loop of `next_depth` over the parents, from depth `d`. -/
def nextDepthParents : List (Option Uint256) → (d skip : Nat) → Nat
  | [], d, skip => d + skip
  | some _ :: parents, d, skip => nextDepthParents parents (d + 1) skip
  | none :: _, d, 0 => d
  | none :: parents, d, skip + 1 => nextDepthParents parents (d + 1) skip

def nextDepth (tree : IncrementalMerkleTree) (skip : Nat) : Nat :=
  match skipLeaf tree.left skip with
  | none => 0
  | some skip =>
    match skipLeaf tree.right skip with
    | none => 0
    | some skip => nextDepthParents tree.parents 1 skip

/-- The loop of `path` over the parents, from depth `d`: sides and siblings,
the depth reached and the rest of the filler. -/
def pathParents (H : MerkleHash) : List (Option Uint256) → (d : Nat) →
    (filler : List Uint256) → List (Bool × Uint256) × Nat × List Uint256
  | [], d, filler => ([], d, filler)
  | some parent :: parents, d, filler =>
    let (steps, d, filler) := pathParents H parents (d + 1) filler
    ((true, parent) :: steps, d, filler)
  | none :: parents, d, filler =>
    let (h, filler) := nextFiller H d filler
    let (steps, d, filler) := pathParents H parents (d + 1) filler
    ((false, h) :: steps, d, filler)

/-- The loop of `path` over the ancestors without parents. -/
def pathFill (H : MerkleHash) : (turns d : Nat) → (filler : List Uint256) → List (Bool × Uint256)
  | 0, _, _ => []
  | turns + 1, d, filler =>
    let (h, filler) := nextFiller H d filler
    (false, h) :: pathFill H turns (d + 1) filler

/-- The sides and siblings that `path` collects, from the leaf up. -/
def pathSteps (H : MerkleHash) (depth : Nat) (left : Uint256)
    (right : Option Uint256) (parents : List (Option Uint256))
    (filler : List Uint256) : List (Bool × Uint256) :=
  let (first, filler) := match right with
    | some _ => ((true, left), filler)
    | none =>
      let (h, filler) := nextFiller H 0 filler
      ((false, h), filler)
  let (steps, d, filler) := pathParents H parents 1 filler
  first :: (steps ++ pathFill H (depth - d) d filler)

/-- `path` with filler hashes. -/
def path (H : MerkleHash) (depth : Nat) (tree : IncrementalMerkleTree)
    (filler : List Uint256) : Except TreeError MerklePath :=
  match tree.left with
  | none => .error .noPathForBeginning
  | some left =>
    let steps := pathSteps H depth left tree.right tree.parents filler
    .ok ⟨(steps.map Prod.snd).reverse, (steps.map Prod.fst).reverse⟩

/-- `root()` of a Sapling tree. -/
def root (H : MerkleHash) (tree : IncrementalMerkleTree) : Uint256 :=
  rootWith H saplingTreeDepth tree []

/-- `append` of a Sapling tree. -/
def appendSapling (H : MerkleHash) (tree : IncrementalMerkleTree)
    (cmu : Uint256) : Except TreeError IncrementalMerkleTree :=
  append H saplingTreeDepth tree cmu

/-- `empty_root()` of a Sapling tree. -/
def saplingEmptyRoot (H : MerkleHash) : Uint256 := H.emptyRoot saplingTreeDepth

end IncrementalMerkleTree

structure IncrementalWitness where
  tree : IncrementalMerkleTree
  filled : List Uint256
  cursor : Option IncrementalMerkleTree
  cursorDepth : Nat
  deriving DecidableEq, Repr

/-- `witness()` of a tree. -/
def IncrementalMerkleTree.witness (tree : IncrementalMerkleTree) : IncrementalWitness :=
  ⟨tree, [], none, 0⟩

namespace IncrementalWitness

variable (H : MerkleHash) (depth : Nat) (witness : IncrementalWitness)

def partialPath : List Uint256 :=
  match witness.cursor with
  | none => witness.filled
  | some cursor => witness.filled ++ [cursor.rootWith H witness.cursorDepth []]

def append (obj : Uint256) : Except TreeError IncrementalWitness :=
  match witness.cursor with
  | some cursor => do
    let cursor ← cursor.append H depth obj
    if cursor.isComplete witness.cursorDepth then
      .ok { witness with
        filled := witness.filled ++ [cursor.rootWith H witness.cursorDepth []]
        cursor := none }
    else .ok { witness with cursor := some cursor }
  | none =>
    let cursorDepth := witness.tree.nextDepth witness.filled.length
    if depth ≤ cursorDepth then .error .treeIsFull
    else if cursorDepth = 0 then
      .ok { witness with filled := witness.filled ++ [obj], cursorDepth := 0 }
    else do
      let cursor ← IncrementalMerkleTree.empty.append H depth obj
      .ok { witness with cursor := some cursor, cursorDepth := cursorDepth }

def element : Except TreeError Uint256 := witness.tree.last

/-- `position`, where `size` is defined. -/
def position : Option (BitVec 64) := witness.tree.size.map (· - 1)

def root : Uint256 :=
  witness.tree.rootWith H depth (witness.partialPath H)

def path : Except TreeError MerklePath :=
  witness.tree.path H depth (witness.partialPath H)

end IncrementalWitness

end KorshCore

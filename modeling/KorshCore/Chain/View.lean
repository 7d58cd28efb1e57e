import KorshCore.Coins.Anchors

/-!
# The view that blocks are connected to

A `ChainView` is what a stack of coins caches stands for: one map of unspent
outputs, one set of nullifiers, the anchors with the best root, and the best
block. Its calls are those of the flat machines.
-/

namespace KorshCore

structure ChainView where
  coins : COutPoint → Option Coin
  nullifiers : Uint256 → Bool
  anchors : FlatAnchors
  bestBlock : Uint256

namespace ChainView

def new (env : CoinsEnv) : ChainView where
  coins _ := none
  nullifiers _ := false
  anchors :=
    let root := IncrementalMerkleTree.saplingEmptyRoot env.hash
    ⟨fun rt => if rt = root then some .empty else none, root⟩
  bestBlock := 0

/-- One call. Each part of the view has its own machine. -/
def call (env : CoinsEnv) (op : CoinsOp) (view : ChainView) : ChainView where
  coins := (flatCoins op view.coins).2
  nullifiers := (flatNullifiers op view.nullifiers).2
  anchors := (flatAnchors env op view.anchors).2
  bestBlock := match op with
    | .setBestBlock hashBlock => hashBlock
    | _ => view.bestBlock

def calls (env : CoinsEnv) (ops : List CoinsOp) (view : ChainView) : ChainView :=
  ops.foldl (fun view op => view.call env op) view

end ChainView

end KorshCore

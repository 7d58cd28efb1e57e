import KorshCore.EvoDb.Iterator
import KorshCore.Lib.Machine

/-!
# The evo database

`CEvoDB` of `evo/evodb.cpp` stacks two transactions over the database: the
current one over the root one. `FlatStore` is what this is for: one key-value
map to which the changes are applied in order, with the changes that are not
yet committed kept in two logs.
-/

namespace KorshCore

open CDBTransaction List Machine

variable {K : Type} [LinearOrder K] [Inhabited K]

inductive Layer where
  | root
  | cur
  deriving DecidableEq, Repr

inductive EvoOp (F : DbFormat K) where
  | read (layer : Layer) (t : F.Ty) (key : K)
  | existsKey (layer : Layer) (key : K)
  | write (layer : Layer) (key : K) (t : F.Ty) (v : F.Val t)
  | erase (layer : Layer) (key : K)
  | clear (layer : Layer)
  | commitCurTransaction
  | commitRootTransaction

inductive EvoAnswer (F : DbFormat K) where
  | value (t : F.Ty) (v : Except ReadError (Option (F.Val t)))
  | found (b : Bool)
  | done

/-- `assert(curDBTransaction.IsClean())`. -/
inductive EvoError where
  | curNotClean
  deriving DecidableEq, Repr

/-! ## The stack -/

structure CEvoDB (F : DbFormat K) where
  db : CDBWrapper K
  rootBatch : CDBBatch K
  rootDBTransaction : CDBTransaction F
  curDBTransaction : CDBTransaction F

namespace CEvoDB

variable {F : DbFormat K}

def openStore (F : DbFormat K) (db : CDBWrapper K) : CEvoDB F := ⟨db, [], .new, .new⟩

def store (evo : CEvoDB F) : Layer → Store F
  | .root => evo.rootDBTransaction.store (evo.db.store F)
  | .cur => evo.curDBTransaction.store (evo.rootDBTransaction.store (evo.db.store F))

def modify (evo : CEvoDB F) (f : CDBTransaction F → CDBTransaction F) : Layer → CEvoDB F
  | .root => { evo with rootDBTransaction := f evo.rootDBTransaction }
  | .cur => { evo with curDBTransaction := f evo.curDBTransaction }

def commitCurTransaction (evo : CEvoDB F) : CEvoDB F :=
  let committed := evo.curDBTransaction.commit CDBTransaction.transactionTarget
    evo.rootDBTransaction
  { evo with rootDBTransaction := committed.1, curDBTransaction := committed.2 }

def commitRootTransaction (evo : CEvoDB F) : Except EvoError (CEvoDB F) :=
  if !evo.curDBTransaction.isClean then .error .curNotClean
  else
    let committed := evo.rootDBTransaction.commit CDBTransaction.batchTarget evo.rootBatch
    .ok { evo with
      db := evo.db.writeBatch committed.1
      rootBatch := []
      rootDBTransaction := committed.2 }

def step : EvoOp F → CEvoDB F → Except EvoError (EvoAnswer F × CEvoDB F)
  | .read layer t key, evo => .ok (.value t ((evo.store layer).read t key), evo)
  | .existsKey layer key, evo => .ok (.found ((evo.store layer).existsKey key), evo)
  | .write layer key t v, evo => .ok (.done, evo.modify (·.write key t v) layer)
  | .erase layer key, evo => .ok (.done, evo.modify (·.erase key) layer)
  | .clear layer, evo => .ok (.done, evo.modify (·.clear) layer)
  | .commitCurTransaction, evo => .ok (.done, evo.commitCurTransaction)
  | .commitRootTransaction, evo => do
    let evo ← evo.commitRootTransaction
    .ok (.done, evo)

end CEvoDB

/-! ## The flat store -/

inductive Change (F : DbFormat K) where
  | write (key : K) (t : F.Ty) (v : F.Val t)
  | erase (key : K)

def Change.apply {F : DbFormat K} (content : K → Option (Cell F)) : Change F → K → Option (Cell F)
  | .write key t v => fun k => if k = key then some (.pending t v) else content k
  | .erase key => fun k => if k = key then none else content k

structure FlatStore (F : DbFormat K) where
  stored : K → Option (Cell F)
  rootLog : List (Change F)
  curLog : List (Change F)

namespace FlatStore

variable {F : DbFormat K}

/-- The map that a layer sees: all changes up to it, in order. -/
def content (flat : FlatStore F) : Layer → K → Option (Cell F)
  | .root => flat.rootLog.foldl Change.apply flat.stored
  | .cur => (flat.rootLog ++ flat.curLog).foldl Change.apply flat.stored

def modify (flat : FlatStore F) (f : List (Change F) → List (Change F)) : Layer → FlatStore F
  | .root => { flat with rootLog := f flat.rootLog }
  | .cur => { flat with curLog := f flat.curLog }

def step : EvoOp F → FlatStore F → Except EvoError (EvoAnswer F × FlatStore F)
  | .read layer t key, flat => .ok (.value t (readCell t (flat.content layer key)), flat)
  | .existsKey layer key, flat => .ok (.found (flat.content layer key).isSome, flat)
  | .write layer key t v, flat => .ok (.done, flat.modify (· ++ [.write key t v]) layer)
  | .erase layer key, flat => .ok (.done, flat.modify (· ++ [.erase key]) layer)
  | .clear layer, flat => .ok (.done, flat.modify (fun _ => []) layer)
  | .commitCurTransaction, flat =>
    .ok (.done, { flat with rootLog := flat.rootLog ++ flat.curLog, curLog := [] })
  | .commitRootTransaction, flat =>
    if flat.curLog.isEmpty then
      .ok (.done, { flat with
        stored := fun key => (flat.content .root key).map Cell.toStored
        rootLog := [] })
    else .error .curNotClean

end FlatStore

/-! ## The simulation -/

section

omit [Inhabited K]

variable {F : DbFormat K}

def Holds (tx : CDBTransaction F) (log : List (Change F)) : Prop :=
  ∀ below, tx.overlay below = log.foldl Change.apply below

theorem Holds.new : Holds (.new : CDBTransaction F) [] := fun _ => rfl

theorem Holds.write {tx : CDBTransaction F} {log : List (Change F)} (h : Holds tx log)
    (key : K) (t : F.Ty) (v : F.Val t) : Holds (tx.write key t v) (log ++ [.write key t v]) := by
  intro below
  funext k
  rw [overlay_write, foldl_append, h]
  rfl

theorem Holds.erase {tx : CDBTransaction F} {log : List (Change F)} (h : Holds tx log)
    (key : K) : Holds (tx.erase key) (log ++ [.erase key]) := by
  intro below
  funext k
  rw [overlay_erase, foldl_append, h]
  rfl

theorem Holds.commit {cur root : CDBTransaction F} {curLog rootLog : List (Change F)}
    (hcur : Holds cur curLog) (hroot : Holds root rootLog) :
    Holds (cur.commit transactionTarget root).1 (rootLog ++ curLog) := by
  intro below
  rw [overlay_commit, hcur, hroot, foldl_append]

theorem not_isClean_write (tx : CDBTransaction F) (key : K) (t : F.Ty) (v : F.Val t) :
    (tx.write key t v).isClean = false := by
  have hfind := SortedMap.find_insert tx.writes key key ⟨t, v, (F.encode t v).length⟩
  rw [if_pos rfl] at hfind
  have hne := ne_nil_of_mem (SortedMap.find_eq_some_iff.mp hfind)
  simp [isClean, write, hne]

theorem not_isClean_erase (tx : CDBTransaction F) (key : K) : (tx.erase key).isClean = false := by
  have hfind := SortedMap.find_insert tx.deletes key key ()
  rw [if_pos rfl] at hfind
  have hne := ne_nil_of_mem (SortedMap.find_eq_some_iff.mp hfind)
  simp [isClean, erase, hne]

/-- The stack and the flat store hold the same changes on the same database. -/
structure Mirrors (evo : CEvoDB F) (flat : FlatStore F) : Prop where
  stored : evo.db.cells F = flat.stored
  rootBatch : evo.rootBatch = []
  root : Holds evo.rootDBTransaction flat.rootLog
  cur : Holds evo.curDBTransaction flat.curLog
  isClean : evo.curDBTransaction.isClean = flat.curLog.isEmpty

namespace Mirrors

theorem openStore (F : DbFormat K) (db : CDBWrapper K) :
    Mirrors (CEvoDB.openStore F db) ⟨db.cells F, [], []⟩ where
  stored := rfl
  rootBatch := rfl
  root := .new
  cur := .new
  isClean := rfl

variable {evo : CEvoDB F} {flat : FlatStore F}

theorem write (h : Mirrors evo flat) (layer : Layer) (key : K) (t : F.Ty) (v : F.Val t) :
    Mirrors (evo.modify (·.write key t v) layer) (flat.modify (· ++ [.write key t v]) layer) := by
  cases layer with
  | root => exact { h with root := h.root.write key t v }
  | cur =>
    refine { h with cur := h.cur.write key t v, isClean := ?_ }
    show (evo.curDBTransaction.write key t v).isClean = (flat.curLog ++ [_]).isEmpty
    rw [not_isClean_write]
    simp

theorem erase (h : Mirrors evo flat) (layer : Layer) (key : K) :
    Mirrors (evo.modify (·.erase key) layer) (flat.modify (· ++ [.erase key]) layer) := by
  cases layer with
  | root => exact { h with root := h.root.erase key }
  | cur =>
    refine { h with cur := h.cur.erase key, isClean := ?_ }
    show (evo.curDBTransaction.erase key).isClean = (flat.curLog ++ [_]).isEmpty
    rw [not_isClean_erase]
    simp

theorem clear (h : Mirrors evo flat) (layer : Layer) :
    Mirrors (evo.modify (·.clear) layer) (flat.modify (fun _ => []) layer) := by
  cases layer with
  | root => exact { h with root := .new }
  | cur => exact { h with cur := .new, isClean := rfl }

theorem commitCurTransaction (h : Mirrors evo flat) : Mirrors evo.commitCurTransaction
      { flat with rootLog := flat.rootLog ++ flat.curLog, curLog := [] } where
  stored := h.stored
  rootBatch := h.rootBatch
  root := h.cur.commit h.root
  cur := .new
  isClean := rfl

end Mirrors

end

namespace Mirrors

variable {F : DbFormat K} {evo : CEvoDB F} {flat : FlatStore F}

theorem represents (h : Mirrors evo flat) :
    ∀ layer, Represents (evo.store layer) (flat.content layer) := by
  have hdb : Represents (evo.db.store F) flat.stored := h.stored ▸ represents_database F evo.db
  have hroot : Represents (evo.store .root) (flat.content .root) := by
    have hover := represents_store hdb evo.rootDBTransaction
    rw [h.root] at hover
    exact hover
  intro layer
  cases layer with
  | root => exact hroot
  | cur =>
    have hover := represents_store hroot evo.curDBTransaction
    rw [h.cur] at hover
    unfold FlatStore.content at hover ⊢
    rw [foldl_append]
    exact hover

theorem commitRootTransaction (h : Mirrors evo flat) :
    Machine.Agree Mirrors (CEvoDB.step .commitRootTransaction evo)
      (FlatStore.step .commitRootTransaction flat) := by
  unfold CEvoDB.step FlatStore.step CEvoDB.commitRootTransaction
  dsimp only
  rw [h.isClean]
  cases flat.curLog.isEmpty with
  | false => exact rfl
  | true =>
    refine ⟨rfl, ?_, rfl, .new, h.cur, h.isClean⟩
    funext key
    rw [h.rootBatch]
    show (evo.db.writeBatch _).cells F key = _
    rw [cells_writeBatch_commit]
    show (evo.rootDBTransaction.overlay (evo.db.cells F) key).map _ = _
    rw [h.root, h.stored]
    rfl

theorem step {op : EvoOp F} (h : Mirrors evo flat) :
    Machine.Agree Mirrors (CEvoDB.step op evo) (FlatStore.step op flat) := by
  cases op with
  | read layer t key => exact ⟨congrArg (EvoAnswer.value t) ((h.represents layer).read t key), h⟩
  | existsKey layer key =>
    exact ⟨congrArg EvoAnswer.found ((h.represents layer).existsKey key), h⟩
  | write layer key t v => exact ⟨rfl, h.write layer key t v⟩
  | erase layer key => exact ⟨rfl, h.erase layer key⟩
  | clear layer => exact ⟨rfl, h.clear layer⟩
  | commitCurTransaction => exact ⟨rfl, h.commitCurTransaction⟩
  | commitRootTransaction => exact h.commitRootTransaction

end Mirrors

/-! ## Entries -/

/-- The entry at the position of an iterator: its key, and its value read as
each type. -/
structure Entry (F : DbFormat K) where
  key : K
  value : (t : F.Ty) → Except ReadError (Option (F.Val t))

namespace CEvoDB

variable {F : DbFormat K}

/-- The iterators of a layer give their values through `GetValue`. -/
def getValue (evo : CEvoDB F) (t : F.Ty) :
    (layer : Layer) → (evo.store layer).Iter → Except ReadError (Option (F.Val t))
  | .root => evo.rootDBTransaction.getValue (evo.db.store F) t
  | .cur => evo.curDBTransaction.getValue (evo.store .root) t

def entry (evo : CEvoDB F) (layer : Layer) (it : (evo.store layer).Iter) : Entry F :=
  ⟨(evo.store layer).getKey it, fun t => evo.getValue t layer it⟩

theorem getValue_eq_read (evo : CEvoDB F) (layer : Layer) {it : (evo.store layer).Iter}
    (hvalid : (evo.store layer).valid it = true) (t : F.Ty) :
    evo.getValue t layer it = (evo.store layer).read t ((evo.store layer).getKey it) := by
  cases layer with
  | root => exact getValue_eq hvalid t
  | cur => exact getValue_eq hvalid t

/-- The iterator goes through the entries of the content that are in the range,
once each and in the order of their keys. -/
def Iterates (evo : CEvoDB F) (layer : Layer) (content : K → Option (Cell F))
    (range : K → Prop) (it : (evo.store layer).Iter) : Prop :=
  ∃ keys, LiveKeys content range keys ∧
    Cursor.Enumerates (evo.store layer).valid (evo.store layer).next (evo.entry layer) it
      (keys.map fun key => ⟨key, fun t => readCell t (content key)⟩)

theorem iterates_of_lists {evo : CEvoDB F} {layer : Layer} {content : K → Option (Cell F)}
    {range : K → Prop} {it : (evo.store layer).Iter} {keys : List K}
    (hrep : Represents (evo.store layer) content) (hlive : LiveKeys content range keys)
    (hlists : (evo.store layer).Lists it keys) : evo.Iterates layer content range it := by
  refine ⟨keys, hlive, hlists.map fun it hvalid => ?_⟩
  unfold entry
  congr 1
  funext t
  rw [getValue_eq_read evo layer hvalid, hrep.read]

/-- In every run, from any content of the database, the stack of transactions
answers as the flat store does, and after it an iterator of either layer goes
through the entries of the flat map, from the start or from any key. -/
theorem agree_run_openStore (F : DbFormat K) (db : CDBWrapper K) (ops : List (EvoOp F)) :
    Machine.Agree (fun evo flat => ∀ layer (it : (evo.store layer).Iter),
        (∃ it', (evo.store layer).seekToFirst it = some it' ∧
          evo.Iterates layer (flat.content layer) (fun _ => True) it') ∧
        ∀ from_, ∃ it', (evo.store layer).seek it from_ = some it' ∧
          evo.Iterates layer (flat.content layer) (from_ ≤ ·) it') (run step ops (openStore F db))
      (run FlatStore.step ops ⟨db.cells F, [], []⟩) := by
  refine Machine.Agree.imp (fun {evo flat} h layer it => ?_)
    (agree_run Mirrors.step ops (Mirrors.openStore F db))
  have hrep := h.represents layer
  constructor
  · obtain ⟨it', keys, hseek, hlive, hlists⟩ := hrep.seekToFirst it
    exact ⟨it', hseek, iterates_of_lists hrep hlive hlists⟩
  · intro from_
    obtain ⟨it', keys, hseek, hlive, hlists⟩ := hrep.seek it from_
    exact ⟨it', hseek, iterates_of_lists hrep hlive hlists⟩

end CEvoDB

end KorshCore

import Mathlib.Algebra.Order.BigOperators.Group.List
import KorshCore.Lib.SortedMap

/-!
# Database transactions

`CDBTransaction` of `dbwrapper.h`: pending writes and erases over a parent that
can be read, to be committed into a target. The evo database stacks two of them
over the database itself.

Keys are serialized byte strings, compared byte by byte; only their order is
used here, so the key type is any linear order. Pending values keep their type,
and the database holds bytes.
-/

namespace KorshCore

open SortedMap
open SortedMap (contains find_erase find_insert total_erase total_insert)

/-- The types of the values in a database, their serialization, and the size of
a key. -/
structure DbFormat (K : Type) where
  Ty : Type
  decEqTy : DecidableEq Ty
  Val : Ty → Type
  encode : (t : Ty) → Val t → List UInt8
  decode : (t : Ty) → List UInt8 → Option (Val t)
  keySize : K → Nat

instance {K : Type} (F : DbFormat K) : DecidableEq F.Ty := F.decEqTy

/-- `Read called with V != previously written type`. -/
inductive ReadError where
  | wrongType
  deriving DecidableEq, Repr

variable {K : Type} [LinearOrder K]

/-- What a key holds: a value that was written and is still pending, or the
bytes in the database. -/
inductive Cell (F : DbFormat K) where
  | pending (t : F.Ty) (v : F.Val t)
  | stored (bytes : List UInt8)

/-- Read a cell as a value of type `t`. -/
def readCell {F : DbFormat K} (t : F.Ty) : Option (Cell F) → Except ReadError (Option (F.Val t))
  | none => .ok none
  | some (.stored bytes) => .ok (F.decode t bytes)
  | some (.pending t' v) => if h : t' = t then .ok (some (h ▸ v)) else .error .wrongType

/-! ## The database -/

/-- `CDBWrapper`: the content of the database. -/
structure CDBWrapper (K : Type) [LinearOrder K] where
  content : SortedMap K (List UInt8)

inductive BatchOp (K : Type) where
  | put (key : K) (value : List UInt8)
  | delete (key : K)

abbrev CDBBatch (K : Type) := List (BatchOp K)

def CDBBatch.write (F : DbFormat K) (batch : CDBBatch K) (key : K) (t : F.Ty)
    (v : F.Val t) : CDBBatch K :=
  batch ++ [.put key (F.encode t v)]

def CDBBatch.erase (batch : CDBBatch K) (key : K) : CDBBatch K :=
  batch ++ [.delete key]

namespace CDBWrapper

def read (F : DbFormat K) (db : CDBWrapper K) (t : F.Ty) (key : K) : Option (F.Val t) :=
  match db.content.find key with
  | none => none
  | some bytes => F.decode t bytes

def existsKey (db : CDBWrapper K) (key : K) : Bool := db.content.contains key

def applyOp (db : CDBWrapper K) : BatchOp K → CDBWrapper K
  | .put key value => ⟨db.content.insert key value⟩
  | .delete key => ⟨db.content.erase key⟩

def writeBatch (db : CDBWrapper K) (batch : CDBBatch K) : CDBWrapper K :=
  batch.foldl applyOp db

def cells (F : DbFormat K) (db : CDBWrapper K) (key : K) : Option (Cell F) :=
  (db.content.find key).map .stored

end CDBWrapper

/-! ## Transactions -/

/-- `ValueHolderImpl`: a pending value with its type and its size. -/
structure ValueHolder (F : DbFormat K) where
  type : F.Ty
  value : F.Val type
  memoryUsage : Nat

def writeCost (F : DbFormat K) (key : K) (holder : ValueHolder F) : Int :=
  F.keySize key + holder.memoryUsage

def deleteCost (F : DbFormat K) (key : K) (_ : Unit) : Int := F.keySize key

structure CDBTransaction (F : DbFormat K) where
  writes : SortedMap K (ValueHolder F)
  deletes : SortedMap K Unit
  memoryUsage : Int
  disjoint : ∀ key, deletes.contains key = true → writes.contains key = false
  accounted : memoryUsage = writes.total (writeCost F) + deletes.total (deleteCost F)

structure CommitTarget (F : DbFormat K) (C : Type) where
  erase : C → K → C
  write : C → K → (t : F.Ty) → F.Val t → C

namespace CDBTransaction

variable {F : DbFormat K}

def new : CDBTransaction F where
  writes := .empty
  deletes := .empty
  memoryUsage := 0
  disjoint := nofun
  accounted := rfl

def releaseDelete (tx : CDBTransaction F) (key : K) : Int :=
  if tx.deletes.contains key then tx.memoryUsage - F.keySize key else tx.memoryUsage

def releaseWrite (tx : CDBTransaction F) (key : K) (usage : Int) : Int :=
  match tx.writes.find key with
  | some holder => usage - (F.keySize key + holder.memoryUsage)
  | none => usage

variable (tx : CDBTransaction F)

theorem releaseDelete_eq (key : K) :
    tx.releaseDelete key = tx.memoryUsage - tx.deletes.costOf (deleteCost F) key := by
  unfold releaseDelete contains costOf deleteCost
  cases tx.deletes.find key with
  | none => simp
  | some _ => simp

theorem releaseWrite_eq (key : K) (usage : Int) :
    tx.releaseWrite key usage = usage - tx.writes.costOf (writeCost F) key := by
  unfold releaseWrite costOf writeCost
  cases tx.writes.find key with
  | none => simp
  | some holder => rfl

def write (tx : CDBTransaction F) (key : K) (t : F.Ty) (v : F.Val t) : CDBTransaction F where
  writes := tx.writes.insert key ⟨t, v, (F.encode t v).length⟩
  deletes := tx.deletes.erase key
  memoryUsage := tx.releaseWrite key (tx.releaseDelete key)
    + (F.keySize key + (F.encode t v).length)
  disjoint := by
    intro k hk
    have hne : k ≠ key := by
      rintro rfl
      simp [contains, find_erase] at hk
    simp only [contains, find_erase, find_insert, if_neg hne] at hk ⊢
    exact tx.disjoint k hk
  accounted := by
    rw [releaseWrite_eq, releaseDelete_eq, total_insert, total_erase, tx.accounted]
    show _ = _ + ((F.keySize key : Int) + (F.encode t v).length) + _
    omega

def erase (tx : CDBTransaction F) (key : K) : CDBTransaction F where
  writes := tx.writes.erase key
  deletes := tx.deletes.insert key ()
  memoryUsage :=
    if tx.deletes.contains key then tx.releaseWrite key tx.memoryUsage
    else tx.releaseWrite key tx.memoryUsage + F.keySize key
  disjoint := by
    intro k hk
    by_cases hne : k = key
    · simp [contains, find_erase, hne]
    · simp only [contains, find_erase, find_insert, if_neg hne] at hk ⊢
      exact tx.disjoint k hk
  accounted := by
    have hfree := tx.releaseDelete_eq key
    rw [releaseWrite_eq, total_insert, total_erase]
    unfold releaseDelete at hfree
    have hcost : deleteCost F key () = F.keySize key := rfl
    have hacc := tx.accounted
    split_ifs at hfree ⊢
    · omega
    · omega

def clear (_ : CDBTransaction F) : CDBTransaction F := new

def isClean (tx : CDBTransaction F) : Bool :=
  tx.writes.entries.isEmpty && tx.deletes.entries.isEmpty

def getMemoryUsage (tx : CDBTransaction F) : Nat :=
  if tx.memoryUsage < 0 then 0 else tx.memoryUsage.toNat

/-- `CDBTransaction::Read` over the reads of the parent. -/
def read (tx : CDBTransaction F) (parentRead : (t : F.Ty) → K → Except ReadError (Option (F.Val t)))
    (t : F.Ty) (key : K) : Except ReadError (Option (F.Val t)) :=
  if tx.deletes.contains key then .ok none
  else match tx.writes.find key with
    | some holder =>
      if h : holder.type = t then .ok (some (h ▸ holder.value)) else .error .wrongType
    | none => parentRead t key

/-- `CDBTransaction::Exists` over the parent's. -/
def existsKey (tx : CDBTransaction F) (parentExists : K → Bool) (key : K) : Bool :=
  if tx.deletes.contains key then false
  else if tx.writes.contains key then true
  else parentExists key

def commit {C : Type} (target : CommitTarget F C) (tx : CDBTransaction F) (c : C) :
    C × CDBTransaction F :=
  let c := tx.deletes.keys.foldl target.erase c
  let c := tx.writes.entries.foldl (fun c e => target.write c e.1 e.2.type e.2.value) c
  (c, tx.clear)

def batchTarget : CommitTarget F (CDBBatch K) := ⟨CDBBatch.erase, CDBBatch.write F⟩

def transactionTarget : CommitTarget F (CDBTransaction F) := ⟨erase, write⟩

/-- The counter never goes below zero, and the reported usage is the size of what
is pending. -/
theorem getMemoryUsage_eq : 0 ≤ tx.memoryUsage ∧ (tx.getMemoryUsage : Int)
      = tx.writes.total (writeCost F) + tx.deletes.total (deleteCost F) := by
  have hwrites : 0 ≤ tx.writes.total (writeCost F) := by
    refine List.sum_nonneg fun x hx => ?_
    obtain ⟨e, -, rfl⟩ := List.mem_map.mp hx
    exact Int.natCast_nonneg (F.keySize e.1 + e.2.memoryUsage)
  have hdeletes : 0 ≤ tx.deletes.total (deleteCost F) := by
    refine List.sum_nonneg fun x hx => ?_
    obtain ⟨e, -, rfl⟩ := List.mem_map.mp hx
    exact Int.natCast_nonneg _
  have hacc := tx.accounted
  have hcounter : 0 ≤ tx.memoryUsage := by omega
  refine ⟨hcounter, ?_⟩
  unfold getMemoryUsage
  rw [if_neg (by omega)]
  omega

/-! ## The content that a transaction shows -/

/-- The content under a transaction with the pending changes on top. -/
def overlay (tx : CDBTransaction F) (below : K → Option (Cell F)) (key : K) : Option (Cell F) :=
  if tx.deletes.contains key then none
  else match tx.writes.find key with
    | some holder => some (.pending holder.type holder.value)
    | none => below key

theorem overlay_write (below : K → Option (Cell F)) (key k : K) (t : F.Ty) (v : F.Val t) :
    (tx.write key t v).overlay below k
      = if k = key then some (.pending t v) else tx.overlay below k := by
  unfold overlay write contains
  rw [find_insert, find_erase]
  split_ifs <;> simp_all

theorem overlay_erase (below : K → Option (Cell F)) (key k : K) :
    (tx.erase key).overlay below k = if k = key then none else tx.overlay below k := by
  unfold overlay erase contains
  dsimp only
  rw [find_insert, find_erase]
  split_ifs <;> simp_all

theorem read_eq_readCell {tx : CDBTransaction F}
    {parentRead : (t : F.Ty) → K → Except ReadError (Option (F.Val t))}
    {below : K → Option (Cell F)} (h : ∀ t key, parentRead t key = readCell t (below key))
    (t : F.Ty) (key : K) : tx.read parentRead t key = readCell t (tx.overlay below key) := by
  unfold read overlay
  split_ifs
  · rfl
  · cases tx.writes.find key with
    | some holder => rfl
    | none => exact h t key

theorem existsKey_eq {tx : CDBTransaction F} {parentExists : K → Bool}
    {below : K → Option (Cell F)} (h : ∀ key, parentExists key = (below key).isSome) (key : K) :
    tx.existsKey parentExists key = (tx.overlay below key).isSome := by
  unfold existsKey overlay
  split_ifs with hdeleted hwritten
  · rfl
  · obtain ⟨holder, hholder⟩ := Option.isSome_iff_exists.mp hwritten
    rw [hholder]
    rfl
  · have hnone : tx.writes.find key = none := by
      simpa [contains] using hwritten
    rw [hnone]
    exact h key

/-- A commit lays the pending changes over what the target shows. `f` is
the content of the target, and `w` how it shows a value that is written to it. -/
theorem lookup_commit {C : Type} (target : CommitTarget F C)
    {f : C → K → Option (Cell F)} {w : (t : F.Ty) → F.Val t → Cell F}
    (herase : ∀ c key k, f (target.erase c key) k = if k = key then none else f c k)
    (hwrite : ∀ c key t v k, f (target.write c key t v) k = if k = key then some (w t v) else f c k)
    (tx : CDBTransaction F) (c : C) (key : K) :
    f (tx.commit target c).1 key = if tx.deletes.contains key then none
        else match tx.writes.find key with
          | some holder => some (w holder.type holder.value)
          | none => f c key := by
  unfold commit keys
  rw [lookup_foldl_entries (g := fun holder : ValueHolder F => some (w holder.type holder.value))
    (fun c e k => hwrite c e.1 e.2.type e.2.value k), List.foldl_map,
    lookup_foldl_entries (g := fun _ : Unit => none) (fun c e k => herase c e.1 k)]
  split_ifs with hdeleted
  · have hunwritten : tx.writes.find key = none := by
      simpa [contains] using tx.disjoint key hdeleted
    obtain ⟨u, hu⟩ := Option.isSome_iff_exists.mp hdeleted
    rw [hunwritten, hu]
    rfl
  · have hkept : tx.deletes.find key = none := by
      simpa [contains] using hdeleted
    rw [hkept]
    cases tx.writes.find key with
    | none => rfl
    | some holder => rfl

theorem overlay_commit (lower : CDBTransaction F) (below : K → Option (Cell F)) :
    (tx.commit transactionTarget lower).1.overlay below = tx.overlay (lower.overlay below) := by
  funext key
  exact lookup_commit transactionTarget (f := fun c => c.overlay below)
    (fun c key k => overlay_erase c below key k)
    (fun c key t v k => overlay_write c below key k t v) tx lower key

end CDBTransaction

def Cell.toStored {F : DbFormat K} : Cell F → Cell F
  | .pending t v => .stored (F.encode t v)
  | .stored bytes => .stored bytes

theorem CDBWrapper.cells_applyOp_put (F : DbFormat K) (db : CDBWrapper K) (key k : K)
    (value : List UInt8) : (db.applyOp (.put key value)).cells F k
      = if k = key then some (.stored value) else db.cells F k := by
  unfold applyOp cells
  rw [find_insert]
  split_ifs
  · rfl
  · rfl

theorem CDBWrapper.cells_applyOp_delete (F : DbFormat K) (db : CDBWrapper K) (key k : K) :
    (db.applyOp (.delete key)).cells F k = if k = key then none else db.cells F k := by
  unfold applyOp cells
  rw [find_erase]
  split_ifs
  · rfl
  · rfl

theorem CDBTransaction.cells_writeBatch_commit {F : DbFormat K} (tx : CDBTransaction F)
    (db : CDBWrapper K) (batch : CDBBatch K) (key : K) :
    (db.writeBatch (tx.commit batchTarget batch).1).cells F key
      = (tx.overlay ((db.writeBatch batch).cells F) key).map Cell.toStored := by
  rw [lookup_commit batchTarget (f := fun batch key => (db.writeBatch batch).cells F key)
    (w := fun t v => .stored (F.encode t v))]
  · unfold overlay
    split_ifs
    · rfl
    · cases tx.writes.find key with
      | some holder => rfl
      | none =>
        unfold CDBWrapper.cells
        cases (db.writeBatch batch).content.find key with
        | none => rfl
        | some bytes => rfl
  · intro batch key k
    show (db.writeBatch (batch ++ [.delete key])).cells F k = _
    unfold CDBWrapper.writeBatch
    rw [List.foldl_append]
    exact CDBWrapper.cells_applyOp_delete F _ key k
  · intro batch key t v k
    show (db.writeBatch (batch ++ [.put key (F.encode t v)])).cells F k = _
    unfold CDBWrapper.writeBatch
    rw [List.foldl_append]
    exact CDBWrapper.cells_applyOp_put F _ key k _

end KorshCore

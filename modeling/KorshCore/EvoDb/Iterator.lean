import KorshCore.EvoDb.Transaction
import KorshCore.Lib.Cursor

/-!
# Iterators over transactions

`CDBTransactionIterator` of `dbwrapper.h` walks through the pending writes of a
transaction and through an iterator of its parent, and serves the smaller of
the two keys.
-/

namespace KorshCore

open SortedMap Prod
open List hiding contains

variable {K : Type} [LinearOrder K] [Inhabited K]

structure Store (F : DbFormat K) where
  Iter : Type
  read : (t : F.Ty) → K → Except ReadError (Option (F.Val t))
  existsKey : K → Bool
  newIterator : Iter
  seekToFirst : Iter → Option Iter
  seek : Iter → K → Option Iter
  valid : Iter → Bool
  /-- Nothing if an assertion fails. -/
  next : Iter → Option Iter
  getKey : Iter → K

/-- The database with its `CDBIterator`s: what such an iterator has before it. A
new one is not valid before it is positioned, and the key of an invalid one is
never read. -/
def CDBWrapper.store (F : DbFormat K) (db : CDBWrapper K) : Store F where
  Iter := List (K × List UInt8)
  read t key := .ok (db.read F t key)
  existsKey := db.existsKey
  newIterator := []
  seekToFirst _ := some db.content.entries
  seek _ key := some (db.content.lowerBound key)
  valid it := !it.isEmpty
  next it := some it.tail
  getKey it := (it.head?.map fst).getD default

/-! ## Transactions -/

/-- `CDBTransactionIterator`. `transactionIt` is the rest of the writes. -/
structure CDBTransactionIterator (F : DbFormat K) (parent : Store F) where
  transactionIt : List (K × ValueHolder F)
  parentIt : parent.Iter
  parentKey : K
  curIsParent : Bool

namespace CDBTransaction

variable {F : DbFormat K} (parent : Store F) (tx : CDBTransaction F)

def hides (key : K) : Bool := tx.deletes.contains key || tx.writes.contains key

/-- The loop of `SkipDeletedAndOverwritten`. -/
def skipLoop : Nat → CDBTransactionIterator F parent → Option (CDBTransactionIterator F parent)
  | 0, it => some it
  | fuel + 1, it =>
    if parent.valid it.parentIt then
      let parentKey := parent.getKey it.parentIt
      if !tx.hides parentKey then some { it with parentKey := parentKey }
      else match parent.next it.parentIt with
        | none => none
        | some parentIt =>
          skipLoop fuel { it with parentKey := parentKey, parentIt := parentIt }
    else some it

/-- `SkipDeletedAndOverwritten`. The keys passed over are different and each of
them has an entry, so the loop ends within this many rounds. -/
def skipDeletedAndOverwritten (it : CDBTransactionIterator F parent) :
    Option (CDBTransactionIterator F parent) :=
  tx.skipLoop parent (tx.deletes.entries.length + tx.writes.entries.length + 1) it

def decideCur (it : CDBTransactionIterator F parent) : CDBTransactionIterator F parent :=
  match it.transactionIt, parent.valid it.parentIt with
  | _ :: _, false => { it with curIsParent := false }
  | [], true => { it with curIsParent := true }
  | e :: _, true => { it with curIsParent := !decide (e.1 < it.parentKey) }
  | [], false => it

/-- Both iterators were moved: pass over hidden keys and decide. -/
def settle (it : CDBTransactionIterator F parent) : Option (CDBTransactionIterator F parent) :=
  (tx.skipDeletedAndOverwritten parent it).map (decideCur parent)

def newIterator : CDBTransactionIterator F parent :=
  ⟨[], parent.newIterator, default, false⟩

def seekToFirst (it : CDBTransactionIterator F parent) : Option (CDBTransactionIterator F parent) :=
  match parent.seekToFirst it.parentIt with
  | none => none
  | some parentIt =>
    tx.settle parent { it with transactionIt := tx.writes.entries, parentIt := parentIt }

def seek (it : CDBTransactionIterator F parent) (key : K) :
    Option (CDBTransactionIterator F parent) :=
  match parent.seek it.parentIt key with
  | none => none
  | some parentIt =>
    tx.settle parent { it with transactionIt := tx.writes.lowerBound key, parentIt := parentIt }

def iterValid (it : CDBTransactionIterator F parent) : Bool :=
  !it.transactionIt.isEmpty || parent.valid it.parentIt

/-- `CDBTransactionIterator::Next`, with its assertions. -/
def iterNext (it : CDBTransactionIterator F parent) : Option (CDBTransactionIterator F parent) :=
  if it.transactionIt.isEmpty && !parent.valid it.parentIt then some it
  else if it.curIsParent then
    if parent.valid it.parentIt then
      match parent.next it.parentIt with
      | none => none
      | some parentIt => tx.settle parent { it with parentIt := parentIt }
    else none
  else match it.transactionIt with
    | [] => none
    | _ :: rest => some (decideCur parent { it with transactionIt := rest })

def iterKey (it : CDBTransactionIterator F parent) : K :=
  if iterValid parent it then
    if it.curIsParent then it.parentKey else (it.transactionIt.head?.map fst).getD default
  else default

def getValue (t : F.Ty) (it : CDBTransactionIterator F parent) :
    Except ReadError (Option (F.Val t)) :=
  if iterValid parent it then
    if it.curIsParent then tx.read parent.read t it.parentKey
    else tx.read parent.read t ((it.transactionIt.head?.map fst).getD default)
  else .ok none

def store : Store F where
  Iter := CDBTransactionIterator F parent
  read := tx.read parent.read
  existsKey := tx.existsKey parent.existsKey
  newIterator := newIterator parent
  seekToFirst := tx.seekToFirst parent
  seek := tx.seek parent
  valid := iterValid parent
  next := tx.iterNext parent
  getKey := iterKey parent

end CDBTransaction

structure LiveKeys {F : DbFormat K} (content : K → Option (Cell F)) (range : K → Prop)
    (keys : List K) : Prop where
  sorted : keys.Pairwise (· < ·)
  mem_iff : ∀ key, key ∈ keys ↔ range key ∧ (content key).isSome = true

def Store.Lists {F : DbFormat K} (store : Store F) (it : store.Iter) (keys : List K) : Prop :=
  Cursor.Enumerates store.valid store.next store.getKey it keys

structure Represents {F : DbFormat K} (store : Store F) (content : K → Option (Cell F)) : Prop where
  read : ∀ t key, store.read t key = readCell t (content key)
  existsKey : ∀ key, store.existsKey key = (content key).isSome
  seekToFirst : ∀ it, ∃ it' keys, store.seekToFirst it = some it' ∧
    LiveKeys content (fun _ => True) keys ∧ store.Lists it' keys
  seek : ∀ it from_, ∃ it' keys, store.seek it from_ = some it' ∧
    LiveKeys content (from_ ≤ ·) keys ∧ store.Lists it' keys

theorem lists_entries {F : DbFormat K} (db : CDBWrapper K) :
    ∀ entries : List (K × List UInt8), (db.store F).Lists entries (entries.map fst)
  | [] => rfl
  | _ :: entries => ⟨rfl, rfl, entries, rfl, lists_entries db entries⟩

variable {key : K}

omit [Inhabited K] in
theorem isSome_cells {F : DbFormat K} {db : CDBWrapper K} :
    (db.cells F key).isSome = true ↔ ∃ e ∈ db.content.entries, e.1 = key := by
  unfold CDBWrapper.cells
  rw [Option.isSome_map]
  exact contains_iff_mem_keys.trans mem_map

theorem represents_database (F : DbFormat K) (db : CDBWrapper K) :
    Represents (db.store F) (db.cells F) where
  read := by
    intro t key
    show Except.ok (db.read F t key) = _
    unfold CDBWrapper.read CDBWrapper.cells
    cases db.content.find key with
    | none => rfl
    | some bytes => rfl
  existsKey := by
    intro key
    show (db.content.find key).isSome = _
    unfold CDBWrapper.cells
    rw [Option.isSome_map]
  seekToFirst := by
    intro it
    refine ⟨db.content.entries, _, rfl, ⟨pairwise_map.mpr db.content.sorted, ?_⟩,
      lists_entries db _⟩
    intro key
    rw [isSome_cells, mem_map, true_and]
  seek := by
    intro it from_
    refine ⟨db.content.lowerBound from_, _, rfl,
      ⟨pairwise_map.mpr (db.content.sorted_lowerBound from_), ?_⟩, lists_entries db _⟩
    intro key
    rw [isSome_cells, mem_map]
    constructor
    · intro ⟨e, he, hkey⟩
      obtain ⟨hmem, hle⟩ := mem_lowerBound.mp he
      exact ⟨hkey ▸ hle, e, hmem, hkey⟩
    · intro ⟨hle, e, he, hkey⟩
      exact ⟨e, mem_lowerBound.mpr ⟨he, hkey ▸ hle⟩, hkey⟩

/-! ## A transaction represents its overlay -/

namespace CDBTransaction

variable {F : DbFormat K} {parent : Store F} {tx : CDBTransaction F} {parents : List K}

section

omit [Inhabited K]

theorem isSome_overlay {below : K → Option (Cell F)} : (tx.overlay below key).isSome = true ↔
      key ∈ tx.writes.keys ∨ (below key).isSome = true ∧ tx.hides key = false := by
  rw [← contains_iff_mem_keys]
  have hdisjoint := tx.disjoint key
  unfold overlay hides
  unfold contains at hdisjoint ⊢
  cases hdelete : tx.deletes.find key with
  | some _ =>
    have hunwritten := hdisjoint (by rw [hdelete]; rfl)
    simp [hunwritten]
  | none =>
    cases tx.writes.find key with
    | some holder => simp
    | none => simp

/-- What an iterator has before it: the own keys, and keys of the parent of which
the first one is not hidden and is kept as `parentKey`. -/
structure Positioned (tx : CDBTransaction F) (it : CDBTransactionIterator F parent)
    (own parents : List K) : Prop where
  transactionIt : it.transactionIt.map fst = own
  parentIt : parent.Lists it.parentIt parents
  parentKey : ∀ key rest, parents = key :: rest → it.parentKey = key ∧ tx.hides key = false

def parentFirst : List K → List K → Bool
  | key :: _, key' :: _ => !decide (key < key')
  | _, parents => !parents.isEmpty

structure Serving (tx : CDBTransaction F) (it : CDBTransactionIterator F parent)
    (own parents : List K) : Prop extends Positioned tx it own parents where
  curIsParent : own ≠ [] ∨ parents ≠ [] → it.curIsParent = parentFirst own parents

variable {own parents : List K}

theorem Positioned.decideCur {it : CDBTransactionIterator F parent}
    (h : Positioned tx it own parents) : Serving tx (decideCur parent it) own parents := by
  have hvalid : parent.valid it.parentIt = !parents.isEmpty := h.parentIt.valid_eq
  obtain ⟨transactionIt, parentIt, parentKey, cur⟩ := it
  obtain ⟨rfl, hparent, hkey⟩ := h
  unfold CDBTransaction.decideCur
  dsimp only at hvalid hparent hkey ⊢
  rw [hvalid]
  cases transactionIt with
  | nil =>
    cases parents with
    | nil => exact ⟨⟨rfl, hparent, hkey⟩, fun hne => by simp at hne⟩
    | cons key' parents => exact ⟨⟨rfl, hparent, hkey⟩, fun _ => rfl⟩
  | cons e rest =>
    cases parents with
    | nil => exact ⟨⟨rfl, hparent, hkey⟩, fun _ => rfl⟩
    | cons key' parents =>
      refine ⟨⟨rfl, hparent, hkey⟩, fun _ => ?_⟩
      show (!decide (e.1 < parentKey)) = !decide (e.1 < key')
      rw [(hkey key' parents rfl).1]

theorem skipLoop_spec (tx : CDBTransaction F) :
    ∀ (fuel : Nat) (it : CDBTransactionIterator F parent),
    (parents.takeWhile tx.hides).length < fuel → parent.Lists it.parentIt parents →
    ∃ it', tx.skipLoop parent fuel it = some it' ∧
      Positioned tx it' (it.transactionIt.map fst) (parents.dropWhile tx.hides) := by
  induction parents with
  | nil =>
    intro fuel it hfuel hlists
    obtain ⟨fuel, rfl⟩ : ∃ n, fuel = n + 1 := ⟨fuel - 1, by omega⟩
    have hinvalid : parent.valid it.parentIt = false := hlists
    refine ⟨it, ?_, rfl, hlists, fun key rest heq => nomatch heq⟩
    simp [skipLoop, hinvalid]
  | cons key parents ih =>
    intro fuel it hfuel hlists
    obtain ⟨fuel, rfl⟩ : ∃ n, fuel = n + 1 := ⟨fuel - 1, by omega⟩
    obtain ⟨hvalid, hkey, parentIt, hnext, hrest⟩ := hlists
    by_cases hhides : tx.hides key = true
    · rw [takeWhile_cons_of_pos hhides, length_cons] at hfuel
      rw [dropWhile_cons_of_pos hhides]
      obtain ⟨it', hloop, hpositioned⟩ := ih fuel
        { it with parentKey := key, parentIt := parentIt } (by omega) hrest
      refine ⟨it', ?_, hpositioned⟩
      simp only [skipLoop, hvalid, hkey, hhides, hnext, if_true]
      exact hloop
    · rw [dropWhile_cons_of_neg hhides]
      refine ⟨{ it with parentKey := key }, ?_, rfl,
        ⟨hvalid, hkey, parentIt, hnext, hrest⟩, fun key' rest heq => ?_⟩
      · simp [skipLoop, hvalid, hkey, hhides]
      · obtain ⟨rfl, rfl⟩ := cons.inj heq
        exact ⟨rfl, by simpa using hhides⟩

theorem length_takeWhile_hides (hsorted : parents.Pairwise (· < ·)) :
    (parents.takeWhile tx.hides).length ≤ tx.deletes.entries.length + tx.writes.entries.length := by
  have hnodup : (parents.takeWhile tx.hides).Nodup :=
    (hsorted.sublist (takeWhile_sublist _)).imp fun hlt => ne_of_lt hlt
  have hsubset : parents.takeWhile tx.hides ⊆ tx.deletes.keys ++ tx.writes.keys := by
    intro key hkey
    have hhides := all_eq_true.mp all_takeWhile key hkey
    rw [mem_append, ← contains_iff_mem_keys, ← contains_iff_mem_keys]
    simpa [hides] using hhides
  have hle := (subperm_of_subset hnodup hsubset).length_le
  simpa [SortedMap.keys] using hle

theorem settle_spec (tx : CDBTransaction F) (it : CDBTransactionIterator F parent)
    (hsorted : parents.Pairwise (· < ·)) (hlists : parent.Lists it.parentIt parents) :
    ∃ it', tx.settle parent it = some it' ∧
      Serving tx it' (it.transactionIt.map fst) (parents.dropWhile tx.hides) := by
  obtain ⟨it', hloop, hpositioned⟩ := skipLoop_spec tx _ it
    (Nat.lt_succ_of_le (length_takeWhile_hides hsorted)) hlists
  refine ⟨decideCur parent it', ?_, hpositioned.decideCur⟩
  unfold settle skipDeletedAndOverwritten
  rw [hloop]
  rfl

theorem filter_dropWhile_hides (l : List K) :
    (l.dropWhile tx.hides).filter (fun key => !tx.hides key)
      = l.filter fun key => !tx.hides key := by
  induction l with
  | nil => rfl
  | cons key l ih =>
    by_cases hhides : tx.hides key = true
    · rw [dropWhile_cons_of_pos hhides, ih, filter_cons_of_neg (by simpa using hhides)]
    · rw [dropWhile_cons_of_neg hhides]

/-- The order in which the iterator serves the keys before it. -/
def served (tx : CDBTransaction F) (own parents : List K) : List K :=
  own.merge (parents.filter fun key => !tx.hides key) fun a b => decide (a ≤ b)

theorem served_nil_own (parents : List K) :
    served tx [] parents = parents.filter fun key => !tx.hides key := nil_merge _

theorem served_nil_parents (own : List K) : served tx own [] = own := merge_right _

theorem served_cons_cons {key' : K} (hvisible : tx.hides key' = false) (hne : key ≠ key') :
    served tx (key :: own) (key' :: parents) =
      if key < key' then key :: served tx own (key' :: parents)
      else key' :: served tx (key :: own) parents := by
  unfold served
  rw [filter_cons_of_pos (by simpa using hvisible)]
  by_cases hlt : key < key'
  · simp [hlt, hlt.le]
  · have hnot : ¬ key ≤ key' := fun hle => hlt (lt_of_le_of_ne hle hne)
    simp [hlt, hnot]

theorem served_dropWhile (own parents : List K) :
    served tx own (parents.dropWhile tx.hides) = served tx own parents := by
  unfold served
  rw [filter_dropWhile_hides]

theorem served_of_own (hparents : ∀ key' rest, parents = key' :: rest → tx.hides key' = false ∧
      key ≠ key') (hfirst : parentFirst (key :: own) parents = false) :
    served tx (key :: own) parents = key :: served tx own parents := by
  cases parents with
  | nil => rw [served_nil_parents, served_nil_parents]
  | cons key' parents =>
    obtain ⟨hvisible, hne⟩ := hparents key' parents rfl
    have hlt : key < key' := by simpa [parentFirst] using hfirst
    rw [served_cons_cons hvisible hne, if_pos hlt]

theorem served_of_parent {key' : K} (hvisible : tx.hides key' = false)
    (hown : ∀ key ∈ own, key ≠ key') (hfirst : parentFirst own (key' :: parents) = true) :
    served tx own (key' :: parents) = key' :: served tx own parents := by
  cases own with
  | nil =>
    rw [served_nil_own, served_nil_own, filter_cons_of_pos (by simpa using hvisible)]
  | cons key own =>
    have hnot : ¬ key < key' := by simpa [parentFirst] using hfirst
    rw [served_cons_cons hvisible (hown key mem_cons_self), if_neg hnot]

end

variable {it : CDBTransactionIterator F parent} {own parents : List K}

theorem Serving.next_own (h : Serving tx it (key :: own) parents)
    (hfirst : parentFirst (key :: own) parents = false) :
    iterValid parent it = true ∧ iterKey parent it = key ∧
      ∃ it', tx.iterNext parent it = some it' ∧ Serving tx it' own parents := by
  have hcur : it.curIsParent = false := (h.curIsParent (.inl (cons_ne_nil _ _))).trans hfirst
  obtain ⟨e, rest, hown, rfl, rfl⟩ := map_eq_cons_iff.mp h.transactionIt
  have hvalid : iterValid parent it = true := by simp [iterValid, hown]
  refine ⟨hvalid, by simp [iterKey, hvalid, hcur, hown],
    decideCur parent { it with transactionIt := rest }, ?_, ?_⟩
  · simp [iterNext, hown, hcur]
  · exact Positioned.decideCur ⟨rfl, h.parentIt, h.parentKey⟩

theorem Serving.next_parent (h : Serving tx it own (key :: parents))
    (hsorted : parents.Pairwise (· < ·)) (hfirst : parentFirst own (key :: parents) = true) :
    iterValid parent it = true ∧ iterKey parent it = key ∧ ∃ it', tx.iterNext parent it = some it' ∧
        Serving tx it' own (parents.dropWhile tx.hides) := by
  have hcur : it.curIsParent = true := (h.curIsParent (.inr (cons_ne_nil _ _))).trans hfirst
  obtain ⟨hparent, -, parentIt, hnext, hrest⟩ := h.parentIt
  have hvalid : iterValid parent it = true := by simp [iterValid, hparent]
  obtain ⟨it', hsettle, hserving⟩ := settle_spec tx { it with parentIt := parentIt } hsorted hrest
  refine ⟨hvalid, by simp [iterKey, hvalid, hcur, (h.parentKey key parents rfl).1],
    it', ?_, h.transactionIt ▸ hserving⟩
  simp only [hcur] at hsettle
  simp [iterNext, hparent, hcur, hnext, hsettle]

theorem Serving.lists (n : Nat) : ∀ {it : CDBTransactionIterator F parent}
    {own parents : List K}, own.length + parents.length ≤ n →
    (∀ key ∈ own, tx.hides key = true) → parents.Pairwise (· < ·) →
    Serving tx it own parents → (tx.store parent).Lists it (served tx own parents) := by
  induction n with
  | zero =>
    intro it own parents hlength _ _ h
    obtain rfl : own = [] := length_eq_zero_iff.mp (by omega)
    obtain rfl : parents = [] := length_eq_zero_iff.mp (by omega)
    have hinvalid : parent.valid it.parentIt = false := h.parentIt
    have hempty : it.transactionIt = [] := map_eq_nil_iff.mp h.transactionIt
    rw [served_nil_own]
    show iterValid parent it = false
    simp [iterValid, hempty, hinvalid]
  | succ n ih =>
    intro it own parents hlength hhidden hsorted h
    cases hfirst : parentFirst own parents with
    | false =>
      cases own with
      | nil =>
        obtain rfl : parents = [] := by simpa [parentFirst] using hfirst
        exact ih (Nat.zero_le n) hhidden hsorted h
      | cons key own =>
        have hparents : ∀ key' rest, parents = key' :: rest →
            tx.hides key' = false ∧ key ≠ key' := by
          intro key' rest heq
          have hvisible := (h.parentKey key' rest heq).2
          refine ⟨hvisible, fun hkey => ?_⟩
          rw [← hkey, hhidden key mem_cons_self] at hvisible
          exact nomatch hvisible
        obtain ⟨hvalid, hkey, it', hnext, hserving⟩ := h.next_own hfirst
        rw [served_of_own hparents hfirst]
        refine ⟨hvalid, hkey, it', hnext, ih ?_ ?_ hsorted hserving⟩
        · rw [length_cons] at hlength
          omega
        · exact fun k hk => hhidden k (mem_cons_of_mem _ hk)
    | true =>
      cases parents with
      | nil => cases own <;> simp [parentFirst] at hfirst
      | cons key' parents =>
        have hvisible := (h.parentKey key' parents rfl).2
        have hown : ∀ key ∈ own, key ≠ key' := by
          rintro key hkey rfl
          rw [hhidden key hkey] at hvisible
          exact nomatch hvisible
        have hrest := (pairwise_cons.mp hsorted).2
        obtain ⟨hvalid, hkey, it', hnext, hserving⟩ := h.next_parent hrest hfirst
        rw [served_of_parent hvisible hown hfirst, ← served_dropWhile]
        refine ⟨hvalid, hkey, it', hnext, ih ?_ hhidden ?_ hserving⟩
        · have hle := (dropWhile_sublist (l := parents) tx.hides).length_le
          rw [length_cons] at hlength
          omega
        · exact hrest.sublist (dropWhile_sublist _)

variable {below : K → Option (Cell F)}

omit [Inhabited K] in
theorem liveKeys_served {range : K → Prop} (hsorted : own.Pairwise (· < ·))
    (hmem : ∀ key, key ∈ own ↔ range key ∧ key ∈ tx.writes.keys)
    (hparents : LiveKeys below range parents) :
    LiveKeys (tx.overlay below) range (served tx own parents) := by
  constructor
  · refine Cursor.pairwise_merge_lt hsorted (hparents.sorted.filter _) ?_
    intro key hown hparent
    have hwritten := contains_iff_mem_keys.mpr ((hmem key).mp hown).2
    have hvisible := (mem_filter.mp hparent).2
    simp [hides, hwritten] at hvisible
  · intro key
    unfold served
    rw [mem_merge, mem_filter, hmem, hparents.mem_iff, isSome_overlay]
    constructor
    · rintro (⟨hrange, hwritten⟩ | ⟨⟨hrange, hlive⟩, hvisible⟩)
      · exact ⟨hrange, .inl hwritten⟩
      · exact ⟨hrange, .inr ⟨hlive, by simpa using hvisible⟩⟩
    · rintro ⟨hrange, hwritten | ⟨hlive, hvisible⟩⟩
      · exact .inl ⟨hrange, hwritten⟩
      · exact .inr ⟨⟨hrange, hlive⟩, by simpa using hvisible⟩

theorem lists_settle {range : K → Prop} (hsorted : it.transactionIt.Pairwise fun a b => a.1 < b.1)
    (hmem : ∀ key, key ∈ it.transactionIt.map fst ↔ range key ∧ key ∈
      tx.writes.keys) (hparents : LiveKeys below range parents)
    (hlists : parent.Lists it.parentIt parents) : ∃ it' keys, tx.settle parent it = some it' ∧
      LiveKeys (tx.overlay below) range keys ∧ (tx.store parent).Lists it' keys := by
  obtain ⟨it', hsettle, hserving⟩ := settle_spec tx it hparents.sorted hlists
  refine ⟨it', _, hsettle, liveKeys_served (pairwise_map.mpr hsorted) hmem hparents, ?_⟩
  rw [← served_dropWhile]
  refine Serving.lists _ le_rfl (fun key hkey => ?_)
    (hparents.sorted.sublist (dropWhile_sublist _)) hserving
  have hwritten := contains_iff_mem_keys.mpr ((hmem key).mp hkey).2
  simp [hides, hwritten]

theorem represents_store (h : Represents parent below) (tx : CDBTransaction F) :
    Represents (tx.store parent) (tx.overlay below) where
  read := read_eq_readCell h.read
  existsKey := existsKey_eq h.existsKey
  seekToFirst := by
    intro it
    obtain ⟨parentIt, parents, hseek, hlive, hlists⟩ := h.seekToFirst it.parentIt
    show ∃ it' keys, tx.seekToFirst parent it = some it' ∧ _
    unfold seekToFirst
    rw [hseek]
    refine lists_settle tx.writes.sorted (fun key => ?_) hlive hlists
    rw [true_and]
    rfl
  seek := by
    intro it from_
    obtain ⟨parentIt, parents, hseek, hlive, hlists⟩ := h.seek it.parentIt from_
    show ∃ it' keys, tx.seek parent it from_ = some it' ∧ _
    unfold seek
    rw [hseek]
    refine lists_settle (tx.writes.sorted_lowerBound from_) (fun key => ?_) hlive hlists
    unfold SortedMap.keys
    rw [mem_map, mem_map]
    constructor
    · rintro ⟨e, he, rfl⟩
      obtain ⟨hmem, hle⟩ := mem_lowerBound.mp he
      exact ⟨hle, e, hmem, rfl⟩
    · rintro ⟨hle, e, hmem, rfl⟩
      exact ⟨e, mem_lowerBound.mpr ⟨hmem, hle⟩, rfl⟩

theorem getValue_eq (hvalid : iterValid parent it = true) (t : F.Ty) :
    tx.getValue parent t it = tx.read parent.read t (iterKey parent it) := by
  unfold getValue iterKey
  rw [hvalid, if_pos rfl, if_pos rfl]
  split_ifs
  · rfl
  · rfl

end CDBTransaction

end KorshCore

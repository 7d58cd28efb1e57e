import Mathlib.Data.Finset.Card
import Mathlib.Data.List.Perm.Subperm

/-!
# A cache with access counters

`unordered_lru_cache` of `unordered_lru_cache.h`. Every entry has the value of a
counter at its last access. When the map grows beyond its threshold, the entries
are sorted by that number and all but the first `maxSize` are erased.

* Entries. `Holds` says that a key has an entry with a value. The lemmas
  `Holds.of_erase`, `Holds.of_emplace` and `Holds.of_get` say that no call makes
  an entry up, which is all that a user of the cache needs to be right.
* Runs. `Tracked` relates the entries to a log of the calls. `step_tracked` keeps it
  over a call, and from it follows which keys a run leaves in the cache.
-/

namespace KorshCore

open List

/-- An entry of `cacheMap`. -/
structure LruEntry (K V : Type) where
  key : K
  value : V
  access : Nat

/-- `unordered_lru_cache`. The order of `cacheMap` means nothing, and the 64-bit
counter does not come near its end. -/
structure UnorderedLruCache (K V : Type) where
  cacheMap : List (LruEntry K V)
  maxSize : Nat
  truncateThreshold : Nat
  accessCounter : Nat

/-- The calls. `has` is `exists`. -/
inductive LruOp (K V : Type) where
  | insert (key : K) (v : V)
  | emplace (key : K) (v : V)
  | get (key : K)
  | has (key : K)
  | erase (key : K)

/-- The values that were inserted and not erased since, and the keys that were
inserted or hit, the latest first. -/
structure LruLog (K V : Type) where
  latest : K → Option V
  uses : List K

variable {K V : Type} [DecidableEq K]

/-- The keys that were inserted or hit after the last use of a key. -/
def LruLog.since (log : LruLog K V) (key : K) : Finset K :=
  (log.uses.take (log.uses.idxOf key)).toFinset

namespace UnorderedLruCache

def new (maxSize truncateThreshold : Nat) : UnorderedLruCache K V where
  cacheMap := []
  maxSize := maxSize
  truncateThreshold := if truncateThreshold = 0 then maxSize * 2 else truncateThreshold
  accessCounter := 0

/-- `erase`. -/
def erase (c : UnorderedLruCache K V) (key : K) : UnorderedLruCache K V :=
  { c with cacheMap := c.cacheMap.filter fun e => e.key ≠ key }

/-- The entry of a key is written with the next value of the counter. -/
def write (c : UnorderedLruCache K V) (key : K) (v : V) : UnorderedLruCache K V :=
  { c with
    cacheMap := ⟨key, v, c.accessCounter⟩ :: (c.erase key).cacheMap
    accessCounter := c.accessCounter + 1 }

/-- `truncate_if_needed`. -/
def truncateIfNeeded (c : UnorderedLruCache K V) : UnorderedLruCache K V :=
  if c.cacheMap.length ≤ c.truncateThreshold then c
  else { c with cacheMap := (c.cacheMap.mergeSort fun a b => b.access ≤ a.access).take c.maxSize }

/-- `_emplace`, which is both `emplace` and `insert`. -/
def emplace (c : UnorderedLruCache K V) (key : K) (v : V) : UnorderedLruCache K V :=
  (c.write key v).truncateIfNeeded

/-- `get`: the value, if the key is found. -/
def get (c : UnorderedLruCache K V) (key : K) : Option V × UnorderedLruCache K V :=
  match c.cacheMap.find? fun e => e.key = key with
  | some e => (some e.value, c.write key e.value)
  | none => (none, c)

/-- `exists`, which counts as an access too. -/
def has (c : UnorderedLruCache K V) (key : K) : Bool × UnorderedLruCache K V :=
  ((c.get key).1.isSome, (c.get key).2)

/-- A call, and what it adds to the log. -/
def step : UnorderedLruCache K V × LruLog K V → LruOp K V → UnorderedLruCache K V × LruLog K V
  | (c, log), .insert key v | (c, log), .emplace key v =>
    (c.emplace key v, ⟨Function.update log.latest key (some v), key :: log.uses⟩)
  | (c, log), .get key =>
    ((c.get key).2, { log with uses := if (c.get key).1.isSome then key :: log.uses else log.uses })
  | (c, log), .has key =>
    ((c.has key).2, { log with uses := if (c.has key).1 then key :: log.uses else log.uses })
  | (c, log), .erase key =>
    (c.erase key, { log with latest := Function.update log.latest key none })

def run (maxSize truncateThreshold : Nat) (ops : List (LruOp K V)) :
    UnorderedLruCache K V × LruLog K V :=
  ops.foldl step (new maxSize truncateThreshold, ⟨fun _ => none, []⟩)

/-- The entries have the latest values and are as old as the last use of their keys.
A key that was inserted, and after which few others were used, has an entry. -/
structure Tracked (c : UnorderedLruCache K V) (log : LruLog K V) : Prop where
  counter : c.accessCounter = log.uses.length
  keys : (c.cacheMap.map LruEntry.key).Nodup
  value : ∀ e ∈ c.cacheMap, log.latest e.key = some e.value
  used : ∀ e ∈ c.cacheMap, e.key ∈ log.uses
  age : ∀ e ∈ c.cacheMap, e.access + log.uses.idxOf e.key + 1 = log.uses.length
  kept : ∀ key, (log.latest key).isSome → (log.since key).card < c.maxSize →
    ∃ e ∈ c.cacheMap, e.key = key

variable {c : UnorderedLruCache K V} {log : LruLog K V} {key : K} {v : V}

theorem since_cons {other : K} (hne : key ≠ other) (latest : K → Option V) :
    (LruLog.since ⟨latest, key :: log.uses⟩ other) = insert key (log.since other) := by
  rw [LruLog.since, idxOf_cons_ne _ hne, take_succ_cons, toFinset_cons, LruLog.since]

theorem Tracked.erase (h : Tracked c log) (key : K) :
    Tracked (c.erase key) { log with latest := Function.update log.latest key none } where
  counter := h.counter
  keys := h.keys.sublist (filter_sublist.map _)
  value e he := by
    obtain ⟨he, hne⟩ := mem_filter.mp he
    exact (Function.update_of_ne (of_decide_eq_true hne) ..).trans (h.value e he)
  used e he := h.used e (mem_filter.mp he).1
  age e he := h.age e (mem_filter.mp he).1
  kept other hother hfew := by
    by_cases heq : other = key
    · simp [heq] at hother
    · have hother : (log.latest other).isSome := by simpa [heq] using hother
      obtain ⟨e, he, rfl⟩ := h.kept other hother hfew
      exact ⟨e, mem_filter.mpr ⟨he, decide_eq_true heq⟩, rfl⟩

theorem Tracked.write (h : Tracked c log) (key : K) (v : V) :
    Tracked (c.write key v) ⟨Function.update log.latest key (some v), key :: log.uses⟩ := by
  have hold {e : LruEntry K V} (he : e ∈ (c.erase key).cacheMap) : e ∈ c.cacheMap ∧ e.key ≠ key :=
    ⟨(mem_filter.mp he).1, of_decide_eq_true (mem_filter.mp he).2⟩
  refine ⟨congrArg (· + 1) h.counter, ?_, ?_, ?_, ?_, ?_⟩
  · refine nodup_cons.mpr ⟨fun hmem => ?_, (h.erase key).keys⟩
    obtain ⟨e, he, heq⟩ := mem_map.mp hmem
    exact (hold he).2 heq
  · refine forall_mem_cons.mpr ⟨Function.update_self .., fun e he => ?_⟩
    exact (Function.update_of_ne (hold he).2 ..).trans (h.value e (hold he).1)
  · exact forall_mem_cons.mpr ⟨mem_cons_self, fun e he => mem_cons_of_mem _ (h.used e (hold he).1)⟩
  · refine forall_mem_cons.mpr ⟨?_, fun e he => ?_⟩
    · rw [idxOf_cons_self, length_cons, h.counter]
    · have hage := h.age e (hold he).1
      rw [idxOf_cons_ne _ (hold he).2.symm, length_cons]
      omega
  · intro other hother hfew
    by_cases heq : other = key
    · exact ⟨_, mem_cons_self, heq.symm⟩
    · have hother : (log.latest other).isSome := by simpa [heq] using hother
      rw [since_cons (Ne.symm heq)] at hfew
      obtain ⟨e, he, rfl⟩ := h.kept other hother
        ((Finset.card_le_card (Finset.subset_insert _ _)).trans_lt hfew)
      exact ⟨e, mem_cons_of_mem _ (mem_filter.mpr ⟨he, decide_eq_true heq⟩), rfl⟩

theorem Tracked.truncate (h : Tracked c log) (hfits : c.maxSize ≤ c.truncateThreshold) :
    Tracked c.truncateIfNeeded log ∧ c.truncateIfNeeded.cacheMap.length ≤ c.truncateThreshold := by
  unfold truncateIfNeeded
  split_ifs with hsize
  · exact ⟨h, hsize⟩
  have hperm := mergeSort_perm c.cacheMap fun a b => decide (b.access ≤ a.access)
  have hsorted := @pairwise_mergeSort _ (fun a b : LruEntry K V => decide (b.access ≤ a.access))
    (by simp only [decide_eq_true_eq]; omega)
    (by simp only [Bool.or_eq_true, decide_eq_true_eq]; omega) c.cacheMap
  generalize (c.cacheMap.mergeSort fun a b => decide (b.access ≤ a.access)) = sorted
    at hperm hsorted
  have hmem {e : LruEntry K V} (he : e ∈ sorted.take c.maxSize) : e ∈ c.cacheMap :=
    hperm.subset (take_subset _ _ he)
  have hkeys : (sorted.map LruEntry.key).Nodup := (hperm.map _).nodup_iff.mpr h.keys
  refine ⟨⟨h.counter, hkeys.sublist ((take_sublist _ _).map _), fun e he => h.value e (hmem he),
    fun e he => h.used e (hmem he), fun e he => h.age e (hmem he), fun key hkey hfew => ?_⟩,
    (length_take_le _ _).trans hfits⟩
  have hfew : (log.since key).card < c.maxSize := hfew
  obtain ⟨e, he, rfl⟩ := h.kept key hkey hfew
  obtain ⟨front, back, rfl⟩ := append_of_mem (hperm.symm.subset he)
  refine ⟨e, ?_, rfl⟩
  -- the entries in front belong to keys that were used after this one
  have hsub : (front.map LruEntry.key).toFinset ⊆ log.since e.key := by
    intro other hother
    obtain ⟨e', he', rfl⟩ := mem_map.mp (mem_toFinset.mp hother)
    have hmap : e' ∈ c.cacheMap := hperm.subset (mem_append_left _ he')
    have hle := of_decide_eq_true ((pairwise_append.mp hsorted).2.2 e' he' e mem_cons_self)
    have hage := h.age e he
    have hage' := h.age e' hmap
    have hne : log.uses.idxOf e'.key ≠ log.uses.idxOf e.key := by
      rw [Ne, idxOf_inj (h.used e' hmap)]
      rw [map_append, map_cons] at hkeys
      exact fun heq => (nodup_append.mp hkeys).2.2 _ (mem_map_of_mem he') _ mem_cons_self heq
    rw [LruLog.since, mem_toFinset, mem_take_iff_idxOf_lt (h.used e' hmap)]
    omega
  have hfront : front.length < c.maxSize := by
    rw [map_append] at hkeys
    have hcard := Finset.card_le_card hsub
    rw [toFinset_card_of_nodup (nodup_append.mp hkeys).1, length_map] at hcard
    omega
  rw [take_append, take_cons (by omega)]
  exact mem_append_right _ mem_cons_self

theorem get_cases (c : UnorderedLruCache K V) (key : K) :
    (∃ e ∈ c.cacheMap, e.key = key ∧ c.get key = (some e.value, c.write key e.value)) ∨
      (∀ e ∈ c.cacheMap, e.key ≠ key) ∧ c.get key = (none, c) := by
  unfold get
  cases hfind : c.cacheMap.find? fun e => e.key = key with
  | none => exact .inr ⟨by simpa using hfind, rfl⟩
  | some e => exact .inl ⟨e, mem_of_find?_eq_some hfind, by simpa using find?_some hfind, rfl⟩

theorem Tracked.get (h : Tracked c log) (key : K) : Tracked (c.get key).2
    { log with uses := if (c.get key).1.isSome then key :: log.uses else log.uses } := by
  rcases c.get_cases key with ⟨e, he, rfl, hget⟩ | ⟨-, hget⟩
  · have hwrite := h.write e.key e.value
    rw [← h.value e he, Function.update_eq_self] at hwrite
    rw [hget]
    exact hwrite
  · rw [hget]
    exact h

/-! ## Entries -/

/-- The cache has an entry with this key and value. -/
def Holds (c : UnorderedLruCache K V) (key : K) (v : V) : Prop :=
  ∃ e ∈ c.cacheMap, e.key = key ∧ e.value = v

theorem holds_of_get (h : (c.get key).1 = some v) : c.Holds key v := by
  rcases c.get_cases key with ⟨e, he, hkey, hget⟩ | ⟨-, hget⟩
  · rw [hget] at h
    exact ⟨e, he, hkey, Option.some.inj h⟩
  · rw [hget] at h
    cases h

theorem Holds.get_ne_none (h : c.Holds key v) : (c.get key).1 ≠ none := by
  obtain ⟨e, he, hkey, -⟩ := h
  rcases c.get_cases key with ⟨_, -, -, hget⟩ | ⟨hnone, -⟩
  · rw [hget]
    exact Option.some_ne_none _
  · exact absurd hkey (hnone e he)

theorem Holds.of_erase {other : K} {w : V} (h : (c.erase key).Holds other w) :
    other ≠ key ∧ c.Holds other w := by
  obtain ⟨e, he, rfl, rfl⟩ := h
  obtain ⟨hmem, hne⟩ := mem_filter.mp he
  exact ⟨of_decide_eq_true hne, e, hmem, rfl, rfl⟩

theorem Holds.of_write {other : K} {w : V} (h : (c.write key v).Holds other w) :
    other = key ∧ w = v ∨ other ≠ key ∧ c.Holds other w := by
  obtain ⟨e, he, hkey, hvalue⟩ := h
  rcases mem_cons.mp he with rfl | he
  · exact .inl ⟨hkey.symm, hvalue.symm⟩
  · exact .inr (Holds.of_erase ⟨e, he, hkey, hvalue⟩)

theorem Holds.of_emplace {other : K} {w : V} (h : (c.emplace key v).Holds other w) :
    other = key ∧ w = v ∨ other ≠ key ∧ c.Holds other w := by
  apply Holds.of_write
  obtain ⟨e, he, hentry⟩ := h
  unfold emplace truncateIfNeeded at he
  split_ifs at he
  · exact ⟨e, he, hentry⟩
  · exact ⟨e, (mergeSort_perm _ _).subset (take_subset _ _ he), hentry⟩

theorem Holds.of_get {other : K} {w : V} (h : (c.get key).2.Holds other w) : c.Holds other w := by
  rcases c.get_cases key with ⟨e, he, hkey, hget⟩ | ⟨-, hget⟩
  · rw [hget] at h
    rcases h.of_write with ⟨rfl, rfl⟩ | ⟨-, hold⟩
    · exact ⟨e, he, hkey, rfl⟩
    · exact hold
  · rwa [hget] at h

/-! ## Runs -/

/-- The bounds of a cache, which no call changes. -/
def Within (c : UnorderedLruCache K V) (maxSize : Nat) : Prop :=
  c.maxSize = maxSize ∧ maxSize ≤ c.truncateThreshold ∧ c.cacheMap.length ≤ c.truncateThreshold

theorem Within.get {maxSize : Nat} (h : c.Within maxSize) (key : K) :
    (c.get key).2.Within maxSize := by
  rcases c.get_cases key with ⟨e, he, hkey, hget⟩ | ⟨-, hget⟩
  · have hlt : (c.erase key).cacheMap.length < c.cacheMap.length :=
      length_filter_lt_length_iff_exists.mpr ⟨e, he, by simp [hkey]⟩
    rw [hget]
    exact ⟨h.1, h.2.1, hlt.trans_le h.2.2⟩
  · rwa [hget]

theorem step_tracked {maxSize : Nat} {s : UnorderedLruCache K V × LruLog K V}
    (h : Tracked s.1 s.2 ∧ s.1.Within maxSize) (op : LruOp K V) :
    Tracked (step s op).1 (step s op).2 ∧ (step s op).1.Within maxSize := by
  obtain ⟨c, log⟩ := s
  obtain ⟨htracked, hwithin⟩ := h
  have hemplace (key : K) (v : V) : Tracked (c.emplace key v)
      ⟨Function.update log.latest key (some v), key :: log.uses⟩ ∧
      (c.emplace key v).Within maxSize := by
    obtain ⟨hnext, hsize⟩ := (htracked.write key v).truncate (hwithin.1.trans_le hwithin.2.1)
    refine ⟨hnext, ?_⟩
    rw [emplace]
    unfold truncateIfNeeded at hsize ⊢
    split_ifs at hsize ⊢
    · exact ⟨hwithin.1, hwithin.2.1, hsize⟩
    · exact ⟨hwithin.1, hwithin.2.1, hsize⟩
  cases op with
  | insert key v => exact hemplace key v
  | emplace key v => exact hemplace key v
  | get key => exact ⟨htracked.get key, hwithin.get key⟩
  | has key => exact ⟨htracked.get key, hwithin.get key⟩
  | erase key =>
    exact ⟨htracked.erase key, hwithin.1, hwithin.2.1, (length_filter_le ..).trans hwithin.2.2⟩

/-- After any calls: a hit gives the value that was inserted last, a key that was
erased misses, the entries are within the threshold, and a key after which fewer than
`maxSize` others were used is found. -/
theorem get_of_run {maxSize truncateThreshold : Nat} (hfits : maxSize ≤
      (new maxSize truncateThreshold : UnorderedLruCache K V).truncateThreshold)
    (ops : List (LruOp K V)) : let s := run maxSize truncateThreshold ops
    (∀ key v, (s.1.get key).1 = some v → s.2.latest key = some v) ∧
    (∀ key, s.2.latest key = none → (s.1.get key).1 = none ∧ (s.1.has key).1 = false) ∧
    s.1.cacheMap.length ≤ s.1.truncateThreshold ∧
    ∀ key, s.2.latest key ≠ none → (s.2.since key).card < maxSize →
      (s.1.get key).1 = s.2.latest key ∧ (s.1.has key).1 = true := by
  intro s
  have hnew : Tracked (new maxSize truncateThreshold : UnorderedLruCache K V) ⟨fun _ => none, []⟩ :=
    ⟨rfl, nodup_nil, forall_mem_nil _, forall_mem_nil _, forall_mem_nil _,
      fun _ hnone => absurd hnone Bool.false_ne_true⟩
  obtain ⟨htracked, hmax, -, hsize⟩ : Tracked s.1 s.2 ∧ s.1.Within maxSize :=
    foldlRecOn ops step (motive := fun s => Tracked s.1 s.2 ∧ s.1.Within maxSize)
      ⟨hnew, rfl, hfits, Nat.zero_le _⟩ fun _ hs op _ => step_tracked hs op
  have hhit : ∀ key v, (s.1.get key).1 = some v → s.2.latest key = some v := by
    intro key v hget
    rcases s.1.get_cases key with ⟨e, he, rfl, heq⟩ | ⟨-, heq⟩
    · rw [heq] at hget
      rw [htracked.value e he, ← hget]
    · rw [heq] at hget
      cases hget
  refine ⟨hhit, fun key hnone => ?_, hsize, fun key hsome hfew => ?_⟩
  · have hmiss : (s.1.get key).1 = none := by
      by_contra hne
      obtain ⟨v, hv⟩ := Option.ne_none_iff_exists'.mp hne
      rw [hhit key v hv] at hnone
      cases hnone
    exact ⟨hmiss, by rw [has, hmiss]; rfl⟩
  · obtain ⟨e, he, hkey⟩ := htracked.kept key (Option.isSome_iff_ne_none.mpr hsome) (hmax ▸ hfew)
    rcases s.1.get_cases key with ⟨e', -, -, heq⟩ | ⟨hmiss, -⟩
    · have hget : (s.1.get key).1 = some e'.value := by rw [heq]
      exact ⟨by rw [hget, hhit key _ hget], by rw [has, hget]; rfl⟩
    · exact absurd hkey (hmiss e he)

theorem get_of_run_third_insert : ((run 1 2 [.insert 1 true, .insert 2 false, .insert 3 true]).1.get
    3).1 = some true := by
  have hrun := (@get_of_run Nat Bool _ 1 2 (by decide)
    [.insert 1 true, .insert 2 false, .insert 3 true]).2.2.2 3 (by decide) (by decide)
  exact hrun.1

end UnorderedLruCache

end KorshCore

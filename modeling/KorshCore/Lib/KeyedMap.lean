import KorshCore.Lib.Except
import Mathlib.Data.List.AList

/-!
# Finite maps that are merged entry by entry

`KeyedMap K V` is Mathlib's association list with distinct keys. The order of
its entries is the order in which a loop over the map visits them, so a
statement about every `KeyedMap` is a statement about every order.
-/

/-- A finite map with the order in which its entries are visited. -/
abbrev KeyedMap (K V : Type) := AList fun _ : K => V

namespace KeyedMap

open List AList

variable {K V P U ε : Type} [DecidableEq K]

/-! ## One key -/

/-- Give `k` the value `p`, or remove it. -/
def set (m : KeyedMap K V) (k : K) : Option V → KeyedMap K V
  | none => m.erase k
  | some v => m.insert k v

variable (m : KeyedMap K V)

@[simp] theorem lookup_set_self (k : K) (p : Option V) : (m.set k p).lookup k = p := by
  cases p with
  | none => exact lookup_erase k m
  | some v => exact lookup_insert m

theorem lookup_set_ne {k k' : K} (hne : k' ≠ k) (m : KeyedMap K V)
    (p : Option V) : (m.set k p).lookup k' = m.lookup k' := by
  cases p with
  | none => exact lookup_erase_ne hne
  | some v => exact lookup_insert_ne hne

theorem lookup_insert_eq (k k' : K) (v : V) :
    (m.insert k v).lookup k' = if k' = k then some v else m.lookup k' := by
  split_ifs with h
  · subst h
    exact lookup_insert m
  · exact lookup_insert_ne h

theorem lookup_erase_eq (k k' : K) :
    (m.erase k).lookup k' = if k' = k then none else m.lookup k' := by
  split_ifs with h
  · subst h
    exact lookup_erase k' m
  · exact lookup_erase_ne h

/-- Give `k` the value `v` unless it has one. -/
def emplace (m : KeyedMap K V) (k : K) (v : V) : KeyedMap K V :=
  if (m.lookup k).isSome then m else m.insert k v

/-- The map of a list of entries, of which the first for a key counts. -/
def ofList (l : List (K × V)) : KeyedMap K V :=
  l.foldl (fun m e => m.emplace e.1 e.2) ∅

theorem lookup_emplace (k k' : K) (v : V) : (m.emplace k v).lookup k'
      = if k' = k then some ((m.lookup k).getD v) else m.lookup k' := by
  unfold emplace
  cases hk : m.lookup k with
  | some w =>
    rw [if_pos (by simp)]
    split_ifs with h
    · rw [h, hk, Option.getD_some]
    · rfl
  | none => rw [if_neg (by simp), lookup_insert_eq, Option.getD_none]

private theorem lookup_foldl_emplace : ∀ (l : List (K × V)) (m : KeyedMap K V),
    (l.map Prod.fst).Nodup → ∀ k v, (l.foldl (fun m e => m.emplace e.1 e.2) m).lookup k = some v ↔
      m.lookup k = some v ∨ m.lookup k = none ∧ (k, v) ∈ l := by
  intro l
  induction l with
  | nil => intro m _ k v; simp
  | cons e l ih =>
    intro m hnodup k v
    rw [map_cons, nodup_cons] at hnodup
    rw [foldl_cons, ih _ hnodup.2, lookup_emplace]
    have hother : k = e.1 → (k, v) ∉ l := fun hk hmem =>
      hnodup.1 (hk ▸ mem_map_of_mem hmem)
    split_ifs with hk
    · subst hk
      cases hm : m.lookup e.1 with
      | some w => simp
      | none => simp [hother rfl, Prod.ext_iff, eq_comm]
    · simp [Prod.ext_iff, hk]

theorem lookup_ofList {l : List (K × V)} (hnodup : (l.map Prod.fst).Nodup)
    {k : K} {v : V} : (ofList l).lookup k = some v ↔ (k, v) ∈ l := by
  rw [ofList, lookup_foldl_emplace l ∅ hnodup]
  simp

def filterMapValues (f : V → Option P) (m : KeyedMap K V) : KeyedMap K P where
  entries := m.entries.filterMap fun e => (f e.2).map fun p => ⟨e.1, p⟩
  nodupKeys := by
    have hkeys : (m.entries.filterMap fun e =>
        (f e.2).map fun p => (⟨e.1, p⟩ : Sigma fun _ : K => P)).keys.Sublist m.entries.keys := by
      induction m.entries with
      | nil => simp
      | cons e entries ih =>
        cases h : f e.2 with
        | none => simpa [h] using ih.cons e.1
        | some p => simpa [h] using ih.cons_cons e.1
    exact List.Nodup.sublist hkeys m.nodupKeys

theorem lookup_filterMapValues (f : V → Option P) (m : KeyedMap K V) (k : K) :
    (m.filterMapValues f).lookup k = (m.lookup k).bind f := by
  obtain ⟨entries, hnodup⟩ := m
  change dlookup k (entries.filterMap fun e =>
      (f e.2).map fun p => (⟨e.1, p⟩ : Sigma fun _ : K => P))
    = (dlookup k entries).bind f
  induction entries with
  | nil => rfl
  | cons e entries ih =>
    obtain ⟨a, v⟩ := e
    have hrest := ih (NodupKeys.sublist (sublist_cons_self _ _) hnodup)
    have hnew : a ∉ entries.keys := (nodupKeys_cons.mp hnodup).1
    by_cases hak : k = a
    · subst hak
      have hnone : dlookup k entries = none := dlookup_eq_none.mpr hnew
      cases h : f v with
      | none => simpa [h, hnone] using hrest
      | some p => simp [h]
    · have hskip : dlookup k (⟨a, v⟩ :: entries) = dlookup k entries :=
        dlookup_cons_ne entries ⟨a, v⟩ hak
      rw [hskip, ← hrest]
      cases h : f v with
      | none => simp [h]
      | some p =>
        rw [filterMap_cons_some (by rw [h]; rfl)]
        exact dlookup_cons_ne _ (⟨a, p⟩ : Sigma fun _ : K => P) hak

private theorem foldl_entries_aux {S : Type} {get : S → K → P}
    {turn : S → K → V → S} {effect : K → V → P → P}
    (hself : ∀ s k v, get (turn s k v) k = effect k v (get s k))
    (hother : ∀ s k v k', k' ≠ k → get (turn s k v) k' = get s k') (k : K) :
    ∀ entries : List (Sigma fun _ : K => V), entries.NodupKeys → ∀ s,
    get (entries.foldl (fun s e => turn s e.1 e.2) s) k
      = (dlookup k entries).elim (get s k) (effect k · (get s k)) := by
  intro entries
  induction entries with
  | nil => intro _ s; rfl
  | cons e entries ih =>
    intro hnodup s
    obtain ⟨hnew, htail⟩ := nodupKeys_cons.mp hnodup
    obtain ⟨a, v⟩ := e
    rw [foldl_cons, ih htail]
    by_cases hak : k = a
    · subst hak
      rw [dlookup_eq_none.mpr hnew, dlookup_cons_eq]
      exact hself s k v
    · rw [dlookup_cons_ne entries (⟨a, v⟩ : Sigma fun _ : K => V) hak, hother s a v k hak]

theorem foldl_entries {S : Type} (get : S → K → P) (turn : S → K → V → S)
    (effect : K → V → P → P) (hself : ∀ s k v, get (turn s k v) k = effect k v (get s k))
    (hother : ∀ s k v k', k' ≠ k → get (turn s k v) k' = get s k')
    (m : KeyedMap K V) (s : S) (k : K) : get (m.entries.foldl (fun s e => turn s e.1 e.2) s) k
      = (m.lookup k).elim (get s k) (effect k · (get s k)) :=
  foldl_entries_aux hself hother k m.entries m.nodupKeys s

/-! ## Merging -/

def alterM (f : Option P → Except ε (Option P)) (g : Option P → Option P → U → U)
    (k : K) (state : KeyedMap K P × U) : Except ε (KeyedMap K P × U) := do
  let p ← f (state.1.lookup k)
  .ok (state.1.set k p, g (state.1.lookup k) p state.2)

/-- Write the entries of `child` into `state`, one after the other. -/
def mergeM (f : Option P → V → Except ε (Option P))
    (g : Option P → Option P → U → U) (child : KeyedMap K V)
    (state : KeyedMap K P × U) : Except ε (KeyedMap K P × U) :=
  child.entries.foldlM (fun state e => alterM (f · e.2) g e.1 state) state

/-- `result` is what a merge of `child` into `ours` leaves, whatever number
it carries along. -/
def Merged (f : Option P → V → Except ε (Option P)) (child : KeyedMap K V)
    (ours result : KeyedMap K P) : Prop :=
  ∃ (U : Type) (g : Option P → Option P → U → U) (u u' : U),
    mergeM f g child (ours, u) = .ok (result, u')

private theorem foldlM_alterM_aux (f : Option P → V → Except ε (Option P))
    (g : Option P → Option P → U → U) :
    ∀ (entries : List (Sigma fun _ : K => V)), entries.NodupKeys → ∀ state : KeyedMap K P × U,
    (∀ e ∈ entries, ∃ p, f (state.1.lookup e.1) e.2 = .ok p) → ∃ state', entries.foldlM
        (fun state e => alterM (f · e.2) g e.1 state) state = .ok state' ∧
      (∀ k, k ∉ entries.keys → state'.1.lookup k = state.1.lookup k) ∧
      ∀ e ∈ entries, f (state.1.lookup e.1) e.2 = .ok (state'.1.lookup e.1) := by
  intro entries
  induction entries with
  | nil =>
    intro _ state _
    exact ⟨state, rfl, fun _ _ => rfl, fun _ h => absurd h (by simp)⟩
  | cons e entries ih =>
    intro hnodup state hok
    obtain ⟨hnew, htail⟩ := nodupKeys_cons.mp hnodup
    obtain ⟨p, hp⟩ := hok e (by simp)
    -- the other keys are untouched by this turn, so they can still be merged
    have hsame : ∀ x ∈ entries, (state.1.set e.1 p).lookup x.1 = state.1.lookup x.1 := by
      intro x hx
      refine lookup_set_ne ?_ _ _
      intro heq
      exact hnew (heq ▸ mem_keys_of_mem hx)
    obtain ⟨state', hrun, hframe, hvalue⟩ := ih htail
      (state.1.set e.1 p, g (state.1.lookup e.1) p state.2) (by
        intro x hx
        rw [hsame x hx]
        exact hok x (mem_cons_of_mem _ hx))
    refine ⟨state', ?_, ?_, ?_⟩
    · rw [foldlM_cons, alterM, hp]
      exact hrun
    · intro k hk
      rw [keys_cons, mem_cons, not_or] at hk
      rw [hframe k hk.2, lookup_set_ne hk.1]
    · intro x hx
      rcases mem_cons.mp hx with rfl | hx
      · rw [hp, hframe x.1 hnew, lookup_set_self]
      · rw [← hsame x hx]
        exact hvalue x hx

/-- A merge whose turns all succeed succeeds, and its result at a key is the
old value if the child has no entry there, and one application of the merge
function if it has. -/
theorem mergeM_ok {f : Option P → V → Except ε (Option P)}
    (g : Option P → Option P → U → U) {child : KeyedMap K V} {state : KeyedMap K P × U}
    (hok : ∀ k v, child.lookup k = some v → ∃ p, f (state.1.lookup k) v = .ok p) :
    ∃ state', mergeM f g child state = .ok state' ∧
      ∀ k, (child.lookup k = none → state'.1.lookup k = state.1.lookup k) ∧
        ∀ v, child.lookup k = some v → f (state.1.lookup k) v = .ok (state'.1.lookup k) := by
  obtain ⟨state', hrun, hframe, hvalue⟩ := foldlM_alterM_aux f g child.entries
    child.nodupKeys state (by
      intro e he
      exact hok e.1 e.2 (mem_dlookup child.nodupKeys he))
  refine ⟨state', hrun, fun k => ⟨fun hnone => ?_, fun v hv => ?_⟩⟩
  · exact hframe k (dlookup_eq_none.mp hnone)
  · exact hvalue ⟨k, v⟩ (of_mem_dlookup hv)

end KeyedMap

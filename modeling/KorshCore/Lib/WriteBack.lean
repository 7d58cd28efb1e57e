import KorshCore.Lib.KeyedMap

/-!
# Stacks of write-back caches

A stack of maps over a base function. A read takes the entry of the topmost map
that has one and falls through to the base; on the way back it may fill the
maps it passed. A map is written back by merging its entries into the map
below, or into the base.

The laws of the entries are fields of `Rules`, so a set of rules that loses an
update cannot be built.
-/

namespace WriteBack

open KeyedMap Function

structure Rules (K E V ε : Type) where
  /-- The value that an entry stands for. -/
  value : E → V
  /-- The entry may stand over this value of the layers below. -/
  Sound : K → E → V → Prop
  /-- The values that can occur at a key. -/
  Storable : K → V → Prop
  /-- The entry that a read leaves for a value from below. -/
  fill : V → Option E
  /-- One turn of a write-back. -/
  merge : Option E → E → Except ε (Option E)
  /-- What may stay of an entry that was written back. -/
  keep : E → Option E
  storable_value : ∀ {k e v}, Sound k e v → Storable k (value e)
  fill_sound : ∀ {k v e}, Storable k v → fill v = some e → value e = v ∧ Sound k e v
  merge_sound : ∀ {k ours e v}, (∀ us, ours = some us → Sound k us v) →
    Sound k e (ours.elim v value) →
    ∃ r, merge ours e = .ok r ∧ (∀ x, r = some x → Sound k x v) ∧ r.elim v value = value e
  keep_sound : ∀ {k e v x}, Sound k e v → keep e = some x → value x = value e ∧ Sound k x (value e)

namespace Rules

variable {K E V U ε : Type} [DecidableEq K] (R : Rules K E V ε)
variable {base base' : K → V} {m m' p : KeyedMap K E} {ms ms' : List (KeyedMap K E)}

/-! ## What a stack stands for -/

def content (base : K → V) : List (KeyedMap K E) → K → V
  | [], k => base k
  | m :: ms, k => (m.lookup k).elim (content base ms k) R.value

@[simp] theorem content_nil : R.content base [] = base := rfl

theorem content_of_lookup {k : K} {e : E} (h : m.lookup k = some e) :
    R.content base (m :: ms) k = R.value e := by
  simp [content, h]

theorem content_of_not_lookup {k : K} (h : m.lookup k = none) :
    R.content base (m :: ms) k = R.content base ms k := by
  simp [content, h]

@[simp] theorem content_empty : R.content base ((∅ : KeyedMap K E) :: ms) = R.content base ms := by
  funext k
  exact R.content_of_not_lookup (AList.lookup_empty k)

/-- Every entry is sound over the layers below it, and the base is
storable. -/
def Coherent (base : K → V) : List (KeyedMap K E) → Prop
  | [] => ∀ k, R.Storable k (base k)
  | m :: ms => (∀ k e, m.lookup k = some e → R.Sound k e (R.content base ms k)) ∧ Coherent base ms

variable {R}

theorem Coherent.sound (h : R.Coherent base (m :: ms)) {k : K} {e : E}
    (he : m.lookup k = some e) : R.Sound k e (R.content base ms k) :=
  h.1 k e he

theorem Coherent.tail (h : R.Coherent base (m :: ms)) : R.Coherent base ms :=
  h.2

theorem Coherent.storable : ∀ {ms : List (KeyedMap K E)},
    R.Coherent base ms → ∀ k, R.Storable k (R.content base ms k)
  | [], h, k => h k
  | m :: ms, h, k => by
    cases hk : m.lookup k with
    | none =>
      rw [R.content_of_not_lookup hk]
      exact h.tail.storable k
    | some e =>
      rw [R.content_of_lookup hk]
      exact R.storable_value (h.sound hk)

theorem Coherent.push (h : R.Coherent base ms) : R.Coherent base ((∅ : KeyedMap K E) :: ms) := by
  refine ⟨fun k e he => ?_, h⟩
  cases he

theorem Coherent.replace_below (h : R.Coherent base (m :: ms))
    (h' : R.Coherent base' ms') (hcontent : R.content base' ms' = R.content base ms) :
    R.Coherent base' (m :: ms') ∧ R.content base' (m :: ms') = R.content base (m :: ms) := by
  refine ⟨⟨fun k e he => ?_, h'⟩, ?_⟩
  · rw [hcontent]
    exact h.sound he
  · funext k
    simp only [content, hcontent]

theorem content_set (R : Rules K E V ε) (m : KeyedMap K E) (k : K)
    (entry : Option E) : R.content base (m.set k entry :: ms) = update (R.content base (m :: ms)) k
        (entry.elim (R.content base ms k) R.value) := by
  funext k'
  by_cases hk : k' = k
  · subst hk
    rw [update_self, content, lookup_set_self]
  · rw [update_of_ne hk, content, lookup_set_ne hk, content]

theorem Coherent.set (h : R.Coherent base (m :: ms)) {k : K} {entry : Option E}
    (hentry : ∀ e, entry = some e → R.Sound k e (R.content base ms k)) :
    R.Coherent base (m.set k entry :: ms) := by
  refine ⟨fun k' e he => ?_, h.tail⟩
  by_cases hk : k' = k
  · subst hk
    rw [lookup_set_self] at he
    exact hentry e he
  · rw [lookup_set_ne hk] at he
    exact h.sound he

/-- A read of `k` through the stack, with the maps it fills. -/
def fetch (R : Rules K E V ε) (base : K → V) (k : K) : List (KeyedMap K E) → V × List (KeyedMap K E)
  | [] => (base k, [])
  | m :: ms =>
    match m.lookup k with
    | some e => (R.value e, m :: ms)
    | none =>
      match R.fill (fetch R base k ms).1 with
      | none => ((fetch R base k ms).1, m :: (fetch R base k ms).2)
      | some e => (R.value e, m.insert k e :: (fetch R base k ms).2)

theorem fetch_spec (k : K) : ∀ {ms : List (KeyedMap K E)}, R.Coherent base ms →
    (R.fetch base k ms).1 = R.content base ms k ∧ R.Coherent base (R.fetch base k ms).2 ∧
      R.content base (R.fetch base k ms).2 = R.content base ms
  | [], h => ⟨rfl, h, rfl⟩
  | m :: ms, h => by
    obtain ⟨hvalue, hcoherent, hsame⟩ := fetch_spec k h.tail
    obtain ⟨hcoherent', hsame'⟩ := h.replace_below hcoherent hsame
    unfold fetch
    cases hk : m.lookup k with
    | some e => exact ⟨(R.content_of_lookup hk).symm, h, rfl⟩
    | none =>
      have hthrough : R.content base (m :: ms) k = R.content base ms k := R.content_of_not_lookup hk
      cases hfill : R.fill (R.fetch base k ms).1 with
      | none => exact ⟨hvalue.trans hthrough.symm, hcoherent', hsame'⟩
      | some e =>
        have hstorable : R.Storable k (R.fetch base k ms).1 := by
          rw [hvalue]
          exact h.tail.storable k
        obtain ⟨hfilled, hsound⟩ := R.fill_sound hstorable hfill
        have hbelow : (R.fetch base k ms).1 = R.content base (R.fetch base k ms).2 k := by
          rw [hvalue, hsame]
        refine ⟨hfilled.trans (hvalue.trans hthrough.symm), ?_, ?_⟩
        · show R.Coherent base (m.set k (some e) :: _)
          refine hcoherent'.set ?_
          rintro e' ⟨⟩
          exact hbelow ▸ hsound
        · -- the filled entry stands for the value that was below it
          refine (R.content_set m k (some e)).trans ?_
          rw [hsame', Option.elim_some, hfilled, hvalue, ← hthrough]
          exact update_eq_self k _

/-! ## Write-back -/

theorem merge_spec (h : R.Coherent base (m :: p :: ms)) (g : Option E → Option E → U → U) (u : U) :
    ∃ q u', m.mergeM R.merge g (p, u) = .ok (q, u') ∧ R.Coherent base (q :: ms) ∧
      R.content base (q :: ms) = R.content base (m :: p :: ms) := by
  have hturn : ∀ k e, m.lookup k = some e → ∃ r, R.merge (p.lookup k) e = .ok r ∧
        (∀ x, r = some x → R.Sound k x (R.content base ms k)) ∧
        r.elim (R.content base ms k) R.value = R.value e :=
    fun k e he => R.merge_sound (fun us hus => h.tail.sound hus) (h.sound he)
  have hok : ∀ k e, m.lookup k = some e → ∃ r, R.merge ((p, u).1.lookup k) e = .ok r :=
    fun k e he => (hturn k e he).imp fun _ hr => hr.1
  obtain ⟨⟨q, u'⟩, hrun, hq⟩ := mergeM_ok g hok
  refine ⟨q, u', hrun, ⟨fun k x hx => ?_, h.tail.tail⟩, ?_⟩
  · cases hk : m.lookup k with
    | none => exact h.tail.sound ((hq k).1 hk ▸ hx)
    | some e =>
      obtain ⟨r, hr, hsound, -⟩ := hturn k e hk
      cases hr.symm.trans ((hq k).2 e hk)
      exact hsound x hx
  · funext k
    cases hk : m.lookup k with
    | none => rw [R.content_of_not_lookup hk, content, (hq k).1 hk, content]
    | some e =>
      obtain ⟨r, hr, -, hvalue⟩ := hturn k e hk
      cases hr.symm.trans ((hq k).2 e hk)
      rw [R.content_of_lookup hk]
      exact hvalue

theorem settle (h : R.Coherent base (m :: ms)) (h' : R.Coherent base' ms')
    (hcontent : R.content base' ms' = R.content base (m :: ms))
    (hrest : ∀ k, m'.lookup k = none ∨ m'.lookup k = (m.lookup k).bind R.keep) :
    R.Coherent base' (m' :: ms') ∧ R.content base' (m' :: ms') = R.content base (m :: ms) := by
  have hkept : ∀ k x, m'.lookup k = some x →
      R.value x = R.content base' ms' k ∧ R.Sound k x (R.content base' ms' k) := by
    intro k x hx
    obtain ⟨e, he, hkeep⟩ : ∃ e, m.lookup k = some e ∧ R.keep e = some x := by
      rcases hrest k with hnone | hsome
      · rw [hnone] at hx
        cases hx
      · exact Option.bind_eq_some_iff.mp (hsome.symm.trans hx)
    rw [hcontent, R.content_of_lookup he]
    exact R.keep_sound (h.sound he) hkeep
  refine ⟨⟨fun k x hx => (hkept k x hx).2, h'⟩, ?_⟩
  funext k
  rw [← hcontent]
  cases hk : m'.lookup k with
  | none => exact R.content_of_not_lookup hk
  | some x => exact (R.content_of_lookup hk).trans (hkept k x hk).1

theorem Coherent.writeBack {q : KeyedMap K E}
    (h : R.Coherent base (m :: p :: ms)) (hmerged : m.Merged R.merge p q)
    (hrest : ∀ k, m'.lookup k = none ∨ m'.lookup k = (m.lookup k).bind R.keep) :
    R.Coherent base (m' :: q :: ms) ∧
      R.content base (m' :: q :: ms) = R.content base (m :: p :: ms) := by
  obtain ⟨U, g, u, u', hrun⟩ := hmerged
  obtain ⟨q', _, hrun', hcoherent, hcontent⟩ := merge_spec h g u
  cases hrun.symm.trans hrun'
  exact settle h hcoherent hcontent hrest

theorem Coherent.writeBase (h : R.Coherent base [m]) (hbase : base' = R.content base [m])
    (hrest : ∀ k, m'.lookup k = none ∨ m'.lookup k = (m.lookup k).bind R.keep) :
    R.Coherent base' [m'] ∧ R.content base' [m'] = R.content base [m] := by
  have hstorable : R.Coherent base' [] := fun k => hbase ▸ h.storable k
  exact settle h hstorable hbase hrest

end Rules

end WriteBack

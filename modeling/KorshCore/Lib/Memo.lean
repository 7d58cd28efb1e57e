import KorshCore.Lib.Except

/-!
# Values computed along a chain, with a memory

A value belongs to every suffix of a list, and is built from the value of its
tail. A memory answers for some suffixes (`lookup`) and is told each value that
was built (`store`).
-/

namespace Memo

variable {B V S ε : Type}

/-- The value of a list with the help of a memory. -/
def eval (lookup : S → List B → Option (V × S)) (store : S → List B → V → S)
    (init : V) (build : List B → V → Except ε V) : List B → S → Except ε (V × S)
  | [], s => .ok (init, s)
  | b :: rest, s =>
    match lookup s (b :: rest) with
    | some (v, s) => .ok (v, s)
    | none => do
      let (v, s) ← eval lookup store init build rest s
      let v ← build (b :: rest) v
      .ok (v, store s (b :: rest) v)

/-- The memories `Good` only know values of `spec`, and stay so. `Known` are
the lists that are asked for. -/
structure Sound (lookup : S → List B → Option (V × S))
    (store : S → List B → V → S) (init : V) (build : List B → V → Except ε V)
    (spec : List B → Except ε V) (Known : List B → Prop) (Good : S → Prop) : Prop where
  tail : ∀ {b rest}, Known (b :: rest) → Known rest
  nil : spec [] = .ok init
  build : ∀ {s b rest v w}, lookup s (b :: rest) = none → spec rest = .ok v →
    build (b :: rest) v = .ok w → spec (b :: rest) = .ok w
  lookup : ∀ {s b rest v s'}, Good s → Known (b :: rest) →
    lookup s (b :: rest) = some (v, s') → spec (b :: rest) = .ok v ∧ Good s'
  store : ∀ {s b rest v}, Good s → Known (b :: rest) → spec (b :: rest) = .ok v →
    Good (store s (b :: rest) v)

namespace Sound

variable {lookup : S → List B → Option (V × S)} {store : S → List B → V → S}
  {init : V} {build : List B → V → Except ε V} {spec : List B → Except ε V}
  {Known : List B → Prop} {Good : S → Prop}

theorem of_eval (h : Sound lookup store init build spec Known Good) :
    ∀ {list : List B} {s : S} {v : V} {s' : S}, Known list → Good s →
    eval lookup store init build list s = .ok (v, s') → spec list = .ok v ∧ Good s' := by
  intro list
  induction list with
  | nil =>
    intro s v s' _ hgood heval
    cases heval
    exact ⟨h.nil, hgood⟩
  | cons b rest ih =>
    intro s v s' hknown hgood heval
    cases hlookup : lookup s (b :: rest) with
    | some answer =>
      simp only [eval, hlookup] at heval
      cases heval
      exact h.lookup hgood hknown hlookup
    | none =>
      simp only [eval, hlookup] at heval
      obtain ⟨⟨w, s₁⟩, hrest, v', hbuild, heval⟩ := Except.bind₂_eq_ok_iff.mp heval
      cases heval
      obtain ⟨hw, hgood₁⟩ := ih (h.tail hknown) hgood hrest
      have hv := h.build hlookup hw hbuild
      exact ⟨hv, h.store hgood₁ hknown hv⟩

theorem exists_eval (h : Sound lookup store init build spec Known Good)
    (hbuild : ∀ {s b rest w}, lookup s (b :: rest) = none →
      spec (b :: rest) = .ok w → ∃ v, spec rest = .ok v ∧ build (b :: rest) v = .ok w) :
    ∀ {list : List B} {s : S} {v : V}, Known list → Good s → spec list = .ok v →
    ∃ s', eval lookup store init build list s = .ok (v, s') := by
  intro list
  induction list with
  | nil =>
    intro s v _ _ hv
    rw [h.nil] at hv
    cases hv
    exact ⟨s, rfl⟩
  | cons b rest ih =>
    intro s v hknown hgood hv
    cases hlookup : lookup s (b :: rest) with
    | some answer =>
      obtain ⟨w, s'⟩ := answer
      rw [(h.lookup hgood hknown hlookup).1] at hv
      cases hv
      exact ⟨s', by rw [eval, hlookup]⟩
    | none =>
      obtain ⟨w, hw, hb⟩ := hbuild hlookup hv
      obtain ⟨s', hrest⟩ := ih (h.tail hknown) hgood hw
      refine ⟨store s' (b :: rest) v, ?_⟩
      simp only [eval, hlookup, hrest]
      change (build (b :: rest) w >>= _) = _
      rw [hb]
      rfl

end Sound

end Memo

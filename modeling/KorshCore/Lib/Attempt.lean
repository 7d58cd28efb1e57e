import KorshCore.Lib.Except

/-!
# Computations that keep their state when they fail

An `Attempt` changes a state and gives a result or an error. Unlike a
computation in `Except`, a failed one still has a state: what it did before it
failed.
-/

/-- A state change with a result or an error. -/
def Attempt (σ ε α : Type) : Type := σ → Except ε α × σ

namespace Attempt

variable {σ ε α β : Type}

instance : Monad (Attempt σ ε) where
  pure a := fun s => (.ok a, s)
  bind x f := fun s =>
    match x s with
    | (.ok a, s') => f a s'
    | (.error e, s') => (.error e, s')

def step (f : σ → α × σ) : Attempt σ ε α := fun s => (.ok (f s).1, (f s).2)

def modify (f : σ → σ) : Attempt σ ε Unit := fun s => (.ok (), f s)

def lift (x : Except ε α) : Attempt σ ε α := fun s => (x, s)

def require (e : ε) (b : Bool) : Attempt σ ε Unit := lift (Except.require e b)

def forEach (f : β → Attempt σ ε Unit) : List β → Attempt σ ε Unit
  | [] => pure ()
  | b :: l => do
    f b
    forEach f l

/-! ## Successful runs -/

variable {f : α → Attempt σ ε β} {s s' : σ} {x : Attempt σ ε α}

theorem bind_eq_ok_iff {b : β} : (x >>= f) s = (.ok b, s') ↔
      ∃ a s₁, x s = (.ok a, s₁) ∧ f a s₁ = (.ok b, s') := by
  show (match x s with
    | (.ok a, s₁) => f a s₁
    | (.error e, s₁) => (.error e, s₁)) = (.ok b, s') ↔ _
  rcases x s with ⟨_ | a, s₁⟩
  · simp
  · constructor
    · exact fun h => ⟨a, s₁, rfl, h⟩
    · rintro ⟨a', s₁', heq, h⟩
      cases heq
      exact h

theorem lift_eq_ok_iff {x : Except ε α} {a : α} : lift x s = (.ok a, s') ↔ x = .ok a ∧ s = s' := by
  unfold lift
  rw [Prod.mk.injEq]

theorem require_eq_ok_iff {e : ε} {b : Bool} :
    require e b s = (.ok (), s') ↔ b = true ∧ s = s' := by
  unfold require
  rw [lift_eq_ok_iff, Except.require_eq_ok_iff]

theorem lift_bind_eq_ok_iff {x : Except ε α} {b : β} :
    (lift x >>= f) s = (.ok b, s') ↔ ∃ a, x = .ok a ∧ f a s = (.ok b, s') := by
  rw [bind_eq_ok_iff]
  constructor
  · rintro ⟨a, s₁, hx, hf⟩
    obtain ⟨rfl, rfl⟩ := lift_eq_ok_iff.mp hx
    exact ⟨a, rfl, hf⟩
  · rintro ⟨a, rfl, hf⟩
    exact ⟨a, s, rfl, hf⟩

theorem require_bind_eq_ok_iff {e : ε} {c : Bool} {f : Unit → Attempt σ ε β} {b : β} :
    (require e c >>= f) s = (.ok b, s') ↔ c = true ∧ f () s = (.ok b, s') := by
  unfold require
  rw [lift_bind_eq_ok_iff]
  constructor
  · rintro ⟨⟨⟩, hx, hf⟩
    exact ⟨Except.require_eq_ok_iff.mp hx, hf⟩
  · rintro ⟨hc, hf⟩
    exact ⟨(), Except.require_eq_ok_iff.mpr hc, hf⟩

theorem lift_bind_fst (x : Except ε α) (f : α → Attempt σ ε β) (s : σ) :
    ((lift x >>= f) s).1 = x >>= fun a => (f a s).1 := by
  cases x with
  | error e => rfl
  | ok a => rfl

/-! ## Kept properties -/

/-- The attempt keeps the property, whether it succeeds or fails. -/
def Keeps (P : σ → Prop) (x : Attempt σ ε α) : Prop := ∀ s, P s → P (x s).2

variable {P : σ → Prop}

theorem Keeps.of_eq {r : Except ε α} (hx : Keeps P x) (h : x s = (r, s')) (hs : P s) : P s' := by
  have hkept := hx s hs
  rw [h] at hkept
  exact hkept

theorem Keeps.bind (hx : Keeps P x) (hf : ∀ a, Keeps P (f a)) : Keeps P (x >>= f) := by
  intro s hs
  have hkept := hx s hs
  show P (match x s with
    | (.ok a, s₁) => f a s₁
    | (.error e, s₁) => (.error e, s₁)).2
  revert hkept
  rcases x s with ⟨_ | a, s₁⟩
  · exact fun hkept => hkept
  · exact fun hkept => hf a s₁ hkept

theorem keeps_lift (x : Except ε α) : Keeps P (lift x) := fun _ hs => hs

theorem keeps_pure (a : α) : Keeps P (pure a : Attempt σ ε α) :=
  fun _ hs => hs

theorem Keeps.forEach {f : β → Attempt σ ε Unit} (h : ∀ b, Keeps P (f b)) :
    ∀ l, Keeps P (forEach f l)
  | [] => keeps_pure ()
  | b :: l => (h b).bind fun _ => Keeps.forEach h l

end Attempt

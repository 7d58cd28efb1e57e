import Mathlib.Logic.Basic

/-!
# Computations that can fail

The bind of `Except`, taken apart: a bind that succeeds has two parts that
succeed. Checks that fail with a reason, and the invariant rule for loops that
may fail (`foldlM_invariant`).
-/

namespace Except

open List

variable {ε α β : Type}

@[simp] theorem ok_bind (a : α) (f : α → Except ε β) : (Except.ok a >>= f) = f a := rfl

@[simp] theorem error_bind (e : ε) (f : α → Except ε β) : (Except.error e >>= f) = .error e := rfl

variable {x : Except ε α}

theorem bind_eq_ok_iff {f : α → Except ε β} {b : β} :
    x >>= f = .ok b ↔ ∃ a, x = .ok a ∧ f a = .ok b := by
  cases x with
  | error e => simp
  | ok a => simp

theorem bind₂_eq_ok_iff {γ : Type} {y : α → Except ε β} {f : α → β → Except ε γ} {c : γ} :
    (x >>= fun a => y a >>= f a) = .ok c ↔ ∃ a, x = .ok a ∧ ∃ b, y a = .ok b ∧ f a b = .ok c := by
  simp only [bind_eq_ok_iff]

theorem bind₃_eq_ok_iff {γ δ : Type} {y : α → Except ε β} {z : α → β → Except ε γ}
    {f : α → β → γ → Except ε δ} {d : δ} :
    (x >>= fun a => y a >>= fun b => z a b >>= f a b) = .ok d ↔
      ∃ a, x = .ok a ∧ ∃ b, y a = .ok b ∧ ∃ c, z a b = .ok c ∧ f a b c = .ok d := by
  simp only [bind_eq_ok_iff]

variable {e : ε}

theorem bind_eq_error_iff {f : α → Except ε β} :
    x >>= f = .error e ↔ x = .error e ∨ ∃ a, x = .ok a ∧ f a = .error e := by
  cases x with
  | error e' => simp
  | ok a => simp

theorem exists_of_isOk (h : x.isOk = true) : ∃ a, x = .ok a := by
  cases x with
  | error e => cases h
  | ok a => exact ⟨a, rfl⟩

/-- Fail with `e` where there is no value. -/
def ofOption (e : ε) : Option α → Except ε α
  | none => .error e
  | some a => .ok a

theorem ofOption_eq_ok_iff {x : Option α} {a : α} : ofOption e x = .ok a ↔ x = some a := by
  cases x <;> simp [ofOption]

theorem ofOption_eq_error_iff {x : Option α} {e' : ε} :
    ofOption e x = .error e' ↔ e = e' ∧ x = none := by
  cases x <;> simp [ofOption]

def require (e : ε) (condition : Bool) : Except ε Unit :=
  if condition then .ok () else .error e

theorem exists_of_ofOption_bind {x : Option α} {f : α → β} {b : β}
    (h : (ofOption e x >>= fun a => .ok (f a)) = .ok b) : ∃ a, x = some a ∧ b = f a := by
  obtain ⟨a, ha, h⟩ := bind_eq_ok_iff.mp h
  exact ⟨a, ofOption_eq_ok_iff.mp ha, (Except.ok.inj h).symm⟩

variable {condition : Bool}

theorem require_eq_ok_iff {u : Unit} : require e condition = .ok u ↔ condition = true := by
  cases condition <;> simp [require]

theorem require_eq_error_iff {e' : ε} :
    require e condition = .error e' ↔ condition = false ∧ e = e' := by
  cases condition <;> simp [require]

def checkIf (condition : Bool) (check : Except ε Unit) : Except ε Unit :=
  if condition then check else .ok ()

theorem forM_eq_ok {check : α → Except ε Unit} : ∀ {xs : List α} {u : Unit},
    xs.forM check = .ok u → ∀ x ∈ xs, check x = .ok ()
  | x :: xs, _, h, y, hy => by
    have hboth : (check x >>= fun _ => xs.forM check) = .ok _ := h
    obtain ⟨_, hhead, hrest⟩ := bind_eq_ok_iff.mp hboth
    rcases mem_cons.mp hy with rfl | hy
    · exact hhead
    · exact forM_eq_ok hrest y hy

theorem mapError_eq_ok_iff {ε' : Type} {f : ε → ε'} {a : α} : x.mapError f = .ok a ↔ x = .ok a := by
  cases x with
  | error e => exact ⟨fun h => (by cases h), fun h => (by cases h)⟩
  | ok b => exact ⟨fun h => congrArg _ (Except.ok.inj h), fun h => congrArg _ (Except.ok.inj h)⟩

variable {f : β → α → Except ε β}

/-- What each turn of a loop keeps, the loop keeps. The invariant may speak
about the turns that were made. -/
theorem foldlM_invariant {P : List α → β → Prop} {xs : List α}
    (hstep : ∀ done x rest b b', xs = done ++ x :: rest → P done b →
      f b x = .ok b' → P (done ++ [x]) b')
    {b b' : β} (hb : P [] b) (h : xs.foldlM f b = .ok b') : P xs b' := by
  -- by induction on the turns still to come
  have hrest : ∀ rest done b, xs = done ++ rest → P done b →
      rest.foldlM f b = .ok b' → P xs b' := by
    intro rest
    induction rest with
    | nil =>
      intro done b hxs hb h
      rw [hxs, append_nil, ← Except.ok.inj h]
      exact hb
    | cons x rest ih =>
      intro done b hxs hb h
      obtain ⟨b₁, h₁, hrest⟩ := bind_eq_ok_iff.mp h
      exact ih (done ++ [x]) b₁ (by rw [hxs, append_assoc]; rfl)
        (hstep done x rest b b₁ hxs hb h₁) hrest
  exact hrest xs [] b rfl hb h

theorem foldlM_preserves {P : β → Prop} {xs : List α}
    (hstep : ∀ x b b', x ∈ xs → P b → f b x = .ok b' → P b') {b b' : β}
    (hb : P b) (h : xs.foldlM f b = .ok b') : P b' :=
  foldlM_invariant (P := fun _ => P) (fun _ x _ b b' hxs => hstep x b b' (by simp [hxs])) hb h

theorem foldlM_ne_error (hstep : ∀ b x, f b x ≠ .error e) : ∀ {xs : List α} {b : β},
    xs.foldlM f b ≠ .error e
  | [], _, h => nomatch h
  | _ :: _, _, h => by
    rcases bind_eq_error_iff.mp h with hfirst | ⟨_, -, hrest⟩
    · exact hstep _ _ hfirst
    · exact foldlM_ne_error hstep hrest

/-! ## What holds of a result -/

/-- The result has `Q`, if there is one. -/
def Ensures (x : Except ε α) (Q : α → Prop) : Prop := ∀ ⦃a⦄, x = .ok a → Q a

namespace Ensures

variable {Q : α → Prop}

theorem ok {a : α} (h : Q a) : Ensures (.ok a : Except ε α) Q := fun _ ha => Except.ok.inj ha ▸ h

theorem bind {f : α → Except ε β} {Q : β → Prop}
    (h : ∀ a, x = .ok a → Ensures (f a) Q) : Ensures (x >>= f) Q := by
  intro b hb
  obtain ⟨a, ha, hb⟩ := bind_eq_ok_iff.mp hb
  exact h a ha hb

theorem foldlM {P : β → Prop} {xs : List α} {b : β}
    (h : ∀ x b, x ∈ xs → P b → Ensures (f b x) P) (hb : P b) : Ensures (xs.foldlM f b) P :=
  fun _ => foldlM_preserves (fun x b _ hx hb' => (h x b hx hb' ·)) hb

theorem foldlM_each {P : β → Prop} {R : α → β → Prop} {xs : List α} {b : β} (hb : P b)
    (h : ∀ x b, P b → Ensures (f b x) fun b' => P b' ∧ R x b' ∧ ∀ y, R y b → R y b') :
    Ensures (xs.foldlM f b) fun b' => P b' ∧ ∀ x ∈ xs, R x b' := by
  refine fun _ => foldlM_invariant (P := fun done b => P b ∧ ∀ x ∈ done, R x b)
    (fun done x _ b b' _ hdone hstep => ?_) ⟨hb, nofun⟩
  obtain ⟨hP, hx, hkept⟩ := h x b hdone.1 hstep
  refine ⟨hP, fun y hy => ?_⟩
  rcases mem_append.mp hy with hy | hy
  · exact hkept y (hdone.2 y hy)
  · exact mem_singleton.mp hy ▸ hx

end Ensures

end Except

import KorshCore.Lib.Except

/-!
# Machines that answer calls, and simulation

A machine takes calls one after the other. Each call gives an answer and a new
state, or stops the machine with an error. A flat machine is one that never
stops. `Simulates` and `Agree` relate two machines.
-/

namespace Machine

variable {O A S F ε : Type}

def run (step : O → S → Except ε (A × S)) : List O → S → Except ε (List A × S)
  | [], s => .ok ([], s)
  | op :: ops, s => do
    let (a, s) ← step op s
    let (as, s) ← run step ops s
    .ok (a :: as, s)

def flatRun (flat : O → F → A × F) : List O → F → List A × F
  | [], f => ([], f)
  | op :: ops, f =>
    ((flat op f).1 :: (flatRun flat ops (flat op f).2).1, (flatRun flat ops (flat op f).2).2)

def Along (step : O → S → Except ε (A × S)) (flat : O → F → A × F)
    (P : O → S → F → Prop) : List O → S → F → Prop
  | [], _, _ => True
  | op :: ops, s, f => P op s f ∧
    ∀ a s', step op s = .ok (a, s') → Along step flat P ops s' (flat op f).2

def FlatAlong (flat : O → F → A × F) (P : O → F → Prop) : List O → F → Prop
  | [], _ => True
  | op :: ops, f => P op f ∧ FlatAlong flat P ops (flat op f).2

variable {flat : O → F → A × F}

theorem FlatAlong.along {P : O → F → Prop} : ∀ {ops : List O} {f : F}, FlatAlong flat P ops f →
    ∀ (step : O → S → Except ε (A × S)) (s : S), Along step flat (fun op _ f => P op f) ops s f
  | [], _, _, _, _ => trivial
  | _ :: _, _, h, step, _ => ⟨h.1, fun _ s' _ => FlatAlong.along h.2 step s'⟩

theorem FlatAlong.and_forall {P : O → F → Prop} {Q : O → Prop} :
    ∀ {ops : List O} {f : F}, (∀ op ∈ ops, Q op) →
    FlatAlong flat P ops f → FlatAlong flat (fun op f => Q op ∧ P op f) ops f
  | [], _, _, _ => trivial
  | op :: _, _, hall, h => ⟨⟨hall op (by simp), h.1⟩,
    FlatAlong.and_forall (fun op hmem => hall op (List.mem_cons_of_mem _ hmem)) h.2⟩

theorem flatAlong_of_forall {Q : O → Prop} : ∀ {ops : List O}, (∀ op ∈ ops, Q op) → ∀ f : F,
    FlatAlong flat (fun op _ => Q op) ops f
  | [], _, _ => trivial
  | op :: _, hall, _ => ⟨hall op (by simp),
    flatAlong_of_forall (fun op hmem => hall op (List.mem_cons_of_mem _ hmem)) _⟩

/-- A forward simulation. Answers are compared through `see`, and a call
that stops the machine stops it in one of the ways of `Stops`. -/
structure Simulates (step : O → S → Except ε (A × S)) (flat : O → F → A × F)
    (P : O → S → F → Prop) (see : A → A) (Related : S → F → Prop)
    (Stops : S → F → ε → Prop) : Prop where
  ok : ∀ {op s f a s'}, Related s f → P op s f → step op s = .ok (a, s') →
    see a = (flat op f).1 ∧ Related s' (flat op f).2
  error : ∀ {op s f e}, Related s f → P op s f → step op s = .error e → Stops s f e

namespace Simulates

variable {step : O → S → Except ε (A × S)} {flat : O → F → A × F}
  {P : O → S → F → Prop} {see : A → A} {Related : S → F → Prop} {Stops : S → F → ε → Prop}

theorem run_ok (sim : Simulates step flat P see Related Stops) :
    ∀ {ops : List O} {s : S} {f : F} {as : List A} {s' : S},
    Related s f → Along step flat P ops s f → run step ops s = .ok (as, s') →
    as.map see = (flatRun flat ops f).1 ∧ Related s' (flatRun flat ops f).2 := by
  intro ops
  induction ops with
  | nil =>
    intro s f as s' hrel _ hrun
    cases hrun
    exact ⟨rfl, hrel⟩
  | cons op ops ih =>
    intro s f as s' hrel halong hrun
    obtain ⟨⟨a, s₁⟩, hstep, ⟨as₁, s₂⟩, hrun₁, hlast⟩ := Except.bind₂_eq_ok_iff.mp hrun
    cases hlast
    obtain ⟨hanswer, hrel₁⟩ := sim.ok hrel halong.1 hstep
    obtain ⟨hanswers, hrel₂⟩ := ih hrel₁ (halong.2 a s₁ hstep) hrun₁
    refine ⟨?_, hrel₂⟩
    rw [List.map_cons, hanswer, hanswers]
    rfl

theorem run_error (sim : Simulates step flat P see Related Stops) :
    ∀ {ops : List O} {s : S} {f : F} {e : ε},
    Related s f → Along step flat P ops s f → run step ops s = .error e →
    ∃ before after s', ops = before ++ after ∧ Related s' (flatRun flat before f).2 ∧
      Stops s' (flatRun flat before f).2 e := by
  intro ops
  induction ops with
  | nil =>
    intro s f e _ _ hrun
    cases hrun
  | cons op ops ih =>
    intro s f e hrel halong hrun
    rcases Except.bind_eq_error_iff.mp hrun with hstop | ⟨⟨a, s₁⟩, hstep, hrest⟩
    · exact ⟨[], op :: ops, s, rfl, hrel, sim.error hrel halong.1 hstop⟩
    · rcases Except.bind_eq_error_iff.mp hrest with hstop | ⟨_, _, hlast⟩
      · obtain ⟨before, after, s', hsplit, hrel', hstops⟩ :=
          ih (sim.ok hrel halong.1 hstep).2 (halong.2 a s₁ hstep) hstop
        exact ⟨op :: before, after, s', congrArg (List.cons op) hsplit, hrel', hstops⟩
      · cases hlast

end Simulates

/-- The same error, or the same answer and related states. -/
def Agree {S S' : Type} (R : S → S' → Prop) : Except ε (A × S) → Except ε (A × S') → Prop
  | .ok (a, s), .ok (a', s') => a = a' ∧ R s s'
  | .error e, .error e' => e = e'
  | _, _ => False

theorem Agree.imp {S S' : Type} {R Q : S → S' → Prop} (himp : ∀ {s s'}, R s s' → Q s s')
    {x : Except ε (A × S)} {y : Except ε (A × S')} (h : Agree R x y) : Agree Q x y := by
  cases x with
  | error e =>
    cases y with
    | error e' => exact h
    | ok r => exact h
  | ok r =>
    cases y with
    | error e' => exact h
    | ok r' => exact ⟨h.1, himp h.2⟩

theorem agree_run {S S' : Type} {step : O → S → Except ε (A × S)}
    {step' : O → S' → Except ε (A × S')} {R : S → S' → Prop}
    (hstep : ∀ {op s s'}, R s s' → Agree R (step op s) (step' op s')) :
    ∀ (ops : List O) {s : S} {s' : S'}, R s s' → Agree R (run step ops s) (run step' ops s') := by
  intro ops
  induction ops with
  | nil => exact fun h => ⟨rfl, h⟩
  | cons op ops ih =>
    intro s s' h
    have hfirst := @hstep op s s' h
    unfold run
    cases hs : step op s with
    | error e =>
      cases hs' : step' op s' with
      | error e' =>
        rw [hs, hs'] at hfirst
        exact hfirst
      | ok r =>
        rw [hs, hs'] at hfirst
        exact hfirst.elim
    | ok r =>
      cases hs' : step' op s' with
      | error e' =>
        rw [hs, hs'] at hfirst
        exact hfirst.elim
      | ok r' =>
        obtain ⟨a, s₁⟩ := r
        obtain ⟨a', s₁'⟩ := r'
        rw [hs, hs'] at hfirst
        obtain ⟨rfl, h₁⟩ := hfirst
        have hrest := ih h₁
        show Agree R (run step ops s₁ >>= fun x => .ok (a :: x.1, x.2))
          (run step' ops s₁' >>= fun x => .ok (a :: x.1, x.2))
        revert hrest
        cases run step ops s₁ with
        | error e =>
          cases run step' ops s₁' with
          | error e' => exact fun heq => heq
          | ok r' => exact fun hfalse => hfalse
        | ok r =>
          cases run step' ops s₁' with
          | error e' => exact fun hfalse => hfalse
          | ok r' => exact fun ⟨has, hrel⟩ => ⟨congrArg (a :: ·) has, hrel⟩

end Machine

import Mathlib.Data.List.Basic

/-!
# Merkle roots

`ComputeMerkleRoot` of `consensus/merkle.cpp`, over any type of hashes and any
hash of two of them.
-/

namespace KorshCore.Merkle

open List Function

variable {H : Type*} [DecidableEq H] [Zero H] (node : H → H → H)

/-- One level up; a last hash without a neighbour is taken twice. -/
def parents : List H → List H
  | a :: b :: hashes => node a b :: parents hashes
  | [a] => [node a a]
  | [] => []

omit [DecidableEq H] [Zero H] in
theorem length_parents : ∀ hashes, (parents node hashes).length = (hashes.length + 1) / 2
  | a :: b :: hashes => by
    simp only [parents, length_cons, length_parents hashes]
    omega
  | [_] => by simp [parents]
  | [] => by simp [parents]

/-- Whether two neighbours at an even position are equal. -/
def repeats : List H → Bool
  | a :: b :: hashes => a == b || repeats hashes
  | _ => false

/-- The loop of `ComputeMerkleRoot`, with the variable `mutation`. -/
def merkleLoop : List H → Bool → H × Bool
  | [], mutation => (0, mutation)
  | [a], mutation => (a, mutation)
  | a :: b :: hashes, mutation =>
    merkleLoop (parents node (a :: b :: hashes)) (mutation || repeats (a :: b :: hashes))
  termination_by hashes => hashes.length
  decreasing_by rw [length_parents, length_cons, length_cons]; omega

/-- `ComputeMerkleRoot`: the root and `mutated`. -/
def computeMerkleRoot (hashes : List H) : H × Bool :=
  merkleLoop node hashes false

/-! ## How far above the leaves a hash is -/

/-- Following the left side of `a`, the hash of a pair is met `k` times. -/
def HasDepth : Nat → H → Prop
  | 0, a => ∀ b c, a ≠ node b c
  | k + 1, a => ∃ b c, a = node b c ∧ HasDepth k b

section Depth

omit [DecidableEq H] [Zero H]

variable {node} {k m : Nat} {a : H} {hashes : List H}

theorem HasDepth.unique (hinj : Injective2 node) (hk : HasDepth node k a)
    (hm : HasDepth node m a) : k = m := by
  induction k generalizing m a with
  | zero =>
    cases m with
    | zero => rfl
    | succ m =>
      obtain ⟨b, c, heq, _⟩ := hm
      exact absurd heq (hk b c)
  | succ k ih =>
    obtain ⟨b, c, rfl, hb⟩ := hk
    cases m with
    | zero => exact absurd rfl (hm b c)
    | succ m =>
      obtain ⟨b', c', heq, hb'⟩ := hm
      rw [← (hinj heq).1] at hb'
      rw [ih hb hb']

theorem hasDepth_parents : ∀ {hashes : List H}, (∀ a ∈ hashes, HasDepth node k a) →
    ∀ a ∈ parents node hashes, HasDepth node (k + 1) a
  | b :: c :: hashes, h, a, ha => by
    rw [parents, mem_cons] at ha
    cases ha with
    | inl heq => exact ⟨b, c, heq, h b (by simp)⟩
    | inr ha => exact hasDepth_parents (fun x hx => h x (by simp [hx])) a ha
  | [b], h, a, ha => ⟨b, b, mem_singleton.mp ha, h b (by simp)⟩

end Depth

variable {node} {k : Nat} {hashes : List H} {mutation : Bool}

theorem hasDepth_merkleLoop (mutation : Bool) (hne : hashes ≠ [])
    (h : ∀ a ∈ hashes, HasDepth node k a) :
    ∃ m, k ≤ m ∧ HasDepth node m (merkleLoop node hashes mutation).1 := by
  induction hashes, mutation using merkleLoop.induct node generalizing k with
  | case1 => exact absurd rfl hne
  | case2 a mutation =>
    rw [merkleLoop]
    exact ⟨k, Nat.le_refl k, h a (by simp)⟩
  | case3 a b hashes mutation ih =>
    rw [merkleLoop]
    obtain ⟨m, hle, hm⟩ := ih (by simp [parents]) (hasDepth_parents h)
    exact ⟨m, Nat.le_of_succ_le hle, hm⟩

theorem merkleLoop_ne (hinj : Injective2 node) {a b c : H} (ha : HasDepth node k a)
    (h : ∀ x ∈ b :: c :: hashes, HasDepth node k x) :
    (merkleLoop node (b :: c :: hashes) mutation).1 ≠ a := by
  intro heq
  rw [merkleLoop] at heq
  have ⟨m, hle, hm⟩ := hasDepth_merkleLoop
    (mutation || repeats (b :: c :: hashes)) (by simp [parents]) (hasDepth_parents h)
  rw [heq] at hm
  have := ha.unique hinj hm
  omega

/-! ## Levels without a mutation -/

theorem merkleLoop_mutation (h : (merkleLoop node hashes mutation).2 = false) :
    mutation = false := by
  induction hashes, mutation using merkleLoop.induct node with
  | case1 => rwa [merkleLoop] at h
  | case2 => rwa [merkleLoop] at h
  | case3 a b hashes mutation ih =>
    rw [merkleLoop] at h
    exact (Bool.or_eq_false_iff.mp (ih h)).1

omit [Zero H] in
theorem parents_inj (hinj : Injective2 node) :
    ∀ {xs ys : List H}, repeats xs = false → repeats ys = false →
      parents node xs = parents node ys → xs = ys
  | [], [], _, _, _ => rfl
  | [], _ :: ys, _, _, h => by cases ys <;> simp [parents] at h
  | _ :: xs, [], _, _, h => by cases xs <;> simp [parents] at h
  | [a], [b], _, _, h => by rw [(hinj (cons.inj h).1).1]
  | [a], b :: c :: ys, _, hys, h => by
    have hab := hinj (cons.inj h).1
    simp [repeats, ← hab.1, ← hab.2] at hys
  | a :: b :: xs, [c], hxs, _, h => by
    have hab := hinj (cons.inj h).1
    simp [repeats, hab.1, hab.2] at hxs
  | a :: b :: xs, c :: d :: ys, hxs, hys, h => by
    have ⟨hhead, htail⟩ := cons.inj h
    have ⟨hac, hbd⟩ := hinj hhead
    rw [hac, hbd, parents_inj hinj (Bool.or_eq_false_iff.mp hxs).2
      (Bool.or_eq_false_iff.mp hys).2 htail]

theorem merkleLoop_inj (hinj : Injective2 node) {xs ys : List H} {m₁ m₂ : Bool}
    (hxs : xs ≠ []) (hys : ys ≠ []) (hx : ∀ a ∈ xs, HasDepth node k a)
    (hy : ∀ a ∈ ys, HasDepth node k a) (h₁ : (merkleLoop node xs m₁).2 = false)
    (h₂ : (merkleLoop node ys m₂).2 = false)
    (hroot : (merkleLoop node xs m₁).1 = (merkleLoop node ys m₂).1) : xs = ys := by
  -- down from the root: the loop of the first list says how far
  induction xs, m₁ using merkleLoop.induct node generalizing ys m₂ k with
  | case1 => exact absurd rfl hxs
  | case2 a m₁ =>
    rw [merkleLoop] at hroot
    match ys, hys with
    | [b], _ =>
      rw [merkleLoop] at hroot
      exact congrArg (fun x => [x]) hroot
    | b :: c :: ys, _ =>
      exact absurd hroot.symm (merkleLoop_ne hinj (hx a (by simp)) hy)
  | case3 a b xs m₁ ih =>
    match ys, hys with
    | [c], _ =>
      rw [show merkleLoop node [c] m₂ = (c, m₂) by rw [merkleLoop]] at hroot
      exact absurd hroot (merkleLoop_ne hinj (hy c (by simp)) hx)
    | c :: d :: ys, _ =>
      rw [merkleLoop] at h₁ h₂
      rw [merkleLoop, merkleLoop] at hroot
      have hparents := ih (by simp [parents]) (by simp [parents]) (hasDepth_parents hx)
        (hasDepth_parents hy) h₁ h₂ hroot
      exact parents_inj hinj (Bool.or_eq_false_iff.mp (merkleLoop_mutation h₁)).2
        (Bool.or_eq_false_iff.mp (merkleLoop_mutation h₂)).2 hparents

/-- Without a mutation the root determines the leaves, where pairs are hashed
without collisions and no leaf is the hash of a pair. -/
theorem computeMerkleRoot_inj (hinj : Injective2 node) {xs ys : List H}
    (hxs : xs ≠ []) (hys : ys ≠ []) (hleaf : ∀ a ∈ xs ++ ys, ∀ b c, a ≠ node b c)
    (h₁ : (computeMerkleRoot node xs).2 = false) (h₂ : (computeMerkleRoot node ys).2 = false)
    (hroot : (computeMerkleRoot node xs).1 = (computeMerkleRoot node ys).1) : xs = ys :=
  merkleLoop_inj (k := 0) hinj hxs hys (fun a ha => hleaf a (mem_append_left _ ha))
    (fun a ha => hleaf a (mem_append_right _ ha)) h₁ h₂ hroot

/-- Hashes that are what was hashed. -/
inductive Term where
  | leaf (n : Nat)
  | node (a b : Term)
  deriving DecidableEq

instance : Zero Term := ⟨.leaf 0⟩

def threeLeaves : List Term := [.leaf 1, .leaf 2, .leaf 3]

theorem computeMerkleRoot_three :
    (computeMerkleRoot Term.node threeLeaves).1 =
        .node (.node (.leaf 1) (.leaf 2)) (.node (.leaf 3) (.leaf 3)) ∧
      (∀ n k, (computeMerkleRoot Term.node [.leaf n, .leaf k]).2 = false →
        (computeMerkleRoot Term.node threeLeaves).1
          ≠ (computeMerkleRoot Term.node [.leaf n, .leaf k]).1) ∧
      (computeMerkleRoot Term.node (threeLeaves ++ [.leaf 3])).2 = true := by
  refine ⟨?_, fun n k hnk hroot => ?_, ?_⟩
  · simp [threeLeaves, computeMerkleRoot, merkleLoop, parents]
  · have hthree : (computeMerkleRoot Term.node threeLeaves).2 = false := by
      simp [threeLeaves, computeMerkleRoot, merkleLoop, parents, repeats]
    have hsame := computeMerkleRoot_inj (fun _ _ _ _ h => Term.node.inj h) (by simp [threeLeaves])
      (by simp) (by simp [threeLeaves]) hthree hnk hroot
    cases hsame
  · simp [threeLeaves, computeMerkleRoot, merkleLoop, parents, repeats]

end KorshCore.Merkle

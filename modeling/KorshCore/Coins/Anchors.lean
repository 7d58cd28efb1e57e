import KorshCore.Coins.Equivalence

/-!
# Anchors over whole runs

The flat machine for anchors has one map from roots to trees and one variable
for the best root. The best anchor of a stack of caches does not refine it:
`BatchWrite` takes the best anchor of the child over even when the child has
not read it, and the null hash then hides a root that was pushed in the parent.
-/

namespace KorshCore

open WriteBack CCoinsViewCache CCoinsViewDB IncrementalMerkleTree Machine

structure FlatAnchors where
  anchors : Uint256 → Option IncrementalMerkleTree
  best : Uint256

def flatAnchors (env : CoinsEnv) (op : CoinsOp) (flat : FlatAnchors) : CoinsAnswer × FlatAnchors :=
  match op with
  | .pushAnchor tree =>
    (.done, if flat.best = tree.root env.hash then flat
      else ⟨Function.update flat.anchors (tree.root env.hash) (some tree), tree.root env.hash⟩)
  | .popAnchor newrt =>
    (.done, if flat.best = newrt then flat
      else ⟨Function.update flat.anchors flat.best none, newrt⟩)
  | .getSaplingAnchorAt rt => (.tree (flat.anchors rt), flat)
  | .getBestAnchor => (.hash flat.best, flat)
  | _ => (.done, flat)

namespace CoinsStack

def anchorView (env : CoinsEnv) (stack : CoinsStack) : FlatAnchors where
  anchors := (anchorRules env).content (stack.db.getSaplingAnchorAt env)
    (layers stack.caches).anchors
  best := pointer (stack.db.getBestAnchor env) (layers stack.caches).bestAnchors

def AnchorsCoherent (env : CoinsEnv) (stack : CoinsStack) : Prop :=
  (anchorRules env).Coherent (stack.db.getSaplingAnchorAt env) (layers stack.caches).anchors

/-- The condition on a call. A cache that has not read its best anchor is
written back only if its parent holds no best anchor of its own. -/
def KeepsAnchors (env : CoinsEnv) (op : CoinsOp) (stack : CoinsStack) : Prop :=
  match op, stack.caches with
  | .pushAnchor tree, _ => (stack.anchorView env).best ≠ tree.root env.hash →
    tree.root env.hash ≠ 0 ∧
    (tree.root env.hash = saplingEmptyRoot env.hash → tree = empty)
  | .popAnchor newrt, _ => (stack.anchorView env).best ≠ newrt → newrt ≠ 0 ∧
    (stack.anchorView env).best ≠ saplingEmptyRoot env.hash
  | .flush, top :: parent :: base | .sync, top :: parent :: base =>
    top.hashSaplingAnchor ≠ 0 ∨ parent.hashSaplingAnchor = 0 ∨
      parent.hashSaplingAnchor = pointer (stack.db.getBestAnchor env) (layers base).bestAnchors
  | _, _ => True

variable {env : CoinsEnv} {db : CCoinsViewDB} {cache : CCoinsViewCache}
  {base : List CCoinsViewCache} {op : CoinsOp} {answer : CoinsAnswer} {stack : CoinsStack}

/-! ## Calls about anchors -/

theorem flatAnchors_of_kind (hkind : op.kind ≠ .anchors) (flat : FlatAnchors) :
    flatAnchors env op flat = (.done, flat) := by
  cases op <;> first | rfl | exact absurd rfl hkind

theorem pointer_writeBack {hash parent below : Uint256} {hashes : List Uint256}
    (h : hash ≠ 0 ∨ parent = 0 ∨ parent = pointer below hashes) :
    pointer below (hash :: hash :: hashes) = pointer below (hash :: parent :: hashes) := by
  by_cases hnull : hash = 0
  · subst hnull
    rw [pointer_cons_null, pointer_cons_null, pointer_cons_null]
    by_cases hparent : parent = 0
    · rw [hparent, pointer_cons_null]
    · rw [pointer_cons hparent]
      rcases h with h | h | h
      · exact absurd rfl h
      · exact absurd h hparent
      · exact h.symm
  · rw [pointer_cons hnull, pointer_cons hnull]

section WriteBack

variable {overCache overDatabase : CCoinsViewCache → CCoinsViewCache}
  (hcache : ∀ cache, Settled env cache (overCache cache))
  (hdatabase : ∀ cache, Settled env cache (overDatabase cache))
  (h : AnchorsCoherent env ⟨cache :: base, db⟩)
  (hrun : writeBack env overCache overDatabase ⟨cache :: base, db⟩ = .ok stack)

include hcache hdatabase h hrun

/-- A write back keeps the trees, whatever becomes of the best anchor. -/
theorem writeBack_trees : AnchorsCoherent env stack ∧
    (stack.anchorView env).anchors = (anchorView env ⟨cache :: base, db⟩).anchors := by
  rcases writeBack_eq_ok hrun with ⟨rfl, db', hwrite, rfl⟩ |
    ⟨parent, rest, parent', rfl, hwrite, rfl⟩
  · obtain ⟨-, -, hbase, -, -⟩ := database_batchWrite_eq_ok hwrite
    exact Rules.Coherent.writeBase h (hbase h) (hdatabase cache).anchors
  · obtain ⟨-, hmerged, -⟩ := batchWrite_eq_ok hwrite
    exact Rules.Coherent.writeBack h hmerged (hcache cache).anchors

theorem writeBack_anchors (hkeeps : ∀ parent rest, base = parent :: rest →
      cache.hashSaplingAnchor ≠ 0 ∨ parent.hashSaplingAnchor = 0 ∨
      parent.hashSaplingAnchor = pointer (db.getBestAnchor env) (layers rest).bestAnchors) :
    AnchorsCoherent env stack ∧ stack.anchorView env = anchorView env ⟨cache :: base, db⟩ := by
  obtain ⟨hcoherent, hcontent⟩ := writeBack_trees hcache hdatabase h hrun
  refine ⟨hcoherent, congrArg₂ FlatAnchors.mk hcontent ?_⟩
  rcases writeBack_eq_ok hrun with ⟨rfl, db', hwrite, rfl⟩ |
    ⟨parent, rest, parent', rfl, hwrite, rfl⟩
  · obtain ⟨-, -, -, -, hbest, -⟩ := database_batchWrite_eq_ok hwrite
    show pointer (db'.getBestAnchor env) [(overDatabase cache).hashSaplingAnchor]
      = pointer (db.getBestAnchor env) [cache.hashSaplingAnchor]
    rw [(hdatabase cache).hashSaplingAnchor, hbest]
    by_cases hnull : cache.hashSaplingAnchor = 0
    · rw [hnull]
      rfl
    · rw [pointer_cons hnull, pointer_cons hnull]
  · obtain ⟨-, -, -, hbest, -⟩ := batchWrite_eq_ok hwrite
    show pointer (db.getBestAnchor env) ((overCache cache).hashSaplingAnchor ::
        parent'.hashSaplingAnchor :: (layers rest).bestAnchors) = _
    rw [(hcache cache).hashSaplingAnchor, hbest]
    exact pointer_writeBack (hkeeps parent rest rfl)

end WriteBack

section

variable (h : AnchorsCoherent env ⟨cache :: base, db⟩)
include h

theorem pushAnchor_refines {tree : IncrementalMerkleTree}
    (hkeeps : KeepsAnchors env (.pushAnchor tree) ⟨cache :: base, db⟩) :
    let stack : CoinsStack := ⟨pushAnchor env db tree (cache :: base), db⟩
    AnchorsCoherent env stack ∧ stack.anchorView env
      = (flatAnchors env (.pushAnchor tree) (anchorView env ⟨cache :: base, db⟩)).2 := by
  have hlayers := pushAnchor_layers env db cache base tree
  unfold AnchorsCoherent anchorView flatAnchors at *
  dsimp only at h hlayers hkeeps ⊢
  rw [hlayers]
  split_ifs with hsame
  · refine ⟨h, ?_⟩
    rw [pointer_fillPointer]
  · obtain ⟨hroot, hempty⟩ := hkeeps hsame
    refine ⟨h.set ?_, ?_⟩
    · rintro entry ⟨⟩
      refine ⟨by simp, fun heq => ?_⟩
      exact congrArg some (hempty heq)
    · rw [pointer_cons hroot]
      exact congrArg (FlatAnchors.mk · _)
        (Rules.content_set (anchorRules env) cache.cacheSaplingAnchors _ _)

theorem popAnchor_refines {newrt : Uint256} {caches : List CCoinsViewCache}
    (hkeeps : KeepsAnchors env (.popAnchor newrt) ⟨cache :: base, db⟩)
    (hpop : popAnchor env db newrt (cache :: base) = .ok caches) :
    AnchorsCoherent env ⟨caches, db⟩ ∧ anchorView env ⟨caches, db⟩
      = (flatAnchors env (.popAnchor newrt) (anchorView env ⟨cache :: base, db⟩)).2 := by
  unfold AnchorsCoherent anchorView flatAnchors at *
  dsimp only at h hkeeps ⊢
  rcases popAnchor_layers hpop with ⟨hsame, hlayers⟩ | ⟨hne, -, m, ms, tree, hfetched, hlayers⟩
  · rw [hlayers, if_pos hsame, pointer_fillPointer]
    exact ⟨h, rfl⟩
  · obtain ⟨hnewrt, hroot⟩ := hkeeps hne
    obtain ⟨-, hcoherent, hcontent⟩ := Rules.fetch_spec
      (pointer (db.getBestAnchor env) (layers (cache :: base)).bestAnchors) h
    rw [hfetched] at hcoherent hcontent
    rw [hlayers, if_neg hne, ← hcontent]
    refine ⟨hcoherent.set ?_, ?_⟩
    · rintro entry ⟨⟩
      exact ⟨by simp, fun heq => absurd heq hroot⟩
    · rw [pointer_cons hnewrt]
      exact congrArg (FlatAnchors.mk · _) (Rules.content_set (anchorRules env) m _ _)

theorem stepTop_anchors (hkeeps : KeepsAnchors env op ⟨cache :: base, db⟩)
    (hstep : stepTop env db cache base op = .ok (answer, stack)) (hkind : op.kind = .anchors) :
    AnchorsCoherent env stack ∧
      answer.seen = (flatAnchors env op (anchorView env ⟨cache :: base, db⟩)).1 ∧
      stack.anchorView env = (flatAnchors env op (anchorView env ⟨cache :: base, db⟩)).2 := by
  have hdone := stepTop_eq_ok hstep
  cases op <;> try cases hkind
  case pushAnchor tree =>
    obtain ⟨rfl, rfl⟩ := hdone
    obtain ⟨hcoherent, hview⟩ := pushAnchor_refines h hkeeps
    exact ⟨hcoherent, rfl, hview⟩
  case popAnchor newrt =>
    obtain ⟨caches, hpop, rfl, rfl⟩ := hdone
    obtain ⟨hcoherent, hview⟩ := popAnchor_refines h hkeeps hpop
    exact ⟨hcoherent, rfl, hview⟩
  case getSaplingAnchorAt rt =>
    obtain ⟨rfl, rfl⟩ := hdone
    obtain ⟨hanswer, hlayers⟩ := getSaplingAnchorAt_layers env db (cache :: base) rt
    obtain ⟨hvalue, hcoherent, hcontent⟩ := Rules.fetch_spec rt h
    unfold AnchorsCoherent anchorView
    rw [hanswer, hlayers]
    refine ⟨hcoherent, congrArg CoinsAnswer.tree hvalue, ?_⟩
    exact congrArg (FlatAnchors.mk · _) hcontent
  case getBestAnchor =>
    obtain ⟨rfl, rfl⟩ := hdone
    obtain ⟨hanswer, hlayers⟩ := getBestAnchor_layers env db (cache :: base)
    unfold AnchorsCoherent anchorView
    rw [hanswer, hlayers]
    refine ⟨h, rfl, ?_⟩
    exact congrArg (FlatAnchors.mk _) (pointer_fillPointer _ _)

theorem stepTop_anchorView (hkeeps : KeepsAnchors env op ⟨cache :: base, db⟩)
    (hstep : stepTop env db cache base op = .ok (answer, stack)) :
    AnchorsCoherent env stack ∧ stack.anchorView env
      = (flatAnchors env op (anchorView env ⟨cache :: base, db⟩)).2 := by
  by_cases hwrite : op.kind = .writeBack
  · obtain ⟨-, _, _, hcache, hdatabase, hrun⟩ := stepTop_writeBack hstep hwrite
    rw [flatAnchors_of_kind (by simp [hwrite])]
    refine writeBack_anchors hcache hdatabase h hrun ?_
    intro parent rest hbase
    subst hbase
    cases op <;> first | exact hkeeps | cases hwrite
  · obtain ⟨hdb, -, -, hframe, -⟩ := stepTop_frame hstep hwrite
    by_cases hkind : op.kind = .anchors
    · obtain ⟨hcoherent, -, hview⟩ := stepTop_anchors h hkeeps hstep hkind
      exact ⟨hcoherent, hview⟩
    · obtain ⟨hanchors, hbest⟩ := hframe hkind
      rw [flatAnchors_of_kind hkind]
      unfold AnchorsCoherent anchorView
      rw [hdb, hanchors, hbest]
      exact ⟨h, rfl⟩

end

theorem Reachable.anchorsCoherent (h : Reachable env (KeepsAnchors env) stack) :
    AnchorsCoherent env stack := by
  induction h with
  | database _ _ => exact fun rt hroot => if_pos hroot
  | opened _ ih => exact ih.push
  | closed _ ih => exact ih.tail
  | @called op answer stack stack' _ _ meets call ih =>
    obtain ⟨caches, db⟩ := stack
    cases caches with
    | nil =>
      cases call
      exact ih
    | cons cache base => exact (stepTop_anchorView ih meets call).1

/-! ## Whole runs -/

theorem popAnchor_unknown {newrt : Uint256} {e : CoinsError}
    (h : AnchorsCoherent env ⟨cache :: base, db⟩)
    (hpop : popAnchor env db newrt (cache :: base) = .error e) :
    (anchorView env ⟨cache :: base, db⟩).anchors
      (anchorView env ⟨cache :: base, db⟩).best = none := by
  obtain ⟨cache', base', hget, hlayers⟩ := getBestAnchor_cons env db cache base
  obtain ⟨best, hbest⟩ : ∃ best, best = pointer (db.getBestAnchor env)
    (layers (cache :: base)).bestAnchors := ⟨_, rfl⟩
  obtain ⟨hanswer, hread⟩ := getSaplingAnchorAt_layers env db (cache' :: base') best
  unfold popAnchor at hpop
  rw [hget, ← hbest] at hpop
  dsimp only at hpop
  split_ifs at hpop with hsame
  rcases htree : getSaplingAnchorAt env db best (cache' :: base') with ⟨tree, caches⟩
  rw [htree, hlayers] at hanswer hread
  rw [htree] at hpop
  have hnone : tree = none := by
    cases tree with
    | none => rfl
    | some tree =>
      cases caches with
      | cons top rest => cases hpop
      | nil =>
        have hlength := congrArg (fun l => l.coins.length) hread
        simp [layers] at hlength
  have hvalue := (Rules.fetch_spec best h).1
  show (anchorRules env).content _ _ (pointer _ _) = none
  rw [← hbest]
  exact hvalue.symm.trans (hanswer.symm.trans hnone)

theorem anchors_simulate (env : CoinsEnv) (hashBlock : Uint256) :
    Machine.Simulates (step env) (flatAnchors env)
      (fun op stack _ => (op.kind = .anchors ∨ op.kind = .writeBack) ∧ KeepsAnchors env op stack)
      CoinsAnswer.seen (fun stack flat => StandsFor (anchorView env) hashBlock stack flat ∧
        AnchorsCoherent env stack) (fun _ flat e => (e = .assertHashBlock ∧ hashBlock = 0) ∨
        (e = .assertAnchor ∧ flat.anchors flat.best = none)) where
  ok := by
    rintro op stack flat answer stack' ⟨⟨hsound, rfl, htop⟩, hcoherent⟩ ⟨hkind, hkeeps⟩ hstep
    obtain ⟨cache, base, db, rfl, rfl⟩ := exists_top htop
    have hrule : RespectsOverwrite op (coins ⟨cache :: base, db⟩) := by
      cases op <;> first | trivial | (rcases hkind with hk | hk <;> cases hk)
    obtain ⟨hsound', -, -⟩ := stepTop_refines hsound hrule hstep
    have htop' := stepTop_hashBlock hstep (by rcases hkind with hk | hk <;> simp [hk])
    obtain ⟨hcoherent', hview⟩ := stepTop_anchorView hcoherent hkeeps hstep
    refine ⟨?_, ⟨hsound', hview, htop'⟩, hcoherent'⟩
    rcases hkind with hkind | hkind
    · exact (stepTop_anchors hcoherent hkeeps hstep hkind).2.1
    · rw [(stepTop_writeBack hstep hkind).1, flatAnchors_of_kind (by simp [hkind])]
      rfl
  error := by
    rintro op stack flat e ⟨⟨hsound, rfl, htop⟩, hcoherent⟩ ⟨hkind, hkeeps⟩ hstep
    obtain ⟨cache, base, db, rfl, rfl⟩ := exists_top htop
    have hrule : RespectsOverwrite op (coins ⟨cache :: base, db⟩) := by
      cases op <;> first | trivial | (rcases hkind with hk | hk <;> cases hk)
    rcases stepTop_eq_error hsound hrule hstep with ⟨hanchors, rfl⟩ | ⟨-, hstop⟩
    · refine .inr ⟨rfl, ?_⟩
      cases op <;> try cases hstep
      case popAnchor newrt =>
        rcases Except.bind_eq_error_iff.mp hstep with hpop | ⟨_, _, hrest⟩
        · exact popAnchor_unknown hcoherent hpop
        · cases hrest
      all_goals cases hanchors
    · exact .inl hstop

/-- In every run whose calls all meet the condition, each answer is that of
one flat map and one variable for the best root. A run stops only where the
flat map does not know the best root it should pop, or in the assertion of
the database that the best block is known. -/
theorem run_anchors_eq_flatAnchors
    (hreach : Reachable env (KeepsAnchors env) ⟨cache :: base, db⟩) {ops : List CoinsOp}
    (hkeeps : Machine.Along (step env) (flatAnchors env)
      (fun op stack _ => (op.kind = .anchors ∨ op.kind = .writeBack) ∧
        KeepsAnchors env op stack) ops ⟨cache :: base, db⟩ (anchorView env ⟨cache :: base, db⟩)) :
    (∀ answers stack, run env ops ⟨cache :: base, db⟩ = .ok (answers, stack) →
      answers.map CoinsAnswer.seen = (flatRun (flatAnchors env) ops
        (anchorView env ⟨cache :: base, db⟩)).1) ∧
    ∀ e, run env ops ⟨cache :: base, db⟩ = .error e → (e = .assertHashBlock ∧ cache.hashBlock = 0) ∨
      (e = .assertAnchor ∧ ∃ before after, ops = before ++ after ∧
        let flat := (flatRun (flatAnchors env) before
          (anchorView env ⟨cache :: base, db⟩)).2
        flat.anchors flat.best = none) := by
  have hstart := standsFor_self (anchorView env) hreach.sound
  have sim := anchors_simulate env cache.hashBlock
  refine ⟨fun answers stack hrun => ?_, fun e hrun => ?_⟩
  · exact (sim.run_ok ⟨hstart, hreach.anchorsCoherent⟩ hkeeps hrun).1
  · obtain ⟨before, after, _, hsplit, _, hstop⟩ :=
      sim.run_error ⟨hstart, hreach.anchorsCoherent⟩ hkeeps hrun
    exact hstop.imp_right fun h => ⟨h.1, before, after, hsplit, h.2⟩

def oneLeafTree : IncrementalMerkleTree := ⟨some 5, none, []⟩

theorem root_oneLeafTree : oneLeafTree.root oneEntryEnv.hash = 69 := by
  decide +kernel

theorem keepsAnchors_of_bestBlock (op : CoinsOp) (stack : CoinsStack)
    (hkind : op.kind = .bestBlock) : KeepsAnchors env op stack := by
  cases op <;> trivial

theorem run_anchors_push_flush_read : ∃ answers stack, run oneEntryEnv
      [.pushAnchor oneLeafTree, .flush, .getBestAnchor, .getSaplingAnchorAt 69] twoCaches
        = .ok (answers, stack) ∧
      answers.map CoinsAnswer.seen = [.done, .done, .hash 69, .tree (some oneLeafTree)] := by
  obtain ⟨⟨answers, stack⟩, hrun⟩ := Except.exists_of_isOk (show (run oneEntryEnv
      [.pushAnchor oneLeafTree, .flush, .getBestAnchor, .getSaplingAnchorAt 69]
        twoCaches).isOk = true by
    decide +kernel)
  refine ⟨answers, stack, hrun, ?_⟩
  have hreach := reachable_twoCaches (P := KeepsAnchors oneEntryEnv) keepsAnchors_of_bestBlock
  have hpush : KeepsAnchors oneEntryEnv (.pushAnchor oneLeafTree) twoCaches := by
    intro _
    rw [root_oneLeafTree]
    decide +kernel
  have hentered : pushAnchor oneEntryEnv new oneLeafTree twoCaches.caches
      = [(new.setBestBlock 2).enterAnchor 69 oneLeafTree,
        { new.setBestBlock 1 with hashSaplingAnchor := 1 }] := by
    unfold pushAnchor
    rw [root_oneLeafTree]
    rfl
  have hkeeps : Machine.Along (step oneEntryEnv) (flatAnchors oneEntryEnv)
      (fun op stack _ => (op.kind = .anchors ∨ op.kind = .writeBack) ∧
        KeepsAnchors oneEntryEnv op stack)
      [.pushAnchor oneLeafTree, .flush, .getBestAnchor, .getSaplingAnchorAt 69] twoCaches
      (anchorView oneEntryEnv twoCaches) := by
    refine ⟨⟨.inl rfl, hpush⟩, ?_⟩
    intro answer stack hstep
    change Except.ok (CoinsAnswer.done,
      CoinsStack.mk (pushAnchor oneEntryEnv new oneLeafTree twoCaches.caches) new)
        = .ok (answer, stack) at hstep
    rw [hentered] at hstep
    cases hstep
    -- the top cache holds the root that was pushed
    exact ⟨⟨.inr rfl, .inl (by decide)⟩, fun _ _ _ => ⟨⟨.inl rfl, trivial⟩, fun _ _ _ =>
      ⟨⟨.inl rfl, trivial⟩, fun _ _ _ => trivial⟩⟩⟩
  refine ((run_anchors_eq_flatAnchors hreach hkeeps).1 answers stack hrun).trans ?_
  decide +kernel

/-- A cache that has not read its best anchor is flushed onto one in which an
anchor was pushed. The best anchor is then that of the empty database. -/
theorem run_anchors_flush_forgets_best :
    ∃ stack answers stack', Reachable oneEntryEnv (fun _ _ => True) stack ∧
      run oneEntryEnv [.flush, .getBestAnchor] stack = .ok (answers, stack') ∧
      answers.map CoinsAnswer.seen ≠ (flatRun (flatAnchors oneEntryEnv)
        [.flush, .getBestAnchor] (stack.anchorView oneEntryEnv)).1 := by
  have hreach := reachable_one (P := fun _ _ => True) (fun _ _ _ => trivial)
  have hrule : RespectsOverwrite (.pushAnchor oneLeafTree) (coins
      ⟨[new.setBestBlock 1], new⟩) := trivial
  have hpush : pushAnchor oneEntryEnv new oneLeafTree
      [new.setBestBlock 1] = [(new.setBestBlock 1).enterAnchor 69 oneLeafTree] := by
    unfold pushAnchor
    rw [root_oneLeafTree]
    rfl
  have hcall : step oneEntryEnv (.pushAnchor oneLeafTree) ⟨[new.setBestBlock 1], new⟩ = .ok (.done,
        ⟨[(new.setBestBlock 1).enterAnchor 69 oneLeafTree], new⟩) := by
    rw [← hpush]
    rfl
  refine ⟨_, _, _, (hreach.called hrule trivial hcall).opened, rfl, ?_⟩
  decide +kernel

end CoinsStack

end KorshCore

import KorshCore.Coins.Refinement

/-!
# Coins and nullifiers over whole runs

The stacks that can arise (`Reachable`), and what every sequence of calls on
them answers: the same as the flat machines.
-/

namespace KorshCore

open WriteBack CCoinsViewCache CCoinsViewDB CoinsAnswer Machine Except

namespace CoinsStack

/-- The stacks over a database that is not in the middle of a write: caches
are opened and closed at the top, and the calls on the top cache respect the
rule of `AddCoin` and meet `P`. -/
inductive Reachable (env : CoinsEnv) (P : CoinsOp → CoinsStack → Prop) : CoinsStack → Prop
  | database {db : CCoinsViewDB} (headBlocks : db.headBlocks = none)
    (unspent : ∀ outpoint coin, db.coins outpoint = some coin →
      coin.isSpent = false) : Reachable env P ⟨[], db⟩
  | opened {caches : List CCoinsViewCache} {db : CCoinsViewDB}
    (below : Reachable env P ⟨caches, db⟩) :
    Reachable env P ⟨CCoinsViewCache.new :: caches, db⟩
  | closed {cache : CCoinsViewCache} {base : List CCoinsViewCache}
    {db : CCoinsViewDB} (before : Reachable env P ⟨cache :: base, db⟩) :
    Reachable env P ⟨base, db⟩
  | called {op : CoinsOp} {answer : CoinsAnswer} {stack stack' : CoinsStack}
    (before : Reachable env P stack) (rule : RespectsOverwrite op stack.coins) (meets : P op stack)
    (call : step env op stack = .ok (answer, stack')) : Reachable env P stack'

variable {env : CoinsEnv} {db : CCoinsViewDB} {cache : CCoinsViewCache}
  {base : List CCoinsViewCache}

theorem Sound.opened {caches : List CCoinsViewCache}
    (h : Sound ⟨caches, db⟩) : Sound ⟨new :: caches, db⟩ :=
  ⟨h.coins.push, h.nullifiers.push, h.headBlocks⟩

theorem Sound.closed (h : Sound ⟨cache :: base, db⟩) : Sound ⟨base, db⟩ :=
  ⟨h.coins.tail, h.nullifiers.tail, h.headBlocks⟩

variable {P : CoinsOp → CoinsStack → Prop}

theorem Reachable.sound {stack : CoinsStack} (h : Reachable env P stack) : stack.Sound := by
  induction h with
  | database headBlocks unspent =>
    exact ⟨fun outpoint => unspent outpoint, fun _ => trivial, headBlocks⟩
  | opened _ ih => exact ih.opened
  | closed _ ih => exact ih.closed
  | @called op answer stack stack' _ rule _ call ih =>
    obtain ⟨caches, db⟩ := stack
    cases caches with
    | nil =>
      cases call
      exact ih
    | cons cache base => exact (stepTop_refines ih rule call).1

theorem flushAll_spec (env : CoinsEnv) : ∀ {base : List CCoinsViewCache}
    {cache : CCoinsViewCache}, Sound ⟨cache :: base, db⟩ →
    (∀ db', flushAll env ⟨cache :: base, db⟩ = .ok db' → db'.coins = coins ⟨cache :: base, db⟩ ∧
      db'.getNullifier = nullifiers ⟨cache :: base, db⟩) ∧
    ∀ e, flushAll env ⟨cache :: base, db⟩ = .error e → e = .assertHashBlock ∧ cache.hashBlock = 0
  | [], cache, h => by
    have hstep : flushAll env ⟨[cache], db⟩ = db.batchWrite env cache := by
      simp only [flushAll, flushDown, flushTop, flush, writeBack, List.length_singleton]
      cases db.batchWrite env cache <;> rfl
    rw [hstep]
    refine ⟨fun db' hwrite => ?_, fun e hwrite => ?_⟩
    · obtain ⟨-, hcoins, -, hnullifiers, -⟩ := database_batchWrite_eq_ok hwrite
      exact ⟨hcoins h.coins, hnullifiers h.nullifiers⟩
    · exact database_batchWrite_eq_error h.headBlocks hwrite
  | parent :: rest, cache, h => by
    obtain ⟨parent', hwrite⟩ := exists_batchWrite_eq_ok h.coins
    have hflush : flush env ⟨cache :: parent :: rest, db⟩
        = .ok ⟨cache.flushed :: parent' :: rest, db⟩ :=
      bind_eq_ok_iff.mpr ⟨parent', hwrite, rfl⟩
    obtain ⟨hsound, hcoins, hnullifiers⟩ := writeBack_refines
      (flushed_settled env) (flushed_settled env) h hflush
    -- the flushed cache is empty and can be dropped
    have hcoins' : coins ⟨parent' :: rest, db⟩ = coins ⟨cache :: parent :: rest, db⟩ :=
      (coinRules.content_empty).symm.trans hcoins
    have hnullifiers' : nullifiers ⟨parent' :: rest, db⟩
        = nullifiers ⟨cache :: parent :: rest, db⟩ :=
      (nullifierRules.content_empty).symm.trans hnullifiers
    have hblock : parent'.hashBlock = cache.hashBlock := (batchWrite_eq_ok hwrite).2.2.2.2
    have htop : flushTop env ⟨cache :: parent :: rest, db⟩ = .ok ⟨parent' :: rest, db⟩ := by
      rw [flushTop, hflush, ok_bind]
      rfl
    have hstep : flushAll env ⟨cache :: parent :: rest, db⟩
        = flushAll env ⟨parent' :: rest, db⟩ := by
      show (flushTop env ⟨cache :: parent :: rest, db⟩ >>= fun stack =>
        flushDown env (rest.length + 1) stack) = _
      rw [htop, ok_bind]
      rfl
    obtain ⟨hok, herror⟩ := flushAll_spec env hsound.closed
    rw [hcoins', hnullifiers'] at hok
    rw [hblock] at herror
    rw [hstep]
    exact ⟨hok, herror⟩

/-! ## Coins -/

/-- The stack stands for `flat`, as `view` sees it, and its top cache has the
best block `hashBlock`. -/
structure StandsFor {V : Type} (view : CoinsStack → V) (hashBlock : Uint256)
    (stack : CoinsStack) (flat : V) : Prop where
  sound : stack.Sound
  content : view stack = flat
  top : (layers stack.caches).bestBlocks.head? = some hashBlock

theorem exists_top {stack : CoinsStack} {hashBlock : Uint256}
    (h : (layers stack.caches).bestBlocks.head? = some hashBlock) :
    ∃ cache base db, stack = ⟨cache :: base, db⟩ ∧ cache.hashBlock = hashBlock := by
  obtain ⟨caches, db⟩ := stack
  cases caches with
  | nil => cases h
  | cons cache base => exact ⟨cache, base, db, rfl, Option.some.inj h⟩

theorem coins_simulates (env : CoinsEnv) (hashBlock : Uint256) :
    Machine.Simulates (step env) flatCoins
      (fun op _ coins => (op.kind = .coins ∨ op.kind = .writeBack) ∧ RespectsOverwrite op coins)
      seen (StandsFor coins hashBlock) (fun _ _ e => e = .assertHashBlock ∧ hashBlock = 0) where
  ok := by
    rintro op stack coins answer stack' ⟨hsound, rfl, htop⟩ ⟨hkind, hrule⟩ hstep
    obtain ⟨cache, base, db, rfl, rfl⟩ := exists_top htop
    obtain ⟨hsound', hcontent, -⟩ := stepTop_refines hsound hrule hstep
    have htop' := stepTop_hashBlock hstep (by rcases hkind with h | h <;> simp [h])
    refine ⟨?_, hsound', hcontent, htop'⟩
    rcases hkind with hkind | hkind
    · exact (stepTop_coins hsound.coins hrule hstep hkind).2.1
    · rw [(stepTop_writeBack hstep hkind).1, flatCoins_of_kind (by simp [hkind])]
      rfl
  error := by
    rintro op stack coins e ⟨hsound, rfl, htop⟩ ⟨hkind, hrule⟩ hstep
    obtain ⟨cache, base, db, rfl, rfl⟩ := exists_top htop
    rcases stepTop_eq_error hsound hrule hstep with ⟨hanchors, -⟩ | ⟨-, hstop⟩
    · rcases hkind with hkind | hkind <;> rw [hanchors] at hkind <;> cases hkind
    · exact hstop

theorem standsFor_self {V : Type} (view : CoinsStack → V) (h : Sound ⟨cache :: base, db⟩) :
    StandsFor view cache.hashBlock ⟨cache :: base, db⟩ (view ⟨cache :: base, db⟩) :=
  ⟨h, rfl, rfl⟩

/-- Every sequence of calls about coins answers as one flat map does, does
not throw, and flushing every layer afterwards brings the database to that
map. A run or a flush stops only in the assertion of the database that the
best block is known. -/
theorem run_coins_eq_flatCoins
    (hreach : Reachable env (fun _ _ => True) ⟨cache :: base, db⟩) {ops : List CoinsOp}
    (hkinds : ∀ op ∈ ops, op.kind = .coins ∨ op.kind = .writeBack)
    (hrule : Machine.FlatAlong flatCoins RespectsOverwrite ops (coins ⟨cache :: base, db⟩)) :
    let flat := flatRun flatCoins ops (coins ⟨cache :: base, db⟩)
    (∀ answers stack, run env ops ⟨cache :: base, db⟩ = .ok (answers, stack) →
      answers.map seen = flat.1 ∧
      (∀ db', stack.flushAll env = .ok db' → db'.coins = flat.2) ∧
      ∀ e, stack.flushAll env = .error e → e = .assertHashBlock ∧ cache.hashBlock = 0) ∧
    ∀ e, run env ops ⟨cache :: base, db⟩ = .error e →
      e = .assertHashBlock ∧ cache.hashBlock = 0 := by
  intro flat
  have hstart := standsFor_self coins hreach.sound
  have halong := (hrule.and_forall hkinds).along (step env) ⟨cache :: base, db⟩
  have sim := coins_simulates env cache.hashBlock
  refine ⟨fun answers stack hrun => ?_, fun e hrun => ?_⟩
  · obtain ⟨hanswers, hsound, hcontent, htop⟩ := sim.run_ok hstart halong hrun
    obtain ⟨top, rest, db', rfl, hblock⟩ := exists_top htop
    obtain ⟨hok, herror⟩ := flushAll_spec env hsound
    refine ⟨hanswers, fun db'' hflush => ?_, fun e hflush => ?_⟩
    · exact (hok db'' hflush).1.trans hcontent
    · exact hblock ▸ herror e hflush
  · obtain ⟨_, _, _, _, _, hstop⟩ := sim.run_error hstart halong hrun
    exact hstop

def oneEntryEnv : CoinsEnv where
  hash := ⟨fun a b _ => a + b + 1, fun _ => 1⟩
  sizeEstimate := List.length
  batchSize := 0

theorem reachable_one (hP : ∀ op stack, op.kind = .bestBlock → P op stack) :
    Reachable oneEntryEnv P ⟨[new.setBestBlock 1], new⟩ := by
  have hempty : Reachable oneEntryEnv P ⟨[], new⟩ := .database rfl (by rintro _ _ ⟨⟩)
  have hcall : step oneEntryEnv (.setBestBlock 1)
      ⟨[new], new⟩ = .ok (.done, ⟨[new.setBestBlock 1], new⟩) := rfl
  have hrule : RespectsOverwrite (.setBestBlock 1) (coins ⟨[new], new⟩) := trivial
  exact hempty.opened.called hrule (hP _ _ rfl) hcall

/-- Two caches over the empty database. -/
def twoCaches : CoinsStack := ⟨[new.setBestBlock 2, new.setBestBlock 1], new⟩

theorem reachable_twoCaches (hP : ∀ op stack, op.kind = .bestBlock → P op stack) :
    Reachable oneEntryEnv P twoCaches := by
  have hcall : step oneEntryEnv (.setBestBlock 2)
      ⟨[new, new.setBestBlock 1], new⟩ = .ok (.done, twoCaches) := rfl
  have hrule : RespectsOverwrite (.setBestBlock 2)
      (coins ⟨[new, new.setBestBlock 1], new⟩) := trivial
  exact (reachable_one hP).opened.called hrule (hP _ _ rfl) hcall

theorem run_coins_add_flush_spend : let out : COutPoint := ⟨7, 0⟩
    let coin : Coin := ⟨⟨50, []⟩, false, 3⟩
    ∃ answers stack, run oneEntryEnv
      [.addCoin out coin false, .flush, .spendCoin out, .haveCoin out] twoCaches
        = .ok (answers, stack) ∧
      answers.map seen = [.done, .done, .coin (some coin), .flag false] := by
  intro out coin
  obtain ⟨⟨answers, stack⟩, hrun⟩ := exists_of_isOk (show (run oneEntryEnv
      [.addCoin out coin false, .flush, .spendCoin out, .haveCoin out] twoCaches).isOk = true by
    decide +kernel)
  refine ⟨answers, stack, hrun, ?_⟩
  have hreach := reachable_twoCaches (P := fun _ _ => True) (fun _ _ _ => trivial)
  refine ((run_coins_eq_flatCoins hreach ?_ ?_).1 answers stack hrun).1
  · decide
  · exact ⟨⟨rfl, fun _ => rfl⟩, trivial, trivial, trivial, trivial⟩

/-! ## Nullifiers -/

theorem respectsOverwrite_of_kind {op : CoinsOp}
    (hkind : op.kind = .nullifiers ∨ op.kind = .writeBack)
    (coins : COutPoint → Option Coin) : RespectsOverwrite op coins := by
  cases op with
  | addCoin outpoint coin possibleOverwrite => rcases hkind with h | h <;> cases h
  | _ => trivial

theorem nullifiers_simulates (env : CoinsEnv) (hashBlock : Uint256) :
    Machine.Simulates (step env) flatNullifiers
      (fun op _ _ => op.kind = .nullifiers ∨ op.kind = .writeBack)
      seen (StandsFor nullifiers hashBlock)
      (fun _ _ e => e = .assertHashBlock ∧ hashBlock = 0) where
  ok := by
    rintro op stack nullifiers answer stack' ⟨hsound, rfl, htop⟩ hkind hstep
    obtain ⟨cache, base, db, rfl, rfl⟩ := exists_top htop
    have hrule := respectsOverwrite_of_kind hkind (coins ⟨cache :: base, db⟩)
    obtain ⟨hsound', -, hcontent⟩ := stepTop_refines hsound hrule hstep
    have htop' := stepTop_hashBlock hstep (by rcases hkind with h | h <;> simp [h])
    refine ⟨?_, hsound', hcontent, htop'⟩
    rcases hkind with hkind | hkind
    · exact (stepTop_nullifiers hsound.nullifiers hstep hkind).2.1
    · rw [(stepTop_writeBack hstep hkind).1, flatNullifiers_of_kind (by simp [hkind])]
      rfl
  error := by
    rintro op stack nullifiers e ⟨hsound, rfl, htop⟩ hkind hstep
    obtain ⟨cache, base, db, rfl, rfl⟩ := exists_top htop
    have hrule := respectsOverwrite_of_kind hkind (coins ⟨cache :: base, db⟩)
    rcases stepTop_eq_error hsound hrule hstep with ⟨hanchors, -⟩ | ⟨-, hstop⟩
    · rcases hkind with hkind | hkind <;> rw [hanchors] at hkind <;> cases hkind
    · exact hstop

/-- Every sequence of calls about nullifiers answers as one flat set does,
and flushing every layer afterwards brings the database to that set. A run
or a flush stops only in the assertion of the database that the best block is
known. -/
theorem run_nullifiers_eq_flatNullifiers
    (hreach : Reachable env (fun _ _ => True) ⟨cache :: base, db⟩) {ops : List CoinsOp}
    (hkinds : ∀ op ∈ ops, op.kind = .nullifiers ∨ op.kind = .writeBack) :
    let flat := flatRun flatNullifiers ops (nullifiers ⟨cache :: base, db⟩)
    (∀ answers stack, run env ops ⟨cache :: base, db⟩ = .ok (answers, stack) →
      answers.map seen = flat.1 ∧
      (∀ db', stack.flushAll env = .ok db' → db'.getNullifier = flat.2) ∧
      ∀ e, stack.flushAll env = .error e → e = .assertHashBlock ∧ cache.hashBlock = 0) ∧
    ∀ e, run env ops ⟨cache :: base, db⟩ = .error e →
      e = .assertHashBlock ∧ cache.hashBlock = 0 := by
  intro flat
  have hstart := standsFor_self nullifiers hreach.sound
  have hflat : Machine.FlatAlong flatNullifiers
      (fun op _ => op.kind = .nullifiers ∨ op.kind = .writeBack) ops
      (nullifiers ⟨cache :: base, db⟩) := flatAlong_of_forall hkinds _
  have halong := hflat.along (step env) ⟨cache :: base, db⟩
  have sim := nullifiers_simulates env cache.hashBlock
  refine ⟨fun answers stack hrun => ?_, fun e hrun => ?_⟩
  · obtain ⟨hanswers, hsound, hcontent, htop⟩ := sim.run_ok hstart halong hrun
    obtain ⟨top, rest, db', rfl, hblock⟩ := exists_top htop
    obtain ⟨hok, herror⟩ := flushAll_spec env hsound
    refine ⟨hanswers, fun db'' hflush => ?_, fun e hflush => ?_⟩
    · exact (hok db'' hflush).2.trans hcontent
    · exact hblock ▸ herror e hflush
  · obtain ⟨_, _, _, _, _, hstop⟩ := sim.run_error hstart halong hrun
    exact hstop

def oneSpendTx (nullifier : Uint256) : CTransaction :=
  ⟨[], [], 4, 0, 0, ⟨0, [⟨0, 0, nullifier, 0, [], []⟩], [], []⟩, []⟩

theorem run_nullifiers_set_flush_unset : ∃ answers stack, run oneEntryEnv
      [.setNullifiers (oneSpendTx 9) true, .flush, .getNullifier 9,
        .setNullifiers (oneSpendTx 9) false, .sync, .getNullifier 9] twoCaches
        = .ok (answers, stack) ∧
      answers.map CoinsAnswer.seen = [.done, .done, .flag true, .done, .done, .flag false] := by
  obtain ⟨⟨answers, stack⟩, hrun⟩ := exists_of_isOk (show (run oneEntryEnv
      [.setNullifiers (oneSpendTx 9) true, .flush, .getNullifier 9,
        .setNullifiers (oneSpendTx 9) false, .sync, .getNullifier 9] twoCaches).isOk = true by
    decide +kernel)
  refine ⟨answers, stack, hrun, ?_⟩
  have hreach := reachable_twoCaches (P := fun _ _ => True) (fun _ _ _ => trivial)
  refine ((run_nullifiers_eq_flatNullifiers hreach ?_).1 answers stack hrun).1
  decide

end CoinsStack

end KorshCore

import KorshCore.Llmq.StoredSignatures

/-!
# The cache of mined commitments between threads

`HasMinedCommitment` takes two locks in turn: it looks into the cache, asks the
database, and puts the answer into the cache. Other threads run between these
parts, and so does the thread that processes a block.
-/

namespace KorshCore

open Option

namespace CQuorumBlockProcessor

variable {B : BLSScheme}

/-! ## Events -/

/-- Where a thread is in `HasMinedCommitment`. -/
inductive Flight where
  | idle
  /-- It found nothing in the cache. -/
  | missed (llmqType : LLMQType) (hash : Uint256)
  /-- It has an answer of the database. -/
  | asked (llmqType : LLMQType) (hash : Uint256) (fExists : Bool)
  deriving DecidableEq, Repr

structure SharedState (B : BLSScheme) where
  state : ProcessorState B
  /-- During a block operation, what a rollback restores. -/
  before : Option (QuorumDb B)
  /-- A commitment that was written or erased, and may still be cached. -/
  dirty : Option (LLMQType × Uint256)
  flights : Nat → Flight

/-- The parts that run under a lock. -/
inductive CacheEvent (B : BLSScheme) where
  | look (thread : Nat) (llmqType : LLMQType) (hash : Uint256)
  | ask (thread : Nat)
  /-- It puts the answer into the cache. -/
  | insert (thread : Nat)
  | begin
  | write (rotated : Bool) (nHeight : Nat) (blockHash : Uint256) (qc : CFinalCommitment B)
      (baseHeight : Nat)
  | erase (rotated : Bool) (nHeight : Nat) (qc : CFinalCommitment B)
  /-- It erases what is cached about the commitment. -/
  | forget
  /-- It ends, and what it wrote stays. -/
  | commit
  /-- It ends, and what it wrote is taken back. -/
  | rollback

def SharedState.setFlight (s : SharedState B) (thread : Nat) (flight : Flight) : SharedState B :=
  { s with flights := fun t => if t = thread then flight else s.flights t }

def runEvent (e : CacheEvent B) (s : SharedState B) : Option (SharedState B) :=
  match e with
  | .look thread llmqType hash =>
    match s.flights thread, ((s.state.mapHasMinedCommitmentCache llmqType).get hash).1 with
    | .idle, some _ =>
      some { s with state := s.state.modifyCache llmqType fun cache => (cache.get hash).2 }
    | .idle, none => some (s.setFlight thread (.missed llmqType hash))
    | _, _ => none
  | .ask thread =>
    match s.flights thread with
    | .missed llmqType hash =>
      some (s.setFlight thread
        (.asked llmqType hash (s.state.db.tables.hasCommitment llmqType hash)))
    | _ => none
  | .insert thread =>
    match s.flights thread with
    | .asked llmqType hash fExists =>
      some ({ s with state := s.state.modifyCache llmqType (·.emplace hash fExists) }.setFlight
        thread .idle)
    | _ => none
  | .begin => if s.before.isNone then some { s with before := some s.state.db } else none
  | .write rotated nHeight blockHash qc baseHeight =>
    if s.before.isSome && s.dirty.isNone then some { s with
        state := s.state.modifyTables fun tables =>
          (tables.setCommitment qc.llmqType qc.quorumHash (some (qc, blockHash))).writeHeight
            rotated nHeight qc baseHeight
        dirty := some (qc.llmqType, qc.quorumHash) }
    else none
  | .erase rotated nHeight qc =>
    if s.before.isSome && s.dirty.isNone then some { s with
        state := s.state.modifyTables fun tables =>
          (tables.setCommitment qc.llmqType qc.quorumHash none).eraseHeight rotated nHeight qc
        dirty := some (qc.llmqType, qc.quorumHash) }
    else none
  | .forget =>
    match s.dirty with
    | some (llmqType, hash) =>
      some { s with state := s.state.modifyCache llmqType (·.erase hash), dirty := none }
    | none => none
  | .commit =>
    if s.before.isSome && s.dirty.isNone then some { s with before := none } else none
  | .rollback =>
    match s.before, s.dirty with
    | some db, none => some { s with state := { s.state with db := db }, before := none }
    | _, _ => none

def runEvents : List (CacheEvent B) → SharedState B → Option (SharedState B)
  | [], s => some s
  | e :: events, s => runEvent e s >>= runEvents events

variable {s : SharedState B} {llmqType : LLMQType}

theorem runEvents_query {thread : Nat} (hidle : s.flights thread = .idle) {hash : Uint256}
    (hmiss : ((s.state.mapHasMinedCommitmentCache llmqType).get hash).1 = none) :
    (runEvents [.look thread llmqType hash, .ask thread, .insert thread] s).map SharedState.state
      = some (hasMinedCommitment llmqType hash s.state).2 := by
  simp [runEvents, runEvent, hidle, hmiss, SharedState.setFlight, hasMinedCommitment]

variable {qc : CFinalCommitment B}

theorem runEvents_store {env : QuorumEnv B} {params : LLMQParams}
    {nHeight : Nat} {blockHash : Uint256} {base : CBlockIndex}
    (htype : params.type = qc.llmqType) (hrunning : s.before.isSome = true)
    (hclean : s.dirty = none) :
    (runEvents [.write (env.isQuorumRotationEnabled params base) nHeight blockHash qc
        base.nHeight, .forget] s).map SharedState.state
      = some (storeCommitment env params nHeight blockHash qc base s.state) := by
  simp [runEvents, runEvent, hrunning, hclean, storeCommitment, htype]

theorem runEvents_undo {env : QuorumEnv B} {params : LLMQParams}
    {pindex : CBlockIndex} (hparams : env.getLLMQ qc.llmqType = some params)
    (hnull : qc.isNull = false) (hrunning : s.before.isSome = true) (hclean : s.dirty = none) :
    (runEvents [.erase (env.isQuorumRotationEnabled params pindex) pindex.nHeight qc, .forget]
        s).map SharedState.state = some (undoCommitment env pindex qc s.state).2 := by
  simp only [runEvents, runEvent, hrunning, hclean, undoCommitment, hparams, hnull]
  rfl

/-! ## Orderly runs -/

/-- An answer about a commitment is cached, or a thread is about to cache one. -/
def Answered (s : SharedState B) (llmqType : LLMQType) (hash : Uint256) : Prop :=
  ((s.state.mapHasMinedCommitmentCache llmqType).get hash).1 ≠ none ∨
    ∃ thread fExists, s.flights thread = .asked llmqType hash fExists

def Unheld (s : SharedState B) (qc : CFinalCommitment B) : Prop :=
  ∀ thread fExists, s.flights thread ≠ .asked qc.llmqType qc.quorumHash fExists

/-- A commitment is written or erased while no thread is about to cache an answer
about it, and a rollback changes nothing that there is an answer about. -/
def Orderly (e : CacheEvent B) (s : SharedState B) : Prop :=
  match e with
  | .write _ _ _ qc _ => Unheld s qc
  | .erase _ _ qc => Unheld s qc
  | .rollback => ∀ db, s.before = some db → ∀ llmqType hash, Answered s llmqType hash →
      db.tables.hasCommitment llmqType hash = s.state.db.tables.hasCommitment llmqType hash
  | _ => True

/-- The shared states of orderly runs, from a node without cached answers. -/
inductive OrderlyReach : SharedState B → Prop where
  | start (db : QuorumDb B) (maxSize : LLMQType → Nat) :
      OrderlyReach ⟨⟨db, fun llmqType => .new (maxSize llmqType) 0⟩, none, none, fun _ => .idle⟩
  | step {s s' : SharedState B} {e : CacheEvent B} : OrderlyReach s → Orderly e s →
      runEvent e s = some s' → OrderlyReach s'

/-- What is cached is right, unless it is about to be erased, and what threads hold
is right. Between block operations nothing is about to be erased. -/
structure CacheRight (s : SharedState B) : Prop where
  cached : ∀ llmqType hash fExists,
    (s.state.mapHasMinedCommitmentCache llmqType).Holds hash fExists →
    s.dirty ≠ some (llmqType, hash) →
    fExists = s.state.db.tables.hasCommitment llmqType hash
  held : ∀ thread llmqType hash fExists, s.flights thread = .asked llmqType hash fExists →
    fExists = s.state.db.tables.hasCommitment llmqType hash
  clean : s.before = none → s.dirty = none

theorem hasCommitment_setCommitment {tables : MinedTables B} {t : LLMQType}
    {hash h : Uint256} (hne : (llmqType, hash) ≠ (t, h))
    (entry : Option (CFinalCommitment B × Uint256)) :
    (tables.setCommitment llmqType hash entry).hasCommitment t h = tables.hasCommitment t h := by
  have hkey : ¬(t = llmqType ∧ h = hash) := fun hkey => hne (by rw [hkey.1, hkey.2])
  simp [MinedTables.hasCommitment, MinedTables.setCommitment, hkey]

theorem CacheRight.setFlight (hs : CacheRight s) {thread : Nat} {flight : Flight}
    (hflight : ∀ llmqType hash fExists, flight = .asked llmqType hash fExists →
      fExists = s.state.db.tables.hasCommitment llmqType hash) :
    CacheRight (s.setFlight thread flight) where
  cached := hs.cached
  held t llmqType hash fExists heq := by
    simp only [SharedState.setFlight] at heq
    by_cases ht : t = thread
    · rw [if_pos ht] at heq
      exact hflight _ _ _ heq
    · rw [if_neg ht] at heq
      exact hs.held t _ _ _ heq
  clean := hs.clean

theorem CacheRight.modifyCache (hs : CacheRight s)
    {f : UnorderedLruCache Uint256 Bool → UnorderedLruCache Uint256 Bool}
    {dirty : Option (LLMQType × Uint256)}
    (hf : ∀ hash fExists, (f (s.state.mapHasMinedCommitmentCache
      llmqType)).Holds hash fExists → dirty ≠ some (llmqType, hash) →
      fExists = s.state.db.tables.hasCommitment llmqType hash)
    (hother : ∀ t hash, t ≠ llmqType → dirty ≠ some (t, hash) → s.dirty ≠ some
      (t, hash)) (hclean : s.dirty = none → dirty = none) :
    CacheRight { s with state := s.state.modifyCache llmqType f, dirty := dirty } where
  cached t hash fExists hfind hdirty := by
    simp only [ProcessorState.modifyCache] at hfind
    by_cases ht : t = llmqType
    · subst ht
      rw [if_pos rfl] at hfind
      exact hf hash fExists hfind hdirty
    · rw [if_neg ht] at hfind
      exact hs.cached t hash fExists hfind (hother t hash ht hdirty)
  held := hs.held
  clean hbefore := hclean (hs.clean hbefore)

theorem CacheRight.setCommitment (hs : CacheRight s) (hunheld : Unheld s qc)
    (hrunning : s.before.isSome = true) (hdirty : s.dirty = none)
    {f : MinedTables B → MinedTables B} (hf : ∀ t h, (qc.llmqType, qc.quorumHash) ≠ (t, h) → (f
      s.state.db.tables).hasCommitment t h = s.state.db.tables.hasCommitment t h) :
    CacheRight { s with
      state := s.state.modifyTables f, dirty := some (qc.llmqType, qc.quorumHash) } where
  cached t h fExists hfind hne := by
    have hkey : (qc.llmqType, qc.quorumHash) ≠ (t, h) := fun hkey => hne (congrArg some hkey)
    show fExists = (f s.state.db.tables).hasCommitment t h
    rw [hf t h hkey]
    exact hs.cached t h fExists hfind (by simp [hdirty])
  held thread t h fExists hflight := by
    have hkey : (qc.llmqType, qc.quorumHash) ≠ (t, h) := by
      intro hkey
      obtain ⟨rfl, rfl⟩ := Prod.mk.inj hkey
      exact hunheld thread fExists hflight
    show fExists = (f s.state.db.tables).hasCommitment t h
    rw [hf t h hkey]
    exact hs.held thread t h fExists hflight
  clean hbefore := by
    have hnone : s.before = none := hbefore
    simp [hnone] at hrunning

/-! ### Steps and runs -/

theorem CacheRight.step {s s' : SharedState B} (hs : CacheRight s) {e : CacheEvent B}
    (horderly : Orderly e s) (hstep : runEvent e s = some s') : CacheRight s' := by
  cases e with
  | look thread llmqType hash =>
    simp only [runEvent] at hstep
    split at hstep
    · cases hstep
      apply hs.modifyCache
      · intro h fExists hfind hdirty
        exact hs.cached llmqType h fExists hfind.of_get hdirty
      · exact fun _ _ _ hdirty => hdirty
      · exact id
    · cases hstep
      exact hs.setFlight fun _ _ _ heq => by cases heq
    · cases hstep
  | ask thread =>
    simp only [runEvent] at hstep
    split at hstep
    · cases hstep
      apply hs.setFlight
      intro t h fExists heq
      cases heq
      rfl
    · cases hstep
  | insert thread =>
    simp only [runEvent] at hstep
    split at hstep
    · rename_i llmqType hash answer hflight
      cases hstep
      refine CacheRight.setFlight ?_ fun _ _ _ heq => by cases heq
      apply hs.modifyCache
      · intro h fExists hfind hdirty
        obtain ⟨rfl, rfl⟩ | ⟨-, hold⟩ := hfind.of_emplace
        · exact hs.held thread _ _ _ hflight
        · exact hs.cached llmqType h fExists hold hdirty
      · exact fun _ _ _ hdirty => hdirty
      · exact id
    · cases hstep
  | begin =>
    simp only [runEvent] at hstep
    split at hstep
    · cases hstep
      exact ⟨hs.cached, hs.held, by intro hbefore; cases hbefore⟩
    · cases hstep
  | write rotated nHeight blockHash qc baseHeight =>
    simp only [runEvent, ite_none_right_eq_some, Bool.and_eq_true, isNone_iff_eq_none] at hstep
    obtain ⟨⟨hrunning, hdirty⟩, hs'⟩ := hstep
    cases hs'
    apply hs.setCommitment horderly hrunning hdirty
    intro t h hkey
    cases rotated with
    | false => exact hasCommitment_setCommitment hkey _
    | true => exact hasCommitment_setCommitment hkey _
  | erase rotated nHeight qc =>
    simp only [runEvent, ite_none_right_eq_some, Bool.and_eq_true, isNone_iff_eq_none] at hstep
    obtain ⟨⟨hrunning, hdirty⟩, hs'⟩ := hstep
    cases hs'
    apply hs.setCommitment horderly hrunning hdirty
    intro t h hkey
    cases rotated with
    | false => exact hasCommitment_setCommitment hkey _
    | true => exact hasCommitment_setCommitment hkey _
  | forget =>
    simp only [runEvent] at hstep
    split at hstep
    · rename_i llmqType hash hdirty
      cases hstep
      apply hs.modifyCache
      · intro h fExists hfind _
        obtain ⟨hh, hold⟩ := hfind.of_erase
        apply hs.cached llmqType h fExists hold
        rw [hdirty]
        exact fun heq => hh (Prod.mk.inj (some.inj heq)).2.symm
      · intro t h ht _
        rw [hdirty]
        exact fun heq => ht (Prod.mk.inj (some.inj heq)).1.symm
      · exact fun _ => rfl
    · cases hstep
  | commit =>
    simp only [runEvent, ite_none_right_eq_some, Bool.and_eq_true, isNone_iff_eq_none] at hstep
    obtain ⟨⟨-, hdirty⟩, hs'⟩ := hstep
    cases hs'
    exact ⟨hs.cached, hs.held, fun _ => hdirty⟩
  | rollback =>
    simp only [runEvent] at hstep
    split at hstep
    · rename_i db hbefore hdirty
      cases hstep
      constructor
      · intro t h fExists hfind hne
        have hsame := horderly db hbefore t h (.inl hfind.get_ne_none)
        show fExists = db.tables.hasCommitment t h
        rw [hsame]
        exact hs.cached t h fExists hfind hne
      · intro thread t h fExists hflight
        have hsame := horderly db hbefore t h (.inr ⟨thread, fExists, hflight⟩)
        show fExists = db.tables.hasCommitment t h
        rw [hsame]
        exact hs.held thread t h fExists hflight
      · exact fun _ => hdirty
    · cases hstep

theorem cacheRight_of_orderly (hreach : OrderlyReach s) : CacheRight s := by
  induction hreach with
  | start db maxSize =>
    constructor
    · intro t h fExists hfind _
      obtain ⟨e, he, -⟩ := hfind
      cases he
    · intro thread t h fExists hflight
      cases hflight
    · exact fun _ => rfl
  | step _ horderly hstep ih => exact ih.step horderly hstep

/-- After every orderly run in which the block operation has finished, a query
answers whether the database has the commitment, and so does every query that is
about to return. -/
theorem hasMinedCommitment_of_orderly {s : SharedState B} (hreach : OrderlyReach s)
    (hdone : s.before = none) (llmqType : LLMQType) (hash : Uint256) :
    (hasMinedCommitment llmqType hash s.state).1 = s.state.db.tables.hasCommitment llmqType hash ∧
      ∀ thread fExists, s.flights thread = .asked llmqType hash fExists →
        fExists = s.state.db.tables.hasCommitment llmqType hash := by
  have hright := cacheRight_of_orderly hreach
  refine ⟨?_, fun thread fExists => hright.held thread llmqType hash fExists⟩
  unfold hasMinedCommitment
  cases hfind : ((s.state.mapHasMinedCommitmentCache llmqType).get hash).1 with
  | none => rfl
  | some fExists =>
    apply hright.cached llmqType hash fExists (UnorderedLruCache.holds_of_get hfind)
    rw [hright.clean hdone]
    simp

def soloShared : SharedState numberScheme := ⟨soloState, none, none, fun _ => .idle⟩

def soloStores : List (CacheEvent numberScheme) :=
  [.begin, .write false 34 35 (soloCommitment 7) 24, .forget]

def answerAfter (events : List (CacheEvent numberScheme)) : Option (Bool × Bool) :=
  (runEvents events soloShared).map fun s =>
    ((hasMinedCommitment .llmqTest 25 s.state).1, s.state.db.tables.hasCommitment .llmqTest 25)

/-- An answer is cached before the block, and thread 1 asks again while the block is
processed. Thread 2 asks about another commitment all the time. -/
def soloQueries : List (CacheEvent numberScheme) :=
  [.look 1 .llmqTest 25, .ask 1, .insert 1, .look 2 .llmqTest 26, .begin, .ask 2,
    .write false 34 35 (soloCommitment 7) 24, .forget, .look 1 .llmqTest 25, .ask 1, .insert 2,
    .commit, .insert 1]

theorem hasMinedCommitment_of_orderly_solo :
    ∃ s, runEvents soloQueries soloShared = some s ∧
      (hasMinedCommitment .llmqTest 25 s.state).1 = s.state.db.tables.hasCommitment .llmqTest 25 ∧
      ((s.state.mapHasMinedCommitmentCache .llmqTest).get 25).1 = some true ∧
      ((s.state.mapHasMinedCommitmentCache .llmqTest).get 26).1 = some false := by
  have hstart : OrderlyReach soloShared := .start ⟨.empty, none⟩ fun _ => 3
  have hcached := ((hstart.step (e := .look 1 .llmqTest 25) trivial rfl).step (e := .ask 1)
    trivial rfl).step (e := .insert 1) trivial rfl
  have hasked := ((hcached.step (e := .look 2 .llmqTest 26) trivial rfl).step (e := .begin)
    trivial rfl).step (e := .ask 2) trivial rfl
  have hwrite := hasked.step (e := .write false 34 35 (soloCommitment 7) 24)
    (fun thread fExists heq => by
      -- thread 2 holds an answer about another commitment
      simp only [SharedState.setFlight] at heq
      split_ifs at heq
      · exact absurd (Flight.asked.inj heq).2.1 (by decide)
      · cases heq) rfl
  have hagain := ((hwrite.step (e := .forget) trivial rfl).step (e := .look 1 .llmqTest 25)
    trivial rfl).step (e := .ask 1) trivial rfl
  have hdone := ((hagain.step (e := .insert 2) trivial rfl).step (e := .commit) trivial rfl).step
    (e := .insert 1) trivial rfl
  exact ⟨_, rfl, (hasMinedCommitment_of_orderly hdone rfl .llmqTest 25).1, by decide +kernel⟩

/-- A thread caches its answer after the block operation, and a thread asks before
the operation is rolled back. Later queries give the wrong answer. -/
theorem hasMinedCommitment_stale :
    answerAfter ([.look 1 .llmqTest 25, .ask 1] ++ soloStores ++ [.commit, .insert 1])
      = some (false, true) ∧
    answerAfter (soloStores ++ [.look 1 .llmqTest 25, .ask 1, .insert 1, .rollback])
      = some (true, false) := by
  decide +kernel

end CQuorumBlockProcessor

end KorshCore

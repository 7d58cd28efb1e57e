import KorshCore.Script.Standard
import Mathlib.Logic.Function.Basic

/-!
# Sporks between threads

`CSporkManager` of `spork.cpp`. `IsSporkActive` looks into a cache of active
sporks, evaluates the spork under the lock of the messages, reads the time, and
fills the cache.
-/

namespace KorshCore

open Function List

/-- `CSporkMessage`, with the key that `GetSignerKeyID` finds. -/
structure CSporkMessage where
  nSporkID : Int
  nValue : Int
  nTimeSigned : Int
  signer : Option Uint160

/-- The options of the node. `SetMinSporkKeys` asks for more than half of the keys.
`sporkPrivKey` is the key that the private key signs for. -/
structure SporkEnv where
  isTestChain : Bool
  setSporkPubKeyIDs : List Uint160
  nMinSporkKeys : Nat
  sporkPrivKey : Option Uint160
  nodup : setSporkPubKeyIDs.Nodup
  majority : setSporkPubKeyIDs.length < 2 * nMinSporkKeys

/-- Where a thread is in `IsSporkActive`: it found nothing in the cache, or it has the
value and, with `ret`, has seen that it is in the past. -/
inductive SporkQuery where
  | idle
  | missed (id : Int)
  | valued (id nSporkValue : Int) (ret : Bool)
  deriving DecidableEq

/-- The maps, the adjusted time, the spork of a message that is stored while its caches
are not erased, and the threads. -/
structure SporkState where
  mapSporksActive : Int → Uint160 → Option CSporkMessage
  mapSporksCachedActive : Int → Bool
  mapSporksCachedValues : Int → Option Int
  time : Int
  stored : Option Int
  queries : Nat → SporkQuery

/-- The parts that run under a lock. A message was checked against the time `now`. -/
inductive SporkEvent where
  | look (thread : Nat) (id : Int)
  | evaluate (thread : Nat)
  | compare (thread : Nat)
  | fill (thread : Nat)
  | processSpork (now : Int) (spork : CSporkMessage)
  | updateSpork (now id v : Int)
  | erase
  | tick (time : Int)

/-- `sporkDefs`, or -1 for an unknown spork. -/
def defaultValue (id : Int) : Int :=
  if id ∈ [10001, 10002, 10008, 10016, 10018, 10020, 10022] then 4070908800 else -1

def countVotes (nMin : Nat) : List Int → List Int → Option Int
  | counted, v :: rest =>
    if nMin ≤ (v :: counted).count v then some v else countVotes nMin (v :: counted) rest
  | _, [] => none

namespace SporkEnv

variable (env : SporkEnv)

/-- The values of one spork, in the order of the signers. -/
def votes (signers : Uint160 → Option CSporkMessage) : List Int :=
  env.setSporkPubKeyIDs.filterMap fun key => (signers key).map CSporkMessage.nValue

/-- `SporkValueIfActive`. -/
def sporkValueIfActive (s : SporkState) (id : Int) : Option Int :=
  let votes := env.votes (s.mapSporksActive id)
  if votes.isEmpty then none
  else (s.mapSporksCachedValues id).or (countVotes env.nMinSporkKeys [] votes)

/-- `GetSporkValue`. -/
def getSporkValue (s : SporkState) (id : Int) : Int :=
  if !env.isTestChain then 4070908800 else (env.sporkValueIfActive s id).getD (defaultValue id)

/-- `IsSporkActive` without other threads. -/
def isSporkActive (s : SporkState) (id : Int) : Bool :=
  s.mapSporksCachedActive id || decide (env.getSporkValue s id < s.time)

def acceptedSigner (now : Int) (spork : CSporkMessage) (s : SporkState) : Option Uint160 :=
  if spork.nTimeSigned > now + 2 * 60 * 60 then none
  else spork.signer.filter fun key => key ∈ env.setSporkPubKeyIDs ∧
    ¬(s.mapSporksActive spork.nSporkID key).any (·.nTimeSigned ≥ spork.nTimeSigned)

end SporkEnv

namespace SporkState

def setQuery (s : SporkState) (thread : Nat) (query : SporkQuery) : SporkState :=
  { s with queries := update s.queries thread query }

/-- A value that was counted is kept. -/
def evaluated (env : SporkEnv) (s : SporkState) (id : Int) : SporkState :=
  let counted := if env.isTestChain then env.sporkValueIfActive s id else none
  { s with
    mapSporksCachedValues :=
      update s.mapSporksCachedValues id (counted.or (s.mapSporksCachedValues id)) }

/-- A message is stored, and its caches are still there. -/
def store (s : SporkState) (spork : CSporkMessage) (key : Uint160) : SporkState :=
  { s with
    mapSporksActive := update s.mapSporksActive spork.nSporkID
      (update (s.mapSporksActive spork.nSporkID) key (some spork))
    stored := some spork.nSporkID }

/-- What an event does, or nothing if it cannot happen. The messages are locked from
the store until the caches are erased. -/
def runEvent (env : SporkEnv) (s : SporkState) : SporkEvent → Option SporkState
  | .look thread id =>
    if s.queries thread = .idle then
      some (if s.mapSporksCachedActive id then s else s.setQuery thread (.missed id))
    else none
  | .evaluate thread =>
    match s.queries thread, s.stored with
    | .missed id, none =>
      some ((s.evaluated env id).setQuery thread (.valued id (env.getSporkValue s id) false))
    | _, _ => none
  | .compare thread =>
    match s.queries thread with
    | .valued id v false =>
      some (s.setQuery thread (if v < s.time then .valued id v true else .idle))
    | _ => none
  | .fill thread =>
    match s.queries thread with
    | .valued id _ true => some ({ s with
        mapSporksCachedActive := update s.mapSporksCachedActive id true }.setQuery thread .idle)
    | _ => none
  | .processSpork now spork =>
    if s.stored = none then some ((env.acceptedSigner now spork s).elim s (s.store spork))
    else none
  | .updateSpork now id v =>
    if s.stored = none then
      some ((env.sporkPrivKey.filter (· ∈ env.setSporkPubKeyIDs)).elim s fun key =>
        s.store ⟨id, v, now, some key⟩ key)
    else none
  | .erase => s.stored.map fun id => { s with
      mapSporksCachedActive := update s.mapSporksCachedActive id false
      mapSporksCachedValues := update s.mapSporksCachedValues id none
      stored := none }
  | .tick time => some { s with time := time }

/-- A node that has started, with what `LoadCache` has read. -/
def start (loaded : Int → Uint160 → Option CSporkMessage) (time : Int) : SporkState :=
  ⟨loaded, fun _ => false, fun _ => none, time, none, fun _ => .idle⟩

/-- No message of a spork is stored while a thread has its value, and the time does
not go back. -/
def Orderly (s : SporkState) : SporkEvent → Prop
  | .processSpork _ spork => ∀ thread v ret, s.queries thread ≠ .valued spork.nSporkID v ret
  | .updateSpork _ id _ => ∀ thread v ret, s.queries thread ≠ .valued id v ret
  | .tick time => s.time ≤ time
  | _ => True

inductive Reach (env : SporkEnv) : SporkState → Prop where
  | start loaded time : Reach env (.start loaded time)
  | step {s s' : SporkState} {e : SporkEvent} : Reach env s → s.Orderly e →
      s.runEvent env e = some s' → Reach env s'

end SporkState

namespace SporkEnv

/-- Enough signers have this value. -/
def Agreed (env : SporkEnv) (signers : Uint160 → Option CSporkMessage) (v : Int) : Prop :=
  env.nMinSporkKeys ≤ (env.votes signers).count v

/-- The agreed value, or else the default. -/
def IsCurrent (env : SporkEnv) (s : SporkState) (id v : Int) : Prop :=
  env.Agreed (s.mapSporksActive id) v ∨
    (∀ w, ¬ env.Agreed (s.mapSporksActive id) w) ∧ v = defaultValue id

/-- What is cached is right unless it is about to be erased, and so is what threads
have seen. -/
structure Right (env : SporkEnv) (s : SporkState) : Prop where
  values : ∀ {id v}, s.mapSporksCachedValues id = some v → s.stored ≠ some id →
    env.Agreed (s.mapSporksActive id) v
  active : ∀ {id}, s.mapSporksCachedActive id = true → s.stored ≠ some id →
    ∃ v, env.IsCurrent s id v ∧ v < s.time
  held : ∀ {thread id v ret}, s.queries thread = .valued id v ret →
    env.IsCurrent s id v ∧ (ret = true → v < s.time)

variable {env : SporkEnv} {s s' : SporkState} {id v w : Int}

theorem count_add_count_le (hne : v ≠ w) : ∀ l : List Int, l.count v + l.count w ≤ l.length
  | [] => le_rfl
  | x :: l => by
    have ih := count_add_count_le hne l
    rw [count_cons, count_cons, length_cons]
    split_ifs with hv hw
    · exact absurd ((eq_of_beq hv).symm.trans (eq_of_beq hw)) hne
    all_goals omega

theorem agreed_unique {signers : Uint160 → Option CSporkMessage}
    (hv : env.Agreed signers v) (hw : env.Agreed signers w) : v = w := by
  by_contra hne
  have hsum := count_add_count_le hne (env.votes signers)
  have hlength : (env.votes signers).length ≤ env.setSporkPubKeyIDs.length :=
    length_filterMap_le _ _
  have hmajority := env.majority
  unfold Agreed at hv hw
  omega

theorem isCurrent_unique (hv : env.IsCurrent s id v) (hw : env.IsCurrent s id w) : v = w := by
  rcases hv with hv | ⟨hnone, rfl⟩ <;> rcases hw with hw | ⟨hnone', rfl⟩
  · exact agreed_unique hv hw
  · exact absurd hv (hnone' _)
  · exact absurd hw (hnone _)
  · rfl

theorem countVotes_eq_some {nMin : Nat} : ∀ {rest counted : List Int},
    countVotes nMin counted rest = some v → nMin ≤ counted.count v + rest.count v
  | x :: rest, counted, h => by
    rw [countVotes] at h
    split_ifs at h with henough
    · cases h
      rw [count_cons_self] at henough ⊢
      omega
    · have ih := countVotes_eq_some h
      rw [count_cons] at ih ⊢
      omega

theorem countVotes_eq_none {nMin : Nat} : ∀ {rest counted : List Int},
    countVotes nMin counted rest = none → counted.count v < nMin →
    counted.count v + rest.count v < nMin
  | [], _, _, hfew => hfew
  | x :: rest, counted, h, hfew => by
    rw [countVotes] at h
    split_ifs at h with henough
    have hnext : (x :: counted).count v < nMin := by
      by_cases hx : x = v
      · exact hx ▸ not_le.mp henough
      · rwa [count_cons_of_ne hx]
    have ih := countVotes_eq_none h hnext
    rw [count_cons] at ih ⊢
    omega

theorem Right.agreed_iff (hs : env.Right s) (hstored : s.stored ≠ some id) :
    env.sporkValueIfActive s id = some v ↔ env.Agreed (s.mapSporksActive id) v := by
  have hpos := env.majority
  have hsome {w : Int} (h : env.sporkValueIfActive s id = some w) :
      env.Agreed (s.mapSporksActive id) w := by
    simp only [sporkValueIfActive] at h
    split_ifs at h
    rcases Option.or_eq_some_iff.mp h with hcached | ⟨-, hcount⟩
    · exact hs.values hcached hstored
    · have henough := countVotes_eq_some hcount
      rwa [count_nil, Nat.zero_add] at henough
  refine ⟨hsome, fun hv => ?_⟩
  cases h : env.sporkValueIfActive s id with
  | some w => rw [agreed_unique (hsome h) hv]
  | none =>
    unfold Agreed at hv
    simp only [sporkValueIfActive] at h
    split_ifs at h with hempty
    · rw [isEmpty_iff.mp hempty, count_nil] at hv
      omega
    · have hfew := countVotes_eq_none (v := v) (Option.or_eq_none_iff.mp h).2
        (by rw [count_nil]; omega)
      rw [count_nil, Nat.zero_add] at hfew
      omega

theorem Right.isCurrent_getSporkValue (hs : env.Right s) (htest : env.isTestChain = true)
    (hstored : s.stored ≠ some id) : env.IsCurrent s id (env.getSporkValue s id) := by
  rw [getSporkValue, htest]
  cases h : env.sporkValueIfActive s id with
  | some v => exact .inl ((hs.agreed_iff hstored).mp h)
  | none =>
    refine .inr ⟨fun w hw => ?_, rfl⟩
    rw [(hs.agreed_iff hstored).mpr hw] at h
    cases h

theorem Right.setQuery (hs : env.Right s) {thread : Nat} {query : SporkQuery}
    (hquery : ∀ {id v ret}, query = .valued id v ret →
      env.IsCurrent s id v ∧ (ret = true → v < s.time)) : env.Right (s.setQuery thread query) where
  values := hs.values
  active := hs.active
  held {t} _ _ _ h := by
    have h : update s.queries thread query t = _ := h
    by_cases ht : t = thread
    · rw [ht, update_self] at h
      exact hquery h
    · rw [update_of_ne ht] at h
      exact hs.held h

theorem Right.store (hs : env.Right s) {spork : CSporkMessage} {key : Uint160}
    (hstored : s.stored = none)
    (hquery : ∀ thread v ret, s.queries thread ≠ .valued spork.nSporkID v ret) :
    env.Right (s.store spork key) := by
  have hframe {id : Int} (hne : id ≠ spork.nSporkID) :
      (s.store spork key).mapSporksActive id = s.mapSporksActive id := update_of_ne hne ..
  have hcurrent {id : Int} (hne : id ≠ spork.nSporkID) :
      env.IsCurrent (s.store spork key) id = env.IsCurrent s id := by
    funext v
    rw [IsCurrent, hframe hne, IsCurrent]
  refine ⟨fun hv hid => ?_, fun hid hne => ?_, fun {thread id v ret} h => ?_⟩
  · rw [hframe fun heq => hid (congrArg some heq.symm)]
    exact hs.values hv (by simp [hstored])
  · rw [hcurrent fun heq => hne (congrArg some heq.symm)]
    exact hs.active hid (by simp [hstored])
  · rw [hcurrent fun heq => hquery thread v ret (heq ▸ h)]
    exact hs.held h

theorem Right.step (hs : env.Right s) (htest : env.isTestChain = true) {e : SporkEvent}
    (horderly : s.Orderly e) (hstep : s.runEvent env e = some s') : env.Right s' := by
  unfold SporkState.runEvent at hstep
  cases e with
  | look thread id =>
    dsimp only at hstep
    split_ifs at hstep <;> cases hstep
    · exact hs
    · exact hs.setQuery fun h => by cases h
  | evaluate thread =>
    dsimp only at hstep
    split at hstep <;> cases hstep
    rename_i id _ hstored
    have hnone (id : Int) : s.stored ≠ some id := by simp [hstored]
    refine Right.setQuery (s := s.evaluated env id) ⟨fun {id' v} hv _ => ?_, hs.active, hs.held⟩ ?_
    · simp only [SporkState.evaluated, htest, if_true] at hv
      by_cases hid : id' = id
      · subst hid
        rw [update_self, Option.or_eq_some_iff] at hv
        rcases hv with hv | ⟨-, hv⟩
        · exact (hs.agreed_iff (hnone _)).mp hv
        · exact hs.values hv (hnone _)
      · rw [update_of_ne hid] at hv
        exact hs.values hv (hnone id')
    · intro _ _ _ h
      cases h
      exact ⟨hs.isCurrent_getSporkValue htest (hnone id), fun h => by cases h⟩
  | compare thread =>
    dsimp only at hstep
    split at hstep <;> cases hstep
    rename_i id v hvalued
    refine hs.setQuery fun h => ?_
    split_ifs at h with hlt
    cases h
    exact ⟨(hs.held hvalued).1, fun _ => hlt⟩
  | fill thread =>
    dsimp only at hstep
    split at hstep <;> cases hstep
    rename_i id v hvalued
    apply Right.setQuery
    · refine ⟨hs.values, fun {id'} hid' hne => ?_, hs.held⟩
      by_cases hid : id' = id
      · exact ⟨v, hid ▸ (hs.held hvalued).1, (hs.held hvalued).2 rfl⟩
      · exact hs.active ((update_of_ne hid true _).symm.trans hid') hne
    · intro _ _ _ h
      cases h
  | processSpork now spork =>
    dsimp only at hstep
    split_ifs at hstep with hstored
    cases hstep
    cases env.acceptedSigner now spork s with
    | none => exact hs
    | some key => exact hs.store hstored horderly
  | updateSpork now id v =>
    dsimp only at hstep
    split_ifs at hstep with hstored
    cases hstep
    cases env.sporkPrivKey.filter (· ∈ env.setSporkPubKeyIDs) with
    | none => exact hs
    | some key => exact hs.store hstored horderly
  | erase =>
    obtain ⟨id, hstored, rfl⟩ := Option.map_eq_some_iff.mp hstep
    have hother {id' : Int} (hid : id' ≠ id) : s.stored ≠ some id' := by
      rw [hstored]
      exact fun heq => hid (Option.some.inj heq).symm
    refine ⟨fun {id' v} hv _ => ?_, fun {id'} hactive _ => ?_, hs.held⟩
    · by_cases hid : id' = id
      · simp [hid] at hv
      · exact hs.values ((update_of_ne hid ..).symm.trans hv) (hother hid)
    · by_cases hid : id' = id
      · simp [hid] at hactive
      · exact hs.active ((update_of_ne hid ..).symm.trans hactive) (hother hid)
  | tick time =>
    cases hstep
    refine ⟨hs.values, fun hactive hne => ?_, fun h => ?_⟩
    · obtain ⟨v, hv, hlt⟩ := hs.active hactive hne
      exact ⟨v, hv, lt_of_lt_of_le hlt horderly⟩
    · obtain ⟨hv, hret⟩ := hs.held h
      exact ⟨hv, fun h => lt_of_lt_of_le (hret h) horderly⟩

theorem right_of_reach (htest : env.isTestChain = true) (h : s.Reach env) : env.Right s := by
  induction h with
  | start loaded time =>
    exact ⟨fun h _ => (Option.some_ne_none _ h.symm).elim, fun h _ => absurd h Bool.false_ne_true,
      fun h => by cases h⟩
  | step _ horderly hstep ih => exact ih.step htest horderly hstep

/-- On a test chain, after an orderly run and once the caches are erased, there is one
current value, and `IsSporkActive` says whether it is in the past. -/
theorem isSporkActive_of_orderly (htest : env.isTestChain = true) (h : s.Reach env)
    (hstored : s.stored = none) (id : Int) :
    ∃ v, (∀ w, env.IsCurrent s id w ↔ w = v) ∧ (env.isSporkActive s id = true ↔ v < s.time) := by
  have hs := right_of_reach htest h
  have hnone : s.stored ≠ some id := by simp [hstored]
  have hcurrent := hs.isCurrent_getSporkValue htest hnone
  refine ⟨env.getSporkValue s id, fun w => ⟨fun hw => isCurrent_unique hw hcurrent,
    fun hw => hw ▸ hcurrent⟩, ?_⟩
  rw [isSporkActive, Bool.or_eq_true, decide_eq_true_iff]
  refine ⟨fun h => ?_, .inr⟩
  rcases h with hactive | hlt
  · obtain ⟨v, hv, hlt⟩ := hs.active hactive hnone
    rwa [isCurrent_unique hcurrent hv]
  · exact hlt

/-- A test chain with one key. -/
def oneKeyEnv : SporkEnv := ⟨true, [7], 1, none, by simp, by simp⟩

def noSporks : Int → Uint160 → Option CSporkMessage := fun _ _ => none

/-- A spork is switched on since time 50, and a query caches that it is active. -/
def switchedOn : List SporkEvent :=
  [.processSpork 100 ⟨10001, 50, 1, some 7⟩, .erase, .look 0 10001, .evaluate 0, .compare 0,
    .fill 0]

/-- A later message moves the spork to time 1000. The answer that was cached before it
does not outlive it. -/
theorem isSporkActive_of_orderly_moved :
    ((switchedOn.foldlM (SporkState.runEvent oneKeyEnv) (.start noSporks 100)).map
      (SporkState.mapSporksCachedActive · 10001) = some true) ∧
    ∃ s, (switchedOn ++ [SporkEvent.processSpork 100 ⟨10001, 1000, 2, some 7⟩, .erase]).foldlM
        (SporkState.runEvent oneKeyEnv) (.start noSporks 100) = some s ∧
      (∃ v, (∀ w, oneKeyEnv.IsCurrent s 10001 w ↔ w = v) ∧
        (oneKeyEnv.isSporkActive s 10001 = true ↔ v < s.time)) ∧
      oneKeyEnv.votes (s.mapSporksActive 10001) = [1000] := by
  refine ⟨by decide +kernel, ?_⟩
  have hstart := @SporkState.Reach.start oneKeyEnv noSporks 100
  have hstored := (hstart.step (e := .processSpork 100 ⟨10001, 50, 1, some 7⟩)
    (fun _ _ _ h => nomatch h) rfl).step (e := .erase) trivial rfl
  have hvalued := (hstored.step (e := .look 0 10001) trivial rfl).step (e := .evaluate 0)
    trivial rfl
  have hfilled := (hvalued.step (e := .compare 0) trivial rfl).step (e := .fill 0) trivial rfl
  have hmoved := (hfilled.step (e := .processSpork 100 ⟨10001, 1000, 2, some 7⟩)
    (fun thread v ret h => by
      -- the only query has returned
      cases thread with
      | zero => exact nomatch h
      | succ thread => exact nomatch h) rfl).step (e := .erase) trivial rfl
  exact ⟨_, rfl, isSporkActive_of_orderly rfl hmoved rfl 10001, by decide +kernel⟩

/-- A query evaluates a spork that is on since time 50, a message moves it to time 1000,
and then the query fills the cache. At time 100 the spork is active. -/
theorem isSporkActive_stale :
    ([.processSpork 100 ⟨10001, 50, 1, some 7⟩, .erase, .look 0 10001, .evaluate 0, .compare 0,
      .processSpork 100 ⟨10001, 1000, 2, some 7⟩, .erase, .fill 0].foldlM
      (SporkState.runEvent oneKeyEnv) (.start noSporks 100)).map (fun s =>
        (s.queries 0, s.stored, s.time, oneKeyEnv.votes (s.mapSporksActive 10001),
          oneKeyEnv.isSporkActive s 10001)) = some (.idle, none, 100, [1000], true) := by
  decide +kernel

end SporkEnv

end KorshCore

import Mathlib.Data.List.Basic
import Mathlib.Data.List.Count
import Mathlib.Tactic.Ring

/-!
# Rounds over a ring, and a log of what they leave out

Entries stand on a ring of `n` positions, and groups of them are filled one
after the other. Visit `j` is at position `j % n`, and takes the entry there or
skips it. A trace says for each visit which.
-/

namespace CyclicLog

open List Option

/-! ## Traces -/

/-- The positions that a trace takes from visit `j` on. -/
def takes (n : ℕ) : ℕ → List Bool → List ℕ
  | _, [] => []
  | j, true :: t => j % n :: takes n (j + 1) t
  | j, false :: t => takes n (j + 1) t

def skips (n : ℕ) : ℕ → List Bool → List ℕ
  | _, [] => []
  | j, true :: t => skips n (j + 1) t
  | j, false :: t => j % n :: skips n (j + 1) t

/-- A trace that stops when it has taken `m` entries. -/
inductive Full : ℕ → List Bool → Prop where
  | done : Full 0 []
  | take {m : ℕ} {t : List Bool} : Full m t → Full (m + 1) (true :: t)
  | skip {m : ℕ} {t : List Bool} : Full (m + 1) t → Full (m + 1) (false :: t)

/-- The part of a trace up to the `m`-th take. -/
def upTo : ℕ → List Bool → List Bool
  | 0, _ => []
  | _, [] => []
  | m + 1, true :: t => true :: upTo m t
  | m + 1, false :: t => false :: upTo (m + 1) t

theorem full_upTo : ∀ {m : ℕ} {t : List Bool}, m ≤ t.count true → Full m (upTo m t)
  | 0, t, _ => by
    rw [upTo]
    exact .done
  | m + 1, [], h => by simp at h
  | m + 1, true :: t, h => by
    rw [count_cons_self] at h
    exact .take (full_upTo (by omega))
  | m + 1, false :: t, h => by
    exact .skip (full_upTo h)

theorem skips_append (n : ℕ) : ∀ (t u : List Bool) (j : ℕ),
    skips n j (t ++ u) = skips n j t ++ skips n (j + t.length) u
  | [], u, j => rfl
  | true :: t, u, j => by
    show skips n (j + 1) (t ++ u) = _
    rw [skips_append n t u (j + 1), Nat.add_right_comm]
    rfl
  | false :: t, u, j => by
    show j % n :: skips n (j + 1) (t ++ u) = _
    rw [skips_append n t u (j + 1), Nat.add_right_comm]
    rfl

variable {t : List Bool}

theorem Full.count {m : ℕ} (h : Full m t) : t.count true = m := by
  induction h with
  | done => rfl
  | take _ ih => rw [count_cons_self, ih]
  | skip _ ih => rw [count_cons_of_ne (by decide), ih]

theorem length_eq (n : ℕ) : ∀ (t : List Bool) (j : ℕ),
    t.length = t.count true + (skips n j t).length
  | [], _ => rfl
  | true :: t, j => by
    rw [count_cons_self, length_cons, length_eq n t (j + 1)]
    show _ = _ + (skips n (j + 1) t).length
    omega
  | false :: t, j => by
    rw [length_cons, length_eq n t (j + 1)]
    rfl

/-! ## No skip of an entry that was taken before -/

def nextSkip : List Bool → Option ℕ
  | [] => none
  | true :: t => (nextSkip t).map (· + 1)
  | false :: _ => some 0

/-- Between a take and the next skip there is less than a round. -/
def Safe (n : ℕ) (t : List Bool) : Prop :=
  ∀ u r, true :: u <:+ t → nextSkip u = some r → r + 1 < n

theorem Safe.tail {n : ℕ} {b : Bool} (h : Safe n (b :: t)) : Safe n t :=
  fun u r hu => h u r (hu.trans (suffix_cons b t))

theorem Safe.of_append {n : ℕ} {u : List Bool} (h : Safe n (t ++ u)) : Safe n u :=
  fun v r hv => h v r (hv.trans (suffix_append t u))

theorem skips_of_nextSkip {n : ℕ} : ∀ {t : List Bool} {j r : ℕ}, nextSkip t = some r →
    ∃ l, skips n j t = (j + r) % n :: l
  | true :: t, j, r, h => by
    obtain ⟨r', hr', rfl⟩ := map_eq_some_iff.mp h
    obtain ⟨l, hl⟩ := skips_of_nextSkip (n := n) (j := j + 1) hr'
    refine ⟨l, ?_⟩
    show skips n (j + 1) t = _
    rw [hl, add_assoc, add_comm 1 r']
  | false :: t, j, r, h => by
    cases h
    exact ⟨skips n (j + 1) t, rfl⟩

theorem skips_of_nextSkip_none {n : ℕ} : ∀ {t : List Bool} {j : ℕ}, nextSkip t = none →
    skips n j t = []
  | [], _, _ => rfl
  | true :: t, j, h => by
    show skips n (j + 1) t = []
    exact skips_of_nextSkip_none (map_eq_none_iff.mp h)

theorem count_of_nextSkip : ∀ {t : List Bool} {r : ℕ}, nextSkip t = some r →
    ∃ u, false :: u <:+ t ∧ t.count true = r + u.count true
  | true :: t, r, h => by
    obtain ⟨r', hr', rfl⟩ := map_eq_some_iff.mp h
    obtain ⟨u, hu, hcount⟩ := count_of_nextSkip hr'
    refine ⟨u, hu.trans (suffix_cons true t), ?_⟩
    rw [count_cons_self]
    omega
  | false :: t, r, h => by
    cases h
    refine ⟨t, suffix_rfl, ?_⟩
    rw [count_cons_of_ne (by decide)]
    omega

/-- After every skip there is a take. -/
def EndsTaking (t : List Bool) : Prop := ∀ u, false :: u <:+ t → true ∈ u

theorem EndsTaking.append {t' : List Bool} (h : EndsTaking t) (h' : EndsTaking t') :
    EndsTaking (t ++ t') := by
  rintro u ⟨v, hv⟩
  obtain ⟨w, ht, hw⟩ | ⟨w, -, hw⟩ := append_eq_append_iff.mp hv
  · cases w with
    | nil => exact h' u ⟨[], hw⟩
    | cons b w =>
      -- the skip is in the first trace
      obtain ⟨rfl, rfl⟩ := cons.inj hw
      exact mem_append_left t' (h w ⟨v, ht.symm⟩)
  · exact h' u ⟨w, hw.symm⟩

theorem Full.endsTaking {m : ℕ} (h : Full m t) : EndsTaking t := by
  induction h with
  | done => exact fun u hu => absurd (suffix_nil.mp hu) (by simp)
  | take _ ih =>
    intro u hu
    obtain heq | hu := suffix_cons_iff.mp hu
    · cases heq
    · exact ih u hu
  | skip hfull ih =>
    intro u hu
    obtain heq | hu := suffix_cons_iff.mp hu
    · cases heq
      have hpos := hfull.count
      exact count_pos_iff.mp (by omega)
    · exact ih u hu

theorem safe_of_count {n : ℕ} (hcount : t.count true ≤ n) (hends : EndsTaking t) : Safe n t := by
  intro u r hu hr
  obtain ⟨v, hv, hsum⟩ := count_of_nextSkip hr
  have htake : 0 < v.count true := count_pos_iff.mpr
    (hends v (hv.trans ((suffix_cons true u).trans hu)))
  have hle : (true :: u).count true ≤ t.count true := hu.sublist.count_le _
  rw [count_cons_self] at hle
  omega

theorem safe_flatten {n size : ℕ} {ts : List (List Bool)} (hfull : ∀ t ∈ ts, Full size t)
    (hcount : ts.length * size ≤ n) : Safe n ts.flatten := by
  have hall : ts.flatten.count true = ts.length * size ∧ EndsTaking ts.flatten := by
    clear hcount
    induction ts with
    | nil => exact ⟨by simp, Full.done.endsTaking⟩
    | cons t ts ih =>
      have ht := hfull t mem_cons_self
      obtain ⟨hsum, hends⟩ := ih fun u hu => hfull u (mem_cons_of_mem t hu)
      refine ⟨?_, ht.endsTaking.append hends⟩
      rw [flatten_cons, count_append, ht.count, hsum, length_cons]
      ring
  exact safe_of_count (by omega) hall.2

/-! ## Replaying -/

def next (n i : ℕ) : ℕ := if i + 1 = n then 0 else i + 1

theorem next_mod {n : ℕ} (hn : 0 < n) (j : ℕ) : next n (j % n) = (j + 1) % n := by
  have hlt := Nat.mod_lt j hn
  have hmod : (j + 1) % n = (j % n + 1) % n := by simp
  unfold next
  rw [hmod]
  split_ifs with heq
  · rw [heq, Nat.mod_self]
  · exact (Nat.mod_eq_of_lt (by omega)).symm

/-- Take `missing` entries from position `i` on, but not what comes next in the log.
The result has the positions, the position after them and the rest of the log. -/
def replay (n : ℕ) : (fuel missing i : ℕ) → (log : List ℤ) → List ℕ × ℕ × List ℤ
  | 0, _, i, log => ([], i, log)
  | _, 0, i, log => ([], i, log)
  | fuel + 1, missing + 1, i, [] =>
    let rest := replay n fuel missing (next n i) []
    (i :: rest.1, rest.2)
  | fuel + 1, missing + 1, i, s :: log =>
    if (i : ℤ) = s then replay n fuel (missing + 1) (next n i) log
    else
      let rest := replay n fuel missing (next n i) (s :: log)
      (i :: rest.1, rest.2)

/-- Fill groups of the same size. Each visit takes an entry or something from the
log, so there are not more visits than both have. -/
def replayAll (n size : ℕ) : (groups i : ℕ) → (log : List ℤ) → List (List ℕ)
  | 0, _, _ => []
  | groups + 1, i, log =>
    let group := replay n (size + log.length) size i log
    group.1 :: replayAll n size groups group.2.1 group.2.2

def log (n j : ℕ) (t : List Bool) : List ℤ := (skips n j t).map Nat.cast

def groupTakes (n : ℕ) : ℕ → List (List Bool) → List (List ℕ)
  | _, [] => []
  | j, t :: ts => takes n j t :: groupTakes n (j + t.length) ts

private theorem exists_fuel {b : Bool} {fuel : ℕ}
    (h : (b :: t).length ≤ fuel) : ∃ k, fuel = k + 1 :=
  ⟨fuel - 1, by rw [length_cons] at h; omega⟩

theorem Safe.ne_head {n j : ℕ} (hn : 0 < n) (h : Safe n (true :: t))
    {s : ℤ} {l : List ℤ} (hlog : log n (j + 1) t = s :: l) : ((j % n : ℕ) : ℤ) ≠ s := by
  cases hskip : nextSkip t with
  | none =>
    rw [log, skips_of_nextSkip_none hskip] at hlog
    cases hlog
  | some r =>
    obtain ⟨l', hl'⟩ := skips_of_nextSkip (n := n) (j := j + 1) hskip
    rw [log, hl'] at hlog
    obtain ⟨rfl, -⟩ := cons.inj hlog
    have hr := h t r suffix_rfl hskip
    intro heq
    -- less than a round lies between the two visits
    have hmod : (j + 1 + r) % n = j % n := (Nat.cast_injective heq).symm
    have hdvd : n ∣ j + 1 + r - j := Nat.dvd_of_mod_eq_zero (Nat.sub_mod_eq_zero_of_mod_eq hmod)
    have hle := Nat.le_of_dvd (by omega) hdvd
    omega

theorem replay_take {n fuel m j : ℕ} (hn : 0 < n) {entries : List ℤ}
    (hne : ∀ {s l}, entries = s :: l → ((j % n : ℕ) : ℤ) ≠ s) :
    replay n (fuel + 1) (m + 1) (j % n) entries
      = (j % n :: (replay n fuel m ((j + 1) % n) entries).1,
        (replay n fuel m ((j + 1) % n) entries).2) := by
  rw [← next_mod hn]
  cases entries with
  | nil => rfl
  | cons s l => exact if_neg (hne rfl)

theorem replay_log {n : ℕ} (hn : 0 < n) {m : ℕ} (hfull : Full m t) :
    ∀ {fuel j : ℕ} {u : List Bool}, t.length ≤ fuel → Safe n (t ++ u) →
    replay n fuel m (j % n) (log n j (t ++ u))
      = (takes n j t, (j + t.length) % n, log n (j + t.length) u) := by
  induction hfull with
  | done =>
    intro fuel j u _ _
    cases fuel with
    | zero => rfl
    | succ fuel => rfl
  | @take m t _ ih =>
    intro fuel j u hfuel hsafe
    obtain ⟨fuel, rfl⟩ := exists_fuel hfuel
    have hrest : replay n fuel m ((j + 1) % n) (log n (j + 1) (t ++ u)) = _ :=
      ih (by simpa using hfuel) hsafe.tail
    have hstep : replay n (fuel + 1) (m + 1) (j % n) (log n (j + 1) (t ++ u))
        = (j % n :: (replay n fuel m ((j + 1) % n) (log n (j + 1) (t ++ u))).1,
          (replay n fuel m ((j + 1) % n) (log n (j + 1) (t ++ u))).2) :=
      replay_take hn (hsafe.ne_head hn)
    show replay n (fuel + 1) (m + 1) (j % n) (log n (j + 1) (t ++ u)) = _
    rw [hstep, hrest, add_assoc, add_comm 1]
    rfl
  | @skip m t _ ih =>
    intro fuel j u hfuel hsafe
    obtain ⟨fuel, rfl⟩ := exists_fuel hfuel
    have hrest : replay n fuel (m + 1) ((j + 1) % n) (log n (j + 1) (t ++ u)) = _ :=
      ih (by simpa using hfuel) hsafe.tail
    have hstep : replay n (fuel + 1) (m + 1) (j % n) (log n j (false :: (t ++ u)))
        = replay n fuel (m + 1) (next n (j % n)) (log n (j + 1) (t ++ u)) := if_pos rfl
    show replay n (fuel + 1) (m + 1) (j % n) (log n j (false :: (t ++ u))) = _
    rw [hstep, next_mod hn, hrest, add_assoc, add_comm 1]
    rfl

theorem replayAll_log {n size : ℕ} (hn : 0 < n) : ∀ {ts : List (List Bool)} {j : ℕ},
    (∀ t ∈ ts, Full size t) → Safe n ts.flatten →
    replayAll n size ts.length (j % n) (log n j ts.flatten) = groupTakes n j ts
  | [], _, _, _ => rfl
  | t :: ts, j, hfull, hsafe => by
    have ht := hfull t mem_cons_self
    have hfuel : t.length ≤ size + (log n j (t ++ ts.flatten)).length := by
      rw [length_eq n t j, ht.count, log, length_map, skips_append, length_append]
      omega
    have hgroup := replay_log (j := j) hn ht hfuel hsafe
    have hrest : replayAll n size ts.length ((j + t.length) % n)
        (log n (j + t.length) ts.flatten) = _ :=
      replayAll_log hn (fun u hu => hfull u (mem_cons_of_mem t hu)) hsafe.of_append
    rw [length_cons, flatten_cons, replayAll, hgroup]
    rw [hrest]
    rfl

theorem length_replay_le (n : ℕ) : ∀ (fuel missing i : ℕ) (entries : List ℤ),
    (replay n fuel missing i entries).1.length ≤ missing
  | 0, _, _, _ => by simp [replay]
  | _ + 1, 0, _, _ => by simp [replay]
  | fuel + 1, missing + 1, i, [] => by
    have ih := length_replay_le n fuel missing (next n i) []
    simpa [replay] using ih
  | fuel + 1, missing + 1, i, s :: l => by
    unfold replay
    by_cases hs : (i : ℤ) = s
    · rw [if_pos hs]
      exact length_replay_le n fuel (missing + 1) (next n i) l
    · rw [if_neg hs]
      have ih := length_replay_le n fuel missing (next n i) (s :: l)
      simpa using ih

theorem length_replayAll_le {n size : ℕ} : ∀ {groups i : ℕ} {entries : List ℤ} {l : List ℕ},
    l ∈ replayAll n size groups i entries → l.length ≤ size
  | groups + 1, i, entries, l, h => by
    obtain rfl | h := mem_cons.mp h
    · exact length_replay_le n _ size i entries
    · exact length_replayAll_le h

/-- Positions as distances from the first positive one. -/
def encode : (first : ℕ) → List ℕ → List ℤ
  | _, [] => []
  | first, p :: ps =>
    if first = 0 then p :: encode p ps else (p - first : ℤ) :: encode first ps

def decode : (first : ℤ) → List ℤ → List ℤ
  | _, [] => []
  | first, s :: l =>
    if first = 0 then s :: decode s l else (first + s) :: decode first l

theorem decode_encode : ∀ (ps : List ℕ) (first : ℕ),
    decode first (encode first ps) = ps.map Nat.cast
  | [], _ => rfl
  | p :: ps, first => by
    rw [encode, map_cons]
    by_cases hfirst : first = 0
    · rw [if_pos hfirst, decode, if_pos (by omega), decode_encode ps p]
    · rw [if_neg hfirst, decode, if_neg (by omega), decode_encode ps first]
      congr 1
      omega

end CyclicLog

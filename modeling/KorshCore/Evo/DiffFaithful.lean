import KorshCore.Evo.DiffProgress
import KorshCore.Evo.RebuildBlock
import Mathlib.Data.List.Induction

/-!
# The stored difference of a block

The node stores for each block the difference between the masternode list
before it and after it, and later applies it to the list before. Here is
when this gives back the list that was computed from the block.
-/

namespace KorshCore

open Holdings Except CDeterministicMN List Option ProTxVersion Function

namespace CDeterministicMNList

theorem countAfter_concat (ids : List Nat) (id count : Nat) :
    countAfter (ids ++ [id]) count = max (id + 1) (countAfter ids count) % 2 ^ 32 :=
  foldl_append

theorem countAfter_lt {count : Nat} (h : count < 2 ^ 32) (ids : List Nat) :
    countAfter ids count < 2 ^ 32 := by
  induction ids using reverseRecOn with
  | nil => exact h
  | append_singleton ids id _ =>
    rw [countAfter_concat]
    exact Nat.mod_lt _ (Nat.two_pow_pos 32)

theorem countAfter_sorted {count : Nat} (hcount : count < 2 ^ 32) :
    ∀ {ids : List Nat} {id : Nat}, (ids ++ [id]).Pairwise (· ≤ ·) →
    (∀ x ∈ ids ++ [id], x < 2 ^ 32) →
    countAfter (ids ++ [id]) count = max (id + 1) count % 2 ^ 32 := by
  intro ids
  induction ids using reverseRecOn with
  | nil => intro id _ _; rfl
  | append_singleton ids m ih =>
    intro id hsorted hlt
    have hprefix := (pairwise_append.mp hsorted).1
    have hle : m ≤ id := (pairwise_append.mp hsorted).2.2 m (by simp) id (by simp)
    rw [countAfter_concat, ih hprefix fun x hx =>
      hlt x (mem_append_left _ hx)]
    omega

theorem countAfter_eq_iff {count k : Nat} (hcount : count < 2 ^ 32)
    (hk : k < 2 ^ 32) {ids : List Nat} (hsorted : ids.Pairwise (· ≤ ·))
    (hids : ∀ id ∈ ids, ∃ i < k, id = (count + i) % 2 ^ 32) :
    countAfter ids count = (count + k) % 2 ^ 32 ↔
      k = 0 ∨ count + k ≤ 2 ^ 32 ∧ (count + (k - 1)) % 2 ^ 32 ∈ ids := by
  rcases eq_nil_or_concat' ids with rfl | ⟨front, m, rfl⟩
  · show count = _ ↔ _
    simp only [not_mem_nil, and_false, or_false]
    omega
  · have hlt : ∀ x ∈ front ++ [m], x < 2 ^ 32 := by
      intro x hx
      obtain ⟨i, _, rfl⟩ := hids x hx
      exact Nat.mod_lt _ (Nat.two_pow_pos 32)
    rw [countAfter_sorted hcount hsorted hlt]
    obtain ⟨i, hi, hm⟩ := hids m (by simp)
    -- the last id is the largest
    have hmax : ∀ x ∈ front ++ [m], x ≤ m := by
      intro x hx
      rcases mem_append.mp hx with hx | hx
      · exact (pairwise_append.mp hsorted).2.2 x hx m (by simp)
      · exact Nat.le_of_eq (mem_singleton.mp hx)
    have hmem : count + k ≤ 2 ^ 32 → ((count + (k - 1)) % 2 ^ 32 ∈ front ++ [m] ↔ i = k - 1) := by
      intro hfit
      constructor
      · intro hlast
        have := hmax _ hlast
        omega
      · rintro rfl
        exact hm ▸ (by simp)
    constructor
    · intro heq
      right
      have hfit : count + k ≤ 2 ^ 32 := by omega
      exact ⟨hfit, (hmem hfit).mpr (by omega)⟩
    · rintro (rfl | ⟨hfit, hlast⟩)
      · omega
      · have := (hmem hfit).mp hlast
        omega

/-! ## Chains of blocks -/

variable {H : Type} [DecidableEq H]

/-- The list `l'` is computed from `l` and a block whose special transactions
pass their checks against `l`. -/
structure Accepted (hash : UniqueProperty → H) (env : ProTxEnv)
    (ctx : BlockContext) (block : CBlock) (l l' : CDeterministicMNList H) : Prop where
  checks : ∀ tx ∈ block.vtx, checkSpecialTx hash env ctx l tx = .ok ()
  rebuilt : rebuildListFromBlock hash env ctx block l = .ok l'

/-- `SetBlockHash`, which the caller of the rebuild does. -/
def setBlockHash (l : CDeterministicMNList H) (blockHash : Uint256) : CDeterministicMNList H :=
  { l with blockHash := blockHash }

def chainTxs (blocks : List (BlockContext × CBlock)) : List CTransaction :=
  blocks.flatMap fun b => b.2.vtx

/-- The lists after the accepted blocks `blocks`, of which the last one comes
first. A list may also come from applying a difference, and its maps may be
in any order. -/
inductive ChainList (hash : UniqueProperty → H) (env : ProTxEnv) :
    List (BlockContext × CBlock) → CDeterministicMNList H → Prop where
  | empty : ChainList hash env [] .empty
  | initial (blockHash : Uint256) (nHeight : Int) : ChainList hash env [] (make blockHash nHeight 0)
  | rebuilt {blocks l l'} (ctx : BlockContext) (block : CBlock) :
      ChainList hash env blocks l → Accepted hash env ctx block l l' →
      ChainList hash env ((ctx, block) :: blocks) (l'.setBlockHash block.hash)
  | applied {blocks l l' l₂ diff r} (ctx : BlockContext) (block : CBlock) :
      ChainList hash env blocks l → Accepted hash env ctx block l l' →
      SameList l' l₂ → SameDiff (l.buildDiff l₂) diff →
      applyDiff hash block.hash ctx.nHeight diff l = .ok r →
      ChainList hash env ((ctx, block) :: blocks) r
  | reordered {blocks l l₂} : ChainList hash env blocks l → SameList l l₂ →
      ChainList hash env blocks l₂

variable {hash : UniqueProperty → H} {env : ProTxEnv} {ctx : BlockContext}
  {block : CBlock} {blocks : List (BlockContext × CBlock)} {l l' : CDeterministicMNList H}

structure ChainSound (hash : UniqueProperty → H) (env : ProTxEnv)
    (txs : List CTransaction) (l : CDeterministicMNList H) : Prop where
  indexed : l.Indexed hash
  listable : ∀ {p a}, l.getMN p = some a → a.Listable
  count : l.nTotalRegisteredCount < 2 ^ 32
  registered : ∀ {p a}, l.getMN p = some a → ∃ tx ∈ txs, ∃ ptx,
    env.getHash tx = p ∧ env.proRegTx tx = some ptx ∧ a.pdmnState.keyIDOwner = ptx.keyIDOwner

theorem chainSound_make (blockHash : Uint256) (nHeight : Int) :
    ChainSound hash env [] (make blockHash nHeight 0) where
  indexed := indexed_make blockHash nHeight 0
  listable h := by cases h
  count := Nat.two_pow_pos 32
  registered h := by cases h

variable {l₂ : CDeterministicMNList H}

theorem ChainSound.congr {txs : List CTransaction} (h : ChainSound hash env txs l)
    (hsame : SameList l l₂) :
    ChainSound hash env txs l₂ where
  indexed := hsame.indexed h.indexed
  listable ha := h.listable (hsame.mns _ ▸ ha)
  count := hsame.count ▸ h.count
  registered ha := h.registered (hsame.mns _ ▸ ha)

def DistinctHashes (env : ProTxEnv) (txs : List CTransaction) : Prop :=
  Set.InjOn env.getHash {tx | tx ∈ txs}

section Block

variable {txs : List CTransaction} (h : ChainSound hash env txs l)
  (hinj : Injective hash) (hdistinct : DistinctHashes env (block.vtx ++ txs))
  (haccepted : Accepted hash env ctx block l l')

theorem Accepted.proRegChecked (haccepted : Accepted hash env ctx block l l')
    (hl : l.Indexed hash) (hinj : Injective hash) {tx : CTransaction}
    (htx : tx ∈ block.withoutCoinbase) (hreg : isRegistration tx = true) :
    ∃ ptx, ProRegChecked env ctx l tx ptx := by
  have hcheck := haccepted.checks tx (mem_of_mem_tail htx)
  rw [isRegistration, Bool.and_eq_true, beq_iff_eq] at hreg
  have hchecked := checkSpecialTx_special hreg.1 (by rw [hreg.2]; decide) hcheck
  rw [if_pos hreg.2] at hchecked
  exact checkProRegTx_eq_ok hl hinj hchecked

include h hinj hdistinct haccepted

theorem ChainSound.fresh {tx : CTransaction} (htx : tx ∈ block.withoutCoinbase)
    (hreg : isRegistration tx = true) : l.getMN (env.getHash tx) = none := by
  refine eq_none_iff_forall_ne_some.mpr fun a ha => ?_
  obtain ⟨ptx, hptx⟩ := haccepted.proRegChecked h.indexed hinj htx hreg
  obtain ⟨tx', htx', ptx', hhash, hpayload, howner⟩ := h.registered ha
  obtain rfl := hdistinct (mem_append_right _ htx') (mem_append_left _ (mem_of_mem_tail htx)) hhash
  cases hptx.payload.symm.trans hpayload
  refine hptx.owner a ⟨?_, howner ▸ (h.listable ha).owner_mem⟩
  rw [h.indexed.key ha]
  exact ha

theorem ChainSound.rebuildable : Rebuildable hash env ctx block l where
  indexed := h.indexed
  injective := hinj
  listable := h.listable
  count := h.count
  checks tx htx := haccepted.checks tx (mem_of_mem_tail htx)
  fresh _ htx hreg := h.fresh hinj hdistinct haccepted htx hreg

theorem ChainSound.rebuilding : Rebuilding hash env ctx l block.withoutCoinbase
    (spentOutpoints block.withoutCoinbase) l' :=
  (h.rebuildable hinj hdistinct haccepted).rebuilding haccepted.rebuilt

theorem ChainSound.follows : Follows hash l l' := by
  have hrebuilding := h.rebuilding hinj hdistinct haccepted
  exact ⟨h.indexed, hrebuilding.indexed, h.listable, hrebuilding.listable,
    fun ha hb => (hrebuilding.old ha hb).same, hrebuilding.apart⟩

theorem ChainSound.rebuilt : ChainSound hash env (block.vtx ++ txs) l' := by
  have hrebuilding := h.rebuilding hinj hdistinct haccepted
  refine ⟨hrebuilding.indexed, hrebuilding.listable, ?_, ?_⟩
  · rw [hrebuilding.count]
    exact Nat.mod_lt _ (Nat.two_pow_pos 32)
  · intro p b hb
    cases ha : l.getMN p with
    | some a =>
      obtain ⟨tx, htx, ptx, hhash, hpayload, howner⟩ := h.registered ha
      exact ⟨tx, mem_append_right _ htx, ptx, hhash, hpayload,
        (hrebuilding.old ha hb).owner.trans howner⟩
    | none =>
      obtain ⟨i, ⟨tx, ptx, htx, hpayload, hhash, _, howner⟩, _⟩ := hrebuilding.new ha hb
      have hmem := mem_of_mem_tail (mem_of_mem_filter (mem_of_getElem? htx))
      exact ⟨tx, mem_append_left _ hmem, ptx, hhash.symm, hpayload, howner⟩

theorem ChainSound.applied {r : CDeterministicMNList H}
    (hsame : SameList l' l₂) {diff : CDeterministicMNListDiff}
    (hdiff : SameDiff (l.buildDiff l₂) diff)
    (hr : applyDiff hash block.hash ctx.nHeight diff l = .ok r) :
    ChainSound hash env (block.vtx ++ txs) r := by
  have hfollows := (h.follows hinj hdistinct haccepted).congr hsame
  have hsound := (h.rebuilt hinj hdistinct haccepted).congr hsame
  obtain ⟨r', hr', hindexed, _, _, hcount, hget⟩ :=
    hfollows.applyDiff hinj hdiff block.hash ctx.nHeight
  cases hr.symm.trans hr'
  -- a target differs from the computed masternode in the operator key only
  have htarget : ∀ {p c}, r.getMN p = some c → ∃ b, l₂.getMN p = some b ∧
      c.collateralOutpoint = b.collateralOutpoint ∧
      c.pdmnState.netInfo = b.pdmnState.netInfo ∧
      c.pdmnState.keyIDOwner = b.pdmnState.keyIDOwner := by
    intro p c hc
    rw [hget] at hc
    obtain ⟨b, hb, rfl⟩ := map_eq_some_iff.mp hc
    refine ⟨b, hb, ?_⟩
    cases ha : l.getMN p with
    | none => exact ⟨rfl, rfl, rfl⟩
    | some a =>
      rw [map_some, targetMN_eq (hfollows.same ha hb)]
      exact ⟨rfl, rfl, rfl⟩
  refine ⟨hindexed, ?_, ?_, ?_⟩
  · intro p c hc
    obtain ⟨b, hb, hcollateral, hinfo, howner⟩ := htarget hc
    have hlistable := hsound.listable hb
    exact ⟨hcollateral ▸ hlistable.collateral, hinfo ▸ hlistable.netInfo, howner ▸ hlistable.owner⟩
  · rw [hcount]
    exact countAfter_lt h.count _
  · intro p c hc
    obtain ⟨b, hb, _, _, howner⟩ := htarget hc
    rw [howner]
    exact hsound.registered hb

end Block

theorem DistinctHashes.tail {txs txs' : List CTransaction}
    (h : DistinctHashes env (txs ++ txs')) : DistinctHashes env txs' :=
  Set.InjOn.mono (fun _ htx => mem_append_right txs htx) h

theorem ChainList.sound (h : ChainList hash env blocks l)
    (hinj : Injective hash) (hdistinct : DistinctHashes env (chainTxs blocks)) :
    ChainSound hash env (chainTxs blocks) l := by
  induction h with
  | empty => exact chainSound_make 0 (-1)
  | initial blockHash nHeight => exact chainSound_make blockHash nHeight
  | rebuilt ctx block _ haccepted ih =>
    have hsound := (ih hdistinct.tail).rebuilt hinj hdistinct haccepted
    exact ⟨hsound.indexed.setHeader _ _, hsound.listable, hsound.count, hsound.registered⟩
  | applied ctx block _ haccepted hsame hdiff hr ih =>
    exact (ih hdistinct.tail).applied hinj hdistinct haccepted hsame hdiff hr
  | reordered _ hsame ih => exact (ih hdistinct).congr hsame

/-! ## When the difference gives back the list -/

/-- The last masternode that the block registers is not removed by it, and
the counter does not wrap. -/
def KeepsCounter (env : ProTxEnv) (block : CBlock) (l : CDeterministicMNList H) : Prop :=
  let txs := block.withoutCoinbase
  registrations txs = [] ∨ l.nTotalRegisteredCount + (registrations txs).length ≤ 2 ^ 32 ∧
    ∀ tx o, (registrations txs).getLast? = some tx → pledge env tx = some o → o ∉ spentOutpoints txs

/-- A masternode that the block does not remove has not the same operator key
in the other scheme after the registrar updates and revocations of the
block. -/
def KeepsSchemes (env : ProTxEnv) (block : CBlock) (l : CDeterministicMNList H) : Prop :=
  let txs := block.withoutCoinbase
  ∀ p a, l.getMN p = some a → (∀ tx ∈ txs, pledge env tx ≠ some a.collateralOutpoint) →
    a.collateralOutpoint ∉ spentOutpoints txs →
    let key := keyAfter env p a.pdmnState.pubKeyOperator txs
    sameKey a.pdmnState.pubKeyOperator key = true → a.pdmnState.pubKeyOperator = key

theorem SameList.ids_addedMNs (h : SameList l' l₂) (hl' : l'.Indexed hash) :
    (l.buildDiff l₂).addedMNs.map internalId = (l.buildDiff l').addedMNs.map internalId := by
  have hl₂ := h.indexed hl'
  have hperm : (l.buildDiff l₂).addedMNs.Perm (l.buildDiff l').addedMNs := by
    refine (perm_ext_iff_of_nodup ((nodup_addedMNs hl₂).of_map _)
      ((nodup_addedMNs hl').of_map _)).mpr fun dmn => ?_
    rw [mem_addedMNs hl₂, mem_addedMNs hl', h.mns]
  exact (hperm.map _).eq_of_pairwise' (sorted_addedMNs l l₂) (sorted_addedMNs l l')

structure Faithful (env : ProTxEnv) (block : CBlock) (l : CDeterministicMNList H) : Prop where
  counter : KeepsCounter env block l
  schemes : KeepsSchemes env block l

theorem length_registrations_lt (hlength : block.vtx.length < 2 ^ 32) :
    (registrations block.withoutCoinbase).length < 2 ^ 32 := by
  have hfilter := List.length_filter_le isRegistration block.withoutCoinbase
  have htail : block.withoutCoinbase.length = block.vtx.length - 1 := List.length_tail
  unfold registrations
  omega

section Faithful

variable {txs : List CTransaction} (h : ChainSound hash env txs l)
  (hinj : Injective hash) (hdistinct : DistinctHashes env (block.vtx ++ txs))
  (haccepted : Accepted hash env ctx block l l')

include h hinj hdistinct haccepted

theorem mem_ids_addedMNs_iff {tx : CTransaction} {o : COutPoint}
    (hlength : block.vtx.length < 2 ^ 32)
    (htx : (registrations block.withoutCoinbase).getLast? = some tx) (ho : pledge env tx = some o) :
    (l.nTotalRegisteredCount + ((registrations block.withoutCoinbase).length - 1))
        % 2 ^ 32 ∈ (l.buildDiff l').addedMNs.map internalId ↔
      o ∉ spentOutpoints block.withoutCoinbase := by
  have hrebuilding := h.rebuilding hinj hdistinct haccepted
  have hshort := length_registrations_lt hlength
  obtain ⟨hmem, hreg⟩ := List.mem_filter.mp (List.mem_of_getLast? htx)
  have hfresh := h.fresh hinj hdistinct haccepted hmem hreg
  rw [List.mem_map]
  rcases hrebuilding.last tx o htx ho with ⟨hspent, hnone⟩ | ⟨hspent, b, hb, _, hid⟩
  · refine ⟨?_, fun hnot => absurd hspent hnot⟩
    rintro ⟨dmn, hdmn, hid⟩
    obtain ⟨hlisted, hnew⟩ := (mem_addedMNs hrebuilding.indexed).mp hdmn
    obtain ⟨i, ⟨tx', _, htx', _, hhash, _⟩, hid'⟩ := hrebuilding.new hnew hlisted
    obtain ⟨hi, hget⟩ := List.getElem?_eq_some_iff.mp htx'
    -- only the last registration has this number
    have hlast : i = (registrations block.withoutCoinbase).length - 1 := by
      omega
    rw [List.getLast?_eq_getElem?, ← hlast, htx'] at htx
    cases htx
    rw [hhash, hnone] at hlisted
    cases hlisted
  · refine ⟨fun _ => hspent, fun _ => ⟨b, ?_, hid⟩⟩
    rw [mem_addedMNs hrebuilding.indexed, hrebuilding.indexed.key hb]
    exact ⟨hb, hfresh⟩

theorem countAfter_addedMNs_iff (hlength : block.vtx.length < 2 ^ 32) :
    countAfter ((l.buildDiff l').addedMNs.map internalId)
        l.nTotalRegisteredCount = l'.nTotalRegisteredCount ↔ KeepsCounter env block l := by
  have hrebuilding := h.rebuilding hinj hdistinct haccepted
  have hshort := length_registrations_lt hlength
  rw [hrebuilding.count, countAfter_eq_iff h.count hshort (sorted_addedMNs l l') (fun id hid => by
      obtain ⟨dmn, hdmn, rfl⟩ := List.mem_map.mp hid
      obtain ⟨hlisted, hnew⟩ := (mem_addedMNs hrebuilding.indexed).mp hdmn
      obtain ⟨i, ⟨_, _, htx, _⟩, hid⟩ := hrebuilding.new hnew hlisted
      exact ⟨i, (List.getElem?_eq_some_iff.mp htx).1, hid⟩)]
  unfold KeepsCounter
  rw [List.length_eq_zero_iff]
  by_cases hnone : registrations block.withoutCoinbase = []
  · simp only [hnone, true_or]
  · refine or_congr_right (and_congr_right fun _ => ?_)
    obtain ⟨tx, htx⟩ := isSome_iff_exists.mp (List.getLast?_isSome.mpr hnone)
    obtain ⟨hmem, hreg⟩ := List.mem_filter.mp (List.mem_of_getLast? htx)
    obtain ⟨ptx, hptx⟩ := haccepted.proRegChecked h.indexed hinj hmem hreg
    have ho : pledge env tx = some (collateralOf env tx ptx) := by
      rw [pledge, if_pos hreg, hptx.payload]
      rfl
    rw [mem_ids_addedMNs_iff h hinj hdistinct haccepted hlength htx ho]
    constructor
    · intro hspent tx' o' htx' ho'
      cases htx.symm.trans htx'
      cases ho.symm.trans ho'
      exact hspent
    · intro hall
      exact hall tx _ htx ho

theorem target_eq_iff : (∀ p, l.target l' p = l'.getMN p) ↔ KeepsSchemes env block l := by
  have hrebuilding := h.rebuilding hinj hdistinct haccepted
  have hsame : ∀ {p a b}, l.getMN p = some a → l'.getMN p = some b → (l.target l' p = l'.getMN p ↔
        (sameKey a.pdmnState.pubKeyOperator b.pdmnState.pubKeyOperator = true →
          a.pdmnState.pubKeyOperator = b.pdmnState.pubKeyOperator)) := by
    intro p a b ha hb
    rw [target, ha, hb, map_some, map_some, getD_some,
      targetMN_eq (hrebuilding.old ha hb).same, some.injEq,
      ← CDeterministicMNStateDiff.keptKey_eq_right_iff]
    constructor
    · intro heq
      exact congrArg (fun dmn => dmn.pdmnState.pubKeyOperator) heq
    · intro hkey
      rw [hkey]
  constructor
  · intro hall p a ha hpledged hspent
    obtain ⟨b, hb⟩ := isSome_iff_exists.mp ((hrebuilding.stays ha).mpr ⟨hpledged, hspent⟩)
    rw [← (hrebuilding.old ha hb).operator]
    exact (hsame ha hb).mp (hall p)
  · intro hkeeps p
    cases hb : l'.getMN p with
    | none => rw [target, hb]; rfl
    | some b =>
      cases ha : l.getMN p with
      | none => rw [target, hb, ha]; rfl
      | some a =>
        have hstays := (hrebuilding.stays ha).mp (by rw [hb]; rfl)
        have hkey := hkeeps p a ha hstays.1 hstays.2
        rw [← (hrebuilding.old ha hb).operator] at hkey
        rw [← hb]
        exact (hsame ha hb).mpr hkey

end Faithful

/-- For every list of a chain and every further accepted block, applying the
difference to the list before gives the computed list in every field, in
every order of its containers, if and only if the block is faithful. -/
theorem applyDiff_buildDiff_iff {H : Type} [DecidableEq H]
    {hash : UniqueProperty → H} (hinj : Injective hash)
    {env : ProTxEnv} {ctx : BlockContext} {block : CBlock}
    {blocks : List (BlockContext × CBlock)} {l l' : CDeterministicMNList H}
    (hchain : ChainList hash env blocks l)
    (hdistinct : DistinctHashes env (chainTxs ((ctx, block) :: blocks)))
    (hlength : block.vtx.length < 2 ^ 32) (haccepted : Accepted hash env ctx block l l') :
    (∀ l₂ diff, SameList l' l₂ → SameDiff (l.buildDiff l₂) diff →
      ∃ r, applyDiff hash block.hash ctx.nHeight diff l = .ok r ∧
        SameList (l'.setBlockHash block.hash) r) ↔ Faithful env block l := by
  have hsound := hchain.sound hinj hdistinct.tail
  have hrebuilding := hsound.rebuilding hinj hdistinct haccepted
  have hcount := countAfter_addedMNs_iff hsound hinj hdistinct haccepted hlength
  have htarget := target_eq_iff hsound hinj hdistinct haccepted
  constructor
  · intro hall
    obtain ⟨r, hr, hsame⟩ := hall l' _ (.refl l') (.refl _)
    obtain ⟨r', hr', _, _, _, hcount', hget⟩ := (hsound.follows hinj hdistinct
      haccepted).applyDiff hinj (.refl _) block.hash ctx.nHeight
    cases hr.symm.trans hr'
    exact ⟨hcount.mp (hcount'.symm.trans hsame.count),
      htarget.mp fun p => (hget p).symm.trans (hsame.mns p)⟩
  · intro hfaithful l₂ diff hsame hdiff
    obtain ⟨r, hr, hindexed, hblock, hheight, hcount', hget⟩ :=
      ((hsound.follows hinj hdistinct haccepted).congr hsame).applyDiff hinj hdiff
        block.hash ctx.nHeight
    refine ⟨r, hr, (hrebuilding.indexed.setHeader block.hash _).sameList hindexed
      ⟨hblock, hheight.trans hrebuilding.header.2.symm⟩ ?_ fun p => ?_⟩
    · rw [hcount', hsame.ids_addedMNs hrebuilding.indexed]
      exact hcount.mpr hfaithful.counter
    · have htarget' := htarget.mpr hfaithful.schemes p
      rw [hget, target, hsame.mns]
      exact htarget'

/-! ## A chain with one masternode -/

def sampleTx (nType : Nat) (id : UInt8) : CTransaction where
  vin := []
  vout := [⟨1500 * coin, []⟩]
  nVersion := 3
  nType := nType
  nLockTime := 0
  sapData := ⟨0, [], [], []⟩
  vExtraPayload := [id]

def sampleScript : List UInt8 :=
  [0x76, 0xa9, 0x14] ++ List.replicate 20 0 ++ [0x88, 0xac]

def sampleEnv : ProTxEnv where
  getHash tx := BitVec.ofNat 256 ((tx.vExtraPayload.headD 0).toNat)
  proRegTx _ := some
    { nVersion := legacyBLS
      nType := .regular
      nMode := 0
      collateralOutpoint := ⟨0, 0⟩
      netInfo := .mn .invalid
      platformNodeID := 0
      platformP2PPort := 0
      platformHTTPPort := 0
      keyIDOwner := 2
      pubKeyOperator := some ⟨[3], true⟩
      keyIDVoting := 2
      nOperatorReward := 0
      scriptPayout := sampleScript
      inputsHash := 0
      vchSig := [] }
  proUpServTx _ := none
  proUpRegTx _ := some
    { nVersion := basicBLS
      proTxHash := 1
      nMode := 0
      pubKeyOperator := some ⟨[3], false⟩
      keyIDVoting := 2
      scriptPayout := sampleScript
      inputsHash := 0
      vchSig := [] }
  proUpRevTx _ := some
    { nVersion := legacyBLS
      proTxHash := 1
      nReason := 0
      inputsHash := 0
      sig := [] }
  calcTxInputsHash _ := 0
  extractDestination _ := some (.scriptHash 7)
  checkStringSig _ _ _ := true
  checkServSig _ _ := true
  checkRegSig _ _ := true
  checkRevSig _ _ := true
  sha256 a _ := a
  netRules :=
    { requireRoutableExternalIP := true
      isNodeOnMainnet := true
      defaultPort := 9777
      defaultPlatformP2PPort := 0
      defaultPlatformHTTPPort := 0
      isRoutable := fun _ => true
      isBadPort := fun _ => false
      domainIsValid := fun _ => false
      validateDomainPort := fun _ => .badInput
      toStringAddr := fun _ => [] }
  dip0003EnforcementHeight := 0
  nMasternodeMinimumConfirmations := 15

def sampleContext (prevHash : Uint256) (prevHeight : Int) : BlockContext where
  prevHash := prevHash
  prevHeight := prevHeight
  isDIP0003Active := true
  isV19Active := true
  isMNRewardReallocation := false
  isV24Active := false
  getCoin _ := some ⟨⟨1500 * coin, []⟩, false, 1⟩
  viewHasBestBlock := true
  checkSigs := true
  checkOther _ := true
  quorumMembers _ := .ok []

def registerBlock : CBlock := ⟨11, [sampleTx 0 5, sampleTx 1 1]⟩

def rekeyBlock : CBlock := ⟨12, [sampleTx 0 6, sampleTx 4 2, sampleTx 3 3]⟩

theorem distinctHashes_sample : DistinctHashes sampleEnv (rekeyBlock.vtx ++ registerBlock.vtx) := by
  have hnodup : ((rekeyBlock.vtx ++ registerBlock.vtx).map sampleEnv.getHash).Nodup := by decide
  intro a ha b hb heq
  exact inj_on_of_nodup_map hnodup ha hb heq

/-- Each registration has its own owner and operator key. -/
def ownKeysEnv : ProTxEnv :=
  { sampleEnv with
    proRegTx := fun tx => (sampleEnv.proRegTx tx).map fun proTx =>
      { proTx with
        keyIDOwner := BitVec.ofNat 160 ((tx.vExtraPayload.headD 0).toNat + 1)
        pubKeyOperator := some ⟨tx.vExtraPayload, true⟩ } }

def twoBlock : CBlock := ⟨11, [sampleTx 0 5, sampleTx 1 1, sampleTx 1 4]⟩

/-- Revokes the first masternode and spends the collateral of the second one. -/
def changeBlock : CBlock :=
  ⟨12, [sampleTx 0 6, sampleTx 4 2, { sampleTx 0 7 with vin := [⟨⟨4, 0⟩, [], 0⟩] }]⟩

theorem distinctHashes_ownKeys : DistinctHashes ownKeysEnv (changeBlock.vtx ++ twoBlock.vtx) := by
  have hnodup : ((changeBlock.vtx ++ twoBlock.vtx).map ownKeysEnv.getHash).Nodup := by decide
  intro a ha b hb heq
  exact inj_on_of_nodup_map hnodup ha hb heq

theorem accepted_changeBlock : ∃ l l' : CDeterministicMNList UniqueProperty,
    ChainList id ownKeysEnv [(sampleContext 0 9, twoBlock)] l ∧
    Accepted id ownKeysEnv (sampleContext 11 10) changeBlock l l' ∧
    (l.buildDiff l').updatedMNs.entries.length = 1 ∧ (l.buildDiff l').removedMns.length = 1 ∧
    ∀ a ∈ l.mns, a.collateralOutpoint ∈ spentOutpoints changeBlock.withoutCoinbase ∨
      sameKey a.pdmnState.pubKeyOperator (keyAfter ownKeysEnv a.proTxHash
        a.pdmnState.pubKeyOperator changeBlock.withoutCoinbase) = false := by
  refine ⟨_, _, .rebuilt (sampleContext 0 9) twoBlock .empty ⟨?_, rfl⟩, ⟨?_, rfl⟩, ?_, ?_, ?_⟩
  · decide
  · decide
  · decide +kernel
  · decide +kernel
  · decide +kernel

theorem applyDiff_buildDiff_changeBlock : ∃ l l' : CDeterministicMNList UniqueProperty,
      ChainList id ownKeysEnv [(sampleContext 0 9, twoBlock)] l ∧
      Accepted id ownKeysEnv (sampleContext 11 10) changeBlock l l' ∧
      (l.buildDiff l').updatedMNs.entries.length = 1 ∧ (l.buildDiff l').removedMns.length = 1 ∧
      ∀ l₂ diff, SameList l' l₂ → SameDiff (l.buildDiff l₂) diff →
        ∃ r, applyDiff id 12 11 diff l = .ok r ∧ SameList (l'.setBlockHash 12) r := by
  obtain ⟨l, l', hchain, haccepted, hupdated, hremoved, hkeys⟩ := accepted_changeBlock
  have hl := (hchain.sound injective_id distinctHashes_ownKeys.tail).indexed
  refine ⟨l, l', hchain, haccepted, hupdated, hremoved,
    (applyDiff_buildDiff_iff injective_id hchain distinctHashes_ownKeys (by decide) haccepted).mpr
      ⟨.inl (by decide), ?_⟩⟩
  intro p a ha _ hunspent _ hsame
  obtain rfl := hl.key ha
  rcases hkeys a (hl.mem_mns_iff.mpr ha) with hspent | hother
  · exact absurd hspent hunspent
  · exact absurd (hother.symm.trans hsame) Bool.false_ne_true

/-- An operator key that is revoked and set again in the other scheme by the
same block stays in the old scheme when the difference is applied. The two
lists then disagree about which keys are taken. -/
theorem applyDiff_other_scheme : ∃ (l l' r : CDeterministicMNList UniqueProperty),
      ChainList id sampleEnv [(sampleContext 0 9, registerBlock)] l ∧
      DistinctHashes sampleEnv (rekeyBlock.vtx ++ registerBlock.vtx) ∧
      Accepted id sampleEnv (sampleContext 11 10) rekeyBlock l l' ∧
      applyDiff id 12 11 (l.buildDiff l') l = .ok r ∧
      l'.hasUniqueProperty id (.operatorKey (some ⟨[3], false⟩)) = true ∧
      r.hasUniqueProperty id (.operatorKey (some ⟨[3], false⟩)) = false := by
  refine ⟨_, _, _, .rebuilt (sampleContext 0 9) registerBlock .empty ⟨?_, rfl⟩,
    distinctHashes_sample, ⟨?_, rfl⟩, rfl, ?_, ?_⟩
  · decide
  · decide
  · rfl
  · rfl

end CDeterministicMNList

end KorshCore

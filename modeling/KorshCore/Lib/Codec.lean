import KorshCore.Lib.Except
import Mathlib.Tactic.Ring

/-!
# Codecs

A `Codec` writes values as bytes and reads them back from the front of a byte
string. It carries its two laws: what was written is read back, whatever
follows, and what is read was written. `Valid` says which values it can carry.
-/

structure Codec (ε α : Type) where
  encode : α → List UInt8
  decode : List UInt8 → Except ε (α × List UInt8)
  Valid : α → Prop
  decode_encode : ∀ {a : α} (rest : List UInt8), Valid a → decode (encode a ++ rest) = .ok (a, rest)
  encode_of_decode : ∀ {bytes : List UInt8} {a : α} {rest : List UInt8},
    decode bytes = .ok (a, rest) → Valid a ∧ bytes = encode a ++ rest

namespace Codec

open List Except

variable {ε α β : Type}

theorem encode_append_inj (c : Codec ε α) {a b : α} {r s : List UInt8}
    (ha : c.Valid a) (hb : c.Valid b) (h : c.encode a ++ r = c.encode b ++ s) : a = b ∧ r = s := by
  have hread := c.decode_encode r ha
  rw [h, c.decode_encode s hb] at hread
  have hpair := ok.inj hread
  exact ⟨(congrArg Prod.fst hpair).symm, (congrArg Prod.snd hpair).symm⟩

theorem encode_inj (c : Codec ε α) {a b : α} (ha : c.Valid a) (hb : c.Valid b)
    (h : c.encode a = c.encode b) : a = b :=
  (c.encode_append_inj ha hb (congrArg (· ++ []) h)).1

/-! ## Blocks and numbers -/

def take (eof : ε) (k : Nat) : Codec ε (List UInt8) where
  encode block := block
  decode bytes :=
    if k ≤ bytes.length then .ok (bytes.take k, bytes.drop k) else .error eof
  Valid block := block.length = k
  decode_encode := by
    intro block rest hk
    rw [if_pos (by simp [← hk]), ← hk, List.take_left, List.drop_left]
  encode_of_decode := by
    intro bytes block rest h
    split_ifs at h with hk
    cases h
    exact ⟨List.length_take_of_le hk, (List.take_append_drop k bytes).symm⟩

/-- The `k` low bytes of a number, lowest first. -/
def toBytes : (k n : Nat) → List UInt8
  | 0, _ => []
  | k + 1, n => UInt8.ofNat n :: toBytes k (n / 256)

def ofBytes : List UInt8 → Nat
  | [] => 0
  | byte :: bytes => byte.toNat + 256 * ofBytes bytes

@[simp] theorem length_toBytes : ∀ k n, (toBytes k n).length = k
  | 0, _ => rfl
  | k + 1, n => by rw [toBytes, length_cons, length_toBytes]

theorem ofBytes_toBytes : ∀ {k n : Nat}, n < 256 ^ k → ofBytes (toBytes k n) = n
  | 0, n, h => by
    exact (Nat.lt_one_iff.mp h).symm
  | k + 1, n, h => by
    have hrest : n / 256 < 256 ^ k := by
      exact Nat.div_lt_of_lt_mul (by omega)
    rw [toBytes, ofBytes, ofBytes_toBytes hrest, UInt8.toNat_ofNat']
    omega

theorem toBytes_ofBytes : ∀ bytes : List UInt8, toBytes bytes.length (ofBytes bytes) = bytes
  | [] => rfl
  | byte :: bytes => by
    have hbyte := byte.toNat_lt
    have hhead : UInt8.ofNat (byte.toNat + 256 * ofBytes bytes) = byte := by
      apply UInt8.toNat_inj.mp
      rw [UInt8.toNat_ofNat']
      omega
    have htail : (byte.toNat + 256 * ofBytes bytes) / 256 = ofBytes bytes := by
      omega
    rw [length_cons, ofBytes, toBytes, hhead, htail, toBytes_ofBytes]

theorem ofBytes_lt : ∀ bytes : List UInt8, ofBytes bytes < 256 ^ bytes.length
  | [] => by decide
  | byte :: bytes => by
    have hbyte := byte.toNat_lt
    have hrest := ofBytes_lt bytes
    rw [ofBytes, length_cons]
    omega

/-! ## Composition -/

/-- Read values of another type: `f` builds them and `g` takes them apart. -/
def map (c : Codec ε α) (f : α → β) (g : β → α)
    (hgf : ∀ a, c.Valid a → g (f a) = a) : Codec ε β where
  encode b := c.encode (g b)
  decode bytes := do
    let (a, rest) ← c.decode bytes
    .ok (f a, rest)
  Valid b := c.Valid (g b) ∧ f (g b) = b
  decode_encode := by
    intro b rest h
    rw [c.decode_encode rest h.1]
    show ok (f (g b), rest) = _
    rw [h.2]
  encode_of_decode := by
    intro bytes b rest h
    obtain ⟨⟨a, rest'⟩, ha, hb⟩ := bind_eq_ok_iff.mp h
    cases hb
    obtain ⟨hvalid, hbytes⟩ := c.encode_of_decode ha
    rw [hgf a hvalid]
    exact ⟨⟨hvalid, rfl⟩, hbytes⟩

def check (c : Codec ε α) (p : α → Prop) [DecidablePred p] (err : ε) : Codec ε α where
  encode := c.encode
  decode bytes := do
    let (a, rest) ← c.decode bytes
    if p a then .ok (a, rest) else .error err
  Valid a := c.Valid a ∧ p a
  decode_encode := by
    intro a rest h
    rw [c.decode_encode rest h.1]
    exact if_pos h.2
  encode_of_decode := by
    intro bytes a rest h
    obtain ⟨⟨a', rest'⟩, hread, htest⟩ := bind_eq_ok_iff.mp h
    dsimp only at htest
    split_ifs at htest with hp
    cases htest
    obtain ⟨hvalid, hbytes⟩ := c.encode_of_decode hread
    exact ⟨⟨hvalid, hp⟩, hbytes⟩

/-- A section whose format depends on the one before. -/
def andThen (c : Codec ε α) (d : α → Codec ε β) : Codec ε (α × β) where
  encode x := c.encode x.1 ++ (d x.1).encode x.2
  decode bytes := do
    let (a, rest) ← c.decode bytes
    let (b, rest) ← (d a).decode rest
    .ok ((a, b), rest)
  Valid x := c.Valid x.1 ∧ (d x.1).Valid x.2
  decode_encode := by
    intro x rest h
    rw [List.append_assoc, c.decode_encode _ h.1]
    show (do
      let (b, rest) ← (d x.1).decode ((d x.1).encode x.2 ++ rest)
      ok ((x.1, b), rest)) = _
    rw [(d x.1).decode_encode rest h.2, ok_bind]
  encode_of_decode := by
    intro bytes x rest h
    obtain ⟨⟨a, rest'⟩, ha, ⟨b, rest''⟩, hb, h⟩ := bind₂_eq_ok_iff.mp h
    cases h
    obtain ⟨hvalid, rfl⟩ := c.encode_of_decode ha
    obtain ⟨hvalid', rfl⟩ := (d a).encode_of_decode hb
    exact ⟨⟨hvalid, hvalid'⟩, (List.append_assoc _ _ _).symm⟩

def seq (c : Codec ε α) (d : Codec ε β) : Codec ε (α × β) := c.andThen fun _ => d

/-- A section that is left out: no bytes, and the value `a`. -/
def absent (a : α) : Codec ε α where
  encode _ := []
  decode bytes := .ok (a, bytes)
  Valid a' := a' = a
  decode_encode := by
    intro a' rest h
    rw [h, List.nil_append]
  encode_of_decode := by
    intro bytes a' rest h
    cases h
    exact ⟨rfl, rfl⟩

def nat (eof : ε) (k : Nat) : Codec ε Nat :=
  (take eof k).map ofBytes (toBytes k) (by
    intro bytes hk
    change bytes.length = k at hk
    rw [← hk, toBytes_ofBytes])

theorem nat_valid_iff (eof : ε) {k n : Nat} : (nat eof k).Valid n ↔ n < 256 ^ k := by
  show (toBytes k n).length = k ∧ ofBytes (toBytes k n) = n ↔ _
  rw [length_toBytes]
  constructor
  · rintro ⟨_, h⟩
    have hlt := ofBytes_lt (toBytes k n)
    rw [h, length_toBytes] at hlt
    exact hlt
  · exact fun h => ⟨rfl, ofBytes_toBytes h⟩

/-! ## Lists -/

/-- The loop that reads `n` items. -/
def decodeItems (c : Codec ε α) : Nat → List UInt8 → Except ε (List α × List UInt8)
  | 0, bytes => .ok ([], bytes)
  | n + 1, bytes => do
    let (a, rest) ← c.decode bytes
    let (as, rest) ← decodeItems c n rest
    .ok (a :: as, rest)

theorem decodeItems_encode (c : Codec ε α) (rest : List UInt8) :
    ∀ {as : List α}, (∀ a ∈ as, c.Valid a) →
    c.decodeItems as.length (as.flatMap c.encode ++ rest) = .ok (as, rest)
  | [], _ => rfl
  | a :: as, h => by
    have ih := decodeItems_encode c rest fun b hb => h b (mem_cons_of_mem a hb)
    rw [flatMap_cons, append_assoc, length_cons, decodeItems, c.decode_encode _ (h a mem_cons_self)]
    show (do
      let (as', rest') ← c.decodeItems as.length (as.flatMap c.encode ++ rest)
      ok (a :: as', rest')) = _
    rw [ih, ok_bind]

theorem decodeItems_eq_ok (c : Codec ε α) : ∀ {n : Nat} {bytes : List UInt8}
    {as : List α} {rest : List UInt8}, c.decodeItems n bytes = .ok (as, rest) →
    as.length = n ∧ (∀ a ∈ as, c.Valid a) ∧ bytes = as.flatMap c.encode ++ rest
  | 0, bytes, as, rest, h => by
    cases h
    simp
  | n + 1, bytes, as, rest, h => by
    obtain ⟨⟨a, rest'⟩, ha, ⟨as', rest''⟩, hrest, h⟩ := bind₂_eq_ok_iff.mp h
    cases h
    obtain ⟨hvalid, rfl⟩ := c.encode_of_decode ha
    obtain ⟨hlength, hvalids, rfl⟩ := decodeItems_eq_ok c hrest
    refine ⟨congrArg (· + 1) hlength, ?_, ?_⟩
    · intro b hb
      rcases mem_cons.mp hb with rfl | hb
      · exact hvalid
      · exact hvalids b hb
    · rw [flatMap_cons, append_assoc]

theorem flatMap_encode_inj (c : Codec ε α) (hspace : ∀ a, c.Valid a → c.encode a ≠ []) :
    ∀ {as bs : List α}, (∀ a ∈ as, c.Valid a) → (∀ b ∈ bs, c.Valid b) →
    as.flatMap c.encode = bs.flatMap c.encode → as = bs
  | [], [], _, _, _ => rfl
  | [], b :: bs, _, hbs, h => by
    have hnil := (append_eq_nil_iff.mp h.symm).1
    exact absurd hnil (hspace b (hbs b mem_cons_self))
  | a :: as, [], has, _, h => by
    have hnil := (append_eq_nil_iff.mp h).1
    exact absurd hnil (hspace a (has a mem_cons_self))
  | a :: as, b :: bs, has, hbs, h => by
    obtain ⟨rfl, hrest⟩ := c.encode_append_inj (has a mem_cons_self) (hbs b mem_cons_self) h
    rw [flatMap_encode_inj c hspace (fun x hx => has x (mem_cons_of_mem a hx))
      (fun x hx => hbs x (mem_cons_of_mem a hx)) hrest]

def items (c : Codec ε α) (n : Nat) : Codec ε (List α) where
  encode as := as.flatMap c.encode
  decode := c.decodeItems n
  Valid as := as.length = n ∧ ∀ a ∈ as, c.Valid a
  decode_encode := by
    intro as rest h
    rw [← h.1, c.decodeItems_encode rest h.2]
  encode_of_decode := by
    intro bytes as rest h
    obtain ⟨hlength, hvalid, hbytes⟩ := c.decodeItems_eq_ok h
    exact ⟨⟨hlength, hvalid⟩, hbytes⟩

def counted (size : Codec ε Nat) (list : Nat → Codec ε (List α))
    (hlist : ∀ n as, (list n).Valid as → as.length = n) : Codec ε (List α) :=
  (size.andThen list).map Prod.snd (fun as => (as.length, as)) (by
    intro x h
    exact Prod.ext (hlist x.1 x.2 h.2) rfl)

end Codec

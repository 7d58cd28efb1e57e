import KorshCore.Lib.Codec

/-!
# Formats that lose nothing

A `Lossless` format writes values as bytes and reads back what it wrote,
whatever follows. Unlike a `Codec` it may read other bytes too: a reader that
repairs what it does not understand, or that puts a map in order, accepts more
than its writer produces.
-/

/-- A format whose reader gives back what its writer wrote, and returns
nothing that would not survive being written. -/
structure Lossless (ε α : Type) where
  encode : α → List UInt8
  decode : List UInt8 → Except ε (α × List UInt8)
  Valid : α → Prop
  decode_encode : ∀ {a : α} (rest : List UInt8), Valid a → decode (encode a ++ rest) = .ok (a, rest)
  valid_of_decode : ∀ {bytes : List UInt8} {a : α} {rest : List UInt8},
    decode bytes = .ok (a, rest) → Valid a

def Codec.lossless {ε α : Type} (c : Codec ε α) : Lossless ε α where
  encode := c.encode
  decode := c.decode
  Valid := c.Valid
  decode_encode := c.decode_encode
  valid_of_decode := fun h => (c.encode_of_decode h).1

namespace Lossless

open Except List

variable {ε α β : Type}

/-- Read values of another type: `f` builds them and `g` takes them apart.
What `f` builds may be written with other bytes than it was read from, if it
is then built again. -/
def map (c : Lossless ε α) (f : α → β) (g : β → α)
    (hfg : ∀ a, c.Valid a → c.Valid (g (f a)) ∧ f (g (f a)) = f a) : Lossless ε β where
  encode b := c.encode (g b)
  decode bytes := do
    let (a, rest) ← c.decode bytes
    .ok (f a, rest)
  Valid b := c.Valid (g b) ∧ f (g b) = b
  decode_encode := by
    intro b rest h
    rw [c.decode_encode rest h.1]
    show ok (f (g b), rest) = _
    rw [h.2]
  valid_of_decode := by
    intro bytes b rest h
    obtain ⟨⟨a, rest'⟩, ha, hb⟩ := bind_eq_ok_iff.mp h
    cases hb
    exact hfg a (c.valid_of_decode ha)

def andThen (c : Lossless ε α) (d : α → Lossless ε β) : Lossless ε (α × β) where
  encode x := c.encode x.1 ++ (d x.1).encode x.2
  decode bytes := do
    let (a, rest) ← c.decode bytes
    let (b, rest) ← (d a).decode rest
    .ok ((a, b), rest)
  Valid x := c.Valid x.1 ∧ (d x.1).Valid x.2
  decode_encode := by
    intro x rest h
    rw [append_assoc, c.decode_encode _ h.1]
    show (do
      let (b, rest) ← (d x.1).decode ((d x.1).encode x.2 ++ rest)
      ok ((x.1, b), rest)) = _
    rw [(d x.1).decode_encode rest h.2, ok_bind]
  valid_of_decode := by
    intro bytes x rest h
    obtain ⟨⟨a, rest'⟩, ha, ⟨b, rest''⟩, hb, h⟩ := bind₂_eq_ok_iff.mp h
    cases h
    exact ⟨c.valid_of_decode ha, (d a).valid_of_decode hb⟩

def seq (c : Lossless ε α) (d : Lossless ε β) : Lossless ε (α × β) :=
  c.andThen fun _ => d

def decodeItems (c : Lossless ε α) : Nat → List UInt8 → Except ε (List α × List UInt8)
  | 0, bytes => .ok ([], bytes)
  | n + 1, bytes => do
    let (a, rest) ← c.decode bytes
    let (as, rest) ← decodeItems c n rest
    .ok (a :: as, rest)

theorem decodeItems_encode (c : Lossless ε α) (rest : List UInt8) :
    ∀ {as : List α}, (∀ a ∈ as, c.Valid a) →
    c.decodeItems as.length (as.flatMap c.encode ++ rest) = .ok (as, rest)
  | [], _ => rfl
  | a :: as, h => by
    have ih := decodeItems_encode c rest fun b hb => h b (mem_cons_of_mem a hb)
    rw [flatMap_cons, append_assoc, length_cons, decodeItems, c.decode_encode _ (h a mem_cons_self)]
    show (do
      let (as', rest') ← c.decodeItems as.length (as.flatMap c.encode ++ rest)
      ok (a :: as', rest')) = _
    rw [ih, ok_bind]

theorem decodeItems_eq_ok (c : Lossless ε α) : ∀ {n : Nat} {bytes : List UInt8}
    {as : List α} {rest : List UInt8}, c.decodeItems n bytes = .ok (as, rest) →
    as.length = n ∧ ∀ a ∈ as, c.Valid a
  | 0, bytes, as, rest, h => by
    cases h
    simp
  | n + 1, bytes, as, rest, h => by
    obtain ⟨⟨a, rest'⟩, ha, ⟨as', rest''⟩, hrest, h⟩ := bind₂_eq_ok_iff.mp h
    cases h
    obtain ⟨hlength, hvalids⟩ := decodeItems_eq_ok c hrest
    refine ⟨congrArg (· + 1) hlength, ?_⟩
    intro b hb
    rcases mem_cons.mp hb with rfl | hb
    · exact c.valid_of_decode ha
    · exact hvalids b hb

def counted (size : Lossless ε Nat) (c : Lossless ε α) : Lossless ε (List α) where
  encode as := size.encode as.length ++ as.flatMap c.encode
  decode bytes := do
    let (n, rest) ← size.decode bytes
    c.decodeItems n rest
  Valid as := size.Valid as.length ∧ ∀ a ∈ as, c.Valid a
  decode_encode := by
    intro as rest h
    rw [append_assoc, size.decode_encode _ h.1]
    exact c.decodeItems_encode rest h.2
  valid_of_decode := by
    intro bytes as rest h
    obtain ⟨⟨n, rest'⟩, hn, h⟩ := bind_eq_ok_iff.mp h
    obtain ⟨hlength, hvalid⟩ := c.decodeItems_eq_ok h
    rw [hlength]
    exact ⟨size.valid_of_decode hn, hvalid⟩

end Lossless

import KorshCore.Evo.NetInfo
import KorshCore.Primitives.Serialize
import Mathlib.Data.List.Induction

/-!
# The formats of network addresses

How `netaddress.h` and `evo/netinfo.h` write and read what `NetInfo` models. An
entry that cannot be read is marked invalid instead of ending the read, so its
reader has to say how far it came: `Partial` keeps the rest of the stream with
the error.
-/

namespace KorshCore

open Format Except CService List NetInfoEntry Network

/-! ## Addresses before BIP155 -/

/-- `IPV4_IN_IPV6_PREFIX`. -/
def ipv4InIPv6 : List UInt8 := [0, 0, 0, 0, 0, 0, 0, 0, 0, 0, 0xff, 0xff]

/-- `TORV2_IN_IPV6_PREFIX`. -/
def torV2InIPv6 : List UInt8 := [0xfd, 0x87, 0xd8, 0x7e, 0xeb, 0x43]

/-- `INTERNAL_IN_IPV6_PREFIX`. -/
def internalInIPv6 : List UInt8 := [0xfd, 0x6b, 0x88, 0xc0, 0x87, 0x24]

def nullAddr : Network × List UInt8 := (.ipv6, List.replicate 16 0)

def CService.serializeV1 (service : CService) : List UInt8 :=
  match service.net with
  | .ipv6 => service.addr
  | .ipv4 => ipv4InIPv6 ++ service.addr
  | .internal => internalInIPv6 ++ service.addr
  | .onion => List.replicate 16 0
  | .i2p => List.replicate 16 0
  | .cjdns => List.replicate 16 0

def setLegacyIPv6 (ipv6 : List UInt8) : Network × List UInt8 :=
  if ipv4InIPv6.isPrefixOf ipv6 then (.ipv4, ipv6.drop 12)
  else if torV2InIPv6.isPrefixOf ipv6 then nullAddr
  else if internalInIPv6.isPrefixOf ipv6 then (.internal, ipv6.drop 6)
  else (.ipv6, ipv6)

/-- A service of `SetLegacyIPv6`. -/
def CService.ofLegacyIPv6 (ipv6 : List UInt8) (port : Nat) : CService :=
  ⟨(setLegacyIPv6 ipv6).1, (setLegacyIPv6 ipv6).2, port⟩

variable {bytes : List UInt8}

theorem append_drop_of_isPrefixOf {start : List UInt8}
    (h : start.isPrefixOf bytes) : start ++ bytes.drop start.length = bytes := by
  obtain ⟨rest, rfl⟩ := isPrefixOf_iff_prefix.mp h
  rw [drop_left]

theorem CService.serializeV1_ofLegacyIPv6 (ipv6 : List UInt8) (port : Nat) :
    (ofLegacyIPv6 ipv6 port).serializeV1 = ipv6 ∨
      (ofLegacyIPv6 ipv6 port).serializeV1 = nullAddr.2 ∧ setLegacyIPv6 ipv6 = nullAddr := by
  unfold ofLegacyIPv6 setLegacyIPv6
  split_ifs with hipv4 htor hinternal
  · exact .inl (append_drop_of_isPrefixOf hipv4)
  · exact .inr ⟨rfl, rfl⟩
  · exact .inl (append_drop_of_isPrefixOf hinternal)
  · exact .inl rfl

/-- The format of `CService` before BIP155. -/
def CService.formatV1 : Lossless SerializeError CService :=
  ((block 16).seq (uintBE 2)).lossless.map
    (fun x => CService.ofLegacyIPv6 x.1 x.2)
    (fun service => (service.serializeV1, service.port)) (by
    rintro ⟨ipv6, port⟩ ⟨hblock, hport⟩
    obtain heq | ⟨heq, hnull⟩ := CService.serializeV1_ofLegacyIPv6 ipv6 port
    · rw [heq]
      exact ⟨⟨hblock, hport⟩, rfl⟩
    · rw [heq]
      refine ⟨⟨rfl, hport⟩, ?_⟩
      unfold CService.ofLegacyIPv6
      rw [hnull]
      rfl)

def NetInfoEntry.ofService (service : CService) : NetInfoEntry :=
  if service.isValid then .service service else .invalid

def NetInfoEntry.ofDomain (rules : NetRules) (domain : DomainPort) : NetInfoEntry :=
  if rules.domainIsValid domain then .domain domain else .invalid

def NetInfoEntry.getAddrPort : NetInfoEntry → Option CService
  | service s => some s
  | _ => none

theorem null_valid : formatV1.Valid .null :=
  ⟨⟨rfl, uintBE_valid_of_lt (by decide)⟩, rfl⟩

/-- The format of `MnNetInfo`, by its entry. -/
def mnNetInfoFormat : Lossless SerializeError NetInfoEntry :=
  CService.formatV1.map ofService (fun addr => addr.getAddrPort.getD .null) (by
    intro service hvalid
    by_cases hservice : service.isValid
    · rw [ofService, if_pos hservice]
      exact ⟨hvalid, if_pos hservice⟩
    · rw [ofService, if_neg hservice]
      exact ⟨null_valid, rfl⟩)

/-! ## Addresses after BIP155 -/

abbrev Partial (α : Type) :=
  List UInt8 → Except (List UInt8) (α × List UInt8)

def atomic {α : Type} (format : Format α) : Partial α := fun bytes =>
  (format.decode bytes).mapError fun _ => bytes

theorem atomic_encode {α : Type} {format : Format α} {a : α}
    (h : format.Valid a) (rest : List UInt8) :
    atomic format (format.encode a ++ rest) = .ok (a, rest) := by
  rw [atomic, format.decode_encode rest h]
  rfl

variable {rest : List UInt8}

theorem valid_of_atomic {α : Type} {format : Format α}
    {a : α} (h : atomic format bytes = .ok (a, rest)) : format.Valid a :=
  (format.encode_of_decode (mapError_eq_ok_iff.mp h)).1

theorem atomic_block (bytes rest : List UInt8) :
    atomic (block bytes.length) (bytes ++ rest) = .ok (bytes, rest) :=
  have h : (block bytes.length).Valid bytes := rfl
  atomic_encode h rest

/-- The number behind the first byte of a `CompactSize`. -/
def compactSizeNumber (chSize : Nat) : Format Nat :=
  if chSize < 253 then Codec.absent chSize
  else if chSize = 253 then uint 2
  else if chSize = 254 then uint 4
  else uint 8

def readCompactSize : Partial Nat := fun bytes => do
  let (chSize, rest) ← atomic (uint 1) bytes
  let (nSize, rest) ← atomic (compactSizeNumber chSize) rest
  -- not in the shortest form, or too large
  if compactSizeMarker nSize = chSize ∧ nSize ≤ maxSize then .ok (nSize, rest)
  else .error rest

theorem readCompactSize_encode {nSize : Nat} (h : nSize ≤ maxSize) (rest : List UInt8) :
    readCompactSize (compactSize.encode nSize ++ rest) = .ok (nSize, rest) := by
  have hmarker : compactSizeMarker nSize < 256 := by
    unfold compactSizeMarker
    split_ifs <;> omega
  have hencode : compactSize.encode nSize = (uint 1).encode (compactSizeMarker nSize) ++
        (compactSizeNumber (compactSizeMarker nSize)).encode nSize := by
    show _ ++ (compactSizeRest (compactSizeMarker nSize)).encode nSize = _
    unfold compactSizeRest compactSizeNumber
    split_ifs <;> rfl
  have hvalid : (compactSizeNumber (compactSizeMarker nSize)).Valid nSize := by
    have hbound : maxSize < 256 ^ 4 := by decide
    unfold compactSizeNumber compactSizeMarker
    split_ifs <;> first | rfl | (rw [uint_valid_iff]; omega) | omega
  rw [hencode, append_assoc, readCompactSize, atomic_encode (uint_valid_iff.mpr hmarker)]
  show (do
    let (n, rest) ← atomic (compactSizeNumber (compactSizeMarker nSize)) _
    if compactSizeMarker n = compactSizeMarker nSize ∧ n ≤ maxSize then
      ok (n, rest) else .error rest) = _
  rw [atomic_encode hvalid]
  exact if_pos ⟨rfl, h⟩

theorem readCompactSize_le {nSize : Nat}
    (h : readCompactSize bytes = .ok (nSize, rest)) : nSize ≤ maxSize := by
  obtain ⟨⟨chSize, rest₁⟩, _, ⟨n, rest₂⟩, _, h⟩ := bind₂_eq_ok_iff.mp h
  dsimp only at h
  split_ifs at h with hsize
  cases h
  exact hsize.2

def Network.bip155 : Network → Nat
  | ipv4 => 1
  | ipv6 => 2
  | onion => 4
  | i2p => 5
  | cjdns => 6
  -- written as embedded in IPv6
  | internal => 2

/-- The networks of `SetNetFromBIP155Network`. -/
def Network.ofBIP155 : Nat → Option Network
  | 1 => some ipv4
  | 2 => some ipv6
  | 4 => some onion
  | 5 => some i2p
  | 6 => some cjdns
  | _ => none

/-- `ADDR_IPV4_SIZE` and so on. -/
def Network.addrSize : Network → Nat
  | ipv4 => 4
  | ipv6 => 16
  | onion => 32
  | i2p => 32
  | cjdns => 16
  | internal => 10

def maxAddrV2Size : Nat := 512

/-- The checks on an IPv6 address in `UnserializeV2Stream`. -/
def checkIPv6 (net : Network) (addr : List UInt8) : Network × List UInt8 :=
  if net ≠ .ipv6 then (net, addr)
  else if internalInIPv6.isPrefixOf addr then (.internal, addr.drop 6)
  else if ipv4InIPv6.isPrefixOf addr || torV2InIPv6.isPrefixOf addr then nullAddr
  else (.ipv6, addr)

def unserializeV2 : Partial (Network × List UInt8) := fun bytes => do
  let (bip155Net, rest) ← atomic (uint 1) bytes
  let (addressSize, rest) ← readCompactSize rest
  if maxAddrV2Size < addressSize then .error rest
  else
    match ofBIP155 bip155Net with
    | some net =>
      if addressSize ≠ net.addrSize then .error rest
      else do
        let (addr, rest) ← atomic (block addressSize) rest
        .ok (checkIPv6 net addr, rest)
    | none => do
      -- an unknown network is skipped
      let (_, rest) ← atomic (block addressSize) rest
      .ok (nullAddr, rest)

def CService.serializeV2 (service : CService) : List UInt8 :=
  (uint 1).encode service.net.bip155 ++
    if service.net = .internal then compactSize.encode 16 ++ service.serializeV1
    else compactSize.encode service.addr.length ++ service.addr

/-- Reading a `CService` in the format of BIP155. -/
def CService.unserialize : Partial CService := fun bytes => do
  let ((net, addr), rest) ← unserializeV2 bytes
  let (port, rest) ← atomic (uintBE 2) rest
  .ok (⟨net, addr, port⟩, rest)

def DomainPort.unserialize : Partial DomainPort := fun bytes => do
  let (nSize, rest) ← readCompactSize bytes
  let (addr, rest) ← atomic (block nSize) rest
  let (port, rest) ← atomic (uintBE 2) rest
  .ok (⟨addr, port⟩, rest)

/-- An address that can be stored: of the size of its network, and not an IPv6
address that stands for another one. -/
structure CService.Stored (service : CService) : Prop where
  size : service.addr.length = service.net.addrSize
  port : service.port < 256 ^ 2
  plain : service.net ≠ .ipv6 ∨ internalInIPv6.isPrefixOf service.addr = false ∧
      (ipv4InIPv6.isPrefixOf service.addr || torV2InIPv6.isPrefixOf service.addr) = false

theorem CService.Stored.checkIPv6_eq {service : CService} (h : service.Stored) :
    checkIPv6 service.net service.addr = (service.net, service.addr) := by
  unfold checkIPv6
  by_cases hnet : service.net ≠ .ipv6
  · rw [if_pos hnet]
  · obtain hne | ⟨hinternal, hother⟩ := h.plain
    · exact absurd hne hnet
    · rw [hinternal, hother, not_not.mp hnet]
      rfl

theorem CService.Stored.unserializeV2_serializeV2 {service : CService}
    (h : service.Stored) (hnet : service.net ≠ .internal) (rest : List UInt8) :
    unserializeV2 (service.serializeV2 ++ rest) = .ok ((service.net, service.addr), rest) := by
  have hsize : service.addr.length ≤ 32 := by
    rw [h.size]
    cases service.net <;> decide
  have hbip : (uint 1).Valid service.net.bip155 := by
    rw [uint_valid_iff]
    cases service.net <;> decide
  have hnetwork : ofBIP155 service.net.bip155 = some service.net := by
    revert hnet
    cases service.net <;> simp [bip155, ofBIP155]
  rw [serializeV2, if_neg hnet, append_assoc, append_assoc, unserializeV2, atomic_encode hbip]
  show (do
    let (addressSize, rest) ← readCompactSize _
    _) = _
  rw [readCompactSize_encode (by rw [maxSize]; omega), ok_bind]
  rw [if_neg (by rw [maxAddrV2Size]; omega), hnetwork]
  dsimp only
  rw [if_neg (not_not.mpr h.size), atomic_block]
  show ok (checkIPv6 service.net service.addr, rest) = _
  rw [h.checkIPv6_eq]

/-- An address of the size of its network that does not stand for another. -/
def PlainAddr (x : Network × List UInt8) : Prop :=
  x.2.length = x.1.addrSize ∧ (x.1 ≠ .ipv6 ∨ internalInIPv6.isPrefixOf x.2 = false ∧
      (ipv4InIPv6.isPrefixOf x.2 || torV2InIPv6.isPrefixOf x.2) = false)

theorem plainAddr_nullAddr : PlainAddr nullAddr := ⟨rfl, .inr ⟨rfl, rfl⟩⟩

theorem plainAddr_checkIPv6 {net : Network} {addr : List UInt8}
    (h : addr.length = net.addrSize) : PlainAddr (checkIPv6 net addr) := by
  unfold checkIPv6
  split_ifs with hnet hinternal hother
  · exact ⟨h, .inl hnet⟩
  · rw [not_not.mp hnet] at h
    refine ⟨?_, .inl noConfusion⟩
    show (addr.drop 6).length = 10
    rw [length_drop, h]
    rfl
  · exact plainAddr_nullAddr
  · rw [not_not.mp hnet] at h
    exact ⟨h, .inr ⟨Bool.eq_false_iff.mpr hinternal, Bool.eq_false_iff.mpr hother⟩⟩

theorem plainAddr_of_unserializeV2
    {x : Network × List UInt8} (h : unserializeV2 bytes = .ok (x, rest)) : PlainAddr x := by
  obtain ⟨⟨bip155Net, rest₁⟩, _, ⟨addressSize, rest₂⟩, _, h⟩ := bind₂_eq_ok_iff.mp h
  dsimp only at h
  split_ifs at h with hlong
  split at h
  · split_ifs at h with hsize
    obtain ⟨⟨addr, rest₃⟩, haddr, h⟩ := bind_eq_ok_iff.mp h
    cases h
    have hlength : addr.length = addressSize := valid_of_atomic haddr
    exact plainAddr_checkIPv6 (hlength.trans (not_not.mp hsize))
  · obtain ⟨⟨addr, rest₃⟩, _, h⟩ := bind_eq_ok_iff.mp h
    cases h
    exact plainAddr_nullAddr

theorem CService.stored_of_unserialize
    {service : CService} (h : unserialize bytes = .ok (service, rest)) : service.Stored := by
  obtain ⟨⟨⟨net, addr⟩, rest₁⟩, haddr, ⟨port, rest₂⟩, hport, h⟩ := bind₂_eq_ok_iff.mp h
  cases h
  obtain ⟨hsize, hplain⟩ := plainAddr_of_unserializeV2 haddr
  exact ⟨hsize, uintBE_lt_of_valid (valid_of_atomic hport), hplain⟩

theorem DomainPort.size_of_unserialize {domain : DomainPort}
    (h : DomainPort.unserialize bytes = .ok (domain, rest)) :
    domain.addr.length ≤ maxSize ∧ domain.port < 256 ^ 2 := by
  obtain ⟨⟨nSize, rest₁⟩, hsize, ⟨addr, rest₂⟩, haddr, h⟩ := bind₂_eq_ok_iff.mp h
  obtain ⟨⟨port, rest₃⟩, hport, h⟩ := bind_eq_ok_iff.mp h
  cases h
  have hlength : addr.length = nSize := valid_of_atomic haddr
  exact ⟨hlength.trans_le (readCompactSize_le hsize), uintBE_lt_of_valid (valid_of_atomic hport)⟩

/-! ## Entries -/

def NetInfoEntry.serialize (rules : NetRules) : NetInfoEntry → List UInt8
  | service s =>
    if s.isValid then 1 :: (s.serializeV2 ++ (uintBE 2).encode s.port) else [0xff]
  | domain d =>
    if rules.domainIsValid d then 2 :: (byteVector.encode d.addr ++ (uintBE 2).encode d.port)
    else [0xff]
  | invalid => [0xff]

/-- A read whose failure only makes the entry invalid. -/
def NetInfoEntry.caught {α : Type} (entry : α → NetInfoEntry) :
    Except (List UInt8) (α × List UInt8) → NetInfoEntry × List UInt8
  | .ok (a, rest) => (entry a, rest)
  | .error rest => (invalid, rest)

def NetInfoEntry.unserialize (rules : NetRules) (bytes : List UInt8) :
    Except SerializeError (NetInfoEntry × List UInt8) := do
  let (mType, rest) ← (uint 1).decode bytes
  .ok (if mType = 1 then caught ofService (CService.unserialize rest)
    else if mType = 2 then caught (ofDomain rules) (DomainPort.unserialize rest)
    else (invalid, rest))

def NetInfoEntry.Stored (rules : NetRules) : NetInfoEntry → Prop
  | service s => s.isValid = true ∧ s.Stored
  | domain d => rules.domainIsValid d = true ∧ d.addr.length ≤ maxSize ∧ d.port < 256 ^ 2
  | invalid => True

theorem CService.unserialize_serialize {service : CService}
    (h : service.Stored) (hvalid : service.isValid = true) (rest : List UInt8) :
    unserialize (service.serializeV2 ++ (uintBE 2).encode service.port ++ rest) =
      .ok (service, rest) := by
  have hnet : service.net ≠ .internal := by
    intro hnet
    rw [isValid, hnet] at hvalid
    exact Bool.noConfusion hvalid
  rw [append_assoc, unserialize, h.unserializeV2_serializeV2 hnet, ok_bind]
  dsimp only
  rw [atomic_encode (uintBE_valid_of_lt h.port), ok_bind]

theorem DomainPort.unserialize_serialize {domain : DomainPort}
    (hsize : domain.addr.length ≤ maxSize) (hport : domain.port < 256 ^ 2) (rest : List UInt8) :
    DomainPort.unserialize
      (byteVector.encode domain.addr ++ (uintBE 2).encode domain.port ++ rest) =
      .ok (domain, rest) := by
  have hencode : byteVector.encode domain.addr =
      compactSize.encode domain.addr.length ++ domain.addr := rfl
  rw [hencode, append_assoc, append_assoc, DomainPort.unserialize,
    readCompactSize_encode hsize, ok_bind]
  dsimp only
  rw [atomic_block, ok_bind]
  rw [atomic_encode (uintBE_valid_of_lt hport), ok_bind]

variable {rules : NetRules}

theorem NetInfoEntry.unserialize_serialize
    {entry : NetInfoEntry} (h : entry.Stored rules) (rest : List UInt8) :
    unserialize rules (entry.serialize rules ++ rest) = .ok (entry, rest) := by
  cases entry with
  | invalid => rfl
  | service s =>
    obtain ⟨hvalid, hstored⟩ := h
    rw [serialize, if_pos hvalid]
    show ok (caught ofService (CService.unserialize
      (s.serializeV2 ++ (uintBE 2).encode s.port ++ rest))) = _
    rw [CService.unserialize_serialize hstored hvalid, caught, ofService, if_pos hvalid]
  | domain d =>
    obtain ⟨hvalid, hsize, hport⟩ := h
    rw [serialize, if_pos hvalid]
    show ok (caught (ofDomain rules) (DomainPort.unserialize
      (byteVector.encode d.addr ++ (uintBE 2).encode d.port ++ rest))) = _
    rw [DomainPort.unserialize_serialize hsize hport, caught, ofDomain, if_pos hvalid]

theorem NetInfoEntry.stored_ofService {service : CService}
    (h : service.Stored) : (ofService service).Stored rules := by
  unfold ofService
  split_ifs with hvalid
  · exact ⟨hvalid, h⟩
  · trivial

theorem NetInfoEntry.stored_ofDomain {domain : DomainPort}
    (h : domain.addr.length ≤ maxSize ∧ domain.port < 256 ^ 2) :
    (ofDomain rules domain).Stored rules := by
  unfold ofDomain
  split_ifs with hvalid
  · exact ⟨hvalid, h⟩
  · trivial

theorem NetInfoEntry.stored_caught {α : Type}
    {entry : α → NetInfoEntry} {result : Except (List UInt8) (α × List UInt8)}
    (h : ∀ a rest, result = .ok (a, rest) → (entry a).Stored rules) :
    (caught entry result).1.Stored rules := by
  cases result with
  | ok x => exact h x.1 x.2 rfl
  | error rest => trivial

theorem NetInfoEntry.stored_of_unserialize {entry : NetInfoEntry}
    (h : unserialize rules bytes = .ok (entry, rest)) : entry.Stored rules := by
  obtain ⟨⟨mType, rest'⟩, _, h⟩ := bind_eq_ok_iff.mp h
  have hentry : _ = entry := congrArg Prod.fst (ok.inj h)
  rw [← hentry]
  split_ifs with hservice hdomain
  · exact stored_caught fun _ _ h => stored_ofService (CService.stored_of_unserialize h)
  · exact stored_caught fun _ _ h => stored_ofDomain (DomainPort.size_of_unserialize h)
  · trivial

def NetInfoEntry.format (rules : NetRules) : Lossless SerializeError NetInfoEntry where
  encode := serialize rules
  decode := unserialize rules
  Valid := Stored rules
  decode_encode := fun rest h => unserialize_serialize h rest
  valid_of_decode := stored_of_unserialize

/-! ## The two kinds of network information -/

/-- `insert` of a `std::map`: an entry that is there stays. -/
def mapInsert {α : Type} : List (Nat × α) → Nat × α → List (Nat × α)
  | [], item => [item]
  | entry :: entries, item =>
    if item.1 < entry.1 then item :: entry :: entries
    else if item.1 = entry.1 then entry :: entries
    else entry :: mapInsert entries item

theorem mapInsert_last {α : Type} {item : Nat × α} :
    ∀ {entries : List (Nat × α)}, (∀ entry ∈ entries, entry.1 < item.1) →
    mapInsert entries item = entries ++ [item]
  | [], _ => rfl
  | entry :: entries, h => by
    have hlt := h entry mem_cons_self
    rw [mapInsert, if_neg (by omega), if_neg (by omega),
      mapInsert_last fun e he => h e (mem_cons_of_mem entry he),
      cons_append]

theorem foldl_mapInsert {α : Type} {items : List (Nat × α)} : ∀ {entries : List (Nat × α)},
    (entries ++ items).Pairwise (fun a b => a.1 < b.1) →
    items.foldl mapInsert entries = entries ++ items := by
  induction items with
  | nil => exact fun _ => (append_nil _).symm
  | cons item items ih =>
    intro entries h
    have hlast : ∀ entry ∈ entries, entry.1 < item.1 := fun entry hentry =>
      (pairwise_append.mp h).2.2 entry hentry item mem_cons_self
    have hassoc : entries ++ item :: items = entries ++ [item] ++ items := by simp
    rw [foldl_cons, mapInsert_last hlast, hassoc]
    exact ih (hassoc ▸ h)

theorem mem_of_mem_mapInsert {α : Type} {x item : Nat × α} :
    ∀ {entries : List (Nat × α)}, x ∈ mapInsert entries item → x = item ∨ x ∈ entries
  | [], h => .inl (mem_singleton.mp h)
  | entry :: entries, h => by
    rw [mapInsert] at h
    split_ifs at h
    · exact mem_cons.mp h
    · exact .inr h
    · obtain rfl | h := mem_cons.mp h
      · exact .inr mem_cons_self
      · exact (mem_of_mem_mapInsert h).imp_right (mem_cons_of_mem entry)

theorem pairwise_mapInsert {α : Type} {item : Nat × α} :
    ∀ {entries : List (Nat × α)}, entries.Pairwise (fun a b => a.1 < b.1) →
    (mapInsert entries item).Pairwise (fun a b => a.1 < b.1)
  | [], _ => pairwise_singleton _ _
  | entry :: entries, h => by
    obtain ⟨hfirst, hrest⟩ := pairwise_cons.mp h
    rw [mapInsert]
    split_ifs with hlt heq
    · refine pairwise_cons.mpr ⟨?_, h⟩
      intro x hx
      obtain rfl | hx := mem_cons.mp hx
      · exact hlt
      · exact hlt.trans (hfirst x hx)
    · exact h
    · refine pairwise_cons.mpr ⟨?_, pairwise_mapInsert hrest⟩
      intro x hx
      obtain rfl | hx := mem_of_mem_mapInsert hx
      · omega
      · exact hfirst x hx

theorem length_mapInsert_le {α : Type} {item : Nat × α} :
    ∀ entries : List (Nat × α), (mapInsert entries item).length ≤ entries.length + 1
  | [] => le_rfl
  | entry :: entries => by
    have ih := @length_mapInsert_le α item entries
    rw [mapInsert]
    split_ifs <;> simp only [length_cons] <;> omega

theorem foldl_mapInsert_sound {α : Type} (items : List (Nat × α)) :
    (items.foldl mapInsert []).Pairwise (fun a b => a.1 < b.1) ∧
      (∀ x ∈ items.foldl mapInsert [], x ∈ items) ∧
      (items.foldl mapInsert []).length ≤ items.length := by
  induction items using reverseRecOn with
  | nil => exact ⟨.nil, fun _ h => h, le_rfl⟩
  | append_singleton items item ih =>
    obtain ⟨hpairwise, hmem, hlength⟩ := ih
    rw [foldl_append, foldl_cons, foldl_nil]
    refine ⟨pairwise_mapInsert hpairwise, ?_, ?_⟩
    · intro x hx
      obtain rfl | hx := mem_of_mem_mapInsert hx
      · exact mem_append_right _ (mem_singleton_self _)
      · exact mem_append_left _ (hmem x hx)
    · have hinsert := @length_mapInsert_le α item (items.foldl mapInsert [])
      rw [length_append, length_singleton]
      omega

/-- The format of the map of an `ExtNetInfo`. -/
def extDataFormat (rules : NetRules) : Lossless SerializeError (List (Nat × List NetInfoEntry)) :=
  (Lossless.counted compactSize.lossless ((uint 1).lossless.seq
    (Lossless.counted compactSize.lossless (format rules)))).map
    (List.foldl mapInsert []) id (by
    rintro items ⟨hsize, hitems⟩
    obtain ⟨hpairwise, hmem, hlength⟩ := foldl_mapInsert_sound items
    refine ⟨⟨?_, fun x hx => hitems x (hmem x hx)⟩, foldl_mapInsert hpairwise⟩
    exact compactSize_valid_iff.mpr (hlength.trans (compactSize_valid_iff.mp hsize)))

/-- The format of `ExtNetInfo`, by its version and its map. Of an unknown
version only the version is written. -/
def extNetInfoFormat (rules : NetRules) :
    Lossless SerializeError (Nat × List (Nat × List NetInfoEntry)) :=
  (uint 1).lossless.andThen fun mVersion =>
    if mVersion = 0 ∨ extNetInfoVersion < mVersion then (Codec.absent []).lossless
    else extDataFormat rules

/-- `NetInfoSerWrapper`: the writer goes by what there is, the reader by the
version around it. -/
def NetInfo.format (rules : NetRules) (isExtended : Bool) : Lossless SerializeError NetInfo where
  encode
    | .ext version data => (extNetInfoFormat rules).encode (version, data)
    | .mn addr => mnNetInfoFormat.encode addr
  decode bytes :=
    if isExtended then do
      let ((version, data), rest) ← (extNetInfoFormat rules).decode bytes
      .ok (.ext version data, rest)
    else do
      let (addr, rest) ← mnNetInfoFormat.decode bytes
      .ok (.mn addr, rest)
  Valid
    | .ext version data => isExtended = true ∧ (extNetInfoFormat rules).Valid (version, data)
    | .mn addr => isExtended = false ∧ mnNetInfoFormat.Valid addr
  decode_encode := by
    intro netInfo rest h
    cases netInfo with
    | ext version data =>
      rw [if_pos h.1, (extNetInfoFormat rules).decode_encode rest h.2, Except.ok_bind]
    | mn addr =>
      rw [h.1, if_neg Bool.false_ne_true, mnNetInfoFormat.decode_encode rest h.2, Except.ok_bind]
  valid_of_decode := by
    intro bytes netInfo rest h
    split_ifs at h with hextended
    · obtain ⟨⟨⟨version, data⟩, rest'⟩, hread, h⟩ := Except.bind_eq_ok_iff.mp h
      cases h
      exact ⟨hextended, (extNetInfoFormat rules).valid_of_decode hread⟩
    · obtain ⟨⟨addr, rest'⟩, hread, h⟩ := Except.bind_eq_ok_iff.mp h
      cases h
      exact ⟨Bool.eq_false_iff.mpr hextended, mnNetInfoFormat.valid_of_decode hread⟩

end KorshCore

import NixiSbc.Stun

namespace NixiSbc.StunRoundTrip

open ByteWords Diagnostics Utf8 Stun

def rereadAddress : SocketAddr → SocketAddr
  | .v4 ip port => .v4 ip port
  | .v6 ip port _ _ => .v6 ip port 0 0

def rereadXorAddress (transactionId : Vector UInt8 12) : SocketAddr → SocketAddr
  | .v4 ip port => .v4 ip port
  | .v6 ip port _ _ =>
      .v6 (octetsAt 16 (xorInto ip.toList (List.replicate 4 0 ++ transactionId.toList)) 0) port 0 0

def reread (transactionId : Vector UInt8 12) : StunAttribute → StunAttribute
  | .mappedAddress addr => .mappedAddress (rereadAddress addr)
  | .xorMappedAddress addr => .xorMappedAddress (rereadXorAddress transactionId addr)
  | .errorCode code reason => .errorCode code reason
  | .unknown attrType data => .unknown attrType data

theorem octetsAt_append {n : Nat} (v : Vector UInt8 n) (rest : Bytes) :
    octetsAt n (v.toList ++ rest) 0 = v := by
  ext i hi
  rw [octetsAt, Vector.getElem_ofFn, Nat.zero_add, byteAt_append_left _ (by simpa using hi), byteAt,
    List.getD_eq_getElem?_getD, List.getElem?_eq_getElem (by simpa using hi)]
  simp

theorem octetsAt_toList {n : Nat} (v : Vector UInt8 n) : octetsAt n v.toList 0 = v := by
  have h := octetsAt_append v []
  rwa [List.append_nil] at h

theorem octetsAt_drop (n : Nat) (data : Bytes) (k : Nat) :
    octetsAt n data k = octetsAt n (data.drop k) 0 := by
  ext i hi
  simp only [octetsAt, Vector.getElem_ofFn, byteAt, List.getD_eq_getElem?_getD, List.getElem?_drop,
    Nat.zero_add]

theorem address_fields (family : UInt8) (port : UInt16) (octets : Bytes) :
    ([0, family] ++ beBytes 2 port.toNat ++ octets).length = 4 + octets.length ∧
    byteAt ([0, family] ++ beBytes 2 port.toNat ++ octets) 1 = family ∧
    u16At ([0, family] ++ beBytes 2 port.toNat ++ octets) 2 = port ∧
    ([0, family] ++ beBytes 2 port.toNat ++ octets).drop 4 = octets := by
  refine ⟨by simp; omega, rfl, ?_, rfl⟩
  rw [List.append_assoc]
  exact (u16At_append_right [0, family] _ 0).trans (u16At_beBytes port _)

theorem decodeAddress_encode (addr : SocketAddr) :
    decodeAddress (encodeAddress addr) = .ok (rereadAddress addr) := by
  cases addr with
  | v4 ip port =>
      obtain ⟨hlen, hfamily, hport, hdrop⟩ := address_fields 0x01 port ip.toList
      rw [Vector.length_toList] at hlen
      rw [decodeAddress, encodeAddress, if_neg (by omega), octetsAt_drop 4 _ 4, hdrop, octetsAt_toList]
      simp only [hfamily, hport, hlen]
      rfl
  | v6 ip port flowinfo scopeId =>
      obtain ⟨hlen, hfamily, hport, hdrop⟩ := address_fields 0x02 port ip.toList
      rw [Vector.length_toList] at hlen
      rw [decodeAddress, encodeAddress, if_neg (by omega), octetsAt_drop 16 _ 4, hdrop, octetsAt_toList]
      simp only [hfamily, hport, hlen]
      rfl

theorem decodeXorAddress_encode (addr : SocketAddr) (transactionId : Vector UInt8 12) :
    decodeXorAddress (encodeXorAddress addr) transactionId =
      .ok (rereadXorAddress transactionId addr) := by
  cases addr with
  | v4 ip port =>
      obtain ⟨hlen, hfamily, hport, hdrop⟩ :=
        address_fields 0x01 (port ^^^ portMask) (xorInto ip.toList magicBytes)
      rw [xorInto_length, Vector.length_toList] at hlen
      rw [decodeXorAddress, encodeXorAddress, if_neg (by omega), hdrop, xorInto_self, octetsAt_toList]
      simp only [hfamily, hport, hlen, UInt16.xor_assoc, UInt16.xor_self, UInt16.xor_zero]
      rfl
  | v6 ip port flowinfo scopeId =>
      obtain ⟨hlen, hfamily, hport, hdrop⟩ :=
        address_fields 0x02 (port ^^^ portMask) (xorInto ip.toList magicBytes)
      rw [xorInto_length, Vector.length_toList] at hlen
      have hkey : xorInto (magicBytes ++ transactionId.toList) magicBytes =
          List.replicate 4 0 ++ transactionId.toList := by
        change (0 : UInt8) :: 0 :: 0 :: 0 :: xorInto transactionId.toList [] = _
        rw [xorInto_nil]
        rfl
      have hoctets : xorInto (xorInto ip.toList magicBytes) (magicBytes ++ transactionId.toList) =
          xorInto ip.toList (List.replicate 4 0 ++ transactionId.toList) := by
        rw [xorInto_xorInto (by simp [magicBytes]), hkey]
      rw [decodeXorAddress, encodeXorAddress, if_neg (by omega), hdrop, hoctets]
      simp only [hfamily, hport, hlen, UInt16.xor_assoc, UInt16.xor_self, UInt16.xor_zero]
      rfl

/-- The attributes that a message may carry to be read back at all: an error
class of one byte, and no known type under another name. -/
def Encodable : StunAttribute → Prop
  | .errorCode code _ => code / 100 < 256
  | .unknown attrType _ => StunAttributeType.fromU16 attrType = none
  | _ => True

def attributeType : StunAttribute → UInt16
  | .mappedAddress _ => StunAttributeType.mappedAddress.toU16
  | .xorMappedAddress _ => StunAttributeType.xorMappedAddress.toU16
  | .errorCode _ _ => StunAttributeType.errorCode.toU16
  | .unknown attrType _ => attrType

def attributeValue : StunAttribute → Bytes
  | .mappedAddress addr => encodeAddress addr
  | .xorMappedAddress addr => encodeXorAddress addr
  | .errorCode code reason => [0, 0, (code / 100).toUInt8, (code % 100).toUInt8] ++ encode reason
  | .unknown _ data => data

theorem toBytes_eq (a : StunAttribute) : a.toBytes = attributeBytes (attributeType a) (attributeValue a) := by
  cases a <;> rfl

theorem errorCode_value {code : UInt16} (h : code / 100 < 256) :
    (code / 100).toUInt8.toUInt16 * 100 + (code % 100).toUInt8.toUInt16 = code := by
  have hc := code.toNat_lt
  have hclass : code.toNat / 100 < 256 := by
    have hl := UInt16.lt_iff_toNat_lt.mp h
    rw [UInt16.toNat_div] at hl
    exact hl
  apply UInt16.toNat_inj.mp
  simp only [UInt16.toNat_add, UInt16.toNat_mul, UInt8.toNat_toUInt16, UInt16.toNat_toUInt8,
    UInt16.toNat_div, UInt16.toNat_mod, UInt16.reduceToNat]
  rw [Nat.mod_eq_of_lt hclass, Nat.mod_eq_of_lt (a := code.toNat % 100) (by omega),
    Nat.mod_eq_of_lt (a := code.toNat / 100 * 100) (by omega), Nat.div_add_mod', Nat.mod_eq_of_lt hc]

/-- One attribute is read back up to what the address decoders change. -/
theorem fromBytes_value {a : StunAttribute} (h : Encodable a) (transactionId : Vector UInt8 12) :
    StunAttribute.fromBytes (attributeType a) (attributeValue a) transactionId =
      .ok (reread transactionId a) := by
  cases a with
  | mappedAddress addr =>
      change (decodeAddress (encodeAddress addr)).map _ = _
      rw [decodeAddress_encode]
      rfl
  | xorMappedAddress addr =>
      change (decodeXorAddress (encodeXorAddress addr) transactionId).map _ = _
      rw [decodeXorAddress_encode]
      rfl
  | errorCode code reason =>
      have hlong : ¬(attributeValue (.errorCode code reason)).length < 4 := by simp [attributeValue]
      have hcode : (byteAt (attributeValue (.errorCode code reason)) 2).toUInt16 * 100 +
          (byteAt (attributeValue (.errorCode code reason)) 3).toUInt16 = code := errorCode_value h
      have hreason : (attributeValue (.errorCode code reason)).drop 4 = encode reason := rfl
      have htype : StunAttributeType.fromU16 (attributeType (.errorCode code reason)) =
          some .errorCode := rfl
      rw [StunAttribute.fromBytes, htype]
      simp only [hlong, if_false, hcode, hreason, fromUtf8Lossy_encode]
      rfl
  | unknown attrType data =>
      have hnone : StunAttributeType.fromU16 attrType = none := h
      simp only [StunAttribute.fromBytes, attributeType, attributeValue, hnone]
      rfl

theorem padded_eq (n : Nat) : padded n = n + (4 - (4 + n) % 4) % 4 := by
  rw [padded]
  omega

theorem attributeBytes_length (attrType : UInt16) (value : Bytes) :
    (attributeBytes attrType value).length = 4 + padded value.length := by
  simp only [attributeBytes, List.length_append, beBytes_length, List.length_replicate, padded_eq]
  omega

theorem attributeBytes_fields (front rest : Bytes) (attrType : UInt16) (value : Bytes)
    (hlen : value.length < 65536) :
    let data := front ++ attributeBytes attrType value ++ rest
    u16At data front.length = attrType ∧ (u16At data (front.length + 2)).toNat = value.length ∧
    (data.drop (front.length + 4)).take value.length = value ∧
    front.length + 4 + value.length ≤ data.length := by
  have hu16 : beBytes 2 value.length = beBytes 2 (UInt16.ofNat value.length).toNat := by
    rw [UInt16.toNat_ofNat', Nat.mod_eq_of_lt hlen]
  intro data
  obtain ⟨tail, hdata⟩ : ∃ tail, data = front ++ (beBytes 2 attrType.toNat ++
      (beBytes 2 value.length ++ (value ++ tail))) :=
    ⟨_, by simp only [data, attributeBytes, List.append_assoc]; rfl⟩
  rw [hdata]
  refine ⟨?_, ?_, ?_, ?_⟩
  · exact (u16At_append_right front _ 0).trans (u16At_beBytes attrType _)
  · rw [u16At_append_right front _ 2, hu16]
    have hread := (u16At_append_right (beBytes 2 attrType.toNat) _ 0).trans
      (u16At_beBytes (UInt16.ofNat value.length) (value ++ tail))
    rw [beBytes_length, Nat.add_zero] at hread
    rw [hread, UInt16.toNat_ofNat', Nat.mod_eq_of_lt hlen]
  · rw [← List.drop_drop, List.drop_left, ← List.append_assoc, List.drop_left' (by simp),
      List.take_left]
  · simp only [List.length_append, beBytes_length]
    omega

/-- The attribute loop over the encoded attributes, from any place in a message
that ends with them. -/
theorem attributesFrom_encoded (transactionId : Vector UInt8 12) (attrs : List StunAttribute)
    (hall : ∀ a ∈ attrs, Encodable a)
    (hlen : (attrs.flatMap StunAttribute.toBytes).length < 65536) (front : Bytes) :
    attributesFrom transactionId (front ++ attrs.flatMap StunAttribute.toBytes)
        (front.length + (attrs.flatMap StunAttribute.toBytes).length) front.length =
      .ok (attrs.map (reread transactionId)) := by
  induction attrs generalizing front with
  | nil =>
      rw [attributesFrom, if_neg (by simp)]
      rfl
  | cons a attrs ih =>
      rw [List.flatMap_cons, toBytes_eq, List.length_append] at hlen
      have hpad := padded_eq (attributeValue a).length
      have hsize := attributeBytes_length (attributeType a) (attributeValue a)
      obtain ⟨htype, hlength, hvalue, hfits⟩ := attributeBytes_fields front
        (attrs.flatMap StunAttribute.toBytes) (attributeType a) (attributeValue a) (by omega)
      rw [List.flatMap_cons, toBytes_eq, ← List.append_assoc, attributesFrom,
        if_pos (by rw [List.length_append]; omega), if_neg (by omega), htype, hlength,
        if_neg (by omega), hvalue, fromBytes_value (hall a List.mem_cons_self)]
      have hrest := ih (fun a ha => hall a (List.mem_cons_of_mem _ ha)) (by omega)
        (front ++ attributeBytes (attributeType a) (attributeValue a))
      have hlimit : (front ++ attributeBytes (attributeType a) (attributeValue a)).length +
          (attrs.flatMap StunAttribute.toBytes).length =
          front.length + (attributeBytes (attributeType a) (attributeValue a) ++
            attrs.flatMap StunAttribute.toBytes).length := by
        rw [List.length_append, List.length_append, Nat.add_assoc]
      have hoffset : (front ++ attributeBytes (attributeType a) (attributeValue a)).length =
          front.length + 4 + padded (attributeValue a).length := by
        rw [List.length_append, hsize, Nat.add_assoc]
      rw [hlimit, hoffset] at hrest
      simp only [hrest]
      rfl

theorem fromU16_toU16 (t : StunMessageType) : StunMessageType.fromU16 t.toU16 = some t := by
  cases t <;> rfl

theorem header_fields (msgType : UInt16) (tid : Vector UInt8 12) {body : Bytes}
    (hlen : body.length < 65536) :
    let data := beBytes 2 msgType.toNat ++ beBytes 2 body.length ++ magicBytes ++ tid.toList ++ body
    data.length = 20 + body.length ∧ u16At data 0 = msgType ∧ (u16At data 2).toNat = body.length ∧
    u32At data 4 = stunMagicCookie ∧ octetsAt 12 data 8 = tid := by
  have hu16 : beBytes 2 body.length = beBytes 2 (UInt16.ofNat body.length).toNat := by
    rw [UInt16.toNat_ofNat', Nat.mod_eq_of_lt hlen]
  intro data
  have hdata : data = beBytes 2 msgType.toNat ++ (beBytes 2 body.length ++
      (magicBytes ++ (tid.toList ++ body))) := by
    simp only [data, List.append_assoc]
  refine ⟨?_, ?_, ?_, ?_, ?_⟩
  · simp only [data, List.length_append, beBytes_length, magicBytes, Vector.length_toList]
  · rw [hdata]
    exact u16At_beBytes msgType _
  · have hread := (u16At_append_right (beBytes 2 msgType.toNat) _ 0).trans
      (u16At_beBytes (UInt16.ofNat body.length) (magicBytes ++ (tid.toList ++ body)))
    rw [beBytes_length, Nat.add_zero] at hread
    rw [hdata, hu16, hread, UInt16.toNat_ofNat', Nat.mod_eq_of_lt hlen]
  · have hread := (u32At_append_right (beBytes 2 msgType.toNat ++ beBytes 2 body.length) _ 0).trans
      (u32At_beBytes stunMagicCookie (tid.toList ++ body))
    rw [List.length_append, beBytes_length, beBytes_length, Nat.add_zero, List.append_assoc] at hread
    rw [hdata]
    exact hread
  · have hdrop : data.drop 8 = tid.toList ++ body := by
      simp only [data, List.append_assoc]
      rw [← List.append_assoc, ← List.append_assoc]
      exact List.drop_left' (by simp [magicBytes])
    rw [octetsAt_drop, hdrop, octetsAt_append]

/-- What decoding makes of an encoded message. -/
theorem fromBytes_toBytes (m : StunMessage) (hall : ∀ a ∈ m.attributes, Encodable a)
    (hlen : (m.attributes.flatMap StunAttribute.toBytes).length < 65536) :
    StunMessage.fromBytes m.toBytes =
      .ok { m with attributes := m.attributes.map (reread m.transactionId) } := by
  obtain ⟨messageType, tid, attrs⟩ := m
  dsimp only at hall hlen ⊢
  obtain ⟨hsize, htype, hlength, hmagic, htid⟩ := header_fields messageType.toU16 tid hlen
  have hloop := attributesFrom_encoded tid attrs hall hlen (beBytes 2 messageType.toU16.toNat ++
    beBytes 2 (attrs.flatMap StunAttribute.toBytes).length ++ magicBytes ++ tid.toList)
  have hfront : (beBytes 2 messageType.toU16.toNat ++
      beBytes 2 (attrs.flatMap StunAttribute.toBytes).length ++ magicBytes ++ tid.toList).length = 20 := by
    simp [magicBytes]
  rw [hfront] at hloop
  have hdata : StunMessage.toBytes ⟨messageType, tid, attrs⟩ = beBytes 2 messageType.toU16.toNat ++
      beBytes 2 (attrs.flatMap StunAttribute.toBytes).length ++ magicBytes ++ tid.toList ++
      attrs.flatMap StunAttribute.toBytes := rfl
  rw [hdata]
  generalize beBytes 2 messageType.toU16.toNat ++
      beBytes 2 (attrs.flatMap StunAttribute.toBytes).length ++ magicBytes ++ tid.toList ++
      attrs.flatMap StunAttribute.toBytes = data at hsize htype hlength hmagic htid hloop ⊢
  rw [StunMessage.fromBytes, if_neg (by omega)]
  simp only [htype, fromU16_toU16, hlength, hmagic, htid, ne_eq, not_true_eq_false, if_false, hloop]
  rfl

theorem octetsAt_eq_iff {n : Nat} {v : Vector UInt8 n} {bs : Bytes} (hlen : bs.length = n) :
    octetsAt n bs 0 = v ↔ bs = v.toList := by
  subst hlen
  have hbs := octetsAt_toList (⟨bs.toArray, by simp⟩ : Vector UInt8 bs.length)
  change octetsAt bs.length bs 0 = _ at hbs
  rw [hbs]
  constructor
  · rintro rfl
    rfl
  · rintro h
    apply Vector.toList_inj.mp
    exact h

def PlainAddr : SocketAddr → Prop
  | .v4 _ _ => True
  | .v6 _ _ flowinfo scopeId => flowinfo = 0 ∧ scopeId = 0

theorem rereadAddress_eq_self (addr : SocketAddr) : rereadAddress addr = addr ↔ PlainAddr addr := by
  cases addr with
  | v4 ip port => simp [rereadAddress, PlainAddr]
  | v6 ip port flowinfo scopeId =>
      simp only [rereadAddress, PlainAddr, SocketAddr.v6.injEq, true_and]
      exact and_congr eq_comm eq_comm

def isV6 : SocketAddr → Bool
  | .v4 _ _ => false
  | .v6 _ _ _ _ => true

theorem rereadXorAddress_eq_self (tid : Vector UInt8 12) (addr : SocketAddr) :
    rereadXorAddress tid addr = addr ↔
      PlainAddr addr ∧ (isV6 addr = true → ∀ b ∈ tid.toList, b = 0) := by
  cases addr with
  | v4 ip port => simp [rereadXorAddress, PlainAddr, isV6]
  | v6 ip port flowinfo scopeId =>
      have hlen : (xorInto ip.toList (List.replicate 4 0 ++ tid.toList)).length = 16 := by
        rw [xorInto_length, Vector.length_toList]
      simp only [rereadXorAddress, PlainAddr, isV6, SocketAddr.v6.injEq, true_and, forall_const]
      rw [octetsAt_eq_iff hlen, xorInto_eq_self (by simp), and_comm]
      refine and_congr (and_congr eq_comm eq_comm) ?_
      simp only [List.mem_append, List.mem_replicate, or_imp, forall_and]
      exact ⟨fun h => h.2, fun h => ⟨fun b hb => hb.2, h⟩⟩

/-- Decoding gives the message back exactly when no IPv6 address carries a flow
label or scope, and an IPv6 XOR address comes only with the zero transaction id:
the encoder does not mix the id in, the decoder does. -/
theorem stun_round_trip_iff (m : StunMessage) (hall : ∀ a ∈ m.attributes, Encodable a)
    (hlen : (m.attributes.flatMap StunAttribute.toBytes).length < 65536) :
    StunMessage.fromBytes m.toBytes = .ok m ↔
      (∀ addr, .mappedAddress addr ∈ m.attributes → PlainAddr addr) ∧
      (∀ addr, .xorMappedAddress addr ∈ m.attributes →
        PlainAddr addr ∧ (isV6 addr = true → ∀ b ∈ m.transactionId.toList, b = 0)) := by
  obtain ⟨messageType, tid, attrs⟩ := m
  rw [fromBytes_toBytes _ hall hlen, Except.ok.injEq, StunMessage.mk.injEq]
  dsimp only
  have hmap : attrs.map (reread tid) = attrs ↔ ∀ a ∈ attrs, reread tid a = a := by
    conv_lhs => rhs; rw [← List.map_id attrs]
    exact List.map_inj_left
  rw [hmap]
  constructor
  · rintro ⟨-, -, h⟩
    refine ⟨fun addr ha => ?_, fun addr ha => ?_⟩
    · exact (rereadAddress_eq_self addr).mp (StunAttribute.mappedAddress.inj (h _ ha))
    · exact (rereadXorAddress_eq_self tid addr).mp (StunAttribute.xorMappedAddress.inj (h _ ha))
  · rintro ⟨hmapped, hxor⟩
    refine ⟨rfl, rfl, fun a ha => ?_⟩
    cases a with
    | mappedAddress addr => exact congrArg _ ((rereadAddress_eq_self addr).mpr (hmapped addr ha))
    | xorMappedAddress addr => exact congrArg _ ((rereadXorAddress_eq_self tid addr).mpr (hxor addr ha))
    | errorCode | unknown => rfl

theorem size_sampleAddress : (#[192, 0, 2, 1] : Array UInt8).size = 4 := rfl

def sampleAttributes : List StunAttribute :=
  [.xorMappedAddress (.v4 ⟨#[192, 0, 2, 1], size_sampleAddress⟩ 5000), .errorCode 401 ['n', 'o'], .unknown 0x8022 [1, 2, 3]]

def sampleId : Vector UInt8 12 := ⟨#[1, 2, 3, 4, 5, 6, 7, 8, 9, 10, 11, 12], rfl⟩

theorem sampleAttributes_encodable : ∀ a ∈ sampleAttributes, Encodable a := by
  simp only [sampleAttributes, List.forall_mem_cons, Encodable]
  exact ⟨trivial, by decide, by decide, fun a ha => absurd ha List.not_mem_nil⟩

theorem stun_round_trip_sample :
    (sampleAttributes.flatMap StunAttribute.toBytes).length < 65536 ∧
    StunMessage.fromBytes (StunMessage.toBytes ⟨.bindingResponse, sampleId, sampleAttributes⟩) =
      .ok ⟨.bindingResponse, sampleId, sampleAttributes⟩ := by
  refine ⟨by decide, (stun_round_trip_iff _ sampleAttributes_encodable (by decide)).mpr ⟨?_, ?_⟩⟩
  · intro addr ha
    simp [sampleAttributes] at ha
  · intro addr ha
    simp only [sampleAttributes, List.mem_cons, StunAttribute.xorMappedAddress.injEq, reduceCtorEq,
      List.not_mem_nil, or_false] at ha
    subst ha
    exact ⟨trivial, fun h => absurd h (by decide)⟩

def v6Attributes : List StunAttribute := [.xorMappedAddress (.v6 (Vector.replicate 16 0) 5000 0 0)]

/-- An IPv6 XOR address comes back masked with the transaction id. -/
theorem stun_round_trip_fails_v6 :
    (∀ a ∈ v6Attributes, Encodable a) ∧ (v6Attributes.flatMap StunAttribute.toBytes).length < 65536 ∧
    StunMessage.fromBytes (StunMessage.toBytes ⟨.bindingResponse, sampleId, v6Attributes⟩) ≠
      .ok ⟨.bindingResponse, sampleId, v6Attributes⟩ := by
  have hall : ∀ a ∈ v6Attributes, Encodable a := by
    intro a ha
    rw [List.mem_singleton.mp ha]
    trivial
  refine ⟨hall, by decide, ?_⟩
  rw [fromBytes_toBytes _ hall (by decide), ne_eq, Except.ok.injEq, StunMessage.mk.injEq]
  rintro ⟨-, -, h⟩
  revert h
  decide

end NixiSbc.StunRoundTrip

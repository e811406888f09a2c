import NixiSbc.ReflectedCrc
import NixiSbc.StunIntegrity
import NixiSbc.StunRoundTrip

namespace NixiSbc.StunResponse

open ByteWords Diagnostics Utf8 ReflectedCrc Stun StunIntegrity StunRoundTrip

def crc32Table : List UInt32 := (List.range 256).map fun i => crcEntry (UInt32.ofNat i)

/-- The checksum as it is computed, byte by byte from the table. -/
def crc32StunTable (data : Bytes) : UInt32 :=
  let step := fun (crc : UInt32) (byte : UInt8) =>
    (crc >>> 8) ^^^ crc32Table.getD ((crc ^^^ byte.toUInt32) &&& 0xFF).toNat 0
  data.foldl step 0xFFFFFFFF ^^^ 0xFFFFFFFF

def setLength (bytes : Bytes) (length : UInt16) : Bytes :=
  (bytes.set 2 (length >>> 8).toUInt8).set 3 (length &&& 0xFF).toUInt8

def mappedAddress (m : StunMessage) : Option SocketAddr :=
  m.attributes.findSome? fun attr =>
    match attr with
    | .xorMappedAddress addr => some addr
    | .mappedAddress addr => some addr
    | _ => none

def buildBindingResponseWithIntegrity (hmacSha1 : Bytes → Bytes → Vector UInt8 20) (requestData : Bytes)
    (source : SocketAddr) (localIcePwd : Option (List Char)) : Except Error Bytes := do
  let request ← StunMessage.fromBytes requestData
  if request.messageType ≠ .bindingRequest then .error (.media "Not a STUN Binding Request")
  else
    let response : StunMessage := ⟨.bindingResponse, request.transactionId, [.xorMappedAddress source]⟩
    let bytes := response.toBytes
    match localIcePwd with
    | none => .ok bytes
    | some pwd =>
        let miLen := u16At bytes 2 + 24
        let bytes := setLength bytes miLen
        let hmacResult := hmacSha1 (encode pwd) bytes
        let bytes := bytes ++ beBytes 2 0x0008 ++ beBytes 2 0x0014 ++ hmacResult.toList
        let fpLen := miLen + 8
        let bytes := setLength bytes fpLen
        let fingerprint := crc32StunTable bytes ^^^ fingerprintMask
        .ok (bytes ++ beBytes 2 0x8028 ++ beBytes 2 0x0004 ++ beBytes 4 fingerprint.toNat)

section Checksum

/-- CRC-32 by definition: the bits of the message from the least significant one
of each byte, into a register of ones, and the complement of what is left. -/
def reflectedCrc32 (data : Bytes) : BitVec 32 :=
  ~~~serial 0xEDB88320#32 (BitVec.allOnes 32) (data.flatMap fun byte => lowBits 8 byte.toBitVec)

theorem toBitVec_crcShift (crc : UInt32) : (crcShift crc).toBitVec = feedback 0xEDB88320#32 crc.toBitVec := by
  have hbit : (crc &&& 1 ≠ 0) ↔ crc.toBitVec.getLsbD 0 = true := by
    rw [ne_eq, ← UInt32.toBitVec_inj, UInt32.toBitVec_and]
    change ¬crc.toBitVec &&& 1#32 = 0#32 ↔ _
    rw [BitVec.and_one_eq_setWidth_ofBool_getLsbD]
    cases crc.toBitVec.getLsbD 0 with
    | false => decide
    | true => decide
  rw [crcShift, feedback]
  by_cases h : crc &&& 1 ≠ 0
  · rw [if_pos h, if_pos (hbit.mp h)]
    rfl
  · rw [if_neg h, if_neg (mt hbit.mpr h)]
    rfl

theorem toBitVec_crcEntry (i : UInt32) : (crcEntry i).toBitVec = (feedback 0xEDB88320#32)^[8] i.toBitVec := by
  simp only [crcEntry, toBitVec_crcShift]
  rfl

theorem table_lookup (i : UInt32) : crc32Table.getD (i &&& 0xFF).toNat 0 = crcEntry (i &&& 0xFF) := by
  have hlt : (i &&& 0xFF).toNat < 256 := by
    rw [UInt32.toNat_and]
    exact Nat.and_lt_two_pow _ (show 255 < 2 ^ 8 by decide)
  rw [crc32Table, List.getD_eq_getElem?_getD, List.getElem?_map, List.getElem?_range hlt, Option.map_some,
    Option.getD_some, UInt32.ofNat_toNat]

/-- The table holds what the checksum of the verifier computes. -/
theorem crc32StunTable_eq (data : Bytes) : crc32StunTable data = crc32Stun data := by
  rw [crc32StunTable, crc32Stun]
  simp only [table_lookup]

theorem mask_bits (i : Nat) (hi : i < 32) : (0xFF#32).getLsbD i = decide (i < 8) := by
  rw [BitVec.getLsbD_ofNat, decide_eq_true hi, Bool.true_and]
  exact Nat.testBit_two_pow_sub_one 8 i

theorem byte_shift (byte : UInt8) : byte.toUInt32.toBitVec >>> 8 = 0#32 := by
  apply BitVec.eq_of_toNat_eq
  have hlt := byte.toNat_lt
  simp only [BitVec.toNat_ushiftRight, UInt32.toNat_toBitVec, UInt8.toNat_toUInt32, Nat.shiftRight_eq_div_pow,
    BitVec.toNat_ofNat]
  omega

theorem byte_bits (byte : UInt8) : lowBits 8 byte.toUInt32.toBitVec = lowBits 8 byte.toBitVec := by
  apply List.map_congr_left
  intro i hi
  have hlt : i < 32 := (List.mem_range.mp hi).trans (by decide)
  rw [UInt8.toBitVec_toUInt32, BitVec.getLsbD_setWidth, decide_eq_true hlt, Bool.true_and]

/-- One byte from the table, and its bits one by one. -/
theorem byte_step (crc : UInt32) (byte : UInt8) :
    ((crc >>> 8) ^^^ crcEntry ((crc ^^^ byte.toUInt32) &&& 0xFF)).toBitVec =
      serial 0xEDB88320#32 crc.toBitVec (lowBits 8 byte.toBitVec) := by
  have hhigh : (crc >>> 8).toBitVec = (crc.toBitVec ^^^ byte.toUInt32.toBitVec) >>> 8 := by
    rw [BitVec.ushiftRight_xor_distrib, byte_shift, BitVec.xor_zero]
    rfl
  calc ((crc >>> 8) ^^^ crcEntry ((crc ^^^ byte.toUInt32) &&& 0xFF)).toBitVec
      = (crc.toBitVec ^^^ byte.toUInt32.toBitVec) >>> 8 ^^^
          (feedback 0xEDB88320#32)^[8] ((crc.toBitVec ^^^ byte.toUInt32.toBitVec) &&& 0xFF#32) := by
        rw [UInt32.toBitVec_xor, hhigh, toBitVec_crcEntry]
        rfl
    _ = (feedback 0xEDB88320#32)^[8] (crc.toBitVec ^^^ byte.toUInt32.toBitVec) := table_step mask_bits _
    _ = serial 0xEDB88320#32 crc.toBitVec (lowBits 8 byte.toBitVec) := by
        rw [iterate_eq_serial, byte_shift, BitVec.xor_zero, byte_bits]

theorem crc32StunTable_reflected (data : Bytes) : (crc32StunTable data).toBitVec = reflectedCrc32 data := by
  have hfold (crc : UInt32) : (data.foldl (fun (crc : UInt32) (byte : UInt8) =>
      (crc >>> 8) ^^^ crcEntry ((crc ^^^ byte.toUInt32) &&& 0xFF)) crc).toBitVec =
        serial 0xEDB88320#32 crc.toBitVec (data.flatMap fun byte => lowBits 8 byte.toBitVec) := by
    induction data generalizing crc with
    | nil => rfl
    | cons byte data ih =>
        rw [List.foldl_cons, ih, byte_step, List.flatMap_cons, serial, serial, serial, List.foldl_append]
  rw [crc32StunTable_eq, crc32Stun, UInt32.toBitVec_xor, hfold, reflectedCrc32]
  exact BitVec.xor_allOnes

end Checksum

section Walk

/-- Where the attributes of an encoded message stand. -/
def seenFrom (offset : Nat) : List StunAttribute → List Seen
  | [] => []
  | a :: attrs => ⟨offset, attributeType a, (attributeValue a).length⟩ ::
      seenFrom (offset + 4 + padded (attributeValue a).length) attrs

theorem visited_encoded (attrs : List StunAttribute) (hlen : (attrs.flatMap StunAttribute.toBytes).length < 65536)
    (front : Bytes) :
    visited (front ++ attrs.flatMap StunAttribute.toBytes)
        (front.length + (attrs.flatMap StunAttribute.toBytes).length) front.length =
      some (seenFrom front.length attrs) := by
  induction attrs generalizing front with
  | nil => exact visited_end (by simp)
  | cons a attrs ih =>
      rw [List.flatMap_cons, toBytes_eq, List.length_append] at hlen
      have hpad := padded_eq (attributeValue a).length
      have hsize := attributeBytes_length (attributeType a) (attributeValue a)
      obtain ⟨htype, hlength, -, -⟩ := attributeBytes_fields front
        (attrs.flatMap StunAttribute.toBytes) (attributeType a) (attributeValue a) (by omega)
      have hrest := ih (by omega) (front ++ attributeBytes (attributeType a) (attributeValue a))
      rw [List.flatMap_cons, toBytes_eq, ← List.append_assoc, seenFrom, visited_cons, htype, hlength]
      refine ⟨rfl, ?_, ?_⟩
      · change front.length + 4 + (attributeValue a).length ≤ _
        rw [List.length_append]
        omega
      · have hoffset : (front ++ attributeBytes (attributeType a) (attributeValue a)).length =
            front.length + 4 + padded (attributeValue a).length := by
          rw [List.length_append, hsize, Nat.add_assoc]
        rw [hoffset] at hrest
        rw [← hrest, List.length_append, hsize]
        congr 1
        omega

end Walk

section Response

variable (hmacSha1 : Bytes → Bytes → Vector UInt8 20) (tid : Vector UInt8 12) (ip : Vector UInt8 4) (port : UInt16)
  (pwd : List Char)

/-- What stands between the length and the MESSAGE-INTEGRITY. -/
def mapped : Bytes :=
  magicBytes ++ tid.toList ++ attributeBytes StunAttributeType.xorMappedAddress.toU16 (encodeXorAddress (.v4 ip port))

theorem mapped_length : (mapped tid ip port).length = 28 := by
  have haddr : (encodeXorAddress (.v4 ip port)).length = 8 := by
    simp [encodeXorAddress, xorInto_length]
  rw [mapped, List.length_append, List.length_append, attributeBytes_length, haddr, Vector.length_toList]
  rfl

def mac : Vector UInt8 20 := hmacSha1 (encode pwd) ([1, 1, 0, 36] ++ mapped tid ip port)

/-- What stands before the FINGERPRINT. -/
def signed : Bytes := [1, 1, 0, 44] ++ mapped tid ip port ++ attributeBytes 0x0008 (mac hmacSha1 tid ip port pwd).toList

def answered : List StunAttribute :=
  [.xorMappedAddress (.v4 ip port), .unknown 0x0008 (mac hmacSha1 tid ip port pwd).toList,
    .unknown 0x8028 (beBytes 4 (crc32StunTable (signed hmacSha1 tid ip port pwd) ^^^ fingerprintMask).toNat)]

theorem attributeBytes_exact (attrType : UInt16) {value : Bytes} (h : value.length % 4 = 0) :
    attributeBytes attrType value = beBytes 2 attrType.toNat ++ beBytes 2 value.length ++ value := by
  have hpad : (4 - (beBytes 2 attrType.toNat ++ beBytes 2 value.length ++ value).length % 4) % 4 = 0 := by
    simp only [List.length_append, beBytes_length]
    omega
  rw [attributeBytes, hpad, List.replicate_zero, List.append_nil]

theorem attributeBytes_mac (v : Vector UInt8 20) :
    attributeBytes 0x0008 v.toList = beBytes 2 0x0008 ++ beBytes 2 0x0014 ++ v.toList := by
  rw [attributeBytes_exact _ (by rw [Vector.length_toList]), Vector.length_toList]
  rfl

theorem attributeBytes_crc (n : Nat) :
    attributeBytes 0x8028 (beBytes 4 n) = beBytes 2 0x8028 ++ beBytes 2 0x0004 ++ beBytes 4 n := by
  rw [attributeBytes_exact _ (by rw [beBytes_length]), beBytes_length]
  rfl

theorem base_toBytes : StunMessage.toBytes ⟨.bindingResponse, tid, [.xorMappedAddress (.v4 ip port)]⟩ =
    [1, 1, 0, 12] ++ mapped tid ip port := by
  have haddr : (encodeXorAddress (.v4 ip port)).length = 8 := by
    simp [encodeXorAddress, xorInto_length]
  have hlen : ([StunAttribute.xorMappedAddress (.v4 ip port)].flatMap StunAttribute.toBytes).length = 12 := by
    rw [List.flatMap_singleton, toBytes_eq, attributeBytes_length]
    change 4 + padded (encodeXorAddress (.v4 ip port)).length = 12
    rw [haddr]
    rfl
  rw [StunMessage.toBytes]
  dsimp only
  rw [hlen, List.flatMap_singleton, mapped, List.append_assoc, List.append_assoc, List.append_assoc, List.append_assoc]
  rfl

theorem answered_length : (attributeBytes StunAttributeType.xorMappedAddress.toU16 (encodeXorAddress (.v4 ip port)) ++
    (attributeBytes 0x0008 (mac hmacSha1 tid ip port pwd).toList ++ attributeBytes 0x8028
      (beBytes 4 (crc32StunTable (signed hmacSha1 tid ip port pwd) ^^^ fingerprintMask).toNat))).length = 44 := by
  have haddr : (encodeXorAddress (.v4 ip port)).length = 8 := by
    simp [encodeXorAddress, xorInto_length]
  simp only [List.length_append, attributeBytes_length, haddr, Vector.length_toList, beBytes_length]
  rfl

theorem answered_toBytes : StunMessage.toBytes ⟨.bindingResponse, tid, answered hmacSha1 tid ip port pwd⟩ =
    signed hmacSha1 tid ip port pwd ++
      attributeBytes 0x8028 (beBytes 4 (crc32StunTable (signed hmacSha1 tid ip port pwd) ^^^ fingerprintMask).toNat) := by
  have hattrs : (answered hmacSha1 tid ip port pwd).flatMap StunAttribute.toBytes =
      attributeBytes StunAttributeType.xorMappedAddress.toU16 (encodeXorAddress (.v4 ip port)) ++
        (attributeBytes 0x0008 (mac hmacSha1 tid ip port pwd).toList ++ attributeBytes 0x8028
          (beBytes 4 (crc32StunTable (signed hmacSha1 tid ip port pwd) ^^^ fingerprintMask).toNat)) := by
    simp only [answered, List.flatMap_cons, List.flatMap_nil, List.append_nil]
    rfl
  rw [StunMessage.toBytes]
  dsimp only
  rw [hattrs, answered_length, signed, mapped]
  simp only [List.append_assoc]
  rfl

theorem u16At_length (rest : Bytes) : u16At ([1, 1, 0, 12] ++ rest) 2 = 12 := by
  rw [u16At]
  simp [byteAt, beNat]

theorem setLength_mac (rest : Bytes) : setLength ([1, 1, 0, 12] ++ rest) (12 + 24) = [1, 1, 0, 36] ++ rest := rfl

theorem setLength_crc (rest : Bytes) : setLength ([1, 1, 0, 36] ++ rest) (12 + 24 + 8) = [1, 1, 0, 44] ++ rest := rfl

theorem build_eq {requestData : Bytes} {request : StunMessage} (h : StunMessage.fromBytes requestData = .ok request)
    (hrequest : request.messageType = .bindingRequest) :
    buildBindingResponseWithIntegrity hmacSha1 requestData (.v4 ip port) (some pwd) =
      .ok (StunMessage.toBytes ⟨.bindingResponse, request.transactionId,
        answered hmacSha1 request.transactionId ip port pwd⟩) := by
  rw [answered_toBytes, attributeBytes_crc, signed, mac, attributeBytes_mac, buildBindingResponseWithIntegrity, h]
  change (if request.messageType ≠ .bindingRequest then _ else _) = _
  rw [if_neg (not_not.mpr hrequest), base_toBytes]
  rw [u16At_length, setLength_mac]
  simp only [List.append_assoc]
  rw [setLength_crc]
  simp only [List.append_assoc]

theorem answered_encodable : ∀ a ∈ answered hmacSha1 tid ip port pwd, StunRoundTrip.Encodable a := by
  simp only [answered, List.forall_mem_cons, StunRoundTrip.Encodable]
  exact ⟨trivial, by decide, by decide, fun a ha => absurd ha List.not_mem_nil⟩

theorem answered_attributes :
    ((answered hmacSha1 tid ip port pwd).flatMap StunAttribute.toBytes).length = 44 := by
  rw [← answered_length hmacSha1 tid ip port pwd]
  simp only [answered, List.flatMap_cons, List.flatMap_nil, List.append_nil]
  rfl

theorem signed_length : (signed hmacSha1 tid ip port pwd).length = 56 := by
  rw [signed, List.length_append, List.length_append, mapped_length, attributeBytes_length, Vector.length_toList]
  rfl

theorem answered_fields :
    let data := StunMessage.toBytes ⟨.bindingResponse, tid, answered hmacSha1 tid ip port pwd⟩
    data.length = 64 ∧ (u16At data 2).toNat = 44 := by
  have hlen := answered_attributes hmacSha1 tid ip port pwd
  have hsmall : ((answered hmacSha1 tid ip port pwd).flatMap StunAttribute.toBytes).length < 65536 := by omega
  obtain ⟨hsize, -, hlength, -, -⟩ := header_fields StunMessageType.bindingResponse.toU16 tid hsmall
  exact ⟨hsize.trans (by rw [hlen]), hlength.trans hlen⟩

theorem answered_seen : seenFrom 20 (answered hmacSha1 tid ip port pwd) =
    [⟨20, 0x0020, 8⟩, ⟨32, 0x0008, 20⟩, ⟨56, 0x8028, 4⟩] := by
  have haddr : (encodeXorAddress (.v4 ip port)).length = 8 := by
    simp [encodeXorAddress, xorInto_length]
  simp only [answered, seenFrom, attributeValue, haddr, Vector.length_toList, beBytes_length]
  rfl

theorem answered_mac : macAt (StunMessage.toBytes ⟨.bindingResponse, tid, answered hmacSha1 tid ip port pwd⟩) 32 =
    (mac hmacSha1 tid ip port pwd).toList := by
  have hfront : ([1, 1, 0, 44] ++ mapped tid ip port ++ beBytes 2 0x0008 ++ beBytes 2 0x0014).length = 32 + 4 := by
    simp only [List.length_append, mapped_length, beBytes_length]
    rfl
  have hmac : (mac hmacSha1 tid ip port pwd).toList.length = 20 := Vector.length_toList
  rw [macAt, answered_toBytes, signed, attributeBytes_mac, ← List.append_assoc, ← List.append_assoc, List.append_assoc _ _
    (attributeBytes _ _), List.drop_left' hfront, List.take_left' hmac]

theorem answered_crc : u32At (StunMessage.toBytes ⟨.bindingResponse, tid, answered hmacSha1 tid ip port pwd⟩) 60 =
    crc32StunTable (signed hmacSha1 tid ip port pwd) ^^^ fingerprintMask := by
  have hfront : (signed hmacSha1 tid ip port pwd ++ (beBytes 2 0x8028 ++ beBytes 2 0x0004)).length = 60 := by
    simp only [List.length_append, signed_length, beBytes_length]
  rw [answered_toBytes, attributeBytes_crc, ← List.append_assoc, ← hfront]
  exact (u32At_append_right _ _ 0).trans ((u32At_append_left [] (by rw [beBytes_length]; decide)).symm.trans
    (u32At_beBytes _ []))

/-- What the verifier's walk finds. -/
theorem answered_walk :
    let data := StunMessage.toBytes ⟨.bindingResponse, tid, answered hmacSha1 tid ip port pwd⟩
    walk data (messageEnd data) 20 {} = some ⟨some (32, (mac hmacSha1 tid ip port pwd).toList),
      some (56, crc32StunTable (signed hmacSha1 tid ip port pwd) ^^^ fingerprintMask), false⟩ := by
  intro data
  have hlen := answered_attributes hmacSha1 tid ip port pwd
  obtain ⟨hsize, hlength⟩ := answered_fields hmacSha1 tid ip port pwd
  have hend : messageEnd data = 64 := by
    rw [messageEnd, hsize, hlength]
    rfl
  have hvisited := visited_encoded (answered hmacSha1 tid ip port pwd) (by omega)
    (beBytes 2 StunMessageType.bindingResponse.toU16.toNat ++
      beBytes 2 ((answered hmacSha1 tid ip port pwd).flatMap StunAttribute.toBytes).length ++ magicBytes ++ tid.toList)
  have hfront : (beBytes 2 StunMessageType.bindingResponse.toU16.toNat ++
      beBytes 2 ((answered hmacSha1 tid ip port pwd).flatMap StunAttribute.toBytes).length ++ magicBytes ++
        tid.toList).length = 20 := by
    simp [magicBytes]
  have hstop : 20 + ((answered hmacSha1 tid ip port pwd).flatMap StunAttribute.toBytes).length = 64 := by rw [hlen]
  rw [hfront, hstop, answered_seen] at hvisited
  have hseen : visited data 64 20 = some [⟨20, 0x0020, 8⟩, ⟨32, 0x0008, 20⟩, ⟨56, 0x8028, 4⟩] := hvisited
  rw [hend, walk_eq, hseen, Option.map_some, scan_eq]
  simp [isIntegrity, isFingerprint, isUsername, data, answered_mac, answered_crc]

/-- The code was computed under a length that ends behind it. -/
theorem covered_answered :
    covered (StunMessage.toBytes ⟨.bindingResponse, tid, answered hmacSha1 tid ip port pwd⟩) 32 =
      [1, 1, 0, 36] ++ mapped tid ip port := by
  have hfront : ([1, 1, 0, 44] ++ mapped tid ip port).length = 32 := by
    rw [List.length_append, mapped_length]
    rfl
  rw [covered, answered_toBytes, signed, List.append_assoc _ _ (attributeBytes 0x8028 _), List.take_left' hfront]
  rfl

theorem mappedAddress_answered :
    mappedAddress ⟨.bindingResponse, tid, (answered hmacSha1 tid ip port pwd).map (reread tid)⟩ = some (.v4 ip port) := rfl

end Response

/-- The response ends where its length says, decodes to the answer, and carries
the checksum and the code that the verifier of requests would compute; and the
table computes the checksum of the definition. -/
theorem binding_response_consistent (hmacSha1 : Bytes → Bytes → Vector UInt8 20) (requestData : Bytes)
    {request : StunMessage} (h : StunMessage.fromBytes requestData = .ok request)
    (hrequest : request.messageType = .bindingRequest) (ip : Vector UInt8 4) (port : UInt16) (pwd : List Char) :
    ∃ bytes, buildBindingResponseWithIntegrity hmacSha1 requestData (.v4 ip port) (some pwd) = .ok bytes ∧
      bytes.length = 20 + (u16At bytes 2).toNat ∧
      (∃ response, StunMessage.fromBytes bytes = .ok response ∧ response.messageType = .bindingResponse ∧
        response.transactionId = request.transactionId ∧ mappedAddress response = some (.v4 ip port)) ∧
      (∃ scan miAt fpAt, walk bytes (messageEnd bytes) 20 {} = some scan ∧
        scan.fingerprint = some (fpAt, crc32StunTable (bytes.take fpAt) ^^^ fingerprintMask) ∧
        bytes.length = fpAt + 8 ∧
        scan.integrity = some (miAt, (hmacSha1 (encode pwd) (covered bytes miAt)).toList)) ∧
      ∀ data, (crc32StunTable data).toBitVec = reflectedCrc32 data := by
  have hlen := answered_attributes hmacSha1 request.transactionId ip port pwd
  obtain ⟨hsize, hlength⟩ := answered_fields hmacSha1 request.transactionId ip port pwd
  refine ⟨_, build_eq hmacSha1 ip port pwd h hrequest, by rw [hsize, hlength], ?_, ?_, crc32StunTable_reflected⟩
  · exact ⟨_, fromBytes_toBytes _ (answered_encodable _ _ ip port pwd) (by dsimp only; omega), rfl, rfl,
      mappedAddress_answered hmacSha1 _ ip port pwd⟩
  · refine ⟨_, 32, 56, answered_walk hmacSha1 _ ip port pwd, ?_, hsize, ?_⟩
    · dsimp only
      rw [answered_toBytes, List.take_left' (signed_length hmacSha1 _ ip port pwd)]
    · dsimp only
      rw [covered_answered, mac]

def sampleRequest : Bytes := StunMessage.toBytes ⟨.bindingRequest, sampleId, []⟩

theorem binding_response_consistent_sample :
    ∃ bytes, buildBindingResponseWithIntegrity (fun _ _ => Vector.replicate 20 7) sampleRequest
        (.v4 ⟨#[192, 0, 2, 1], rfl⟩ 5000) (some ['p', 'w']) = .ok bytes ∧ bytes.length = 20 + (u16At bytes 2).toNat := by
  obtain ⟨bytes, hbuild, hlength, -⟩ := binding_response_consistent (fun _ _ => Vector.replicate 20 7) sampleRequest
    (fromBytes_toBytes ⟨.bindingRequest, sampleId, []⟩ (fun a ha => absurd ha List.not_mem_nil) (by decide)) rfl
    ⟨#[192, 0, 2, 1], rfl⟩ 5000 ['p', 'w']
  exact ⟨bytes, hbuild, hlength⟩

end NixiSbc.StunResponse

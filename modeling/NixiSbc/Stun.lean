import NixiSbc.Diagnostics
import NixiSbc.Utf8

namespace NixiSbc.Stun

open ByteWords Diagnostics Utf8

def stunMagicCookie : UInt32 := 0x2112A442

inductive StunMessageType
  | bindingRequest
  | bindingResponse
  | bindingError
  deriving DecidableEq

def StunMessageType.fromU16 (value : UInt16) : Option StunMessageType :=
  if value = 0x0001 then some .bindingRequest
  else if value = 0x0101 then some .bindingResponse
  else if value = 0x0111 then some .bindingError
  else none

def StunMessageType.toU16 : StunMessageType → UInt16
  | .bindingRequest => 0x0001
  | .bindingResponse => 0x0101
  | .bindingError => 0x0111

inductive StunAttributeType
  | mappedAddress
  | xorMappedAddress
  | errorCode
  deriving DecidableEq

def StunAttributeType.fromU16 (value : UInt16) : Option StunAttributeType :=
  if value = 0x0001 then some .mappedAddress
  else if value = 0x0020 then some .xorMappedAddress
  else if value = 0x0009 then some .errorCode
  else none

def StunAttributeType.toU16 : StunAttributeType → UInt16
  | .mappedAddress => 0x0001
  | .xorMappedAddress => 0x0020
  | .errorCode => 0x0009

/-- A socket address; the IPv6 form has a flow label and a scope besides. -/
inductive SocketAddr
  | v4 (ip : Vector UInt8 4) (port : UInt16)
  | v6 (ip : Vector UInt8 16) (port : UInt16) (flowinfo scopeId : UInt32)
  deriving DecidableEq

inductive StunAttribute
  | mappedAddress (addr : SocketAddr)
  | xorMappedAddress (addr : SocketAddr)
  | errorCode (code : UInt16) (reason : List Char)
  | unknown (attrType : UInt16) (data : Bytes)
  deriving DecidableEq

structure StunMessage where
  messageType : StunMessageType
  transactionId : Vector UInt8 12
  attributes : List StunAttribute
  deriving DecidableEq

def encodeAddress : SocketAddr → Bytes
  | .v4 ip port => [0, 0x01] ++ beBytes 2 port.toNat ++ ip.toList
  | .v6 ip port _ _ => [0, 0x02] ++ beBytes 2 port.toNat ++ ip.toList

def magicBytes : Bytes := beBytes 4 stunMagicCookie.toNat

def portMask : UInt16 := (stunMagicCookie >>> 16).toUInt16

/-- The encoder has no transaction id: it leaves the last twelve bytes of an
IPv6 address as they are. -/
def encodeXorAddress : SocketAddr → Bytes
  | .v4 ip port => [0, 0x01] ++ beBytes 2 (port ^^^ portMask).toNat ++ xorInto ip.toList magicBytes
  | .v6 ip port _ _ => [0, 0x02] ++ beBytes 2 (port ^^^ portMask).toNat ++ xorInto ip.toList magicBytes

def octetsAt (n : Nat) (data : Bytes) (offset : Nat) : Vector UInt8 n :=
  Vector.ofFn fun i => byteAt data (offset + i)

def decodeAddress (data : Bytes) : Except Error SocketAddr :=
  if data.length < 4 then .error (.media "Invalid address attribute")
  else
    let family := byteAt data 1
    let port := u16At data 2
    if family = 0x01 then
      if data.length < 8 then .error (.media "Invalid IPv4 address")
      else .ok (.v4 (octetsAt 4 data 4) port)
    else if family = 0x02 then
      if data.length < 20 then .error (.media "Invalid IPv6 address")
      else .ok (.v6 (octetsAt 16 data 4) port 0 0)
    else .error (.media ("Unknown address family: " ++ toString family.toNat))

def decodeXorAddress (data : Bytes) (transactionId : Vector UInt8 12) : Except Error SocketAddr :=
  if data.length < 4 then .error (.media "Invalid XOR address attribute")
  else
    let family := byteAt data 1
    let port := u16At data 2 ^^^ portMask
    if family = 0x01 then
      if data.length < 8 then .error (.media "Invalid XOR IPv4 address")
      else .ok (.v4 (octetsAt 4 (xorInto (data.drop 4) magicBytes) 0) port)
    else if family = 0x02 then
      if data.length < 20 then .error (.media "Invalid XOR IPv6 address")
      else
        .ok (.v6 (octetsAt 16 (xorInto (data.drop 4) (magicBytes ++ transactionId.toList)) 0) port 0 0)
    else .error (.media ("Unknown address family: " ++ toString family.toNat))

/-- Type, length, value, and zeros up to a multiple of four bytes. -/
def attributeBytes (attrType : UInt16) (value : Bytes) : Bytes :=
  let bytes := beBytes 2 attrType.toNat ++ beBytes 2 value.length ++ value
  bytes ++ List.replicate ((4 - bytes.length % 4) % 4) 0

def StunAttribute.toBytes : StunAttribute → Bytes
  | .xorMappedAddress addr =>
      attributeBytes StunAttributeType.xorMappedAddress.toU16 (encodeXorAddress addr)
  | .mappedAddress addr => attributeBytes StunAttributeType.mappedAddress.toU16 (encodeAddress addr)
  | .errorCode code reason =>
      attributeBytes StunAttributeType.errorCode.toU16
        ([0, 0, (code / 100).toUInt8, (code % 100).toUInt8] ++ encode reason)
  | .unknown attrType data => attributeBytes attrType data

def StunAttribute.fromBytes (attrType : UInt16) (data : Bytes) (transactionId : Vector UInt8 12) :
    Except Error StunAttribute :=
  match StunAttributeType.fromU16 attrType with
  | some .mappedAddress => (decodeAddress data).map .mappedAddress
  | some .xorMappedAddress => (decodeXorAddress data transactionId).map .xorMappedAddress
  | some .errorCode =>
      if data.length < 4 then .error (.media "Invalid error code attribute")
      else
        .ok (.errorCode ((byteAt data 2).toUInt16 * 100 + (byteAt data 3).toUInt16)
          (fromUtf8Lossy (data.drop 4)))
  | none => .ok (.unknown attrType data)

def StunMessage.toBytes (m : StunMessage) : Bytes :=
  let attrsBytes := m.attributes.flatMap StunAttribute.toBytes
  beBytes 2 m.messageType.toU16.toNat ++ beBytes 2 attrsBytes.length ++ magicBytes ++
    m.transactionId.toList ++ attrsBytes

def padded (n : Nat) : Nat := (n + 3) / 4 * 4

def attributesFrom (transactionId : Vector UInt8 12) (data : Bytes) (limit offset : Nat) :
    Except Error (List StunAttribute) :=
  if offset < limit then
    if offset + 4 > data.length then .ok []
    else
      let attrType := u16At data offset
      let attrLen := (u16At data (offset + 2)).toNat
      if offset + 4 + attrLen > data.length then .error (.media "Invalid STUN attribute length")
      else
        match StunAttribute.fromBytes attrType ((data.drop (offset + 4)).take attrLen) transactionId with
        | .error e => .error e
        | .ok attr =>
            (attributesFrom transactionId data limit (offset + 4 + padded attrLen)).map (attr :: ·)
  else .ok []
termination_by limit - offset

def StunMessage.fromBytes (data : Bytes) : Except Error StunMessage :=
  if data.length < 20 then .error (.media "STUN message too short")
  else
    let msgTypeRaw := u16At data 0
    match StunMessageType.fromU16 msgTypeRaw with
    | none => .error (.media ("Unknown STUN message type: " ++ toString msgTypeRaw.toNat))
    | some messageType =>
        let length := (u16At data 2).toNat
        let magic := u32At data 4
        if magic ≠ stunMagicCookie then
          .error (.media ("Invalid STUN magic cookie: " ++ hexPrefixed magic))
        else
          let transactionId := octetsAt 12 data 8
          (attributesFrom transactionId data (20 + length) 20).map fun attributes =>
            ⟨messageType, transactionId, attributes⟩

end NixiSbc.Stun

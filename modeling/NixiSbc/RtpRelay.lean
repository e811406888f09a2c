import NixiSbc.Endpoints
import NixiSbc.SrtpContext
import NixiSbc.StunIntegrity
import Mathlib.Logic.Function.Basic

namespace NixiSbc.RtpRelay

open ByteWords Diagnostics Stun NetAddr SrtpKeys SrtpContext StunIntegrity Endpoints

inductive Codec
  | pcmu
  | pcma
  | opus
  | unknown (pt : UInt8)
  deriving DecidableEq

def Codec.clockRate : Codec → Nat
  | .opus => 48000
  | _ => 8000

def Codec.isUnknown : Codec → Bool
  | .unknown _ => true
  | _ => false

/-- The payload types are those of an SDP. What the codecs compute stays
abstract; they may keep a state. -/
structure Transcoder (γ : Type) where
  src : Codec
  dst : Codec
  srcPt : UInt8
  dstPt : UInt8
  srcPt_le : srcPt ≤ 127
  dstPt_le : dstPt ≤ 127
  convert : γ → Bytes → Except Error Bytes × γ

section

variable {γ : Type}

def Transcoder.isPassthrough (tc : Transcoder γ) : Bool :=
  tc.src = tc.dst ∨ tc.src.isUnknown ∨ tc.dst.isUnknown

def Transcoder.transcode (tc : Transcoder γ) (g : γ) (payload : Bytes) : Except Error Bytes × γ :=
  if tc.isPassthrough then (.ok payload, g) else tc.convert g payload

end

inductive DropReason
  | notRtp
  | noEndpoint
  | payloadType
  | transcode
  | srtp
  | rtcp
  | iceAuth
  deriving DecidableEq

inductive MultiplexedPacketType
  | stun
  | dtls
  | rtp
  | rtcp
  | unknown
  deriving DecidableEq

/-- The packet types of RTCP. -/
def isRtcpType (b : UInt8) : Bool := 192 ≤ b ∧ b ≤ 223

def classifyPacket (data : Bytes) : MultiplexedPacketType :=
  match data with
  | [] => .unknown
  | b :: _ =>
      if b ≤ 3 then .stun
      else if 20 ≤ b ∧ b ≤ 63 then .dtls
      else if 128 ≤ b ∧ b ≤ 191 then
        if 2 ≤ data.length ∧ isRtcpType (byteAt data 1) then .rtcp else .rtp
      else .unknown

def looksLikeRtp (data : Bytes) : Bool := 12 ≤ data.length ∧ byteAt data 0 >>> 6 = 2

def looksLikeRtcp (data : Bytes) : Bool :=
  8 ≤ data.length ∧ byteAt data 0 >>> 6 = 2 ∧ isRtcpType (byteAt data 1)

inductive MediaInput
  | rtp
  | rtcp
  | passthrough
  | junk
  deriving DecidableEq

/-- ICE and DTLS are plausible only on a leg that negotiated them. -/
def classifyMediaInput (data : Bytes) (webrtc : Bool) : MediaInput :=
  match data with
  | [] => .junk
  | b :: _ =>
      if 128 ≤ b ∧ b ≤ 191 ∧ looksLikeRtp data then
        if isRtcpType (byteAt data 1) then .rtcp else .rtp
      else if b ≤ 3 ∧ webrtc ∧ 20 ≤ data.length ∧ u32At data 4 = stunMagicCookie then .passthrough
      else if 20 ≤ b ∧ b ≤ 63 ∧ webrtc ∧ 13 ≤ data.length then .passthrough
      else .junk

/-- Fixed header, CSRC list and extension; zero for a malformed packet. -/
def rtpHeaderLength (data : Bytes) : Nat :=
  if data.length < 12 then 0
  else
    let base := 12 + (byteAt data 0 &&& 0x0F).toNat * 4
    if byteAt data 0 &&& 0x10 ≠ 0 then
      if data.length < base + 4 then 0
      else
        let length := base + (4 + (u16At data (base + 2)).toNat * 4)
        if length > data.length then 0 else length
    else if base > data.length then 0
    else base

/-- Put some bytes in the place of those from an offset on. -/
def overwrite (data : Bytes) (at_ : Nat) (bytes : Bytes) : Bytes :=
  data.take at_ ++ bytes ++ data.drop (at_ + bytes.length)

def payloadType (data : Bytes) : UInt8 := byteAt data 1 &&& 0x7F

def marker (data : Bytes) : UInt8 := byteAt data 1 &&& 0x80

/-- The second byte of a header. -/
def withPayloadType (data : Bytes) (pt : UInt8) : UInt8 := marker data ||| pt

structure TimestampMap where
  baseIn : Option UInt32
  baseOut : UInt32

def TimestampMap.new : TimestampMap := ⟨none, 0⟩

def rescaled (n : UInt32) (srcRate dstRate : Nat) : UInt32 := UInt32.ofNat (n.toNat * dstRate / srcRate)

/-- Only what has passed since the first timestamp is scaled. -/
def TimestampMap.map (m : TimestampMap) (ts : UInt32) (srcRate dstRate : Nat) : UInt32 × TimestampMap :=
  if srcRate = dstRate ∨ dstRate = 0 ∨ srcRate = 0 then (ts, m)
  else
    let m := if m.baseIn = none then ⟨some ts, rescaled ts srcRate dstRate⟩ else m
    (m.baseOut + rescaled (ts - m.baseIn.getD ts) srcRate dstRate, m)

def putTimestamp (packet : Bytes) (ts : UInt32) : Bytes := overwrite packet 4 (beBytes 4 ts.toNat)

/-- The duration of an event, in the units of the other clock, where there is one. -/
def rescaleDuration (packet : Bytes) (srcRate dstRate : Nat) : Bytes :=
  let headerLen := rtpHeaderLength packet
  if 0 < headerLen ∧ headerLen + 4 ≤ packet.length then
    let scaled := (u16At packet (headerLen + 2)).toNat * dstRate / srcRate
    overwrite packet (headerLen + 2) (beBytes 2 (min scaled 65535))
  else packet

def TimestampMap.rescaleEvent (m : TimestampMap) (packet : Bytes) (srcRate dstRate : Nat) :
    Bytes × TimestampMap :=
  if srcRate = dstRate ∨ srcRate = 0 ∨ dstRate = 0 ∨ packet.length < 12 then (packet, m)
  else
    let (ts, m) := m.map (u32At packet 4) srcRate dstRate
    (rescaleDuration (putTimestamp packet ts) srcRate dstRate, m)

/-- The negotiated type of events decides, and without one every dynamic type is
taken for it. -/
def isDtmf (dtmfPt : Option UInt8) (pt : UInt8) : Bool := dtmfPt.elim (96 ≤ pt) (· = pt)

/-- An event under the type that the far leg has for it. -/
def remapEvent (dtmfPt : Option UInt8) (data : Bytes) : Bytes :=
  match dtmfPt with
  | some pt => if pt ≠ payloadType data then data.set 1 (withPayloadType data pt) else data
  | none => data

/-- A plain header of twelve bytes before the new payload. -/
def rebuilt (data : Bytes) (dstPt : UInt8) (payload : Bytes) : Bytes :=
  ((data.take 12).set 0 0x80).set 1 (withPayloadType data dstPt) ++ payload

def isG711 (c : Codec) : Bool := c = .pcma ∨ c = .pcmu

/-- What a direction of the relay keeps for its codec and its clock. -/
structure Stream (γ : Type) where
  clock : TimestampMap
  codec : γ

section

variable {γ : Type}

/-- An event or comfort noise is not converted. -/
def relayEvent (tc : Transcoder γ) (dtmfIn dtmfOut : Option UInt8) (s : Stream γ) (data : Bytes) :
    Bytes × Stream γ :=
  if isDtmf dtmfIn (payloadType data) then
    let r := s.clock.rescaleEvent (remapEvent dtmfOut data) tc.src.clockRate tc.dst.clockRate
    (r.1, { s with clock := r.2 })
  else (data, s)

/-- A voice packet with its payload converted. -/
def convertVoice (tc : Transcoder γ) (s : Stream γ) (data : Bytes) :
    Except DropReason Bytes × Stream γ :=
  match tc.transcode s.codec (data.drop (rtpHeaderLength data)) with
  | (.error _, g) => (.error .transcode, { s with codec := g })
  | (.ok payload, g) =>
      let packet := rebuilt data tc.dstPt payload
      let r := s.clock.map (u32At packet 4) tc.src.clockRate tc.dst.clockRate
      (.ok (if tc.src.clockRate = tc.dst.clockRate then packet else putTimestamp packet r.1), ⟨r.2, g⟩)

/-- A packet whose header cannot be read, or that has no payload, goes on as it is. -/
def transcodePacket (tc : Transcoder γ) (dtmfIn dtmfOut : Option UInt8) (s : Stream γ) (data : Bytes) :
    Except DropReason Bytes × Stream γ :=
  if data.length < 12 then (.ok data, s)
  else
    let isEvent : Bool := isDtmf dtmfIn (payloadType data) ∨ payloadType data = 13
    if payloadType data ≠ tc.srcPt ∧ !isEvent then (.error .payloadType, s)
    else if isEvent then
      let r := relayEvent tc dtmfIn dtmfOut s data
      (.ok r.1, r.2)
    else
      let headerLen := rtpHeaderLength data
      if 0 < headerLen ∧ headerLen < data.length then
        if isG711 tc.src ∧ data.length - headerLen ≠ 160 then (.error .transcode, s)
        else convertVoice tc s data
      else (.ok data, s)

end

end NixiSbc.RtpRelay

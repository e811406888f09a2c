import NixiSbc.SrtpKeys
import NixiSbc.SrtpStream
import NixiSbc.StateRuns
import Mathlib.Data.List.AList
import Mathlib.Data.List.MinMax

namespace NixiSbc.SrtpContext

open ByteWords Diagnostics SrtpKeys SrtpStream

/-- The per-direction map from SSRC to stream state. The order of the entries
is read only to pick among equally cold streams, and stamps do not repeat. -/
abbrev StreamTable := AList fun _ : UInt32 => StreamState

def maxStreams : Nat := 16

structure SrtpCrypto where
  keys : SessionKeys
  send : StreamTable
  recv : StreamTable
  clock : UInt64

def fresh (K : SessionKeys) : SrtpCrypto := ⟨K, ∅, ∅, 0⟩

def new (cipherKey authKey saltKey : Bytes) (authTagLen : Nat) : Except Error SrtpCrypto :=
  (checkKeys cipherKey authKey saltKey authTagLen).map fresh

/-- Make room by dropping the coldest stream that never carried a packet. -/
def evictColdest (streams : StreamTable) : Option StreamTable :=
  ((streams.entries.filter fun e => !e.2.started).argmin fun e => e.2.lastUsed.toNat).map
    fun victim => streams.erase victim.1

/-- Look a stream up, creating it on first sight, and stamp it. The clock ticks
even when every slot is live and the lookup is refused. -/
def streamMut (streams : StreamTable) (clock : UInt64) (ssrc : UInt32) :
    Option (StreamState × StreamTable) × UInt64 :=
  let now := clock + 1
  let room :=
    if streams.lookup ssrc = none ∧ streams.entries.length ≥ maxStreams then evictColdest streams
    else some streams
  (room.map fun streams =>
    let state := { (streams.lookup ssrc).getD {} with lastUsed := now }
    (state, streams.insert ssrc state), now)

theorem streamMut_room {streams : StreamTable} {ssrc : UInt32}
    (h : ¬(streams.lookup ssrc = none ∧ streams.entries.length ≥ maxStreams)) (clock : UInt64) :
    ∃ state, state = { (streams.lookup ssrc).getD {} with lastUsed := clock + 1 } ∧
      streamMut streams clock ssrc = (some (state, streams.insert ssrc state), clock + 1) := by
  rw [streamMut, if_neg h]
  exact ⟨_, rfl, rfl⟩

def deriveIv (saltKey : Bytes) (ssrc : UInt32) (seq : UInt16) (roc : UInt32) : Bytes :=
  let index := packetIndex roc seq
  xorInto
    (([0, 0, 0, 0] : Bytes) ++ beBytes 4 ssrc.toNat ++
      [((index >>> 40) &&& 0xFF).toUInt8, ((index >>> 32) &&& 0xFF).toUInt8,
        ((index >>> 24) &&& 0xFF).toUInt8, ((index >>> 16) &&& 0xFF).toUInt8,
        ((index >>> 8) &&& 0xFF).toUInt8, (index &&& 0xFF).toUInt8] ++ [0, 0])
    saltKey

def computeAuthTag (P : Primitives) (K : SessionKeys) (packet : Bytes) (roc : UInt32) : Bytes :=
  truncatedTag P K (packet ++ beBytes 4 roc.toNat)

/-- Fixed header, CSRC list and, when the X bit is set, the extension. -/
def getRtpHeaderLength (packet : Bytes) : Except Error Nat :=
  if packet.length < 12 then .error (.media "Packet too short for RTP header")
  else
    let base := 12 + (byteAt packet 0 &&& 0x0F).toNat * 4
    if byteAt packet 0 &&& 0x10 ≠ 0 then
      if packet.length < base + 4 then .error (.media "Packet too short for extension")
      else
        let headerLen := base + (4 + (u16At packet (base + 2)).toNat * 4)
        if headerLen > packet.length then .error (.media "Invalid RTP header length")
        else .ok headerLen
    else if base > packet.length then .error (.media "Invalid RTP header length")
    else .ok base

/-- The sender's index block: estimate, refuse a reused index, record it. -/
def sendRoc (c : SrtpCrypto) (ssrc : UInt32) (seq : UInt16) : Except Error UInt32 × SrtpCrypto :=
  match streamMut c.send c.clock ssrc with
  | (none, clock) =>
      (.error (.media ("SRTP: " ++ toString maxStreams ++ " streams already live, refusing a new SSRC "
        ++ hex8 ssrc ++ " rather than resetting one's rollover counter")), { c with clock := clock })
  | (some (state, send), clock) =>
      match estimate state seq with
      | none =>
          (.error (.media ("SRTP: no plausible packet index for ssrc " ++ hex8 ssrc ++ " seq "
            ++ toString seq.toNat ++ " (sequence jumped backwards before the first rollover)")),
            { c with send := send, clock := clock })
      | some (index, roc) =>
          if isReplayed state index then
            (.error (.media ("SRTP index reuse refused: ssrc " ++ hex8 ssrc ++ " seq "
              ++ toString seq.toNat ++ " index " ++ toString index.toNat)),
              { c with send := send, clock := clock })
          else
            (.ok roc, { c with send := send.insert ssrc (accept state index roc seq), clock := clock })

/-- Header, payload under the keystream, tag. Only a sixteen-byte cipher key
encrypts; with a thirty-two-byte one the payload stays as it is. -/
def sealRtp (P : Primitives) (K : SessionKeys) (header payload : Bytes)
    (ssrc : UInt32) (seq : UInt16) (roc : UInt32) : Bytes :=
  let iv := deriveIv K.saltKey ssrc seq roc
  let encrypted :=
    if K.cipherKey.length = 16 then applyKeystream (P.keystream (K.cipherKey.take 16) iv) payload
    else payload
  let packet := header ++ encrypted
  packet ++ computeAuthTag P K packet roc

def encryptRtp (P : Primitives) (c : SrtpCrypto) (rtpPacket : Bytes) :
    Except Error Bytes × SrtpCrypto :=
  if rtpPacket.length < 12 then (.error (.media "RTP packet too short"), c)
  else
    match getRtpHeaderLength rtpPacket with
    | .error e => (.error e, c)
    | .ok headerLen =>
        let ssrc := u32At rtpPacket 8
        let seq := u16At rtpPacket 2
        match sendRoc c ssrc seq with
        | (.error e, c) => (.error e, c)
        | (.ok roc, c) =>
            (.ok (sealRtp P c.keys (rtpPacket.take headerLen) (rtpPacket.drop headerLen) ssrc seq roc), c)

/-- The receiver's index block. It reads the table and changes nothing. -/
def probe (c : SrtpCrypto) (ssrc : UInt32) (seq : UInt16) : Except Error (UInt64 × UInt32) :=
  let existing := c.recv.lookup ssrc
  match estimate (existing.getD {}) seq with
  | none =>
      .error (.media ("SRTP: no plausible packet index for ssrc " ++ hex8 ssrc ++ " seq "
        ++ toString seq.toNat))
  | some (index, roc) =>
      if existing.any (isReplayed · index) then
        .error (.media ("SRTP replay: ssrc " ++ hex8 ssrc ++ " index " ++ toString index.toNat
          ++ " already seen (or past the window)"))
      else .ok (index, roc)

def openRtp (P : Primitives) (K : SessionKeys) (packet : Bytes) (headerLen : Nat)
    (ssrc : UInt32) (seq : UInt16) (roc : UInt32) : Bytes :=
  let iv := deriveIv K.saltKey ssrc seq roc
  packet.take headerLen ++
    applyKeystream (P.keystream (K.cipherKey.take 16) iv) (packet.drop headerLen)

def decryptSrtp (P : Primitives) (c : SrtpCrypto) (srtpPacket : Bytes) :
    Except Error Bytes × SrtpCrypto :=
  if srtpPacket.length < 12 + c.keys.authTagLen then (.error (.media "SRTP packet too short"), c)
  else
    let packet := srtpPacket.take (srtpPacket.length - c.keys.authTagLen)
    let receivedTag := srtpPacket.drop (srtpPacket.length - c.keys.authTagLen)
    let ssrc := u32At packet 8
    let seq := u16At packet 2
    match probe c ssrc seq with
    | .error e => (.error e, c)
    | .ok (index, roc) =>
        if constantTimeCompare (computeAuthTag P c.keys packet roc) receivedTag = false then
          (.error (.media "SRTP authentication failed"), c)
        else
          match streamMut c.recv c.clock ssrc with
          | (none, clock) =>
              (.error (.media ("SRTP: " ++ toString maxStreams
                ++ " streams already live, refusing a new SSRC " ++ hex8 ssrc)), { c with clock := clock })
          | (some (state, recv), clock) =>
              let c := { c with recv := recv.insert ssrc (accept state index roc seq), clock := clock }
              match getRtpHeaderLength packet with
              | .error e => (.error e, c)
              | .ok headerLen => (.ok (openRtp P c.keys packet headerLen ssrc seq roc), c)

def encryptAll (P : Primitives) : SrtpCrypto → List Bytes → List (Except Error Bytes) × SrtpCrypto :=
  StateRuns.runAll (encryptRtp P)

def decryptAll (P : Primitives) : SrtpCrypto → List Bytes → List (Except Error Bytes) × SrtpCrypto :=
  StateRuns.runAll (decryptSrtp P)

end NixiSbc.SrtpContext

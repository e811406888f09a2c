import NixiSbc.B2bua
import NixiSbc.MediaSessions

namespace NixiSbc.CallManager

open Stun NetAddr TextFields KeyedTable MediaSessions
open B2bua (B2buaCall CallState InviteAttempt Transport)

/-- A call with what ties it to its media session, and when it began, in
milliseconds of the monotonic clock. -/
structure MediaCall extends B2buaCall where
  callerSdp : Option (List Char)
  mediaSessionId : Option (List Char)
  startedAt : Nat
  deriving DecidableEq

structure RecentDialog where
  inboundCallId : List Char
  outboundCallId : Option (List Char)
  terminatedAt : Nat
  lastAttempt : Option InviteAttempt
  deriving DecidableEq

def recentDialogTtl : Nat := 600 * 1000

/-- What the managers publish, without the wall-clock stamps. -/
inductive SbcEvent
  | callStarted (uuid callId caller : List Char) (callee : Option (List Char))
  | callEnded (uuid : List Char) (durationSecs : Nat) (reason : List Char)
  deriving DecidableEq

structure B2buaManager where
  calls : Table (List Char) MediaCall
  media : MediaManager
  recentTerminated : List RecentDialog
  events : List SbcEvent

def B2buaManager.new (media : MediaManager) : B2buaManager := ⟨∅, media, [], []⟩

def B2buaManager.emit (s : B2buaManager) (event : SbcEvent) : B2buaManager :=
  { s with events := s.events ++ [event] }

/-- The uuid is 64 random bits in hexadecimal. -/
def callUuid (draw : UInt64) : List Char := showHex 16 draw.toNat

def MediaCall.new (draw : UInt64) (inboundCallId inboundTag : List Char) (inboundAddr : SocketAddr)
    (callerSdp : Option (List Char)) (callerTransport : Transport) (now : Nat) : MediaCall where
  toB2buaCall := .new (callUuid draw) inboundCallId inboundTag inboundAddr callerTransport
  callerSdp := callerSdp
  mediaSessionId := none
  startedAt := now

def MediaCall.durationSecs (call : MediaCall) (now : Nat) : Nat := (now - call.startedAt) / 1000

/-- The end of `create_call`: a call whose media is settled enters the map. -/
def enterCall (s : B2buaManager) (call : MediaCall) (callerAddr : SocketAddr) :
    Except Failure (List Char) × B2buaManager :=
  let call := { call with state := .proceeding }
  (.ok call.uuid, { s with calls := s.calls.insert call.uuid call }.emit
    (.callStarted call.uuid call.inbound.callId (showAddr callerAddr) none))

def createCall (cfg : Config) (s : B2buaManager) (draw : UInt64) (inboundCallId inboundTag : List Char)
    (callerAddr : SocketAddr) (callerSdp : Option (List Char)) (callerTransport : Transport)
    (clock : Nat → Nat) : Except Failure (List Char) × B2buaManager :=
  let call := MediaCall.new draw inboundCallId inboundTag callerAddr callerSdp callerTransport (clock 4)
  match callerSdp with
  | none => enterCall s call callerAddr
  | some sdp =>
      match createSession cfg s.media call.uuid (some sdp) clock with
      | (.ok session, media) =>
          enterCall { s with media } { call with mediaSessionId := some session.sessionId } callerAddr
      | (.error e, media) =>
          (.error (.transport ("no media resources for call ".toList ++ inboundCallId ++ ": ".toList ++
            e.describe)), { s with media })

def getMediaSessionId (s : B2buaManager) (uuid : List Char) : Option (List Char) :=
  (s.calls.lookup uuid).bind MediaCall.mediaSessionId

/-- The media session of a call ends, unless it is gone already. -/
def endMedia (cfg : Config) (media : MediaManager) (call : MediaCall) (clock : Nat → Nat) :
    MediaManager :=
  match call.mediaSessionId with
  | none => media
  | some mediaId => (terminateSession cfg media mediaId clock).2

/-- The call stays in the map. -/
def handleBye (cfg : Config) (s : B2buaManager) (uuid : List Char) (clock : Nat → Nat) :
    Except Failure Unit × B2buaManager :=
  match s.calls.lookup uuid with
  | none => (.error (.dialog ("B2BUA call ".toList ++ uuid ++ " not found".toList)), s)
  | some call =>
      (.ok (), { s with
        calls := modify uuid (fun call => { call with state := .terminating }) s.calls
        media := endMedia cfg s.media call clock })

/-- The oldest dialogs go first, by age and then above 256. -/
def rememberTerminated (recent : List RecentDialog) (inboundCallId : List Char)
    (outboundCallId : Option (List Char)) (lastAttempt : Option InviteAttempt) (now : Nat) :
    List RecentDialog :=
  let kept := recent.filter fun d => now - d.terminatedAt < recentDialogTtl
  let pushed := kept ++ [⟨inboundCallId, outboundCallId, now, lastAttempt⟩]
  pushed.drop (pushed.length - 256)

def terminateCallWithReason (cfg : Config) (s : B2buaManager) (uuid reason : List Char)
    (clock : Nat → Nat) : B2buaManager :=
  match s.calls.lookup uuid with
  | none => s
  | some call =>
      { s with
        calls := s.calls.erase uuid
        media := endMedia cfg s.media call clock
        recentTerminated := rememberTerminated s.recentTerminated call.inbound.callId
          (call.outbound.map B2bua.CallLeg.callId) call.inviteAttempts.getLast? (clock 2) }.emit
        (.callEnded uuid (call.durationSecs (clock 3)) reason)

/-- What may happen to the managers; `sweep` is the periodic one. -/
inductive Op
  | createCall (draw : UInt64) (inboundCallId inboundTag : List Char) (callerAddr : SocketAddr)
      (callerSdp : Option (List Char)) (callerTransport : Transport) (clock : Nat → Nat)
  | handleBye (uuid : List Char) (clock : Nat → Nat)
  | terminateCallWithReason (uuid reason : List Char) (clock : Nat → Nat)
  | sweep (now : Nat)

def step (cfg : Config) (s : B2buaManager) : Op → B2buaManager
  | .createCall draw inboundCallId inboundTag callerAddr callerSdp callerTransport clock =>
      (createCall cfg s draw inboundCallId inboundTag callerAddr callerSdp callerTransport clock).2
  | .handleBye uuid clock => (handleBye cfg s uuid clock).2
  | .terminateCallWithReason uuid reason clock => terminateCallWithReason cfg s uuid reason clock
  | .sweep now => { s with media := sweep cfg s.media now }

end NixiSbc.CallManager

import NixiSbc.NetAddr
import NixiSbc.TextWords

namespace NixiSbc.Sdp

open TextScan TextFields TextWords NetAddr

structure Origin where
  username : List Char
  sessionId : List Char
  sessionVersion : List Char
  networkType : List Char
  addressType : List Char
  address : List Char
  deriving DecidableEq

structure Connection where
  networkType : List Char
  addressType : List Char
  address : List Char
  deriving DecidableEq

structure TimeDescription where
  startTime : List Char
  stopTime : List Char
  deriving DecidableEq

inductive MediaType
  | audio
  | video
  | application
  | text
  | message
  deriving DecidableEq

structure Attribute where
  key : List Char
  value : Option (List Char)
  deriving DecidableEq

structure MediaDescription where
  mediaType : MediaType
  port : UInt16
  protocol : List Char
  formats : List UInt8
  connection : Option Connection
  attributes : List Attribute
  deriving DecidableEq

structure SessionDescription where
  version : UInt32
  origin : Origin
  sessionName : List Char
  connection : Option Connection
  time : TimeDescription
  media : List MediaDescription
  deriving DecidableEq

def MediaType.asStr : MediaType → List Char
  | .audio => "audio".toList
  | .video => "video".toList
  | .application => "application".toList
  | .text => "text".toList
  | .message => "message".toList

def MediaType.fromStr (s : List Char) : Except (List Char) MediaType :=
  if s = "audio".toList then .ok .audio
  else if s = "video".toList then .ok .video
  else if s = "application".toList then .ok .application
  else if s = "text".toList then .ok .text
  else if s = "message".toList then .ok .message
  else .error ("Unknown media type: ".toList ++ s)

def isBlank (line : List Char) : Bool := trim line = []

def isMedia (line : List Char) : Bool := "m=".toList <+: line

def isTime (line : List Char) : Bool := "t=".toList <+: line

def parseVersion : List (List Char) → Except (List Char) (UInt32 × List (List Char))
  | [] => .error "Missing version line".toList
  | line :: rest =>
      match stripPrefix "v=".toList line with
      | none => .error "Invalid version line".toList
      | some value =>
          match parseU32 value with
          | none => .error "Invalid version number".toList
          | some version => .ok (version, rest)

def parseOrigin : List (List Char) → Except (List Char) (Origin × List (List Char))
  | [] => .error "Missing origin line".toList
  | line :: rest =>
      match stripPrefix "o=".toList line with
      | none => .error "Invalid origin line".toList
      | some value =>
          match words value with
          | [a, b, c, d, e, f] => .ok (⟨a, b, c, d, e, f⟩, rest)
          | _ => .error "Invalid origin format".toList

def parseSessionName : List (List Char) → Except (List Char) (List Char × List (List Char))
  | [] => .error "Missing session name".toList
  | line :: rest =>
      match stripPrefix "s=".toList line with
      | none => .error "Invalid session name line".toList
      | some value => .ok (value, rest)

/-- The connection that a line gives, if it is one of three words. -/
def connectionLine (line : List Char) : Option Connection :=
  (stripPrefix "c=".toList line).bind fun value =>
    match words value with
    | [a, b, c] => some ⟨a, b, c⟩
    | _ => none

/-- The lines up to the time or the first medium, of which the connection is kept. -/
def parseSessionLines (connection : Option Connection) :
    List (List Char) → Option Connection × List (List Char)
  | [] => (connection, [])
  | line :: rest =>
      if "c=".toList <+: line then parseSessionLines ((connectionLine line).or connection) rest
      else if isTime line || isMedia line then (connection, line :: rest)
      else parseSessionLines connection rest

def parseTime : List (List Char) → Except (List Char) (TimeDescription × List (List Char))
  | [] => .ok (⟨['0'], ['0']⟩, [])
  | line :: rest =>
      match stripPrefix "t=".toList line with
      | none => .ok (⟨['0'], ['0']⟩, line :: rest)
      | some value =>
          match words value with
          | [a, b] => .ok (⟨a, b⟩, rest)
          | _ => .error "Invalid time format".toList

def attributeLine (line : List Char) : Option Attribute :=
  (stripPrefix "a=".toList line).map fun value =>
    match splitOnce ':' value with
    | some (key, value) => ⟨key, some value⟩
    | none => ⟨value, none⟩

/-- The port before the number of ports. -/
def readPort (word : List Char) : Option UInt16 :=
  (parseUnsigned 16 (word.takeWhile (· ≠ '/'))).map UInt16.ofNat

def readFormat (word : List Char) : Option UInt8 := (parseUnsigned 8 word).map UInt8.ofNat

/-- A media line with the lines up to the next one; the last connection counts. -/
def parseMedia (line : List Char) (body : List (List Char)) : Except (List Char) MediaDescription :=
  match stripPrefix "m=".toList line with
  | none => .error "Invalid media line".toList
  | some value =>
      match words value with
      | media :: port :: protocol :: format :: formats =>
          match MediaType.fromStr media with
          | .error text => .error text
          | .ok mediaType =>
              match readPort port with
              | none => .error ("Invalid port number: ".toList ++ port)
              | some port =>
                  .ok
                    { mediaType, port, protocol
                      formats := (format :: formats).filterMap readFormat
                      connection := (body.filterMap connectionLine).getLast?
                      attributes := body.filterMap attributeLine }
      | _ => .error "Invalid media format".toList

/-- The media until one that cannot be read; other lines are passed over. -/
def parseMediaAll : List (List Char) → List MediaDescription
  | [] => []
  | line :: rest =>
      if isBlank line then parseMediaAll rest
      else if !isMedia line then parseMediaAll rest
      else
        match parseMedia line (rest.takeWhile (!isMedia ·)) with
        | .error _ => []
        | .ok m => m :: parseMediaAll (rest.dropWhile (!isMedia ·))
  termination_by lines => lines.length
  decreasing_by
    · simp
    · simp
    · exact Nat.lt_succ_of_le (List.dropWhile_suffix _).length_le

def SessionDescription.parse (sdp : List Char) : Except (List Char) SessionDescription := do
  let (version, lines) ← parseVersion ((lines sdp).dropWhile isBlank)
  let (origin, lines) ← parseOrigin lines
  let (sessionName, lines) ← parseSessionName lines
  let (connection, lines) := parseSessionLines none lines
  let (time, lines) ← parseTime lines
  return { version, origin, sessionName, connection, time
           media := parseMediaAll (lines.dropWhile (!isMedia ·)) }

def crlf : List Char := ['\r', '\n']

def Connection.render (c : Connection) : List Char :=
  "c=".toList ++ c.networkType ++ ' ' :: c.addressType ++ ' ' :: c.address ++ crlf

def Attribute.render (a : Attribute) : List Char :=
  match a.value with
  | some value => "a=".toList ++ a.key ++ ':' :: value ++ crlf
  | none => "a=".toList ++ a.key ++ crlf

def MediaDescription.render (m : MediaDescription) : List Char :=
  "m=".toList ++ m.mediaType.asStr ++ ' ' :: showNat m.port.toNat ++ ' ' :: m.protocol ++
    (m.formats.flatMap fun f => ' ' :: showNat f.toNat) ++ crlf ++
    m.connection.toList.flatMap Connection.render ++ m.attributes.flatMap Attribute.render

def SessionDescription.render (s : SessionDescription) : List Char :=
  "v=".toList ++ showNat s.version.toNat ++ crlf ++
    ("o=".toList ++ s.origin.username ++ ' ' :: s.origin.sessionId ++ ' ' :: s.origin.sessionVersion ++
      ' ' :: s.origin.networkType ++ ' ' :: s.origin.addressType ++ ' ' :: s.origin.address ++ crlf) ++
    ("s=".toList ++ s.sessionName ++ crlf) ++ s.connection.toList.flatMap Connection.render ++
    ("t=".toList ++ s.time.startTime ++ ' ' :: s.time.stopTime ++ crlf) ++
    s.media.flatMap MediaDescription.render

def addrType : IpAddr → List Char
  | .v4 _ => "IP4".toList
  | .v6 _ => "IP6".toList

def Connection.replaceIp (ip : IpAddr) (c : Connection) : Connection :=
  { c with address := showIp ip, addressType := addrType ip }

def SessionDescription.replaceIp (ip : IpAddr) (s : SessionDescription) : SessionDescription :=
  { s with
    origin := { s.origin with address := showIp ip, addressType := addrType ip }
    connection := s.connection.map (Connection.replaceIp ip)
    media := s.media.map fun m => { m with connection := m.connection.map (Connection.replaceIp ip) } }

def SessionDescription.replacePort (mediaType : MediaType) (port : UInt16) (s : SessionDescription) :
    SessionDescription :=
  { s with media := s.media.map fun m => if m.mediaType = mediaType then { m with port } else m }

/-- The line with the port of its `rtcp` attribute replaced, if it has one. -/
def rewriteRtcpLine (port : UInt16) (line : List Char) : List Char :=
  match stripPrefix "a=rtcp:".toList (trimStart line) with
  | some rest =>
      if 0 < (rest.takeWhile isDigit).length then
        "a=rtcp:".toList ++ showNat port.toNat ++ rest.dropWhile isDigit
      else line
  | none => line

def rewriteRtcpAttr (sdp : List Char) (port : UInt16) : List Char :=
  let out := (lines sdp).flatMap fun line => rewriteRtcpLine port line ++ crlf
  if ¬ crlf <:+ sdp ∧ ¬ ['\n'] <:+ sdp ∧ crlf <:+ out then out.take (out.length - 2) else out

/-- What of the manager of the media matters here is its public address. -/
def rewriteSdpForProxy (publicIp : Option IpAddr) (sdp : List Char) (rtpPort : UInt16) : List Char :=
  match SessionDescription.parse sdp with
  | .error _ => sdp
  | .ok s =>
      let s := match publicIp with
        | some ip => s.replaceIp ip
        | none => s
      rewriteRtcpAttr (s.replacePort .audio rtpPort).render (rtpPort + 1)

/-- The description that is kept with a session: the address, and the ports of
audio and video, are replaced. -/
def modifySdp (publicIp : Option IpAddr) (sdp : List Char) (rtpPort : UInt16) :
    Except (List Char) (List Char) := do
  let s ← SessionDescription.parse sdp
  let s := match publicIp with
    | some ip => s.replaceIp ip
    | none => s
  let s := s.replacePort .audio rtpPort
  let s := if s.media.any fun m => decide (m.mediaType = .video) then s.replacePort .video (rtpPort + 2) else s
  return s.render

end NixiSbc.Sdp

import NixiSbc.Sdp

namespace NixiSbc.SdpFormats

open TextScan TextFields TextWords Sdp

def rtpmapPrefix : List Char := "a=rtpmap:".toList

def eventName : List Char := "telephone-event".toList

/-- The piece of a text before its first slash. -/
def beforeSlash (text : List Char) : List Char := text.takeWhile (· ≠ '/')

def rateOr8000 (o : Option (List Char)) : UInt32 := (o.bind parseU32).getD 8000

section TelephoneEvent

/-- An rtpmap that has the words telephone-event somewhere in it, and where. -/
def mention (line : List Char) : Option (List Char × Nat) :=
  (stripPrefix rtpmapPrefix (trim line)).bind fun val => (findSub eventName val).map (val, ·)

/-- The payload type and the rate of the first such line. -/
def telephoneEventPt (sdp : List Char) : Option (UInt8 × UInt32) :=
  ((lines sdp).findSome? mention).bind fun (val, tePos) =>
    ((words val).head?.bind readFormat).map fun pt =>
      (pt, rateOr8000 ((secondField '/' (val.drop tePos)).bind fun r => (words r).head?))

end TelephoneEvent

section Negotiated

def staticPtName (pt : UInt8) : Option (List Char) :=
  if pt = 0 then some "PCMU".toList
  else if pt = 3 then some "GSM".toList
  else if pt = 8 then some "PCMA".toList
  else if pt = 9 then some "G722".toList
  else if pt = 18 then some "G729".toList
  else none

/-- The first audio line, whatever its port. -/
def firstAudioLine (sdp : List Char) : Option (List Char) :=
  ((lines sdp).map trim).find? fun l => "m=audio ".toList.isPrefixOf l

def payloadTypes (mLine : List Char) : List UInt8 := ((words mLine).drop 3).filterMap readFormat

/-- The name that a line maps a payload type to. -/
def rtpmapName (pt : UInt8) (line : List Char) : Option (List Char) :=
  (stripPrefix rtpmapPrefix line).bind fun val =>
    match words val with
    | mapPt :: spec :: _ => if readFormat mapPt = some pt then some (beforeSlash spec) else none
    | _ => none

/-- The first line of the whole text that maps it. -/
def firstName (sdp : List Char) (pt : UInt8) : Option (List Char) := ((lines sdp).map trim).findSome? (rtpmapName pt)

/-- Events and comfort noise are no voice. -/
def voiceName (sdp : List Char) (pt : UInt8) : Option (List Char) :=
  ((firstName sdp pt).or (staticPtName pt)).filter fun name => name ≠ eventName ∧ name ≠ "CN".toList

def negotiatedAudioCodec (sdp : List Char) : Option (List Char) :=
  (firstAudioLine sdp).bind fun mAudio => (payloadTypes mAudio).findSome? (voiceName sdp)

end Negotiated

section Formats

/-- The name is in small letters, and `pt<n>` where nothing names the type. -/
structure AudioFormat where
  pt : UInt8
  name : List Char
  clockRate : UInt32
  named : Bool
  deriving DecidableEq

def AudioFormat.isVoice (f : AudioFormat) : Bool :=
  f.named ∧ f.name ≠ eventName ∧ f.name ≠ "cn".toList ∧ f.name ≠ "red".toList

def staticFormat (pt : UInt8) : Option (List Char × UInt32) :=
  if pt = 0 then some ("pcmu".toList, 8000)
  else if pt = 13 ∨ pt = 19 then some ("cn".toList, 8000)
  else if pt = 3 then some ("gsm".toList, 8000)
  else if pt = 4 then some ("g723".toList, 8000)
  else if pt = 5 then some ("dvi4".toList, 8000)
  else if pt = 8 then some ("pcma".toList, 8000)
  else if pt = 9 then some ("g722".toList, 8000)
  else if pt = 10 ∨ pt = 11 then some ("l16".toList, 44100)
  else if pt = 18 then some ("g729".toList, 8000)
  else none

/-- The lines of the first audio section that is not rejected, from its media line on. -/
def audioSection (inAudio : Bool) : List (List Char) → List (List Char)
  | [] => []
  | line :: rest =>
      match stripPrefix "m=".toList line with
      | some media =>
          if inAudio then []
          else if "audio".toList.isPrefixOf media ∧ (words media)[1]? ≠ some "0".toList then
            line :: audioSection true rest
          else audioSection false rest
      | none => if inAudio then line :: audioSection true rest else audioSection false rest

/-- `a=rtpmap:<pt> <name>/<rate>`, with the name as it is spelled. -/
structure Rtpmap where
  pt : UInt8
  name : List Char
  rate : UInt32

def readRtpmap (line : List Char) : Option Rtpmap :=
  ((stripPrefix rtpmapPrefix line).or (stripPrefix "A=rtpmap:".toList line)).bind fun rest =>
    match words rest with
    | pt :: spec :: _ =>
        ((readFormat pt).filter (· ≤ 127)).bind fun pt =>
          if beforeSlash spec = [] then none
          else some ⟨pt, beforeSlash spec, rateOr8000 (secondField '/' spec)⟩
    | _ => none

/-- The last line that maps a type counts. -/
def mapped (ls : List (List Char)) : UInt8 → Option (List Char × UInt32) :=
  (ls.filterMap readRtpmap).foldl (fun m r => Function.update m r.pt (some (toAsciiLowercase r.name, r.rate))) fun _ => none

def formatOf (ls : List (List Char)) (pt : UInt8) : AudioFormat :=
  match (mapped ls pt).or (staticFormat pt) with
  | some (name, rate) => ⟨pt, name, rate, true⟩
  | none => ⟨pt, "pt".toList ++ showNat pt.toNat, 8000, false⟩

def sdpAudioFormats (sdp : List Char) : List AudioFormat :=
  let ls := audioSection false (lines sdp)
  match ls.head? with
  | none => []
  | some mLine => ((payloadTypes mLine).filter (· ≤ 127)).map (formatOf ls)

def sdpPrimaryFormat (sdp : List Char) : Option AudioFormat := (sdpAudioFormats sdp).find? (·.isVoice)

/-- What a WebRTC leg and an answer take for the telephone-event. -/
def telephoneEvent (formats : List AudioFormat) : Option (UInt8 × UInt32) :=
  (formats.find? (·.name = eventName)).map fun f => (f.pt, f.clockRate)

end Formats

/-- The filter of the relay and the record of the call read what was answered. -/
def ReadersAgree (sdp : List Char) : Prop :=
  telephoneEventPt sdp = telephoneEvent (sdpAudioFormats sdp) ∧
    (negotiatedAudioCodec sdp).map toAsciiLowercase = (sdpPrimaryFormat sdp).map (·.name)

end NixiSbc.SdpFormats

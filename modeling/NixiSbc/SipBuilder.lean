import NixiSbc.RawSip
import NixiSbc.TextFields
import NixiSbc.Utf8

namespace NixiSbc.SipBuilder

open TextScan TextFields RawSip Utf8

/-- The identity of one leg's dialog, as the peer knows it. -/
structure DialogInfo where
  callId : List Char
  fromRaw : List Char
  toRaw : List Char
  requestUri : List Char
  cseq : UInt32
  localIp : List Char
  localPort : UInt16
  transport : List Char
  deriving DecidableEq

def crlf : List Char := ['\r', '\n']

/-- One header line with its CRLF. -/
def headerLine (name value : List Char) : List Char := name ++ ": ".toList ++ value ++ crlf

/-- The branch is the random one that `new_branch` draws. -/
def buildRequest (V : Uppering) (branch method : List Char) (d : DialogInfo)
    (cseqMethod : List Char) (extraHeaders : List (List Char × List Char)) (body : List Char) :
    List Char :=
  method ++ ' ' :: d.requestUri ++ " SIP/2.0\r\n".toList ++
    headerLine "Via".toList ("SIP/2.0/".toList ++ toUppercase V d.transport ++ ' ' :: d.localIp ++
      ':' :: showNat d.localPort.toNat ++ ";branch=".toList ++ branch ++ ";rport".toList) ++
    headerLine "Max-Forwards".toList "70".toList ++
    headerLine "From".toList d.fromRaw ++
    headerLine "To".toList d.toRaw ++
    headerLine "Call-ID".toList d.callId ++
    headerLine "CSeq".toList (showNat d.cseq.toNat ++ ' ' :: cseqMethod) ++
    extraHeaders.flatMap (fun h => headerLine h.1 h.2) ++
    headerLine "Content-Length".toList (showNat (encode body).length) ++ crlf ++ body

def buildBye (V : Uppering) (branch : List Char) (d : DialogInfo) (reason : Option (List Char)) :
    List Char :=
  buildRequest V branch "BYE".toList d "BYE".toList
    (reason.toList.map fun r => ("Reason".toList, r)) []

def buildAckFor2xx (V : Uppering) (branch : List Char) (d : DialogInfo) (inviteCseq : UInt32) :
    List Char :=
  buildRequest V branch "ACK".toList { d with cseq := inviteCseq } "ACK".toList [] []

def buildReinvite (V : Uppering) (branch : List Char) (d : DialogInfo) (sdp contactUri : List Char)
    (sessionExpires : Option (UInt32 × List Char)) (minSe : Option UInt32) : List Char :=
  buildRequest V branch "INVITE".toList d "INVITE".toList
    ([("Contact".toList, contactUri), ("Supported".toList, "timer".toList)] ++
      (sessionExpires.toList.map fun (interval, refresher) =>
        ("Session-Expires".toList, showNat interval.toNat ++ ";refresher=".toList ++ refresher)) ++
      (minSe.toList.map fun n => ("Min-SE".toList, showNat n.toNat)) ++
      [("Content-Type".toList, "application/sdp".toList)]) sdp

/-- What a CANCEL or a non-2xx ACK copies from the INVITE. -/
structure InviteIdentity where
  requestUri : List Char
  topVia : List Char
  fromValue : List Char
  toValue : List Char
  callId : List Char
  cseq : UInt32
  routes : List (List Char)
  deriving DecidableEq

/-- The fields found so far. -/
structure IdentityFields where
  topVia : Option (List Char)
  fromValue : Option (List Char)
  toValue : Option (List Char)
  callId : Option (List Char)
  cseq : Option UInt32
  routes : List (List Char)

/-- One header line: only the first Via counts, of the others the last one. -/
def readIdentityLine (U : Lowering) (f : IdentityFields) (line : List Char) : IdentityFields :=
  match splitOnce ':' line with
  | none => f
  | some (name, rawValue) =>
      let value := trim rawValue
      let lower := toLowercase U (trim name)
      if (lower = "via".toList ∨ lower = "v".toList) ∧ f.topVia = none then
        { f with topVia := some value }
      else if lower = "from".toList ∨ lower = "f".toList then { f with fromValue := some value }
      else if lower = "to".toList ∨ lower = "t".toList then { f with toValue := some value }
      else if lower = "call-id".toList ∨ lower = "i".toList then { f with callId := some value }
      else if lower = "cseq".toList then { f with cseq := (firstWord value).bind parseU32 }
      else if lower = "route".toList then { f with routes := f.routes ++ [value] }
      else f

/-- The second of the fields of the request line, which must begin with `INVITE`. -/
def inviteUri (line : List Char) : Option (List Char) :=
  if line.takeWhile (· ≠ ' ') = "INVITE".toList then secondField ' ' line else none

/-- The header lines are those before the first empty line. -/
def parseInviteIdentity (U : Lowering) (rawInvite : List Char) : Option InviteIdentity :=
  match splitCrlf rawInvite with
  | [] => none
  | first :: rest => do
      let requestUri ← inviteUri first
      let f := (rest.takeWhile (· ≠ [])).foldl (readIdentityLine U) ⟨none, none, none, none, none, []⟩
      return ⟨requestUri, ← f.topVia, ← f.fromValue, ← f.toValue, ← f.callId, ← f.cseq, f.routes⟩

def branchText : List Char := "branch=".toList

theorem branchText_ne_nil : branchText ≠ [] := by decide

/-- The branch parameter in the value of a Via header. -/
def branchOf (value : List Char) : Option (List Char) :=
  match findSub branchText value with
  | none => none
  | some pos =>
      let after := value.drop (pos + branchText.length)
      match trim (after.takeWhile fun c => !(c = ';' ∨ c = ',' ∨ isWhiteSpace c)) with
      | [] => none
      | branch => some branch

/-- The header loop: the first Via before an empty line decides. -/
def viaBranchIn (U : Lowering) : List (List Char) → Option (List Char)
  | [] => none
  | line :: rest =>
      if line = [] then none
      else
        match splitOnce ':' line with
        | none => viaBranchIn U rest
        | some (name, value) =>
            let lower := toLowercase U (trim name)
            if lower = "via".toList ∨ lower = "v".toList then branchOf value
            else viaBranchIn U rest

def topViaBranch (U : Lowering) (raw : List Char) : Option (List Char) :=
  viaBranchIn U ((splitCrlf raw).drop 1)

def buildAckForNon2xx (U : Lowering) (originalInviteRaw responseTo : List Char) :
    Option (List Char) :=
  (parseInviteIdentity U originalInviteRaw).map fun id =>
    "ACK ".toList ++ id.requestUri ++ " SIP/2.0\r\n".toList ++
      headerLine "Via".toList id.topVia ++
      headerLine "Max-Forwards".toList "70".toList ++
      id.routes.flatMap (headerLine "Route".toList) ++
      headerLine "From".toList id.fromValue ++
      headerLine "To".toList (trim responseTo) ++
      headerLine "Call-ID".toList id.callId ++
      headerLine "CSeq".toList (showNat id.cseq.toNat ++ " ACK".toList) ++
      "Content-Length: 0\r\n\r\n".toList

end NixiSbc.SipBuilder

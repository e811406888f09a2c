import NixiSbc.SipEdit
import NixiSbc.TextWords
import NixiSbc.Trunks

namespace NixiSbc.InviteTexts

open RawSip TextScan TextFields TextLines TextWords SipBuilder SipRender SipEdit Trunks

/-- The cookie and eight random bytes. -/
def newBranch (draw : UInt64) : List Char := "z9hG4bK".toList ++ showHex 16 draw.toNat

section

variable (U : Lowering)

def isVia (line : List Char) : Bool :=
  "via:".toList <+: toLowercase U line ∨ "v:".toList <+: toLowercase U line

/-- Put a branch in the place of the one in a Via line, if it has one. -/
def replaceBranch (fresh line : List Char) : Option (List Char) :=
  (findSub branchText line).map fun pos =>
    let start := pos + branchText.length
    line.take start ++ fresh ++ (line.drop start).dropWhile fun c => !(c = ';' ∨ c = ',')

/-- The header loop of the retargeting: the first Via gets a fresh branch, and
an empty line ends it. -/
def refreshVia (fresh : List Char) : List (List Char) → List (List Char)
  | [] => []
  | line :: rest =>
      if isVia U line then (replaceBranch fresh line).getD line :: rest
      else if line = [] then line :: rest
      else line :: refreshVia fresh rest

/-- The user part that is dialled, in the request line of an INVITE. -/
def dialledUser (line : List Char) : Option (List Char) := do
  let (method, rest) ← splitOnce ' ' line
  let uri := rest.takeWhile (· ≠ ' ')
  if method = "INVITE".toList then
    let address ← stripPrefix "sip:".toList uri <|> stripPrefix "sips:".toList uri
    return (address.takeWhile (· ≠ '@')).takeWhile (· ≠ ';')
  else none

/-- The third of the parts between spaces, the first two being cut off. -/
def sipVersion (line : List Char) : List Char :=
  match (splitOnce ' ' line).bind fun p => splitOnce ' ' p.2 with
  | some (_, version) => version
  | none => "SIP/2.0".toList

def requestLine (t : TrunkConfig) (number version : List Char) : List Char :=
  "INVITE sip:".toList ++ number ++ '@' :: t.host ++ ':' :: showNat t.port.toNat ++ ' ' :: version

def retargetInviteForTrunk (fresh rawInvite : List Char) (t : TrunkConfig) : Option (List Char) :=
  match splitCrlf rawInvite with
  | [] => none
  | first :: rest =>
      (dialledUser first).map fun user =>
        joinLines (requestLine t (normalizeNumber t user) (sipVersion first)) (refreshVia U fresh rest)

/-- The CSeq line of the next transaction, when the line is a CSeq with a number
and a method; the sum wraps in a release build. -/
def bumpCseq (line : List Char) : List Char :=
  match words (line.drop "cseq:".length) with
  | num :: method :: _ =>
      match parseU32 num with
      | some n => "CSeq: ".toList ++ showNat (n + 1).toNat ++ ' ' :: method
      | none => line
  | _ => line

/-- The header loop of a new transaction: the first Via gets a fresh branch, and
every CSeq the next number. -/
def renewLines (fresh : List Char) (viaDone : Bool) : List (List Char) → List (List Char)
  | [] => []
  | line :: rest =>
      if !viaDone && isVia U line then
        (replaceBranch fresh line).getD (line ++ ";branch=".toList ++ fresh) :: renewLines fresh true rest
      else if "cseq:".toList <+: toLowercase U line then bumpCseq line :: renewLines fresh viaDone rest
      else line :: renewLines fresh viaDone rest

/-- The header block and the body. -/
def splitHead (raw : List Char) : List Char × List Char :=
  match findSub crlfCrlf raw with
  | some pos => (raw.take pos, raw.drop (pos + 4))
  | none => (raw, [])

def joinHead : List (List Char) → List Char → List Char
  | [], body => crlfCrlf ++ body
  | first :: rest, body => joinLines first rest ++ crlfCrlf ++ body

def renewInviteTransaction (fresh rawInvite : List Char) : List Char :=
  let (head, body) := splitHead rawInvite
  match splitCrlf head with
  | [] => joinHead [] body
  | first :: rest => joinHead (first :: renewLines U fresh false rest) body

def proxyAuthorization : List Char := "proxy-authorization:".toList

/-- Neither the request line nor a Via. -/
def pastVia (line : List Char) : Bool :=
  ¬ "invite ".toList <+: toLowercase U line ∧ isVia U line = false

/-- Where the credentials go in. -/
def insertPos (lines : List (List Char)) : Nat := (lines.findIdx? (pastVia U)).getD 1

def injectProxyAuthIntoInvite (fresh rawInvite authValue : List Char) : List Char :=
  let (head, body) := splitHead (renewInviteTransaction U fresh rawInvite)
  let lines := (splitCrlf head).filter fun l => ¬ proxyAuthorization <+: toLowercase U l
  joinHead (lines.insertIdx (insertPos U lines) ("Proxy-Authorization: ".toList ++ authValue)) body

/-- Does a Supported header list the session timer? -/
def hasTimer (m : RawSipMessage) : Bool :=
  (headerValues U m "supported".toList).any fun v =>
    (v.splitOn ',').any fun token => toAsciiLowercase (trim token) = "timer".toList

def isContentLength (header : List Char) : Bool :=
  let name := toLowercase U (trim (header.takeWhile (· ≠ ':')))
  name = "content-length".toList ∨ name = "l".toList

def timerHeaders (hasTimer : Bool) (expires minSe : UInt32) : List (List Char) :=
  (if hasTimer then [] else ["Supported: timer".toList]) ++
    ["Session-Expires: ".toList ++ showNat expires.toNat, "Min-SE: ".toList ++ showNat minSe.toNat]

/-- The timer headers of the SBC in the place of any others, right before the
Content-Length. -/
def applySessionTimerHeaders (m : RawSipMessage) (expires minSe : UInt32) : RawSipMessage :=
  let m := removeHeader U (removeHeader U (removeHeader U m "session-expires".toList) "x".toList)
    "min-se".toList
  let at_ := (m.headers.findIdx? (isContentLength U)).getD m.headers.length
  { m with headers :=
      m.headers.take at_ ++ timerHeaders (hasTimer U m) expires minSe ++ m.headers.drop at_ }

def setSessionTimerHeaders (raw : List Char) (expires minSe : UInt32) : List Char :=
  match parse raw with
  | .ok m => render (applySessionTimerHeaders U m expires minSe)
  | .error _ => raw

/-- The INVITE after a 422: without credentials, with the timers that the trunk
asks for, as a new transaction. -/
def buildSessionIntervalRetry (fresh storedInvite : List Char) (expires minSe : UInt32) : List Char :=
  let stamped :=
    match parse storedInvite with
    | .ok m =>
        render (applySessionTimerHeaders U (removeHeader U m "proxy-authorization".toList) expires minSe)
    | .error _ => storedInvite
  renewInviteTransaction U fresh stamped

end

/-- The interval and the minimum to offer after a 422; none when another try
cannot help. -/
def sessionIntervalRetryValues (offeredSe : Option UInt32) (minSe422 : UInt32)
    (configured : UInt32 × UInt32) : Option (UInt32 × UInt32) :=
  if minSe422 < 90 then none
  else if offeredSe.any (minSe422 ≤ ·) then none
  else
    let newMinSe := max minSe422 configured.2
    some (max (max (offeredSe.getD 0) configured.1) newMinSe, newMinSe)

/-- The number in the first of the header lines that begins with one of the names. -/
def headerU32 (U : Lowering) (raw : List Char) (names : List (List Char)) : Option UInt32 :=
  (((splitCrlf raw).takeWhile (· ≠ [])).find? fun l => names.any (· <+: toLowercase U l)).bind
    fun l => (splitOnce ':' l).bind fun p =>
      parseU32 (trim ((trim p.2).takeWhile (· ≠ ';')))

def parseSessionExpires (U : Lowering) (raw : List Char) : Option UInt32 :=
  headerU32 U raw ["session-expires:".toList, "x:".toList]

def parseMinSe (U : Lowering) (raw : List Char) : Option UInt32 := headerU32 U raw ["min-se:".toList]

def buildCancel (U : Lowering) (originalInviteRaw : List Char) : Option (List Char) :=
  (parseInviteIdentity U originalInviteRaw).map fun id =>
    "CANCEL ".toList ++ id.requestUri ++ " SIP/2.0\r\n".toList ++
      headerLine "Via".toList id.topVia ++
      headerLine "Max-Forwards".toList "70".toList ++
      headerLine "From".toList id.fromValue ++
      headerLine "To".toList id.toValue ++
      headerLine "Call-ID".toList id.callId ++
      headerLine "CSeq".toList (showNat id.cseq.toNat ++ " CANCEL".toList) ++
      "Content-Length: 0\r\n\r\n".toList

end NixiSbc.InviteTexts

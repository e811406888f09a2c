import NixiSbc.CallLookup
import NixiSbc.InviteRetries
import NixiSbc.Topology

namespace NixiSbc.InDialogRequests

open Stun NetAddr TextScan TextFields RawSip SipBuilder SipRender SipEdit Topology CallSetup InviteRetries CallLookup
open B2bua (B2buaCall Transport Outgoing transportToken noteRelayedCseq)

/-- With the rest of the public identity, and the number that the SIP library
reads from the value of a CSeq. -/
structure RelayConfig extends Config where
  sipDomain : List Char
  tls : Bool
  cseqNumber : List Char → Option UInt32
  upper_line : ∀ c, 128 ≤ c.toNat → '\n' ∉ upper c
  ip_line : ∀ id ∈ identity, '\n' ∉ id.1
  domain_line : '\n' ∉ sipDomain

inductive Kind
  | info
  | refer
  deriving DecidableEq

def Kind.method : Kind → List Char
  | .info => "INFO".toList
  | .refer => "REFER".toList

/-- A request as the library prints it, with its Call-ID. -/
structure Parts where
  kind : Kind
  uri : List Char
  headers : List (List Char)
  body : List Char
  callId : List Char

def Parts.message (p : Parts) : RawSipMessage :=
  ⟨p.kind.method ++ ' ' :: p.uri ++ " SIP/2.0".toList, p.headers, p.body⟩

/-- The library hands out single lines. -/
structure InDialogRequest extends Parts where
  canonical : Canonical toParts.message

def InDialogRequest.text (req : InDialogRequest) : List Char := render req.message

section

variable (U : Lowering)

/-- The value of the first CSeq of a message. -/
def cseqValue (m : RawSipMessage) : Option (List Char) := (headerValues U m "cseq".toList).head?

end

section

variable (cfg : RelayConfig)

def InDialogRequest.cseq (req : InDialogRequest) : Option UInt32 :=
  (cseqValue cfg.lower req.message).bind cfg.cseqNumber

/-- The number that the receiver of a text finds in it. -/
def wireCseq (raw : List Char) : Option UInt32 :=
  match parse raw with
  | .ok m => (cseqValue cfg.lower m).bind cfg.cseqNumber
  | .error _ => none

def RelayConfig.sbcIdentity : Option SbcIdentity :=
  cfg.identity.map fun id => ⟨id.1, cfg.sipDomain, id.2, cfg.tls⟩

def isSecure (transport : Transport) : Bool := transport = .tls ∨ transport = .wss

def outPort (transport : Transport) : UInt16 := if isSecure transport then 5061 else 5060

/-- The port of the identity follows the transport. -/
def outboundIdentity (base : SbcIdentity) (transport : Transport) : SbcIdentity :=
  if outPort transport ≠ base.sipPort then
    ⟨base.publicIp, base.sipDomain, outPort transport, isSecure transport⟩
  else base

def applyOutboundTopology (nanos : UInt32) (raw : List Char) (transport : Transport) : List Char :=
  match cfg.sbcIdentity with
  | none => raw
  | some base =>
      match applyTopologyHidingOutbound cfg.lower cfg.upper nanos raw (outboundIdentity base transport)
          (transportToken transport) with
      | .ok out => out
      | .error _ => raw

/-- Only these two spellings are looked for. -/
def referTo (req : InDialogRequest) : Option (List Char) :=
  (req.headers.find? fun h => "Refer-To:".toList <+: h ∨ "refer-to:".toList <+: h).map fun h =>
    ((splitOnce ':' h).map fun p => trim p.2).getD []

/-- The answer to an INFO, and the call with the leg that it is taken to be from:
`true` for the caller's. An INFO without a call is answered all the same. -/
def handleInfo (calls : List B2buaCall) (source : SocketAddr) (req : InDialogRequest) :
    UInt16 × Option (List Char × Bool) :=
  (200, findByAnyCallIdWithSource calls req.callId (some source))

/-- The source of a REFER is not looked at. -/
def handleRefer (calls : List B2buaCall) (req : InDialogRequest) : UInt16 × Option (List Char × Bool) :=
  if referTo req = none then (400, none)
  else
    match findByAnyCallIdWithSource calls req.callId none with
    | none => (481, none)
    | some found => (202, some found)

def handleRequest (calls : List B2buaCall) (source : SocketAddr) (req : InDialogRequest) :
    UInt16 × Option (List Char × Bool) :=
  match req.kind with
  | .info => handleInfo calls source req
  | .refer => handleRefer calls req

def noteCseq (call : SetupCall) (towardCallee : Bool) : Option UInt32 → SetupCall
  | some n => call.mapCall fun c => noteRelayedCseq c towardCallee n
  | none => call

/-- The request goes to the other leg with the number it came with. -/
def relay (nanos : UInt32) (call : SetupCall) (isFromCaller : Bool) (req : InDialogRequest) :
    Option Outgoing × SetupCall :=
  let call := noteCseq call isFromCaller (req.cseq cfg)
  if isFromCaller then
    (call.calleeDest.map fun dest =>
      ⟨applyOutboundTopology cfg nanos req.text call.calleeTransport, dest, call.calleeTransport, call.calleeReplyTx⟩,
      call)
  else
    (some ⟨applyOutboundTopology cfg nanos req.text call.callerTransport, call.callerSource, call.callerTransport,
      call.callerReplyTx⟩, call)

end

section Numbers

variable {U : Lowering} {V : Uppering}

theorem lower_of_cseq {h : List Char} (hname : hasName U "cseq".toList h = true) :
    toLowercase U (trim (h.takeWhile (· ≠ ':'))) = "cseq".toList := by
  have hlower : toLowercase U "cseq".toList = "cseq".toList := rfl
  rw [hasName, decide_eq_true_iff, hlower] at hname
  rcases hname.2 with h | h
  · exact h
  · rw [shortForm] at h
    -- none of the long names is this one
    iterate 10
      split at h
      next => exact absurd h (by decide)
    exact h

/-- A header that is named otherwise is not the CSeq. -/
theorem hasName_of_cseq {h name : List Char} (hname : hasName U "cseq".toList h = true)
    (hascii : name.all isAscii = true) (hother : sameName "cseq".toList name = false) : hasName U name h = false := by
  rw [List.all_eq_true] at hascii
  have hlower : toLowercase U name = toAsciiLowercase name := lowerFrom_ascii U [] hascii
  rw [hasName, lower_of_cseq hname, hlower, decide_eq_false_iff_not]
  rintro ⟨-, h⟩
  rw [sameName, decide_eq_false_iff_not] at hother
  exact hother h

theorem not_rewritten_of_cseq {h : List Char} (hname : hasName U "cseq".toList h = true) : rewritten U h = false := by
  simp only [rewritten, Bool.or_eq_false_iff]
  refine ⟨⟨⟨⟨?_, ?_⟩, ?_⟩, ?_⟩, ?_⟩
  all_goals exact hasName_of_cseq hname (by decide) (by decide)

/-- The hiding leaves the CSeq alone. -/
theorem cseqValue_hideRequest (branch : List Char) (identity : SbcIdentity) (transport : List Char)
    (m : RawSipMessage) : cseqValue U (hideRequest U V branch identity transport m) = cseqValue U m := by
  have hfilter (hs : List (List Char)) :
      hs.filter (hasName U "cseq".toList) = (hs.filter fun h => !rewritten U h).filter (hasName U "cseq".toList) := by
    rw [List.filter_filter]
    apply List.filter_congr
    intro h _
    cases hname : hasName U "cseq".toList h with
    | false => rfl
    | true => rw [not_rewritten_of_cseq hname, Bool.not_false, Bool.and_true]
  rw [cseqValue, headerValues, hfilter, hideRequest_others, ← hfilter]
  rfl

variable (cfg : RelayConfig)

theorem parse_text (req : InDialogRequest) : parse req.text = .ok req.message := parse_render req.canonical

theorem wireCseq_text (req : InDialogRequest) : wireCseq cfg req.text = req.cseq cfg := by
  rw [wireCseq, parse_text]
  rfl

theorem oneLine_identity {base : SbcIdentity} (h : cfg.sbcIdentity = some base) (transport : Transport) :
    OneLine (outboundIdentity base transport) := by
  obtain ⟨id, hid, rfl⟩ := Option.map_eq_some_iff.mp h
  have hline : OneLine (⟨id.1, cfg.sipDomain, id.2, cfg.tls⟩ : SbcIdentity) := ⟨cfg.ip_line id hid, cfg.domain_line⟩
  rw [outboundIdentity]
  split
  next => exact ⟨hline.publicIp, hline.sipDomain⟩
  next => exact hline

/-- A relayed request carries the number that it came with. -/
theorem wireCseq_relayed (nanos : UInt32) (req : InDialogRequest) (transport : Transport) :
    wireCseq cfg (applyOutboundTopology cfg nanos req.text transport) = req.cseq cfg := by
  rw [applyOutboundTopology]
  split
  next => exact wireCseq_text cfg req
  next base hbase =>
    split
    next out hout =>
      have hbranch : '\n' ∉ Topology.newBranch nanos := by
        intro hlf
        cases (newBranch_plain nanos).not_blank hlf
      have htransport : '\n' ∉ transportToken transport := by cases transport <;> decide
      rw [applyTopologyHidingOutbound, parse_text] at hout
      change (if isRequest req.message then Except.ok _ else Except.ok _) = _ at hout
      split at hout
      next =>
        cases hout
        have hcanonical := canonical_hideRequest (U := cfg.lower) req.canonical cfg.upper_line
          (oneLine_identity cfg hbase transport) htransport hbranch
        rw [wireCseq, parse_render hcanonical]
        exact congrArg (·.bind cfg.cseqNumber) (cseqValue_hideRequest _ _ _ _)
      next =>
        cases hout
        exact wireCseq_text cfg req
    next => exact wireCseq_text cfg req

end Numbers

end NixiSbc.InDialogRequests

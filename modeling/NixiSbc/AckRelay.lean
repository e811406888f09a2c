import NixiSbc.CallLookup
import NixiSbc.CallSetup

namespace NixiSbc.AckRelay

open Stun NetAddr Utf8 TextFields SipBuilder CallSetup CallLookup
open B2bua (B2buaCall Transport Outgoing)

/-- The headers of an ACK that are read, as far as they are there. -/
structure AckRequest where
  callId : Option (List Char)
  fromRaw : Option (List Char)
  toRaw : Option (List Char)
  cseq : Option (List Char)

/-- The live calls, in one of the orders in which the map may be iterated. -/
structure LiveCalls where
  calls : List SetupCall
  distinct : (calls.map fun c => c.uuid).Nodup

def inboundIs (callId : List Char) (call : SetupCall) : Bool := call.inbound.callId = callId

def inboundEndsWith (callId : List Char) (call : SetupCall) : Bool :=
  callId <:+ call.inbound.callId ∧ call.inbound.callId ≠ callId

def outboundHas (callId : List Char) (call : SetupCall) : Bool :=
  outboundIs call.toB2buaCall (· = callId)

def findByInboundCallId (calls : List SetupCall) (callId : List Char) : Option SetupCall :=
  calls.find? (inboundIs callId)

def findByInboundCallIdSuffix (calls : List SetupCall) (callId : List Char) : Option SetupCall :=
  calls.find? (inboundEndsWith callId)

def findByOutboundCallId (calls : List SetupCall) (callId : List Char) : Option SetupCall :=
  calls.find? (outboundHas callId)

/-- The three lookups of `handle_ack`, one after the other. -/
def matchAck (calls : List SetupCall) (callId : List Char) : Option SetupCall :=
  findByInboundCallId calls callId <|> findByInboundCallIdSuffix calls callId <|>
    findByOutboundCallId calls callId

def ackCseqForCallee (callerCseqHeader : List Char) (outboundInviteCseq : Option UInt32) : List Char :=
  match outboundInviteCseq with
  | some n => showNat n.toNat ++ " ACK".toList
  | none => callerCseqHeader

def getCalleeContactUri (call : B2buaCall) : Option (List Char) :=
  call.outbound.bind (·.remoteTarget) <|> call.calleeRequestUri

/-- The ACK for the callee; `draw` is random and `sbcIp` the configured address. -/
def relayedAck (call : B2buaCall) (request : AckRequest) (dest : SocketAddr) (sbcIp : List Char)
    (draw : UInt32) : List Char :=
  let contact := "sip:".toList ++ showIp (ip dest) ++ ':' :: showNat (port dest).toNat
  "ACK ".toList ++ (getCalleeContactUri call).getD contact ++ " SIP/2.0\r\n".toList ++
    headerLine "Via".toList ("SIP/2.0/".toList ++
      (if call.calleeTransport = .tcp then "TCP".toList else "UDP".toList) ++ ' ' :: sbcIp ++
      (if call.calleeTransport = .udp then ":5060".toList else ":5061".toList) ++
      ";branch=z9hG4bK".toList ++ showHex 8 draw.toNat ++ ";rport".toList) ++
    headerLine "Max-Forwards".toList "70".toList ++
    headerLine "From".toList (request.fromRaw.getD []) ++
    headerLine "To".toList (request.toRaw.getD []) ++
    headerLine "Call-ID".toList call.inbound.callId ++
    headerLine "CSeq".toList (ackCseqForCallee (request.cseq.getD "1 ACK".toList)
      (call.inviteAttempts.getLast?.map (·.cseq))) ++
    headerLine "Content-Length".toList "0".toList ++ crlf

/-- What an ACK does: the call whose caller leg it marks as established, what
is sent to the callee of that call, and the calls afterwards. -/
structure AckEffect where
  marked : Option (List Char)
  relayed : Option (List Char × Outgoing)
  calls : List SetupCall

/-- Neither the source nor the number of the ACK is looked at. -/
def handleAck (calls : List SetupCall) (request : AckRequest) (_source : SocketAddr)
    (sbcIp : Option (List Char)) (draw : UInt32) : AckEffect :=
  match matchAck calls (request.callId.getD []) with
  | none => ⟨none, none, calls⟩
  | some call =>
      let after := CallSetup.handleAck call
      { marked := some call.uuid
        relayed := after.calleeDest.map fun dest =>
          (call.uuid, {
            raw := relayedAck after.toB2buaCall request dest (sbcIp.getD "203.0.113.1".toList) draw
            dest := dest
            transport := after.calleeTransport
            replyTx := after.calleeReplyTx })
        calls := calls.map fun c => if c.uuid = call.uuid then CallSetup.handleAck c else c }

/-- The number at the head of the CSeq header. -/
def AckRequest.number (request : AckRequest) : Option UInt32 :=
  (request.cseq.bind firstWord).bind parseU32

/-- The ACK acknowledges the answer to the caller's first INVITE of this call. -/
structure Acknowledges (request : AckRequest) (source : SocketAddr) (call : SetupCall) : Prop where
  identified : exactMatch (request.callId.getD []) call.toB2buaCall = true ∨
    minCallIdSuffix ≤ (encode (request.callId.getD [])).length ∧
      suffixMatch (request.callId.getD []) call.toB2buaCall = true
  fromCaller : source = call.callerSource
  number : ∃ n, request.number = some n ∧ call.callerInviteCseq = some n

/-- Whatever the ACK marks or sends is for a call that it acknowledges. -/
def ActsRightly (calls : List SetupCall) (request : AckRequest) (source : SocketAddr)
    (sbcIp : Option (List Char)) (draw : UInt32) : Prop :=
  ∀ uuid, (handleAck calls request source sbcIp draw).marked = some uuid ∨
      (∃ msg, (handleAck calls request source sbcIp draw).relayed = some (uuid, msg)) →
    ∃ call ∈ calls, call.uuid = uuid ∧ Acknowledges request source call

/-- The calls that some order of the map hands to an ACK of this Call-ID: those
of that Call-ID, else those whose Call-ID ends with it, else those whose other
leg has it. -/
def Reached (calls : List SetupCall) (callId : List Char) (call : SetupCall) : Prop :=
  call ∈ calls ∧ (inboundIs callId call = true ∨
    (∀ c ∈ calls, inboundIs callId c = false) ∧ (inboundEndsWith callId call = true ∨
      (∀ c ∈ calls, inboundEndsWith callId c = false) ∧ outboundHas callId call = true))

theorem reached_of_matchAck {calls : List SetupCall} {callId : List Char} {call : SetupCall}
    (h : matchAck calls callId = some call) : Reached calls callId call := by
  unfold matchAck at h
  cases hexact : findByInboundCallId calls callId with
  | some c =>
      rw [hexact] at h
      cases h
      exact ⟨List.mem_of_find?_eq_some hexact, .inl (List.find?_some hexact)⟩
  | none =>
      rw [hexact] at h
      change (findByInboundCallIdSuffix calls callId <|> findByOutboundCallId calls callId) = some call at h
      have hnone : ∀ c ∈ calls, inboundIs callId c = false := by
        simpa using List.find?_eq_none.mp hexact
      cases hsuffix : findByInboundCallIdSuffix calls callId with
      | some c =>
          rw [hsuffix] at h
          cases h
          exact ⟨List.mem_of_find?_eq_some hsuffix, .inr ⟨hnone, .inl (List.find?_some hsuffix)⟩⟩
      | none =>
          rw [hsuffix] at h
          change findByOutboundCallId calls callId = some call at h
          have hnone' : ∀ c ∈ calls, inboundEndsWith callId c = false := by
            simpa only [Bool.not_eq_true] using List.find?_eq_none.mp hsuffix
          exact ⟨List.mem_of_find?_eq_some h, .inr ⟨hnone, .inr ⟨hnone', List.find?_some h⟩⟩⟩

theorem matchAck_of_reached {call : SetupCall} {rest : List SetupCall} {callId : List Char}
    (h : Reached (call :: rest) callId call) : matchAck (call :: rest) callId = some call := by
  obtain ⟨-, hexact | ⟨hnone, hrest⟩⟩ := h
  · simp [matchAck, findByInboundCallId, hexact]
  have hno : findByInboundCallId (call :: rest) callId = none :=
    List.find?_eq_none.mpr (by simpa using hnone)
  rw [matchAck, hno]
  change (findByInboundCallIdSuffix (call :: rest) callId <|>
    findByOutboundCallId (call :: rest) callId) = some call
  obtain hsuffix | ⟨hnone', hout⟩ := hrest
  · simp [findByInboundCallIdSuffix, hsuffix]
  have hno' : findByInboundCallIdSuffix (call :: rest) callId = none :=
    List.find?_eq_none.mpr (by simpa only [Bool.not_eq_true] using hnone')
  rw [hno']
  change findByOutboundCallId (call :: rest) callId = some call
  exact List.find?_cons_of_pos hout

theorem reached_perm {calls order : List SetupCall} (hperm : order.Perm calls) {callId : List Char}
    {call : SetupCall} : Reached order callId call ↔ Reached calls callId call := by
  simp only [Reached, hperm.mem_iff]

/-- All that an ACK does is for the call that the lookups return. -/
theorem effect_of_match {calls : List SetupCall} {request : AckRequest} (source : SocketAddr)
    (sbcIp : Option (List Char)) (draw : UInt32) {call : SetupCall}
    (h : matchAck calls (request.callId.getD []) = some call) :
    (handleAck calls request source sbcIp draw).marked = some call.uuid ∧
      ∀ uuid msg, (handleAck calls request source sbcIp draw).relayed = some (uuid, msg) →
        uuid = call.uuid := by
  unfold handleAck
  rw [h]
  refine ⟨rfl, fun uuid msg hmsg => ?_⟩
  obtain ⟨dest, -, hpair⟩ := Option.map_eq_some_iff.mp hmsg
  exact (congrArg Prod.fst hpair).symm

theorem effect_of_none {calls : List SetupCall} {request : AckRequest} {source : SocketAddr}
    {sbcIp : Option (List Char)} {draw : UInt32} (h : matchAck calls (request.callId.getD []) = none) :
    handleAck calls request source sbcIp draw = ⟨none, none, calls⟩ := by
  unfold handleAck
  rw [h]

/-- Whatever the order of the map, an ACK does only what it should exactly when
every call that its Call-ID reaches is one that it acknowledges. -/
theorem ack_acts_rightly_iff (m : LiveCalls) (request : AckRequest) (source : SocketAddr)
    (sbcIp : Option (List Char)) (draw : UInt32) :
    (∀ order, order.Perm m.calls → ActsRightly order request source sbcIp draw) ↔
      ∀ call, Reached m.calls (request.callId.getD []) call → Acknowledges request source call := by
  constructor
  · intro hall call hreached
    -- an order in which that call comes first
    have hperm : (call :: m.calls.erase call).Perm m.calls := (List.perm_cons_erase hreached.1).symm
    have hmatch := matchAck_of_reached ((reached_perm hperm).mpr hreached)
    obtain ⟨c, hc, huuid, hack⟩ :=
      hall _ hperm call.uuid (.inl (effect_of_match source sbcIp draw hmatch).1)
    rwa [List.inj_on_of_nodup_map m.distinct (hperm.mem_iff.mp hc) hreached.1 huuid] at hack
  · intro hcond order hperm uuid hacts
    cases hmatch : matchAck order (request.callId.getD []) with
    | none =>
        rw [effect_of_none hmatch] at hacts
        rcases hacts with h | ⟨_, h⟩
        · cases h
        · cases h
    | some call =>
        have hreached := reached_of_matchAck hmatch
        obtain ⟨hmarked, hrelayed⟩ := effect_of_match source sbcIp draw hmatch
        have huuid : call.uuid = uuid := by
          rcases hacts with h | ⟨msg, h⟩
          · exact Option.some.inj (hmarked.symm.trans h)
          · exact (hrelayed uuid msg h).symm
        exact ⟨call, hreached.1, huuid, hcond call ((reached_perm hperm).mp hreached)⟩

/-- A ringing call: the caller at 192.0.2.1 whose INVITE had the number one, and
the callee at 198.51.100.10. -/
def ringingCall : SetupCall :=
  let call := createdCall 1 "a84b4c76e66710@h".toList "t".toList (NetAddr.ofOctets 192 0 2 1 5060)
    none none none .udp 0
  setCallerVias (attachOutbound call "a84b4c76e66710@h".toList "l".toList
    (NetAddr.ofOctets 198 51 100 10 5060) none .udp) [] (some 1)

def ringingCalls : LiveCalls := ⟨[ringingCall], List.nodup_singleton _⟩

/-- The callee's ACK for the 200 to its own re-INVITE. -/
def calleeAck : AckRequest :=
  ⟨some "a84b4c76e66710@h".toList, some "b".toList, some "a".toList, some "7 ACK".toList⟩

/-- It marks the caller's leg as established and comes back to the callee. -/
theorem callee_ack_returns :
    ¬ ActsRightly ringingCalls.calls calleeAck (NetAddr.ofOctets 198 51 100 10 5060) none 0 ∧
    (handleAck ringingCalls.calls calleeAck (NetAddr.ofOctets 198 51 100 10 5060) none 0).marked =
      some ringingCall.uuid ∧
    ((handleAck ringingCalls.calls calleeAck (NetAddr.ofOctets 198 51 100 10 5060) none 0).relayed.map
      fun r => r.2.dest) = some (NetAddr.ofOctets 198 51 100 10 5060) := by
  have hmatch : matchAck ringingCalls.calls (calleeAck.callId.getD []) = some ringingCall := by
    decide
  have hmarked := (effect_of_match (NetAddr.ofOctets 198 51 100 10 5060) none 0 hmatch).1
  refine ⟨fun hacts => ?_, hmarked, ?_⟩
  · obtain ⟨call, hcall, -, hack⟩ := hacts _ (.inl hmarked)
    rw [List.mem_singleton.mp hcall] at hack
    exact absurd hack.fromCaller (by decide)
  · unfold handleAck
    rw [hmatch]
    rfl

end NixiSbc.AckRelay

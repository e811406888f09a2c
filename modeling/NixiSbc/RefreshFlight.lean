import NixiSbc.BuiltRequests
import NixiSbc.CallFrames
import NixiSbc.ClientTxSchedule
import NixiSbc.Eviction
import NixiSbc.LateAnswers

namespace NixiSbc.RefreshFlight

open ByteWords Stun TextScan TextFields TextWords RawSip SipBuilder KeyedTable Eviction StateRuns BuiltRequests
open CallSetup InviteRetries ResponseHandler CallHandlers RetrySteps CallFrames
open CallLedger (Setup setUp)
open CallManager (callUuid)
open InviteTexts (newBranch)
open B2bua (B2buaCall Transport dialogInfoTowardCallee extractBody refreshCall nextOutboundCseq setLegCseq transportToken)
open ClientTx (Cache Tx key toAsciiUppercase tracked afterCancel makeRoom recordSent answeredParts maxEntries)

/-- What became of the last refresh of a call: whether the network took it, and
whether a provisional response to it has come. -/
structure Flight where
  cseq : UInt32
  branch : List Char
  raw : List Char
  taken : Bool
  provisional : Bool
  deriving DecidableEq

def Flight.key (f : Flight) : List Char := ClientTx.key f.branch "INVITE".toList

structure Live where
  call : SetupCall
  flight : Option Flight
  deriving DecidableEq

abbrev Calls := Table (List Char) Live

/-- The calls and the requests that are retransmitted. What is known of the
refreshes is history, which no handler reads. -/
structure World where
  calls : Calls
  requests : Cache

def World.new : World := ⟨∅, ∅⟩

/-- An INVITE makes a call, an event finds one, the refresh loop visits one, the
network takes a request other than a refresh, the retransmissions are looked at,
or a response comes, with the values of its first Via and of its CSeq. -/
inductive Event
  | invite (n : NewCall) (setup : Setup)
  | call (uuid : List Char) (event : CallEvent)
  | refresh (uuid : List Char) (now : Nat) (draw : UInt64) (sentAt : Nat) (taken : Bool)
  | send (now : Nat) (what : List Char) (raw : Bytes) (dest : SocketAddr) (transport : Transport) (replyTx : Option Nat)
  | poll (now : Nat)
  | response (order : Iteration (List Char) Live) (via cseq : Option (List Char)) (a : Arrival) (r : Response)

/-- The branch in the value of a Via, however the parameter is spelled. -/
def branchParam (viaValue : List Char) : Option (List Char) :=
  match findSub branchText (toAsciiLowercase viaValue) with
  | none => none
  | some pos =>
      let rest := viaValue.drop (pos + branchText.length)
      match trim (rest.takeWhile fun c => !endsBranch c) with
      | [] => none
      | branch => some branch

/-- The branch and the method that a response names. -/
def answered (via cseq : Option (List Char)) : Option (List Char × List Char) := do
  let branch ← branchParam (← via)
  let method ← (words (← cseq))[1]?
  return (branch, toAsciiUppercase method)

def isProvisional (status : UInt16) : Bool := 100 ≤ status ∧ status ≤ 199

/-- Responses and refreshes are events of their own. -/
def elsewhere : CallEvent → Bool
  | .response .. | .refresh .. => true
  | _ => false

def Live.hear (t : Live) (k : List Char) : Live :=
  { t with flight := t.flight.map fun f => if f.key = k then { f with provisional := true } else f }

/-- A provisional response is noted with the refresh that it answers. -/
def hear (calls : Calls) (status : UInt16) : Option (List Char × List Char) → Calls
  | some (branch, method) =>
      if isProvisional status then sweep (fun _ t => some (t.hear (key branch method))) calls else calls
  | none => calls

/-- A response ends the retransmission of what it answers. -/
def stop (requests : Cache) (status : UInt16) : Option (List Char × List Char) → Cache
  | some (branch, method) => (answeredParts requests branch method status).2
  | none => requests

/-- The call that a response is for. -/
def hit (order : Iteration (List Char) Live) (calls : Calls) (r : Response) : Option (List Char) :=
  let callId := r.callId.getD []
  if LateAnswers.isTaskCallId callId then none
  else ((order.order calls).find? fun e => e.2.call.inbound.callId = callId).map Sigma.fst

def keep (calls : Calls) (uuid : List Char) (flight : Option Flight) : Option SetupCall → Calls
  | some call => calls.insert uuid ⟨call, flight⟩
  | none => calls.erase uuid

section

variable (cfg : Config)

def respond (calls : Calls) (uuid : Option (List Char)) (a : Arrival) (r : Response) : Calls :=
  match uuid.bind fun uuid => (calls.lookup uuid).map (Prod.mk uuid) with
  | none => calls
  | some (uuid, t) => keep calls uuid t.flight (handleResponse cfg a t.call r).left

def refreshWhat : List Char := "re-INVITE (session refresh) → peer".toList

/-- `send_session_refreshes` for one call. A request that the network does not
take is not retransmitted either. -/
def refresh (s : World) (uuid : List Char) (t : Live) (now : Nat) (draw : UInt64) (sentAt : Nat) (taken : Bool) : World :=
  match refreshCall cfg.lower cfg.upper now (newBranch draw) cfg.sbcIp cfg.sbcPort t.call.toB2buaCall with
  | (none, _) => s
  | (some out, after) =>
      ⟨s.calls.insert uuid ⟨t.call.mapCall fun _ => after,
          some ⟨nextOutboundCseq cfg.lower t.call.toB2buaCall, newBranch draw, out.raw, taken, false⟩⟩,
        if taken then
          (recordSent cfg.lower s.requests sentAt refreshWhat (Utf8.encode out.raw) out.dest out.transport out.replyTx).2
        else s.requests⟩

def step (s : World) : Event → World
  | .invite n setup => { s with calls := keep s.calls (callUuid n.draw) none (setUp cfg n setup).left }
  | .call uuid event =>
      match s.calls.lookup uuid with
      | none => s
      | some t =>
          if elsewhere event then s
          else { s with calls := keep s.calls uuid t.flight (onEvent cfg t.call event).left }
  | .refresh uuid now draw sentAt taken =>
      if cfg.sessionTimer = none then s
      else
        match s.calls.lookup uuid with
        | none => s
        | some t => refresh cfg s uuid t now draw sentAt taken
  | .send now what raw dest transport replyTx =>
      { s with requests := (recordSent cfg.lower s.requests now what raw dest transport replyTx).2 }
  | .poll now => { s with requests := (ClientTx.due s.requests now).2 }
  | .response order via cseq a r =>
      let names := answered via cseq
      ⟨respond cfg (hear s.calls r.status names) (hit order s.calls r) a r, stop s.requests r.status names⟩

/-- The text is a re-INVITE with this branch and number. -/
def IsReinvite (branch raw : List Char) (n : UInt32) : Prop :=
  ∃ (d : DialogInfo) (sdp contactUri : List Char) (sessionExpires : Option (UInt32 × List Char)) (minSe : Option UInt32),
    raw = buildReinvite cfg.upper branch { d with cseq := n } sdp contactUri sessionExpires minSe

/-- A pending refresh was sent, and is retransmitted until a provisional
response comes. -/
def Flying (requests : Cache) (t : Live) : Prop :=
  ∀ n, pendingOf t.call = some n →
    ∃ f, t.flight = some f ∧ f.cseq = n ∧ f.taken = true ∧ IsReinvite cfg f.branch f.raw n ∧
      (f.provisional = true ∨ ∃ tx, requests.lookup f.key = some tx ∧ tx.raw = Utf8.encode f.raw)

def InFlight (s : World) : Prop := ∀ uuid t, s.calls.lookup uuid = some t → Flying cfg s.requests t

/-- The dialog in which a refresh is due. -/
def dueDialog (call : B2buaCall) (now : Nat) : Option DialogInfo :=
  match call.state, call.calleeDest, call.sessionTimer, dialogInfoTowardCallee call cfg.sbcIp cfg.sbcPort,
      call.originalOutboundInvite.bind extractBody with
  | .connected, some _, some st, some d, some _ =>
      if st.nextRefreshAt ≤ now ∧ st.pendingRefreshCseq = none then some d else none
  | _, _, _, _, _ => none

/-- The refresh of a call that has neither failed nor been answered. -/
def Live.waits (t : Live) : Option Flight :=
  if pendingOf t.call = none then none else t.flight.filter fun f => !f.provisional

def waiting (s : World) : List (List Char × Flight) := collect (fun _ t => t.waits) s.calls

/-- No refresh has waited for as long as a request is retransmitted. -/
def Unexpired (s : World) (now : Nat) : Prop :=
  ∀ w ∈ waiting s, ∀ tx ∈ s.requests.lookup w.2.key, now < tx.giveUpAt

/-- The request of a branch and a method does not take the place of a refresh. -/
def Apart (s : World) (now : Nat) (branch method : List Char) : Prop :=
  (∀ w ∈ waiting s, w.2.key ≠ key branch method ∧ (method = "CANCEL".toList → w.2.key ≠ key branch "INVITE".toList)) ∧
    (maxEntries ≤ size (afterCancel s.requests branch method) → Unexpired s now)

/-- The final answer of a refresh reaches its call and names its number. -/
def Attributed (uuid : Option (List Char)) (r : Response) (w : List Char × Flight) : Prop :=
  uuid = some w.1 ∧ (responseCseq cfg.lower r).map (fun c => (c.1, toAsciiLowercase c.2)) =
    some (w.2.cseq, "invite".toList)

def OverUdp (s : World) : Event → Prop
  | .refresh uuid _ _ _ _ => ∀ t ∈ s.calls.lookup uuid, t.call.calleeTransport = .udp
  | _ => True

def Kept (s : World) : Event → Prop
  | .refresh uuid now draw sentAt taken => ∀ t ∈ s.calls.lookup uuid, ∀ d ∈ dueDialog cfg t.call.toB2buaCall now,
      taken = true ∧ Sendable d ∧ size (makeRoom s.requests sentAt) < maxEntries ∧
        Apart s sentAt (newBranch draw) "INVITE".toList
  | .send now _ raw _ transport _ => ∀ p ∈ tracked cfg.lower raw transport, Apart s now p.1 p.2
  | .poll now => Unexpired s now
  | .response order via cseq _ r => ∀ p ∈ answered via cseq, isProvisional r.status = false →
      ∀ w ∈ waiting s, w.2.key = key p.1 p.2 → Attributed cfg (hit order s.calls r) r w
  | _ => True

end

section Cache

variable {cfg : Config} {s : World} {requests : Cache}

theorem mem_waiting {uuid : List Char} {t : Live} (h : s.calls.lookup uuid = some t) {f : Flight}
    (hf : t.flight = some f) (hpending : pendingOf t.call ≠ none) (hprovisional : f.provisional = false) :
    (uuid, f) ∈ waiting s := by
  refine mem_collect.mpr ⟨t, h, ?_⟩
  rw [Live.waits, if_neg hpending, hf, Option.filter_some, hprovisional]
  rfl

/-- The refreshes that wait are still retransmitted, with the same text. -/
def Keeps (s : World) (requests : Cache) : Prop :=
  ∀ w ∈ waiting s, ∀ tx, s.requests.lookup w.2.key = some tx →
    ∃ tx', requests.lookup w.2.key = some tx' ∧ tx'.raw = tx.raw

theorem Keeps.of_lookup (h : ∀ w ∈ waiting s, requests.lookup w.2.key = s.requests.lookup w.2.key) :
    Keeps s requests := fun w hw tx htx => ⟨tx, (h w hw).trans htx, rfl⟩

theorem Flying.keeps {uuid : List Char} {t : Live} (h : Flying cfg s.requests t) (hlookup : s.calls.lookup uuid = some t)
    (hkeeps : Keeps s requests) : Flying cfg requests t := by
  intro n hn
  obtain ⟨f, hf, hcseq, htaken, hraw, hstill⟩ := h n hn
  refine ⟨f, hf, hcseq, htaken, hraw, ?_⟩
  cases hprovisional : f.provisional with
  | true => exact .inl rfl
  | false =>
      obtain ⟨tx, htx, htext⟩ := hstill.resolve_left (Bool.eq_false_iff.mp hprovisional)
      have hwaits := mem_waiting hlookup hf (hn ▸ Option.some_ne_none n) hprovisional
      obtain ⟨tx', htx', hsame⟩ := hkeeps _ hwaits tx htx
      exact .inr ⟨tx', htx', hsame.trans htext⟩

theorem InFlight.keeps (h : InFlight cfg s) (hkeeps : Keeps s requests) :
    InFlight cfg { s with requests := requests } := fun uuid t hlookup => (h uuid t hlookup).keeps hlookup hkeeps

theorem lookup_afterCancel {k branch method : List Char} (h : method = "CANCEL".toList → k ≠ key branch "INVITE".toList)
    (cache : Cache) : (afterCancel cache branch method).lookup k = cache.lookup k := by
  unfold afterCancel
  split
  next hcancel => exact AList.lookup_erase_ne (h hcancel)
  next => rfl

/-- Making room drops what has expired only. -/
theorem lookup_makeRoom {cache : Cache} {now : Nat} {k : List Char} {tx : Tx} (h : cache.lookup k = some tx)
    (hfull : maxEntries ≤ size cache → now < tx.giveUpAt) : (makeRoom cache now).lookup k = some tx := by
  unfold makeRoom
  split
  next hsize =>
    rw [lookup_sweep, h, Option.bind_some, ClientTx.notExpired, if_pos (hfull hsize)]
  next => exact h

theorem keeps_room {now : Nat} {branch method : List Char} (h : Apart s now branch method) :
    Keeps s (makeRoom (afterCancel s.requests branch method) now) := by
  intro w hw tx htx
  have hafter := (lookup_afterCancel (h.1 w hw).2 s.requests).trans htx
  exact ⟨tx, lookup_makeRoom hafter fun hfull => h.2 hfull w hw tx htx, rfl⟩

theorem keeps_insert (h : Keeps s requests) {k : List Char} (hk : ∀ w ∈ waiting s, w.2.key ≠ k) (tx : Tx) :
    Keeps s (requests.insert k tx) := by
  intro w hw tx' htx'
  obtain ⟨tx'', hlookup, hraw⟩ := h w hw tx' htx'
  exact ⟨tx'', (AList.lookup_insert_ne (hk w hw)).trans hlookup, hraw⟩

theorem keeps_recordSent (now : Nat) (what : List Char) (raw : Bytes) (dest : SocketAddr) (transport : Transport)
    (replyTx : Option Nat) (h : ∀ p ∈ tracked cfg.lower raw transport, Apart s now p.1 p.2) :
    Keeps s (recordSent cfg.lower s.requests now what raw dest transport replyTx).2 := by
  rcases ClientTxSchedule.recordSent_cases cfg.lower s.requests now what raw dest transport replyTx with
    ⟨-, hsent⟩ | ⟨branch, method, htracked, hsent | hsent⟩
  · rw [hsent]
    exact .of_lookup fun _ _ => rfl
  · rw [hsent]
    exact keeps_room (h _ htracked)
  · rw [hsent]
    exact keeps_insert (keeps_room (h _ htracked)) (fun w hw => ((h _ htracked).1 w hw).1) _

/-- A poll sends copies, and drops what has expired. -/
theorem keeps_due {now : Nat} (h : Unexpired s now) : Keeps s (ClientTx.due s.requests now).2 := by
  intro w hw tx htx
  have hlookup : (ClientTx.due s.requests now).2.lookup w.2.key = ClientTx.visit now w.2.key tx := by
    change (sweep _ _).lookup _ = _
    rw [lookup_sweep, htx, Option.bind_some]
  have hlive : ¬ tx.giveUpAt ≤ now := Nat.not_le.mpr (h w hw tx htx)
  rw [hlookup, ClientTx.visit, if_neg hlive]
  split
  next => exact ⟨_, rfl, rfl⟩
  next => exact ⟨tx, rfl, rfl⟩

end Cache

section Refresh

variable {cfg : Config} {s : World}

theorem refreshCall_idle {call : B2buaCall} {now : Nat} (h : dueDialog cfg call now = none) (branch : List Char) :
    refreshCall cfg.lower cfg.upper now branch cfg.sbcIp cfg.sbcPort call = (none, call) := by
  unfold dueDialog at h
  split at h
  next dest st d sdp hstate hdest hst hd hsdp =>
    split at h
    next => cases h
    next hdue =>
      unfold refreshCall
      rw [hstate, hdest, hst, hd, hsdp]
      exact if_pos ((not_and_or.mp hdue).imp Nat.lt_of_not_le id)
  next hother =>
    unfold refreshCall
    split
    next dest st d sdp hstate hdest hst hd hsdp => exact absurd hsdp (hother dest st d sdp hstate hdest hst hd)
    next => rfl

theorem transport_towardCallee {call : B2buaCall} {ip : List Char} {port : UInt16} {d : DialogInfo}
    (h : dialogInfoTowardCallee call ip port = some d) : d.transport = transportToken call.calleeTransport := by
  simp only [dialogInfoTowardCallee, Option.bind_eq_bind, Option.bind_eq_some_iff] at h
  obtain ⟨out, -, fromRaw, -, toRaw, -, requestUri, -, hd⟩ := h
  cases hd
  rfl

/-- A refresh that is due goes out, and is pending from then on. -/
theorem refreshCall_due {call : B2buaCall} {now : Nat} {d : DialogInfo} (h : dueDialog cfg call now = some d)
    (branch : List Char) :
    ∃ out after sdp contactUri sessionExpires minSe,
      refreshCall cfg.lower cfg.upper now branch cfg.sbcIp cfg.sbcPort call = (some out, after) ∧
      out.raw = buildReinvite cfg.upper branch { d with cseq := nextOutboundCseq cfg.lower call } sdp contactUri
        sessionExpires minSe ∧
      out.transport = call.calleeTransport ∧ d.transport = transportToken call.calleeTransport ∧
      after.sessionTimer.bind (·.pendingRefreshCseq) = some (nextOutboundCseq cfg.lower call) := by
  unfold dueDialog at h
  split at h
  next dest st d' sdp hstate hdest hst hd hsdp =>
    split at h
    next hdue =>
      cases h
      unfold refreshCall
      rw [hstate, hdest, hst, hd, hsdp]
      dsimp only
      rw [if_neg (not_or.mpr ⟨Nat.not_lt.mpr hdue.1, not_not.mpr hdue.2⟩)]
      exact ⟨_, _, _, _, _, _, rfl, rfl, rfl, transport_towardCallee hd, rfl⟩
    next => cases h
  next => cases h

theorem lookup_insert_cases {calls : Calls} {uuid uuid' : List Char} {t t' : Live}
    (h : (calls.insert uuid t).lookup uuid' = some t') :
    (uuid' = uuid ∧ t' = t) ∨ uuid' ≠ uuid ∧ calls.lookup uuid' = some t' := by
  by_cases heq : uuid' = uuid
  · subst heq
    exact .inl ⟨rfl, (Option.some.inj ((AList.lookup_insert _).symm.trans h)).symm⟩
  · exact .inr ⟨heq, (AList.lookup_insert_ne heq).symm.trans h⟩

theorem recordSent_room {U : Lowering} {requests : Cache} {now : Nat} {raw : Bytes} {transport : Transport}
    {branch : List Char} (htracked : tracked U raw transport = some (branch, "INVITE".toList))
    (hroom : size (makeRoom requests now) < maxEntries) (what : List Char) (dest : SocketAddr) (replyTx : Option Nat) :
    ∃ tx, (recordSent U requests now what raw dest transport replyTx).2.lookup (key branch "INVITE".toList) = some tx ∧
      tx.raw = raw := by
  have hinvite : "INVITE".toList ≠ "CANCEL".toList := by decide
  unfold recordSent afterCancel
  rw [htracked]
  dsimp only
  rw [if_neg hinvite, if_neg (Nat.not_le.mpr hroom)]
  exact ⟨_, AList.lookup_insert _, rfl⟩

/-- A refresh that the network takes and that can be retransmitted is in flight. -/
theorem InFlight.refresh (h : InFlight cfg s) (uuid : List Char) {t : Live} {now : Nat} {draw : UInt64} {sentAt : Nat}
    {taken : Bool} (hudp : t.call.calleeTransport = .udp)
    (hkept : ∀ d ∈ dueDialog cfg t.call.toB2buaCall now, taken = true ∧ Sendable d ∧
      size (makeRoom s.requests sentAt) < maxEntries ∧ Apart s sentAt (newBranch draw) "INVITE".toList) :
    InFlight cfg (RefreshFlight.refresh cfg s uuid t now draw sentAt taken) := by
  cases hdue : dueDialog cfg t.call.toB2buaCall now with
  | none =>
      rw [RefreshFlight.refresh, refreshCall_idle hdue]
      exact h
  | some d =>
      obtain ⟨rfl, hsendable, hroom, hapart⟩ := hkept d hdue
      obtain ⟨out, after, sdp, contactUri, sessionExpires, minSe, hcall, hraw, htransport, hd, hpending⟩ :=
        refreshCall_due hdue (newBranch draw)
      have htracked : tracked cfg.lower (Utf8.encode out.raw) out.transport =
          some (newBranch draw, "INVITE".toList) := by
        have htoken : d.transport = transportToken .udp := hd.trans (congrArg transportToken hudp)
        rw [hraw, htransport, hudp]
        have hnumbered : Sendable { d with cseq := nextOutboundCseq cfg.lower t.call.toB2buaCall } :=
          ⟨hsendable.uri, hsendable.ip_line, hsendable.ip_sign⟩
        exact tracked_reinvite cfg.lower hnumbered htoken draw sdp contactUri sessionExpires minSe
      rw [RefreshFlight.refresh, hcall]
      dsimp only
      rw [if_pos rfl]
      intro uuid' t' hlookup'
      have hrecorded := recordSent_room htracked hroom refreshWhat out.dest out.replyTx
      rcases lookup_insert_cases hlookup' with ⟨-, rfl⟩ | ⟨-, hold⟩
      · intro n hn
        obtain rfl : nextOutboundCseq cfg.lower t.call.toB2buaCall = n := Option.some.inj (hpending.symm.trans hn)
        exact ⟨_, rfl, rfl, rfl, ⟨d, sdp, contactUri, sessionExpires, minSe, hraw⟩, .inr hrecorded⟩
      · refine (h uuid' t' hold).keeps hold (keeps_recordSent _ _ _ _ _ _ fun p hp => ?_)
        cases htracked.symm.trans hp
        exact hapart

end Refresh

section Calls

variable {cfg : Config} {s : World} {requests : Cache}

theorem Flying.steady {t : Live} (h : Flying cfg requests t) {after : SetupCall} (hsteady : Steady t.call after) :
    Flying cfg requests ⟨after, t.flight⟩ := by
  intro n hn
  rcases hsteady.pending with hsame | hnone
  · exact h n (hsame.symm.trans hn)
  · cases hnone.symm.trans hn

theorem flying_idle {t : Live} (h : pendingOf t.call = none) : Flying cfg requests t := by
  intro n hn
  cases h.symm.trans hn

theorem inFlight_keep {calls : Calls} {uuid : List Char} {flight : Option Flight} {after : Option SetupCall}
    (h : ∀ uuid' t, uuid' ≠ uuid → calls.lookup uuid' = some t → Flying cfg requests t)
    (hafter : ∀ call, after = some call → Flying cfg requests ⟨call, flight⟩) :
    InFlight cfg ⟨keep calls uuid flight after, requests⟩ := by
  intro uuid' t' hlookup
  cases after with
  | some call =>
      rcases lookup_insert_cases hlookup with ⟨-, rfl⟩ | ⟨hne, hold⟩
      · exact hafter call rfl
      · exact h uuid' t' hne hold
  | none =>
      by_cases heq : uuid' = uuid
      · rw [heq] at hlookup
        cases (AList.lookup_erase uuid calls).symm.trans hlookup
      · exact h uuid' t' heq (lookup_of_lookup_erase hlookup)

theorem pendingOf_new (n : NewCall) : pendingOf n.call = none := by
  unfold NewCall.call
  split
  next => rfl
  next => rfl

/-- A call begins without a refresh. -/
theorem pendingOf_setUp (n : NewCall) (setup : Setup) {after : SetupCall} (h : (setUp cfg n setup).left = some after) :
    pendingOf after = none := by
  cases setup with
  | refused why raw => cases h
  | forwarded look route raw localTag =>
      have hrecorded (now : Nat) : pendingOf (recorded cfg now n route raw localTag) = none := by
        cases route with
        | contact dest transport replyTx => exact pendingOf_new n
        | trunk t dest candidates => exact pendingOf_new n
      have hfailover (now : Nat) :
          pendingOf (failoverToNextTrunk cfg look (recorded cfg now n route raw localTag)).2.1 = none := by
        rcases (steady_failover cfg (recorded cfg now n route raw localTag) look).pending with hsame | hnone
        · exact hsame.trans (hrecorded now)
        · exact hnone
      have hafter := left_eq h
      subst hafter
      simp only [setUp, forwardInvite]
      split
      next => exact hrecorded _
      next => split <;> exact hfailover _

theorem pendingOf_completed (V : Uppering) (call : SetupCall) {cseq : UInt32} (h : pendingOf call = some cseq)
    (branch localIp : List Char) (localPort : UInt16) : pendingOf (call.mapCall fun _ =>
      (B2bua.completeSessionRefresh V call.toB2buaCall cseq branch localIp localPort).2) = none := by
  obtain ⟨st, hst, hpending⟩ := Option.bind_eq_some_iff.mp h
  unfold B2bua.completeSessionRefresh
  rw [hst]
  dsimp only
  rw [if_neg (not_not.mpr hpending)]
  rfl

theorem pendingOf_failed (U : Lowering) (call : SetupCall) {cseq : UInt32} (h : pendingOf call = some cseq)
    (now delayMs : Nat) (status : UInt16) (minSe422 : Option UInt32) (responseTo : List Char) :
    pendingOf (call.mapCall fun _ =>
      (B2bua.failSessionRefresh U call.toB2buaCall now delayMs cseq status minSe422 responseTo).2) = none := by
  obtain ⟨st, hst, hpending⟩ := Option.bind_eq_some_iff.mp h
  unfold B2bua.failSessionRefresh
  rw [hst]
  dsimp only
  rw [if_neg (not_not.mpr hpending)]
  split
  next => rfl
  next => split <;> rfl

/-- A final answer that names the pending refresh settles it. -/
theorem pendingOf_answered {call after : SetupCall} {cseq : UInt32} {method : List Char}
    (h : pendingOf call = some cseq) {a : Arrival} {r : Response} (hcseq : responseCseq cfg.lower r = some (cseq, method))
    (hmethod : toAsciiLowercase method = "invite".toList) (hfinal : isProvisional r.status = false)
    (hleft : (handleResponse cfg a call r).left = some after) : pendingOf after = none := by
  have hpending : isPendingRefresh call.toB2buaCall cseq = true := by
    obtain ⟨st, hst, hn⟩ := Option.bind_eq_some_iff.mp h
    rw [isPendingRefresh, hst, Option.any_some, decide_eq_true_iff]
    exact hn
  rw [isProvisional, decide_eq_false_iff_not] at hfinal
  unfold handleResponse at hleft
  rw [hcseq] at hleft
  dsimp only at hleft
  rw [if_neg (not_not.mpr hmethod), if_pos hpending, handleRefreshResponse, if_neg hfinal] at hleft
  split at hleft
  next =>
    cases hleft
    exact pendingOf_completed _ _ h _ _ _
  next =>
    dsimp only at hleft
    split at hleft
    next =>
      cases hleft
      exact pendingOf_failed _ _ h _ _ _ _ _
    next =>
      split at hleft
      next => cases hleft
      next =>
        cases hleft
        exact pendingOf_failed _ _ h _ _ _ _ _

/-- The response is the final answer to a refresh of this call. -/
def Settles (s : World) (names : Option (List Char × List Char)) (status : UInt16) (uuid : List Char) : Prop :=
  isProvisional status = false ∧ ∃ p ∈ names, ∃ f, (uuid, f) ∈ waiting s ∧ f.key = key p.1 p.2

theorem lookup_stop {k : List Char} {p : List Char × List Char} (h : k ≠ key p.1 p.2) (status : UInt16) :
    (stop requests status (some p)).lookup k = requests.lookup k := by
  simp only [stop, answeredParts]
  split
  next =>
    split
    next => exact AList.lookup_erase_ne h
    next => rfl
  next => rfl

theorem lookup_hear {calls : Calls} {status : UInt16} {names : Option (List Char × List Char)} {uuid : List Char}
    {t : Live} (h : (hear calls status names).lookup uuid = some t) :
    ∃ t', calls.lookup uuid = some t' ∧
      (t = t' ∧ (names = none ∨ isProvisional status = false) ∨
        ∃ p, names = some p ∧ isProvisional status = true ∧ t = t'.hear (key p.1 p.2)) := by
  cases names with
  | none => exact ⟨t, h, .inl ⟨rfl, .inl rfl⟩⟩
  | some p =>
      simp only [hear] at h
      split at h
      next hprovisional =>
        rw [lookup_sweep] at h
        obtain ⟨t', hlookup, hheard⟩ := Option.bind_eq_some_iff.mp h
        exact ⟨t', hlookup, .inr ⟨p, rfl, hprovisional, (Option.some.inj hheard).symm⟩⟩
      next hfinal => exact ⟨t, h, .inl ⟨rfl, .inr (Bool.eq_false_iff.mpr hfinal)⟩⟩

/-- A response leaves a refresh that it does not settle in flight. -/
theorem InFlight.hear (h : InFlight cfg s) {names : Option (List Char × List Char)} {status : UInt16} {uuid : List Char}
    {t : Live} (hlookup : (hear s.calls status names).lookup uuid = some t) (hsettles : ¬ Settles s names status uuid) :
    Flying cfg (stop s.requests status names) t := by
  obtain ⟨t', ht', hcases⟩ := lookup_hear hlookup
  intro n hn
  rcases hcases with ⟨rfl, hquiet⟩ | ⟨p, rfl, -, rfl⟩
  · obtain ⟨f, hf, hcseq, htaken, hraw, hstill⟩ := h uuid t ht' n hn
    refine ⟨f, hf, hcseq, htaken, hraw, ?_⟩
    cases hprovisional : f.provisional with
    | true => exact .inl rfl
    | false =>
        have hentry := hstill.resolve_left (Bool.eq_false_iff.mp hprovisional)
        cases names with
        | none => exact .inr hentry
        | some p =>
            have hfinal := hquiet.resolve_left (Option.some_ne_none p)
            have hwaits := mem_waiting ht' hf (hn ▸ Option.some_ne_none n) hprovisional
            have hkey : f.key ≠ key p.1 p.2 := fun heq => hsettles ⟨hfinal, p, rfl, f, hwaits, heq⟩
            rw [lookup_stop hkey]
            exact .inr hentry
  · obtain ⟨f, hf, hcseq, htaken, hraw, hstill⟩ := h uuid t' ht' n hn
    by_cases hkey : f.key = key p.1 p.2
    · refine ⟨{ f with provisional := true }, ?_, hcseq, htaken, hraw, .inl rfl⟩
      rw [Live.hear, hf, Option.map_some, if_pos hkey]
    · refine ⟨f, ?_, hcseq, htaken, hraw, ?_⟩
      · rw [Live.hear, hf, Option.map_some, if_neg hkey]
      · rw [lookup_stop hkey]
        exact hstill

theorem InFlight.pending (h : InFlight cfg s) {w : List Char × Flight} (hw : w ∈ waiting s) :
    ∃ t, s.calls.lookup w.1 = some t ∧ pendingOf t.call = some w.2.cseq := by
  obtain ⟨t, hlookup, hwaits⟩ := mem_collect.mp hw
  refine ⟨t, hlookup, ?_⟩
  rw [Live.waits] at hwaits
  split at hwaits
  next => cases hwaits
  next hpending =>
    obtain ⟨n, hn⟩ := Option.ne_none_iff_exists'.mp hpending
    obtain ⟨f, hf, hcseq, -⟩ := h w.1 t hlookup n hn
    obtain ⟨hflight, -⟩ := Option.filter_eq_some_iff.mp hwaits
    obtain rfl : f = w.2 := Option.some.inj (hf.symm.trans hflight)
    exact hn.trans (congrArg some hcseq.symm)

/-- The final answer of a refresh frees its call for the next one. -/
theorem InFlight.respond (h : InFlight cfg s) {names : Option (List Char × List Char)} {uuid : Option (List Char)}
    {a : Arrival} {r : Response}
    (hkept : ∀ p ∈ names, isProvisional r.status = false → ∀ w ∈ waiting s, w.2.key = key p.1 p.2 →
      Attributed cfg uuid r w) :
    InFlight cfg ⟨RefreshFlight.respond cfg (RefreshFlight.hear s.calls r.status names) uuid a r,
      stop s.requests r.status names⟩ := by
  have hhit {uuid' : List Char} (hsettles : Settles s names r.status uuid') : uuid = some uuid' := by
    obtain ⟨hfinal, p, hp, f, hwaits, hkey⟩ := hsettles
    exact (hkept p hp hfinal _ hwaits hkey).1
  unfold RefreshFlight.respond
  split
  next hnone =>
    intro uuid' t hlookup
    refine h.hear hlookup fun hsettles => ?_
    rw [hhit hsettles, Option.bind_some, hlookup] at hnone
    cases hnone
  next uuid' t hsome =>
    obtain ⟨u, hu, hfound⟩ := Option.bind_eq_some_iff.mp hsome
    obtain ⟨t', hlookup, heq⟩ := Option.map_eq_some_iff.mp hfound
    cases heq
    refine inFlight_keep (fun uuid'' t'' hne hlookup'' => h.hear hlookup'' fun hsettles => ?_) fun after hleft => ?_
    · exact hne (Option.some.inj ((hhit hsettles).symm.trans hu))
    · by_cases hsettles : Settles s names r.status uuid'
      · obtain ⟨hfinal, p, hp, f, hwaits, hkey⟩ := hsettles
        obtain ⟨c, hcseq, hnamed⟩ := Option.map_eq_some_iff.mp (hkept p hp hfinal _ hwaits hkey).2
        obtain ⟨hnumber, hmethod⟩ := Prod.mk.inj hnamed
        obtain ⟨t', ht', hpending⟩ := h.pending hwaits
        obtain ⟨t'', ht'', hcases⟩ := lookup_hear hlookup
        obtain rfl : t'' = t' := Option.some.inj (ht''.symm.trans ht')
        rcases hcases with ⟨rfl, -⟩ | ⟨-, -, hprovisional, -⟩
        · rw [← hnumber] at hpending
          exact flying_idle (pendingOf_answered hpending hcseq hmethod hfinal hleft)
        · cases hfinal.symm.trans hprovisional
      · exact (h.hear hlookup hsettles).steady (steady_handleResponse hleft)

end Calls

section Runs

variable {cfg : Config} {s : World}

theorem InFlight.step (h : InFlight cfg s) {e : Event} (hudp : OverUdp s e) (hkept : Kept cfg s e) :
    InFlight cfg (step cfg s e) := by
  cases e with
  | invite n setup =>
      exact inFlight_keep (fun uuid t _ hlookup => h uuid t hlookup) fun after hleft =>
        flying_idle (pendingOf_setUp n setup hleft)
  | call uuid event =>
      dsimp only [RefreshFlight.step]
      split
      next => exact h
      next t hlookup =>
        split
        next => exact h
        next hhere =>
          refine inFlight_keep (fun uuid' t' _ hlookup' => h uuid' t' hlookup') fun after hleft => ?_
          refine (h uuid t hlookup).steady (steady_onEvent hleft ?_)
          rintro now branch rfl
          exact hhere rfl
  | refresh uuid now draw sentAt taken =>
      dsimp only [RefreshFlight.step]
      split
      next => exact h
      next =>
        split
        next => exact h
        next t hlookup => exact h.refresh uuid (hudp t hlookup) (hkept t hlookup)
  | send now what raw dest transport replyTx => exact h.keeps (keeps_recordSent now what raw dest transport replyTx hkept)
  | poll now => exact h.keeps (keeps_due hkept)
  | response order via cseq a r => exact h.respond hkept

theorem inFlight_new : InFlight cfg .new := fun _ _ hlookup => by cases hlookup

/-- Whatever refresh is pending is in flight, as long as each is taken by the
network and answered in time. -/
theorem refresh_in_flight (cfg : Config) (events : List Event) (hudp : Throughout (step cfg) OverUdp .new events)
    (hkept : Throughout (step cfg) (Kept cfg) .new events) :
    Throughout (step cfg) (fun s e => InFlight cfg (step cfg s e)) .new events :=
  throughout_of_invariant (I := InFlight cfg) (A := fun s e => OverUdp s e ∧ Kept cfg s e)
    (fun _ _ h hall => h.step hall.1 hall.2) (fun _ _ h hall => h.step hall.1 hall.2) inFlight_new
    (throughout_and.mpr ⟨hudp, hkept⟩)

/-- No refresh is sent while one is pending. -/
theorem refresh_blocked (cfg : Config) (s : World) (uuid : List Char) {t : Live} (h : pendingOf t.call ≠ none)
    (now : Nat) (draw : UInt64) (sentAt : Nat) (taken : Bool) : refresh cfg s uuid t now draw sentAt taken = s := by
  have hidle : dueDialog cfg t.call.toB2buaCall now = none := by
    unfold dueDialog
    split
    next dest st d sdp hstate hdest hst hd hsdp =>
      apply if_neg
      rintro ⟨-, hnone⟩
      refine h ?_
      rw [pendingOf, hst]
      exact hnone
    next => rfl
  rw [refresh, refreshCall_idle hidle]

/-- A refresh is pending that is not in flight. -/
def lost (s : World) (uuid : List Char) : Bool :=
  (s.calls.lookup uuid).any fun t => pendingOf t.call ≠ none ∧
    t.flight.all fun f => !f.taken || !f.provisional && (s.requests.lookup f.key).isNone

theorem pending_of_lost {uuid : List Char} (h : lost s uuid = true) :
    ∃ t, s.calls.lookup uuid = some t ∧ pendingOf t.call ≠ none ∧
      ∀ f ∈ t.flight, f.taken = true → f.provisional = false ∧ s.requests.lookup f.key = none := by
  obtain ⟨t, hlookup, hlost⟩ := (Option.any_eq_true _ _).mp h
  obtain ⟨hpending, hflight⟩ := of_decide_eq_true hlost
  refine ⟨t, hlookup, hpending, fun f hf htaken => ?_⟩
  rw [Option.mem_def] at hf
  rw [hf, Option.all_some, htaken, Bool.not_true, Bool.false_or, Bool.and_eq_true, Bool.not_eq_true',
    Option.isNone_iff_eq_none] at hflight
  exact hflight

theorem not_inFlight_of_lost {uuid : List Char} (h : lost s uuid = true) : ¬ InFlight cfg s := by
  intro hflight
  obtain ⟨t, hlookup, hpending, hlost⟩ := pending_of_lost h
  obtain ⟨n, hn⟩ := Option.ne_none_iff_exists'.mp hpending
  obtain ⟨f, hf, -, htaken, -, hstill⟩ := hflight uuid t hlookup n hn
  obtain ⟨hprovisional, hnone⟩ := hlost f hf htaken
  rcases hstill with hheard | ⟨tx, htx, -⟩
  · cases hprovisional.symm.trans hheard
  · cases hnone.symm.trans htx

/-- A call whose refresh is lost is not refreshed any more. -/
theorem step_of_lost {uuid : List Char} (h : lost s uuid = true) (now : Nat) (draw : UInt64) (sentAt : Nat)
    (taken : Bool) : step cfg s (.refresh uuid now draw sentAt taken) = s := by
  obtain ⟨t, hlookup, hpending, -⟩ := pending_of_lost h
  dsimp only [RefreshFlight.step]
  rw [hlookup]
  split
  next => rfl
  next => exact refresh_blocked cfg s uuid hpending now draw sentAt taken

/-- By then every request of the table is given up. -/
def GivenUp (requests : Cache) (limit : Nat) : Prop := ∀ k, ∀ tx ∈ requests.lookup k, tx.giveUpAt ≤ limit

theorem givenUp_recordSent {requests : Cache} {limit now : Nat} (h : GivenUp requests limit)
    (hnow : now + ClientTx.transactionTimeout ≤ limit) (U : Lowering) (what : List Char) (raw : Bytes) (dest : SocketAddr)
    (transport : Transport) (replyTx : Option Nat) :
    GivenUp (recordSent U requests now what raw dest transport replyTx).2 limit := by
  have hroom (branch method : List Char) : GivenUp (makeRoom (afterCancel requests branch method) now) limit := by
    have hafter : GivenUp (afterCancel requests branch method) limit := by
      unfold afterCancel
      split
      next =>
        intro k tx htx
        by_cases hk : k = key branch "INVITE".toList
        · rw [hk, AList.lookup_erase] at htx
          cases htx
        · rw [AList.lookup_erase_ne hk] at htx
          exact h k tx htx
      next => exact h
    unfold makeRoom
    split
    next =>
      intro k tx htx
      rw [lookup_sweep] at htx
      obtain ⟨tx', htx', hkeep⟩ := Option.bind_eq_some_iff.mp htx
      unfold ClientTx.notExpired at hkeep
      split at hkeep
      next =>
        cases hkeep
        exact hafter k tx htx'
      next => cases hkeep
    next => exact hafter
  unfold recordSent
  split
  next => exact h
  next branch method _ =>
    dsimp only
    split
    next => exact hroom branch method
    next =>
      intro k tx htx
      by_cases hk : k = key branch method
      · rw [hk, AList.lookup_insert] at htx
        cases htx
        exact hnow
      · rw [AList.lookup_insert_ne hk] at htx
        exact hroom branch method k tx htx

theorem givenUp_refresh (cfg : Config) {limit sentAt : Nat} (h : GivenUp s.requests limit) (hsent : sentAt + ClientTx.transactionTimeout ≤ limit)
    (uuid : List Char) (now : Nat) (draw : UInt64) (taken : Bool) :
    GivenUp (step cfg s (.refresh uuid now draw sentAt taken)).requests limit := by
  dsimp only [RefreshFlight.step]
  split
  next => exact h
  next =>
    split
    next => exact h
    next =>
      unfold refresh
      split
      next => exact h
      next =>
        dsimp only
        split
        next => exact givenUp_recordSent h hsent _ _ _ _ _ _
        next => exact h

/-- A refresh that nobody answered is lost when its request expires. -/
theorem lost_of_expired (cfg : Config) {uuid : List Char} {now : Nat} (h : GivenUp s.requests now)
    (hwaits : ((s.calls.lookup uuid).any fun t => pendingOf t.call ≠ none ∧ t.flight.all fun f => !f.provisional) = true) :
    lost (step cfg s (.poll now)) uuid = true := by
  have hgone (k : List Char) : (ClientTx.due s.requests now).2.lookup k = none := by
    change (sweep _ _).lookup _ = _
    rw [lookup_sweep, Option.bind_eq_none_iff]
    exact fun tx htx => if_pos (h k tx htx)
  obtain ⟨t, hlookup, hpending⟩ := (Option.any_eq_true _ _).mp hwaits
  refine (Option.any_eq_true _ _).mpr ⟨t, hlookup, ?_⟩
  obtain ⟨hpending, hflight⟩ := of_decide_eq_true hpending
  refine decide_eq_true ⟨hpending, ?_⟩
  cases hf : t.flight with
  | none => rfl
  | some f =>
      rw [hf, Option.all_some] at hflight
      change (!f.taken || !f.provisional && ((ClientTx.due s.requests now).2.lookup f.key).isNone) = true
      rw [hflight, hgone]
      exact Bool.or_true _

end Runs

section Sample

open CallerFinals (bareConfig host idleScene aliceCall bobsArrival bobsResponse)
open LateAnswers (trunkAt)

instance (d : DialogInfo) : Decidable (Sendable d) :=
  decidable_of_iff ('\n' ∉ d.requestUri ∧ '\n' ∉ d.localIp ∧ '=' ∉ d.localIp)
    ⟨fun h => ⟨h.1, h.2.1, h.2.2⟩, fun h => ⟨h.uri, h.ip_line, h.ip_sign⟩⟩

instance (s : World) (now : Nat) : Decidable (Unexpired s now) :=
  inferInstanceAs (Decidable (∀ w ∈ waiting s, ∀ tx ∈ s.requests.lookup w.2.key, now < tx.giveUpAt))

instance (s : World) (now : Nat) (branch method : List Char) : Decidable (Apart s now branch method) :=
  inferInstanceAs (Decidable (_ ∧ _))

instance (cfg : Config) (uuid : Option (List Char)) (r : Response) (w : List Char × Flight) :
    Decidable (Attributed cfg uuid r w) := inferInstanceAs (Decidable (_ ∧ _))

instance (s : World) (e : Event) : Decidable (OverUdp s e) :=
  match e with
  | .refresh uuid _ _ _ _ => decidable_of_iff (∀ t ∈ s.calls.lookup uuid, t.call.calleeTransport = .udp) Iff.rfl
  | .invite .. | .call .. | .send .. | .poll .. | .response .. => .isTrue trivial

instance (cfg : Config) (s : World) (e : Event) : Decidable (Kept cfg s e) :=
  match e with
  | .refresh uuid now draw sentAt taken =>
      decidable_of_iff (∀ t ∈ s.calls.lookup uuid, ∀ d ∈ dueDialog cfg t.call.toB2buaCall now,
        taken = true ∧ Sendable d ∧ size (makeRoom s.requests sentAt) < maxEntries ∧
          Apart s sentAt (newBranch draw) "INVITE".toList) Iff.rfl
  | .send now _ raw _ transport _ =>
      decidable_of_iff (∀ p ∈ tracked cfg.lower raw transport, Apart s now p.1 p.2) Iff.rfl
  | .poll now => inferInstanceAs (Decidable (Unexpired s now))
  | .response order via cseq _ r =>
      decidable_of_iff (∀ p ∈ answered via cseq, isProvisional r.status = false → ∀ w ∈ waiting s,
        w.2.key = key p.1 p.2 → Attributed cfg (hit order s.calls r) r w) Iff.rfl
  | .invite .. | .call .. => .isTrue trivial

def timedConfig : Config := { bareConfig with sessionTimer := some (90, 90) }

def aliceTalks : List Event :=
  [.invite aliceCall (.forwarded (fun _ => idleScene) (.trunk (trunkAt 1 4) (host 4) [])
      ("INVITE sip:b@h SIP/2.0\r\n".toList ++ "Via: SIP/2.0/UDP h;branch=z9hG4bKa\r\n".toList ++
        "CSeq: 1 INVITE\r\n\r\nv=0".toList) ['l']),
    .response .newestFirst (some "SIP/2.0/UDP h;branch=z9hG4bKa".toList) (some "1 INVITE".toList) bobsArrival
      (bobsResponse 200),
    .call (callUuid 1) (.ack ⟨none, none, none, none⟩ 0)]

def aliceRefreshed (taken : Bool) : Event := .refresh (callUuid 1) 1000000 7 1000000 taken

def bobReplies (status : UInt16) : Event :=
  let via := "SIP/2.0/UDP h;branch=".toList ++ newBranch 7
  .response .newestFirst (some via) (some "2 INVITE".toList) bobsArrival
    { bobsResponse status with headers := ["Via: ".toList ++ via, "CSeq: 2 INVITE".toList] }

/-- Bob takes note of a refresh, and answers it when it is no longer retransmitted. -/
theorem alice_refresh_in_flight :
    Throughout (step timedConfig) (fun s e => InFlight timedConfig (step timedConfig s e)) .new
      (aliceTalks ++ [aliceRefreshed true, bobReplies 100, .poll 1032000, bobReplies 200]) :=
  refresh_in_flight timedConfig _ (by decide +kernel) (by decide +kernel)

def ran (events : List Event) : World := events.foldl (step timedConfig) .new

theorem inFlight_ran {events : List Event} {e : Event}
    (h : Throughout (step timedConfig) (fun s e => InFlight timedConfig (step timedConfig s e)) .new (events ++ [e])) :
    InFlight timedConfig (ran (events ++ [e])) := by
  rw [ran, List.foldl_append]
  exact (throughout_append.mp h).2.1

/-- A refresh that could not be sent, or that nobody answered, stays pending, and
no other is ever sent. -/
theorem refresh_left_pending :
    ¬ Throughout (step timedConfig) (fun s e => InFlight timedConfig (step timedConfig s e)) .new
        (aliceTalks ++ [aliceRefreshed false]) ∧
      ¬ Throughout (step timedConfig) (fun s e => InFlight timedConfig (step timedConfig s e)) .new
        ((aliceTalks ++ [aliceRefreshed true]) ++ [.poll 1032000]) ∧
      ∀ now draw sentAt taken,
        step timedConfig (ran (aliceTalks ++ [aliceRefreshed false])) (.refresh (callUuid 1) now draw sentAt taken) =
            ran (aliceTalks ++ [aliceRefreshed false]) ∧
          step timedConfig (ran ((aliceTalks ++ [aliceRefreshed true]) ++ [.poll 1032000]))
              (.refresh (callUuid 1) now draw sentAt taken) =
            ran ((aliceTalks ++ [aliceRefreshed true]) ++ [.poll 1032000]) := by
  have hunsent : lost (ran (aliceTalks ++ [aliceRefreshed false])) (callUuid 1) = true := by decide
  have hexpired : lost (ran ((aliceTalks ++ [aliceRefreshed true]) ++ [.poll 1032000])) (callUuid 1) = true := by
    have hnothing : (ran aliceTalks).requests.entries = [] := by decide
    have hempty : GivenUp (ran aliceTalks).requests 1032000 := by
      intro k tx htx
      rw [AList.lookup, hnothing] at htx
      cases htx
    rw [ran, List.foldl_append]
    refine lost_of_expired timedConfig ?_ (by decide)
    rw [List.foldl_append, List.foldl_cons, List.foldl_nil]
    have hlimit : 1000000 + ClientTx.transactionTimeout ≤ 1032000 := by decide
    exact givenUp_refresh timedConfig hempty hlimit (callUuid 1) 1000000 7 true
  refine ⟨fun h => not_inFlight_of_lost hunsent (inFlight_ran h), fun h => not_inFlight_of_lost hexpired (inFlight_ran h),
    fun now draw sentAt taken => ⟨?_, ?_⟩⟩
  · exact step_of_lost hunsent now draw sentAt taken
  · exact step_of_lost hexpired now draw sentAt taken

end Sample

end NixiSbc.RefreshFlight

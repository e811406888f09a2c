import NixiSbc.AttemptRecords
import NixiSbc.CallFrames
import NixiSbc.CallSequence
import NixiSbc.Eviction
import NixiSbc.InDialogRequests
import NixiSbc.LateAnswers

namespace NixiSbc.RelayedOrder

open ByteWords Stun KeyedTable Eviction CallSetup InviteRetries Teardown ResponseHandler CallHandlers RetrySteps FailoverSteps
open CallFrames CallLedger InDialogRequests StateRuns
open AttemptRecords (records)
open CallManager (callUuid)
open B2bua (B2buaCall CallLeg Outgoing legCseq setLegCseq liveInviteCseq nextOutboundCseq noteRelayedCseq refreshCall)

/-- The numbers that were sent within a call: those of the INVITEs that set it up,
those of refreshes and relayed requests toward the callee, and those of relayed
requests toward the caller. An ACK and a CANCEL repeat the number of an INVITE,
and a BYE ends the call. -/
structure Heard where
  invites : List UInt32
  others : List UInt32
  towardCaller : List UInt32
  deriving DecidableEq

structure Tracked where
  call : SetupCall
  heard : Heard
  deriving DecidableEq

abbrev Calls := Table (List Char) Tracked

/-- An INVITE that makes a call, an event that finds one, and an INFO or a REFER
with the order in which the map is iterated. -/
inductive Event
  | invite (n : NewCall) (setup : Setup)
  | call (uuid : List Char) (event : CallEvent)
  | request (order : Iteration (List Char) Tracked) (nanos : UInt32) (source : SocketAddr) (req : InDialogRequest)

def Heard.toward (h : Heard) (callee : Bool) : List UInt32 := if callee then h.invites ++ h.others else h.towardCaller

def Heard.add (h : Heard) (callee : Bool) (n : UInt32) : Heard :=
  if callee then { h with others := n :: h.others } else { h with towardCaller := n :: h.towardCaller }

section

variable (cfg : RelayConfig)

def invited (sent : List Sent) : List UInt32 := (records cfg.toConfig sent).map (·.cseq)

/-- The number of the refresh that is sent at an event. -/
def refreshed (call : SetupCall) : CallEvent → List UInt32
  | .refresh now branch =>
      match (refreshCall cfg.lower cfg.upper now branch cfg.sbcIp cfg.sbcPort call.toB2buaCall).1 with
      | some _ => [nextOutboundCseq cfg.lower call.toB2buaCall]
      | none => []
  | _ => []

/-- The call with the leg that an INFO or a REFER is taken to be from. -/
def found (s : Calls) (order : Iteration (List Char) Tracked) (source : SocketAddr) (req : InDialogRequest) :
    Option (Tracked × List Char × Bool) :=
  (handleRequest ((order.order s).map fun e => e.2.call.toB2buaCall) source req).2.bind fun f =>
    (s.lookup f.1).map fun t => (t, f)

/-- What is relayed at an event, with its call and whether the callee gets it. -/
def relayed (s : Calls) : Event → Option (Tracked × Bool × Outgoing)
  | .request order nanos source req =>
      (found s order source req).bind fun f =>
        (relay cfg nanos f.1.call f.2.2 req).1.map fun out => (f.1, f.2.2, out)
  | _ => none

def keep (s : Calls) (uuid : List Char) (heard : Heard) : Option SetupCall → Calls
  | some call => s.insert uuid ⟨call, heard⟩
  | none => s.erase uuid

/-- The numbers are read off the wire. -/
def hear (heard : Heard) (callee : Bool) (out : Option Outgoing) : Heard :=
  match out.bind fun o => wireCseq cfg o.raw with
  | some n => heard.add callee n
  | none => heard

def step (s : Calls) : Event → Calls
  | .invite n setup =>
      let fx := setUp cfg.toConfig n setup
      keep s (callUuid n.draw) ⟨invited cfg fx.sent, [], []⟩ fx.left
  | .call uuid event =>
      match s.lookup uuid with
      | none => s
      | some t =>
          let fx := onEvent cfg.toConfig t.call event
          keep s uuid { t.heard with
            invites := invited cfg fx.sent ++ t.heard.invites
            others := refreshed cfg t.call event ++ t.heard.others } fx.left
  | .request order nanos source req =>
      match found s order source req with
      | none => s
      | some (t, uuid, fromCaller) =>
          let r := relay cfg nanos t.call fromCaller req
          s.insert uuid ⟨r.2, hear cfg t.heard fromCaller r.1⟩

/-- A relayed request carries a number above all that were sent on its leg. -/
def Ordered (s : Calls) (e : Event) : Prop :=
  ∀ t callee out, relayed cfg s e = some (t, callee, out) →
    ∃ n, wireCseq cfg out.raw = some n ∧ ∀ m ∈ t.heard.toward callee, m < n

/-- A refresh finds a number left. -/
def Room (s : Calls) : Event → Prop
  | .call uuid event => ∀ t, s.lookup uuid = some t → refreshed cfg t.call event ≠ [] →
      (max (liveInviteCseq cfg.lower t.call.toB2buaCall) (legCseq t.call.toB2buaCall)).toNat + 1 < 2 ^ 32
  | _ => True

/-- The number is above those of the INVITEs and, as soon as something else was
sent on the leg, above what the SBC keeps for it. -/
def Above (t : Tracked) (callee : Bool) (n : UInt32) : Prop :=
  if callee then
    (∀ m ∈ t.heard.invites, m < n) ∧ (t.heard.others ≠ [] → legCseq t.call.toB2buaCall < n)
  else t.heard.towardCaller ≠ [] → t.call.sentCseqTowardCaller < n

def Clear (s : Calls) : Event → Prop
  | .request order _ source req => ∀ t uuid fromCaller, found s order source req = some (t, uuid, fromCaller) →
      ∃ n, req.cseq cfg = some n ∧ Above t fromCaller n
  | _ => True

end

section Invariant

variable {cfg : RelayConfig}

/-- What the call keeps of the numbers that were sent, and that it keeps no others. -/
structure Exact (t : Tracked) : Prop where
  leg : t.call.outbound ≠ none
  dest : t.call.calleeDest.isSome = true
  begun : t.heard.invites ≠ []
  unused : t.heard.others = [] → legCseq t.call.toB2buaCall ≤ 1
  below : ∀ m ∈ t.heard.others, m ≤ legCseq t.call.toB2buaCall
  reached : t.heard.others ≠ [] → legCseq t.call.toB2buaCall ∈ t.heard.others
  callerUnused : t.heard.towardCaller = [] → t.call.sentCseqTowardCaller = 0
  callerBelow : ∀ m ∈ t.heard.towardCaller, m ≤ t.call.sentCseqTowardCaller
  callerReached : t.heard.towardCaller ≠ [] → t.call.sentCseqTowardCaller ∈ t.heard.towardCaller

theorem above_iff {t : Tracked} (h : Exact t) (callee : Bool) (n : UInt32) :
    (∀ m ∈ t.heard.toward callee, m < n) ↔ Above t callee n := by
  cases callee with
  | true =>
      simp only [Heard.toward, Above, if_true, List.forall_mem_append]
      refine and_congr_right fun _ => ⟨fun hall hne => hall _ (h.reached hne), fun hleg m hm => ?_⟩
      exact UInt32.lt_of_le_of_lt (h.below m hm) (hleg (List.ne_nil_of_mem hm))
  | false =>
      simp only [Heard.toward, Above, Bool.false_eq_true, if_false]
      refine ⟨fun hall hne => hall _ (h.callerReached hne), fun hcaller m hm => ?_⟩
      exact UInt32.lt_of_le_of_lt (h.callerBelow m hm) (hcaller (List.ne_nil_of_mem hm))

theorem legCseq_of_leg {c c' : B2buaCall} (h : c'.outbound.map CallLeg.cseq = c.outbound.map CallLeg.cseq) :
    legCseq c' = legCseq c := congrArg (·.getD 0) h

theorem outbound_of_leg {c c' : B2buaCall} (h : c'.outbound.map CallLeg.cseq = c.outbound.map CallLeg.cseq)
    (hleg : c.outbound ≠ none) : c'.outbound ≠ none := by
  intro hnone
  rw [hnone] at h
  exact hleg (Option.map_eq_none_iff.mp h.symm)

/-- More INVITEs do not touch the counters. -/
theorem Exact.invite {t : Tracked} (h : Exact t) {after : SetupCall} (hsame : Steady t.call after)
    (more : List UInt32) : Exact ⟨after, { t.heard with invites := more ++ t.heard.invites }⟩ := by
  have hleg := legCseq_of_leg hsame.leg
  constructor
  case leg => exact outbound_of_leg hsame.leg h.leg
  case dest => exact hsame.dest h.dest
  case begun => exact List.append_ne_nil_of_right_ne_nil _ h.begun
  case unused =>
    rw [hleg]
    exact h.unused
  case below =>
    rw [hleg]
    exact h.below
  case reached =>
    rw [hleg]
    exact h.reached
  case callerUnused =>
    rw [hsame.caller]
    exact h.callerUnused
  case callerBelow =>
    rw [hsame.caller]
    exact h.callerBelow
  case callerReached =>
    rw [hsame.caller]
    exact h.callerReached

/-- A request toward the callee with a number above those on the leg, which the
leg then keeps. -/
theorem Exact.sendCallee {t : Tracked} (h : Exact t) {after : SetupCall} {n : UInt32}
    (hleg : after.outbound ≠ none) (hdest : after.calleeDest = t.call.calleeDest) (hkept : legCseq after.toB2buaCall = n)
    (hcaller : after.sentCseqTowardCaller = t.call.sentCseqTowardCaller) (hn : ∀ m ∈ t.heard.others, m ≤ n) :
    Exact ⟨after, t.heard.add true n⟩ := by
  constructor
  case leg => exact hleg
  case dest =>
    rw [hdest]
    exact h.dest
  case begun => exact h.begun
  case unused => exact fun hnil => absurd hnil (List.cons_ne_nil _ _)
  case below =>
    intro m hm
    rw [hkept]
    rcases List.mem_cons.mp hm with rfl | hm
    · exact UInt32.le_refl _
    · exact hn m hm
  case reached =>
    intro _
    rw [hkept]
    exact List.mem_cons_self
  case callerUnused =>
    rw [hcaller]
    exact h.callerUnused
  case callerBelow =>
    rw [hcaller]
    exact h.callerBelow
  case callerReached =>
    rw [hcaller]
    exact h.callerReached

theorem Exact.sendCaller {t : Tracked} (h : Exact t) {n : UInt32} (hn : ∀ m ∈ t.heard.towardCaller, m < n) :
    Exact ⟨noteCseq t.call false (some n), t.heard.add false n⟩ := by
  have hkept : (noteCseq t.call false (some n)).sentCseqTowardCaller = n := by
    change max t.call.sentCseqTowardCaller n = n
    cases hheard : t.heard.towardCaller with
    | nil =>
        rw [h.callerUnused hheard]
        exact u32_max_eq_right UInt32.zero_le
    | cons m rest =>
        exact u32_max_eq_right (UInt32.le_of_lt (hn _ (h.callerReached (hheard ▸ List.cons_ne_nil _ _))))
  constructor
  case leg => exact h.leg
  case dest => exact h.dest
  case begun => exact h.begun
  case unused => exact h.unused
  case below => exact h.below
  case reached => exact h.reached
  case callerUnused => exact fun hnil => absurd hnil (List.cons_ne_nil _ _)
  case callerBelow =>
    intro m hm
    rw [hkept]
    rcases List.mem_cons.mp hm with rfl | hm
    · exact UInt32.le_refl _
    · exact UInt32.le_of_lt (hn m hm)
  case callerReached =>
    intro _
    rw [hkept]
    exact List.mem_cons_self

theorem hear_of_wire {heard : Heard} {callee : Bool} {out : Outgoing} {n : UInt32}
    (h : wireCseq cfg out.raw = some n) : hear cfg heard callee (some out) = heard.add callee n := by
  rw [hear, Option.bind_some, h]

variable (cfg) in
/-- A call in the map can always relay, and what it relays carries the number that
came in. -/
theorem relay_sends {t : Tracked} (h : Exact t) (nanos : UInt32) (fromCaller : Bool) (req : InDialogRequest) :
    ∃ out, relay cfg nanos t.call fromCaller req = (some out, noteCseq t.call fromCaller (req.cseq cfg)) ∧
      wireCseq cfg out.raw = req.cseq cfg := by
  cases fromCaller with
  | true =>
      obtain ⟨dest, hd⟩ := Option.isSome_iff_exists.mp h.dest
      have hdest : (noteCseq t.call true (req.cseq cfg)).calleeDest = some dest := by
        cases req.cseq cfg with
        | none => exact hd
        | some n => exact hd
      refine ⟨⟨applyOutboundTopology cfg nanos req.text (noteCseq t.call true (req.cseq cfg)).calleeTransport, dest,
        (noteCseq t.call true (req.cseq cfg)).calleeTransport, (noteCseq t.call true (req.cseq cfg)).calleeReplyTx⟩,
        ?_, wireCseq_relayed cfg nanos req _⟩
      rw [InDialogRequests.relay, if_pos rfl, hdest, Option.map_some]
  | false =>
      exact ⟨⟨applyOutboundTopology cfg nanos req.text (noteCseq t.call false (req.cseq cfg)).callerTransport,
        (noteCseq t.call false (req.cseq cfg)).callerSource, (noteCseq t.call false (req.cseq cfg)).callerTransport,
        (noteCseq t.call false (req.cseq cfg)).callerReplyTx⟩, rfl, wireCseq_relayed cfg nanos req _⟩

/-- A relayed request in order leaves the counters exact. -/
theorem Exact.relay {t : Tracked} (h : Exact t) {fromCaller : Bool} {n : UInt32}
    (hn : ∀ m ∈ t.heard.toward fromCaller, m < n) :
    Exact ⟨noteCseq t.call fromCaller (some n), t.heard.add fromCaller n⟩ := by
  cases fromCaller with
  | false => exact h.sendCaller hn
  | true =>
      obtain ⟨hinvites, hothers⟩ := List.forall_mem_append.mp hn
      obtain ⟨leg, hleg⟩ := Option.ne_none_iff_exists'.mp h.leg
      have hmax : legCseq (noteCseq t.call true (some n)).toB2buaCall = max (legCseq t.call.toB2buaCall) n := by
        change legCseq (noteRelayedCseq t.call.toB2buaCall true n) = _
        simp only [legCseq, noteRelayedCseq, if_true, hleg, Option.map_some, Option.getD_some]
      have hbelow : legCseq t.call.toB2buaCall ≤ n := by
        cases hheard : t.heard.others with
        | nil =>
            -- the number of an INVITE is below, so this one is not zero
            obtain ⟨m, hm⟩ := List.exists_mem_of_ne_nil _ h.begun
            have hpos := hinvites m hm
            have hone := h.unused hheard
            rw [UInt32.lt_iff_toNat_lt] at hpos
            rw [UInt32.le_iff_toNat_le] at hone ⊢
            have hval : (1 : UInt32).toNat = 1 := rfl
            omega
        | cons m rest => exact UInt32.le_of_lt (hothers _ (h.reached (hheard ▸ List.cons_ne_nil _ _)))
      refine h.sendCallee ?_ rfl (hmax.trans (u32_max_eq_right hbelow)) rfl
        fun m hm => UInt32.le_of_lt (hothers m hm)
      change (noteRelayedCseq t.call.toB2buaCall true n).outbound ≠ none
      rw [noteRelayedCseq, if_pos rfl, hleg]
      exact Option.some_ne_none _

/-- A refresh takes the next number, and the leg keeps it. -/
theorem Exact.refresh {t : Tracked} (h : Exact t) {now : Nat} {branch : List Char}
    (hroom : refreshed cfg t.call (.refresh now branch) ≠ [] →
      (max (liveInviteCseq cfg.lower t.call.toB2buaCall) (legCseq t.call.toB2buaCall)).toNat + 1 < 2 ^ 32) :
    Exact ⟨t.call.mapCall fun _ =>
        (refreshCall cfg.lower cfg.upper now branch cfg.sbcIp cfg.sbcPort t.call.toB2buaCall).2,
      { t.heard with others := refreshed cfg t.call (.refresh now branch) ++ t.heard.others }⟩ := by
  have hkeeps : CallSequence.KeepsCounter cfg.lower cfg.upper t.call.toB2buaCall
      (.refresh now branch cfg.sbcIp cfg.sbcPort) := CallSequence.keepsCounter_refresh now branch _ _
  rcases hkeeps with ⟨hnone, hsame⟩ | ⟨raw, timer, hsome, -, hleg, hstep⟩
  · have hfirst : (refreshCall cfg.lower cfg.upper now branch cfg.sbcIp cfg.sbcPort t.call.toB2buaCall).1 = none :=
      Option.map_eq_none_iff.mp hnone
    have hcall : (refreshCall cfg.lower cfg.upper now branch cfg.sbcIp cfg.sbcPort t.call.toB2buaCall).2 =
        t.call.toB2buaCall := hsame
    rw [hcall, refreshed, hfirst]
    exact h
  · obtain ⟨out, hout, -⟩ := Option.map_eq_some_iff.mp hsome
    have hnumbers : refreshed cfg t.call (.refresh now branch) = [nextOutboundCseq cfg.lower t.call.toB2buaCall] := by
      rw [refreshed, hout]
    have hcall : (refreshCall cfg.lower cfg.upper now branch cfg.sbcIp cfg.sbcPort t.call.toB2buaCall).2 =
        { setLegCseq t.call.toB2buaCall (nextOutboundCseq cfg.lower t.call.toB2buaCall) with sessionTimer := timer } :=
      hstep
    rw [hcall, hnumbers]
    have hroom' := hroom (hnumbers ▸ List.cons_ne_nil _ _)
    refine h.sendCallee ?_ rfl (CallSequence.legCseq_setLegCseq hleg _) rfl fun m hm =>
      UInt32.le_of_lt (u32_lt_succ hroom' (u32_le_max (.inr (h.below m hm))))
    change (setLegCseq t.call.toB2buaCall _).outbound ≠ none
    rw [setLegCseq]
    exact fun hnone => hleg (Option.map_eq_none_iff.mp hnone)

theorem Exact.event {t : Tracked} (h : Exact t) {event : CallEvent} {after : SetupCall}
    (hroom : refreshed cfg t.call event ≠ [] →
      (max (liveInviteCseq cfg.lower t.call.toB2buaCall) (legCseq t.call.toB2buaCall)).toNat + 1 < 2 ^ 32)
    (hleft : (onEvent cfg.toConfig t.call event).left = some after) :
    Exact ⟨after, { t.heard with
      invites := invited cfg (onEvent cfg.toConfig t.call event).sent ++ t.heard.invites
      others := refreshed cfg t.call event ++ t.heard.others }⟩ := by
  by_cases hevent : ∃ now branch, event = .refresh now branch
  · obtain ⟨now, branch, rfl⟩ := hevent
    cases hleft
    have hquiet : Quiet t.call (onEvent cfg.toConfig t.call (.refresh now branch)) :=
      quiet_onEvent cfg.toConfig t.call rfl
    rw [invited, AttemptRecords.records_of_noInvites hquiet.sent]
    exact h.refresh hroom
  · have hother : ∀ now branch, event ≠ .refresh now branch := fun now branch heq => hevent ⟨now, branch, heq⟩
    have hnone : refreshed cfg t.call event = [] := by
      cases event with
      | refresh now branch => exact absurd rfl (hother now branch)
      | _ => rfl
    rw [hnone]
    exact h.invite (steady_onEvent hleft hother) _

theorem call_new (n : NewCall) : n.call.sentCseqTowardCaller = 0 := by
  unfold NewCall.call
  split
  next => rfl
  next => rfl

/-- A call begins with its INVITE and counters that nothing has used. -/
theorem exact_setUp (n : NewCall) (setup : Setup) {after : SetupCall}
    (h : (setUp cfg.toConfig n setup).left = some after) :
    Exact ⟨after, ⟨invited cfg (setUp cfg.toConfig n setup).sent, [], []⟩⟩ := by
  cases setup with
  | refused why raw => cases h
  | forwarded look route raw localTag =>
      have hrouted : (routed n route).sentCseqTowardCaller = 0 := by
        cases route with
        | contact dest transport replyTx => exact call_new n
        | trunk t dest candidates => exact call_new n
      have hstart (now : Nat) (more : List Sent) (taken : Bool) : Exact ⟨recorded cfg.toConfig now n route raw localTag,
          ⟨invited cfg (⟨⟨raw, route.dest, route.transport, route.replyTx⟩,
            .invite .first route.trunkId taken⟩ :: more), [], []⟩⟩ := by
        constructor
        case leg => exact Option.some_ne_none _
        case dest => rfl
        case begun =>
          have hrecord : AttemptRecords.recordOf cfg.toConfig ⟨⟨raw, route.dest, route.transport, route.replyTx⟩,
              .invite .first route.trunkId taken⟩ = some (B2bua.attemptOf cfg.lower raw route.dest route.transport
                route.trunkId) := if_pos (.inr rfl)
          rw [invited, records, List.filterMap_cons_some hrecord]
          exact List.cons_ne_nil _ _
        case unused => exact fun _ => UInt32.le_refl 1
        case below =>
          intro m hm
          cases hm
        case reached => exact fun hne => absurd rfl hne
        case callerUnused => exact fun _ => hrouted
        case callerBelow =>
          intro m hm
          cases hm
        case callerReached => exact fun hne => absurd rfl hne
      have hmore {t : Tracked} (ht : Exact t) {after : SetupCall} (hsame : Steady t.call after) :
          Exact ⟨after, t.heard⟩ := ht.invite hsame []
      have hafter := left_eq h
      subst hafter
      simp only [setUp, forwardInvite]
      split
      next => exact hstart _ _ _
      next =>
        split
        next => exact hmore (hstart _ _ _) (steady_failover _ _ look)
        next => exact hmore (hstart _ _ _) (steady_failover _ _ look)

/-- All calls in the map have exact counters. -/
def AllExact (s : Calls) : Prop := ∀ uuid t, s.lookup uuid = some t → Exact t

theorem AllExact.insert {s : Calls} (h : AllExact s) (uuid : List Char) {t : Tracked} (ht : Exact t) :
    AllExact (s.insert uuid t) := by
  intro uuid' t' hlookup
  by_cases heq : uuid' = uuid
  · subst heq
    obtain rfl := Option.some.inj ((AList.lookup_insert _).symm.trans hlookup)
    exact ht
  · exact h uuid' t' ((AList.lookup_insert_ne heq).symm.trans hlookup)

theorem AllExact.keep {s : Calls} (h : AllExact s) (uuid : List Char) {heard : Heard} {after : Option SetupCall}
    (ht : ∀ call, after = some call → Exact ⟨call, heard⟩) : AllExact (RelayedOrder.keep s uuid heard after) := by
  cases after with
  | some call => exact h.insert uuid (ht call rfl)
  | none => exact fun uuid' t hlookup => h uuid' t (lookup_of_lookup_erase hlookup)

theorem exact_of_found {s : Calls} (h : AllExact s) {order : Iteration (List Char) Tracked} {source : SocketAddr}
    {req : InDialogRequest} {t : Tracked} {uuid : List Char} {fromCaller : Bool}
    (hfound : found s order source req = some (t, uuid, fromCaller)) : Exact t := by
  obtain ⟨f, -, hf⟩ := Option.bind_eq_some_iff.mp hfound
  obtain ⟨t', hlookup, heq⟩ := Option.map_eq_some_iff.mp hf
  obtain rfl : t' = t := congrArg Prod.fst heq
  exact h _ _ hlookup

/-- What is relayed is relayed in order exactly when its number is clear. -/
theorem ordered_iff {s : Calls} (h : AllExact s) (e : Event) : Ordered cfg s e ↔ Clear cfg s e := by
  cases e with
  | invite n setup => exact ⟨fun _ => trivial, fun _ _ _ _ hr => by cases hr⟩
  | call uuid event => exact ⟨fun _ => trivial, fun _ _ _ _ hr => by cases hr⟩
  | request order nanos source req =>
      constructor
      · intro hordered t uuid fromCaller hfound
        have ht := exact_of_found h hfound
        obtain ⟨out, hrelay, hwire⟩ := relay_sends cfg ht nanos fromCaller req
        obtain ⟨n, hn, hbelow⟩ := hordered t fromCaller out (by rw [relayed, hfound, Option.bind_some, hrelay]; rfl)
        exact ⟨n, hwire.symm.trans hn, (above_iff ht fromCaller n).mp hbelow⟩
      · intro hclear t callee out hrelayed
        obtain ⟨⟨t', uuid, fromCaller⟩, hfound, hout⟩ := Option.bind_eq_some_iff.mp hrelayed
        obtain ⟨out', hr, heq⟩ := Option.map_eq_some_iff.mp hout
        cases heq
        have ht := exact_of_found h hfound
        obtain ⟨out', hrelay, hwire⟩ := relay_sends cfg ht nanos fromCaller req
        rw [hrelay] at hr
        cases hr
        obtain ⟨n, hn, habove⟩ := hclear _ _ _ hfound
        exact ⟨n, hwire.trans hn, (above_iff ht fromCaller n).mpr habove⟩

theorem AllExact.step {s : Calls} (h : AllExact s) {e : Event} (hroom : Room cfg s e) (hordered : Ordered cfg s e) :
    AllExact (step cfg s e) := by
  cases e with
  | invite n setup => exact h.keep _ fun call hleft => exact_setUp n setup hleft
  | call uuid event =>
      dsimp only [RelayedOrder.step]
      split
      next => exact h
      next t hlookup => exact h.keep uuid fun call hleft => (h uuid t hlookup).event (hroom t hlookup) hleft
  | request order nanos source req =>
      dsimp only [RelayedOrder.step]
      split
      next => exact h
      next t uuid fromCaller hfound =>
        have ht := exact_of_found h hfound
        obtain ⟨out, hrelay, hwire⟩ := relay_sends cfg ht nanos fromCaller req
        obtain ⟨n, hn, hbelow⟩ := hordered t fromCaller out (by rw [relayed, hfound, Option.bind_some, hrelay]; rfl)
        rw [hrelay]
        dsimp only
        rw [hear_of_wire hn, hwire.symm.trans hn]
        exact h.insert uuid (ht.relay hbelow)

theorem allExact_empty : AllExact ∅ := fun _ _ hlookup => by cases hlookup

end Invariant

/-- Every relayed request is in order as long as each carries a number that is
clear of those the SBC has sent. -/
theorem relayed_in_order_iff (cfg : RelayConfig) (events : List Event)
    (hroom : Throughout (step cfg) (Room cfg) ∅ events) :
    Throughout (step cfg) (Ordered cfg) ∅ events ↔ Throughout (step cfg) (Clear cfg) ∅ events :=
  throughout_iff_of (I := AllExact) (P := Ordered cfg) (A := Clear cfg) (fun _ e h _ => ordered_iff h e)
    (fun _ _ h hroom hordered => h.step hroom hordered) allExact_empty hroom

section Sample

open CallerFinals (bareConfig host idleScene aliceCall bobsAnswer)
open LateAnswers (trunkAt)

instance (cfg : RelayConfig) (s : Calls) (e : Event) : Decidable (Ordered cfg s e) :=
  decidable_of_iff ((relayed cfg s e).all (fun r =>
      (wireCseq cfg r.2.2.raw).any fun n => (r.1.heard.toward r.2.1).all fun m => m < n) = true) <| by
    simp only [Ordered, Option.all_eq_true, Option.any_eq_true, List.all_eq_true, decide_eq_true_eq, Prod.forall]

instance (cfg : RelayConfig) (s : Calls) (e : Event) : Decidable (Room cfg s e) :=
  match e with
  | .call uuid event => decidable_of_iff (∀ t ∈ s.lookup uuid, refreshed cfg t.call event ≠ [] →
      (max (liveInviteCseq cfg.lower t.call.toB2buaCall) (legCseq t.call.toB2buaCall)).toNat + 1 < 2 ^ 32) Iff.rfl
  | .invite .. | .request .. => .isTrue trivial

/-- Sessions are refreshed, and a CSeq begins with its number. -/
def timedConfig : RelayConfig where
  toConfig := { bareConfig with sessionTimer := some (90, 90) }
  sipDomain := ['h']
  tls := false
  cseqNumber value := TextFields.parseU32 (value.takeWhile (· ≠ ' '))
  upper_line c hc hlf := by
    rw [← List.mem_singleton.mp hlf] at hc
    exact absurd hc (by decide)
  ip_line _ h := by cases h
  domain_line := by decide

def infoTwo : InDialogRequest where
  kind := .info
  uri := ['u']
  headers := ["CSeq: 2 INFO".toList]
  body := []
  callId := ['i']
  canonical := ⟨by decide, by decide, by decide, by
    intro h hmem
    rw [List.mem_singleton.mp hmem]
    exact ⟨by decide, by decide, by decide⟩⟩

def aliceTalks : List Event :=
  [.invite aliceCall (.forwarded (fun _ => idleScene) (.trunk (trunkAt 1 4) (host 4) [])
      ("INVITE sip:b@h SIP/2.0\r\n".toList ++ "Via: SIP/2.0/UDP h;branch=z9hG4bKa\r\n".toList ++
        "CSeq: 1 INVITE\r\n\r\nv=0".toList) ['l']),
    .call (callUuid 1) (bobsAnswer 200), .call (callUuid 1) (.ack ⟨none, none, none, none⟩ 0)]

def aliceRefreshed : Event := .call (callUuid 1) (.refresh 1000000 ['b'])

def aliceInfo : Event := .request .newestFirst 0 (host 1) infoTwo

/-- The numbers of the callee are its own. -/
def referOne : InDialogRequest where
  kind := .refer
  uri := ['u']
  headers := ["CSeq: 1 REFER".toList, "Refer-To: x".toList]
  body := []
  callId := ['i']
  canonical := ⟨by decide, by decide, by decide, by
    intro h hmem
    rcases List.mem_cons.mp hmem with rfl | hmem
    · exact ⟨by decide, by decide, by decide⟩
    · rw [List.mem_singleton.mp hmem]
      exact ⟨by decide, by decide, by decide⟩⟩

def bobsRefer : Event := .request .newestFirst 0 (host 4) referOne

theorem alice_before_refresh :
    Throughout (step timedConfig) (Clear timedConfig) ∅ (aliceTalks ++ [aliceInfo, aliceRefreshed]) :=
  (relayed_in_order_iff timedConfig _ (by decide +kernel)).mp (by decide +kernel)

/-- After a refresh the caller's number is no longer new, and the REFER of the
callee goes back to the callee under a number that its INVITE had. -/
theorem relayed_out_of_order :
    Throughout (step timedConfig) (Room timedConfig) ∅ (aliceTalks ++ [aliceRefreshed, aliceInfo]) ∧
      ¬ Throughout (step timedConfig) (Ordered timedConfig) ∅ (aliceTalks ++ [aliceRefreshed, aliceInfo]) ∧
      ¬ Throughout (step timedConfig) (Ordered timedConfig) ∅ (aliceTalks ++ [bobsRefer]) := by
  decide +kernel

end Sample

end NixiSbc.RelayedOrder

import NixiSbc.AnsweredCalls
import NixiSbc.CallSequence
import NixiSbc.SessionRefresh

namespace NixiSbc.AckNumbers

open Stun TextFields TextWords SipBuilder CallSetup InviteRetries ResponseHandler CallHandlers
open CallerFinals (bareConfig host aliceCall bobsContact aliceInvite)
open CallSequence (Carries legCseq_setLegCseq outbound_of_dialogInfo)
open SessionRefresh (Addressable addressable_iff refreshCall_cases)
open B2bua (B2buaCall CallLeg Transport Outgoing SessionTimerState dialogInfoTowardCallee legCseq setLegCseq nextOutboundCseq
  noteRelayedCseq setSessionTimer refreshCall completeSessionRefresh failSessionRefresh refreshDuplicateAck)
open Trunks (TrunkId)

/-- What is done to a call between its setup and an ACK, each with its
arguments. -/
inductive Op
  | pushInviteAttempt (now : Nat) (raw : List Char) (dest : SocketAddr) (transport : Transport) (trunkId : Option TrunkId)
  | setEstablishedDialog (fromRaw toRaw : List Char) (contact : Option (List Char))
  | noteRelayedCseq (towardCallee : Bool) (cseq : UInt32)
  | setSessionTimer (now : Nat) (intervalSecs minSe : UInt32)
  | refresh (now : Nat) (branch : List Char)
  | completeSessionRefresh (cseq : UInt32) (branch : List Char)
  | failSessionRefresh (now delayMs : Nat) (cseq : UInt32) (status : UInt16) (minSe422 : Option UInt32)
      (responseTo : List Char)

/-- A request toward the callee other than an INVITE attempt. -/
inductive Request
  | originated (cseq : UInt32)
  | relayed (cseq : UInt32)

/-- What went toward the callee, newest first: the requests, and of those the
refreshes with their texts. -/
structure Traffic where
  requests : List Request
  refreshes : List (UInt32 × List Char)

def Traffic.start : Traffic := ⟨[], []⟩

/-- The highest number since the last request that the SBC originated, which is
one when there was none. -/
def highest : List Request → UInt32
  | [] => 1
  | .originated cseq :: _ => cseq
  | .relayed cseq :: rest => max (highest rest) cseq

section

variable (cfg : Config)

def stepCall (call : SetupCall) : Op → SetupCall
  | .pushInviteAttempt now raw dest transport trunkId => pushAttempt cfg call now raw dest transport trunkId
  | .setEstablishedDialog fromRaw toRaw contact => setEstablishedDialog call fromRaw toRaw contact
  | .noteRelayedCseq towardCallee cseq => call.mapCall fun c => noteRelayedCseq c towardCallee cseq
  | .setSessionTimer now intervalSecs minSe => call.mapCall fun c => setSessionTimer c now intervalSecs minSe
  | .refresh now branch => call.mapCall fun c =>
      (refreshCall cfg.lower cfg.upper now branch cfg.sbcIp cfg.sbcPort c).2
  | .completeSessionRefresh cseq branch => call.mapCall fun c =>
      (completeSessionRefresh cfg.upper c cseq branch cfg.sbcIp cfg.sbcPort).2
  | .failSessionRefresh now delayMs cseq status minSe422 responseTo => call.mapCall fun c =>
      (failSessionRefresh cfg.lower c now delayMs cseq status minSe422 responseTo).2

def note (call : SetupCall) (t : Traffic) : Op → Traffic
  | .noteRelayedCseq true cseq => { t with requests := .relayed cseq :: t.requests }
  | .refresh now branch =>
      match (refreshCall cfg.lower cfg.upper now branch cfg.sbcIp cfg.sbcPort call.toB2buaCall).1 with
      | some out =>
          let cseq := nextOutboundCseq cfg.lower call.toB2buaCall
          ⟨.originated cseq :: t.requests, (cseq, out.raw) :: t.refreshes⟩
      | none => t
  | _ => t

def step (s : SetupCall × Traffic) (op : Op) : SetupCall × Traffic := (stepCall cfg s.1 op, note cfg s.1 s.2 op)

/-- The ACK of a 2xx in the dialog with the callee, for the request with this
number. -/
def IsAck (call : SetupCall) (branch raw : List Char) (cseq : UInt32) : Prop :=
  ∃ d, dialogInfoTowardCallee call.toB2buaCall cfg.sbcIp cfg.sbcPort = some d ∧
    raw = buildAckFor2xx cfg.upper branch d cseq

/-- A refresh with this number went out. -/
def Refreshed (t : Traffic) (cseq : UInt32) : Prop :=
  ∃ raw, (cseq, raw) ∈ t.refreshes ∧ Carries cfg.upper raw cseq

/-- Each ACK that can be built has the number of what it acknowledges: the live
INVITE attempt, or the refresh that the 2xx answers. -/
structure Numbered (s : SetupCall × Traffic) : Prop where
  answered : ∀ live, s.1.inviteAttempts.getLast? = some live → ∀ branch, ∀ m ∈ ackForAnsweredCallee cfg s.1 branch,
    IsAck cfg s.1 branch m.raw live.cseq
  completed : ∀ cseq branch out,
    (completeSessionRefresh cfg.upper s.1.toB2buaCall cseq branch cfg.sbcIp cfg.sbcPort).1 = some out →
      IsAck cfg s.1 branch out.raw cseq ∧ Refreshed cfg s.2 cseq
  repeated : ∀ cseq status responseTo branch ack rest, 200 ≤ status ∧ status ≤ 299 →
    refreshDuplicateAck cfg.lower cfg.upper s.1.toB2buaCall cseq status responseTo branch cfg.sbcIp cfg.sbcPort =
      some (some ack, rest) → IsAck cfg s.1 branch ack cseq ∧ Refreshed cfg s.2 cseq

/-- Where the callee can be reached, the live INVITE has the highest number since
the last request that the SBC originated. -/
def Level (s : SetupCall × Traffic) : Prop :=
  Addressable s.1.toB2buaCall → s.1.calleeDest ≠ none →
    ∀ live, s.1.inviteAttempts.getLast? = some live → live.cseq = highest s.2.requests

end

section Texts

variable {cfg : Config} {V : Uppering}

theorem showNat_injective {m n : Nat} (h : showNat m = showNat n) : m = n := by
  rw [← decimal_showNat m, h, decimal_showNat]

theorem headerLine_injective {name value value' : List Char} (h : headerLine name value = headerLine name value') :
    value = value' := by
  unfold headerLine at h
  exact List.append_cancel_left (List.append_cancel_right h)

/-- The number can be read off an ACK. -/
theorem buildAckFor2xx_injective {branch : List Char} {d : DialogInfo} {m n : UInt32}
    (h : buildAckFor2xx V branch d m = buildAckFor2xx V branch d n) : m = n := by
  unfold buildAckFor2xx buildRequest at h
  dsimp only at h
  have hline := List.append_cancel_right (List.append_cancel_right (List.append_cancel_right (List.append_cancel_right h)))
  have hvalue := headerLine_injective (List.append_cancel_left hline)
  have hnumber := showNat_injective (List.append_cancel_right hvalue)
  exact UInt32.toNat_inj.mp hnumber

theorem IsAck.unique {call : SetupCall} {branch raw : List Char} {m n : UInt32} (h : IsAck cfg call branch raw m)
    (h' : IsAck cfg call branch raw n) : m = n := by
  obtain ⟨d, hd, rfl⟩ := h
  obtain ⟨d', hd', hraw⟩ := h'
  rw [hd, Option.some.injEq] at hd'
  subst hd'
  exact buildAckFor2xx_injective hraw

end Texts

section Timer

variable {cfg : Config} {call : B2buaCall}

/-- An operation on the timer leaves the leg alone and brings no refresh in. -/
structure Keeps (call after : B2buaCall) : Prop where
  leg : after.outbound = call.outbound
  timer : ∀ st', after.sessionTimer = some st' → ∃ st, call.sessionTimer = some st ∧
    (∀ n, st'.pendingRefreshCseq = some n → st.pendingRefreshCseq = some n) ∧ st'.lastRefresh = st.lastRefresh

theorem Keeps.refl (call : B2buaCall) : Keeps call call := ⟨rfl, fun st hst => ⟨st, hst, fun _ => id, rfl⟩⟩

theorem keeps_complete (V : Uppering) (cseq : UInt32) (branch localIp : List Char) (localPort : UInt16) :
    Keeps call (completeSessionRefresh V call cseq branch localIp localPort).2 := by
  unfold completeSessionRefresh
  split
  next => exact .refl call
  next st hst =>
    split
    next => exact .refl call
    next =>
      refine ⟨rfl, fun st' hst' => ⟨st, hst, ?_⟩⟩
      cases hst'
      exact ⟨nofun, rfl⟩

theorem keeps_fail (U : RawSip.Lowering) (now delayMs : Nat) (cseq : UInt32) (status : UInt16) (minSe422 : Option UInt32)
    (responseTo : List Char) : Keeps call (failSessionRefresh U call now delayMs cseq status minSe422 responseTo).2 := by
  unfold failSessionRefresh
  split
  next => exact .refl call
  next st hst =>
    split
    next => exact .refl call
    next =>
      dsimp only
      split
      next =>
        refine ⟨rfl, fun st' hst' => ⟨st, hst, ?_⟩⟩
        cases hst'
        exact ⟨nofun, rfl⟩
      next =>
        split
        next => exact ⟨rfl, nofun⟩
        next =>
          refine ⟨rfl, fun st' hst' => ⟨st, hst, ?_⟩⟩
          cases hst'
          exact ⟨nofun, rfl⟩

theorem complete_some {V : Uppering} {cseq : UInt32} {branch localIp : List Char} {localPort : UInt16} {out : Outgoing}
    (h : (completeSessionRefresh V call cseq branch localIp localPort).1 = some out) :
    (∃ st, call.sessionTimer = some st ∧ st.pendingRefreshCseq = some cseq) ∧
    ∃ d, dialogInfoTowardCallee call localIp localPort = some d ∧ out.raw = buildAckFor2xx V branch d cseq := by
  unfold completeSessionRefresh at h
  split at h
  next => cases h
  next st hst =>
    split at h
    next => cases h
    next hcseq =>
      simp only [Option.bind_eq_bind, Option.bind_eq_some_iff] at h
      obtain ⟨d, hd, dest, -, hout⟩ := h
      cases hout
      exact ⟨⟨st, hst, not_not.mp hcseq⟩, d, hd, rfl⟩

theorem duplicate_some {U : RawSip.Lowering} {V : Uppering} {cseq : UInt32} {status : UInt16}
    {responseTo branch localIp ack : List Char} {localPort : UInt16} {rest : SocketAddr × Transport × Option Nat}
    (hstatus : 200 ≤ status ∧ status ≤ 299)
    (h : refreshDuplicateAck U V call cseq status responseTo branch localIp localPort = some (some ack, rest)) :
    (∃ st raw, call.sessionTimer = some st ∧ st.lastRefresh = some (cseq, raw)) ∧
    ∃ d, dialogInfoTowardCallee call localIp localPort = some d ∧ ack = buildAckFor2xx V branch d cseq := by
  have hfinal : ¬ (100 ≤ status ∧ status ≤ 199) := fun hprovisional =>
    UInt16.not_le.mpr (UInt16.lt_of_lt_of_le (by decide) hstatus.1) hprovisional.2
  simp only [refreshDuplicateAck, Option.bind_eq_bind, Option.bind_eq_some_iff, if_neg hfinal, if_pos hstatus] at h
  obtain ⟨st, hst, ⟨n, raw⟩, hlast, h⟩ := h
  dsimp only at h
  split at h
  next => cases h
  next hcseq =>
    simp only [Option.bind_eq_some_iff] at h
    obtain ⟨dest, -, hack⟩ := h
    obtain ⟨d, hd, hbuilt⟩ := Option.map_eq_some_iff.mp (congrArg Prod.fst (Option.some.inj hack))
    have hn : n = cseq := not_not.mp hcseq
    subst hn
    exact ⟨⟨st, raw, hst, hlast⟩, d, hd, hbuilt.symm⟩

end Timer

section Invariant

variable {cfg : Config} {s : SetupCall × Traffic}

/-- The leg counts the requests, and the timer knows only refreshes that went out. -/
structure Inv (cfg : Config) (s : SetupCall × Traffic) : Prop where
  leg : s.1.outbound ≠ none
  counter : legCseq s.1.toB2buaCall = highest s.2.requests
  pending : ∀ st, s.1.sessionTimer = some st → ∀ n, st.pendingRefreshCseq = some n → Refreshed cfg s.2 n
  last : ∀ st, s.1.sessionTimer = some st → ∀ p, st.lastRefresh = some p → Refreshed cfg s.2 p.1

theorem cseq_of_dialogInfo {call : B2buaCall} {localIp : List Char} {localPort : UInt16} {d : DialogInfo}
    (h : dialogInfoTowardCallee call localIp localPort = some d) : d.cseq = legCseq call := by
  simp only [dialogInfoTowardCallee, Option.bind_eq_bind, Option.bind_eq_some_iff] at h
  obtain ⟨out, hout, fromRaw, -, toRaw, -, requestUri, -, hd⟩ := h
  cases hd
  rw [legCseq, hout]
  rfl

/-- The ACKs of refreshes have the right number in any case, and that of the
answered callee where the counter is level with the live INVITE. -/
theorem numbered_iff (h : Inv cfg s) : Numbered cfg s ↔ Level s := by
  constructor
  · intro hnumbered haddr hdest live hlive
    obtain ⟨d, hd⟩ := (addressable_iff cfg.sbcIp cfg.sbcPort).mp haddr
    obtain ⟨dest, hdest⟩ := Option.ne_none_iff_exists'.mp hdest
    have hacks : ackForAnsweredCallee cfg s.1 [] =
        [⟨⟨buildAckFor2xx cfg.upper [] d d.cseq, dest, s.1.calleeTransport, s.1.calleeReplyTx⟩, .ack⟩] := by
      unfold ackForAnsweredCallee
      rw [hd, hdest]
    have hack := hnumbered.answered live hlive [] _ (hacks ▸ List.mem_singleton_self _)
    have hsame := hack.unique ⟨d, hd, rfl⟩
    rw [hsame, cseq_of_dialogInfo hd, h.counter]
  · intro hlevel
    refine ⟨fun live hlive branch m hm => ?_, fun cseq branch out hout => ?_, ?_⟩
    · unfold ackForAnsweredCallee at hm
      split at hm
      next d dest hd hdest =>
        rw [List.mem_singleton.mp hm]
        have haddr := (addressable_iff cfg.sbcIp cfg.sbcPort).mpr ⟨d, hd⟩
        have hcseq := hlevel haddr (hdest ▸ Option.some_ne_none dest) live hlive
        refine ⟨d, hd, ?_⟩
        rw [hcseq, ← h.counter, ← cseq_of_dialogInfo hd]
      next => cases hm
    · obtain ⟨⟨st, hst, hcseq⟩, hack⟩ := complete_some hout
      exact ⟨hack, h.pending st hst cseq hcseq⟩
    · intro cseq status responseTo branch ack rest hstatus hack
      obtain ⟨⟨st, raw, hst, hlast⟩, hbuilt⟩ := duplicate_some hstatus hack
      exact ⟨hbuilt, h.last st hst _ hlast⟩

theorem Refreshed.more {t : Traffic} {n : UInt32} (h : Refreshed cfg t n) (p : UInt32 × List Char)
    (requests : List Request) : Refreshed cfg ⟨requests, p :: t.refreshes⟩ n := by
  obtain ⟨raw, hraw, hcarries⟩ := h
  exact ⟨raw, List.mem_cons_of_mem _ hraw, hcarries⟩

theorem Inv.keeps (h : Inv cfg s) {after : B2buaCall} (hkeeps : Keeps s.1.toB2buaCall after) :
    Inv cfg (s.1.mapCall fun _ => after, s.2) := by
  constructor
  case leg =>
    change after.outbound ≠ none
    rw [hkeeps.leg]
    exact h.leg
  case counter =>
    change (after.outbound.map CallLeg.cseq).getD 0 = _
    rw [hkeeps.leg]
    exact h.counter
  case pending =>
    intro st' hst' n hn
    obtain ⟨st, hst, hpending, -⟩ := hkeeps.timer st' hst'
    exact h.pending st hst n (hpending n hn)
  case last =>
    intro st' hst' p hp
    obtain ⟨st, hst, -, hlast⟩ := hkeeps.timer st' hst'
    exact h.last st hst p (hlast ▸ hp)

theorem carries_refresh {call : B2buaCall} {now : Nat} {branch localIp : List Char} {localPort : UInt16} {out : Outgoing}
    (h : (refreshCall cfg.lower cfg.upper now branch localIp localPort call).1 = some out) :
    Carries cfg.upper out.raw (nextOutboundCseq cfg.lower call) := by
  have hkeeps : CallSequence.KeepsCounter cfg.lower cfg.upper call (.refresh now branch localIp localPort) :=
    CallSequence.keepsCounter_refresh now branch localIp localPort
  have hsent : CallSequence.towardCallee cfg.lower cfg.upper call (.refresh now branch localIp localPort) = some out.raw :=
    congrArg (Option.map Outgoing.raw) h
  rcases hkeeps with ⟨hnone, -⟩ | ⟨raw, timer, hraw, hcarries, -, -⟩
  · cases hsent.symm.trans hnone
  · cases hsent.symm.trans hraw
    exact hcarries

theorem Inv.refresh (h : Inv cfg s) (now : Nat) (branch : List Char) : Inv cfg (step cfg s (.refresh now branch)) := by
  rcases refreshCall_cases cfg.lower cfg.upper s.1.toB2buaCall now branch cfg.sbcIp cfg.sbcPort with
    hidle | ⟨out, st, nextAt, hst, hpending, -, -, hdue⟩
  · have hstep : step cfg s (.refresh now branch) = (s.1.mapCall fun _ => s.1.toB2buaCall, s.2) := by
      simp only [step, stepCall, note, hidle, SetupCall.mapCall]
    rw [hstep]
    exact h.keeps (.refl _)
  · have hnew (requests : List Request) : Refreshed cfg
        ⟨requests, (nextOutboundCseq cfg.lower s.1.toB2buaCall, out.raw) :: s.2.refreshes⟩
        (nextOutboundCseq cfg.lower s.1.toB2buaCall) :=
      ⟨out.raw, List.mem_cons_self, carries_refresh (congrArg Prod.fst hdue)⟩
    simp only [step, stepCall, note, SetupCall.mapCall, hdue]
    constructor
    case leg =>
      change s.1.outbound.map _ ≠ none
      rw [ne_eq, Option.map_eq_none_iff]
      exact h.leg
    case counter => exact legCseq_setLegCseq h.leg _
    case pending =>
      intro st' hst' n hn
      cases hst'
      cases hn
      exact hnew _
    case last =>
      intro st' hst' p hp
      cases hst'
      cases hp
      exact hnew _

theorem Inv.step (h : Inv cfg s) (op : Op) : Inv cfg (step cfg s op) := by
  cases op with
  | pushInviteAttempt now raw dest transport trunkId => exact ⟨h.leg, h.counter, h.pending, h.last⟩
  | setEstablishedDialog fromRaw toRaw contact =>
      refine ⟨?_, ?_, h.pending, h.last⟩
      · change s.1.outbound.map _ ≠ none
        rw [ne_eq, Option.map_eq_none_iff]
        exact h.leg
      · refine Eq.trans ?_ h.counter
        change ((s.1.outbound.map _).map CallLeg.cseq).getD 0 = _
        rw [Option.map_map]
        rfl
  | noteRelayedCseq towardCallee cseq =>
      cases towardCallee with
      | false => exact ⟨h.leg, h.counter, h.pending, h.last⟩
      | true =>
          obtain ⟨leg, hleg⟩ := Option.ne_none_iff_exists'.mp h.leg
          have hcounter : leg.cseq = highest s.2.requests := by
            have hcounter := h.counter
            rw [legCseq, hleg] at hcounter
            exact hcounter
          refine ⟨?_, ?_, h.pending, h.last⟩
          · change s.1.outbound.map _ ≠ none
            rw [hleg]
            exact Option.some_ne_none _
          · change ((s.1.outbound.map _).map CallLeg.cseq).getD 0 = max (highest s.2.requests) cseq
            rw [hleg, ← hcounter]
            rfl
  | setSessionTimer now intervalSecs minSe =>
      refine ⟨h.leg, h.counter, fun st hst => ?_, fun st hst => ?_⟩
      · cases hst
        intro _ hnone
        cases hnone
      · cases hst
        intro _ hnone
        cases hnone
  | refresh now branch => exact h.refresh now branch
  | completeSessionRefresh cseq branch => exact h.keeps (keeps_complete _ _ _ _ _)
  | failSessionRefresh now delayMs cseq status minSe422 responseTo => exact h.keeps (keeps_fail _ _ _ _ _ _ _)

theorem inv_recorded (cfg : Config) (now : Nat) (n : NewCall) (route : Route) (raw localTag : List Char) :
    Inv cfg (recorded cfg now n route raw localTag, .start) := by
  have htimer : (recorded cfg now n route raw localTag).sessionTimer = none := by
    unfold recorded routed NewCall.call
    cases route with
    | contact => cases n.fromRaw <;> rfl
    | trunk => cases n.fromRaw <;> rfl
  refine ⟨Option.some_ne_none _, rfl, fun st hst => ?_, fun st hst => ?_⟩
  · cases hst.symm.trans htimer
  · cases hst.symm.trans htimer

theorem inv_run (cfg : Config) (now : Nat) (n : NewCall) (route : Route) (raw localTag : List Char) (ops : List Op) :
    Inv cfg (ops.foldl (step cfg) (recorded cfg now n route raw localTag, .start)) := by
  have hrun := inv_recorded cfg now n route raw localTag
  generalize (recorded cfg now n route raw localTag, Traffic.start) = s at hrun ⊢
  induction ops generalizing s with
  | nil => exact hrun
  | cons op ops ih => exact ih _ (hrun.step op)

end Invariant

/-- Whatever is sent to the callee of a call, the ACKs have the numbers of what
they acknowledge exactly where the counter of the leg is level with the live
INVITE. -/
theorem acks_numbered_iff (cfg : Config) (now : Nat) (n : NewCall) (route : Route) (raw localTag : List Char)
    (ops : List Op) :
    let s := ops.foldl (step cfg) (recorded cfg now n route raw localTag, .start)
    Numbered cfg s ↔ Level s :=
  numbered_iff (inv_run cfg now n route raw localTag ops)

/-- The second INVITE goes out with the next number, after a challenge. -/
def challenged : List Op :=
  [.pushInviteAttempt 0 ("INVITE sip:b@h SIP/2.0\r\n".toList ++ "Via: SIP/2.0/UDP h;branch=z9hG4bKb\r\n".toList ++
    "CSeq: 2 INVITE\r\n\r\n".toList)
      (host 2) .udp none,
    .setEstablishedDialog "<sip:a@h>;tag=g".toList "<sip:b@h>;tag=b".toList none]

/-- Its answer is acknowledged with the number of the first one. -/
theorem challenged_ack_misnumbered :
    ¬ Numbered bareConfig
      (challenged.foldl (step bareConfig) (recorded bareConfig 0 aliceCall bobsContact aliceInvite ['l'], .start)) := by
  rw [numbered_iff (inv_run bareConfig 0 aliceCall bobsContact aliceInvite ['l'] challenged)]
  intro hlevel
  have haddr : Addressable
      (challenged.foldl (step bareConfig)
        (recorded bareConfig 0 aliceCall bobsContact aliceInvite ['l'], Traffic.start)).1.toB2buaCall :=
    ⟨_, _, _, _, rfl, rfl, rfl, rfl⟩
  have hlive := hlevel haddr (Option.some_ne_none _) _ rfl
  revert hlive
  decide +kernel

end NixiSbc.AckNumbers

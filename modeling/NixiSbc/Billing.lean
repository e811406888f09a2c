import NixiSbc.CallLedger

namespace NixiSbc.Billing

open Stun KeyedTable CallSetup InviteRetries Teardown ResponseHandler CallHandlers CallerFinals StateRuns
open RetrySteps CallLedger
open CallManager (callUuid)

/-- The record says what the caller was told. -/
def Truthful (finals : List UInt16) (code : Option UInt16) : Prop :=
  (finals = [] ↔ code = none) ∧ ∀ status ∈ finals, code = some status

/-- All finals are the same one. -/
def OneFinal (finals : List UInt16) : Prop := finals ≠ [] ∧ ∃ status, ∀ f ∈ finals, f = status

/-- A 2xx for the live attempt has a status as it should be. -/
def SuccessWith (cfg : Config) (good : UInt16 → Prop) (call : SetupCall) : CallEvent → Prop
  | .response a r => reachesArms cfg a call r = true → isSuccess r.status = true → good r.status
  | _ => True

theorem SuccessWith.mono {cfg : Config} {good good' : UInt16 → Prop}
    (hgood : ∀ status, good status → good' status) {call : SetupCall} {event : CallEvent} (h : SuccessWith cfg good call event) :
    SuccessWith cfg good' call event := by
  cases event with
  | response a r => exact fun harms hstatus => hgood r.status (h harms hstatus)
  | _ => trivial

/-- The caller of a refused INVITE is told so, as is one whose INVITE is taken
by no trunk. -/
def ToldOfSetup (cfg : Config) (n : NewCall) : Setup → Prop
  | .refused why _ => why.built = true
  | .forwarded look route raw localTag =>
      let scene := look (candidatesLeft (routed n route).toB2buaCall)
      let call := recorded cfg scene.now n route raw localTag
      scene.taken = false → (failoverToNextTrunk cfg look call).1 = false → finalKnown call = true

/-- A call in the map: it is answered once a final went out, and all of these
are in order. -/
structure Standing (S : List UInt16 → Prop) (call : SetupCall) (finals : List UInt16) : Prop where
  shape : Shape call
  answered : call.answeredAt.isSome = true ↔ finals ≠ []
  finals : S finals

section Steps

variable {cfg : Config} {S : List UInt16 → Prop} {Q : List UInt16 → Option UInt16 → Prop}

theorem Standing.unanswered {call : SetupCall} {finals : List UInt16} (h : Standing S call finals)
    (hpending : call.answeredAt = none) : finals = [] := by
  by_contra hne
  have hsome := h.answered.mpr hne
  rw [hpending] at hsome
  cases hsome

/-- What one event leaves is in order, if its finals are. -/
theorem inOrder_event {call : SetupCall} {finals : List UInt16} {event : CallEvent}
    (h : Standing S call finals) (htold : Told cfg call event)
    (hsuccess : SuccessWith cfg (fun status => S (finals ++ [status])) call event)
    (hover : ∀ finals outcome, S finals → finals ≠ [] → Q finals (CallOutcome.sipCode outcome true))
    (hrefused : ∀ code, Q [code] (some code))
    (hsilent : leaves call event = true → call.answeredAt = none → Q [] none) :
    InOrder (Standing S) Q finals (onEvent cfg call event) := by
  cases spoke_onEvent h.shape htold with
  | quiet haside hended hfinals =>
      constructor
      · intro _
        rw [hfinals, List.append_nil]
        exact ⟨h.shape.aside haside, haside.answered ▸ h.answered, h.finals⟩
      · intro outcome houtcome
        cases hended.symm.trans houtcome
  | answer a r hevent harms hstatus hanswered hshape hfinals =>
      subst hevent
      have hS : S (finals ++ [r.status]) := hsuccess harms hstatus
      have hne : finals ++ [r.status] ≠ [] := List.append_ne_nil_of_right_ne_nil _ (List.cons_ne_nil _ _)
      rw [← hfinals] at hS hne
      constructor
      · exact fun _ => ⟨hshape, ⟨fun _ => hne, fun _ => hanswered⟩, hS⟩
      · intro outcome _
        rw [hanswered]
        exact hover _ outcome hS hne
  | hungUp hanswered hafter hended hfinals =>
      constructor
      · intro hnone
        rw [hnone] at hended
        cases hended
      · intro outcome _
        rw [hfinals, List.append_nil, hafter, hanswered]
        exact hover _ outcome h.finals (h.answered.mp hanswered)
  | refused outcome code hpending hafter hended hcode hfinals =>
      constructor
      · intro hnone
        cases hended.symm.trans hnone
      · intro outcome' houtcome
        cases hended.symm.trans houtcome
        rw [hfinals, h.unanswered hpending, List.nil_append, hafter]
        change Q [code] (outcome.sipCode false)
        rw [hcode]
        exact hrefused code
  | silent outcome hleaves hpending hafter hended hcode hfinals =>
      constructor
      · intro hnone
        cases hended.symm.trans hnone
      · intro outcome' houtcome
        cases hended.symm.trans houtcome
        rw [hfinals, h.unanswered hpending, List.nil_append, hafter]
        change Q [] (outcome.sipCode false)
        rw [hcode]
        exact hsilent hleaves hpending

section Setup

theorem standing_recorded (hnil : S []) (now : Nat) (n : NewCall) (route : Route) (raw localTag : List Char) :
    Standing S (recorded cfg now n route raw localTag) [] := by
  have hnew : n.call.answeredAt = none ∧ n.call.inbound.toRaw = none ∧ n.call.sessionTimer = none := by
    unfold NewCall.call
    split
    next => exact ⟨rfl, rfl, rfl⟩
    next => exact ⟨rfl, rfl, rfl⟩
  have hrouted : (routed n route).answeredAt = none ∧ (routed n route).inbound.toRaw = none ∧
      (routed n route).sessionTimer = none := by
    cases route with
    | contact dest transport replyTx => exact hnew
    | trunk t dest candidates => exact hnew
  obtain ⟨hanswered, htoRaw, htimer⟩ := hrouted
  have hanswered : (recorded cfg now n route raw localTag).answeredAt = none := hanswered
  refine ⟨⟨rfl, fun _ => ⟨htoRaw, htimer⟩, ?_⟩, ?_, hnil⟩
  · intro hsome
    rw [hanswered] at hsome
    cases hsome
  · rw [hanswered]
    exact ⟨fun h => (nomatch h), fun h => absurd rfl h⟩

theorem Standing.aside {call after : SetupCall} {finals : List UInt16} (h : Standing S call finals)
    (haside : Aside call after) : Standing S after finals :=
  ⟨h.shape.aside haside, haside.answered ▸ h.answered, h.finals⟩

theorem inOrder_setUp {n : NewCall} {setup : Setup} (hnil : S []) (hrefused : ∀ code, Q [code] (some code))
    (htold : ToldOfSetup cfg n setup) : InOrder (Standing S) Q [] (setUp cfg n setup) := by
  cases setup with
  | refused why raw =>
      have hbuilt : why.built = true := htold
      have hcode : 200 ≤ why.code := by
        unfold Refusal.code
        split <;> decide
      have hfinals : finalsOf (setUp cfg n (.refused why raw)).toCaller = [why.code] := by
        rw [setUp, if_pos hbuilt]
        exact finals_response raw hcode
      constructor
      · exact fun hnone => nomatch hnone
      · intro outcome houtcome
        cases houtcome
        rw [hfinals]
        change Q [why.code] (CallOutcome.sipCode (.refused why.code) n.call.answeredAt.isSome)
        rw [answeredAt_new]
        exact hrefused why.code
  | forwarded look route raw localTag =>
      have htold : (look (candidatesLeft (routed n route).toB2buaCall)).taken = false →
          (failoverToNextTrunk cfg look (recorded cfg (look (candidatesLeft (routed n route).toB2buaCall)).now
            n route raw localTag)).1 = false →
          finalKnown (recorded cfg (look (candidatesLeft (routed n route).toB2buaCall)).now n route raw
            localTag) = true := htold
      have hstanding : Standing S (recorded cfg (look (candidatesLeft (routed n route).toB2buaCall)).now n route
        raw localTag) [] := standing_recorded hnil _ n route raw localTag
      unfold setUp forwardInvite
      dsimp only
      generalize recorded cfg (look (candidatesLeft (routed n route).toB2buaCall)).now n route raw localTag =
        call at htold hstanding ⊢
      have hafter := hstanding.aside (aside_failover cfg call look)
      split
      next => exact ⟨fun _ => hstanding, fun _ houtcome => (nomatch houtcome)⟩
      next htaken =>
        split
        next => exact ⟨fun _ => hafter, fun _ houtcome => (nomatch houtcome)⟩
        next hfailed =>
          refine ⟨fun hnone => (nomatch hnone), fun outcome houtcome => ?_⟩
          cases houtcome
          have hknown := htold (Bool.eq_false_of_not_eq_true htaken) (Bool.eq_false_of_not_eq_true hfailed)
          rw [← (aside_failover cfg call look).known,
            ← finalTowardCaller_isSome cfg (failoverToNextTrunk cfg look call).2.1 503 none] at hknown
          obtain ⟨final, hfinal⟩ := Option.isSome_iff_exists.mp hknown
          have hpending : (failoverToNextTrunk cfg look call).2.1.answeredAt = none := by
            by_contra hsome
            exact hafter.answered.mp (Option.isSome_iff_ne_none.mpr hsome) rfl
          have hfinals : finalsOf [.response 503 final] = [503] := finals_response final (by decide)
          dsimp only
          rw [hfinal, hpending]
          change Q (finalsOf [.response 503 final]) (some 503)
          rw [hfinals]
          exact hrefused 503

end Setup

end Steps

theorem forall_mem_concat {finals : List UInt16} {status good : UInt16} (h : ∀ f ∈ finals, f = good)
    (hstatus : status = good) : ∀ f ∈ finals ++ [status], f = good := by
  intro f hf
  rcases List.mem_append.mp hf with hf | hf
  · exact h f hf
  · rw [List.mem_singleton.mp hf]
    exact hstatus

section Sample

def aliceCallsBob : Happening :=
  .invite aliceCall (.forwarded (fun _ => idleScene) bobsContact aliceInvite ['l'])

def aliceUuid : List Char := callUuid 1

def aliceHangsUp : Happening := .event aliceUuid (.bye true none [] [])

/-- A CANCEL with the Call-ID of the INVITE, but not from where it came. -/
def cancelFromElsewhere : Happening :=
  .event aliceUuid (.cancel
    ⟨host 3, .udp, none, some "SIP/2.0 487 Request Terminated\r\nCSeq: 1 INVITE\r\n\r\n".toList⟩)

theorem told_bobsAnswer (call : SetupCall) : Told bareConfig call (bobsAnswer 200) := by
  intro _ _
  exact fun hfails => (nomatch (Bool.and_eq_true_iff.mp hfails).2)

theorem allowed_forwarded {C : SetupCall → List UInt16 → CallEvent → Prop} {happenings : List Happening}
    (h : Throughout (step bareConfig) (Allowed (ToldOfSetup bareConfig) C) (step bareConfig .new aliceCallsBob)
      happenings) :
    Throughout (step bareConfig) (Allowed (ToldOfSetup bareConfig) C) .new (aliceCallsBob :: happenings) :=
  ⟨⟨List.not_mem_nil, fun hfailed => (nomatch hfailed)⟩, h⟩

/-- What `billed_once` and `one_final` ask of the answer and of the BYE after it. -/
theorem allowed_answered {C : SetupCall → List UInt16 → CallEvent → Prop}
    (hanswer : ∀ call, C call [] (bobsAnswer 200))
    (hbye : ∀ call finals, call.answeredAt.isSome = true → C call finals (.bye true none [] [])) :
    Throughout (step bareConfig) (Allowed (ToldOfSetup bareConfig) C) .new
      [aliceCallsBob, .event aliceUuid (bobsAnswer 200), aliceHangsUp] := by
  refine allowed_forwarded ⟨fun call _ => hanswer call, fun call hcall => hbye call _ ?_, trivial⟩
  have hanswered : ((run bareConfig [aliceCallsBob, .event aliceUuid (bobsAnswer 200)]).calls.lookup
      aliceUuid).all (fun call => call.answeredAt.isSome) = true := by decide
  have hlookup : (run bareConfig [aliceCallsBob, .event aliceUuid (bobsAnswer 200)]).calls.lookup aliceUuid =
    some call := hcall
  rw [hlookup] at hanswered
  exact hanswered

end Sample

section Runs

variable (cfg : Config) (happenings : List Happening)

/-- Every call is billed once and truthfully, in a run in which no uuid is drawn
twice, the caller is told of every event as it should be, and a call is only
answered with a 200. -/
theorem billed_once
    (h : Throughout (step cfg) (Allowed (ToldOfSetup cfg) fun call _ event =>
      Told cfg call event ∧ SuccessWith cfg (· = 200) call event) .new happenings) :
    ∀ uuid ∈ (run cfg happenings).created,
      ((run cfg happenings).calls.lookup uuid ≠ none → entriesFor uuid (run cfg happenings).cdrs = []) ∧
      ((run cfg happenings).calls.lookup uuid = none →
        ∃ code, entriesFor uuid (run cfg happenings).cdrs = [code] ∧
          Truthful (entriesFor uuid (run cfg happenings).finals) code) := by
  have hrefused (code : UInt16) : Truthful [code] (some code) := by
    refine ⟨⟨fun h => (nomatch h), fun h => (nomatch h)⟩, ?_⟩
    intro status hstatus
    rw [List.mem_singleton.mp hstatus]
  have hover (finals : List UInt16) (outcome : CallOutcome) (hfinals : ∀ f ∈ finals, f = 200)
      (hne : finals ≠ []) : Truthful finals (outcome.sipCode true) := by
    refine ⟨⟨fun hnil => absurd hnil hne, fun hnone => (nomatch hnone)⟩, fun status hstatus => ?_⟩
    rw [hfinals status hstatus]
    rfl
  have hnone : Truthful [] none :=
    ⟨⟨fun _ => rfl, fun _ => rfl⟩, fun _ hmem => absurd hmem List.not_mem_nil⟩
  have hledger : Ledger (Standing fun finals => ∀ f ∈ finals, f = 200) Truthful (run cfg happenings) := by
    refine ledger_run (fun n setup htold => ?_) (fun call finals event hstanding htold => ?_) h
    · exact inOrder_setUp (fun _ hmem => absurd hmem List.not_mem_nil) hrefused htold
    · have hsuccess := htold.2.mono fun status hstatus => forall_mem_concat hstanding.finals hstatus
      exact inOrder_event hstanding htold.1 hsuccess hover hrefused fun _ _ => hnone
  intro uuid huuid
  have hbooked := hledger.booked uuid huuid
  unfold Booked at hbooked
  cases hlookup : (run cfg happenings).calls.lookup uuid with
  | some call =>
      rw [hlookup] at hbooked
      exact ⟨fun _ => hbooked.2, fun hnone => (nomatch hnone)⟩
  | none =>
      rw [hlookup] at hbooked
      exact ⟨fun hne => absurd rfl hne, fun _ => hbooked⟩

theorem billed_once_answered :
    aliceUuid ∈ (run bareConfig [aliceCallsBob, .event aliceUuid (bobsAnswer 200), aliceHangsUp]).created ∧
    ∃ code, entriesFor aliceUuid
        (run bareConfig [aliceCallsBob, .event aliceUuid (bobsAnswer 200), aliceHangsUp]).cdrs = [code] ∧
      Truthful (entriesFor aliceUuid
        (run bareConfig [aliceCallsBob, .event aliceUuid (bobsAnswer 200), aliceHangsUp]).finals) code := by
  have hcreated : aliceUuid ∈
      (run bareConfig [aliceCallsBob, .event aliceUuid (bobsAnswer 200), aliceHangsUp]).created :=
    List.mem_singleton_self _
  refine ⟨hcreated, (billed_once bareConfig [aliceCallsBob, .event aliceUuid (bobsAnswer 200), aliceHangsUp]
    (allowed_answered (fun call => ?_) fun _ _ _ => ⟨trivial, trivial⟩) aliceUuid hcreated).2
      (by decide)⟩
  exact ⟨told_bobsAnswer call, fun _ _ => rfl⟩

/-- A CANCEL from elsewhere ends the call with a 487 on record, and the caller
gets none. -/
theorem cancelled_from_elsewhere_billed_unsent :
    ¬ ∀ uuid ∈ (run bareConfig [aliceCallsBob, cancelFromElsewhere]).created,
      ((run bareConfig [aliceCallsBob, cancelFromElsewhere]).calls.lookup uuid ≠ none →
        entriesFor uuid (run bareConfig [aliceCallsBob, cancelFromElsewhere]).cdrs = []) ∧
      ((run bareConfig [aliceCallsBob, cancelFromElsewhere]).calls.lookup uuid = none →
        ∃ code, entriesFor uuid (run bareConfig [aliceCallsBob, cancelFromElsewhere]).cdrs = [code] ∧
          Truthful (entriesFor uuid (run bareConfig [aliceCallsBob, cancelFromElsewhere]).finals) code) := by
  intro h
  obtain ⟨code, hcdrs, htruthful⟩ := (h aliceUuid (List.mem_singleton_self _)).2 (by decide)
  have hrecord : entriesFor aliceUuid (run bareConfig [aliceCallsBob, cancelFromElsewhere]).cdrs =
      [some 487] := by decide
  have hfinals : entriesFor aliceUuid (run bareConfig [aliceCallsBob, cancelFromElsewhere]).finals = [] := by
    decide
  cases hrecord.symm.trans hcdrs
  cases htruthful.1.mp hfinals

/-- By the time that a call has left the map its caller has had exactly one
final, in a run in which no uuid is drawn twice, the caller is told of every
event as it should be, no answer follows one of another status, and neither a
BYE nor the loss of the caller's connection comes before the answer. -/
theorem one_final
    (h : Throughout (step cfg) (Allowed (ToldOfSetup cfg) fun call finals event =>
      Told cfg call event ∧ SuccessWith cfg (fun status => ∀ f ∈ finals, f = status) call event ∧
        (leaves call event = true → call.answeredAt.isSome = true)) .new happenings) :
    ∀ uuid ∈ (run cfg happenings).created, (run cfg happenings).calls.lookup uuid = none →
      OneFinal (entriesFor uuid (run cfg happenings).finals) := by
  have hrefused (code : UInt16) : OneFinal [code] :=
    ⟨List.cons_ne_nil _ _, code, fun f hf => List.mem_singleton.mp hf⟩
  have hnil : ∃ status, ∀ f ∈ ([] : List UInt16), f = status :=
    ⟨0, fun _ hmem => absurd hmem List.not_mem_nil⟩
  have hledger : Ledger (Standing fun finals => ∃ status, ∀ f ∈ finals, f = status)
      (fun finals _ => OneFinal finals) (run cfg happenings) := by
    refine ledger_run (fun n setup htold => ?_) (fun call finals event hstanding htold => ?_) h
    · exact inOrder_setUp hnil hrefused htold
    · obtain ⟨htold, hsame, hleaves⟩ := htold
      have hsuccess := hsame.mono fun status hstatus =>
        (⟨status, forall_mem_concat hstatus rfl⟩ : ∃ good, ∀ f ∈ finals ++ [status], f = good)
      refine inOrder_event hstanding htold hsuccess (fun _ _ hall hne => ⟨hne, hall⟩) hrefused ?_
      intro hleft hpending
      have hanswered := hleaves hleft
      rw [hpending] at hanswered
      cases hanswered
  intro uuid huuid hgone
  have hbooked := hledger.booked uuid huuid
  unfold Booked at hbooked
  rw [hgone] at hbooked
  obtain ⟨code, -, hone⟩ := hbooked
  exact hone

theorem one_final_answered :
    aliceUuid ∈ (run bareConfig [aliceCallsBob, .event aliceUuid (bobsAnswer 200), aliceHangsUp]).created ∧
    OneFinal (entriesFor aliceUuid
      (run bareConfig [aliceCallsBob, .event aliceUuid (bobsAnswer 200), aliceHangsUp]).finals) := by
  have hcreated : aliceUuid ∈
      (run bareConfig [aliceCallsBob, .event aliceUuid (bobsAnswer 200), aliceHangsUp]).created :=
    List.mem_singleton_self _
  refine ⟨hcreated, one_final bareConfig [aliceCallsBob, .event aliceUuid (bobsAnswer 200), aliceHangsUp]
    (allowed_answered (fun call => ?_) fun _ _ hanswered => ⟨trivial, trivial, fun _ => hanswered⟩)
      aliceUuid hcreated (by decide)⟩
  exact ⟨told_bobsAnswer call, fun _ _ _ hmem => absurd hmem List.not_mem_nil, fun h => (nomatch h)⟩

/-- A BYE before the answer ends the call, and the caller's INVITE gets no final. -/
theorem bye_before_answer_no_final :
    ¬ ∀ uuid ∈ (run bareConfig [aliceCallsBob, aliceHangsUp]).created,
      (run bareConfig [aliceCallsBob, aliceHangsUp]).calls.lookup uuid = none →
        OneFinal (entriesFor uuid (run bareConfig [aliceCallsBob, aliceHangsUp]).finals) := by
  intro h
  exact (h aliceUuid (List.mem_singleton_self _) (by decide)).1 (by decide)

end Runs

end NixiSbc.Billing

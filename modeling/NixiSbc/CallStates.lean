import NixiSbc.CallSetup
import NixiSbc.StateRuns

namespace NixiSbc.CallStates

open KeyedTable StateRuns CallSetup
open B2bua (CallState)

/-- The order of the states of a call. -/
def rank : CallState → Nat
  | .initiated => 0
  | .proceeding => 1
  | .ringing => 2
  | .connected => 3
  | .terminating => 4
  | .terminated => 5

/-- What the manager is told about a call. -/
inductive DialogEvent
  | ringing
  | ok (now : Nat) (calleeTag : List Char)
  | ack
  | bye
  | terminate

/-- The call after the event; a terminated one leaves the map. -/
def advance (call : SetupCall) : DialogEvent → Option SetupCall
  | .ringing => some (handleRinging call)
  | .ok now calleeTag => some (handle200Ok call now calleeTag)
  | .ack => some (handleAck call)
  | .bye => some (handleBye call)
  | .terminate => none

abbrev Calls := Table (List Char) SetupCall

/-- An event for a call that is gone changes nothing. -/
def step (calls : Calls) (op : List Char × DialogEvent) : Calls :=
  sweep (fun uuid call => if uuid = op.1 then advance call op.2 else some call) calls

/-- No call that stays in the map falls back. -/
def Forward (calls : Calls) (op : List Char × DialogEvent) : Prop :=
  ∀ uuid before after, calls.lookup uuid = some before →
    (step calls op).lookup uuid = some after → rank before.state ≤ rank after.state

/-- The states in which the event does not push a call back. -/
def InTime (call : SetupCall) : DialogEvent → Prop
  | .ringing => rank call.state ≤ rank .ringing
  | .ok _ _ => call.inbound.established = true → rank call.state ≤ rank .connected
  | .ack => outboundEstablished call.toB2buaCall = true → rank call.state ≤ rank .connected
  | .bye => call.state ≠ .terminated
  | .terminate => True

theorem lookup_step (calls : Calls) (op : List Char × DialogEvent) (uuid : List Char) :
    (step calls op).lookup uuid =
      (calls.lookup uuid).bind fun call => if uuid = op.1 then advance call op.2 else some call :=
  lookup_sweep _ _ _

theorem state_ok (call : SetupCall) (now : Nat) (calleeTag : List Char) :
    (handle200Ok call now calleeTag).state =
      if call.inbound.established then .connected else call.state := rfl

theorem rank_le_terminating {s : CallState} : rank s ≤ rank .terminating ↔ s ≠ .terminated := by
  cases s <;> decide

/-- A call that stays does not fall back exactly when the event is in time. -/
theorem rank_advance_iff {call after : SetupCall} {e : DialogEvent} (h : advance call e = some after) :
    rank call.state ≤ rank after.state ↔ InTime call e := by
  cases e with
  | ringing =>
      cases h
      exact Iff.rfl
  | ok now calleeTag =>
      cases h
      rw [state_ok, InTime]
      split
      next hest => exact ⟨fun hle _ => hle, fun hle => hle hest⟩
      next hest => exact ⟨fun _ h => absurd h hest, fun _ => le_rfl⟩
  | ack =>
      cases h
      rw [state_handleAck, InTime]
      split
      next hest => exact ⟨fun hle _ => hle, fun hle => hle hest⟩
      next hest => exact ⟨fun _ h => absurd h hest, fun _ => le_rfl⟩
  | bye =>
      cases h
      exact rank_le_terminating
  | terminate => cases h

/-- The call that the event is for, if it is still there, is in time. -/
def OpInTime (calls : Calls) (op : List Char × DialogEvent) : Prop :=
  ∀ call, calls.lookup op.1 = some call → InTime call op.2

theorem forward_iff (calls : Calls) (op : List Char × DialogEvent) :
    Forward calls op ↔ OpInTime calls op := by
  constructor
  · intro hforward call hcall
    cases hadv : advance call op.2 with
    | some after =>
        have hafter : (step calls op).lookup op.1 = some after := by
          rw [lookup_step, hcall, Option.bind_some, if_pos rfl, hadv]
        exact (rank_advance_iff hadv).mp (hforward op.1 call after hcall hafter)
    | none =>
        -- only a termination takes the call away
        cases he : op.2 with
        | terminate => trivial
        | ringing | ok _ _ | ack | bye =>
            rw [he] at hadv
            cases hadv
  · intro hin uuid before after hbefore hafter
    rw [lookup_step, hbefore, Option.bind_some] at hafter
    split at hafter
    next huuid => exact (rank_advance_iff hafter).mpr (hin before (huuid ▸ hbefore))
    next =>
      cases hafter
      exact le_rfl

/-- In every run the states move forward exactly when every event meets its
call in time: no provisional response on a call that is connected or ending,
and neither an answer nor an ACK that joins the legs of one that is ending. -/
theorem states_forward_iff (calls : Calls) (ops : List (List Char × DialogEvent)) :
    Throughout step Forward calls ops ↔ Throughout step OpInTime calls ops :=
  throughout_iff (I := fun _ => True) (fun calls op _ => forward_iff calls op)
    (fun _ _ _ _ => trivial) trivial

/-- A call as it is when its INVITE has gone out. -/
def forwardedCall : SetupCall :=
  attachOutbound
    { SetupCall.new (.new 1 "c@h".toList "t".toList (NetAddr.ofOctets 192 0 2 1 5060) none .udp 0) none
      with state := .proceeding }
    "c@h".toList "l".toList (NetAddr.ofOctets 198 51 100 10 5060) none .udp

def forwardedCalls : Calls := AList.singleton ['u'] forwardedCall

/-- The answer, its ACK and then a late ringing: the call is no longer
connected. And an ACK after the BYE revives the call. -/
theorem late_ringing_disconnects :
    ¬ Throughout step Forward forwardedCalls
      [(['u'], .ok 0 ['b']), (['u'], .ack), (['u'], .ringing)] ∧
    ¬ Throughout step Forward forwardedCalls [(['u'], .ok 0 ['b']), (['u'], .bye), (['u'], .ack)] := by
  constructor
  · rintro ⟨-, -, hlast, -⟩
    have hle : rank .connected ≤ rank .ringing := (forward_iff _ _).mp hlast _ rfl
    exact absurd hle (by decide)
  · rintro ⟨-, -, hlast, -⟩
    have hle : rank .terminating ≤ rank .connected := (forward_iff _ _).mp hlast _ rfl rfl
    exact absurd hle (by decide)

end NixiSbc.CallStates

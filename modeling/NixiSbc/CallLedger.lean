import NixiSbc.CallerFinals
import NixiSbc.StateRuns

namespace NixiSbc.CallLedger

open Stun KeyedTable CallSetup InviteRetries Teardown ResponseHandler CallHandlers CallerFinals StateRuns
open CallManager (callUuid)

/-- Why `handle_invite` refuses a call that it has already created. Only the
answer to a blocked destination may fail to be built. -/
inductive Refusal
  | contactAddress
  | contactGone
  | notRegistered
  | unknownNumber
  | destinationBlocked (built : Bool)
  | noTrunk
  | noDestination
  deriving DecidableEq

def Refusal.code : Refusal → UInt16
  | .contactAddress => 500
  | .contactGone | .notRegistered => 480
  | .unknownNumber => 404
  | .destinationBlocked _ => 403
  | .noTrunk | .noDestination => 503

def Refusal.built : Refusal → Bool
  | .destinationBlocked built => built
  | _ => true

/-- What becomes of an INVITE once its call is created. -/
inductive Setup
  | refused (why : Refusal) (raw : List Char)
  | forwarded (look : Nat → Scene) (route : Route) (raw localTag : List Char)

def setUp (cfg : Config) (n : NewCall) : Setup → Effects
  | .refused why raw =>
      ⟨n.call, [], if why.built then [.response why.code raw] else [], some (.refused why.code)⟩
  | .forwarded look route raw localTag => forwardInvite cfg look n route raw localTag

/-- The calls in the map, with all that was ever written about them: the uuids
that `create_call` returned, the finals for the callers' INVITEs and the records. -/
structure Sbc where
  calls : Table (List Char) SetupCall
  created : List (List Char)
  finals : List (List Char × UInt16)
  cdrs : List (List Char × Option UInt16)

def Sbc.new : Sbc := ⟨∅, [], [], []⟩

/-- An INVITE that makes a call, or an event that finds one. -/
inductive Happening
  | invite (n : NewCall) (setup : Setup)
  | event (uuid : List Char) (event : CallEvent)

/-- What a handler leaves behind. A call that it ends goes through `finish_call`,
which takes it out of the map and writes its record. -/
def settle (s : Sbc) (uuid : List Char) (fx : Effects) : Sbc :=
  { s with
    calls :=
      match fx.left with
      | some call => s.calls.insert uuid call
      | none => s.calls.erase uuid
    finals := s.finals ++ (finalsOf fx.toCaller).map fun status => (uuid, status)
    cdrs := s.cdrs ++ fx.ended.toList.map fun outcome =>
      (uuid, outcome.sipCode fx.after.answeredAt.isSome) }

def step (cfg : Config) (s : Sbc) : Happening → Sbc
  | .invite n setup =>
      { settle s (callUuid n.draw) (setUp cfg n setup) with created := s.created ++ [callUuid n.draw] }
  | .event uuid event =>
      match s.calls.lookup uuid with
      | none => s
      | some call => settle s uuid (onEvent cfg call event)

def run (cfg : Config) (happenings : List Happening) : Sbc := happenings.foldl (step cfg) .new

/-- The entries of a log for one call. -/
def entriesFor {α : Type} (uuid : List Char) (log : List (List Char × α)) : List α :=
  log.filterMap fun entry => if entry.1 = uuid then some entry.2 else none

section Entries

variable {α : Type} {uuid : List Char}

theorem entriesFor_append (log log' : List (List Char × α)) :
    entriesFor uuid (log ++ log') = entriesFor uuid log ++ entriesFor uuid log' := List.filterMap_append

variable (uuid) in
theorem entriesFor_self (items : List α) : entriesFor uuid (items.map fun x => (uuid, x)) = items := by
  simp [entriesFor, List.filterMap_map]

theorem entriesFor_other {uuid' : List Char} (h : uuid ≠ uuid') (items : List α) :
    entriesFor uuid' (items.map fun x => (uuid, x)) = [] := by
  rw [entriesFor, List.filterMap_eq_nil_iff]
  intro entry hentry
  obtain ⟨x, -, rfl⟩ := List.mem_map.mp hentry
  exact if_neg h

end Entries

section Rule

variable (P : SetupCall → List UInt16 → Prop) (Q : List UInt16 → Option UInt16 → Prop)

/-- A call in the map has no record, one that has left it has one; what is to
hold of its finals holds. -/
def Booked (s : Sbc) (uuid : List Char) : Prop :=
  match s.calls.lookup uuid with
  | some call => P call (entriesFor uuid s.finals) ∧ entriesFor uuid s.cdrs = []
  | none => ∃ code, entriesFor uuid s.cdrs = [code] ∧ Q (entriesFor uuid s.finals) code

structure Ledger (s : Sbc) : Prop where
  booked : ∀ uuid ∈ s.created, Booked P Q s uuid
  blank : ∀ uuid ∉ s.created,
    s.calls.lookup uuid = none ∧ entriesFor uuid s.finals = [] ∧ entriesFor uuid s.cdrs = []

/-- What a handler leaves of a call with these finals is in order. -/
structure InOrder (finals : List UInt16) (fx : Effects) : Prop where
  live : fx.ended = none → P fx.after (finals ++ finalsOf fx.toCaller)
  done : ∀ outcome, fx.ended = some outcome →
    Q (finals ++ finalsOf fx.toCaller) (outcome.sipCode fx.after.answeredAt.isSome)

variable {P Q} {s : Sbc} {uuid : List Char} {fx : Effects}

section Settle

variable {uuid' : List Char}

theorem lookup_settle_other (h : uuid ≠ uuid') :
    (settle s uuid fx).calls.lookup uuid' = s.calls.lookup uuid' := by
  unfold settle
  dsimp only
  split
  next => rw [lookup_insert_eq, if_neg h.symm]
  next => rw [lookup_erase_eq, if_neg h.symm]

theorem finals_settle_other (h : uuid ≠ uuid') :
    entriesFor uuid' (settle s uuid fx).finals = entriesFor uuid' s.finals := by
  rw [settle, entriesFor_append, entriesFor_other h, List.append_nil]

theorem cdrs_settle_other (h : uuid ≠ uuid') :
    entriesFor uuid' (settle s uuid fx).cdrs = entriesFor uuid' s.cdrs := by
  have hother := entriesFor_other h (fx.ended.toList.map fun outcome =>
    outcome.sipCode fx.after.answeredAt.isSome)
  rw [List.map_map] at hother
  rw [settle, entriesFor_append]
  exact (congrArg (_ ++ ·) hother).trans (List.append_nil _)

theorem cdrs_settle (s : Sbc) (uuid : List Char) (fx : Effects) :
    entriesFor uuid (settle s uuid fx).cdrs = entriesFor uuid s.cdrs ++
      fx.ended.toList.map fun outcome => outcome.sipCode fx.after.answeredAt.isSome := by
  have hself := entriesFor_self uuid (fx.ended.toList.map fun outcome =>
    outcome.sipCode fx.after.answeredAt.isSome)
  rw [List.map_map] at hself
  rw [settle, entriesFor_append]
  exact congrArg (_ ++ ·) hself

theorem booked_settle_other (h : uuid ≠ uuid') (hbooked : Booked P Q s uuid') :
    Booked P Q (settle s uuid fx) uuid' := by
  unfold Booked at hbooked ⊢
  rw [lookup_settle_other h, finals_settle_other h, cdrs_settle_other h]
  exact hbooked

theorem booked_settle (hcdrs : entriesFor uuid s.cdrs = [])
    (h : InOrder P Q (entriesFor uuid s.finals) fx) : Booked P Q (settle s uuid fx) uuid := by
  have hfinals : entriesFor uuid (settle s uuid fx).finals =
      entriesFor uuid s.finals ++ finalsOf fx.toCaller := by
    rw [settle, entriesFor_append, entriesFor_self]
  have hrecords := cdrs_settle s uuid fx
  rw [hcdrs, List.nil_append] at hrecords
  unfold Booked
  rw [hfinals, hrecords]
  cases hended : fx.ended with
  | none =>
      have hlookup : (settle s uuid fx).calls.lookup uuid = some fx.after := by
        unfold settle Effects.left
        rw [if_pos hended]
        exact AList.lookup_insert _
      rw [hlookup]
      exact ⟨h.live hended, rfl⟩
  | some outcome =>
      have hlookup : (settle s uuid fx).calls.lookup uuid = none := by
        unfold settle Effects.left
        rw [if_neg (by rw [hended]; exact Option.some_ne_none _)]
        exact AList.lookup_erase _ _
      rw [hlookup]
      exact ⟨_, rfl, h.done outcome hended⟩

end Settle

variable {cfg : Config}

theorem ledger_new : Ledger P Q .new :=
  ⟨fun _ huuid => absurd huuid List.not_mem_nil, fun _ _ => ⟨rfl, rfl, rfl⟩⟩

theorem Ledger.invite {n : NewCall} {setup : Setup} (h : Ledger P Q s)
    (hfresh : callUuid n.draw ∉ s.created) (hfx : InOrder P Q [] (setUp cfg n setup)) :
    Ledger P Q (step cfg s (.invite n setup)) := by
  obtain ⟨hlookup, hfinals, hcdrs⟩ := h.blank _ hfresh
  constructor
  · intro uuid huuid
    rcases List.mem_append.mp huuid with hold | hnew
    · exact booked_settle_other (fun heq => hfresh (heq ▸ hold)) (h.booked uuid hold)
    · rw [List.mem_singleton.mp hnew]
      exact booked_settle hcdrs (hfinals.symm ▸ hfx)
  · intro uuid huuid
    obtain ⟨hold, hnew⟩ := not_or.mp fun hor => huuid (List.mem_append.mpr hor)
    have hne : callUuid n.draw ≠ uuid := fun heq => hnew (heq ▸ List.mem_singleton_self _)
    exact ⟨(lookup_settle_other hne).trans (h.blank uuid hold).1,
      (finals_settle_other hne).trans (h.blank uuid hold).2.1,
      (cdrs_settle_other hne).trans (h.blank uuid hold).2.2⟩

theorem Ledger.event {uuid : List Char} {event : CallEvent} (h : Ledger P Q s)
    (hfx : ∀ call ∈ s.calls.lookup uuid, P call (entriesFor uuid s.finals) →
      InOrder P Q (entriesFor uuid s.finals) (onEvent cfg call event)) :
    Ledger P Q (step cfg s (.event uuid event)) := by
  rw [CallLedger.step]
  split
  next => exact h
  next call hlookup =>
    have hcreated : uuid ∈ s.created := by
      by_contra hnew
      cases hlookup.symm.trans (h.blank uuid hnew).1
    have hbooked := h.booked uuid hcreated
    unfold Booked at hbooked
    rw [hlookup] at hbooked
    constructor
    · intro other hother
      by_cases heq : uuid = other
      · rw [← heq]
        exact booked_settle hbooked.2 (hfx call hlookup hbooked.1)
      · exact booked_settle_other heq (h.booked other hother)
    · intro other hother
      have hne : uuid ≠ other := fun heq => hother (heq ▸ hcreated)
      exact ⟨(lookup_settle_other hne).trans (h.blank other hother).1,
        (finals_settle_other hne).trans (h.blank other hother).2.1,
        (cdrs_settle_other hne).trans (h.blank other hother).2.2⟩

/-- No uuid is drawn twice, and every INVITE and every event meets its condition. -/
def Allowed (D : NewCall → Setup → Prop) (C : SetupCall → List UInt16 → CallEvent → Prop) (s : Sbc) :
    Happening → Prop
  | .invite n setup => callUuid n.draw ∉ s.created ∧ D n setup
  | .event uuid event => ∀ call ∈ s.calls.lookup uuid, C call (entriesFor uuid s.finals) event

/-- The rule for a whole run. -/
theorem ledger_run {D : NewCall → Setup → Prop} {C : SetupCall → List UInt16 → CallEvent → Prop}
    (hinvite : ∀ n setup, D n setup → InOrder P Q [] (setUp cfg n setup))
    (hevent : ∀ call finals event, P call finals → C call finals event →
      InOrder P Q finals (onEvent cfg call event)) {happenings : List Happening}
    (h : Throughout (step cfg) (Allowed D C) .new happenings) : Ledger P Q (run cfg happenings) := by
  refine invariant_run (fun s happening hledger hallowed => ?_) ledger_new h
  cases happening with
  | invite n setup => exact hledger.invite hallowed.1 (hinvite n setup hallowed.2)
  | event uuid event =>
      exact hledger.event fun call hcall hP => hevent call _ event hP (hallowed call hcall)

end Rule

end NixiSbc.CallLedger

import NixiSbc.ClientTxSchedule
import NixiSbc.FailoverSteps
import NixiSbc.LateAnswers

namespace NixiSbc.FailedFailovers

open Stun RawSip TextFields CallSetup InviteTexts InviteRetries RetrySteps FailoverSteps
open CallerFinals (bareConfig host idleScene aliceCall)
open ClientTx (Cache key recordSent)
open Trunks (TrunkId)

/-- A call with the name of its trunk, beside the requests that are
retransmitted. -/
structure Placed where
  call : SetupCall
  trunkName : Option (List Char)
  requests : Cache

/-- What the network does with the messages of a failover: it takes the n-th
CANCEL or does not, and a request that it has taken is kept at a time that may
depend on how many follow. -/
structure Network where
  takes : Nat → Bool
  clock : Nat → Nat

/-- The messages that the network takes. -/
def delivered (takes : Nat → Bool) : Nat → List Sent → List Sent
  | _, [] => []
  | n, m :: rest =>
      match m.kind with
      | .cancel => if takes n then m :: delivered takes (n + 1) rest else delivered takes (n + 1) rest
      | .invite _ _ taken => if taken then m :: delivered takes n rest else delivered takes n rest
      | _ => m :: delivered takes n rest

def whatOf (m : Sent) : List Char :=
  if m.kind = .cancel then "CANCEL (failover) → previous attempt".toList else "INVITE (failover) → trunk".toList

section

variable (cfg : Config)

/-- Every request that goes out is kept for retransmission. -/
def recordAll (clock : Nat → Nat) : Cache → List Sent → Cache
  | cache, [] => cache
  | cache, m :: rest =>
      recordAll clock
        (recordSent cfg.lower cache (clock rest.length) (whatOf m) (Utf8.encode m.raw) m.dest m.transport m.replyTx).2 rest

/-- `failover_to_next_trunk` with what it sends: its result, the messages that
went out, and what it leaves. The name of the trunk is the one that is counted. -/
def failover (look : Nat → Scene) (net : Network) (s : Placed) : Bool × List Sent × Placed :=
  let r := failoverToNextTrunk cfg look s.call
  let out := delivered net.takes 0 r.2.2
  (r.1, out, ⟨r.2.1, if r.1 then r.2.1.trunkCounted else s.trunkName, recordAll cfg net.clock s.requests out⟩)

/-- The candidates that a failover may take. -/
def openCandidates (call : SetupCall) : List TrunkId :=
  match call.failover with
  | none => []
  | some fo => if fo.provisionalReceived then [] else fo.candidates

/-- An INVITE that can be written for another trunk. -/
def readable (stored : List Char) : Bool :=
  (splitCrlf stored).head?.any fun first => (dialledUser first).isSome

/-- How often an INVITE that cannot be brought out is tried: with each candidate
that can take the call, or with the first one only. -/
def tries (look : Nat → Scene) (again : Bool) : List TrunkId → Nat
  | [] => 0
  | id :: rest =>
      let scene := look (rest.length + 1)
      if selectable cfg scene id = none then tries look again rest
      else if again && !scene.taken then tries look again rest + 1
      else 1

/-- The tries before which the live attempt is cancelled: all of them, when a
CANCEL can be written and has somewhere to go. -/
def cancels (look : Nat → Scene) (call : SetupCall) (ids : List TrunkId) : Nat :=
  match call.originalOutboundInvite.filter (· ≠ []) with
  | none => 0
  | some stored =>
      if (buildCancel cfg.lower stored).isSome ∧ call.calleeDest.isSome then tries cfg look (readable stored) ids else 0

end

/-- The live attempt goes on as it was: it is not cancelled and still
retransmitted, and the call has no other trunk, attempt or budget. -/
structure Alone (s : Placed) (out : List Sent) (after : Placed) : Prop where
  cancels : ∀ m ∈ out, m.kind ≠ .cancel
  entry : ∀ live, s.call.inviteAttempts.getLast? = some live → ∀ branch, live.branch = some branch →
    after.requests.lookup (key branch "INVITE".toList) = s.requests.lookup (key branch "INVITE".toList)
  dest : after.call.calleeDest = s.call.calleeDest
  trunkName : after.trunkName = s.trunkName
  counted : after.call.trunkCounted = s.call.trunkCounted
  attempts : after.call.inviteAttempts = s.call.inviteAttempts
  auth : after.call.authRetryCount = s.call.authRetryCount
  interval : after.call.sessionTimerRetryCount = s.call.sessionTimerRetryCount

section Sends

variable {cfg : Config} {look : Nat → Scene} {call : SetupCall}

def cancelCount (sent : List Sent) : Nat := sent.countP fun m => m.kind = .cancel

/-- A CANCEL, or an INVITE that does not go out. -/
def Futile (m : Sent) : Prop := m.kind = .cancel ∨ ∃ trunk, m.kind = .invite .failover trunk false

theorem delivered_futile {takes : Nat → Bool} {sent : List Sent} (h : ∀ m ∈ sent, Futile m) (n : Nat) :
    (∀ m ∈ delivered takes n sent, m.kind = .cancel) ∧
    (delivered takes n sent = [] ↔ ∀ i < cancelCount sent, takes (n + i) = false) := by
  induction sent generalizing n with
  | nil => exact ⟨fun _ hm => absurd hm List.not_mem_nil, fun _ i hi => absurd hi (Nat.not_lt_zero i), fun _ => rfl⟩
  | cons m rest ih =>
      have hrest := ih fun m' hm' => h m' (List.mem_cons_of_mem _ hm')
      rcases h m List.mem_cons_self with hcancel | ⟨trunk, hinvite⟩
      · have hcount : cancelCount (m :: rest) = cancelCount rest + 1 := List.countP_cons_of_pos (decide_eq_true hcancel)
        have hnext : delivered takes n (m :: rest) =
            if takes n then m :: delivered takes (n + 1) rest else delivered takes (n + 1) rest := by
          rw [delivered, hcancel]
        rw [hcount, hnext]
        cases htakes : takes n with
        | true =>
            refine ⟨List.forall_mem_cons.mpr ⟨hcancel, (hrest (n + 1)).1⟩, nofun, fun hnone => ?_⟩
            cases htakes.symm.trans (hnone 0 (Nat.succ_pos _))
        | false =>
            refine ⟨(hrest (n + 1)).1, (hrest (n + 1)).2.trans ?_⟩
            constructor
            · intro hnone i hi
              cases i with
              | zero => exact htakes
              | succ i =>
                  rw [← Nat.add_assoc, Nat.add_right_comm]
                  exact hnone i (Nat.lt_of_succ_lt_succ hi)
            · intro hnone i hi
              rw [Nat.add_right_comm, Nat.add_assoc]
              exact hnone (i + 1) (Nat.succ_lt_succ hi)
      · have hcount : cancelCount (m :: rest) = cancelCount rest := by
          apply List.countP_cons_of_neg
          simp [hinvite]
        have hnext : delivered takes n (m :: rest) = delivered takes n rest := by
          rw [delivered, hinvite]
          rfl
        rw [hcount, hnext]
        exact hrest n

theorem cancelCount_append (sent sent' : List Sent) :
    cancelCount (sent ++ sent') = cancelCount sent + cancelCount sent' := List.countP_append

/-- Taking a candidate consumes it, and does nothing else. -/
theorem open_take {now : Nat} {id : TrunkId} {after : SetupCall}
    (h : takeNextFailoverCandidate call now = some (id, after)) :
    openCandidates call = id :: openCandidates after ∧ candidatesLeft call.toB2buaCall = (openCandidates after).length + 1 ∧
      after = { call with failover := after.failover } := by
  obtain ⟨fo, rest, hfo, hcandidates, hafter⟩ := take_cases h
  have hopen := open_of_take h
  rw [hfo, Option.any_some, Bool.not_eq_true'] at hopen
  have hrest : openCandidates after = rest := by
    rw [hafter]
    simp [openCandidates, hopen]
  have hfirst : openCandidates call = id :: rest := by
    simp [openCandidates, hfo, hopen, hcandidates]
  refine ⟨?_, ?_, ?_⟩
  · rw [hfirst, hrest]
  · simp [hrest, candidatesLeft, hfo, hcandidates]
  · rw [hafter]

theorem open_none {now : Nat} (h : takeNextFailoverCandidate call now = none) : openCandidates call = [] := by
  cases hfo : call.failover with
  | none => simp [openCandidates, hfo]
  | some fo =>
      cases hprovisional : fo.provisionalReceived with
      | true => simp [openCandidates, hfo, hprovisional]
      | false =>
          cases hcandidates : fo.candidates with
          | nil => simp [openCandidates, hfo, hcandidates]
          | cons next rest => simp [takeNextFailoverCandidate, hfo, hprovisional, hcandidates] at h

theorem cancels_consumed (ids : List TrunkId) {after : SetupCall} (h : after = { call with failover := after.failover }) :
    cancels cfg look after ids = cancels cfg look call ids := by
  rw [h]
  rfl

theorem cancelPrevious_cases (call : SetupCall) (stored : List Char) :
    (∀ m ∈ cancelPrevious cfg call stored, Futile m) ∧
    cancelCount (cancelPrevious cfg call stored) =
      if (buildCancel cfg.lower stored).isSome ∧ call.calleeDest.isSome then 1 else 0 := by
  unfold cancelPrevious
  cases buildCancel cfg.lower stored with
  | none => exact ⟨fun _ hm => absurd hm List.not_mem_nil, rfl⟩
  | some cancel =>
      cases call.calleeDest with
      | none => exact ⟨fun _ hm => absurd hm List.not_mem_nil, rfl⟩
      | some dest => exact ⟨List.forall_mem_singleton.mpr (.inl rfl), rfl⟩

theorem retarget_isSome (fresh stored : List Char) (t : Trunks.TrunkConfig) :
    (retargetInviteForTrunk cfg.lower fresh stored t).isSome = readable stored := by
  unfold retargetInviteForTrunk readable
  cases splitCrlf stored with
  | nil => rfl
  | cons first rest => exact Option.isSome_map

theorem cancels_passed {id : TrunkId} {rest : List TrunkId} (h : selectable cfg (look (rest.length + 1)) id = none) :
    cancels cfg look call (id :: rest) = cancels cfg look call rest := by
  have htries (again : Bool) : tries cfg look again (id :: rest) = tries cfg look again rest := if_pos h
  simp only [cancels, htries]

theorem cancels_tried {id : TrunkId} {rest : List TrunkId} (h : selectable cfg (look (rest.length + 1)) id ≠ none)
    {stored : List Char} (hstored : call.originalOutboundInvite.filter (· ≠ []) = some stored) :
    cancels cfg look call (id :: rest) =
      if readable stored && !(look (rest.length + 1)).taken then
        (if (buildCancel cfg.lower stored).isSome ∧ call.calleeDest.isSome then 1 else 0) + cancels cfg look call rest
      else if (buildCancel cfg.lower stored).isSome ∧ call.calleeDest.isSome then 1 else 0 := by
  have htries : tries cfg look (readable stored) (id :: rest) =
      if readable stored && !(look (rest.length + 1)).taken then tries cfg look (readable stored) rest + 1 else 1 :=
    if_neg h
  simp only [cancels, hstored, htries]
  split
  next => split <;> omega
  next => split <;> rfl

/-- A failover that fails has cancelled the live attempt before each of its
tries, and leaves the call without the candidates that it took. -/
theorem refused_within {n : Nat} {r : Retried} (h : failoverWithin cfg look n call = some r) (hfails : r.1 = false) :
    (∀ m ∈ r.2.2, Futile m) ∧ cancelCount r.2.2 = cancels cfg look call (openCandidates call) ∧
      r.2.1 = { call with failover := r.2.1.failover } := by
  induction n generalizing call r with
  | zero => cases h
  | succ n ih =>
      rw [failoverWithin] at h
      split at h
      next htake =>
        cases h
        refine ⟨fun _ hm => absurd hm List.not_mem_nil, ?_, rfl⟩
        rw [open_none htake, cancels]
        split
        next => rfl
        next => split <;> rfl
      next id after htake =>
        obtain ⟨hopen, hleft, hafter⟩ := open_take htake
        rw [hleft] at h
        rw [hopen]
        have hsame (ids : List TrunkId) : cancels cfg look after ids = cancels cfg look call ids :=
          cancels_consumed ids hafter
        have hrest {after' : SetupCall} (heq : after' = { after with failover := after'.failover }) :
            after' = { call with failover := after'.failover } := by
          rw [heq, hafter]
        split at h
        next hselectable =>
          obtain ⟨hfutile, hcount, heq⟩ := ih h hfails
          refine ⟨hfutile, ?_, hrest heq⟩
          rw [hcount, hsame, cancels_passed hselectable]
        next trunk dest hselectable =>
          have hselected := Option.ne_none_iff_exists'.mpr ⟨_, hselectable⟩
          split at h
          next hstored =>
            cases h
            refine ⟨fun _ hm => absurd hm List.not_mem_nil, ?_, hafter⟩
            have hnone : call.originalOutboundInvite.filter (· ≠ []) = none := by
              rw [hafter] at hstored
              exact hstored
            rw [cancels, hnone]
            rfl
          next stored hstored =>
            have hsome : call.originalOutboundInvite.filter (· ≠ []) = some stored := by
              rw [hafter] at hstored
              exact hstored
            have hdest : after.calleeDest = call.calleeDest := by rw [hafter]
            obtain ⟨hfutile, hcount⟩ : (∀ m ∈ cancelPrevious cfg after stored, Futile m) ∧ _ :=
              cancelPrevious_cases after stored
            have hreadable : (retargetInviteForTrunk cfg.lower
                (newBranch (look ((openCandidates after).length + 1)).draw) stored trunk.toTrunkConfig).isSome =
                readable stored := retarget_isSome _ stored trunk.toTrunkConfig
            rw [hdest] at hcount
            rw [cancels_tried hselected hsome]
            split at h
            next hretarget =>
              cases h
              rw [hretarget] at hreadable
              rw [← hreadable]
              exact ⟨hfutile, hcount, hafter⟩
            next invite hretarget =>
              rw [hretarget] at hreadable
              rw [← hreadable]
              dsimp only at h
              split at h
              next htaken =>
                cases h
                cases hfails
              next htaken =>
                obtain ⟨r', hr', rfl⟩ := Option.map_eq_some_iff.mp h
                obtain ⟨hfutile', hcount', heq⟩ := ih hr' hfails
                rw [Bool.eq_false_of_not_eq_true htaken]
                refine ⟨?_, ?_, hrest heq⟩
                · rw [List.forall_mem_append]
                  exact ⟨hfutile, List.forall_mem_cons.mpr ⟨.inr ⟨_, rfl⟩, hfutile'⟩⟩
                · have hnot : cancelCount (⟨⟨invite, dest, trunk.transport, none⟩,
                      .invite .failover (some trunk.id) false⟩ :: r'.2.2) = cancelCount r'.2.2 := by
                    apply List.countP_cons_of_neg
                    simp
                  rw [cancelCount_append, hnot, hcount, hcount', hsame]
                  rfl

end Sends

/-- A failover that returns false leaves the live attempt alone exactly where
the network takes none of the CANCELs that come before its tries. -/
theorem failed_failover_alone_iff (cfg : Config) (look : Nat → Scene) (net : Network) (s : Placed)
    (h : (failover cfg look net s).1 = false) :
    Alone s (failover cfg look net s).2.1 (failover cfg look net s).2.2 ↔
      ∀ i < cancels cfg look s.call (openCandidates s.call), net.takes i = false := by
  have hwithin : failoverWithin cfg look (candidatesLeft s.call.toB2buaCall + 1) s.call =
      some (failoverToNextTrunk cfg look s.call) := failoverWithin_eq (Nat.lt_succ_self _)
  obtain ⟨hfutile, hcount, hafter⟩ := refused_within hwithin h
  obtain ⟨hcancels, hnone⟩ := delivered_futile hfutile 0
  simp only [hcount, Nat.zero_add] at hnone
  rw [← hnone]
  constructor
  · intro halone
    apply List.eq_nil_iff_forall_not_mem.mpr
    intro m hm
    exact halone.cancels m hm (hcancels m hm)
  · intro hempty
    have hout : (failover cfg look net s).2.1 = [] := hempty
    have hplaced : (failover cfg look net s).2.2 =
        ⟨{ s.call with failover := (failoverToNextTrunk cfg look s.call).2.1.failover }, s.trunkName, s.requests⟩ := by
      have hfails : (failoverToNextTrunk cfg look s.call).1 = false := h
      simp only [failover, hempty, hfails]
      rw [← hafter]
      rfl
    rw [hout, hplaced]
    exact ⟨fun _ hm => absurd hm List.not_mem_nil, fun _ _ _ _ => rfl, rfl, rfl, rfl, rfl, rfl, rfl⟩

section Sample

def callOverTrunk : List Char :=
  "INVITE sip:b@h SIP/2.0\r\n".toList ++ "Via: SIP/2.0/UDP h;branch=z9hG4bKa\r\n".toList ++
    "From: <sip:a@h>;tag=g\r\n".toList ++ "To: <sip:b@h>\r\n".toList ++ "Call-ID: i\r\n".toList ++
    "CSeq: 1 INVITE\r\n\r\n".toList

/-- A call over the first trunk, with a second one to go to. -/
def placedCall : Placed :=
  ⟨CallHandlers.recorded bareConfig 0 aliceCall (.trunk (LateAnswers.trunkAt 1 4) (host 4) [2]) callOverTrunk ['l'],
    some ['t'], ∅⟩

def openNetwork : Network := ⟨fun _ => true, fun _ => 0⟩

/-- The second trunk is gone. -/
theorem failed_failover_alone_gone :
    Alone placedCall (failover bareConfig (fun _ => idleScene) openNetwork placedCall).2.1
      (failover bareConfig (fun _ => idleScene) openNetwork placedCall).2.2 := by
  apply (failed_failover_alone_iff bareConfig (fun _ => idleScene) openNetwork placedCall (by decide)).mpr
  decide +kernel

/-- The second trunk cannot be reached: the first attempt is cancelled for nothing. -/
theorem failed_failover_cancels :
    (failover bareConfig (fun _ => { LateAnswers.backupScene with taken := false }) openNetwork placedCall).1 = false ∧
      ¬ Alone placedCall
        (failover bareConfig (fun _ => { LateAnswers.backupScene with taken := false }) openNetwork placedCall).2.1
        (failover bareConfig (fun _ => { LateAnswers.backupScene with taken := false }) openNetwork placedCall).2.2 := by
  have hcancel : ((failover bareConfig (fun _ => { LateAnswers.backupScene with taken := false }) openNetwork
      placedCall).2.1.any fun m => m.kind = .cancel) = true := by decide +kernel
  refine ⟨by decide +kernel, fun halone => ?_⟩
  obtain ⟨m, hm, hkind⟩ := List.any_eq_true.mp hcancel
  exact halone.cancels m hm (of_decide_eq_true hkind)

end Sample

end NixiSbc.FailedFailovers

import NixiSbc.FailoverSteps

namespace NixiSbc.AttemptBound

open Stun CallSetup InviteRetries ResponseHandler CallHandlers RetrySteps FailoverSteps
open B2bua (Transport InviteAttempt)
open Trunks (TrunkId)

/-- The trunk of an INVITE that a failover sent. -/
def failedOverTo (s : Sent) : Option TrunkId :=
  match s.kind with
  | .invite .failover trunk _ => trunk
  | _ => none

def inviteCount (sent : List Sent) : Nat := sent.countP isInvite

/-- How many INVITEs may still follow. A candidate is worth four: the failover
itself, a retry after a 407, one after a 422, and then one more after a 407. -/
def budget (call : SetupCall) : Nat :=
  4 * (candidatesOf call.toB2buaCall).length + (if call.sessionTimerRetryCount = 0 then 2 else 0) +
    (if call.authRetryCount = 0 then 1 else 0)

/-- The budget and the candidates of a call that may have ended. -/
def budgetLeft (call : Option SetupCall) : Nat := call.elim 0 budget

def untried (call : Option SetupCall) : List TrunkId := call.elim [] fun c => candidatesOf c.toB2buaCall

/-- What is sent is paid for, and the candidates that are tried come off the
front of the list. -/
structure Spends (call : SetupCall) (after : Option SetupCall) (sent : List Sent) : Prop where
  paid : inviteCount sent + budgetLeft after ≤ budget call
  ordered : (sent.filterMap failedOverTo ++ untried after).Sublist (candidatesOf call.toB2buaCall)

theorem Spends.trans {a b : SetupCall} {c : Option SetupCall} {sent sent' : List Sent}
    (h : Spends a (some b) sent) (h' : Spends b c sent') : Spends a c (sent ++ sent') := by
  constructor
  · have hab := h.paid
    have hbc := h'.paid
    rw [budgetLeft, Option.elim_some] at hab
    rw [inviteCount, List.countP_append]
    unfold inviteCount at hab hbc
    omega
  · rw [List.filterMap_append, List.append_assoc]
    exact (h'.ordered.append_left _).trans h.ordered

theorem Spends.ended {a : SetupCall} {b : Option SetupCall} {sent : List Sent} (h : Spends a b sent) :
    Spends a none sent := by
  constructor
  · exact Nat.le_trans (Nat.add_le_add_left (Nat.zero_le _) _) h.paid
  · exact (List.sublist_append_left _ _).trans (by simpa [untried] using h.ordered)

theorem count_of_noInvites {sent : List Sent} (h : NoInvites sent) : inviteCount sent = 0 :=
  List.countP_eq_zero.mpr fun s hs hinvite => by rw [h s hs] at hinvite; cases hinvite

theorem failovers_of_noInvites {sent : List Sent} (h : NoInvites sent) :
    sent.filterMap failedOverTo = [] := by
  rw [List.filterMap_eq_nil_iff]
  intro s hs
  have hno := h s hs
  unfold isInvite at hno
  unfold failedOverTo
  split
  next heq => rw [heq] at hno; cases hno
  next => rfl

/-- A call with the same attempts has the same budget. -/
theorem spends_same {call after : SetupCall} (h : SameAttempts call after) {sent : List Sent}
    (hsent : NoInvites sent) : Spends call (some after) sent := by
  constructor
  · rw [count_of_noInvites hsent, budgetLeft, Option.elim_some, budget, budget, h.candidates, h.interval,
      h.auth, Nat.zero_add]
  · rw [failovers_of_noInvites hsent, untried, Option.elim_some, h.candidates]
    exact List.Sublist.refl _

section Retries

variable {cfg : Config} {call : SetupCall}

/-- Taking a candidate sets four sends free. -/
theorem budget_take {now : Nat} {id : TrunkId} {after : SetupCall}
    (h : takeNextFailoverCandidate call now = some (id, after)) : budget call = budget after + 4 := by
  have hcandidates := candidates_take h
  obtain ⟨fo, rest, hfo, -, rfl⟩ := take_cases h
  unfold budget
  rw [hcandidates, List.length_cons]
  dsimp only
  omega

variable (cfg call) in
theorem candidates_push (now : Nat) (raw : List Char) (dest : SocketAddr)
    (transport : Transport) (trunkId : Option TrunkId) :
    candidatesOf (pushAttempt cfg call now raw dest transport trunkId).toB2buaCall =
      candidatesOf call.toB2buaCall := by
  change (Option.map _ call.failover).elim [] _ = call.failover.elim [] _
  cases call.failover with
  | none => rfl
  | some fo => rfl

variable (cfg call) in
theorem budget_push (now : Nat) (raw : List Char) (dest : SocketAddr) (transport : Transport)
    (trunkId : Option TrunkId) :
    budget (pushAttempt cfg call now raw dest transport trunkId) = budget call := by
  rw [budget, candidates_push]
  rfl

theorem spends_take {now : Nat} {id : TrunkId} {after : SetupCall} {final : Option SetupCall}
    {sent : List Sent} (htake : takeNextFailoverCandidate call now = some (id, after))
    (h : Spends after final sent) : Spends call final sent := by
  constructor
  · have hpaid := h.paid
    have htaken := budget_take htake
    omega
  · rw [candidates_take htake]
    exact h.ordered.trans (List.sublist_cons_self _ _)

/-- The INVITE of a failover costs one of the four. -/
theorem spends_failover_send {now : Nat} {id : TrunkId} {after : SetupCall} {final : Option SetupCall}
    {sent : List Sent} {s : Sent} {taken : Bool}
    (htake : takeNextFailoverCandidate call now = some (id, after))
    (hs : s.kind = .invite .failover (some id) taken)
    (hpaid : inviteCount sent + budgetLeft final ≤ budget after + 3)
    (hordered : (sent.filterMap failedOverTo ++ untried final).Sublist (candidatesOf after.toB2buaCall)) :
    Spends call final (s :: sent) := by
  have hinvite : isInvite s = true := by simp only [isInvite, hs]
  have hfailed : failedOverTo s = some id := by simp only [failedOverTo, hs]
  constructor
  · have htaken := budget_take htake
    rw [inviteCount, List.countP_cons_of_pos hinvite]
    unfold inviteCount at hpaid
    omega
  · rw [List.filterMap_cons_some hfailed, List.cons_append, candidates_take htake]
    exact hordered.cons_cons id

theorem budget_le_switch (now : Nat) (raw : List Char) (trunk : OutboundTrunk) (dest : SocketAddr) :
    budget (switchTrunk cfg call now raw trunk dest) ≤ budget call + 3 := by
  have hcandidates : candidatesOf (switchTrunk cfg call now raw trunk dest).toB2buaCall =
      candidatesOf call.toB2buaCall :=
    candidates_push cfg call now raw dest trunk.transport (some trunk.id)
  unfold budget
  rw [hcandidates]
  change 4 * _ + 2 + 1 ≤ _
  omega

/-- However many trunks a failover tries, it spends what it sends. -/
theorem spends_failsOver {look : Nat → Scene} {r : Retried} (h : FailsOver cfg look call r) :
    Spends call (some r.2.1) r.2.2 := by
  induction h with
  | exhausted htake => exact spends_same (SameAttempts.refl _) noInvites_nil
  | passed htake hselectable hrest ih => exact spends_take htake ih
  | unstored htake => exact spends_take htake (spends_same (SameAttempts.refl _) noInvites_nil)
  | unreadable htake => exact spends_take htake (spends_same (SameAttempts.refl _) (noInvites_cancel _))
  | @taken call after trunk dest stored invite htake =>
      -- the CANCEL costs nothing, the INVITE one
      have hfree : Spends call (some call) (cancelPrevious cfg after stored) :=
        spends_same (SameAttempts.refl call) (noInvites_cancel stored)
      refine hfree.trans (spends_failover_send htake rfl ?_ ?_)
      · rw [count_of_noInvites noInvites_nil, Nat.zero_add]
        exact budget_le_switch _ invite trunk dest
      · have hsame := candidates_push cfg after
          (look (candidatesLeft call.toB2buaCall)).now invite dest trunk.transport (some trunk.id)
        exact hsame ▸ List.Sublist.refl _
  | @untaken call after trunk dest stored invite r htake hselectable hstored hinvite hrest ih =>
      have hfree : Spends call (some call) (cancelPrevious cfg after stored) :=
        spends_same (SameAttempts.refl call) (noInvites_cancel stored)
      refine hfree.trans (spends_failover_send htake rfl ?_ ih.ordered)
      exact Nat.le_trans ih.paid (Nat.le_add_right _ 3)

variable (cfg call) in
theorem spends_failover (look : Nat → Scene) :
    Spends call (some (failoverToNextTrunk cfg look call).2.1) (failoverToNextTrunk cfg look call).2.2 :=
  spends_failsOver (failsOver_nextTrunk cfg call look)

/-- An INVITE of another origin takes no candidate. -/
theorem spends_invite {after : Option SetupCall} {s : Sent} {origin : Origin} {trunk : Option TrunkId}
    {taken : Bool} (hs : s.kind = .invite origin trunk taken) (horigin : origin ≠ .failover)
    (hcandidates : (untried after).Sublist (candidatesOf call.toB2buaCall))
    (hbudget : budgetLeft after < budget call) : Spends call after [s] := by
  have hinvite : isInvite s = true := by simp only [isInvite, hs]
  have hfailed : failedOverTo s = none := by
    cases origin with
    | failover => exact absurd rfl horigin
    | first => simp only [failedOverTo, hs]
    | auth => simp only [failedOverTo, hs]
    | interval => simp only [failedOverTo, hs]
  constructor
  · rw [inviteCount, List.countP_cons_of_pos hinvite, List.countP_nil]
    omega
  · rw [List.filterMap_cons_none hfailed, List.filterMap_nil, List.nil_append]
    exact hcandidates

theorem interval_budget {scene : Scene} {response : List Char} {offer : InviteAttempt × List Char}
    (h : intervalOffer cfg scene call response = some offer) : call.sessionTimerRetryCount = 0 := by
  unfold intervalOffer at h
  simp only [Option.bind_eq_bind, Option.bind_eq_some_iff] at h
  obtain ⟨_, -, attempt, -, hif⟩ := h
  split at hif
  next => cases hif
  next hno =>
    have hless : ¬ call.sessionTimerRetryCount ≥ 1 := fun hge => hno (.inr hge)
    exact UInt32.toNat_inj.mp (by simpa [UInt32.le_iff_toNat_le] using hless)

theorem auth_budget {scene : Scene} {response : List Char} {found : OutboundTrunk × List Char × List Char}
    (h : authorize cfg scene call response = some found) : call.authRetryCount = 0 := by
  unfold authorize at h
  simp only [Option.bind_eq_bind, Option.bind_eq_some_iff] at h
  obtain ⟨_, -, _, -, hif⟩ := h
  split at hif
  next => cases hif
  next hno =>
    have hless : ¬ call.authRetryCount ≥ 1 := fun hge => hno (.inl hge)
    exact UInt32.toNat_inj.mp (by simpa [UInt32.le_iff_toNat_le] using hless)

/-- A retry after a 422 gives up its own budget for a new one after a 407. -/
theorem spends_422 (scene : Scene) (response : List Char) (source : SocketAddr) :
    Spends call (keptOn (handle422SessionIntervalRetry cfg scene call response source))
      (handle422SessionIntervalRetry cfg scene call response source).2.2 := by
  unfold handle422SessionIntervalRetry
  split
  next => exact (spends_same (SameAttempts.refl call) noInvites_nil).ended
  next attempt invite hoffer =>
    have hunused := interval_budget hoffer
    dsimp only
    split
    next =>
      refine spends_invite rfl (by decide) ?_ ?_
      · change (candidatesOf (pushAttempt cfg _ _ _ _ _ _).toB2buaCall).Sublist _
        rw [candidates_push]
      · change budget (pushAttempt cfg _ _ _ _ _ _) < _
        rw [budget_push, budget, budget]
        dsimp only
        rw [hunused, if_neg (by decide), if_pos rfl, if_pos rfl]
        omega
    next =>
      refine spends_invite rfl (by decide) (List.nil_sublist _) ?_
      change 0 < _
      rw [budget, hunused, if_pos rfl]
      omega

theorem spends_407 (scene : Scene) (response : List Char) (source : SocketAddr) :
    Spends call (keptOn (handle407AuthRetry cfg scene call response source))
      (handle407AuthRetry cfg scene call response source).2.2 := by
  unfold handle407AuthRetry
  split
  next => exact (spends_same (SameAttempts.refl call) noInvites_nil).ended
  next trunk value original hfound =>
    have hunused := auth_budget hfound
    dsimp only
    split
    next =>
      refine spends_invite rfl (by decide) ?_ ?_
      · change (candidatesOf (pushAttempt cfg _ _ _ _ _ _).toB2buaCall).Sublist _
        rw [candidates_push]
      · change budget (pushAttempt cfg _ _ _ _ _ _) < _
        rw [budget_push, budget, budget]
        dsimp only
        rw [hunused, if_neg (by decide : ¬ (0 + 1 : UInt32) = 0), if_pos (rfl : (0 : UInt32) = 0)]
        omega
    next =>
      refine spends_invite rfl (by decide) (List.nil_sublist _) ?_
      change 0 < _
      rw [budget, hunused, if_pos rfl]
      omega

end Retries

variable (cfg : Config) in
/-- Whatever happens to a call, it spends what it sends. -/
theorem spends_onEvent (call : SetupCall) (event : CallEvent) :
    Spends call (onEvent cfg call event).left (onEvent cfg call event).sent := by
  have hresends := resends_onEvent cfg call event
  generalize (onEvent cfg call event).left = left at hresends ⊢
  generalize (onEvent cfg call event).sent = sent at hresends ⊢
  cases hresends with
  | quiet hsame hleft hsent =>
      have h := spends_same hsame hsent
      rcases hleft with rfl | rfl
      · exact h
      · exact h.ended
  | auth _ _ hsame hacks => exact (spends_same hsame hacks).trans (spends_407 _ _ _)
  | interval _ _ hsame hacks => exact (spends_same hsame hacks).trans (spends_422 _ _ _)
  | failover look _ hsame hacks hleft =>
      have h := (spends_same hsame hacks).trans (spends_failover cfg _ look)
      rcases hleft with rfl | rfl
      · exact h
      · exact h.ended

section Runs

variable (cfg : Config)

/-- A call, while it is in the map, with all that was ever sent for it. -/
structure Attempts where
  live : Option SetupCall
  sent : List Sent

/-- The call right after its INVITE was routed to a trunk. -/
def begin_ (look : Nat → Scene) (n : NewCall) (route : Route) (raw localTag : List Char) : Attempts :=
  let fx := forwardInvite cfg look n route raw localTag
  ⟨fx.left, fx.sent⟩

def step (s : Attempts) (event : CallEvent) : Attempts :=
  match s.live with
  | none => s
  | some call =>
      let fx := onEvent cfg call event
      ⟨fx.left, s.sent ++ fx.sent⟩

def run (s : Attempts) (events : List CallEvent) : Attempts := events.foldl (step cfg) s

/-- The calls that the events of a run find, each with its event. -/
def met (s : Attempts) : List CallEvent → List (SetupCall × CallEvent)
  | [] => []
  | event :: events => (s.live.toList.map fun call => (call, event)) ++ met (step cfg s event) events

/-- So much was paid, and so much of the list was used. -/
structure Within (candidates : List TrunkId) (s : Attempts) : Prop where
  paid : inviteCount s.sent + budgetLeft s.live ≤ 4 * (candidates.length + 1)
  ordered : (s.sent.filterMap failedOverTo ++ untried s.live).Sublist candidates

theorem Within.step {candidates : List TrunkId} {s : Attempts} (h : Within candidates s)
    (event : CallEvent) : Within candidates (step cfg s event) := by
  unfold AttemptBound.step
  split
  next => exact h
  next call hlive =>
    have hspends := spends_onEvent cfg call event
    obtain ⟨hpaid, hordered⟩ := h
    rw [hlive] at hpaid hordered
    constructor
    · have hmore := hspends.paid
      dsimp only
      rw [inviteCount, List.countP_append]
      rw [budgetLeft, Option.elim_some] at hpaid
      unfold inviteCount at hmore hpaid
      omega
    · change ((s.sent ++ _).filterMap failedOverTo ++ _).Sublist candidates
      rw [List.filterMap_append, List.append_assoc]
      exact (hspends.ordered.append_left _).trans hordered

theorem Within.run {candidates : List TrunkId} {s : Attempts} (h : Within candidates s)
    (events : List CallEvent) : Within candidates (run cfg s events) := by
  induction events generalizing s with
  | nil => exact h
  | cons event events ih => exact ih (h.step cfg event)

theorem candidates_recorded (now : Nat) (n : NewCall) (t : OutboundTrunk) (dest : SocketAddr)
    (candidates : List TrunkId) (raw localTag : List Char) :
    candidatesOf (recorded cfg now n (.trunk t dest candidates) raw localTag).toB2buaCall = candidates := rfl

theorem budget_recorded (now : Nat) (n : NewCall) (t : OutboundTrunk) (dest : SocketAddr)
    (candidates : List TrunkId) (raw localTag : List Char) :
    budget (recorded cfg now n (.trunk t dest candidates) raw localTag) = 4 * candidates.length + 3 := by
  have hcall : n.call.sessionTimerRetryCount = 0 ∧ n.call.authRetryCount = 0 := by
    unfold NewCall.call
    split
    next => exact ⟨rfl, rfl⟩
    next => exact ⟨rfl, rfl⟩
  have hrouted : (routed n (.trunk t dest candidates)).sessionTimerRetryCount = 0 ∧
      (routed n (.trunk t dest candidates)).authRetryCount = 0 := hcall
  have hinterval : (recorded cfg now n (.trunk t dest candidates) raw localTag).sessionTimerRetryCount = 0 :=
    hrouted.1
  have hauth : (recorded cfg now n (.trunk t dest candidates) raw localTag).authRetryCount = 0 := hrouted.2
  rw [budget, candidates_recorded, hinterval, hauth, if_pos rfl, if_pos rfl]

theorem within_begin (look : Nat → Scene) (n : NewCall) (t : OutboundTrunk) (dest : SocketAddr)
    (candidates : List TrunkId) (raw localTag : List Char) :
    Within candidates (begin_ cfg look n (.trunk t dest candidates) raw localTag) := by
  have hbudget := budget_recorded cfg (look candidates.length).now n t dest candidates raw localTag
  have hcandidates := candidates_recorded cfg (look candidates.length).now n t dest candidates raw localTag
  have hlook : look (candidatesLeft (routed n (.trunk t dest candidates)).toB2buaCall) =
      look candidates.length := rfl
  unfold begin_ forwardInvite
  dsimp only
  rw [hlook]
  generalize recorded cfg (look candidates.length).now n (.trunk t dest candidates) raw localTag = call
    at hbudget hcandidates ⊢
  split
  next =>
    constructor
    · change 1 + budget call ≤ _
      omega
    · change (candidatesOf call.toB2buaCall).Sublist candidates
      rw [hcandidates]
  next =>
    -- the first INVITE is paid with the one above the budget
    have hspends := spends_failover cfg call look
    have hfinish {after : Option SetupCall} {s : Sent} {sent : List Sent} (h : Spends call after sent)
        (hs : s.kind = .invite .first (some t.id) (look candidates.length).taken) :
        Within candidates ⟨after, s :: sent⟩ := by
      have hinvite : isInvite s = true := by simp only [isInvite, hs]
      have hfailed : failedOverTo s = none := by simp only [failedOverTo, hs]
      constructor
      · have hpaid := h.paid
        dsimp only
        rw [inviteCount, List.countP_cons_of_pos hinvite]
        unfold inviteCount at hpaid
        omega
      · rw [List.filterMap_cons_none hfailed, ← hcandidates]
        exact h.ordered
    split
    next => exact hfinish hspends rfl
    next => exact hfinish hspends.ended rfl

/-- In every run of a call that is routed to a trunk, at most four INVITEs are
sent for each trunk of its list, the candidates are tried in order and each at
most once, and the recursion of a failover ends. -/
theorem attempts_bounded (look : Nat → Scene) (n : NewCall) (t : OutboundTrunk) (dest : SocketAddr)
    (candidates : List TrunkId) (raw localTag : List Char) (events : List CallEvent) :
    let s := run cfg (begin_ cfg look n (.trunk t dest candidates) raw localTag) events
    inviteCount s.sent ≤ 4 * (candidates.length + 1) ∧
    (s.sent.filterMap failedOverTo).Sublist candidates ∧
    (candidates.Nodup → (s.sent.filterMap failedOverTo).Nodup) ∧
    ∀ call ∈ s.live, ∀ look depth, candidatesLeft call.toB2buaCall < depth →
      failoverWithin cfg look depth call = some (failoverToNextTrunk cfg look call) := by
  intro s
  have hwithin : Within candidates s :=
    (within_begin cfg look n t dest candidates raw localTag).run cfg events
  have hordered : (s.sent.filterMap failedOverTo).Sublist candidates :=
    (List.sublist_append_left _ _).trans hwithin.ordered
  refine ⟨?_, hordered, hordered.nodup, ?_⟩
  · exact Nat.le_trans (Nat.le_add_right _ _) hwithin.paid
  · intro call _ look depth hdepth
    exact failoverWithin_eq hdepth

end Runs

end NixiSbc.AttemptBound

import NixiSbc.RetrySteps

namespace NixiSbc.FailoverSteps

open Stun CallSetup InviteTexts InviteRetries ResponseHandler CallHandlers RetrySteps
open Trunks (TrunkId)

variable {cfg : Config} {call : SetupCall}

theorem candidates_take {now : Nat} {id : TrunkId} {after : SetupCall}
    (h : takeNextFailoverCandidate call now = some (id, after)) :
    candidatesOf call.toB2buaCall = id :: candidatesOf after.toB2buaCall := by
  obtain ⟨fo, rest, hfo, hcandidates, rfl⟩ := take_cases h
  simp only [candidatesOf, hfo, Option.elim_some, hcandidates]

theorem getTrunk_of_selectable {scene : Scene} {id : TrunkId} {trunk : OutboundTrunk} {dest : SocketAddr}
    (h : selectable cfg scene id = some (trunk, dest)) : scene.trunks.getTrunk id = some trunk := by
  unfold selectable at h
  simp only [Option.bind_eq_bind, Option.bind_eq_some_iff] at h
  obtain ⟨t, ht, d, hd, st, hst, hif⟩ := h
  split at hif
  next =>
    cases hif
    exact ht
  next => cases hif

theorem selectable_id {scene : Scene} {id : TrunkId} {trunk : OutboundTrunk} {dest : SocketAddr}
    (h : selectable cfg scene id = some (trunk, dest)) : trunk.id = id :=
  scene.trunks.keyed (getTrunk_of_selectable h)

/-- What a failover does, candidate by candidate: one is passed over when it
cannot take the call, else the INVITE is written for it and sent. -/
inductive FailsOver (cfg : Config) (look : Nat → Scene) : SetupCall → Retried → Prop
  | exhausted {call : SetupCall}
      (htake : takeNextFailoverCandidate call (look (candidatesLeft call.toB2buaCall)).now = none) :
      FailsOver cfg look call (false, call, [])
  | passed {call after : SetupCall} {id : TrunkId} {r : Retried}
      (htake : takeNextFailoverCandidate call (look (candidatesLeft call.toB2buaCall)).now = some (id, after))
      (hselectable : selectable cfg (look (candidatesLeft call.toB2buaCall)) id = none)
      (hrest : FailsOver cfg look after r) : FailsOver cfg look call r
  | unstored {call after : SetupCall} {id : TrunkId}
      (htake : takeNextFailoverCandidate call (look (candidatesLeft call.toB2buaCall)).now = some (id, after)) :
      FailsOver cfg look call (false, after, [])
  | unreadable {call after : SetupCall} {id : TrunkId} {stored : List Char}
      (htake : takeNextFailoverCandidate call (look (candidatesLeft call.toB2buaCall)).now = some (id, after)) :
      FailsOver cfg look call (false, after, cancelPrevious cfg after stored)
  | taken {call after : SetupCall} {trunk : OutboundTrunk} {dest : SocketAddr} {stored invite : List Char}
      (htake : takeNextFailoverCandidate call (look (candidatesLeft call.toB2buaCall)).now =
        some (trunk.id, after))
      (hselectable : selectable cfg (look (candidatesLeft call.toB2buaCall)) trunk.id = some (trunk, dest))
      (hstored : after.originalOutboundInvite = some stored)
      (hinvite : retargetInviteForTrunk cfg.lower (newBranch (look (candidatesLeft call.toB2buaCall)).draw)
        stored trunk.toTrunkConfig = some invite) :
      FailsOver cfg look call
        (true, switchTrunk cfg after (look (candidatesLeft call.toB2buaCall)).now invite trunk dest,
          cancelPrevious cfg after stored ++
            [⟨⟨invite, dest, trunk.transport, none⟩, .invite .failover (some trunk.id) true⟩])
  | untaken {call after : SetupCall} {trunk : OutboundTrunk} {dest : SocketAddr} {stored invite : List Char}
      {r : Retried}
      (htake : takeNextFailoverCandidate call (look (candidatesLeft call.toB2buaCall)).now =
        some (trunk.id, after))
      (hselectable : selectable cfg (look (candidatesLeft call.toB2buaCall)) trunk.id = some (trunk, dest))
      (hstored : after.originalOutboundInvite = some stored)
      (hinvite : retargetInviteForTrunk cfg.lower (newBranch (look (candidatesLeft call.toB2buaCall)).draw)
        stored trunk.toTrunkConfig = some invite)
      (hrest : FailsOver cfg look after r) :
      FailsOver cfg look call
        (r.1, r.2.1, cancelPrevious cfg after stored ++
          ⟨⟨invite, dest, trunk.transport, none⟩, .invite .failover (some trunk.id) false⟩ :: r.2.2)

theorem failsOver_within {look : Nat → Scene} {n : Nat} {r : Retried}
    (h : failoverWithin cfg look n call = some r) : FailsOver cfg look call r := by
  induction n generalizing call r with
  | zero => cases h
  | succ n ih =>
      rw [failoverWithin] at h
      split at h
      next htake =>
        cases h
        exact .exhausted htake
      next nextId after htake =>
        split at h
        next hselectable => exact .passed htake hselectable (ih h)
        next trunk dest hselectable =>
          obtain rfl := selectable_id hselectable
          split at h
          next =>
            cases h
            exact .unstored htake
          next stored hfilter =>
            have hstored := (Option.filter_eq_some_iff.mp hfilter).1
            split at h
            next =>
              cases h
              exact .unreadable htake
            next invite hinvite =>
              dsimp only at h
              split at h
              next htaken =>
                cases h
                rw [htaken]
                exact .taken htake hselectable hstored hinvite
              next htaken =>
                obtain ⟨rest, hrest, rfl⟩ := Option.map_eq_some_iff.mp h
                rw [Bool.eq_false_of_not_eq_true htaken]
                exact .untaken htake hselectable hstored hinvite (ih hrest)

theorem candidatesLeft_eq : candidatesLeft call.toB2buaCall = (candidatesOf call.toB2buaCall).length := rfl

variable (cfg) in
/-- The recursion ends when its bound is above the number of candidates. -/
theorem failoverWithin_isSome (look : Nat → Scene) {n : Nat} (h : candidatesLeft call.toB2buaCall < n) :
    (failoverWithin cfg look n call).isSome = true := by
  induction n generalizing call with
  | zero => cases h
  | succ n ih =>
      rw [failoverWithin]
      split
      next => rfl
      next nextId after htake =>
        have hless : candidatesLeft after.toB2buaCall < n := by
          rw [candidatesLeft_eq, candidates_take htake, List.length_cons] at h
          rw [candidatesLeft_eq]
          omega
        split
        next => exact ih hless
        next =>
          split
          next => rfl
          next =>
            split
            next => rfl
            next =>
              dsimp only
              split
              next => rfl
              next => rw [Option.isSome_map, ih hless]

/-- A larger bound gives the same. -/
theorem failoverWithin_mono {look : Nat → Scene} {n : Nat} {r : Retried}
    (h : failoverWithin cfg look n call = some r) : failoverWithin cfg look (n + 1) call = some r := by
  induction n generalizing call r with
  | zero => cases h
  | succ n ih =>
      rw [failoverWithin] at h ⊢
      split at h
      next => exact h
      next =>
        split at h
        next => exact ih h
        next =>
          split at h
          next => exact h
          next =>
            split at h
            next => exact h
            next =>
              dsimp only at h ⊢
              split at h
              next htaken => rw [if_pos htaken]; exact h
              next htaken =>
                obtain ⟨rest, hrest, rfl⟩ := Option.map_eq_some_iff.mp h
                rw [if_neg htaken, ih hrest]
                rfl

theorem failoverWithin_eq {look : Nat → Scene} {n : Nat} (h : candidatesLeft call.toB2buaCall < n) :
    failoverWithin cfg look n call = some (failoverToNextTrunk cfg look call) := by
  have hsome := failoverWithin_isSome cfg look (Nat.lt_succ_self (candidatesLeft call.toB2buaCall))
  obtain ⟨r, hr⟩ := Option.isSome_iff_exists.mp hsome
  have hresult : failoverToNextTrunk cfg look call = r := by
    rw [failoverToNextTrunk, hr, Option.getD_some]
  rw [hresult]
  induction n, h using Nat.le_induction with
  | base => exact hr
  | succ n hn ih => exact failoverWithin_mono ih

variable (cfg call) in
theorem failsOver_nextTrunk (look : Nat → Scene) :
    FailsOver cfg look call (failoverToNextTrunk cfg look call) :=
  failsOver_within (failoverWithin_eq (Nat.lt_succ_self _))

end NixiSbc.FailoverSteps

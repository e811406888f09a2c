import NixiSbc.AttemptBound
import NixiSbc.OutboundInvite

namespace NixiSbc.TrunkCredentials

open Stun TextFields TextLines CrlfLines CallSetup InviteTexts InviteRetries ResponseHandler CallHandlers
open RetrySteps FailoverSteps AttemptBound CredentialLines OutboundInvite
open B2bua (Transport InviteAttempt)
open Digest (DigestChallenge generateDigestResponse)
open Trunks (TrunkId TrunkConfig)

/-- A 407 for the live attempt on a trunk, and the value that the trunk's own
user and password make of its challenge. -/
structure Answers (cfg : Config) (call : SetupCall) (a : Arrival) (r : Response) (id : TrunkId)
    (value : List Char) : Prop where
  arms : reachesArms cfg a call r = true
  status : r.status = 407
  live : (call.inviteAttempts.getLast?.bind fun attempt => attempt.trunkId) = some id
  computed : ∃ trunk username password header challenge uri,
    (a.scene call).trunks.getTrunk id = some trunk ∧ trunk.username = some username ∧
    trunk.password = some password ∧ proxyAuthenticate cfg r.text = some header ∧
    DigestChallenge.fromHeader header = .ok challenge ∧
    value = generateDigestResponse cfg.md5 username password challenge "INVITE".toList uri
      (a.scene call).cnonce

/-- A line that the trunk's own credentials put into the INVITE. -/
def Own (cfg : Config) (past : List (SetupCall × CallEvent)) (trunk : Option TrunkId) (line : List Char) :
    Prop :=
  ∃ id call a r value, trunk = some id ∧ (call, CallEvent.response a r) ∈ past ∧
    Answers cfg call a r id value ∧ line ∈ splitCrlf ("Proxy-Authorization: ".toList ++ value)

/-- Every INVITE carries credentials of its own trunk only. -/
def Entitled (cfg : Config) (past : List (SetupCall × CallEvent)) (sent : List Sent) : Prop :=
  ∀ s ∈ sent, ∀ origin trunk taken, s.kind = .invite origin trunk taken →
    ∀ line, Carries s.raw line → Own cfg past trunk line

/-- A failover would take the credentials of the live attempt to another trunk:
one of the candidates can take the call, and the INVITE can be made out to it. -/
def Exposed (cfg : Config) (look : Nat → Scene) (call : SetupCall) : Prop :=
  (∃ raw ∈ call.originalOutboundInvite, ((splitCrlf raw).head?.bind dialledUser).isSome ∧
    ∃ line, Carries raw line) ∧
  ∃ id rest, id :: rest <:+ candidatesOf call.toB2buaCall ∧ call.trunkId ≠ some id ∧
    (selectable cfg (look (rest.length + 1)) id).isSome

def ExposedBy (cfg : Config) (call : SetupCall) (event : CallEvent) : Prop :=
  ∃ look, failoverLook cfg call event = some look ∧ Exposed cfg look call

/-- No trunk has a line end in its host, its country code or its prefix. -/
def PlainScenes (look : Nat → Scene) : Prop :=
  ∀ n id t, (look n).trunks.getTrunk id = some t → PlainTrunk t.toTrunkConfig

section Entitlement

variable {cfg : Config} {past : List (SetupCall × CallEvent)}

theorem Own.mono {past' : List (SetupCall × CallEvent)} (hpast : past ⊆ past') {trunk : Option TrunkId}
    {line : List Char} (h : Own cfg past trunk line) : Own cfg past' trunk line := by
  obtain ⟨id, call, a, r, value, htrunk, hmem, hanswers, hline⟩ := h
  exact ⟨id, call, a, r, value, htrunk, hpast hmem, hanswers, hline⟩

theorem Entitled.mono {past' : List (SetupCall × CallEvent)} (hpast : past ⊆ past') {sent : List Sent}
    (h : Entitled cfg past sent) : Entitled cfg past' sent :=
  fun s hs origin trunk taken hkind line hline => (h s hs origin trunk taken hkind line hline).mono hpast

theorem Entitled.append {sent sent' : List Sent} (h : Entitled cfg past sent)
    (h' : Entitled cfg past sent') : Entitled cfg past (sent ++ sent') :=
  fun s hs => (List.mem_append.mp hs).elim (h s) (h' s)

theorem entitled_of_noInvites {sent : List Sent} (h : NoInvites sent) : Entitled cfg past sent := by
  intro s hs origin trunk taken hkind
  have hno := h s hs
  rw [isInvite, hkind] at hno
  cases hno

theorem entitled_singleton {s : Sent} {origin : Origin} {trunk : Option TrunkId} {taken : Bool}
    (hkind : s.kind = .invite origin trunk taken) (h : ∀ line, Carries s.raw line → Own cfg past trunk line) :
    Entitled cfg past [s] := by
  intro t ht origin' trunk' taken' hkind'
  rw [List.mem_singleton.mp ht, hkind] at hkind'
  cases hkind'
  rw [List.mem_singleton.mp ht]
  exact h

/-- What the call that is in the map keeps: its live attempt is on its trunk, and
the credentials in its INVITE are that trunk's. -/
structure Kept (cfg : Config) (past : List (SetupCall × CallEvent)) (call : SetupCall) : Prop where
  live : (call.inviteAttempts.getLast?.bind fun attempt => attempt.trunkId) = call.trunkId
  stored : ∀ raw ∈ call.originalOutboundInvite, ∀ line, Carries raw line → Own cfg past call.trunkId line

theorem Kept.mono {past' : List (SetupCall × CallEvent)} (hpast : past ⊆ past') {call : SetupCall}
    (h : Kept cfg past call) : Kept cfg past' call :=
  ⟨h.live, fun raw hraw line hline => (h.stored raw hraw line hline).mono hpast⟩

theorem Kept.same {call after : SetupCall} (h : Kept cfg past call) (hsame : SameAttempts call after) :
    Kept cfg past after := by
  constructor
  · rw [hsame.attempts, hsame.trunk, h.live]
  · rw [hsame.stored, hsame.trunk]
    exact h.stored

theorem getLast_remember (attempts : List InviteAttempt) (a : InviteAttempt) :
    (B2bua.remember attempts a).getLast? = some a := by
  unfold B2bua.remember
  split
  next hlong =>
    cases attempts with
    | nil =>
        rw [List.nil_append, List.length_singleton] at hlong
        exact absurd hlong (by decide)
    | cons b bs =>
        rw [List.cons_append, List.drop_one, List.tail_cons]
        exact List.getLast?_concat
  next => exact List.getLast?_concat

/-- An INVITE that is recorded with the trunk of the call that it leaves. -/
theorem kept_push (call : SetupCall) (now : Nat) {raw : List Char} (dest : SocketAddr)
    (transport : Transport) {trunkId : Option TrunkId} (htrunk : trunkId = none → call.trunkId = none)
    (h : ∀ line, Carries raw line → Own cfg past trunkId line) :
    Kept cfg past (pushAttempt cfg call now raw dest transport trunkId) := by
  have hid : (trunkId <|> call.trunkId) = trunkId := by
    cases trunkId with
    | none => exact htrunk rfl
    | some id => rfl
  constructor
  · change ((B2bua.remember _ _).getLast?.bind _) = (trunkId <|> call.trunkId)
    rw [getLast_remember, hid]
    rfl
  · intro stored hstored
    change some raw = some stored at hstored
    change ∀ line, _ → Own cfg past (trunkId <|> call.trunkId) line
    rw [hid, ← Option.some.inj hstored]
    exact h

end Entitlement

section Steps

variable {cfg : Config} {past : List (SetupCall × CallEvent)} {call : SetupCall}

theorem exposed_take {look : Nat → Scene} {now : Nat} {id : TrunkId} {after : SetupCall}
    (htake : takeNextFailoverCandidate call now = some (id, after)) (h : Exposed cfg look after) :
    Exposed cfg look call := by
  have hcandidates := candidates_take htake
  obtain ⟨fo, rest, -, -, rfl⟩ := take_cases htake
  obtain ⟨hstored, next, more, hsuffix, hother, hselectable⟩ := h
  refine ⟨hstored, next, more, ?_, hother, hselectable⟩
  rw [hcandidates]
  exact hsuffix.trans (List.suffix_cons _ _)

theorem kept_take {now : Nat} {id : TrunkId} {after : SetupCall}
    (htake : takeNextFailoverCandidate call now = some (id, after)) (h : Kept cfg past call) :
    Kept cfg past after := by
  obtain ⟨fo, rest, -, -, rfl⟩ := take_cases htake
  exact ⟨h.live, h.stored⟩

theorem stored_take {now : Nat} {id : TrunkId} {after : SetupCall} {stored : List Char}
    (htake : takeNextFailoverCandidate call now = some (id, after))
    (h : after.originalOutboundInvite = some stored) : call.originalOutboundInvite = some stored := by
  obtain ⟨fo, rest, -, -, rfl⟩ := take_cases htake
  exact h

theorem dialled_of_retarget {fresh raw invite : List Char} {t : TrunkConfig}
    (h : retargetInviteForTrunk cfg.lower fresh raw t = some invite) :
    ((splitCrlf raw).head?.bind dialledUser).isSome = true := by
  unfold retargetInviteForTrunk at h
  split at h
  next => cases h
  next first rest hsplit =>
    obtain ⟨user, huser, -⟩ := Option.map_eq_some_iff.mp h
    rw [hsplit, List.head?_cons, Option.bind_some, huser]
    rfl

/-- The INVITE to a candidate carries what its own trunk is entitled to, when
nothing is exposed. -/
theorem own_retarget {look : Nat → Scene} {now : Nat} {after : SetupCall} {trunk : OutboundTrunk}
    {dest : SocketAddr} {stored invite : List Char} {draw : UInt64} (hkept : Kept cfg past call)
    (hsafe : ¬ Exposed cfg look call) (hplain : PlainScenes look)
    (htake : takeNextFailoverCandidate call now = some (trunk.id, after))
    (hselectable : selectable cfg (look (candidatesLeft call.toB2buaCall)) trunk.id = some (trunk, dest))
    (hstored : call.originalOutboundInvite = some stored)
    (hinvite : retargetInviteForTrunk cfg.lower (newBranch draw) stored trunk.toTrunkConfig = some invite)
    {line : List Char} (hline : Carries invite line) : Own cfg past (some trunk.id) line := by
  have hplain := hplain _ _ _ (getTrunk_of_selectable hselectable)
  have hcarries := carries_retarget (branch_newBranch draw) hplain hinvite hline
  have hown := hkept.stored stored hstored line hcarries
  -- another trunk would be exposed to the credentials
  have hsame : call.trunkId = some trunk.id := by
    by_contra hother
    refine hsafe ⟨⟨stored, hstored, dialled_of_retarget hinvite, line, hcarries⟩, trunk.id,
      candidatesOf after.toB2buaCall, ?_, hother, ?_⟩
    · rw [candidates_take htake]
    · have hlen : (candidatesOf after.toB2buaCall).length + 1 = candidatesLeft call.toB2buaCall := by
        rw [candidatesLeft_eq, candidates_take htake, List.length_cons]
      rw [hlen, hselectable]
      rfl
  rwa [hsame] at hown

theorem entitled_failsOver {look : Nat → Scene} {r : Retried} (h : FailsOver cfg look call r)
    (hkept : Kept cfg past call) (hsafe : ¬ Exposed cfg look call) (hplain : PlainScenes look) :
    Kept cfg past r.2.1 ∧ Entitled cfg past r.2.2 := by
  induction h with
  | exhausted htake => exact ⟨hkept, entitled_of_noInvites noInvites_nil⟩
  | passed htake hselectable hrest ih =>
      exact ih (kept_take htake hkept) fun he => hsafe (exposed_take htake he)
  | unstored htake => exact ⟨kept_take htake hkept, entitled_of_noInvites noInvites_nil⟩
  | unreadable htake =>
      exact ⟨kept_take htake hkept, entitled_of_noInvites (noInvites_cancel _)⟩
  | @taken call after trunk dest stored invite htake hselectable hstored hinvite =>
      have hown {line : List Char} (hline : Carries invite line) : Own cfg past (some trunk.id) line :=
        own_retarget hkept hsafe hplain htake hselectable (stored_take htake hstored) hinvite hline
      constructor
      · have hpush := kept_push after (look (candidatesLeft call.toB2buaCall)).now dest trunk.transport
          (fun hnone : some trunk.id = none => nomatch hnone) fun line hline => hown hline
        exact ⟨hpush.live, hpush.stored⟩
      · exact (entitled_of_noInvites (noInvites_cancel _)).append
          (entitled_singleton rfl fun line hline => hown hline)
  | @untaken call after trunk dest stored invite r htake hselectable hstored hinvite hrest ih =>
      have hown {line : List Char} (hline : Carries invite line) : Own cfg past (some trunk.id) line :=
        own_retarget hkept hsafe hplain htake hselectable (stored_take htake hstored) hinvite hline
      obtain ⟨hkept', hentitled⟩ := ih (kept_take htake hkept) fun he => hsafe (exposed_take htake he)
      refine ⟨hkept', (entitled_of_noInvites (noInvites_cancel _)).append ?_⟩
      exact (entitled_singleton rfl fun line hline => hown hline).append hentitled

/-- Where the value of a retry comes from. -/
theorem authorize_spec {scene : Scene} {response value original : List Char} {trunk : OutboundTrunk}
    (h : authorize cfg scene call response = some (trunk, value, original)) :
    ∃ id username password header challenge uri, call.trunkId = some id ∧
      scene.trunks.getTrunk id = some trunk ∧ trunk.username = some username ∧
      trunk.password = some password ∧ proxyAuthenticate cfg response = some header ∧
      DigestChallenge.fromHeader header = .ok challenge ∧
      value = generateDigestResponse cfg.md5 username password challenge "INVITE".toList uri scene.cnonce := by
  unfold authorize at h
  simp only [Option.bind_eq_bind, Option.bind_eq_some_iff] at h
  obtain ⟨original', -, id, hid, h⟩ := h
  split at h
  next => cases h
  next =>
    obtain ⟨trunk', htrunk, h⟩ := Option.bind_eq_some_iff.mp h
    split at h
    next => cases h
    next =>
      simp only [Option.bind_eq_some_iff] at h
      obtain ⟨username, husername, password, hpassword, header, hheader, challenge, hchallenge, h⟩ := h
      cases h
      have hok : DigestChallenge.fromHeader header = .ok challenge := by
        cases hresult : DigestChallenge.fromHeader header with
        | error e => rw [hresult] at hchallenge; cases hchallenge
        | ok c => rw [hresult] at hchallenge; cases hchallenge; rfl
      exact ⟨id, username, password, header, challenge, _, hid, htrunk, husername, hpassword, hheader,
        hok, rfl⟩

/-- A retry after a 407 carries what is computed for the trunk that sent it. -/
theorem entitled_407 {a : Arrival} {r : Response} {from_ : SetupCall} (hkept : Kept cfg past call)
    (harms : reachesArms cfg a call r = true) (hstatus : r.status = 407) (hsame : SameAttempts call from_)
    (hpast : (call, .response a r) ∈ past) :
    (∀ after ∈ keptOn (handle407AuthRetry cfg (a.scene call) from_ r.text a.source), Kept cfg past after) ∧
    Entitled cfg past (handle407AuthRetry cfg (a.scene call) from_ r.text a.source).2.2 := by
  unfold handle407AuthRetry
  split
  next => exact ⟨fun after hafter => (nomatch hafter), entitled_of_noInvites noInvites_nil⟩
  next trunk value original hfound =>
    obtain ⟨id, username, password, header, challenge, uri, hid, hcomputed⟩ := authorize_spec hfound
    have htrunk : call.trunkId = some id := hsame.trunk ▸ hid
    have hanswers : Answers cfg call a r id value :=
      ⟨harms, hstatus, hkept.live.trans htrunk, trunk, username, password, header, challenge, uri, hcomputed⟩
    have hown {line : List Char} (hline : Carries (injectProxyAuthIntoInvite cfg.lower
        (newBranch (a.scene call).draw) original value) line) : Own cfg past from_.trunkId line :=
      ⟨id, call, a, r, value, hid, hpast, hanswers, carries_inject hline⟩
    dsimp only
    split
    next =>
      refine ⟨fun after hafter => ?_, entitled_singleton rfl fun line hline => hown hline⟩
      cases hafter
      exact kept_push _ _ _ _ (fun hnone => hnone) fun line hline => hown hline
    next => exact ⟨fun after hafter => (nomatch hafter), entitled_singleton rfl fun line hline => hown hline⟩

theorem intervalOffer_spec {scene : Scene} {response invite : List Char} {attempt : InviteAttempt}
    (h : intervalOffer cfg scene call response = some (attempt, invite)) :
    call.inviteAttempts.getLast? = some attempt ∧ attempt.trunkId ≠ none ∧
      ∃ expires minSe, invite =
        buildSessionIntervalRetry cfg.lower (newBranch scene.draw) attempt.raw expires minSe := by
  unfold intervalOffer at h
  simp only [Option.bind_eq_bind, Option.bind_eq_some_iff] at h
  obtain ⟨configured, -, attempt', hlast, h⟩ := h
  split at h
  next => cases h
  next hno =>
    simp only [Option.bind_eq_some_iff] at h
    obtain ⟨minSe422, -, ⟨expires, minSe⟩, -, h⟩ := h
    cases h
    exact ⟨hlast, fun hnone => hno (.inl hnone), expires, minSe, rfl⟩

/-- A retry after a 422 carries nothing. -/
theorem entitled_422 {scene : Scene} {response : List Char} {source : SocketAddr} :
    (∀ after ∈ keptOn (handle422SessionIntervalRetry cfg scene call response source), Kept cfg past after) ∧
    Entitled cfg past (handle422SessionIntervalRetry cfg scene call response source).2.2 := by
  unfold handle422SessionIntervalRetry
  split
  next => exact ⟨fun after hafter => (nomatch hafter), entitled_of_noInvites noInvites_nil⟩
  next attempt invite hoffer =>
    obtain ⟨-, htrunk, expires, minSe, hinvite⟩ := intervalOffer_spec hoffer
    have hnone {line : List Char} (hline : Carries invite line) : Own cfg past attempt.trunkId line :=
      absurd (hinvite ▸ hline) (not_carries_interval (branch_newBranch _) expires minSe)
    dsimp only
    split
    next =>
      refine ⟨fun after hafter => ?_, entitled_singleton rfl fun line hline => hnone hline⟩
      cases hafter
      exact kept_push _ _ _ _ (fun hnone => absurd hnone htrunk) fun line hline => hnone hline
    next => exact ⟨fun after hafter => (nomatch hafter), entitled_singleton rfl fun line hline => hnone hline⟩

/-- The texts of the trunks that an event may meet fit into a request line. -/
def PlainEvent : CallEvent → Prop
  | .response a _ => PlainScenes a.look
  | .inviteTimeout look _ => PlainScenes look
  | _ => True

theorem plain_failoverLook {event : CallEvent} (h : PlainEvent event) {look : Nat → Scene}
    (hlook : failoverLook cfg call event = some look) : PlainScenes look := by
  cases event with
  | response a r =>
      rw [failoverLook] at hlook
      split at hlook
      next => cases hlook; exact h
      next => cases hlook
  | inviteTimeout look' timeout =>
      rw [failoverLook] at hlook
      split at hlook
      next => cases hlook; exact h
      next => cases hlook
  | _ => cases hlook

theorem Exposed.of_same {look : Nat → Scene} {after : SetupCall} (hsame : SameAttempts call after)
    (h : Exposed cfg look after) : Exposed cfg look call := by
  unfold Exposed at h ⊢
  rwa [hsame.stored, hsame.candidates, hsame.trunk] at h

/-- What one event preserves. -/
theorem entitled_onEvent {event : CallEvent} (hkept : Kept cfg past call) (hplain : PlainEvent event)
    (hsafe : ¬ ExposedBy cfg call event) (hpast : (call, event) ∈ past) :
    (∀ after ∈ (onEvent cfg call event).left, Kept cfg past after) ∧
    Entitled cfg past (onEvent cfg call event).sent := by
  have hresends := resends_onEvent cfg call event
  generalize (onEvent cfg call event).left = left at hresends ⊢
  generalize (onEvent cfg call event).sent = sent at hresends ⊢
  cases hresends with
  | @quiet _ after _ _ hsame hleft hsent =>
      refine ⟨fun kept hmem => ?_, entitled_of_noInvites hsent⟩
      rcases hleft with rfl | rfl
      · cases hmem
        exact hkept.same hsame
      · cases hmem
  | auth harms hstatus hsame hacks =>
      obtain ⟨hleft, hsent⟩ := entitled_407 hkept harms hstatus hsame hpast
      exact ⟨hleft, (entitled_of_noInvites hacks).append hsent⟩
  | interval harms hstatus hsame hacks =>
      exact ⟨entitled_422.1, (entitled_of_noInvites hacks).append entitled_422.2⟩
  | @failover _ look from_ _ _ hlook hsame hacks hleft =>
      obtain ⟨hafter, hsent⟩ := entitled_failsOver (failsOver_nextTrunk cfg from_ look) (hkept.same hsame)
        (fun he => hsafe ⟨look, hlook, he.of_same hsame⟩) (plain_failoverLook hplain hlook)
      refine ⟨fun kept hmem => ?_, (entitled_of_noInvites hacks).append hsent⟩
      rcases hleft with rfl | rfl
      · cases hmem
        exact hafter
      · cases hmem

end Steps

section Runs

variable {cfg : Config} {past : List (SetupCall × CallEvent)} {s : Attempts}

structure Holds (cfg : Config) (past : List (SetupCall × CallEvent)) (s : Attempts) : Prop where
  kept : ∀ call ∈ s.live, Kept cfg past call
  sent : Entitled cfg past s.sent

theorem Holds.step {event : CallEvent} (h : Holds cfg past s) (hplain : PlainEvent event)
    (hsafe : ∀ call ∈ s.live, ¬ ExposedBy cfg call event) :
    Holds cfg (past ++ s.live.toList.map fun call => (call, event)) (step cfg s event) := by
  unfold AttemptBound.step
  split
  next hlive =>
    rw [hlive, Option.toList_none, List.map_nil, List.append_nil]
    exact h
  next call hlive =>
    rw [hlive] at hsafe
    have hmono : past ⊆ past ++ s.live.toList.map fun call => (call, event) := List.subset_append_left _ _
    have hpast : (call, event) ∈ past ++ s.live.toList.map fun call => (call, event) := by
      rw [hlive]
      exact List.mem_append_right _ List.mem_cons_self
    obtain ⟨hleft, hsent⟩ := entitled_onEvent ((h.kept call hlive).mono hmono) hplain (hsafe call rfl) hpast
    exact ⟨hleft, (h.sent.mono hmono).append hsent⟩

theorem Holds.run (h : Holds cfg past s) {events : List CallEvent} (hplain : ∀ e ∈ events, PlainEvent e)
    (hsafe : ∀ p ∈ met cfg s events, ¬ ExposedBy cfg p.1 p.2) :
    Holds cfg (past ++ met cfg s events) (run cfg s events) := by
  induction events generalizing past s with
  | nil =>
      rw [met, List.append_nil]
      exact h
  | cons event events ih =>
      rw [List.forall_mem_cons] at hplain
      rw [met, List.forall_mem_append] at hsafe
      have hstep := h.step hplain.1 fun call hcall =>
        hsafe.1 (call, event) (List.mem_map_of_mem (Option.mem_toList.mpr hcall))
      rw [met, ← List.append_assoc]
      exact ih hstep hplain.2 hsafe.2

theorem kept_recorded {now : Nat} {n : NewCall} {route : Route} {raw localTag : List Char}
    (hraw : ∀ line, ¬ Carries raw line) : Kept cfg past (recorded cfg now n route raw localTag) := by
  have htrunk : route.trunkId = none → (routed n route).trunkId = none := by
    intro hnone
    cases route with
    | trunk t dest candidates => cases hnone
    | contact dest transport replyTx =>
        change n.call.trunkId = none
        unfold NewCall.call
        split
        next => rfl
        next => rfl
  have hpush : Kept cfg past
      (pushAttempt cfg (routed n route) now raw route.dest route.transport route.trunkId) :=
    kept_push _ now _ _ htrunk fun line hline => absurd hline (hraw line)
  exact ⟨hpush.live, hpush.stored⟩

theorem holds_begin {look : Nat → Scene} (hplain : PlainScenes look) (n : NewCall) (route : Route)
    {raw : List Char} (localTag : List Char) (hraw : ∀ line, ¬ Carries raw line) :
    Holds cfg [] (begin_ cfg look n route raw localTag) := by
  unfold begin_ forwardInvite
  dsimp only
  have hkept : Kept cfg [] (recorded cfg (look (candidatesLeft (routed n route).toB2buaCall)).now n route raw
    localTag) := kept_recorded hraw
  have hstored : (recorded cfg (look (candidatesLeft (routed n route).toB2buaCall)).now n route raw
    localTag).originalOutboundInvite = some raw := rfl
  generalize recorded cfg (look (candidatesLeft (routed n route).toB2buaCall)).now n route raw localTag = call
    at hkept hstored ⊢
  have hfirst {s : Sent} {origin : Origin} {trunk : Option TrunkId} {taken : Bool} (hs : s.raw = raw)
      (hkind : s.kind = .invite origin trunk taken) : Entitled cfg [] [s] :=
    entitled_singleton hkind fun line hline => absurd (hs ▸ hline) (hraw line)
  split
  next =>
    refine ⟨fun kept hmem => ?_, hfirst rfl rfl⟩
    cases hmem
    exact hkept
  next =>
    have hsafe : ¬ Exposed cfg look call := by
      rintro ⟨⟨stored, hmem, -, line, hline⟩, -⟩
      rw [hstored] at hmem
      cases hmem
      exact hraw line hline
    obtain ⟨hafter, hsent⟩ := entitled_failsOver (failsOver_nextTrunk cfg call look) hkept hsafe hplain
    split
    next =>
      refine ⟨fun kept hmem => ?_, (hfirst rfl rfl).append hsent⟩
      cases hmem
      exact hafter
    next => exact ⟨fun kept hmem => (nomatch hmem), (hfirst rfl rfl).append hsent⟩

/-- The INVITE of a caller, as it is sent to where it is routed. -/
def firstInvite (cfg : Config) (identity : Option Topology.SbcIdentity) (nanos : UInt32) (fromLocal : Bool)
    (route : Route) (request : List Char) : List Char :=
  outboundInvite cfg.lower cfg.upper cfg.sessionTimer identity nanos fromLocal route.trunkId.isSome
    route.transport request

/-- In a run in which no failover takes a call with credentials in its INVITE to
another trunk, an INVITE carries credentials only of the trunk that it goes to,
computed from this trunk's user and password for a challenge to its live attempt. -/
theorem credentials_of_own_trunk (cfg : Config) (look : Nat → Scene) (n : NewCall) (route : Route)
    (identity : Option Topology.SbcIdentity) (nanos : UInt32) (fromLocal : Bool)
    (request localTag : List Char) (events : List CallEvent)
    (hidentity : ∀ base ∈ identity, Topology.OneLine base) (hlook : PlainScenes look)
    (hplain : ∀ e ∈ events, PlainEvent e) :
    let s := begin_ cfg look n route (firstInvite cfg identity nanos fromLocal route request) localTag
    (∀ p ∈ met cfg s events, ¬ ExposedBy cfg p.1 p.2) →
    ∀ sent ∈ (run cfg s events).sent, ∀ origin trunk taken, sent.kind = .invite origin trunk taken →
      ∀ line, Carries sent.raw line → Own cfg (met cfg s events) trunk line := by
  intro s hsafe
  have hclean := clean_outboundInvite (U := cfg.lower) (V := cfg.upper) cfg.sessionTimer hidentity nanos
    fromLocal route.trunkId.isSome route.transport request
  have hbegin : Holds cfg [] s := holds_begin hlook n route localTag hclean.carries
  exact (hbegin.run hplain hsafe).sent

end Runs

section Examples

/-- The digests of the retry below, as MD5 has them. -/
def threeDigests : Digest.Md5 := fun text =>
  if text = "a:r:p".toList then (0xe7689b73, 0xe913479d, 0x2a40be88, 0xf22bca68)
  else if text = "INVITE:sip:1@h".toList then (0xe656f237, 0x05db794c, 0x7a3b03ba, 0xe02c0ca7)
  else (0x229bd200, 0x0475a641, 0xe20b6dec, 0x2dae7690)

def plainConfig : Config where
  lower := RawSip.asciiOnly
  upper := fun c => [c]
  md5 := threeDigests
  parseAddr := fun _ => none
  reasonPhrase := fun _ => []
  sessionTimer := none
  identity := none

def peerAt (n : UInt8) : SocketAddr := .v4 ⟨#[192, 0, 2, n], rfl⟩ 5060

/-- A trunk that wants the credentials of a user. -/
def trunkFor (id : TrunkId) (n : UInt8) (username : Char) : OutboundTrunk where
  id := id
  name := ['t']
  enabled := true
  host := ['h']
  port := 5060
  resolvedAddr := some (peerAt n)
  numberFormat := .e164
  countryCode := none
  nationalPrefix := none
  transport := .udp
  maxConcurrentCalls := 10
  authRequired := true
  username := some [username]
  password := some ['p']

def twoTrunks : TrunkTable where
  getTrunk id := if id = 1 then some (trunkFor 1 1 'a') else if id = 2 then some (trunkFor 2 2 'b') else none
  keyed := by
    intro id t h
    split at h
    next hid => cases h; exact hid.symm
    next =>
      split at h
      next hid => cases h; exact hid.symm
      next => cases h

def calmScene (draw : UInt64) : Scene where
  now := 0
  trunks := twoTrunks
  getState id := some (.new id)
  draw := draw
  cnonce := 0
  taken := true

theorem plain_calmScene (draw : UInt64) : PlainScenes fun _ => calmScene draw := by
  intro n id t h
  have hhost : Plain ['h'] := ⟨by decide, by decide⟩
  have hplain (id : TrunkId) (n : UInt8) (username : Char) :
      PlainTrunk (trunkFor id n username).toTrunkConfig := ⟨hhost, nofun, nofun⟩
  change (if id = 1 then some (trunkFor 1 1 'a') else if id = 2 then some (trunkFor 2 2 'b') else none) =
    some t at h
  split at h
  next => cases h; exact hplain _ _ _
  next =>
    split at h
    next => cases h; exact hplain _ _ _
    next => cases h

def someCall : NewCall where
  draw := 1
  callId := ['i']
  tag := ['g']
  source := peerAt 3
  sdp := none
  mediaSessionId := none
  replyTx := none
  transport := .udp
  now := 0
  fromRaw := none
  toRaw := none
  contact := none
  vias := []
  cseq := some 1

def viaFirst : Route := .trunk (trunkFor 1 1 'a') (peerAt 1) [2]

def reply (draw : UInt64) (status : UInt16) (headers : List String) : CallEvent :=
  .response ⟨peerAt 1, fun _ => calmScene draw, ([], []), false, 0⟩
    ⟨status, [], headers.map (·.toList), [], some ['i'], none, none, none, none⟩

def challenge407 : CallEvent :=
  reply 7 407 ["Via: SIP/2.0/UDP h;branch=z9hG4bKa", "CSeq: 1 INVITE",
    "Proxy-Authenticate: Digest realm=\"r\", nonce=\"n\""]

def failure503 : CallEvent :=
  reply 8 503 ["Via: SIP/2.0/UDP h;branch=z9hG4bK0000000000000007", "CSeq: 2 INVITE"]

def someRequest : List Char :=
  "INVITE sip:1@h SIP/2.0\r\n".toList ++ "Via: SIP/2.0/UDP h;branch=z9hG4bKa\r\n".toList ++
    "CSeq: 1 INVITE\r\n\r\n".toList

def callOverFirst : Attempts :=
  begin_ plainConfig (fun _ => calmScene 6) someCall viaFirst
    (firstInvite plainConfig none 0 false viaFirst someRequest) ['l']

/-- A challenge alone is answered with the credentials of the trunk. -/
theorem credentials_of_own_trunk_retry :
    (∃ sent ∈ (run plainConfig callOverFirst [challenge407]).sent, ∃ line, Carries sent.raw line) ∧
    ∀ sent ∈ (run plainConfig callOverFirst [challenge407]).sent, ∀ origin trunk taken,
      sent.kind = .invite origin trunk taken → ∀ line, Carries sent.raw line →
        Own plainConfig (met plainConfig callOverFirst [challenge407]) trunk line := by
  constructor
  · have hany : ((run plainConfig callOverFirst [challenge407]).sent.any fun sent =>
        (headerLines sent.raw).any isCredential) = true := by decide +kernel
    obtain ⟨sent, hsent, hlines⟩ := List.any_eq_true.mp hany
    obtain ⟨line, hline, hcred⟩ := List.any_eq_true.mp hlines
    exact ⟨sent, hsent, line, hline, hcred⟩
  · refine credentials_of_own_trunk plainConfig (fun _ => calmScene 6) someCall viaFirst none 0 false someRequest
      ['l'] [challenge407] nofun (plain_calmScene 6) ?_ ?_
    · intro e he
      rw [List.mem_singleton.mp he]
      exact plain_calmScene 7
    · rintro p hp ⟨look, hlook, -⟩
      -- a challenge is no failure of the trunk
      rw [met, met, List.append_nil] at hp
      obtain ⟨call, -, rfl⟩ := List.mem_map.mp hp
      cases hlook.symm.trans (if_neg fun h => nomatch h.2.1)

/-- The first trunk asks for credentials and then fails: the second one gets
the credentials of the first. -/
theorem credentials_reach_another_trunk :
    ¬ ∀ sent ∈ (run plainConfig callOverFirst [challenge407, failure503]).sent, ∀ origin trunk taken,
      sent.kind = .invite origin trunk taken → ∀ line, Carries sent.raw line →
        Own plainConfig (met plainConfig callOverFirst [challenge407, failure503]) trunk line := by
  intro h
  have hany : ((run plainConfig callOverFirst [challenge407, failure503]).sent.any fun sent =>
      sent.kind = .invite .failover (some 2) true ∧ (headerLines sent.raw).any isCredential) = true := by
    decide +kernel
  obtain ⟨sent, hsent, hleak⟩ := List.any_eq_true.mp hany
  rw [decide_eq_true_iff] at hleak
  obtain ⟨line, hline, hcred⟩ := List.any_eq_true.mp hleak.2
  obtain ⟨id, call, a, r, value, hid, hpast, hanswers, -⟩ :=
    h sent hsent .failover (some 2) true hleak.1 line ⟨hline, hcred⟩
  cases hid
  rw [met, met, met, List.append_nil] at hpast
  rcases List.mem_append.mp hpast with hpast | hpast
  · obtain ⟨first, hfirst, heq⟩ := List.mem_map.mp hpast
    cases heq
    -- the challenge was for the first trunk
    have hlive : (callOverFirst.live.map fun call =>
        call.inviteAttempts.getLast?.bind fun attempt => attempt.trunkId) = some (some 1) := by
      decide
    rw [Option.mem_toList.mp hfirst, Option.map_some, hanswers.live] at hlive
    cases hlive
  · obtain ⟨second, -, heq⟩ := List.mem_map.mp hpast
    cases heq
    exact absurd hanswers.status (by decide)

end Examples

end NixiSbc.TrunkCredentials

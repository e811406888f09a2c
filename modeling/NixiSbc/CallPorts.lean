import NixiSbc.CallManager
import NixiSbc.StateRuns

namespace NixiSbc.CallPorts

open Stun KeyedTable StateRuns PortAllocator PortBooks MediaSessions CallManager
open B2bua (Transport)

/-- The pairs in use are those of the live sessions, no port is in two of them,
and no port is marked without being in one of them or in quarantine. -/
structure Conserved (cfg : Config) (m : MediaManager) : Prop where
  inUse : ∀ pair, InUse cfg.ports m.pool pair ↔ pair ∈ sessionPairs m.sessions
  apart : (sessionPairs m.sessions).Pairwise fun p q => ¬SharesPort p q
  marked : ∀ port ∈ m.pool.allocated,
    ∃ pair, (pair ∈ sessionPairs m.sessions ∨ pair ∈ waiting m.pool) ∧ port ∈ ports pair

/-- One `terminate_call_with_reason`. -/
structure Ending where
  uuid : List Char
  reason : List Char
  clock : Nat → Nat

def terminateAll (cfg : Config) (s : B2buaManager) (ends : List Ending) : B2buaManager :=
  ends.foldl (fun s e => terminateCallWithReason cfg s e.uuid e.reason e.clock) s

def EndsEvery (s : B2buaManager) (ends : List Ending) : Prop :=
  ∀ uuid, (s.calls.lookup uuid).isSome = true → uuid ∈ ends.map Ending.uuid

/-- A refused call leaves the pairs in use and the call map as they were. -/
def RefusedClean (cfg : Config) (s : B2buaManager) : Op → Prop
  | .createCall draw inboundCallId inboundTag callerAddr callerSdp callerTransport clock =>
      ∀ e s', createCall cfg s draw inboundCallId inboundTag callerAddr callerSdp callerTransport
          clock = (.error e, s') →
        (∀ pair, InUse cfg.ports s'.media.pool pair ↔ InUse cfg.ports s.media.pool pair) ∧
          s'.calls = s.calls
  | _ => True

/-- What is promised of one operation in the state that it meets. -/
structure PortContract (cfg : Config) (s : B2buaManager) (op : Op) : Prop where
  conserved : Conserved cfg (step cfg s op).media
  refused : RefusedClean cfg s op
  drained : ∀ ends, EndsEvery (step cfg s op) ends →
    ∀ pair, ¬InUse cfg.ports (terminateAll cfg (step cfg s op) ends).media.pool pair

/-- A call that is accepted gets a uuid that no live media session has. -/
def FreshUuid (cfg : Config) (s : B2buaManager) : Op → Prop
  | .createCall draw inboundCallId inboundTag callerAddr callerSdp callerTransport clock =>
      ∀ uuid s', createCall cfg s draw inboundCallId inboundTag callerAddr callerSdp callerTransport
          clock = (.ok uuid, s') →
        s.media.sessions.lookup uuid = none
  | _ => True

/-- The books balance, every live session is known to the call whose uuid it
has, and no call knows another session than that one. -/
structure Invariant (cfg : Config) (s : B2buaManager) : Prop where
  books : Books cfg.ports s.media.pool (sessionPairs s.media.sessions)
  linked : ∀ id, (s.media.sessions.lookup id).isSome = true → getMediaSessionId s id = some id
  keyed : ∀ uuid id, getMediaSessionId s uuid = some id → id = uuid

variable {cfg : Config} {s s' : B2buaManager} {used : List PortPair} {uuid reason : List Char}
  {clock : Nat → Nat}

theorem conserved_of_books {m : MediaManager} (h : Books cfg.ports m.pool (sessionPairs m.sessions)) :
    Conserved cfg m := by
  refine ⟨fun pair => h.inUse_iff, h.apart, fun port hport => ?_⟩
  obtain ⟨pair, hpair, hin⟩ := (h.covered.mem_iff port).mp hport
  exact ⟨pair, List.mem_append.mp hpair, hin⟩

theorem mem_sessionPairs {sessions : Table (List Char) MediaSession} {session : MediaSession}
    (h : sessions.lookup uuid = some session) : session.ports ∈ sessionPairs sessions :=
  (sessionPairs_perm_erase h).mem_iff.mpr List.mem_cons_self

theorem sessionPairs_eq_nil {sessions : Table (List Char) MediaSession}
    (h : ∀ id, sessions.lookup id = none) : sessionPairs sessions = [] := by
  rw [sessionPairs, List.flatMap_eq_nil_iff]
  intro e he
  have hsome : sessions.lookup e.1 = some e.2 := AList.mem_lookup_iff.mpr he
  rw [h] at hsome
  cases hsome

/-- What `create_call` can do: refuse, take in a call without media, or take one
in with a session of its own under its uuid. -/
theorem createCall_cases {draw : UInt64} {inboundCallId inboundTag : List Char}
    {callerAddr : SocketAddr} {callerSdp : Option (List Char)} {callerTransport : Transport}
    {result : Except Failure (List Char)} (h : Books cfg.ports s.media.pool used)
    (hc : createCall cfg s draw inboundCallId inboundTag callerAddr callerSdp callerTransport clock =
      (result, s')) :
    (∃ e, result = .error e ∧ s'.calls = s.calls ∧ Books cfg.ports s'.media.pool used ∧
      s'.media.sessions = s.media.sessions) ∨
    ∃ call, result = .ok (callUuid draw) ∧ s'.calls = s.calls.insert (callUuid draw) call ∧
      ((call.mediaSessionId = none ∧ s'.media = s.media) ∨
        call.mediaSessionId = some (callUuid draw) ∧
          ∃ session, Books cfg.ports s'.media.pool (session.pairs ++ used) ∧
            s'.media.sessions = s.media.sessions.insert (callUuid draw) session) := by
  rw [createCall.eq_def] at hc
  split at hc
  next =>
    cases hc
    exact .inr ⟨_, rfl, rfl, .inl ⟨rfl, rfl⟩⟩
  next sdp =>
    dsimp only at hc
    split at hc
    next session media hs =>
      cases hc
      obtain ⟨hbooks, hid, hsessions⟩ := createSession_books h hs
      exact .inr ⟨_, rfl, rfl, .inr ⟨congrArg some hid, session, hbooks, hsessions⟩⟩
    next e media hs =>
      cases hc
      obtain ⟨hbooks, hsessions⟩ := createSession_books h hs
      exact .inl ⟨_, rfl, rfl, hbooks, hsessions⟩

theorem endMedia_books {m : MediaManager} {call : MediaCall}
    (h : Books cfg.ports m.pool (sessionPairs m.sessions)) :
    Books cfg.ports (endMedia cfg m call clock).pool
      (sessionPairs (endMedia cfg m call clock).sessions) := by
  rw [endMedia]
  split
  next => exact h
  next mediaId hid => exact terminateSession_books h

theorem endMedia_lookup (cfg : Config) (m : MediaManager) (call : MediaCall) (clock : Nat → Nat)
    (id : List Char) :
    (endMedia cfg m call clock).sessions.lookup id =
      if call.mediaSessionId = some id then none else m.sessions.lookup id := by
  rw [endMedia]
  split
  next hnone => rw [hnone, if_neg (by simp)]
  next mediaId hid =>
    rw [terminateSession_lookup, hid]
    simp only [Option.some_inj, eq_comm]

/-- A BYE ends the session of the call, and every call keeps the session it knows. -/
theorem Invariant.bye (h : Invariant cfg s) : Invariant cfg (handleBye cfg s uuid clock).2 := by
  rw [handleBye]
  split
  next hnone => exact h
  next call hcall =>
    have hsame (id : List Char) :
        getMediaSessionId (handleBye cfg s uuid clock).2 id = getMediaSessionId s id := by
      rw [handleBye, hcall, getMediaSessionId, getMediaSessionId]
      change ((modify uuid _ s.calls).lookup id).bind _ = _
      by_cases hid : id = uuid
      · rw [hid, lookup_modify_self, hcall]
        rfl
      · rw [lookup_modify_ne hid]
    rw [handleBye, hcall] at hsame
    refine ⟨endMedia_books h.books, fun id hid => ?_, fun other id hid => ?_⟩
    · change ((endMedia cfg s.media call clock).sessions.lookup id).isSome = true at hid
      rw [endMedia_lookup] at hid
      rw [hsame]
      split at hid
      next => cases hid
      next => exact h.linked id hid
    · rw [hsame] at hid
      exact h.keyed other id hid

theorem terminate_books (h : Books cfg.ports s.media.pool (sessionPairs s.media.sessions)) :
    Books cfg.ports (terminateCallWithReason cfg s uuid reason clock).media.pool
      (sessionPairs (terminateCallWithReason cfg s uuid reason clock).media.sessions) := by
  rw [terminateCallWithReason]
  split
  next => exact h
  next call hcall => exact endMedia_books h

theorem terminate_calls (cfg : Config) (s : B2buaManager) (uuid reason : List Char)
    (clock : Nat → Nat) (other : List Char) :
    (terminateCallWithReason cfg s uuid reason clock).calls.lookup other =
      if other = uuid then none else s.calls.lookup other := by
  rw [terminateCallWithReason]
  split
  next hnone => rw [← lookup_erase_eq, erase_of_absent hnone]
  next call hcall => exact lookup_erase_eq s.calls uuid other

theorem terminate_getMediaSessionId (cfg : Config) (s : B2buaManager) (uuid reason : List Char)
    (clock : Nat → Nat) (other : List Char) :
    getMediaSessionId (terminateCallWithReason cfg s uuid reason clock) other =
      if other = uuid then none else getMediaSessionId s other := by
  rw [getMediaSessionId, terminate_calls]
  split
  next => rfl
  next => rfl

/-- The session that the call knows goes with the call. -/
theorem terminate_sessions (cfg : Config) (s : B2buaManager) (uuid reason : List Char)
    (clock : Nat → Nat) (id : List Char) :
    (terminateCallWithReason cfg s uuid reason clock).media.sessions.lookup id =
      if getMediaSessionId s uuid = some id then none else s.media.sessions.lookup id := by
  rw [terminateCallWithReason, getMediaSessionId]
  split
  next hnone => rw [hnone, if_neg (by simp)]
  next call hcall =>
    rw [hcall]
    exact endMedia_lookup cfg s.media call clock id

theorem Invariant.terminate (h : Invariant cfg s) :
    Invariant cfg (terminateCallWithReason cfg s uuid reason clock) := by
  refine ⟨terminate_books h.books, fun id hid => ?_, fun other id hid => ?_⟩
  · rw [terminate_sessions] at hid
    rw [terminate_getMediaSessionId]
    split at hid
    next => cases hid
    next hother =>
      have hknown := h.linked id hid
      have hne : id ≠ uuid := fun heq => hother (heq ▸ hknown)
      rw [if_neg hne, hknown]
  · rw [terminate_getMediaSessionId] at hid
    split at hid
    next => cases hid
    next => exact h.keyed other id hid

theorem Invariant.ended (h : Invariant cfg s) (ends : List Ending) :
    Invariant cfg (terminateAll cfg s ends) := by
  induction ends generalizing s with
  | nil => exact h
  | cons e ends ih => exact ih h.terminate

theorem terminateAll_calls (cfg : Config) (s : B2buaManager) (ends : List Ending) (uuid : List Char) :
    (terminateAll cfg s ends).calls.lookup uuid =
      if uuid ∈ ends.map Ending.uuid then none else s.calls.lookup uuid := by
  induction ends generalizing s with
  | nil => rfl
  | cons e ends ih =>
      change (terminateAll cfg (terminateCallWithReason cfg s e.uuid e.reason e.clock)
        ends).calls.lookup uuid = _
      rw [ih, terminate_calls, List.map_cons]
      by_cases hlater : uuid ∈ ends.map Ending.uuid
      · rw [if_pos hlater, if_pos (List.mem_cons_of_mem _ hlater)]
      · simp only [if_neg hlater, List.mem_cons, or_iff_left hlater]

theorem Invariant.drained (h : Invariant cfg s) {ends : List Ending} (hends : EndsEvery s ends)
    (pair : PortPair) : ¬InUse cfg.ports (terminateAll cfg s ends).media.pool pair := by
  have hend := h.ended ends
  have hnone : sessionPairs (terminateAll cfg s ends).media.sessions = [] := by
    apply sessionPairs_eq_nil
    intro id
    by_contra hlive
    have hknown := hend.linked id (Option.isSome_iff_ne_none.mpr hlive)
    rw [getMediaSessionId, terminateAll_calls] at hknown
    split at hknown
    next => cases hknown
    next hout =>
      cases hcall : s.calls.lookup id with
      | none =>
          rw [hcall] at hknown
          cases hknown
      | some call =>
          apply hout
          apply hends
          rw [hcall]
          rfl
  rw [hend.books.inUse_iff, hnone]
  exact List.not_mem_nil

theorem getMediaSessionId_insert {call : MediaCall} (h : s'.calls = s.calls.insert uuid call)
    (other : List Char) :
    getMediaSessionId s' other =
      if other = uuid then call.mediaSessionId else getMediaSessionId s other := by
  rw [getMediaSessionId, h, lookup_insert_eq]
  split
  next => rfl
  next => rfl

section CreateCall

variable {draw : UInt64} {inboundCallId inboundTag : List Char} {callerAddr : SocketAddr}
  {callerSdp : Option (List Char)} {callerTransport : Transport} {result : Except Failure (List Char)}

theorem Invariant.create (h : Invariant cfg s)
    (hc : createCall cfg s draw inboundCallId inboundTag callerAddr callerSdp callerTransport clock =
      (result, s'))
    (hfresh : ∀ uuid, result = .ok uuid → s.media.sessions.lookup uuid = none) : Invariant cfg s' := by
  obtain ⟨e, -, hcalls, hbooks, hsessions⟩ | ⟨call, hok, hcalls, hmedia⟩ :=
    createCall_cases h.books hc
  · have hsame (id : List Char) : getMediaSessionId s' id = getMediaSessionId s id := by
      rw [getMediaSessionId, hcalls]
      rfl
    refine ⟨by rwa [hsessions], fun id hid => ?_, fun uuid id hid => ?_⟩
    · rw [hsessions] at hid
      rw [hsame]
      exact h.linked id hid
    · rw [hsame] at hid
      exact h.keyed uuid id hid
  · have hfree := hfresh _ hok
    have hknown := getMediaSessionId_insert hcalls
    rcases hmedia with ⟨hnone, hmedia⟩ | ⟨hown, session, hbooks, hsessions⟩
    · refine ⟨by rw [hmedia]; exact h.books, fun id hid => ?_, fun uuid id hid => ?_⟩
      · rw [hmedia] at hid
        have hne : id ≠ callUuid draw := by
          rintro rfl
          rw [hfree] at hid
          cases hid
        rw [hknown, if_neg hne]
        exact h.linked id hid
      · rw [hknown, hnone] at hid
        split at hid
        next => cases hid
        next => exact h.keyed uuid id hid
    · refine ⟨?_, fun id hid => ?_, fun uuid id hid => ?_⟩
      · rw [hsessions, sessionPairs_insert, erase_of_absent hfree]
        exact hbooks
      · rw [hknown]
        split
        next heq => rw [hown, heq]
        next hne =>
          rw [hsessions, AList.lookup_insert_ne hne] at hid
          exact h.linked id hid
      · rw [hknown, hown] at hid
        split at hid
        next heq => rw [heq, Option.some_inj.mp hid]
        next => exact h.keyed uuid id hid

/-- A session that no call knows outlives all calls. -/
theorem orphan_survives {id : List Char} {session : MediaSession}
    (hbooks : Books cfg.ports s.media.pool (sessionPairs s.media.sessions))
    (hlive : s.media.sessions.lookup id = some session)
    (hunknown : ∀ uuid, getMediaSessionId s uuid ≠ some id) (ends : List Ending) :
    InUse cfg.ports (terminateAll cfg s ends).media.pool session.ports := by
  induction ends generalizing s with
  | nil => exact hbooks.inUse_iff.mpr (mem_sessionPairs hlive)
  | cons e ends ih =>
      refine ih (terminate_books hbooks) ?_ fun uuid => ?_
      · rw [terminate_sessions, if_neg (hunknown e.uuid)]
        exact hlive
      · rw [terminate_getMediaSessionId]
        split
        next => exact (Option.some_ne_none id).symm
        next => exact hunknown uuid

def endingOf (uuid : List Char) : Ending := ⟨uuid, [], fun _ => 0⟩

theorem endsEvery_keys (s : B2buaManager) : EndsEvery s (s.calls.entries.keys.map endingOf) := by
  intro uuid hlive
  rw [List.map_map]
  exact List.mem_map.mpr ⟨uuid, AList.lookup_isSome.mp hlive, rfl⟩

/-- A uuid drawn again: with media, the new session takes the place of the old
one, whose pairs stay marked; without, the new call takes the place of the only
one that knows the session. -/
theorem Invariant.collides (h : Invariant cfg s)
    (hc : createCall cfg s draw inboundCallId inboundTag callerAddr callerSdp callerTransport clock =
      (.ok uuid, s'))
    {old : MediaSession} (hlive : s.media.sessions.lookup uuid = some old) :
    ¬(Conserved cfg s'.media ∧ ∀ ends, EndsEvery s' ends →
      ∀ pair, ¬InUse cfg.ports (terminateAll cfg s' ends).media.pool pair) := by
  rintro ⟨hcons, hdrain⟩
  obtain ⟨e, herr, -⟩ | ⟨call, hok, hcalls, hmedia⟩ := createCall_cases h.books hc
  · cases herr
  · cases hok
    rcases hmedia with ⟨hnone, hmedia⟩ | ⟨hown, session, hbooks, hsessions⟩
    · have hbooks : Books cfg.ports s'.media.pool (sessionPairs s'.media.sessions) := by
        rw [hmedia]
        exact h.books
      have hstill : s'.media.sessions.lookup (callUuid draw) = some old := by rw [hmedia, hlive]
      have hunknown : ∀ uuid, getMediaSessionId s' uuid ≠ some (callUuid draw) := by
        intro uuid hknown
        rw [getMediaSessionId_insert hcalls, hnone] at hknown
        split at hknown
        next => cases hknown
        next hne => exact hne (h.keyed uuid _ hknown).symm
      exact hdrain _ (endsEvery_keys s') _ (orphan_survives hbooks hstill hunknown _)
    · have hbefore := mem_sessionPairs hlive
      have hstill : old.ports ∈ sessionPairs s'.media.sessions := by
        rw [← hcons.inUse, hbooks.inUse_iff]
        exact List.mem_append_right _ hbefore
      rw [hsessions, sessionPairs_insert] at hstill
      have hall : (session.pairs ++ sessionPairs s.media.sessions).Nodup :=
        (List.nodup_append'.mp hbooks.nodup).1
      rw [List.nodup_append'] at hall
      have hrest := (sessionPairs_perm_erase hlive).nodup_iff.mp hall.2.1
      rcases List.mem_append.mp hstill with hnew | hold
      · exact hall.2.2 hnew hbefore
      · exact (List.nodup_append'.mp hrest).2.2 List.mem_cons_self hold

end CreateCall

theorem Invariant.advance (h : Invariant cfg s) {op : Op} (hfresh : FreshUuid cfg s op) :
    Invariant cfg (step cfg s op) := by
  cases op with
  | createCall draw inboundCallId inboundTag callerAddr callerSdp callerTransport clock =>
      exact h.create rfl fun uuid hok => hfresh uuid _ (Prod.ext hok rfl)
  | handleBye uuid clock => exact h.bye
  | terminateCallWithReason uuid reason clock => exact h.terminate
  | sweep now => exact ⟨h.books.sweep now, h.linked, h.keyed⟩

theorem Invariant.refusedClean (h : Invariant cfg s) (op : Op) : RefusedClean cfg s op := by
  cases op with
  | createCall draw inboundCallId inboundTag callerAddr callerSdp callerTransport clock =>
      intro e s' hc
      obtain ⟨e, -, hcalls, hbooks, hsessions⟩ | ⟨call, hok, -⟩ := createCall_cases h.books hc
      · exact ⟨fun pair => by rw [hbooks.inUse_iff, h.books.inUse_iff], hcalls⟩
      · cases hok
  | handleBye | terminateCallWithReason | sweep => trivial

theorem Invariant.contract_iff (h : Invariant cfg s) (op : Op) :
    PortContract cfg s op ↔ FreshUuid cfg s op := by
  constructor
  · intro hcontract
    cases op with
    | createCall draw inboundCallId inboundTag callerAddr callerSdp callerTransport clock =>
        intro uuid s' hc
        by_contra hlive
        obtain ⟨old, hold⟩ := Option.ne_none_iff_exists'.mp hlive
        obtain rfl : (createCall cfg s draw inboundCallId inboundTag callerAddr callerSdp
            callerTransport clock).2 = s' := by rw [hc]
        exact h.collides hc hold ⟨hcontract.conserved, hcontract.drained⟩
    | handleBye | terminateCallWithReason | sweep => trivial
  · intro hfresh
    have hnext := h.advance hfresh
    exact ⟨conserved_of_books hnext.books, h.refusedClean op, fun ends hends => hnext.drained hends⟩

def initial (cfg : Config) : B2buaManager := .new (withPortRangeAndHold cfg)

theorem invariant_initial (cfg : Config) : Invariant cfg (initial cfg) :=
  ⟨books_initial cfg.ports, fun _ h => absurd h (by simp [initial, B2buaManager.new, withPortRangeAndHold]),
    fun _ _ h => absurd h (by simp [initial, B2buaManager.new, getMediaSessionId])⟩

/-- Along every run, ports are conserved as long as no accepted call draws the
uuid of a live media session, and no longer. -/
theorem ports_conserved_iff_fresh_uuids (cfg : Config) (ops : List Op) :
    Throughout (step cfg) (PortContract cfg) (initial cfg) ops ↔
      Throughout (step cfg) (FreshUuid cfg) (initial cfg) ops :=
  throughout_iff (fun _ op h => h.contract_iff op)
    (fun _ op h hcontract => h.advance ((h.contract_iff op).mp hcontract)) (invariant_initial cfg)

def fourPairs : Config := ⟨⟨10000, 10008, 0⟩, none⟩

def plainOffer : List Char := "v=0\r\no=- 1 1 IN IP4 192.0.2.1\r\ns=-\r\nt=0 0\r\n".toList

theorem rewriteOffer_plainOffer : ∃ text, rewriteOffer fourPairs (some plainOffer) 10000 = .ok text :=
  ⟨_, rfl⟩

theorem createSession_plainOffer (sessionId : List Char) : ∃ session m,
    createSession fourPairs (withPortRangeAndHold fourPairs) sessionId (some plainOffer) (fun _ => 0) =
      (.ok session, m) := by
  obtain ⟨text, htext⟩ := rewriteOffer_plainOffer
  rw [createSession, allocate_at_cursor 10000 rfl (by decide) (by decide) (by decide)]
  dsimp only
  rw [allocate_at_cursor 10002, htext]
  · exact ⟨_, _, rfl⟩
  · rfl
  · decide
  · decide
  · decide

def offered : Op :=
  .createCall 7 "a".toList "t".toList (NetAddr.ofOctets 192 0 2 1 5060) (some plainOffer) .udp fun _ => 0

def offerless : Op :=
  .createCall 7 "b".toList "t".toList (NetAddr.ofOctets 192 0 2 2 5060) none .udp fun _ => 0

theorem createCall_media {draw : UInt64} {inboundCallId inboundTag sdp : List Char}
    {callerAddr : SocketAddr} {callerTransport : Transport} {session : MediaSession}
    {media : MediaManager}
    (hs : createSession cfg s.media (callUuid draw) (some sdp) clock = (.ok session, media)) :
    (createCall cfg s draw inboundCallId inboundTag callerAddr (some sdp) callerTransport clock).2.media =
      media := by
  rw [createCall]
  dsimp only [MediaCall.new, B2bua.B2buaCall.new]
  rw [hs]
  rfl

theorem offered_live : ∃ session,
    (step fourPairs (initial fourPairs) offered).media.sessions.lookup (callUuid 7) =
      some session := by
  obtain ⟨session, m, hs⟩ := createSession_plainOffer (callUuid 7)
  obtain ⟨-, -, hsessions⟩ := createSession_books (books_initial fourPairs.ports) hs
  have hmedia : (step fourPairs (initial fourPairs) offered).media = m := createCall_media hs
  exact ⟨session, by rw [hmedia, hsessions, AList.lookup_insert]⟩

/-- A uuid drawn a second time: the second call has no media, and the session of
the first outlives both. -/
theorem repeated_uuid_leaks_session :
    ¬Throughout (step fourPairs) (PortContract fourPairs) (initial fourPairs)
      [offered, offerless] := by
  rintro ⟨hfirst, hsecond, -⟩
  have hinv := invariant_initial fourPairs
  have hnext := hinv.advance ((hinv.contract_iff offered).mp hfirst)
  have hfresh := (hnext.contract_iff offerless).mp hsecond
  obtain ⟨session, hlive⟩ := offered_live
  rw [hfresh (callUuid 7) _ rfl] at hlive
  cases hlive

end NixiSbc.CallPorts

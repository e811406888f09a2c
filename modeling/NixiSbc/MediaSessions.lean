import NixiSbc.KeyedTable
import NixiSbc.PortBooks
import NixiSbc.Sdp

namespace NixiSbc.MediaSessions

open Diagnostics NetAddr Stun PortAllocator PortBooks KeyedTable Sdp

/-- The errors of the two managers: those of the allocator are passed on. -/
inductive Failure
  | ports (error : Error)
  | parse (text : List Char)
  | transport (text : List Char)
  | dialog (text : List Char)
  deriving DecidableEq

/-- The text under which an error is shown. -/
def Failure.describe : Failure → List Char
  | .ports (.transport text) => "Transport error: ".toList ++ text.toList
  | .ports (.media text) => "Media error: ".toList ++ text.toList
  | .parse text => "Parse error: ".toList ++ text
  | .transport text => "Transport error: ".toList ++ text
  | .dialog text => "Dialog error: ".toList ++ text

structure MediaSession where
  sessionId : List Char
  ports : PortPair
  portsB : Option PortPair
  sdpCaller : Option (List Char)
  deriving DecidableEq

structure Config where
  ports : Settings
  publicIp : Option IpAddr

structure MediaManager where
  pool : Pool
  sessions : Table (List Char) MediaSession

def withPortRangeAndHold (cfg : Config) : MediaManager := ⟨withRangeAndHold cfg.ports, ∅⟩

def rewriteOffer (cfg : Config) (sdp : Option (List Char)) (rtpPort : UInt16) :
    Except (List Char) (Option (List Char)) :=
  match sdp with
  | none => .ok none
  | some text => (modifySdp cfg.publicIp text rtpPort).map some

/-- Two pairs, one after the other, and the rewritten offer; whatever was taken
goes back when a later step fails. The clock is read anew at each step. -/
def createSession (cfg : Config) (m : MediaManager) (sessionId : List Char) (sdp : Option (List Char))
    (clock : Nat → Nat) : Except Failure MediaSession × MediaManager :=
  match allocate cfg.ports m.pool (clock 0) with
  | (.error e, pool) => (.error (.ports e), { m with pool })
  | (.ok ports, pool) =>
      match allocate cfg.ports pool (clock 1) with
      | (.error e, pool) =>
          (.error (.ports e), { m with pool := release cfg.ports pool ports (clock 2) })
      | (.ok portsB, pool) =>
          match rewriteOffer cfg sdp ports.rtp with
          | .error text =>
              let pool := release cfg.ports pool ports (clock 2)
              (.error (.parse text), { m with pool := release cfg.ports pool portsB (clock 3) })
          | .ok sdpCaller =>
              let session := ⟨sessionId, ports, some portsB, sdpCaller⟩
              (.ok session, { m with pool, sessions := m.sessions.insert sessionId session })

def releaseSession (cfg : Config) (pool : Pool) (session : MediaSession) (clock : Nat → Nat) : Pool :=
  let pool := release cfg.ports pool session.ports (clock 0)
  match session.portsB with
  | none => pool
  | some portsB =>
      if portsB.rtp ≠ session.ports.rtp then release cfg.ports pool portsB (clock 1) else pool

def terminateSession (cfg : Config) (m : MediaManager) (sessionId : List Char) (clock : Nat → Nat) :
    Except Failure Unit × MediaManager :=
  match m.sessions.lookup sessionId with
  | none => (.error (.dialog ("Media session not found: ".toList ++ sessionId)), m)
  | some session =>
      (.ok (), ⟨releaseSession cfg m.pool session clock, m.sessions.erase sessionId⟩)

def sweep (cfg : Config) (m : MediaManager) (now : Nat) : MediaManager :=
  { m with pool := sweepQuarantine cfg.ports m.pool now }

def MediaSession.pairs (session : MediaSession) : List PortPair :=
  session.ports :: session.portsB.toList

def sessionPairs (sessions : Table (List Char) MediaSession) : List PortPair :=
  sessions.entries.flatMap fun e => e.2.pairs

variable {cfg : Config} {m m' : MediaManager} {sessionId : List Char} {sdp : Option (List Char)}
  {clock : Nat → Nat} {used : List PortPair} {session : MediaSession}

theorem sessionPairs_perm_erase {sessions : Table (List Char) MediaSession}
    (h : sessions.lookup sessionId = some session) :
    (sessionPairs sessions).Perm (session.pairs ++ sessionPairs (sessions.erase sessionId)) :=
  (entries_perm_erase h).flatMap_right _

theorem sessionPairs_insert (sessions : Table (List Char) MediaSession) (sessionId : List Char)
    (session : MediaSession) :
    sessionPairs (sessions.insert sessionId session) =
      session.pairs ++ sessionPairs (sessions.erase sessionId) := rfl

/-- A session that is made holds two pairs that nobody held; a refusal leaves
what is held, and the sessions, as they were. -/
theorem createSession_books {result : Except Failure MediaSession} (h : Books cfg.ports m.pool used)
    (hc : createSession cfg m sessionId sdp clock = (result, m')) :
    match result with
    | .ok session => Books cfg.ports m'.pool (session.pairs ++ used) ∧ session.sessionId = sessionId ∧
        m'.sessions = m.sessions.insert sessionId session
    | .error _ => Books cfg.ports m'.pool used ∧ m'.sessions = m.sessions := by
  rw [createSession] at hc
  split at hc
  next e pool ha =>
    cases hc
    exact ⟨h.allocate ha, rfl⟩
  next ports pool ha =>
    have hone : Books cfg.ports pool (ports :: used) := h.allocate ha
    split at hc
    next e pool' hb =>
      cases hc
      have hsame : Books cfg.ports pool' (ports :: used) := hone.allocate hb
      exact ⟨hsame.release _, rfl⟩
    next portsB pool' hb =>
      have htwo : Books cfg.ports pool' (portsB :: ports :: used) := hone.allocate hb
      have hboth : Books cfg.ports pool' (ports :: portsB :: used) := htwo.perm (.swap _ _ _)
      split at hc
      next text hsdp =>
        cases hc
        exact ⟨(hboth.release _).release _, rfl⟩
      next sdpCaller hsdp =>
        cases hc
        exact ⟨hboth, rfl, rfl⟩

theorem releaseSession_books {pool : Pool} (h : Books cfg.ports pool (session.pairs ++ used)) :
    Books cfg.ports (releaseSession cfg pool session clock) used := by
  have hfirst : Books cfg.ports (release cfg.ports pool session.ports (clock 0))
      (session.portsB.toList ++ used) := h.release _
  rw [releaseSession]
  split
  next hb =>
    rw [hb] at hfirst
    exact hfirst
  next portsB hb =>
    rw [hb] at hfirst
    have hne : portsB.rtp ≠ session.ports.rtp := by
      intro heq
      have hapart := List.pairwise_cons.mp h.apart
      have hmem : portsB ∈ session.portsB.toList ++ used := by
        rw [hb]
        exact List.mem_cons_self
      exact hapart.1 portsB hmem (.inl heq.symm)
    rw [if_pos hne]
    exact hfirst.release _

theorem terminateSession_books (h : Books cfg.ports m.pool (sessionPairs m.sessions)) :
    Books cfg.ports (terminateSession cfg m sessionId clock).2.pool
      (sessionPairs (terminateSession cfg m sessionId clock).2.sessions) := by
  rw [terminateSession]
  split
  next hnone => exact h
  next session hsome => exact releaseSession_books (h.perm (sessionPairs_perm_erase hsome).symm)

/-- Whether the session was there or not, it is gone, and no other is. -/
theorem terminateSession_lookup (cfg : Config) (m : MediaManager) (sessionId other : List Char)
    (clock : Nat → Nat) :
    (terminateSession cfg m sessionId clock).2.sessions.lookup other =
      if other = sessionId then none else m.sessions.lookup other := by
  rw [terminateSession]
  split
  next hnone => rw [← lookup_erase_eq, erase_of_absent hnone]
  next session hsome => exact lookup_erase_eq m.sessions sessionId other

end NixiSbc.MediaSessions

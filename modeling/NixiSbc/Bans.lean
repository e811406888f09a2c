import NixiSbc.KeyedTable
import NixiSbc.NetAddr
import NixiSbc.TimeQueue

namespace NixiSbc.Bans

open KeyedTable NetAddr TimeQueue

/-- Both clocks count nanoseconds. -/
def second : Nat := 1000000000

/-- What the two clocks of the host show: the monotonic one, and the system
time since the epoch. -/
structure Clock where
  instant : Nat
  system : Nat

structure BanConfig where
  enabled : Bool
  maxFailures : UInt32
  windowSecs : UInt64
  banDurationSecs : UInt64
  repeatOffenderMultiplier : UInt32
  maxBanSecs : UInt64
  whitelist : List (List Char)

structure BanEntry where
  ip : IpAddr
  reason : List Char
  bannedAt : Nat
  expiresAt : Nat
  failures : UInt32
  manual : Bool
  offenseCount : UInt32
  deriving DecidableEq

def BanEntry.isExpired (e : BanEntry) (now : Clock) : Bool := e.expiresAt ≤ now.system

structure Offense where
  count : UInt32
  last : Nat

structure BanManager where
  config : BanConfig
  failures : Table IpAddr (List Nat)
  bans : Table IpAddr BanEntry
  offenses : Table IpAddr Offense

def BanManager.new (config : BanConfig) : BanManager := ⟨config, ∅, ∅, ∅⟩

def isLoopback : IpAddr → Bool
  | .v4 octets => octets.toList.head? = some 127
  | .v6 octets => octets.toList = List.replicate 15 0 ++ [1]

/-- Whether a text is a network that has the address, if it is a network. -/
abbrev Networks := List Char → IpAddr → Option Bool

def isWhitelisted (N : Networks) (config : BanConfig) (ip : IpAddr) : Bool :=
  isLoopback ip || config.whitelist.any fun w => (N w ip).getD (w = showIp ip)

/-- What a look at the bans finds. -/
inductive Look
  | free
  | banned
  | expired
  deriving DecidableEq

def look (m : BanManager) (now : Clock) (ip : IpAddr) : Look :=
  match m.bans.lookup ip with
  | some e => if e.isExpired now then .expired else .banned
  | none => .free

theorem look_eq_expired {m : BanManager} {now : Clock} {ip : IpAddr} (h : look m now ip = .expired) :
    ∃ e, m.bans.lookup ip = some e ∧ e.isExpired now = true := by
  rw [look] at h
  cases hb : m.bans.lookup ip with
  | none =>
      rw [hb] at h
      cases h
  | some e =>
      refine ⟨e, rfl, ?_⟩
      by_contra hexp
      simp only [hb, hexp, if_false, reduceCtorEq] at h

def removeBan (m : BanManager) (ip : IpAddr) : BanManager := { m with bans := m.bans.erase ip }

def insertBan (m : BanManager) (ip : IpAddr) (e : BanEntry) : BanManager :=
  { m with bans := m.bans.insert ip e }

def isBanned (m : BanManager) (now : Clock) (ip : IpAddr) : Bool × BanManager :=
  if m.config.enabled then
    match look m now ip with
    | .banned => (true, m)
    | .expired => (false, removeBan m ip)
    | .free => (false, m)
  else (false, m)

def window (config : BanConfig) : Nat := config.windowSecs.toNat * second

def strikesOf (m : BanManager) (ip : IpAddr) : List Nat := (m.failures.lookup ip).getD []

/-- Add a strike to those within the window; returns how many there are now. -/
def strike (m : BanManager) (now : Clock) (ip : IpAddr) : UInt32 × BanManager :=
  let strikes := expire (window m.config) now.instant (strikesOf m ip) ++ [now.instant]
  (UInt32.ofNat strikes.length, { m with failures := m.failures.insert ip strikes })

def removeFailures (m : BanManager) (ip : IpAddr) : BanManager :=
  { m with failures := m.failures.erase ip }

/-- The number that the next offense has. -/
def nextOffense (m : BanManager) (ip : IpAddr) : UInt32 :=
  ((m.offenses.lookup ip).map Offense.count).getD 0 + 1

def insertOffense (m : BanManager) (now : Clock) (ip : IpAddr) (count : UInt32) : BanManager :=
  { m with offenses := m.offenses.insert ip ⟨count, now.instant⟩ }

def u32Max : Nat := 2 ^ 32 - 1

def u64Max : Nat := 2 ^ 64 - 1

def factor (config : BanConfig) (offense : UInt32) : Nat :=
  max (min (config.repeatOffenderMultiplier.toNat ^ (offense.toNat - 1)) u32Max) 1

def banSecs (config : BanConfig) (offense : UInt32) : Nat :=
  min (min (config.banDurationSecs.toNat * factor config offense) u64Max) config.maxBanSecs.toNat

/-- A system time so many seconds later, unless that overflows its signed seconds. -/
def addSecs (system secs : Nat) : Option Nat :=
  if system / second + secs < 2 ^ 63 then some (system + secs * second) else none

/-- The ban that an offense earns; there is none when its end overflows. -/
def earned (config : BanConfig) (now : Clock) (ip : IpAddr) (reason : List Char)
    (count offense : UInt32) : Option BanEntry :=
  (addSecs now.system (banSecs config offense)).map fun expiresAt =>
    ⟨ip, reason, now.system, expiresAt, count, false, offense⟩

/-- What a strike comes to: the code panics when the end of the ban overflows. -/
inductive Struck
  | passed
  | banned (entry : BanEntry)
  | panicked
  deriving DecidableEq

def punish (m : BanManager) (now : Clock) (ip : IpAddr) (reason : List Char) (count : UInt32) :
    Struck × BanManager :=
  let offense := nextOffense m ip
  let m := insertOffense (removeFailures m ip) now ip offense
  match earned m.config now ip reason count offense with
  | some e => (.banned e, insertBan m ip e)
  | none => (.panicked, m)

def recordFailure (N : Networks) (m : BanManager) (now : Clock) (ip : IpAddr) (reason : List Char) :
    Struck × BanManager :=
  if !m.config.enabled || isWhitelisted N m.config ip then (.passed, m)
  else
    let looked := isBanned m now ip
    if looked.1 then (.passed, looked.2)
    else
      let struck := strike looked.2 now ip
      if struck.1 < m.config.maxFailures then (.passed, struck.2)
      else punish struck.2 now ip reason struck.1

/-- How long an offender is remembered. -/
def forgetAfter (config : BanConfig) : Nat :=
  max (min (config.maxBanSecs.toNat * 2) u64Max) config.windowSecs.toNat * second

def isStale (m : BanManager) (now : Clock) (q : List Nat) : Bool :=
  idle (window m.config) now.instant q

def isCold (m : BanManager) (now : Clock) (ip : IpAddr) (o : Offense) : Bool :=
  decide (forgetAfter m.config < now.instant - o.last) && (m.bans.lookup ip).isNone

/-- Drop the windows with no recent strike and forget the cold offenders;
returns how many entries went. -/
def pruneStaleWindows (m : BanManager) (now : Clock) : Nat × BanManager :=
  (count (isStale m now) m.failures + (collect (fun ip o => guard (isCold m now ip o)) m.offenses).length,
    { m with
      failures := sweep (fun _ q => if isStale m now q then none else some q) m.failures
      offenses := sweep (fun ip o => if isCold m now ip o then none else some o) m.offenses })

def cleanupExpired (m : BanManager) (now : Clock) : Nat × BanManager :=
  (count (·.isExpired now) m.bans,
    { m with bans := sweep (fun _ e => if e.isExpired now then none else some e) m.bans })

/-- A manual ban for a number of nanoseconds, still without the number of the
offense; the code panics when its end overflows. -/
def manualEntry (now : Clock) (ip : IpAddr) (duration : Nat) (reason : List Char) :
    Option BanEntry :=
  if now.system + duration < 2 ^ 63 * second then
    some ⟨ip, reason, now.system, now.system + duration, 0, true, 0⟩
  else none

def numbered (e : BanEntry) (offense : UInt32) : BanEntry := { e with offenseCount := offense }

def ban (m : BanManager) (now : Clock) (ip : IpAddr) (duration : Nat) (reason : List Char) :
    Option BanEntry × BanManager :=
  match manualEntry now ip duration reason with
  | some e =>
      let e := numbered e (nextOffense m ip)
      (some e, insertBan m ip e)
  | none => (none, m)

def unban (m : BanManager) (ip : IpAddr) : Bool × BanManager :=
  ((m.bans.lookup ip).isSome, removeBan m ip)

/-- A persisted ban comes back, unless it has expired meanwhile. -/
def restore (m : BanManager) (now : Clock) (e : BanEntry) : BanManager :=
  if e.isExpired now then m
  else insertBan (insertOffense m now e.ip e.offenseCount) e.ip e

end NixiSbc.Bans

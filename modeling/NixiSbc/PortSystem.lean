import NixiSbc.PortAllocator
import Mathlib.Logic.Function.Basic

namespace NixiSbc.PortSystem

open Diagnostics PortAllocator

/-- The calls that begin with a sweep. -/
inductive Call
  | allocate
  | sweep
  | quarantinedCount
  deriving DecidableEq

/-- Where a client stands: each constructor but `idle` is in front of the next
lock acquisition (or the atomic increment) of its call. -/
inductive Pc
  | idle
  | sweeping (call : Call) (now : Nat)
  | expiring (call : Call) (now : Nat)
  | searching
  | choosing
  | forcing
  | counting (pair : PortPair)
  | reading
  | releasing (pair : PortPair)
  deriving DecidableEq

def Call.afterSweep : Call → Pc
  | .allocate => .searching
  | .sweep => .idle
  | .quarantinedCount => .reading

/-- What the calls return, and the moment a pair is given back. -/
inductive Event (Client : Type)
  | handOut (client : Client) (pair : PortPair) (forced : Bool) (time : Nat)
  | refused (client : Client) (error : Error)
  | counted (client : Client) (quarantined : Nat)
  | released (client : Client) (pair : PortPair) (time : Nat)

structure System (Client : Type) where
  pool : Pool
  quarantineLock : Option Client
  allocatedLock : Option Client
  clock : Nat
  pc : Client → Pc
  held : Client → List PortPair
  history : List (Event Client)

variable {Client : Type} [DecidableEq Client]

def initial (cfg : Settings) : System Client :=
  ⟨withRangeAndHold cfg, none, none, 0, fun _ => .idle, fun _ => [], []⟩

def System.goto (s : System Client) (c : Client) (pc : Pc) : System Client :=
  { s with pc := Function.update s.pc c pc }

def System.record (s : System Client) (e : Event Client) : System Client :=
  { s with history := e :: s.history }

def System.handOut (s : System Client) (c : Client) (pair : PortPair) (forced : Bool) :
    System Client :=
  { s with
    held := Function.update s.held c (pair :: s.held c)
    history := .handOut c pair forced s.clock :: s.history }

/-- The next step of a client inside a call. It is blocked while the lock that
the step takes is held elsewhere. The cursor lock is only ever taken under the
`allocated` lock and given back with it, so it is free whenever it is wanted. -/
def resume (cfg : Settings) (s : System Client) (c : Client) : Option (System Client) :=
  match s.pc c with
  | .idle => none
  | .sweeping call now =>
      if s.quarantineLock.isSome then none
      else if s.pool.quarantine = [] then some (s.goto c call.afterSweep)
      else some ({ s with quarantineLock := some c }.goto c (.expiring call now))
  | .expiring call now =>
      if s.allocatedLock.isSome then none
      else some ({ s with
        pool := sweepQuarantine cfg s.pool now
        quarantineLock := none }.goto c call.afterSweep)
  | .searching =>
      if s.allocatedLock.isSome then none
      else some ({ s with allocatedLock := some c }.goto c .choosing)
  | .choosing =>
      match takeFree cfg s.pool with
      | (some pair, pool) =>
          some (({ s with pool := pool, allocatedLock := none }.handOut c pair false).goto c .idle)
      | (none, pool) => some ({ s with pool := pool, allocatedLock := none }.goto c .forcing)
  | .forcing =>
      if s.quarantineLock.isSome then none
      else
        match popOldest s.pool with
        | (some pair, pool) => some ({ s with pool := pool }.goto c (.counting pair))
        | (none, pool) =>
            some (({ s with pool := pool }.record
              (.refused c (.transport "No available ports in range"))).goto c .idle)
  | .counting pair =>
      some (({ s with
        pool := { s.pool with forced := s.pool.forced + 1 } }.handOut c pair true).goto c .idle)
  | .reading =>
      if s.quarantineLock.isSome then none
      else some ((s.record (.counted c s.pool.quarantine.length)).goto c .idle)
  | .releasing pair =>
      if cfg.hold = 0 then
        if s.allocatedLock.isSome then none
        else some (({ s with pool := unmark s.pool pair }.record
          (.released c pair s.clock)).goto c .idle)
      else if s.quarantineLock.isSome then none
      else some (({ s with pool := enqueue s.pool pair s.clock }.record
        (.released c pair s.clock)).goto c .idle)

/-- The scheduler's moves: time passes, an idle client starts a call, a client
inside a call takes its next step. A client releases only what it holds, and no
longer holds it from then on. -/
inductive Action (Client : Type)
  | pass (ticks : Nat)
  | call (client : Client) (call : Call)
  | release (client : Client) (pair : PortPair)
  | resume (client : Client)

def step (cfg : Settings) (s : System Client) : Action Client → Option (System Client)
  | .pass ticks => some { s with clock := s.clock + ticks }
  | .call c call => if s.pc c = .idle then some (s.goto c (.sweeping call s.clock)) else none
  | .release c pair =>
      if s.pc c = .idle ∧ pair ∈ s.held c then
        some ({ s with
          held := Function.update s.held c ((s.held c).erase pair) }.goto c (.releasing pair))
      else none
  | .resume c => resume cfg s c

def run (cfg : Settings) : System Client → List (Action Client) → Option (System Client)
  | s, [] => some s
  | s, a :: actions => (step cfg s a).bind fun s => run cfg s actions

end NixiSbc.PortSystem

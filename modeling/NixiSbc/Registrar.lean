import NixiSbc.Eviction
import NixiSbc.NetAddr
import Mathlib.Data.Prod.Lex

namespace NixiSbc.Registrar

open Stun TextFields NetAddr KeyedTable Eviction

/-- The bounds on the interval that a registration is granted, in seconds. -/
structure RegisterPolicy where
  minExpires : UInt32
  maxExpires : UInt32
  defaultExpires : UInt32
  min_le_max : minExpires ≤ maxExpires

def atLeast (low x : UInt32) : UInt32 := if x < low then low else x

def atMost (high x : UInt32) : UInt32 := if high < x then high else x

theorem le_atLeast (low x : UInt32) : low ≤ atLeast low x := by
  rw [atLeast]
  split
  next => exact UInt32.le_refl low
  next h => exact UInt32.not_lt.mp h

theorem atMost_le (high x : UInt32) : atMost high x ≤ high := by
  rw [atMost]
  split
  next => exact UInt32.le_refl high
  next h => exact UInt32.not_lt.mp h

theorem atLeast_atMost_le {low high : UInt32} (h : low ≤ high) (x : UInt32) :
    atLeast low (atMost high x) ≤ high := by
  rw [atLeast]
  split
  next => exact h
  next => exact atMost_le high x

/-- From the configured values, with nonsense corrected. -/
def RegisterPolicy.fromConfig (minExpires maxExpires defaultExpires : UInt32) : RegisterPolicy where
  minExpires := atLeast 1 minExpires
  maxExpires := atLeast (atLeast 1 minExpires) maxExpires
  defaultExpires :=
    atLeast (atLeast 1 minExpires) (atMost (atLeast (atLeast 1 minExpires) maxExpires) defaultExpires)
  min_le_max := le_atLeast _ _

/-- The policy of a configuration grants its default. -/
theorem RegisterPolicy.fromConfig_default (minExpires maxExpires defaultExpires : UInt32) :
    1 ≤ (fromConfig minExpires maxExpires defaultExpires).minExpires ∧
      (fromConfig minExpires maxExpires defaultExpires).minExpires ≤
        (fromConfig minExpires maxExpires defaultExpires).defaultExpires ∧
      (fromConfig minExpires maxExpires defaultExpires).defaultExpires ≤
        (fromConfig minExpires maxExpires defaultExpires).maxExpires :=
  ⟨le_atLeast _ _, le_atLeast _ _, atLeast_atMost_le (le_atLeast _ _) _⟩

structure Registration where
  aor : List Char
  contact : List Char
  expires : UInt32
  registeredAt : Nat
  registeredAtMs : Nat
  expiresAt : Nat
  callId : List Char
  cseq : UInt32
  userAgent : Option (List Char)
  receivedIp : List Char
  receivedPort : UInt16
  transport : List Char
  replyTx : Option Nat
  instanceId : Option (List Char)
  regId : Option UInt32
  deriving DecidableEq

def maxBindingsPerAor : Nat := 10

def maxContactsPerRequest : Nat := 10

def maxBindingsTotal : Nat := 5000

def tombstoneTtlMs : Nat := 64000

def maxTombstones : Nat := 4096

/-- What identifies a binding within an address of record. -/
def bindingKey (contact : List Char) (instanceId : Option (List Char)) (regId : Option UInt32) :
    List Char :=
  match instanceId with
  | some id => "instance:".toList ++ id ++ ':' :: showNat ((regId.map UInt32.toNat).getD 0)
  | none => "contact:".toList ++ contact

def Registration.bindingKey (r : Registration) : List Char :=
  Registrar.bindingKey r.contact r.instanceId r.regId

/-- A time in milliseconds, in whole seconds. -/
def toSecs (now : Nat) : Nat := now / 1000

def port : SocketAddr → UInt16
  | .v4 _ port => port
  | .v6 _ port _ _ => port

def Registration.new (V : Uppering) (now : Nat) (aor contact : List Char) (expires : UInt32)
    (callId : List Char) (cseq : UInt32) (received : SocketAddr) (transport : List Char) :
    Registration where
  aor
  contact
  expires
  registeredAt := toSecs now
  registeredAtMs := now
  expiresAt := toSecs now + expires.toNat
  callId
  cseq
  userAgent := none
  receivedIp := showIp (NetAddr.ip received)
  receivedPort := port received
  transport := toUppercase V transport
  replyTx := none
  instanceId := none
  regId := none

/-- A newer request of the same binding; the agent and the reply channel change
only when it brings one. -/
def Registration.refreshFrom (r fresh : Registration) : Registration :=
  { fresh with
    aor := r.aor
    userAgent := fresh.userAgent.or r.userAgent
    replyTx := fresh.replyTx.or r.replyTx }

/-- Address of record and binding key. -/
abbrev RegKey := List Char × List Char

/-- Which request removed a binding, and when. -/
structure Tombstone where
  callId : List Char
  cseq : UInt32
  removedAt : Nat
  deriving DecidableEq

structure InMemoryRegistrar where
  regs : Table RegKey Registration
  tombstones : Table RegKey Tombstone

def InMemoryRegistrar.new : InMemoryRegistrar := ⟨∅, ∅⟩

/-- Call-ID and CSeq of a request. -/
abbrev Dialog := List Char × UInt32

def isFresh (now : Nat) (t : Tombstone) : Bool := now - t.removedAt < tombstoneTtlMs

def entomb (now : Nat) (key : RegKey) (dialog : Option Dialog) (tombs : Table RegKey Tombstone) :
    Table RegKey Tombstone :=
  match dialog with
  | none => tombs
  | some (callId, cseq) =>
      if maxTombstones ≤ size tombs then
        let tombs := retain (isFresh now) tombs
        if maxTombstones ≤ size tombs then tombs else tombs.insert key ⟨callId, cseq, now⟩
      else tombs.insert key ⟨callId, cseq, now⟩

def age (r : Registration) : Nat ×ₗ Nat := toLex (r.registeredAtMs, r.expiresAt)

def ofAor (aor : List Char) (k : RegKey) : Bool := k.1 = aor

def aorFull (aor : List Char) (m : Table RegKey Registration) : Bool :=
  maxBindingsPerAor ≤ countKeys (ofAor aor) m

def tableFull (m : Table RegKey Registration) : Bool := maxBindingsTotal ≤ size m

def Registration.key (r : Registration) : RegKey := (r.aor, r.bindingKey)

/-- The request is of the same dialog and not newer. -/
def notNewer (callId : List Char) (cseq : UInt32) (existing : Registration) : Bool :=
  existing.callId = callId && decide (cseq ≤ existing.cseq)

section

variable (I : Iteration RegKey Registration)

/-- The table after room has been made for one more binding of an address of record. -/
def bounded (aor : List Char) (m : Table RegKey Registration) : Table RegKey Registration :=
  evictOldestWhile I age tableFull (evictOldestWhile I age (aorFull aor) m)

def register (s : InMemoryRegistrar) (reg : Registration) : Registration × InMemoryRegistrar :=
  match s.regs.lookup reg.key with
  | some existing =>
      if notNewer reg.callId reg.cseq existing then (existing, s)
      else
        let stored := existing.refreshFrom reg
        (stored, { s with regs := s.regs.insert reg.key stored })
  | none => (reg, { s with regs := (bounded I reg.aor s.regs).insert reg.key reg })

/-- An un-REGISTER of the same dialog must be newer; one of another dialog
spares a binding that is younger than half a second. -/
def spared (now : Nat) (dialog : Option Dialog) (existing : Registration) : Bool :=
  match dialog with
  | some (callId, cseq) =>
      if existing.callId = callId then decide (cseq ≤ existing.cseq)
      else decide (now - existing.registeredAtMs < 500)
  | none => false

def unregisterBinding (s : InMemoryRegistrar) (now : Nat) (aor key : List Char)
    (dialog : Option Dialog) : Option Registration × InMemoryRegistrar :=
  match s.regs.lookup (aor, key) with
  | none => (none, s)
  | some existing =>
      if spared now dialog existing then (none, s)
      else
        (some existing,
          ⟨s.regs.erase (aor, key), entomb now (aor, key) dialog s.tombstones⟩)

/-- A wildcard takes every binding that its own dialog does not hold as new. -/
def wiped (dialog : Option Dialog) (r : Registration) : Bool :=
  match dialog with
  | some (callId, cseq) => !notNewer callId cseq r
  | none => true

def unregisterAll (s : InMemoryRegistrar) (now : Nat) (aor : List Char) (dialog : Option Dialog) :
    List Registration × InMemoryRegistrar :=
  let gone := (I.order s.regs).filter fun e => ofAor aor e.1 && wiped dialog e.2
  (gone.map Sigma.snd,
    ⟨sweep (fun k r => if ofAor aor k && wiped dialog r then none else some r) s.regs,
      gone.foldl (fun tombs e => entomb now e.1 dialog tombs) s.tombstones⟩)

def lookup (s : InMemoryRegistrar) (now : Nat) (aor : List Char) : List Registration :=
  ((I.order s.regs).filter fun e => ofAor aor e.1 && decide (toSecs now < e.2.expiresAt)).map Sigma.snd

def isOutOfOrder (s : InMemoryRegistrar) (now : Nat) (key : RegKey) (callId : List Char)
    (cseq : UInt32) : Bool :=
  match s.regs.lookup key with
  | some existing => notNewer callId cseq existing
  | none =>
      match s.tombstones.lookup key with
      | some t => isFresh now t && decide (t.callId = callId) && decide (cseq ≤ t.cseq)
      | none => false

def isOver (now : Nat) (r : Registration) : Bool := r.expiresAt ≤ toSecs now

def cleanupExpired (s : InMemoryRegistrar) (now : Nat) : List Registration × InMemoryRegistrar :=
  (((I.order s.regs).filter fun e => isOver now e.2).map Sigma.snd,
    ⟨retain (fun r => !isOver now r) s.regs, retain (isFresh now) s.tombstones⟩)

end

structure ContactBinding where
  uri : List Char
  expires : Option UInt32
  instanceId : Option (List Char)
  regId : Option UInt32
  deriving DecidableEq

def ContactBinding.key (c : ContactBinding) : List Char := bindingKey c.uri c.instanceId c.regId

/-- A REGISTER with its headers parsed. -/
structure RegisterRequest where
  aor : List Char
  contacts : List ContactBinding
  wildcard : Bool
  expiresHeader : Option UInt32
  callId : List Char
  cseq : UInt32
  source : SocketAddr
  transport : List Char
  userAgent : Option (List Char)
  replyTx : Option Nat

inductive RegisterResult
  | ok (bindings registered removed : List Registration) (granted : Option UInt32)
  | intervalTooBrief (minExpires : UInt32)
  | badRequest (text : List Char)
  deriving DecidableEq

section

variable (I : Iteration RegKey Registration) (V : Uppering)

def asked (policy : RegisterPolicy) (req : RegisterRequest) (c : ContactBinding) : UInt32 :=
  (c.expires.or req.expiresHeader).getD policy.defaultExpires

def tooBrief (policy : RegisterPolicy) (req : RegisterRequest) (c : ContactBinding) : Bool :=
  decide (0 < asked policy req c) && decide (asked policy req c < policy.minExpires)

def granted (policy : RegisterPolicy) (req : RegisterRequest) (c : ContactBinding) : UInt32 :=
  atMost policy.maxExpires (asked policy req c)

/-- The binding that a contact of a request asks for. -/
def wanted (now : Nat) (req : RegisterRequest) (c : ContactBinding) (expires : UInt32) : Registration :=
  { Registration.new V now req.aor c.uri expires req.callId req.cseq req.source req.transport with
    userAgent := req.userAgent
    replyTx := req.replyTx
    instanceId := c.instanceId
    regId := c.regId }

/-- What the contacts handled so far came to. -/
structure Progress where
  registered : List Registration
  removed : List Registration
  granted : Option UInt32

def applyContact (policy : RegisterPolicy) (now : Nat) (req : RegisterRequest)
    (p : Progress × InMemoryRegistrar) (c : ContactBinding) : Progress × InMemoryRegistrar :=
  if isOutOfOrder p.2 now (req.aor, c.key) req.callId req.cseq then p
  else if granted policy req c = 0 then
    let r := unregisterBinding p.2 now req.aor c.key (some (req.callId, req.cseq))
    ({ p.1 with removed := p.1.removed ++ r.1.toList }, r.2)
  else
    let r := register I p.2 (wanted V now req c (granted policy req c))
    ({ p.1 with
        registered := p.1.registered ++ [r.1]
        granted := p.1.granted.or (some (granted policy req c)) }, r.2)

def process (policy : RegisterPolicy) (s : InMemoryRegistrar) (now : Nat) (req : RegisterRequest) :
    RegisterResult × InMemoryRegistrar :=
  if req.wildcard then
    if req.contacts ≠ [] then
      (.badRequest "Contact: * cannot be combined with other contacts".toList, s)
    else if req.expiresHeader = some 0 then
      let r := unregisterAll I s now req.aor (some (req.callId, req.cseq))
      (.ok [] [] r.1 none, r.2)
    else (.badRequest "Contact: * requires Expires: 0".toList, s)
  else if req.contacts = [] then (.ok (lookup I s now req.aor) [] [] none, s)
  else if maxContactsPerRequest < req.contacts.length then
    (.badRequest ("too many Contact bindings in one REGISTER (".toList ++ showNat req.contacts.length ++
      ", max ".toList ++ showNat maxContactsPerRequest ++ ")".toList), s)
  else if req.contacts.any (tooBrief policy req) then (.intervalTooBrief policy.minExpires, s)
  else
    let p := req.contacts.foldl (applyContact I V policy now req) (⟨[], [], none⟩, s)
    (.ok (lookup I p.2 now req.aor) p.1.registered p.1.removed p.1.granted, p.2)

end

end NixiSbc.Registrar

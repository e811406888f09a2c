import NixiSbc.B2bua
import NixiSbc.KeyedTable

namespace NixiSbc.InviteTx

open ByteWords Stun KeyedTable
open B2bua (Transport)

/-- Durations and times are in milliseconds. -/
def finalAbsorb : Nat := 32000

def pendingAbsorb : Nat := 180000

def maxEntries : Nat := 10000

def timerT1 : Nat := 500

def timerT2 : Nat := 4000

def maxRetransmits : Nat := 9

structure Retransmit where
  dest : SocketAddr
  transport : Transport
  replyTx : Option Nat
  nextAt : Nat
  interval : Nat
  sent : Nat
  deriving DecidableEq

structure TxEntry where
  lastResponse : Option Bytes
  firstSeen : Nat
  finalAt : Option Nat
  acked : Bool
  retransmit : Option Retransmit
  deriving DecidableEq

abbrev Cache := Table (List Char) TxEntry

/-- The first of the entries that were seen at the earliest time. -/
def oldest (cache : Cache) : Option (List Char) :=
  (cache.entries.foldl
    (fun best e =>
      match best with
      | none => some e
      | some b => if e.2.firstSeen < b.2.firstSeen then some e else some b)
    none).map Sigma.fst

/-- A full table loses its oldest entry. -/
def evict (cache : Cache) : Cache :=
  if size cache ≥ maxEntries then
    match oldest cache with
    | some k => cache.erase k
    | none => cache
  else cache

def begin (cache : Cache) (key : List Char) (now : Nat) : Except (Option Bytes) Unit × Cache :=
  match cache.lookup key with
  | some e => (.error e.lastResponse, cache)
  | none => (.ok (), (evict cache).insert key ⟨none, now, none, false, none⟩)

/-- The entry after a response was sent. -/
def noteResponse (now : Nat) (response : Bytes) (status : UInt16) (dest : SocketAddr)
    (transport : Transport) (replyTx : Option Nat) (e : TxEntry) : TxEntry :=
  { e with
    lastResponse := some response
    finalAt := if status ≥ 200 ∧ e.finalAt = none then some now else e.finalAt
    retransmit :=
      if status ≥ 300 ∧ transport = .udp ∧ e.acked = false ∧ e.retransmit = none then
        some ⟨dest, transport, replyTx, now + timerT1, timerT1, 0⟩
      else e.retransmit }

def recordSent (cache : Cache) (key : List Char) (now : Nat) (response : Bytes) (status : UInt16)
    (dest : SocketAddr) (transport : Transport) (replyTx : Option Nat) : Cache :=
  modify key (noteResponse now response status dest transport replyTx) cache

def acked (cache : Cache) (key : List Char) : Cache :=
  modify key (fun e => { e with acked := true, retransmit := none }) cache

/-- The entry after a poll. -/
def visit (now : Nat) (e : TxEntry) : TxEntry :=
  match e.retransmit with
  | none => e
  | some r =>
      if r.nextAt > now then e
      else if r.sent ≥ maxRetransmits then { e with retransmit := none }
      else
        let interval := min (r.interval * 2) timerT2
        { e with retransmit := some { r with
            sent := r.sent + 1
            interval := interval
            nextAt := now + interval } }

/-- The copy that a poll hands out of an entry: bytes and where to. -/
def copyOf (now : Nat) (e : TxEntry) : Option (Bytes × SocketAddr × Transport × Option Nat) :=
  match e.retransmit with
  | none => none
  | some r =>
      if r.nextAt > now then none
      else if r.sent ≥ maxRetransmits then none
      else e.lastResponse.map fun data => (data, r.dest, r.transport, r.replyTx)

/-- The copies, here with the keys of their entries. -/
def dueRetransmissions (cache : Cache) (now : Nat) :
    List (List Char × Bytes × SocketAddr × Transport × Option Nat) × Cache :=
  (collect (fun _ => copyOf now) cache, sweep (fun _ e => some (visit now e)) cache)

def absorbs (now : Nat) (e : TxEntry) : Bool :=
  match e.finalAt with
  | some f => now - f < finalAbsorb
  | none => now - e.firstSeen < pendingAbsorb

def pruneAt (cache : Cache) (now : Nat) : Nat × Cache :=
  let kept := sweep (fun _ e => if absorbs now e then some e else none) cache
  (size cache - size kept, kept)

end NixiSbc.InviteTx

import NixiSbc.B2bua
import NixiSbc.KeyedTable

namespace NixiSbc.ClientTx

open ByteWords Utf8 Stun TextScan TextFields RawSip SipBuilder KeyedTable
open B2bua (Transport)

/-- Durations and times are in milliseconds. -/
def timerT1 : Nat := 500

def timerT2 : Nat := 4000

def transactionTimeout : Nat := 32000

def maxEntries : Nat := 4096

/-- One request in flight. -/
structure Tx where
  raw : Bytes
  dest : SocketAddr
  transport : Transport
  isInvite : Bool
  nextAt : Nat
  interval : Nat
  giveUpAt : Nat
  attempts : Nat
  replyTx : Option Nat
  what : List Char
  deriving DecidableEq

structure DueRequest where
  what : List Char
  raw : Bytes
  dest : SocketAddr
  transport : Transport
  replyTx : Option Nat
  attempt : Nat
  deriving DecidableEq

abbrev Cache := Table (List Char) Tx

def toAsciiUppercase (text : List Char) : List Char := text.map Char.toUpper

def key (branch method : List Char) : List Char := branch ++ '|' :: toAsciiUppercase method

def requestMethod (raw : List Char) : Option (List Char) :=
  match lines raw with
  | [] => none
  | first :: _ =>
      if "SIP/2.0".toList <:+ first then
        match firstWord first with
        | none => none
        | some method =>
            if "SIP/".toList <+: method then none else some (toAsciiUppercase method)
      else none

/-- The branch and method of a request that is retransmitted: one over UDP,
other than an ACK. -/
def tracked (U : Lowering) (raw : Bytes) (transport : Transport) :
    Option (List Char × List Char) :=
  if transport ≠ .udp then none
  else
    match fromUtf8 raw with
    | none => none
    | some text =>
        match requestMethod text with
        | none => none
        | some method =>
            if method = "ACK".toList then none
            else (topViaBranch U text).map fun branch => (branch, method)

def notExpired (now : Nat) (_ : List Char) (tx : Tx) : Option Tx :=
  if tx.giveUpAt > now then some tx else none

/-- A CANCEL ends its INVITE, before the table is looked at for room. -/
def afterCancel (cache : Cache) (branch method : List Char) : Cache :=
  if method = "CANCEL".toList then cache.erase (key branch "INVITE".toList) else cache

/-- Room is made only when the table is full, by dropping what has expired. -/
def makeRoom (cache : Cache) (now : Nat) : Cache :=
  if size cache ≥ maxEntries then sweep (notExpired now) cache else cache

def recordSent (U : Lowering) (cache : Cache) (now : Nat) (what : List Char) (raw : Bytes)
    (dest : SocketAddr) (transport : Transport) (replyTx : Option Nat) :
    Option (List Char) × Cache :=
  match tracked U raw transport with
  | none => (none, cache)
  | some (branch, method) =>
      let cache := makeRoom (afterCancel cache branch method) now
      if size cache ≥ maxEntries then (none, cache)
      else
        let k := key branch method
        (some k, cache.insert k {
          raw := raw
          dest := dest
          transport := transport
          isInvite := method = "INVITE".toList
          nextAt := now + timerT1
          interval := timerT1
          giveUpAt := now + transactionTimeout
          attempts := 0
          replyTx := replyTx
          what := what })

def answeredParts (cache : Cache) (branch cseqMethod : List Char) (status : UInt16) : Bool × Cache :=
  let k := key branch cseqMethod
  match cache.lookup k with
  | some tx => if tx.isInvite ∨ status ≥ 200 then (true, cache.erase k) else (false, cache)
  | none => (false, cache)

/-- The interval after the next copy. -/
def nextInterval (tx : Tx) : Nat :=
  if tx.isInvite then tx.interval * 2 else min (tx.interval * 2) timerT2

/-- The entry after a poll, if it stays. -/
def visit (now : Nat) (_ : List Char) (tx : Tx) : Option Tx :=
  if tx.giveUpAt ≤ now then none
  else if tx.nextAt ≤ now then
    some { tx with
      attempts := tx.attempts + 1
      interval := nextInterval tx
      nextAt := now + nextInterval tx }
  else some tx

/-- The copy that a poll hands out of an entry. -/
def copyOf (now : Nat) (_ : List Char) (tx : Tx) : Option DueRequest :=
  if tx.giveUpAt ≤ now then none
  else if tx.nextAt ≤ now then
    some ⟨tx.what, tx.raw, tx.dest, tx.transport, tx.replyTx, tx.attempts + 1⟩
  else none

def expiredText (now : Nat) (_ : List Char) (tx : Tx) : Option (List Char) :=
  if tx.giveUpAt ≤ now then
    some (tx.what ++ " (".toList ++ showNat tx.attempts ++ " attempts)".toList)
  else none

/-- The copies, here with the keys of their entries, and the texts of what
expired. -/
def due (cache : Cache) (now : Nat) :
    (List (List Char × DueRequest) × List (List Char)) × Cache :=
  ((collect (copyOf now) cache, (collect (expiredText now) cache).map (·.2)),
    sweep (visit now) cache)

end NixiSbc.ClientTx

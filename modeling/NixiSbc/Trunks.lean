import NixiSbc.KeyedTable
import NixiSbc.Stun

namespace NixiSbc.Trunks

open Stun KeyedTable

abbrev TrunkId := BitVec 128

inductive NumberFormat
  | e164
  | national
  | local
  deriving DecidableEq

structure TrunkConfig where
  id : TrunkId
  name : List Char
  enabled : Bool
  host : List Char
  port : UInt16
  resolvedAddr : Option SocketAddr
  numberFormat : NumberFormat
  countryCode : Option (List Char)
  nationalPrefix : Option (List Char)
  deriving DecidableEq

def normalizeNumber (t : TrunkConfig) (number : List Char) : List Char :=
  match t.numberFormat with
  | .e164 =>
      match number with
      | '+' :: _ => number
      | '0' :: national =>
          match t.countryCode with
          | some cc => '+' :: (cc ++ national)
          | none => number
      | _ => number
  | .national =>
      match t.countryCode with
      | some cc =>
          if '+' :: cc <+: number then
            t.nationalPrefix.getD ['0'] ++ number.drop ('+' :: cc).length
          else number
      | none => number
  | .local =>
      match t.countryCode with
      | some cc => if '+' :: cc <+: number then number.drop ('+' :: cc).length else number
      | none => number

/-- The counters of a trunk; times are in ticks of the clock. -/
structure TrunkState where
  trunkId : TrunkId
  activeCalls : UInt32
  totalCalls : UInt64
  consecutiveFailures : UInt32
  disabledUntil : Option Nat
  parkedUntil : Option Nat
  deriving DecidableEq

def TrunkState.new (id : TrunkId) : TrunkState := ⟨id, 0, 0, 0, none, none⟩

def clearCooldowns (s : TrunkState) : TrunkState :=
  { s with consecutiveFailures := 0, disabledUntil := none, parkedUntil := none }

def incrementCalls (s : TrunkState) : TrunkState :=
  { s with activeCalls := s.activeCalls + 1, totalCalls := s.totalCalls + 1 }

def decrementCalls (s : TrunkState) : TrunkState :=
  if s.activeCalls > 0 then { s with activeCalls := s.activeCalls - 1 } else s

/-- The two concurrent maps, each with the order in which it is iterated. -/
structure TrunkManager where
  trunks : Table TrunkId TrunkConfig
  states : Table TrunkId TrunkState

def TrunkManager.new : TrunkManager := ⟨∅, ∅⟩

def addTrunk (m : TrunkManager) (config : TrunkConfig) : TrunkManager where
  trunks := m.trunks.insert config.id config
  states := m.states.insert config.id (.new config.id)

def updateState (m : TrunkManager) (id : TrunkId) (updateFn : TrunkState → TrunkState) :
    TrunkManager :=
  { m with states := modify id updateFn m.states }

def findByName (m : TrunkManager) (name : List Char) : Option TrunkConfig :=
  (m.trunks.entries.find? fun entry => entry.2.name = name).map (·.2)

def updateStateByName (m : TrunkManager) (name : List Char)
    (updateFn : TrunkState → TrunkState) : Bool × TrunkManager :=
  match findByName m name with
  | some t => (true, updateState m t.id updateFn)
  | none => (false, m)

def stateByName (m : TrunkManager) (name : List Char) : Option TrunkState :=
  (findByName m name).bind fun t => m.states.lookup t.id

/-- The state is only dropped when there was a configuration. -/
def removeTrunk (m : TrunkManager) (id : TrunkId) : Bool × TrunkManager :=
  if id ∈ m.trunks then (decide (id ∈ m.states), ⟨m.trunks.erase id, m.states.erase id⟩)
  else (false, m)

def updateTrunkByName (m : TrunkManager) (name : List Char) (newConfig : TrunkConfig) :
    Bool × TrunkManager :=
  match findByName m name with
  | none => (false, m)
  | some existing =>
      let config := { newConfig with
        id := existing.id
        resolvedAddr :=
          if newConfig.host = existing.host ∧ newConfig.port = existing.port then
            existing.resolvedAddr
          else newConfig.resolvedAddr }
      let m :=
        if existing.enabled = false ∧ newConfig.enabled = true then
          updateState m existing.id clearCooldowns
        else m
      (true, { m with trunks := m.trunks.insert existing.id config })

def removeByName (m : TrunkManager) (name : List Char) : Bool × TrunkManager :=
  match findByName m name with
  | some t => removeTrunk m t.id
  | none => (false, m)

end NixiSbc.Trunks

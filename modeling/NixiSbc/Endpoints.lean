import NixiSbc.NetAddr

namespace NixiSbc.Endpoints

open Stun NetAddr

/-- Whether a move without evidence is only counted or refused. -/
inductive Mode
  | observe
  | moves
  deriving DecidableEq

/-- Why a datagram takes the endpoint. -/
inductive Match
  | signalled
  | samePort
  | sibling
  | sameStream
  | quiet
  | first
  deriving DecidableEq

inductive Reject
  | foreign
  | notPlausible
  deriving DecidableEq

inductive Verdict
  | latch (m : Match)
  | keep
  | move (m : Match)
  | refuse (reason : Reject)
  deriving DecidableEq

/-- What a verdict needs; the silence of the latched address is in milliseconds,
none when it was never heard. -/
structure Observation where
  latched : Option SocketAddr
  signalled : Option SocketAddr
  source : SocketAddr
  isPlausible : Bool
  sameStream : Bool
  latchedQuietFor : Option Nat

structure EndpointPolicy where
  mode : Mode
  quietPeriod : Nat
  deriving DecidableEq

/-- Of the rungs for a source other than the latched one, those that look at
addresses alone. -/
def nearBy (signalled : Option SocketAddr) (latched source : SocketAddr) : Option Match :=
  if some source = signalled then some .signalled
  else if signalled.any fun s => ip s = ip source then some .samePort
  else if signalled.any fun s => sameIpv4Subnet24 (ip s) (ip source) then some .sibling
  else if ip latched = ip source then some .samePort
  else none

/-- The ladder. -/
def EndpointPolicy.observe (p : EndpointPolicy) (o : Observation) : Verdict :=
  if o.isPlausible = false then .refuse .notPlausible
  else
    match o.latched with
    | none => .latch .first
    | some latched =>
        if latched = o.source then .keep
        else
          match nearBy o.signalled latched o.source with
          | some m => .move m
          | none =>
              if o.sameStream then .move .sameStream
              else if o.latchedQuietFor.any (p.quietPeriod ≤ ·) then .move .quiet
              else .refuse .foreign

/-- In the counting mode a foreign source is let through. -/
def EndpointPolicy.applies (p : EndpointPolicy) : Verdict → Bool
  | .refuse .notPlausible => false
  | .refuse .foreign => p.mode = .observe
  | _ => true

/-- The endpoint after a verdict. -/
def EndpointPolicy.settle (p : EndpointPolicy) (latched : Option SocketAddr) (source : SocketAddr)
    (v : Verdict) : Option SocketAddr :=
  match v with
  | .keep => latched
  | v => if p.applies v then some source else latched

/-- A source that no address rung lets through: it is not on the host or in the
network of the signalled address, nor on the latched host. -/
def Foreign (signalled : Option SocketAddr) (latched source : SocketAddr) : Prop :=
  (∀ s ∈ signalled, ip s ≠ ip source ∧ sameIpv4Subnet24 (ip s) (ip source) = false) ∧
    ip latched ≠ ip source

theorem nearBy_of_foreign {signalled : Option SocketAddr} {latched source : SocketAddr}
    (h : Foreign signalled latched source) : nearBy signalled latched source = none := by
  obtain ⟨hsignalled, hlatched⟩ := h
  cases signalled with
  | none => simp [nearBy, hlatched]
  | some s =>
      obtain ⟨hip, hnet⟩ := hsignalled s rfl
      have hne : source ≠ s := fun he => hip (congrArg ip he).symm
      simp [nearBy, hip, hnet, hlatched, hne]

section

variable {p : EndpointPolicy} {o : Observation}

theorem observe_isPlausible (h : o.isPlausible = true) : p.observe o ≠ .refuse .notPlausible := by
  rw [EndpointPolicy.observe, if_neg (by rw [h]; decide)]
  split
  next => exact nofun
  next =>
    split
    next => exact nofun
    next =>
      split
      next => exact nofun
      next =>
        split
        next => exact nofun
        next =>
          split
          next => exact nofun
          next => exact nofun

theorem settle_ne {latched : Option SocketAddr} {source : SocketAddr} {v : Verdict}
    (h : p.settle latched source v ≠ latched) :
    p.applies v = true ∧ p.settle latched source v = some source := by
  unfold EndpointPolicy.settle at h ⊢
  split at h
  next => exact absurd rfl h
  next =>
    split at h
    next happlies => exact ⟨happlies, if_pos happlies⟩
    next => exact absurd rfl h

/-- With nothing latched, the first plausible packet wins. -/
theorem observe_first (h : o.isPlausible = true) (hnone : o.latched = none) :
    p.observe o = .latch .first := by
  rw [EndpointPolicy.observe, if_neg (by rw [h]; decide), hnone]

theorem observe_latched {latched : SocketAddr} (h : o.isPlausible = true) (hl : o.latched = some latched)
    (hsame : latched = o.source) : p.observe o = .keep := by
  rw [EndpointPolicy.observe, if_neg (by rw [h]; decide), hl]
  exact if_pos hsame

/-- Only two rungs are left to a foreign source. -/
theorem observe_foreign {latched : SocketAddr} (h : o.isPlausible = true) (hl : o.latched = some latched)
    (hforeign : Foreign o.signalled latched o.source) :
    p.observe o =
      if o.sameStream then .move .sameStream
      else if o.latchedQuietFor.any (p.quietPeriod ≤ ·) then .move .quiet
      else .refuse .foreign := by
  have hne : latched ≠ o.source := fun he => hforeign.2 (congrArg ip he)
  rw [EndpointPolicy.observe, if_neg (by rw [h]; decide), hl]
  simp only [if_neg hne, nearBy_of_foreign hforeign]

end

example : EndpointPolicy.observe ⟨.moves, 5000⟩
    ⟨some (ofOctets 198 51 100 77 40000), some (ofOctets 203 0 113 9 6004), ofOctets 203 0 113 11 6004,
      true, false, none⟩ = .move .sibling := by decide

end NixiSbc.Endpoints

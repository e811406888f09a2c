import NixiSbc.Stun
import NixiSbc.TextFields

namespace NixiSbc.NetAddr

open Stun TextFields

inductive IpAddr
  | v4 (octets : Vector UInt8 4)
  | v6 (octets : Vector UInt8 16)
  deriving DecidableEq

def ofOctets (a b c d : UInt8) (port : UInt16) : SocketAddr := .v4 ⟨#[a, b, c, d], rfl⟩ port

def ip : SocketAddr → IpAddr
  | .v4 octets _ => .v4 octets
  | .v6 octets _ _ _ => .v6 octets

def port : SocketAddr → UInt16
  | .v4 _ port => port
  | .v6 _ port _ _ => port

def showV4 (octets : List UInt8) : List Char :=
  List.intercalate ['.'] (octets.map fun b => showNat b.toNat)

def segments : List UInt8 → List Nat
  | a :: b :: rest => (a.toNat * 256 + b.toNat) :: segments rest
  | _ => []

def showSegments (segs : List Nat) : List Char := List.intercalate [':'] (segs.map (Nat.toDigits 16))

/-- Start and length of the first longest run of zero segments; `start` and
`len` are those of the run that the scan is in. -/
def longestZeros (i start len : Nat) (best : Nat × Nat) : List Nat → Nat × Nat
  | [] => best
  | 0 :: rest =>
      let start := if len = 0 then i else start
      let best := if len + 1 > best.2 then (start, len + 1) else best
      longestZeros (i + 1) start (len + 1) best rest
  | _ :: rest => longestZeros (i + 1) 0 0 best rest

/-- The compressed notation; IPv4-mapped addresses are shown as such. -/
def showV6 (octets : List UInt8) : List Char :=
  let segs := segments octets
  if segs.take 6 = [0, 0, 0, 0, 0, 0xFFFF] then "::ffff:".toList ++ showV4 (octets.drop 12)
  else
    match longestZeros 0 0 0 (0, 0) segs with
    | (start, len) =>
        if len > 1 then
          showSegments (segs.take start) ++ "::".toList ++ showSegments (segs.drop (start + len))
        else showSegments segs

def showIp : IpAddr → List Char
  | .v4 octets => showV4 octets.toList
  | .v6 octets => showV6 octets.toList

def showAddr : SocketAddr → List Char
  | .v4 octets port => showV4 octets.toList ++ ':' :: showNat port.toNat
  | .v6 octets port _ scopeId =>
      '[' :: showV6 octets.toList ++
        (if scopeId = 0 then [] else '%' :: showNat scopeId.toNat) ++ "]:".toList ++
        showNat port.toNat

/-- Both addresses are IPv4 and share their first three octets. -/
def sameIpv4Subnet24 : IpAddr → IpAddr → Bool
  | .v4 a, .v4 b => a.toList.take 3 = b.toList.take 3
  | _, _ => false

example : showV6 [0x20, 0x01, 0x0d, 0xb8, 0, 0, 0, 0, 0, 1, 0, 0, 0, 0, 0, 1] =
    "2001:db8::1:0:0:1".toList := by decide
example : showAddr (.v6 (Vector.replicate 16 0) 5060 0 0) = "[::]:5060".toList := by decide

end NixiSbc.NetAddr

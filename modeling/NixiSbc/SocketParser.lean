import NixiSbc.AddressParser

namespace NixiSbc.SocketParser

open Stun NetAddr TextScan TextFields TextWords PaddedText AddressParser

def readPort (text : List Char) : Option (UInt16 × List Char) :=
  (readGivenChar ':' text).bind fun text =>
    (readNumber isDigit decimal text.length true text).bind fun (n, rest) =>
      if n < 65536 then some (.ofNat n, rest) else none

def readScopeId (text : List Char) : Option (UInt32 × List Char) :=
  (readGivenChar '%' text).bind fun text =>
    (readNumber isDigit decimal text.length true text).bind fun (n, rest) =>
      if n < 2 ^ 32 then some (.ofNat n, rest) else none

def readSocketAddrV4 (text : List Char) : Option (SocketAddr × List Char) :=
  (readIpv4Addr text).bind fun (octets, text) => (readPort text).map fun (port, rest) => (.v4 octets port, rest)

def readSocketAddrV6 (text : List Char) : Option (SocketAddr × List Char) :=
  ((readGivenChar '[' text).bind readIpv6Addr).bind fun (groups, text) =>
    let (scopeId, text) := (readScopeId text).getD (0, text)
    ((readGivenChar ']' text).bind readPort).bind fun (port, rest) =>
      if h : (octetsOf groups).length = 16 then some (.v6 ⟨(octetsOf groups).toArray, h⟩ port 0 scopeId, rest) else none

/-- The whole text is an address with its port; an IPv6 one stands in brackets. -/
def parseSocketAddr (text : List Char) : Option SocketAddr :=
  match (readSocketAddrV4 text).orElse fun _ => readSocketAddrV6 text with
  | some (addr, rest) => if rest = [] then some addr else none
  | none => none

/-- A port that is read is the one that was written. -/
theorem readPort_shown (port : UInt16) : readPort (':' :: showNat port.toNat) = some (port, []) := by
  have hread : readNumber isDigit decimal (showNat port.toNat).length true (showNat port.toNat ++ []) =
      some (decimal (showNat port.toNat), []) :=
    readNumber_digits (digits_showNat _) (showNat_ne_nil _) le_rfl (.inl rfl) (noMore_nil isDigit)
  rw [List.append_nil, decimal_showNat] at hread
  have hgiven (text : List Char) : readGivenChar ':' (':' :: text) = some text := rfl
  rw [readPort, hgiven, Option.bind_some, hread, Option.bind_some]
  dsimp only
  rw [if_pos port.toNat_lt, UInt16.ofNat_toNat]

theorem parseSocketAddr_v4 (octets : Vector UInt8 4) (port : UInt16) :
    parseSocketAddr (showV4 octets.toList ++ ':' :: showNat port.toNat) = some (.v4 octets port) := by
  have hread : readSocketAddrV4 (showV4 octets.toList ++ ':' :: showNat port.toNat) = some (.v4 octets port, []) := by
    rw [readSocketAddrV4, readIpv4Addr_shown octets (noMore_cons (by decide) _), Option.bind_some]
    dsimp only
    rw [readPort_shown]
    rfl
  rw [parseSocketAddr, hread]
  rfl

/-- Without its brackets an IPv6 address has no port that could be read. -/
theorem parseSocketAddr_v6 (octets : List UInt8) (port : List Char) :
    parseSocketAddr (showV6 octets ++ ':' :: port) = none := by
  have hends : Ends (':' :: port) := by simp [Ends]
  have hopen : readGivenChar '[' (showV6 octets ++ ':' :: port) = none := by
    rcases showV6_front octets with hfront | ⟨n, more, _, heq⟩
    · have hall := hfront.append hends
      cases htext : showV6 octets ++ ':' :: port with
      | nil => rfl
      | cons c text =>
          rw [htext] at hall
          obtain rfl : c = ':' := hall c rfl
          rfl
    · have hne : Nat.toDigits 16 n ≠ [] := Nat.toDigits_ne_nil
      obtain ⟨d, digits, hdigits⟩ := List.exists_cons_of_ne_nil hne
      have hd : isHexDigit d = true := isHexDigit_of_mem (hdigits ▸ List.mem_cons_self)
      rw [heq, hdigits, List.cons_append, List.cons_append, readGivenChar, if_neg]
      rintro rfl
      cases hd
  rw [parseSocketAddr, readSocketAddrV4, readIpv4Addr_showV6 hends, readSocketAddrV6, hopen]
  rfl

example : parseSocketAddr "[2001:db8::1%3]:5060".toList =
    some (.v6 #v[0x20, 0x01, 0x0d, 0xb8, 0, 0, 0, 0, 0, 0, 0, 0, 0, 0, 0, 1] 5060 0 3) := rfl

end NixiSbc.SocketParser

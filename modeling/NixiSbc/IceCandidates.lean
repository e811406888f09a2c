import NixiSbc.SdpRewrite
import NixiSbc.SocketParser

namespace NixiSbc.IceCandidates

open Stun NetAddr TextFields TextWords SocketParser
open SdpRewrite (isWord_showIp)

inductive CandidateType
  | host
  | serverReflexive
  | peerReflexive
  | relay
  deriving DecidableEq

def CandidateType.fromStr (s : List Char) : Option CandidateType :=
  if s = "host".toList then some .host
  else if s = "srflx".toList then some .serverReflexive
  else if s = "prflx".toList then some .peerReflexive
  else if s = "relay".toList then some .relay
  else none

def CandidateType.toStr : CandidateType → List Char
  | .host => "host".toList
  | .serverReflexive => "srflx".toList
  | .peerReflexive => "prflx".toList
  | .relay => "relay".toList

structure IceCandidate where
  foundation : List Char
  component : UInt16
  transport : List Char
  priority : UInt32
  address : SocketAddr
  candidateType : CandidateType
  relatedAddress : Option SocketAddr
  deriving DecidableEq

/-- Why an attribute is no candidate; the parsers' own texts are left out. -/
inductive MediaError
  | invalidCandidate (value : List Char)
  | invalidComponent
  | invalidPriority
  | invalidPort
  | invalidAddress
  | unknownType (text : List Char)
  | invalidRport
  | invalidRaddr
  deriving DecidableEq

def raddr : List Char := "raddr".toList

def rport : List Char := "rport".toList

/-- A host and a port that stand apart, read as one address. -/
def joinAddr (ip : List Char) (port : Nat) : Option SocketAddr := parseSocketAddr (ip ++ ':' :: showNat port)

/-- The last related address among the words behind the type. -/
def readRelated (related : Option SocketAddr) : List (List Char) → Except MediaError (Option SocketAddr)
  | word :: ip :: rest =>
      if word = raddr then
        match rest with
        | next :: port :: rest' =>
            if next = rport then
              match parseUnsigned 16 port with
              | none => .error .invalidRport
              | some port =>
                  match joinAddr ip port with
                  | none => .error .invalidRaddr
                  | some addr => readRelated (some addr) rest'
            else readRelated related (next :: port :: rest')
        | rest => readRelated related rest
      else readRelated related (ip :: rest)
  | _ => .ok related

def IceCandidate.fromSdp (value : List Char) : Except MediaError IceCandidate :=
  let value := (stripPrefix "candidate:".toList value).getD value
  match words value with
  | foundation :: component :: transport :: priority :: ip :: port :: _ :: kind :: rest => do
      let component ← (parseUnsigned 16 component).elim (.error .invalidComponent) .ok
      let priority ← (parseUnsigned 32 priority).elim (.error .invalidPriority) .ok
      let port ← (parseUnsigned 16 port).elim (.error .invalidPort) .ok
      let address ← (joinAddr ip port).elim (.error .invalidAddress) .ok
      let candidateType ← (CandidateType.fromStr kind).elim (.error (.unknownType kind)) .ok
      let relatedAddress ← readRelated none rest
      return {
        foundation, transport, address, candidateType, relatedAddress
        component := .ofNat component
        priority := .ofNat priority }
  | _ => .error (.invalidCandidate value)

def showRelated : Option SocketAddr → List Char
  | none => []
  | some addr => " raddr ".toList ++ showIp (ip addr) ++ " rport ".toList ++ showNat (port addr).toNat

def IceCandidate.toSdp (c : IceCandidate) : List Char :=
  "candidate:".toList ++ c.foundation ++ [' '] ++ showNat c.component.toNat ++ [' '] ++ c.transport ++ [' '] ++
    showNat c.priority.toNat ++ [' '] ++ showIp (ip c.address) ++ [' '] ++ showNat (port c.address).toNat ++
    " typ ".toList ++ c.candidateType.toStr ++ showRelated c.relatedAddress

/-- A pair of an extension, which is not the pair of the grammar's own. -/
structure Extension where
  name : List Char
  value : List Char
  isWord_name : IsWord name
  isWord_value : IsWord value
  name_ne : name ≠ raddr

def Extension.words (e : Extension) : List (List Char) := [e.name, e.value]

def showExtensions (exts : List Extension) : List Char := (exts.flatMap Extension.words).flatMap (' ' :: ·)

/-- The names that stand as host and port where the values beside them spell `raddr` and `rport`. -/
def strays : List Extension → List (List Char × List Char)
  | a :: b :: c :: rest =>
      if a.value = raddr ∧ b.value = rport then (b.name, c.name) :: strays (c :: rest) else strays (b :: c :: rest)
  | _ => []

def spelled (s : List Char × List Char) : Option SocketAddr := (parseUnsigned 16 s.2).bind (joinAddr s.1)

def IsV4 : SocketAddr → Prop
  | .v4 _ _ => True
  | .v6 _ _ _ _ => False

/-- Both addresses are IPv4, and the extensions spell no other related address. -/
structure Survives (c : IceCandidate) (exts : List Extension) : Prop where
  address : IsV4 c.address
  related : ∀ a ∈ c.relatedAddress, IsV4 a
  readable : ∀ s ∈ strays exts, (spelled s).isSome
  last : ∀ s ∈ (strays exts).getLast?, spelled s = c.relatedAddress

section Related

variable {related : Option SocketAddr} {r : Option SocketAddr}

/-- What the related address becomes of the strays. -/
def readStrays (related : Option SocketAddr) : List (List Char × List Char) → Except MediaError (Option SocketAddr)
  | [] => .ok related
  | (ip, port) :: more =>
      match parseUnsigned 16 port with
      | none => .error .invalidRport
      | some port =>
          match joinAddr ip port with
          | none => .error .invalidRaddr
          | some addr => readStrays (some addr) more

theorem readStrays_iff {l : List (List Char × List Char)} :
    readStrays related l = .ok r ↔ (∀ s ∈ l, (spelled s).isSome) ∧ l.getLast?.elim related spelled = r := by
  induction l generalizing related with
  | nil => simp [readStrays]
  | cons s l ih =>
      obtain ⟨ip, port⟩ := s
      have hspelled : spelled (ip, port) = (parseUnsigned 16 port).bind (joinAddr ip) := rfl
      rw [readStrays]
      cases hport : parseUnsigned 16 port with
      | none => simp [hspelled, hport]
      | some n =>
          rw [hport, Option.bind_some] at hspelled
          cases haddr : joinAddr ip n with
          | none => simp [hspelled, haddr]
          | some addr =>
              simp only [haddr]
              rw [ih, List.forall_mem_cons, hspelled, haddr, List.getLast?_cons]
              cases l.getLast? with
              | none => simp [hspelled, haddr]
              | some last => simp

theorem readRelated_skip {word : List Char} (h : word ≠ raddr) (ip : List Char) (rest : List (List Char)) :
    readRelated related (word :: ip :: rest) = readRelated related (ip :: rest) := by
  rcases rest with _ | ⟨next, _ | ⟨port, rest⟩⟩
  · exact if_neg h
  · exact if_neg h
  · exact if_neg h

/-- Without `rport` the two words behind `raddr` are not a pair, and the scan goes on at the second. -/
theorem readRelated_raddr {next : List Char} (h : next ≠ rport) (ip port : List Char) (rest : List (List Char)) :
    readRelated related (raddr :: ip :: next :: port :: rest) = readRelated related (next :: port :: rest) :=
  (if_pos rfl).trans (if_neg h)

/-- A host and a port in their places are read, or refuse the candidate. -/
theorem readRelated_pair (ip port : List Char) (rest : List (List Char)) :
    readRelated related (raddr :: ip :: rport :: port :: rest) =
      match parseUnsigned 16 port with
      | none => .error .invalidRport
      | some port =>
          match joinAddr ip port with
          | none => .error .invalidRaddr
          | some addr => readRelated (some addr) rest :=
  (if_pos rfl).trans (if_pos rfl)

/-- Scanned from the value of a pair on, the pairs leave their strays. -/
theorem readRelated_value (related : Option SocketAddr) (a : Extension) : ∀ exts : List Extension,
    readRelated related (a.value :: exts.flatMap Extension.words) = readStrays related (strays (a :: exts))
  | [] => rfl
  | [b] => by
      by_cases ha : a.value = raddr
      · change readRelated related [a.value, b.name, b.value] = _
        rw [ha]
        exact if_pos rfl
      · change readRelated related [a.value, b.name, b.value] = _
        rw [readRelated_skip ha, readRelated_skip b.name_ne]
        rfl
  | b :: c :: rest => by
      change readRelated related
        (a.value :: b.name :: b.value :: c.name :: c.value :: rest.flatMap Extension.words) = _
      rw [strays]
      by_cases ha : a.value = raddr
      · by_cases hb : b.value = rport
        · rw [if_pos ⟨ha, hb⟩, ha, hb, readRelated_pair, readStrays]
          simp only [readRelated_value _ c rest]
        · rw [if_neg (fun h => hb h.2), ha, readRelated_raddr hb]
          exact readRelated_value related b (c :: rest)
      · rw [if_neg (fun h => ha h.1), readRelated_skip ha, readRelated_skip b.name_ne]
        exact readRelated_value related b (c :: rest)

theorem readRelated_extensions (related : Option SocketAddr) (exts : List Extension) :
    readRelated related (exts.flatMap Extension.words) = readStrays related (strays exts) := by
  cases exts with
  | nil => rfl
  | cons a exts =>
      change readRelated related (a.name :: a.value :: exts.flatMap Extension.words) = _
      rw [readRelated_skip a.name_ne, readRelated_value]

end Related

section Addresses

theorem joinAddr_v4 {a : SocketAddr} (h : IsV4 a) : joinAddr (showIp (ip a)) (port a).toNat = some a := by
  cases a with
  | v4 octets port => exact parseSocketAddr_v4 octets port
  | v6 octets port flowinfo scopeId => exact h.elim

theorem joinAddr_v6 {a : SocketAddr} (h : ¬IsV4 a) : joinAddr (showIp (ip a)) (port a).toNat = none := by
  cases a with
  | v4 octets port => exact absurd trivial h
  | v6 octets port flowinfo scopeId => exact parseSocketAddr_v6 octets.toList _

def relatedWords : Option SocketAddr → List (List Char)
  | none => []
  | some a => [raddr, showIp (ip a), rport, showNat (port a).toNat]

theorem readRelated_related {a : SocketAddr} (rest : List (List Char)) :
    readRelated none (relatedWords (some a) ++ rest) =
      match joinAddr (showIp (ip a)) (port a).toNat with
      | none => .error .invalidRaddr
      | some addr => readRelated (some addr) rest := by
  change readRelated none (raddr :: _ :: rport :: _ :: rest) = _
  rw [readRelated_pair, parseUnsigned_showNat (port a).toNat_lt]

end Addresses

section RoundTrip

variable {c : IceCandidate}

def candidateWords (c : IceCandidate) (exts : List Extension) : List (List Char) :=
  [showNat c.component.toNat, c.transport, showNat c.priority.toNat, showIp (ip c.address),
    showNat (port c.address).toNat, "typ".toList, c.candidateType.toStr] ++
    (relatedWords c.relatedAddress ++ exts.flatMap Extension.words)

theorem showRelated_eq (related : Option SocketAddr) :
    showRelated related = (relatedWords related).flatMap (' ' :: ·) := by
  have hraddr : " raddr ".toList = ' ' :: (raddr ++ [' ']) := rfl
  have hrport : " rport ".toList = ' ' :: (rport ++ [' ']) := rfl
  cases related with
  | none => rfl
  | some a =>
      change " raddr ".toList ++ showIp (ip a) ++ " rport ".toList ++ showNat (port a).toNat =
        [raddr, showIp (ip a), rport, showNat (port a).toNat].flatMap (' ' :: ·)
      rw [hraddr, hrport]
      generalize raddr = first
      generalize rport = second
      simp

theorem toSdp_eq (c : IceCandidate) (exts : List Extension) :
    c.toSdp ++ showExtensions exts =
      "candidate:".toList ++ (c.foundation ++ (candidateWords c exts).flatMap (' ' :: ·)) := by
  have htyp : " typ ".toList = ' ' :: ("typ".toList ++ [' ']) := rfl
  delta IceCandidate.toSdp
  rw [showExtensions, candidateWords, showRelated_eq, htyp]
  generalize "candidate:".toList = front
  generalize "typ".toList = typ
  simp

theorem isWord_toStr (t : CandidateType) : IsWord t.toStr := by
  cases t <;> exact ⟨List.cons_ne_nil _ _, not_blank_of_all (by decide)⟩

theorem fromStr_toStr (t : CandidateType) : CandidateType.fromStr t.toStr = some t := by
  cases t <;> rfl

theorem isWord_candidateWords (htransport : IsWord c.transport) (exts : List Extension) :
    ∀ w ∈ candidateWords c exts, IsWord w := by
  have hrelated : ∀ w ∈ relatedWords c.relatedAddress, IsWord w := by
    cases c.relatedAddress with
    | none => exact fun w hw => absurd hw List.not_mem_nil
    | some a =>
        have hraddr : IsWord raddr := ⟨List.cons_ne_nil _ _, not_blank_of_all (by decide)⟩
        have hrport : IsWord rport := ⟨List.cons_ne_nil _ _, not_blank_of_all (by decide)⟩
        simp only [relatedWords, List.forall_mem_cons]
        exact ⟨hraddr, isWord_showIp _, hrport, isWord_showNat _, fun w hw => absurd hw List.not_mem_nil⟩
  have hexts : ∀ w ∈ exts.flatMap Extension.words, IsWord w := by
    intro w hw
    obtain ⟨e, -, hw⟩ := List.mem_flatMap.mp hw
    rcases List.mem_pair.mp hw with rfl | rfl
    · exact e.isWord_name
    · exact e.isWord_value
  have htyp : IsWord "typ".toList := ⟨List.cons_ne_nil _ _, not_blank_of_all (by decide)⟩
  simp only [candidateWords, List.forall_mem_append, List.forall_mem_cons]
  exact ⟨⟨isWord_showNat _, htransport, isWord_showNat _, isWord_showIp _, isWord_showNat _, htyp, isWord_toStr _,
    fun w hw => absurd hw List.not_mem_nil⟩, hrelated, hexts⟩

/-- A candidate is read from its text but for its addresses. -/
theorem fromSdp_toSdp (hfoundation : IsWord c.foundation) (htransport : IsWord c.transport) (exts : List Extension) :
    IceCandidate.fromSdp (c.toSdp ++ showExtensions exts) =
      match joinAddr (showIp (ip c.address)) (port c.address).toNat with
      | none => .error .invalidAddress
      | some address =>
          (readRelated none (relatedWords c.relatedAddress ++ exts.flatMap Extension.words)).map fun relatedAddress =>
            { c with address, relatedAddress } := by
  have hwords : words (c.foundation ++ (candidateWords c exts).flatMap (' ' :: ·)) = c.foundation :: candidateWords c exts :=
    words_flatMap hfoundation (isWord_candidateWords htransport exts)
  rw [IceCandidate.fromSdp, toSdp_eq, stripPrefix_append]
  dsimp only [Option.getD_some]
  rw [hwords, candidateWords]
  simp only [List.cons_append]
  have bind_ok {α β : Type} (a : α) (k : α → Except MediaError β) : (Except.ok a >>= k) = k a := rfl
  rw [parseUnsigned_showNat c.component.toNat_lt, parseUnsigned_showNat c.priority.toNat_lt,
    parseUnsigned_showNat (port c.address).toNat_lt, fromStr_toStr]
  simp only [Option.elim_some, bind_ok, List.nil_append, UInt16.ofNat_toNat, UInt32.ofNat_toNat]
  cases joinAddr (showIp (ip c.address)) (port c.address).toNat with
  | none => rfl
  | some address =>
      dsimp only [Option.elim_some]
      rw [bind_ok]
      cases readRelated none (relatedWords c.relatedAddress ++ exts.flatMap Extension.words) with
      | error e => rfl
      | ok related => rfl

theorem readRelated_all (c : IceCandidate) (exts : List Extension) :
    readRelated none (relatedWords c.relatedAddress ++ exts.flatMap Extension.words) = .ok c.relatedAddress ↔
      (∀ a ∈ c.relatedAddress, IsV4 a) ∧ (∀ s ∈ strays exts, (spelled s).isSome) ∧
        ∀ s ∈ (strays exts).getLast?, spelled s = c.relatedAddress := by
  have hstrays (related : Option SocketAddr) : readRelated related (exts.flatMap Extension.words) = .ok related ↔
      (∀ s ∈ strays exts, (spelled s).isSome) ∧ ∀ s ∈ (strays exts).getLast?, spelled s = related := by
    rw [readRelated_extensions, readStrays_iff]
    refine and_congr_right fun _ => ?_
    cases (strays exts).getLast? with
    | none => simp
    | some s => simp
  cases hrelated : c.relatedAddress with
  | none =>
      rw [relatedWords, List.nil_append, hstrays]
      simp
  | some a =>
      rw [readRelated_related]
      by_cases ha : IsV4 a
      · rw [joinAddr_v4 ha]
        dsimp only
        rw [hstrays]
        simp [ha]
      · rw [joinAddr_v6 ha]
        simp [ha]

/-- A candidate is read back from its text exactly where all its addresses are IPv4
and no values behind it spell another one. -/
theorem candidate_round_trip_iff (hfoundation : IsWord c.foundation) (htransport : IsWord c.transport)
    (exts : List Extension) : IceCandidate.fromSdp (c.toSdp ++ showExtensions exts) = .ok c ↔ Survives c exts := by
  rw [fromSdp_toSdp hfoundation htransport]
  by_cases haddress : IsV4 c.address
  · have hall := readRelated_all c exts
    rw [joinAddr_v4 haddress]
    dsimp only
    constructor
    · intro h
      cases hread : readRelated none (relatedWords c.relatedAddress ++ exts.flatMap Extension.words) with
      | error e =>
          rw [hread] at h
          cases h
      | ok related =>
          rw [hread] at h hall
          have hrelated : related = c.relatedAddress := congrArg IceCandidate.relatedAddress (Except.ok.inj h)
          obtain ⟨hv4, hreadable, hlast⟩ := hall.mp (congrArg Except.ok hrelated)
          exact ⟨haddress, hv4, hreadable, hlast⟩
    · intro h
      rw [hall.mpr ⟨h.related, h.readable, h.last⟩]
      rfl
  · rw [joinAddr_v6 haddress]
    exact iff_of_false nofun fun h => haddress h.address

end RoundTrip

def sampleCandidate : IceCandidate where
  foundation := ['1']
  component := 1
  transport := "UDP".toList
  priority := 2130706431
  address := ofOctets 192 0 2 7 5000
  candidateType := .serverReflexive
  relatedAddress := some (ofOctets 10 0 0 1 6000)

def generation : Extension :=
  ⟨"generation".toList, ['0'], ⟨by decide, not_blank_of_all (by decide)⟩, ⟨by decide, not_blank_of_all (by decide)⟩, by decide⟩

theorem candidate_round_trip_generation :
    IceCandidate.fromSdp (sampleCandidate.toSdp ++ showExtensions [generation]) = .ok sampleCandidate :=
  (candidate_round_trip_iff ⟨by decide, not_blank_of_all (by decide)⟩ ⟨by decide, not_blank_of_all (by decide)⟩ _).mpr
    ⟨trivial, fun a ha => Option.some.inj ha ▸ trivial, fun s hs => absurd hs List.not_mem_nil, fun s hs => nomatch hs⟩

def ipv6Candidate : IceCandidate :=
  { sampleCandidate with address := .v6 (Vector.replicate 16 0) 5000 0 0 }

/-- An IPv6 address stands in the text without the brackets that its port would need. -/
theorem ipv6_candidate_dropped : IceCandidate.fromSdp (ipv6Candidate.toSdp ++ showExtensions []) ≠ .ok ipv6Candidate := by
  have hdropped : IceCandidate.fromSdp (ipv6Candidate.toSdp ++ showExtensions []) = .error .invalidAddress := rfl
  rw [hdropped]
  exact nofun

end NixiSbc.IceCandidates

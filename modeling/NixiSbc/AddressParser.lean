import NixiSbc.AddressTexts
import NixiSbc.PaddedText

namespace NixiSbc.AddressParser

open NetAddr TextScan TextFields TextWords AddressTexts PaddedText

def isHexDigit (c : Char) : Bool := (hexDigit? c).isSome

/-- The digits that come next, if they are as many as a number may have, and
what they stand for. -/
def readNumber (isDigit : Char → Bool) (value : List Char → Nat) (maxDigits : Nat) (allowZeroPrefix : Bool)
    (text : List Char) : Option (Nat × List Char) :=
  let digits := text.takeWhile isDigit
  if digits = [] ∨ maxDigits < digits.length then none
  else if !allowZeroPrefix ∧ digits.head? = some '0' ∧ 1 < digits.length then none
  else some (value digits, text.dropWhile isDigit)

def readOctet (text : List Char) : Option (UInt8 × List Char) :=
  (readNumber isDigit decimal 3 false text).bind fun (n, rest) => if n < 256 then some (.ofNat n, rest) else none

def readGroup (text : List Char) : Option (Nat × List Char) := readNumber isHexDigit hexadecimal 4 true text

def readGivenChar (c : Char) : List Char → Option (List Char)
  | [] => none
  | d :: rest => if d = c then some rest else none

/-- What follows a separator, which stands before every item but the first. -/
def readSeparator (sep : Char) (first : Bool) (text : List Char) : Option (List Char) :=
  if first then some text else readGivenChar sep text

theorem size_four (a b c d : UInt8) : #[a, b, c, d].size = 4 := rfl

def readIpv4Addr (text : List Char) : Option (Vector UInt8 4 × List Char) :=
  (readOctet text).bind fun (a, text) =>
    ((readGivenChar '.' text).bind readOctet).bind fun (b, text) =>
      ((readGivenChar '.' text).bind readOctet).bind fun (c, text) =>
        ((readGivenChar '.' text).bind readOctet).map fun (d, text) => (⟨#[a, b, c, d], size_four a b c d⟩, text)

/-- At most so many groups, whether they end with an embedded IPv4 address, and
the text behind them. -/
def readGroups (first : Bool) : Nat → List Char → List Nat × Bool × List Char
  | 0, text => ([], false, text)
  | n + 1, text =>
      match if 0 < n then (readSeparator ':' first text).bind readIpv4Addr else none with
      | some (octets, rest) => (segments octets.toList, true, rest)
      | none =>
          match (readSeparator ':' first text).bind readGroup with
          | some (group, rest) =>
              let (groups, ipv4, rest) := readGroups false n rest
              (group :: groups, ipv4, rest)
          | none => ([], false, text)

def readIpv6Addr (text : List Char) : Option (List Nat × List Char) :=
  match readGroups true 8 text with
  | (head, ipv4, text) =>
      if head.length = 8 then some (head, text)
      else if ipv4 then none
      else
        ((readGivenChar ':' text).bind (readGivenChar ':')).map fun text =>
          match readGroups true (8 - (head.length + 1)) text with
          | (tail, _, text) => (head ++ List.replicate (8 - head.length - tail.length) 0 ++ tail, text)

def octetsOf (groups : List Nat) : List UInt8 := groups.flatMap fun g => [.ofNat (g / 256), .ofNat g]

def ipOfGroups (groups : List Nat) : Option IpAddr :=
  if h : (octetsOf groups).length = 16 then some (.v6 ⟨(octetsOf groups).toArray, h⟩) else none

/-- The whole text is an address. -/
def parseIp (text : List Char) : Option IpAddr :=
  match readIpv4Addr text with
  | some (octets, rest) => if rest = [] then some (.v4 octets) else none
  | none =>
      (readIpv6Addr text).bind fun (groups, rest) => if rest = [] then ipOfGroups groups else none

example : parseIp "192.0.2.7".toList = some (.v4 #v[192, 0, 2, 7]) := by decide
example : parseIp "2001:DB8:0:0::1".toList = parseIp "2001:db8::1".toList := by decide
example : parseIp "::ffff:192.0.2.7".toList = parseIp "::FFFF:c000:0207".toList := by decide
example : parseIp "192.0.2.07".toList = none := by decide

section Numbers

variable {isDigit : Char → Bool} {value : List Char → Nat} {digits rest : List Char}

/-- No more digits follow. -/
def NoMore (isDigit : Char → Bool) (rest : List Char) : Prop := ∀ c ∈ rest.head?, isDigit c = false

theorem takeWhile_digits (h : ∀ c ∈ digits, isDigit c = true) (hrest : NoMore isDigit rest) :
    (digits ++ rest).takeWhile isDigit = digits := by
  rw [List.takeWhile_append_of_pos h]
  cases rest with
  | nil => simp
  | cons c rest => rw [List.takeWhile_cons_of_neg (by simp [hrest c rfl]), List.append_nil]

theorem dropWhile_digits (h : ∀ c ∈ digits, isDigit c = true) (hrest : NoMore isDigit rest) :
    (digits ++ rest).dropWhile isDigit = rest := by
  rw [List.dropWhile_append_of_pos h]
  cases rest with
  | nil => rfl
  | cons c rest => rw [List.dropWhile_cons_of_neg (by simp [hrest c rfl])]

theorem readNumber_digits {maxDigits : Nat} {allowZeroPrefix : Bool} (h : ∀ c ∈ digits, isDigit c = true)
    (hne : digits ≠ []) (hlen : digits.length ≤ maxDigits)
    (hzero : allowZeroPrefix = true ∨ digits.head? ≠ some '0' ∨ digits.length ≤ 1) (hrest : NoMore isDigit rest) :
    readNumber isDigit value maxDigits allowZeroPrefix (digits ++ rest) = some (value digits, rest) := by
  rw [readNumber, takeWhile_digits h hrest, dropWhile_digits h hrest, if_neg, if_neg]
  · rintro ⟨hallow, hhead, hmore⟩
    rcases hzero with hzero | hzero | hzero
    · simp [hzero] at hallow
    · exact hzero hhead
    · omega
  · rintro (hnil | hmany)
    · exact hne hnil
    · omega

theorem readNumber_none {maxDigits : Nat} {allowZeroPrefix : Bool} (h : NoMore isDigit rest) :
    readNumber isDigit value maxDigits allowZeroPrefix rest = none := by
  have hnil : ([] ++ rest).takeWhile isDigit = [] := takeWhile_digits (by simp) h
  rw [List.nil_append] at hnil
  rw [readNumber, hnil, if_pos (.inl rfl)]

end Numbers

section Octets

variable {digits rest : List Char}

theorem noMore_nil (p : Char → Bool) : NoMore p [] := by simp [NoMore]

theorem noMore_cons {p : Char → Bool} {c : Char} (h : p c = false) (rest : List Char) : NoMore p (c :: rest) := by
  simpa [NoMore] using h

theorem head_showNat {n : Nat} (h : n ≠ 0) : (showNat n).head? ≠ some '0' := by
  induction n using Nat.strongRecOn with
  | ind n ih =>
      rw [showNat]
      by_cases hn : n < 10
      · rw [Nat.toDigits_of_lt_base hn]
        have hdigit : ∀ d < 10, d ≠ 0 → [d.digitChar].head? ≠ some '0' := by decide
        exact hdigit n hn h
      · have hhead : (Nat.toDigits 10 (n / 10)).head? ≠ some '0' := ih (n / 10) (by omega) (by omega)
        rw [Nat.toDigits_of_base_le (by decide) (by omega), List.head?_append_of_ne_nil _ Nat.toDigits_ne_nil]
        exact hhead

/-- No number is written with a zero in front. -/
theorem showNat_no_zero (n : Nat) : (showNat n).head? ≠ some '0' ∨ (showNat n).length ≤ 1 := by
  by_cases h : n = 0
  · right
    rw [h]
    decide
  · exact .inl (head_showNat h)

theorem readOctet_shown (b : UInt8) (h : NoMore isDigit rest) : readOctet (showNat b.toNat ++ rest) = some (b, rest) := by
  have hb : b.toNat < 256 := b.toNat_lt
  have hlen : (showNat b.toNat).length ≤ 3 := toDigits_length_le (by decide) (by decide) (by omega)
  rw [readOctet, readNumber_digits (digits_showNat _) (showNat_ne_nil _) hlen (.inr (showNat_no_zero _)) h,
    Option.bind_some, decimal_showNat]
  dsimp only
  rw [if_pos hb, UInt8.ofNat_toNat]

/-- An IPv4 address is read as it was written. -/
theorem readIpv4Addr_shown (octets : Vector UInt8 4) (h : NoMore isDigit rest) :
    readIpv4Addr (showV4 octets.toList ++ rest) = some (octets, rest) := by
  obtain ⟨⟨l⟩, hl⟩ := octets
  rcases l with _ | ⟨a, _ | ⟨b, _ | ⟨c, _ | ⟨d, _ | ⟨e, l⟩⟩⟩⟩⟩ <;> simp at hl
  have htext : showV4 [a, b, c, d] ++ rest = showNat a.toNat ++ '.' :: (showNat b.toNat ++ '.' ::
      (showNat c.toNat ++ '.' :: (showNat d.toNat ++ rest))) := by
    simp [showV4, List.intercalate]
  have hdot (more : List Char) : NoMore isDigit ('.' :: more) := noMore_cons (by decide) more
  change readIpv4Addr (showV4 [a, b, c, d] ++ rest) = _
  simp only [htext, readIpv4Addr, readOctet_shown a (hdot _), readOctet_shown b (hdot _), readOctet_shown c (hdot _),
    readOctet_shown d h, readGivenChar, if_true, Option.bind_some, Option.map_some]

theorem readOctet_rest {text text' : List Char} {b : UInt8} (h : readOctet text = some (b, text')) :
    text' = text.dropWhile isDigit := by
  obtain ⟨⟨n, rest⟩, hread, hb⟩ := Option.bind_eq_some_iff.mp h
  rw [readNumber] at hread
  split at hread
  next => cases hread
  next =>
    split at hread
    next => cases hread
    next =>
      cases hread
      dsimp only at hb
      split at hb
      next =>
        cases hb
        rfl
      next => cases hb

/-- Where no dot follows the digits there is no IPv4 address. -/
theorem readIpv4Addr_none {text : List Char} (h : ∀ c ∈ (text.dropWhile isDigit).head?, c ≠ '.') :
    readIpv4Addr text = none := by
  rw [readIpv4Addr]
  cases hread : readOctet text with
  | none => rfl
  | some r =>
      obtain ⟨b, text'⟩ := r
      have hgiven : readGivenChar '.' text' = none := by
        rw [readOctet_rest hread]
        cases hrest : text.dropWhile isDigit with
        | nil => rfl
        | cons c rest =>
            rw [hrest] at h
            exact if_neg (h c rfl)
      rw [Option.bind_some]
      dsimp only
      rw [hgiven]
      rfl

end Octets

section Groups

variable {rest more : List Char} {segs : List Nat} {n : Nat}

/-- A colon follows, or nothing. -/
def Ends (rest : List Char) : Prop := ∀ c ∈ rest.head?, c = ':'

theorem Ends.noMore {p : Char → Bool} (h : Ends rest) (hp : p ':' = false) : NoMore p rest := by
  intro c hc
  rw [h c hc]
  exact hp

/-- What the groups of one side of the address are followed by. -/
def Stops (rest : List Char) : Prop := rest = [] ∨ ∃ more, rest = ':' :: ':' :: more

theorem Stops.ends (h : Stops rest) : Ends rest := by
  rcases h with rfl | ⟨more, rfl⟩
  · simp [Ends]
  · simp [Ends]

theorem isHexDigit_of_mem {c : Char} (h : c ∈ Nat.toDigits 16 n) : isHexDigit c = true := by
  have hall : ∀ d < 16, isHexDigit d.digitChar = true := by decide
  induction n using Nat.strong_induction_on with
  | _ n ih =>
      rw [Nat.toDigits_eq_if (by decide)] at h
      split at h
      next hlt =>
        rw [List.mem_singleton.mp h]
        exact hall n hlt
      next hle =>
        rcases List.mem_append.mp h with h | h
        · exact ih (n / 16) (Nat.div_lt_self (by omega) (by decide)) h
        · rw [List.mem_singleton.mp h]
          exact hall _ (Nat.mod_lt n (by decide))

theorem readGroup_shown (hn : n < 65536) (hrest : Ends rest) :
    readGroup (Nat.toDigits 16 n ++ rest) = some (n, rest) := by
  have hlen : (Nat.toDigits 16 n).length ≤ 4 := toDigits_length_le (by decide) (by decide) hn
  rw [readGroup, readNumber_digits (fun c hc => isHexDigit_of_mem hc) Nat.toDigits_ne_nil hlen (.inl rfl)
    (hrest.noMore (by decide)), hexadecimal_toDigits]

/-- A group is not the front of an embedded IPv4 address. -/
theorem readIpv4Addr_group (hrest : Ends rest) : readIpv4Addr (Nat.toDigits 16 n ++ rest) = none := by
  have hhex : ∀ c ∈ Nat.toDigits 16 n, isHexDigit c = true := fun c hc => isHexDigit_of_mem hc
  generalize Nat.toDigits 16 n = digits at hhex
  apply readIpv4Addr_none
  induction digits with
  | nil =>
      intro c hc hdot
      have hkept : ([] ++ rest).dropWhile isDigit = rest := dropWhile_digits (by simp) (hrest.noMore (by decide))
      rw [hkept] at hc
      cases (hrest c hc).symm.trans hdot
  | cons d digits ih =>
      intro c hc
      rw [List.cons_append, List.dropWhile_cons] at hc
      split at hc
      next => exact ih (fun c hc => hhex c (List.mem_cons_of_mem d hc)) c hc
      next =>
        rw [List.head?_cons, Option.mem_some_iff] at hc
        have hd := hhex d List.mem_cons_self
        rintro rfl
        rw [hc] at hd
        cases hd

theorem readGroups_group {first : Bool} {text : List Char} {limit : Nat}
    (hsep : readSeparator ':' first text = some (Nat.toDigits 16 n ++ more)) (hn : n < 65536) (hmore : Ends more) :
    readGroups first (limit + 1) text = (n :: (readGroups false limit more).1, (readGroups false limit more).2) := by
  rw [readGroups, hsep, Option.bind_some, Option.bind_some, readIpv4Addr_group hmore, readGroup_shown hn hmore, ite_self]

theorem readGroups_none {first : Bool} {text : List Char} (hv4 : (readSeparator ':' first text).bind readIpv4Addr = none)
    (hgroup : (readSeparator ':' first text).bind readGroup = none) (limit : Nat) :
    readGroups first limit text = ([], false, text) := by
  cases limit with
  | zero => rfl
  | succ limit => rw [readGroups, hv4, hgroup, ite_self]

theorem readIpv4Addr_ends (h : Ends rest) : readIpv4Addr rest = none := by
  have hnone : readOctet rest = none := by
    rw [readOctet, readNumber_none (h.noMore (by decide))]
    rfl
  rw [readIpv4Addr, hnone]
  rfl

theorem readGroups_stops {first : Bool} (h : Stops rest) (limit : Nat) :
    readGroups first limit rest = ([], false, rest) := by
  have hgroup {text : List Char} (ht : Ends text) : readGroup text = none := readNumber_none (ht.noMore (by decide))
  cases first with
  | true =>
      have hsep : readSeparator ':' true rest = some rest := rfl
      exact readGroups_none (hsep ▸ readIpv4Addr_ends h.ends) (hsep ▸ hgroup h.ends) limit
  | false =>
      rcases h with rfl | ⟨more, rfl⟩
      · exact readGroups_none rfl rfl limit
      · have hends : Ends (':' :: more) := by simp [Ends]
        have hsep : readSeparator ':' false (':' :: ':' :: more) = some (':' :: more) := rfl
        exact readGroups_none (hsep ▸ readIpv4Addr_ends hends) (hsep ▸ hgroup hends) limit

/-- The groups behind the first, each with its colon. -/
def shownBehind (segs : List Nat) : List Char := segs.flatMap fun n => ':' :: Nat.toDigits 16 n

theorem showSegments_cons (n : Nat) (segs : List Nat) :
    showSegments (n :: segs) = Nat.toDigits 16 n ++ shownBehind segs := by
  induction segs generalizing n with
  | nil => simp [showSegments, shownBehind]
  | cons m segs ih =>
      have h := ih m
      rw [showSegments] at h
      rw [showSegments, List.map_cons, List.map_cons, List.intercalate_cons_cons, ← List.map_cons, h]
      simp [shownBehind]

theorem ends_behind (segs : List Nat) (h : Ends rest) : Ends (shownBehind segs ++ rest) := by
  cases segs with
  | nil => exact h
  | cons n segs => simp [Ends, shownBehind]

theorem readGroups_behind (hsmall : ∀ n ∈ segs, n < 65536) {limit : Nat} (hlen : segs.length ≤ limit) (h : Stops rest) :
    readGroups false limit (shownBehind segs ++ rest) = (segs, false, rest) := by
  induction segs generalizing limit with
  | nil => exact readGroups_stops h limit
  | cons n segs ih =>
      obtain ⟨limit, rfl⟩ := Nat.exists_eq_add_of_le' (Nat.le_trans (Nat.succ_le_succ (Nat.zero_le _)) hlen)
      have hsep : readSeparator ':' false (shownBehind (n :: segs) ++ rest) =
          some (Nat.toDigits 16 n ++ (shownBehind segs ++ rest)) := by
        simp [readSeparator, readGivenChar, shownBehind]
      rw [readGroups_group hsep (hsmall n List.mem_cons_self) (ends_behind segs h.ends),
        ih (fun m hm => hsmall m (List.mem_cons_of_mem n hm)) (Nat.succ_le_succ_iff.mp hlen)]

/-- The groups of one side are read as they were written. -/
theorem readGroups_shown (hsmall : ∀ n ∈ segs, n < 65536) {limit : Nat} (hlen : segs.length ≤ limit) (h : Stops rest) :
    readGroups true limit (showSegments segs ++ rest) = (segs, false, rest) := by
  cases segs with
  | nil => exact readGroups_stops h limit
  | cons n segs =>
      obtain ⟨limit, rfl⟩ := Nat.exists_eq_add_of_le' (Nat.le_trans (Nat.succ_le_succ (Nat.zero_le _)) hlen)
      have hsep : readSeparator ':' true (showSegments (n :: segs) ++ rest) =
          some (Nat.toDigits 16 n ++ (shownBehind segs ++ rest)) := by
        rw [showSegments_cons, List.append_assoc]
        rfl
      rw [readGroups_group hsep (hsmall n List.mem_cons_self) (ends_behind segs h.ends),
        readGroups_behind (fun m hm => hsmall m (List.mem_cons_of_mem n hm)) (Nat.succ_le_succ_iff.mp hlen) h]

end Groups

section RoundTrip

variable {segs : List Nat}

theorem readIpv6Addr_compressed (hsmall : ∀ n ∈ segs, n < 65536) (hlen : segs.length = 8) :
    readIpv6Addr (compressed segs) = some (segs, []) := by
  have hzeros := zeros_longest segs
  rw [compressed]
  generalize longestZeros 0 0 0 (0, 0) segs = run at hzeros
  obtain ⟨start, len⟩ := run
  dsimp only
  split
  next hmany =>
    have hsplit := split_at_gap hzeros
    have hfront : ∀ n ∈ segs.take start, n < 65536 := fun n hn => hsmall n (List.mem_of_mem_take hn)
    have hback : ∀ n ∈ segs.drop (start + len), n < 65536 := fun n hn => hsmall n (List.mem_of_mem_drop hn)
    have hlens := congrArg List.length hsplit
    rw [List.length_append, List.length_append, List.length_replicate, hlen] at hlens
    have hstops : Stops ("::".toList ++ showSegments (segs.drop (start + len))) := .inr ⟨_, rfl⟩
    have htail : readGroups true (8 - ((segs.take start).length + 1)) (showSegments (segs.drop (start + len)) ++ []) =
        (segs.drop (start + len), false, []) := readGroups_shown hback (by omega) (.inl rfl)
    rw [List.append_nil] at htail
    rw [readIpv6Addr, List.append_assoc, readGroups_shown hfront (by omega) hstops]
    dsimp only
    rw [if_neg (by omega), if_neg Bool.false_ne_true]
    have hgap : 8 - (segs.take start).length - (segs.drop (start + len)).length = len := by omega
    have hcolons : (readGivenChar ':' ("::".toList ++ showSegments (segs.drop (start + len)))).bind (readGivenChar ':') =
        some (showSegments (segs.drop (start + len))) := rfl
    rw [hcolons, Option.map_some, htail, hgap, List.append_assoc, ← hsplit]
  next =>
    have hread : readGroups true 8 (showSegments segs ++ []) = (segs, false, []) :=
      readGroups_shown hsmall (by omega) (.inl rfl)
    rw [List.append_nil] at hread
    rw [readIpv6Addr, hread]
    dsimp only
    rw [if_pos hlen]

theorem octetsOf_segments : ∀ {octets : List UInt8}, octets.length % 2 = 0 → octetsOf (segments octets) = octets
  | [], _ => rfl
  | [_], h => by simp at h
  | a :: b :: rest, h => by
      have hrest : octetsOf (segments rest) = rest := by
        apply octetsOf_segments
        simp only [List.length_cons] at h
        omega
      have ha : UInt8.ofNat ((a.toNat * 256 + b.toNat) / 256) = a := by
        have hb := b.toNat_lt
        have hdiv : (a.toNat * 256 + b.toNat) / 256 = a.toNat := by omega
        rw [hdiv, UInt8.ofNat_toNat]
      have hb : UInt8.ofNat (a.toNat * 256 + b.toNat) = b := by
        apply UInt8.toNat_inj.mp
        have hlt := b.toNat_lt
        rw [UInt8.toNat_ofNat']
        omega
      rw [octetsOf] at hrest
      rw [octetsOf, segments, List.flatMap_cons, hrest, ha, hb]
      rfl

theorem segments_small {octets : List UInt8} : ∀ n ∈ segments octets, n < 65536 := by
  intro n hn
  fun_induction segments octets with
  | case1 a b rest ih =>
      rcases List.mem_cons.mp hn with rfl | hn
      · have ha := a.toNat_lt
        have hb := b.toNat_lt
        omega
      · exact ih hn
  | case2 => cases hn

theorem ipOfGroups_segments (octets : Vector UInt8 16) : ipOfGroups (segments octets.toList) = some (.v6 octets) := by
  have heven : octets.toList.length % 2 = 0 := by rw [Vector.length_toList]
  have hsame := octetsOf_segments heven
  rw [ipOfGroups, dif_pos (by rw [hsame, Vector.length_toList])]
  have hvec : (⟨(octetsOf (segments octets.toList)).toArray, by simp [hsame]⟩ : Vector UInt8 16) = octets := by
    apply Vector.toList_inj.mp
    simp [hsame]
  rw [hvec]

theorem readIpv6Addr_mapped {octets : List UInt8} (hlen : octets.length = 16)
    (h : (segments octets).take 6 = [0, 0, 0, 0, 0, 0xFFFF]) :
    readIpv6Addr ("::ffff:".toList ++ showV4 (octets.drop 12)) = some (segments octets, []) := by
  have hfour : (octets.drop 12).length = 4 := by rw [List.length_drop, hlen]
  have htext : "::ffff:".toList ++ showV4 (octets.drop 12) =
      ':' :: ':' :: (Nat.toDigits 16 0xFFFF ++ ':' :: showV4 (octets.drop 12)) := rfl
  have hv4 : readIpv4Addr (showV4 (octets.drop 12) ++ []) = some (⟨(octets.drop 12).toArray, hfour⟩, []) :=
    readIpv4Addr_shown ⟨(octets.drop 12).toArray, hfour⟩ (noMore_nil isDigit)
  rw [List.append_nil] at hv4
  have htail : readGroups false 6 (':' :: showV4 (octets.drop 12)) = (segments (octets.drop 12), true, []) := by
    have hsep : readSeparator ':' false (':' :: showV4 (octets.drop 12)) = some (showV4 (octets.drop 12)) := rfl
    rw [readGroups, hsep, Option.bind_some, hv4, if_pos (by decide)]
    rfl
  have hends : Ends (':' :: showV4 (octets.drop 12)) := by simp [Ends]
  rw [readIpv6Addr, htext, readGroups_stops (.inr ⟨_, rfl⟩)]
  have hcolons (text : List Char) : (readGivenChar ':' (':' :: ':' :: text)).bind (readGivenChar ':') = some text := rfl
  dsimp only
  rw [if_neg (by decide), if_neg Bool.false_ne_true, hcolons, Option.map_some]
  have hsep : readSeparator ':' true (Nat.toDigits 16 0xFFFF ++ ':' :: showV4 (octets.drop 12)) =
      some (Nat.toDigits 16 0xFFFF ++ ':' :: showV4 (octets.drop 12)) := rfl
  rw [List.length_nil, readGroups_group hsep (by decide) hends, htail]
  have hdrop : segments (octets.drop 12) = (segments octets).drop 6 := segments_drop 6 octets
  have hsegs : segments octets = [0, 0, 0, 0, 0, 0xFFFF] ++ (segments octets).drop 6 := by
    rw [← h, List.take_append_drop]
  have hcount : (segments (octets.drop 12)).length = 2 := by rw [segments_length, hfour]
  rw [List.length_cons, hcount, hdrop, hsegs]
  rfl

theorem Ends.append {front back : List Char} (h : Ends front) (hback : Ends back) : Ends (front ++ back) := by
  cases front with
  | nil => exact hback
  | cons c front => exact h

/-- An IPv6 address starts with a colon or with a group and what ends it. -/
theorem showV6_front (octets : List UInt8) :
    Ends (showV6 octets) ∨ ∃ n rest, Ends rest ∧ showV6 octets = Nat.toDigits 16 n ++ rest := by
  have hsegments (segs : List Nat) (rest : List Char) (h : Ends rest) :
      Ends (showSegments segs ++ rest) ∨ ∃ n more, Ends more ∧ showSegments segs ++ rest = Nat.toDigits 16 n ++ more := by
    cases segs with
    | nil => exact .inl h
    | cons n segs =>
        refine .inr ⟨n, shownBehind segs ++ rest, ends_behind segs h, ?_⟩
        rw [showSegments_cons, List.append_assoc]
  rw [showV6_eq]
  split
  next => exact .inl (by simp [Ends])
  next =>
    rw [compressed]
    generalize longestZeros 0 0 0 (0, 0) (segments octets) = run
    obtain ⟨start, len⟩ := run
    dsimp only
    split
    next =>
      rw [List.append_assoc]
      exact hsegments _ _ (by simp [Ends])
    next =>
      have h := hsegments (segments octets) [] (by simp [Ends])
      rwa [List.append_nil] at h

theorem readIpv4Addr_showV6 {octets : List UInt8} {rest : List Char} (h : Ends rest) :
    readIpv4Addr (showV6 octets ++ rest) = none := by
  rcases showV6_front octets with hends | ⟨n, more, hmore, heq⟩
  · exact readIpv4Addr_ends (hends.append h)
  · rw [heq, List.append_assoc]
    exact readIpv4Addr_group (hmore.append h)

/-- An address is read as it was written. -/
theorem parseIp_showIp (ip : IpAddr) : parseIp (showIp ip) = some ip := by
  cases ip with
  | v4 octets =>
      have h := readIpv4Addr_shown octets (noMore_nil isDigit)
      rw [List.append_nil] at h
      rw [parseIp, showIp, h]
      rfl
  | v6 octets =>
      have hread : readIpv6Addr (showV6 octets.toList) = some (segments octets.toList, []) := by
        rw [showV6_eq]
        split
        next h => exact readIpv6Addr_mapped Vector.length_toList h
        next => exact readIpv6Addr_compressed segments_small (by rw [segments_length, Vector.length_toList])
      have hnone : readIpv4Addr (showV6 octets.toList) = none := by
        have h : readIpv4Addr (showV6 octets.toList ++ []) = none := readIpv4Addr_showV6 (by simp [Ends])
        rwa [List.append_nil] at h
      rw [parseIp, showIp, hnone]
      dsimp only
      rw [hread, Option.bind_some, if_pos rfl, ipOfGroups_segments]

end RoundTrip

end NixiSbc.AddressParser

import NixiSbc.Selection
import NixiSbc.TextScan
import NixiSbc.Utf8
import Mathlib.Data.Prod.Lex

namespace NixiSbc.Destinations

open Selection TextScan Utf8

structure DestinationRule where
  id : List Char
  dialPrefix : List Char
  deny : Bool
  user : Option (List Char)
  description : List Char
  enabled : Bool
  deriving DecidableEq

inductive DestinationDecision
  | allowed
  | blocked (ruleId description : List Char)
  deriving DecidableEq

structure DestinationPolicy where
  rules : List DestinationRule
  defaultDeny : Bool
  defaultCc : List Char
  enabled : Bool
  blockedTotal : UInt64

def isSeparator (c : Char) : Bool := c = ' ' ∨ c = '-' ∨ c = '.'

def stripSeparators (text : List Char) : List Char := text.filter fun c => !isSeparator c

def canonicalize (p : DestinationPolicy) (dialed : List Char) : List Char :=
  let digits := stripSeparators dialed
  if digits.head? = some '+' then digits
  else if digits.all isDigit = false then dialed
  else
    match digits with
    | '0' :: '0' :: rest => '+' :: rest
    | '0' :: rest => '+' :: (p.defaultCc ++ rest)
    | digits => digits

/-- The rule applies to a call of this user to this number. -/
def applies (p : DestinationPolicy) (dialed : List Char) (user : Option (List Char))
    (r : DestinationRule) : Bool :=
  r.enabled ∧ (r.user = none ∨ r.user = user) ∧
    (r.dialPrefix <+: canonicalize p dialed ∨ r.dialPrefix <+: dialed)

/-- User-scoped rules beat global ones, then the longest pattern in bytes wins,
then a denial. -/
def ruleKey (r : DestinationRule) : Nat ×ₗ Nat ×ₗ Nat :=
  toLex (r.user.isSome.toNat, toLex ((encode r.dialPrefix).length, r.deny.toNat))

def check (p : DestinationPolicy) (dialed : List Char) (user : Option (List Char)) :
    DestinationDecision × DestinationPolicy :=
  if p.enabled = false then (.allowed, p)
  else
    match maxByKey ruleKey (p.rules.filter (applies p dialed user)) with
    | some rule =>
        if rule.deny then
          (.blocked rule.id rule.description, { p with blockedTotal := p.blockedTotal + 1 })
        else (.allowed, p)
    | none =>
        if p.defaultDeny then
          (.blocked "default".toList "default deny".toList,
            { p with blockedTotal := p.blockedTotal + 1 })
        else (.allowed, p)

/-- The ways to dial the number `+n`: with a plus, with the international
prefix, or with the national one for a number of the own country. What
follows the country code must not begin with a zero of its own, since the two
zeros then read as the international prefix. -/
inductive Spells (p : DestinationPolicy) (n : List Char) : List Char → Prop
  | plus : Spells p n ('+' :: n)
  | international : Spells p n ('0' :: '0' :: n)
  | national (m : List Char) (hn : n = p.defaultCc ++ m) (hm : m.head? ≠ some '0') :
      Spells p n ('0' :: m)

theorem canonicalize_international (p : DestinationPolicy) {dialed rest : List Char}
    (hstrip : stripSeparators dialed = '0' :: '0' :: rest) (hdigits : rest.all isDigit = true) :
    canonicalize p dialed = '+' :: rest := by
  have hall : ('0' :: '0' :: rest).all isDigit = true := by
    simp only [List.all_cons, hdigits]
    decide
  rw [canonicalize, hstrip, if_neg (by simp), hall, if_neg (by decide)]
  rfl

theorem canonicalize_national (p : DestinationPolicy) {dialed rest : List Char}
    (hstrip : stripSeparators dialed = '0' :: rest) (hdigits : rest.all isDigit = true)
    (hrest : rest.head? ≠ some '0') : canonicalize p dialed = '+' :: (p.defaultCc ++ rest) := by
  have hall : ('0' :: rest).all isDigit = true := by
    rw [List.all_cons, hdigits]
    decide
  rw [canonicalize, hstrip, if_neg (by simp), hall, if_neg (by decide)]
  match rest with
  | [] => rfl
  | c :: rest =>
      have hc : c ≠ '0' := fun he => hrest (by rw [he]; rfl)
      split
      next he => exact absurd (List.cons.inj (List.cons.inj he).2).1 hc
      next he =>
        cases he
        rfl
      next hne => exact absurd rfl (hne (c :: rest))

theorem canonicalize_spelled {p : DestinationPolicy} {n dialed : List Char} (hn : n.all isDigit = true)
    (h : Spells p n (stripSeparators dialed)) : canonicalize p dialed = '+' :: n := by
  generalize hstrip : stripSeparators dialed = text at h
  cases h with
  | plus => simp only [canonicalize, hstrip, List.head?_cons, if_true]
  | international => exact canonicalize_international p hstrip hn
  | national m hnm hm =>
      rw [hnm, List.all_append, Bool.and_eq_true] at hn
      rw [canonicalize_national p hstrip hn.2 hm, hnm]

/-- A plus and digits. -/
def IsE164 (text : List Char) : Prop := ∃ digits, text = '+' :: digits ∧ digits.all isDigit = true

theorem isDigit_not_separator {c : Char} (h : isDigit c = true) : isSeparator c = false := by
  simp only [isDigit, decide_eq_true_eq] at h
  by_contra hc
  simp only [isSeparator, decide_eq_false_iff_not, not_not] at hc
  rcases hc with rfl | rfl | rfl <;> exact absurd h (by decide)

theorem stripSeparators_eq_self {text : List Char} (h : ∀ c ∈ text, isSeparator c = false) :
    stripSeparators text = text :=
  List.filter_eq_self.mpr fun c hc => by rw [h c hc]; rfl

theorem IsE164.strip {text : List Char} (h : IsE164 text) : stripSeparators text = text := by
  obtain ⟨digits, rfl, hdigits⟩ := h
  apply stripSeparators_eq_self
  intro c hc
  rcases List.mem_cons.mp hc with rfl | hc
  · decide
  · exact isDigit_not_separator (List.all_eq_true.mp hdigits c hc)

/-- A pattern of a plus and digits matches the number however it was dialed. -/
theorem pattern_matches_iff {p : DestinationPolicy} {n dialed pattern : List Char}
    (hn : n.all isDigit = true) (h : Spells p n (stripSeparators dialed)) (hpattern : IsE164 pattern) :
    pattern <+: canonicalize p dialed ∨ pattern <+: dialed ↔ pattern <+: '+' :: n := by
  rw [canonicalize_spelled hn h]
  constructor
  · rintro (hm | hraw)
    · exact hm
    · have hstrip := hraw.filter fun c => !isSeparator c
      change stripSeparators pattern <+: stripSeparators dialed at hstrip
      rw [hpattern.strip] at hstrip
      obtain ⟨digits, rfl, -⟩ := hpattern
      generalize stripSeparators dialed = text at h hstrip
      cases h with
      | plus => exact hstrip
      | international => exact absurd (List.cons_prefix_cons.mp hstrip).1 (by decide)
      | national m _ _ => exact absurd (List.cons_prefix_cons.mp hstrip).1 (by decide)
  · exact .inl

/-- Every spelling of a number gets the same decision, down to the rule. -/
theorem check_spelled {p : DestinationPolicy} (hrules : ∀ r ∈ p.rules, IsE164 r.dialPrefix)
    {n dialed dialed' : List Char} (hn : n.all isDigit = true)
    (h : Spells p n (stripSeparators dialed)) (h' : Spells p n (stripSeparators dialed'))
    (user : Option (List Char)) : check p dialed user = check p dialed' user := by
  have happlies : p.rules.filter (applies p dialed user) = p.rules.filter (applies p dialed' user) := by
    apply List.filter_congr
    intro r hr
    simp only [applies, pattern_matches_iff hn h (hrules r hr), pattern_matches_iff hn h' (hrules r hr)]
  rw [check, check, happlies]

def DestinationDecision.isBlocked : DestinationDecision → Bool
  | .allowed => false
  | .blocked _ _ => true

/-- A rule that may decide: it applies, no global rule decides while one of the
user's applies, and no rule of the same scope has a longer pattern. -/
structure Decisive (p : DestinationPolicy) (dialed : List Char) (user : Option (List Char))
    (r : DestinationRule) : Prop where
  mem : r ∈ p.rules
  applies : applies p dialed user r = true
  scope : ∀ r' ∈ p.rules, Destinations.applies p dialed user r' = true → r'.user.isSome = true →
    r.user.isSome = true
  longest : ∀ r' ∈ p.rules, Destinations.applies p dialed user r' = true →
    r'.user.isSome = r.user.isSome → (encode r'.dialPrefix).length ≤ (encode r.dialPrefix).length

theorem ruleKey_le_iff {r r' : DestinationRule} :
    ruleKey r ≤ ruleKey r' ↔ r.user.isSome.toNat < r'.user.isSome.toNat ∨
      r.user.isSome.toNat = r'.user.isSome.toNat ∧
        ((encode r.dialPrefix).length < (encode r'.dialPrefix).length ∨
          (encode r.dialPrefix).length = (encode r'.dialPrefix).length ∧ r.deny.toNat ≤ r'.deny.toNat) := by
  simp only [ruleKey, Prod.Lex.toLex_le_toLex]

theorem decisive_of_max {p : DestinationPolicy} {dialed : List Char} {user : Option (List Char)}
    {r : DestinationRule} (h : maxByKey ruleKey (p.rules.filter (applies p dialed user)) = some r) :
    Decisive p dialed user r ∧ ∀ r', Decisive p dialed user r' → r'.deny = true → r.deny = true := by
  obtain ⟨hmem, hmax⟩ := maxByKey_spec h
  obtain ⟨hrules, happlies⟩ := List.mem_filter.mp hmem
  have hle {r' : DestinationRule} (hr' : r' ∈ p.rules) (ha : applies p dialed user r' = true) :=
    ruleKey_le_iff.mp (hmax r' (List.mem_filter.mpr ⟨hr', ha⟩))
  refine ⟨⟨hrules, happlies, fun r' hr' ha hs => ?_, fun r' hr' ha hs => ?_⟩, fun r' hr' hdeny => ?_⟩
  · have hkey := hle hr' ha
    by_contra hg
    rw [hs, Bool.not_eq_true _ |>.mp hg] at hkey
    simp at hkey
  · have hkey := hle hr' ha
    rw [hs] at hkey
    omega
  · have hkey := hle hr'.mem hr'.applies
    have hlen := hr'.longest r hrules happlies
    by_contra hg
    rw [hdeny, Bool.not_eq_true _ |>.mp hg] at hkey
    cases hs : r.user.isSome with
    | false =>
        rw [hs] at hkey hlen
        cases hs' : r'.user.isSome <;> simp [hs'] at hkey hlen
        omega
    | true =>
        have hs' := hr'.scope r hrules happlies hs
        rw [hs, hs'] at hkey hlen
        simp at hkey hlen
        omega

theorem check_blocked {p : DestinationPolicy} (henabled : p.enabled = true) (dialed : List Char)
    (user : Option (List Char)) :
    (check p dialed user).1.isBlocked =
      ((maxByKey ruleKey (p.rules.filter (applies p dialed user))).map (·.deny)).getD p.defaultDeny := by
  rw [check, if_neg (by rw [henabled]; decide)]
  cases maxByKey ruleKey (p.rules.filter (applies p dialed user)) with
  | none => cases hd : p.defaultDeny <;> simp [DestinationDecision.isBlocked]
  | some r => cases hd : r.deny <;> simp [hd, DestinationDecision.isBlocked]

/-- What decides, in terms of the set of rules alone. -/
theorem check_blocked_iff {p : DestinationPolicy} (henabled : p.enabled = true) (dialed : List Char)
    (user : Option (List Char)) :
    (check p dialed user).1.isBlocked = true ↔
      (∃ r, Decisive p dialed user r ∧ r.deny = true) ∨
      (∀ r ∈ p.rules, applies p dialed user r = false) ∧ p.defaultDeny = true := by
  rw [check_blocked henabled]
  cases hbest : maxByKey ruleKey (p.rules.filter (applies p dialed user)) with
  | none =>
      have hnone : ∀ r ∈ p.rules, applies p dialed user r = false := by
        simpa using List.filter_eq_nil_iff.mp (maxByKey_eq_none.mp hbest)
      constructor
      · intro hdeny
        exact .inr ⟨hnone, hdeny⟩
      · rintro (⟨r, hr, -⟩ | ⟨-, hdeny⟩)
        · have ha := hr.applies
          rw [hnone r hr.mem] at ha
          cases ha
        · exact hdeny
  | some r =>
      obtain ⟨hr, hdeny⟩ := decisive_of_max hbest
      constructor
      · intro hd
        exact .inl ⟨r, hr, hd⟩
      · rintro (⟨r', hr', hd⟩ | ⟨hnone, -⟩)
        · exact hdeny r' hr' hd
        · have ha := hr.applies
          rw [hnone r hr.mem] at ha
          cases ha

/-- The decision does not depend on how a number is spelled, nor its outcome on
the order of the rules: of the rules that apply, those of the user's scope (else
the global ones) with the longest pattern decide, and a denial wins among them. -/
theorem destinations_spelling_and_order (p : DestinationPolicy) (user : Option (List Char)) :
    (∀ n dialed, (∀ r ∈ p.rules, IsE164 r.dialPrefix) → n.all isDigit = true →
      Spells p n (stripSeparators dialed) → (check p dialed user).1 = (check p ('+' :: n) user).1) ∧
    (∀ dialed rules, rules.Perm p.rules →
      (check { p with rules := rules } dialed user).1.isBlocked = (check p dialed user).1.isBlocked) ∧
    (p.enabled = true → ∀ dialed, (check p dialed user).1.isBlocked = true ↔
      (∃ r, Decisive p dialed user r ∧ r.deny = true) ∨
      (∀ r ∈ p.rules, applies p dialed user r = false) ∧ p.defaultDeny = true) := by
  refine ⟨fun n dialed hrules hn h => ?_, fun dialed rules hperm => ?_, fun henabled dialed =>
    check_blocked_iff henabled dialed user⟩
  · have hplain : IsE164 ('+' :: n) := ⟨n, rfl, hn⟩
    have h' : Spells p n (stripSeparators ('+' :: n)) := by
      rw [hplain.strip]
      exact .plus
    rw [check_spelled hrules hn h h' user]
  · have hiff {r : DestinationRule} :
        Decisive { p with rules := rules } dialed user r ↔ Decisive p dialed user r :=
      ⟨fun h => ⟨hperm.mem_iff.mp h.mem, h.applies,
          fun r' hr' => h.scope r' (hperm.mem_iff.mpr hr'),
          fun r' hr' => h.longest r' (hperm.mem_iff.mpr hr')⟩,
        fun h => ⟨hperm.mem_iff.mpr h.mem, h.applies,
          fun r' hr' => h.scope r' (hperm.mem_iff.mp hr'),
          fun r' hr' => h.longest r' (hperm.mem_iff.mp hr')⟩⟩
    by_cases henabled : p.enabled = true
    · rw [Bool.eq_iff_iff, check_blocked_iff (p := { p with rules := rules }) henabled,
        check_blocked_iff henabled]
      simp only [hiff, hperm.mem_iff]
      rfl
    · simp only [check, henabled]
      rfl

/-- The denial of one range, in a country whose area codes begin with a zero. -/
def romanPolicy : DestinationPolicy where
  rules := [⟨"r1".toList, "+6".toList, true, none, [], true⟩]
  defaultDeny := false
  defaultCc := "39".toList
  enabled := true
  blockedTotal := 0

theorem destinations_spelling_and_order_roman :
    (check romanPolicy "00 39-06".toList none).1 = (check romanPolicy "+3906".toList none).1 ∧
    (check romanPolicy "06.1".toList none).1 = (check romanPolicy "+3961".toList none).1 ∧
    (check romanPolicy "0061".toList none).1.isBlocked = true := by
  have hrules : ∀ r ∈ romanPolicy.rules, IsE164 r.dialPrefix := by
    intro r hr
    rw [List.mem_singleton.mp hr]
    exact ⟨['6'], rfl, by decide⟩
  have h := (destinations_spelling_and_order romanPolicy none).1
  exact ⟨h "3906".toList _ hrules (by decide) .international,
    h "3961".toList _ hrules (by decide) (.national "61".toList rfl (by decide)), by decide⟩

/-- With an area code that begins with a zero, the national spelling is the
international one of another number. -/
theorem national_spelling_escapes :
    (∀ r ∈ romanPolicy.rules, IsE164 r.dialPrefix) ∧ "3906".toList = romanPolicy.defaultCc ++ "06".toList ∧
    (check romanPolicy "+3906".toList none).1 = .allowed ∧
    (check romanPolicy ('0' :: "06".toList) none).1 ≠ .allowed := by
  refine ⟨fun r hr => ?_, rfl, by decide, by decide⟩
  rw [List.mem_singleton.mp hr]
  exact ⟨['6'], rfl, by decide⟩

end NixiSbc.Destinations

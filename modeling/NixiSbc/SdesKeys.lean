import Mathlib
import NixiSbc.Base64
import NixiSbc.SrtpContext
import NixiSbc.PaddedText

namespace NixiSbc.SdesKeys

open ByteWords Diagnostics SrtpKeys TextScan TextFields TextWords PaddedText Base64

inductive CryptoSuite
  | aesCm128HmacSha1_80
  | aesCm128HmacSha1_32
  | aesCm256HmacSha1_80
  | aesCm256HmacSha1_32
  deriving DecidableEq

namespace CryptoSuite

def masterKeyLen : CryptoSuite → Nat
  | aesCm128HmacSha1_80 | aesCm128HmacSha1_32 => 16
  | aesCm256HmacSha1_80 | aesCm256HmacSha1_32 => 32

def masterSaltLen (_suite : CryptoSuite) : Nat := 14

def authTagLen : CryptoSuite → Nat
  | aesCm128HmacSha1_80 | aesCm256HmacSha1_80 => 10
  | aesCm128HmacSha1_32 | aesCm256HmacSha1_32 => 4

def fromSdpName (name : List Char) : Option CryptoSuite :=
  if name = "AES_CM_128_HMAC_SHA1_80".toList then some aesCm128HmacSha1_80
  else if name = "AES_CM_128_HMAC_SHA1_32".toList then some aesCm128HmacSha1_32
  else if name = "AES_256_CM_HMAC_SHA1_80".toList then some aesCm256HmacSha1_80
  else if name = "AES_256_CM_HMAC_SHA1_32".toList then some aesCm256HmacSha1_32
  else none

def toSdpName : CryptoSuite → List Char
  | aesCm128HmacSha1_80 => "AES_CM_128_HMAC_SHA1_80".toList
  | aesCm128HmacSha1_32 => "AES_CM_128_HMAC_SHA1_32".toList
  | aesCm256HmacSha1_80 => "AES_256_CM_HMAC_SHA1_80".toList
  | aesCm256HmacSha1_32 => "AES_256_CM_HMAC_SHA1_32".toList

theorem fromSdpName_toSdpName (suite : CryptoSuite) : fromSdpName suite.toSdpName = some suite := by
  cases suite <;> rfl

theorem isWord_toSdpName (suite : CryptoSuite) : IsWord suite.toSdpName := by
  cases suite <;> exact ⟨List.cons_ne_nil _ _, not_blank_of_all (by decide)⟩

end CryptoSuite

/-- A context with the master key and salt that its session keys come from. -/
structure SrtpContext where
  masterKey : Bytes
  masterSalt : Bytes
  cryptoSuite : CryptoSuite
  crypto : Option SrtpContext.SrtpCrypto
  key_length : masterKey.length = cryptoSuite.masterKeyLen
  salt_length : masterSalt.length = cryptoSuite.masterSaltLen

section

variable (P : Primitives) (B : Coding)

/-- The keystream of a label, over zeros. -/
def kdfPrf (masterKey masterSalt : Bytes) (label : UInt8) (outputLen : Nat) : Bytes :=
  let iv := (masterSalt ++ [0, 0]).modify 7 (· ^^^ label)
  applyKeystream (P.keystream (masterKey.take 16) iv) (List.replicate outputLen 0)

def deriveSrtpKeys (masterKey masterSalt : Bytes) : Except Error (Bytes × Bytes × Bytes) :=
  if masterKey.length ≠ 16 ∧ masterKey.length ≠ 32 then
    .error (.media ("Invalid master key length: " ++ toString masterKey.length))
  else if masterSalt.length ≠ 14 then
    .error (.media ("Invalid master salt length: " ++ toString masterSalt.length))
  else
    .ok (kdfPrf P masterKey masterSalt 0 masterKey.length, kdfPrf P masterKey masterSalt 1 20,
      kdfPrf P masterKey masterSalt 2 14)

def SrtpContext.new (masterKey masterSalt : Bytes) (cryptoSuite : CryptoSuite) : Except Error SrtpContext :=
  if hkey : masterKey.length ≠ cryptoSuite.masterKeyLen then
    .error (.media ("Invalid master key length: expected " ++ toString cryptoSuite.masterKeyLen ++ ", got " ++
      toString masterKey.length))
  else if hsalt : masterSalt.length ≠ cryptoSuite.masterSaltLen then
    .error (.media ("Invalid master salt length: expected " ++ toString cryptoSuite.masterSaltLen ++ ", got " ++
      toString masterSalt.length))
  else
    match deriveSrtpKeys P masterKey masterSalt with
    | .error e => .error e
    | .ok (cipherKey, authKey, saltKey) =>
        (NixiSbc.SrtpContext.new cipherKey authKey saltKey cryptoSuite.authTagLen).map fun crypto =>
          ⟨masterKey, masterSalt, cryptoSuite, some crypto, not_not.mp hkey, not_not.mp hsalt⟩

def inlinePrefix : List Char := "inline:".toList

def SrtpContext.fromKeyParams (keyParams : List Char) (cryptoSuite : CryptoSuite) : Except Error SrtpContext :=
  match stripPrefix inlinePrefix keyParams with
  | none => .error (.media "Key params must start with 'inline:'")
  | some base64Data =>
      match B.decode base64Data with
      | none => .error (.media "Invalid base64 in key params")
      | some decoded =>
          let keyLen := cryptoSuite.masterKeyLen
          let saltLen := cryptoSuite.masterSaltLen
          if decoded.length < keyLen + saltLen then
            .error (.media ("Key material too short: expected " ++ toString (keyLen + saltLen) ++ ", got " ++
              toString decoded.length))
          else SrtpContext.new P (decoded.take keyLen) ((decoded.drop keyLen).take saltLen) cryptoSuite

def SrtpContext.toKeyParams (c : SrtpContext) : List Char :=
  inlinePrefix ++ B.encode (c.masterKey ++ c.masterSalt)

end

def parseCryptoAttribute (line : List Char) : Except Error (Nat × CryptoSuite × List Char) :=
  match words line with
  | tag :: suite :: keyParams :: _ =>
      match parseUnsigned 32 tag with
      | none => .error (.media "Invalid crypto tag")
      | some tag =>
          match CryptoSuite.fromSdpName suite with
          | none => .error (.media ("Unsupported crypto suite: " ++ String.ofList suite))
          | some cryptoSuite => .ok (tag, cryptoSuite, keyParams)
  | _ => .error (.media "Invalid crypto attribute format")

section Grammar

structure Gap where
  text : List Char
  text_ne : text ≠ []
  blank : ∀ c ∈ text, c = ' ' ∨ c = '\t'

structure Number where
  text : List Char
  text_ne : text ≠ []
  digits : Digits text

/-- How many packets a key may protect, as a number or as a power of two. -/
structure Lifetime where
  power : Bool
  count : Number

/-- The identifier of a master key and its length in octets. -/
structure Mki where
  value : Number
  length : Number

/-- An attribute as its grammar has it, with one key. -/
structure KeyLine where
  tag : Number
  tag_length : tag.text.length ≤ 9
  suite : CryptoSuite
  key : Bytes
  salt : Bytes
  key_length : key.length = suite.masterKeyLen
  salt_length : salt.length = suite.masterSaltLen
  lifetime : Option Lifetime
  mki : Option Mki
  beforeSuite : Gap
  beforeKey : Gap
  sessionParams : List (Gap × List Char)
  isWord_param : ∀ param ∈ sessionParams, IsWord param.2

def Lifetime.text (l : Lifetime) : List Char := (if l.power then "2^".toList else []) ++ l.count.text

def Mki.text (m : Mki) : List Char := m.value.text ++ ':' :: m.length.text

/-- What may stand behind the key. -/
def KeyLine.suffix (line : KeyLine) : List Char :=
  line.lifetime.elim [] ('|' :: ·.text) ++ line.mki.elim [] ('|' :: ·.text)

def KeyLine.keyParams (B : Coding) (line : KeyLine) : List Char :=
  inlinePrefix ++ (B.encode (line.key ++ line.salt) ++ line.suffix)

def KeyLine.text (B : Coding) (line : KeyLine) : List Char :=
  line.tag.text ++ ((line.beforeSuite, line.suite.toSdpName) :: (line.beforeKey, line.keyParams B) ::
    line.sessionParams).flatMap fun param => param.1.text ++ param.2

/-- The attribute gives a context with just its suite, key and salt. -/
def ReadsBack (P : Primitives) (B : Coding) (line : KeyLine) : Prop :=
  ∃ keyParams c, parseCryptoAttribute (line.text B) = .ok (decimal line.tag.text, line.suite, keyParams) ∧
    SrtpContext.fromKeyParams P B keyParams line.suite = .ok c ∧ c.cryptoSuite = line.suite ∧
      c.masterKey = line.key ∧ c.masterSalt = line.salt

end Grammar

section Contexts

variable {P : Primitives} {B : Coding} {key salt : Bytes} {suite : CryptoSuite}

theorem kdfPrf_length (label : UInt8) (n : Nat) : (kdfPrf P key salt label n).length = n := by
  simp [kdfPrf]

/-- Keys of the lengths of a suite give a context. -/
theorem new_ok (hkey : key.length = suite.masterKeyLen) (hsalt : salt.length = suite.masterSaltLen) :
    ∃ c, SrtpContext.new P key salt suite = .ok c ∧ c.cryptoSuite = suite ∧ c.masterKey = key ∧ c.masterSalt = salt := by
  have hlength : key.length = 16 ∨ key.length = 32 := by
    rw [hkey]
    cases suite <;> decide
  have htag : suite.authTagLen = 10 ∨ suite.authTagLen = 4 := by
    cases suite <;> decide
  have hderive : deriveSrtpKeys P key salt =
      .ok (kdfPrf P key salt 0 key.length, kdfPrf P key salt 1 20, kdfPrf P key salt 2 14) := by
    have hfourteen : salt.length = 14 := hsalt
    rw [deriveSrtpKeys, if_neg (by omega), if_neg (not_not.mpr hfourteen)]
  have hsession := checkKeys_self ⟨kdfPrf P key salt 0 key.length, kdfPrf P key salt 1 20, kdfPrf P key salt 2 14,
    suite.authTagLen, by rwa [kdfPrf_length], kdfPrf_length 1 20, kdfPrf_length 2 14, htag⟩
  rw [SrtpContext.new, dif_neg (not_not.mpr hkey), dif_neg (not_not.mpr hsalt), hderive]
  dsimp only at hsession ⊢
  rw [NixiSbc.SrtpContext.new, hsession]
  exact ⟨_, rfl, rfl, rfl, rfl⟩

theorem fromKeyParams_ok (hkey : key.length = suite.masterKeyLen) (hsalt : salt.length = suite.masterSaltLen) :
    ∃ c, SrtpContext.fromKeyParams P B (inlinePrefix ++ B.encode (key ++ salt)) suite = .ok c ∧
      c.cryptoSuite = suite ∧ c.masterKey = key ∧ c.masterSalt = salt := by
  have hlong : ¬(key ++ salt).length < suite.masterKeyLen + suite.masterSaltLen := by
    rw [List.length_append, hkey, hsalt]
    exact Nat.lt_irrefl _
  have hfront : (key ++ salt).take suite.masterKeyLen = key := by
    rw [← hkey, List.take_left]
  have hback : ((key ++ salt).drop suite.masterKeyLen).take suite.masterSaltLen = salt := by
    rw [← hkey, List.drop_left, ← hsalt, List.take_length]
  rw [SrtpContext.fromKeyParams, stripPrefix_append]
  dsimp only
  rw [B.decode_encode]
  dsimp only
  rw [if_neg hlong, hfront, hback]
  exact new_ok hkey hsalt

/-- What stands behind the key keeps it from being decoded. -/
theorem fromKeyParams_bar {text : List Char} (h : '|' ∈ text) :
    SrtpContext.fromKeyParams P B (inlinePrefix ++ text) suite = .error (.media "Invalid base64 in key params") := by
  have hnone : B.decode text = none := by
    by_contra hsome
    obtain ⟨bytes, hbytes⟩ := Option.ne_none_iff_exists'.mp hsome
    exact absurd (B.isSymbol_of_decode hbytes '|' h) (by decide)
  rw [SrtpContext.fromKeyParams, stripPrefix_append]
  dsimp only
  rw [hnone]

end Contexts

section Lines

variable {P : Primitives} {B : Coding} {line : KeyLine}

/-- Words with white space before each but the first are read as they are. -/
theorem words_spaced {word : List Char} (h : IsWord word) {more : List (Gap × List Char)}
    (hmore : ∀ param ∈ more, IsWord param.2) :
    words (word ++ more.flatMap fun param => param.1.text ++ param.2) = word :: more.map (·.2) := by
  induction more generalizing word with
  | nil =>
      rw [List.flatMap_nil, List.append_nil]
      exact words_of_isWord h
  | cons param more ih =>
      have hblank : ∀ c ∈ param.1.text, isWhiteSpace c = true := by
        intro c hc
        rcases param.1.blank c hc with rfl | rfl <;> decide
      have hhead (rest : List Char) : ∀ c, (param.1.text ++ rest).head? = some c → isWhiteSpace c = true := by
        intro c hc
        rw [List.head?_append_of_ne_nil _ param.1.text_ne] at hc
        exact hblank c (List.mem_of_head? hc)
      rw [List.flatMap_cons, List.append_assoc, words_append_tail h (hhead _), words_blank_append hblank,
        ih (hmore param List.mem_cons_self) fun p hp => hmore p (List.mem_cons_of_mem _ hp), List.map_cons]

theorem not_blank_digit {c : Char} (h : isDigit c = true) : isWhiteSpace c = false := by
  have hrange := (isDigit_iff c).mp h
  simp only [isWhiteSpace, decide_eq_false_iff_not]
  omega

theorem parse_tag (line : KeyLine) : parseUnsigned 32 line.tag.text = some (decimal line.tag.text) := by
  have hlt : decimal line.tag.text < 2 ^ 32 :=
    calc decimal line.tag.text < 10 ^ line.tag.text.length := decimal_lt line.tag.digits
      _ ≤ 10 ^ 9 := Nat.pow_le_pow_right (by decide) line.tag_length
      _ < 2 ^ 32 := by decide
  have hplus : stripPlus line.tag.text = line.tag.text := by
    rw [stripPlus]
    intro rest htext
    have hdigit := line.tag.digits '+' (htext ▸ List.mem_cons_self)
    cases hdigit
  rw [parseUnsigned, hplus, if_pos ⟨line.tag.text_ne, List.all_eq_true.mpr line.tag.digits, hlt⟩]

theorem not_blank_symbol {c : Char} (h : isSymbol c = true) : isWhiteSpace c = false := by
  rw [isSymbol, Bool.or_eq_true, decide_eq_true_eq] at h
  rcases h with h | h
  · simp only [Char.isAlphanum, Char.isAlpha, Char.isUpper, Char.isLower, Char.isDigit, Bool.or_eq_true,
      Bool.and_eq_true, decide_eq_true_eq, ge_iff_le, UInt32.le_iff_toNat_le] at h
    change ((65 ≤ c.toNat ∧ c.toNat ≤ 90) ∨ (97 ≤ c.toNat ∧ c.toNat ≤ 122)) ∨ (48 ≤ c.toNat ∧ c.toNat ≤ 57) at h
    simp only [isWhiteSpace, decide_eq_false_iff_not]
    omega
  · simp only [List.mem_cons, List.not_mem_nil, or_false] at h
    rcases h with rfl | rfl | rfl <;> decide

theorem not_blank_suffix (line : KeyLine) : ∀ c ∈ line.suffix, isWhiteSpace c = false := by
  have hnumber (n : Number) : ∀ c ∈ n.text, isWhiteSpace c = false := fun c hc => not_blank_digit (n.digits c hc)
  rw [KeyLine.suffix, List.forall_mem_append]
  constructor
  · cases line.lifetime with
    | none => exact fun c hc => absurd hc List.not_mem_nil
    | some l =>
        rw [Option.elim_some, List.forall_mem_cons, Lifetime.text, List.forall_mem_append]
        refine ⟨by decide, ?_, hnumber l.count⟩
        cases l.power <;> exact not_blank_of_all (by decide)
  · cases line.mki with
    | none => exact fun c hc => absurd hc List.not_mem_nil
    | some m =>
        rw [Option.elim_some, List.forall_mem_cons, Mki.text, List.forall_mem_append, List.forall_mem_cons]
        exact ⟨by decide, hnumber m.value, by decide, hnumber m.length⟩

theorem isWord_keyParams (line : KeyLine) : IsWord (line.keyParams B) := by
  constructor
  · exact List.append_ne_nil_of_left_ne_nil (List.cons_ne_nil _ _) _
  · rw [KeyLine.keyParams, List.forall_mem_append, List.forall_mem_append]
    exact ⟨not_blank_of_all (by decide), fun c hc => not_blank_symbol (B.isSymbol_encode _ c hc), not_blank_suffix line⟩

/-- The words of an attribute are its parts. -/
theorem parseCryptoAttribute_text (line : KeyLine) :
    parseCryptoAttribute (line.text B) = .ok (decimal line.tag.text, line.suite, line.keyParams B) := by
  have htag : IsWord line.tag.text := ⟨line.tag.text_ne, fun c hc => not_blank_digit (line.tag.digits c hc)⟩
  have hparams : ∀ param ∈ (line.beforeSuite, line.suite.toSdpName) :: (line.beforeKey, line.keyParams B) ::
      line.sessionParams, IsWord param.2 := by
    simp only [List.forall_mem_cons]
    exact ⟨line.suite.isWord_toSdpName, isWord_keyParams line, line.isWord_param⟩
  rw [parseCryptoAttribute, KeyLine.text, words_spaced htag hparams]
  simp only [List.map_cons, parse_tag, CryptoSuite.fromSdpName_toSdpName]

theorem suffix_eq_nil (h : line.lifetime = none ∧ line.mki = none) : line.suffix = [] := by
  rw [KeyLine.suffix, h.1, h.2]
  rfl

theorem bar_mem_suffix (h : ¬(line.lifetime = none ∧ line.mki = none)) : '|' ∈ line.suffix := by
  rw [KeyLine.suffix, List.mem_append]
  cases hlifetime : line.lifetime with
  | some l => exact .inl List.mem_cons_self
  | none =>
      cases hmki : line.mki with
      | some m => exact .inr List.mem_cons_self
      | none => exact absurd ⟨hlifetime, hmki⟩ h

end Lines

/-- An attribute is read exactly where neither a lifetime nor an identifier stands
behind its key, and the parameters that a context writes are always read back. -/
theorem key_line_read_iff (P : Primitives) (B : Coding) :
    (∀ line : KeyLine, ReadsBack P B line ↔ line.lifetime = none ∧ line.mki = none) ∧
      ∀ c : SrtpContext, ∃ c', SrtpContext.fromKeyParams P B (c.toKeyParams B) c.cryptoSuite = .ok c' ∧
        c'.cryptoSuite = c.cryptoSuite ∧ c'.masterKey = c.masterKey ∧ c'.masterSalt = c.masterSalt := by
  constructor
  · intro line
    constructor
    · rintro ⟨keyParams, c, hparse, hcontext, _⟩
      by_contra hsome
      rw [parseCryptoAttribute_text, Except.ok.injEq, Prod.mk.injEq, Prod.mk.injEq] at hparse
      have hbar : '|' ∈ B.encode (line.key ++ line.salt) ++ line.suffix :=
        List.mem_append_right _ (bar_mem_suffix hsome)
      rw [← hparse.2.2, KeyLine.keyParams, fromKeyParams_bar hbar] at hcontext
      cases hcontext
    · intro hnone
      obtain ⟨c, hcontext, hc⟩ := fromKeyParams_ok line.key_length line.salt_length
      refine ⟨line.keyParams B, c, parseCryptoAttribute_text line, ?_, hc⟩
      rw [KeyLine.keyParams, suffix_eq_nil hnone, List.append_nil]
      exact hcontext
  · exact fun c => fromKeyParams_ok c.key_length c.salt_length

def oneSpace : Gap := ⟨[' '], List.cons_ne_nil _ _, by simp⟩

def numbered (n : Nat) : Number := ⟨showNat n, showNat_ne_nil n, digits_showNat n⟩

def limitedKey : KeyLine where
  tag := numbered 1
  tag_length := by decide
  suite := .aesCm128HmacSha1_80
  key := List.replicate 16 7
  salt := List.replicate 14 9
  key_length := rfl
  salt_length := rfl
  lifetime := some ⟨true, numbered 20⟩
  mki := none
  beforeSuite := oneSpace
  beforeKey := oneSpace
  sessionParams := []
  isWord_param := fun _ h => absurd h List.not_mem_nil

/-- A key with a lifetime of 2^20 packets is not read. -/
theorem lifetime_refused : ¬ReadsBack echoPrimitives standard limitedKey := by
  rintro ⟨keyParams, c, hparse, hcontext, _⟩
  rw [parseCryptoAttribute_text, Except.ok.injEq, Prod.mk.injEq, Prod.mk.injEq] at hparse
  have hbar : '|' ∈ standard.encode (limitedKey.key ++ limitedKey.salt) ++ limitedKey.suffix :=
    List.mem_append_right _ List.mem_cons_self
  rw [← hparse.2.2, KeyLine.keyParams, fromKeyParams_bar hbar] at hcontext
  cases hcontext

end NixiSbc.SdesKeys

import NixiSbc.ByteWords
import NixiSbc.Diagnostics

namespace NixiSbc.SrtpKeys

open ByteWords Diagnostics

/-- AES-128 in counter mode and HMAC-SHA1 stay abstract: any keystream and any
twenty-byte tag. -/
structure Primitives where
  keystream : Bytes → Bytes → Nat → UInt8
  hmacSha1 : Bytes → Bytes → Vector UInt8 20

/-- Session keys of the lengths that both context constructors admit. -/
structure SessionKeys where
  cipherKey : Bytes
  authKey : Bytes
  saltKey : Bytes
  authTagLen : Nat
  cipher_length : cipherKey.length = 16 ∨ cipherKey.length = 32
  auth_length : authKey.length = 20
  salt_length : saltKey.length = 14
  tag_length : authTagLen = 10 ∨ authTagLen = 4

def checkKeys (cipherKey authKey saltKey : Bytes) (authTagLen : Nat) : Except Error SessionKeys :=
  if hc : cipherKey.length ≠ 16 ∧ cipherKey.length ≠ 32 then
    .error (.media ("Invalid cipher key length: " ++ toString cipherKey.length))
  else if ha : authKey.length ≠ 20 then
    .error (.media ("Invalid auth key length: " ++ toString authKey.length))
  else if hs : saltKey.length ≠ 14 then
    .error (.media ("Invalid salt key length: " ++ toString saltKey.length))
  else if ht : authTagLen ≠ 10 ∧ authTagLen ≠ 4 then
    .error (.media ("Invalid auth tag length: " ++ toString authTagLen))
  else
    .ok ⟨cipherKey, authKey, saltKey, authTagLen, by omega, by omega, by omega, by omega⟩

theorem checkKeys_ok {ck ak sk : Bytes} {tl : Nat} {K : SessionKeys}
    (h : checkKeys ck ak sk tl = .ok K) :
    K.cipherKey = ck ∧ K.authKey = ak ∧ K.saltKey = sk ∧ K.authTagLen = tl := by
  unfold checkKeys at h
  split at h
  · cases h
  · split at h
    · cases h
    · split at h
      · cases h
      · split at h
        · cases h
        · cases h
          exact ⟨rfl, rfl, rfl, rfl⟩

theorem checkKeys_self (K : SessionKeys) :
    checkKeys K.cipherKey K.authKey K.saltKey K.authTagLen = .ok K := by
  have hc := K.cipher_length
  have ha := K.auth_length
  have hs := K.salt_length
  have ht := K.tag_length
  rw [checkKeys, dif_neg (by omega), dif_neg (by omega), dif_neg (by omega), dif_neg (by omega)]

theorem SessionKeys.tag_le (K : SessionKeys) : K.authTagLen ≤ 20 := by
  have ht := K.tag_length
  omega

def constantTimeCompare (a b : Bytes) : Bool :=
  if a.length ≠ b.length then false else a == b

theorem constantTimeCompare_eq (a b : Bytes) : constantTimeCompare a b = decide (a = b) := by
  rw [constantTimeCompare]
  split
  next h =>
    symm
    exact decide_eq_false fun he => h (congrArg List.length he)
  next h => rw [Bool.eq_iff_iff, beq_iff_eq, decide_eq_true_eq]

/-- The truncated tag that a packet carries over the given authenticated text. -/
def truncatedTag (P : Primitives) (K : SessionKeys) (text : Bytes) : Bytes :=
  (P.hmacSha1 K.authKey text).toList.take K.authTagLen

@[simp] theorem truncatedTag_length (P : Primitives) (K : SessionKeys) (text : Bytes) :
    (truncatedTag P K text).length = K.authTagLen := by
  simp [truncatedTag, K.tag_le]

/-- Primitives that evaluate: the keystream repeats the counter block plus one,
the tag repeats the byte sum of the text. -/
def echoPrimitives : Primitives where
  keystream _ iv i := byteAt iv (i % 16) + 1
  hmacSha1 _ text := Vector.replicate 20 (text.foldl (· + ·) 0)

def zeroKeys : SessionKeys :=
  ⟨List.replicate 16 0, List.replicate 20 0, List.replicate 14 0, 10, by decide, by decide,
    by decide, by decide⟩

end NixiSbc.SrtpKeys

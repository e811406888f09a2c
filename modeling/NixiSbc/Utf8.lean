import NixiSbc.ByteWords

namespace NixiSbc.Utf8

open ByteWords

def utf8Head (bs : Bytes) : Option Char := bs.toByteArray.utf8DecodeChar? 0

def encode (cs : List Char) : Bytes := cs.flatMap String.utf8EncodeChar

/-- Decode with at most `fuel` characters; the number of bytes is always enough. -/
def decodeUpTo : Nat → Bytes → Option (List Char)
  | _, [] => some []
  | 0, _ :: _ => none
  | fuel + 1, b :: bs =>
      (utf8Head (b :: bs)).bind fun c =>
        (decodeUpTo fuel ((b :: bs).drop c.utf8Size)).map (c :: ·)

def fromUtf8 (bs : Bytes) : Option (List Char) := decodeUpTo bs.length bs

theorem utf8Head_append (c : Char) (bs : Bytes) :
    utf8Head (String.utf8EncodeChar c ++ bs) = some c := by
  rw [utf8Head, List.toByteArray_append, ByteArray.utf8DecodeChar?_utf8EncodeChar_append]

theorem utf8Head_some {bs : Bytes} {c : Char} (h : utf8Head bs = some c) :
    bs = String.utf8EncodeChar c ++ bs.drop c.utf8Size := by
  obtain ⟨l, hl⟩ := ByteArray.exists_of_utf8DecodeChar?_eq_some h
  have hdata := congrArg (fun b : ByteArray => b.data.toList) hl
  simp only [List.data_toByteArray, ByteArray.data_append, Array.toList_append] at hdata
  rw [hdata, List.drop_left' (String.length_utf8EncodeChar c)]

theorem decodeUpTo_cons (fuel : Nat) (b : UInt8) (bs : Bytes) :
    decodeUpTo (fuel + 1) (b :: bs) = (utf8Head (b :: bs)).bind fun c =>
      (decodeUpTo fuel ((b :: bs).drop c.utf8Size)).map (c :: ·) := rfl

theorem decodeUpTo_encode (cs : List Char) (fuel : Nat) (h : cs.length ≤ fuel) :
    decodeUpTo fuel (encode cs) = some cs := by
  induction cs generalizing fuel with
  | nil => cases fuel <;> rfl
  | cons c cs ih =>
      obtain ⟨fuel, rfl⟩ : ∃ n, fuel = n + 1 := ⟨fuel - 1, by simp at h; omega⟩
      have henc : encode (c :: cs) = String.utf8EncodeChar c ++ encode cs := rfl
      have hdrop : (String.utf8EncodeChar c ++ encode cs).drop c.utf8Size = encode cs :=
        List.drop_left' (String.length_utf8EncodeChar c)
      obtain ⟨b, bs, hb⟩ : ∃ b bs, String.utf8EncodeChar c ++ encode cs = b :: bs := by
        apply List.exists_cons_of_ne_nil
        intro hnil
        have hl := congrArg List.length hnil
        have hpos := c.utf8Size_pos
        rw [List.length_append, String.length_utf8EncodeChar, List.length_nil] at hl
        omega
      rw [henc, hb, decodeUpTo_cons, ← hb, utf8Head_append, Option.bind_some, hdrop,
        ih fuel (by simpa using h)]
      rfl

theorem length_le_encode (cs : List Char) : cs.length ≤ (encode cs).length := by
  induction cs with
  | nil => exact le_rfl
  | cons c cs ih =>
      have hpos := c.utf8Size_pos
      simp only [encode, List.flatMap_cons, List.length_append, String.length_utf8EncodeChar,
        List.length_cons] at ih ⊢
      omega

theorem encode_of_decodeUpTo {fuel : Nat} {bs : Bytes} {cs : List Char}
    (h : decodeUpTo fuel bs = some cs) : encode cs = bs := by
  induction fuel generalizing bs cs with
  | zero =>
      cases bs with
      | nil =>
          cases h
          rfl
      | cons b bs => cases h
  | succ fuel ih =>
      cases bs with
      | nil =>
          cases h
          rfl
      | cons b bs =>
          rw [decodeUpTo_cons, Option.bind_eq_some_iff] at h
          obtain ⟨c, hc, h⟩ := h
          obtain ⟨rest, hrest, rfl⟩ := Option.map_eq_some_iff.mp h
          rw [utf8Head_some hc, ← ih hrest]
          rfl

/-- Decoding and encoding are inverse to each other. -/
theorem fromUtf8_eq_some {bs : Bytes} {cs : List Char} : fromUtf8 bs = some cs ↔ encode cs = bs := by
  constructor
  · exact encode_of_decodeUpTo
  · rintro rfl
    exact decodeUpTo_encode cs _ (length_le_encode cs)

def isContinuation (b : UInt8) : Bool := 0x80 ≤ b ∧ b ≤ 0xBF

/-- The second byte may follow the first in a sequence of three. -/
def begins3 (b c : UInt8) : Bool :=
  (b = 0xE0 ∧ 0xA0 ≤ c ∧ c ≤ 0xBF) ∨ (0xE1 ≤ b ∧ b ≤ 0xEC ∧ isContinuation c) ∨
    (b = 0xED ∧ 0x80 ≤ c ∧ c ≤ 0x9F) ∨ (0xEE ≤ b ∧ b ≤ 0xEF ∧ isContinuation c)

def begins4 (b c : UInt8) : Bool :=
  (b = 0xF0 ∧ 0x90 ≤ c ∧ c ≤ 0xBF) ∨ (0xF1 ≤ b ∧ b ≤ 0xF3 ∧ isContinuation c) ∨
    (b = 0xF4 ∧ 0x80 ≤ c ∧ c ≤ 0x8F)

/-- The bytes at the front that one replacement character stands for. -/
def badLength : Bytes → Nat
  | b :: c :: d :: _ =>
      if begins4 b c ∧ isContinuation d then 3 else if begins3 b c ∨ begins4 b c then 2 else 1
  | b :: c :: [] => if begins3 b c ∨ begins4 b c then 2 else 1
  | _ => 1

def lossyUpTo : Nat → Bytes → List Char
  | _, [] => []
  | 0, _ :: _ => []
  | fuel + 1, b :: bs =>
      match utf8Head (b :: bs) with
      | some c => c :: lossyUpTo fuel ((b :: bs).drop c.utf8Size)
      | none => Char.ofNat 0xFFFD :: lossyUpTo fuel ((b :: bs).drop (badLength (b :: bs)))

/-- Decode, with replacement characters for what is not well formed. -/
def fromUtf8Lossy (bs : Bytes) : List Char := lossyUpTo bs.length bs

theorem lossyUpTo_of_decode {fuel : Nat} {bs : Bytes} {cs : List Char}
    (h : decodeUpTo fuel bs = some cs) : lossyUpTo fuel bs = cs := by
  induction fuel generalizing bs cs with
  | zero =>
      cases bs with
      | nil =>
          cases h
          rfl
      | cons b bs => cases h
  | succ fuel ih =>
      cases bs with
      | nil =>
          cases h
          rfl
      | cons b bs =>
          rw [decodeUpTo_cons, Option.bind_eq_some_iff] at h
          obtain ⟨c, hc, h⟩ := h
          obtain ⟨rest, hrest, rfl⟩ := Option.map_eq_some_iff.mp h
          rw [lossyUpTo, hc]
          simp only [ih hrest]

theorem fromUtf8Lossy_encode (cs : List Char) : fromUtf8Lossy (encode cs) = cs :=
  lossyUpTo_of_decode (fromUtf8_eq_some.mpr rfl)

example : fromUtf8Lossy [0x48, 0xE2, 0x82, 0x48] = ['H', Char.ofNat 0xFFFD, 'H'] := by decide
example : fromUtf8 [0x48, 0xC3, 0xA9] = some ['H', 'é'] := by decide
example : fromUtf8 [0x48, 0xC3] = none := by decide

end NixiSbc.Utf8

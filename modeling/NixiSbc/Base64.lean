import Mathlib.Data.List.Basic

namespace NixiSbc.Base64

/-- Whether a text in base 64 may have the character. -/
def isSymbol (c : Char) : Bool := c.isAlphanum || c ∈ ['+', '/', '=']

/-- A coding of octets in base 64, as far as its callers rely on it. -/
structure Coding where
  encode : List UInt8 → List Char
  decode : List Char → Option (List UInt8)
  decode_encode : ∀ bytes, decode (encode bytes) = some bytes
  isSymbol_of_decode : ∀ {text bytes}, decode text = some bytes → ∀ c ∈ text, isSymbol c = true

theorem Coding.isSymbol_encode (B : Coding) (bytes : List UInt8) : ∀ c ∈ B.encode bytes, isSymbol c = true :=
  B.isSymbol_of_decode (B.decode_encode bytes)

section Standard

def alphabet : List Char :=
  "ABCDEFGHIJKLMNOPQRSTUVWXYZ".toList ++ "abcdefghijklmnopqrstuvwxyz".toList ++ "0123456789+/".toList

def symbol (n : Nat) : Char := alphabet.getD n '='

def value (c : Char) : Option Nat := alphabet.idxOf? c

/-- Three octets are four symbols; what is left at the end is padded. -/
def encode : List UInt8 → List Char
  | a :: b :: c :: rest =>
      symbol (a.toNat / 4) :: symbol (a.toNat % 4 * 16 + b.toNat / 16) :: symbol (b.toNat % 16 * 4 + c.toNat / 64) ::
        symbol (c.toNat % 64) :: encode rest
  | [a, b] => [symbol (a.toNat / 4), symbol (a.toNat % 4 * 16 + b.toNat / 16), symbol (b.toNat % 16 * 4), '=']
  | [a] => [symbol (a.toNat / 4), symbol (a.toNat % 4 * 16), '=', '=']
  | [] => []

/-- Padding is asked for, and the bits that it cuts off are to be zero. -/
def decode : List Char → Option (List UInt8)
  | [] => some []
  | a :: b :: c :: d :: rest =>
      match value a, value b, value c, value d with
      | some w, some x, some y, some z =>
          (decode rest).map fun more =>
            .ofNat (w * 4 + x / 16) :: .ofNat (x % 16 * 16 + y / 4) :: .ofNat (y % 4 * 64 + z) :: more
      | some w, some x, some y, none =>
          if d = '=' ∧ rest = [] ∧ y % 4 = 0 then some [.ofNat (w * 4 + x / 16), .ofNat (x % 16 * 16 + y / 4)] else none
      | some w, some x, none, _ =>
          if c = '=' ∧ d = '=' ∧ rest = [] ∧ x % 16 = 0 then some [.ofNat (w * 4 + x / 16)] else none
      | _, _, _, _ => none
  | _ => none

example : encode [77, 97, 110, 77, 97] = "TWFuTWE=".toList := by decide
example : decode "TWF=".toList = none := by decide

theorem value_symbol : ∀ n < 64, value (symbol n) = some n := by decide +kernel

theorem value_pad : value '=' = none := by decide

theorem isSymbol_of_value {c : Char} {n : Nat} (h : value c = some n) : isSymbol c = true := by
  have hall : alphabet.all isSymbol = true := by decide
  rw [value] at h
  exact List.all_eq_true.mp hall c (List.isSome_idxOf?.mp (Option.isSome_of_eq_some h))

/-- The octets of a group are put together from the sextets that they were cut into. -/
theorem join_first (a b : UInt8) : a.toNat / 4 * 4 + (a.toNat % 4 * 16 + b.toNat / 16) / 16 = a.toNat := by
  have hb := b.toNat_lt
  omega

theorem join_second (a b c : UInt8) :
    (a.toNat % 4 * 16 + b.toNat / 16) % 16 * 16 + (b.toNat % 16 * 4 + c.toNat / 64) / 4 = b.toNat := by
  have hb := b.toNat_lt
  have hc := c.toNat_lt
  omega

theorem join_third (b c : UInt8) : (b.toNat % 16 * 4 + c.toNat / 64) % 4 * 64 + c.toNat % 64 = c.toNat := by
  have hc := c.toNat_lt
  omega

theorem decode_encode (bytes : List UInt8) : decode (encode bytes) = some bytes := by
  fun_induction encode bytes with
  | case1 a b c rest ih =>
      have ha := a.toNat_lt
      have hb := b.toNat_lt
      have hc := c.toNat_lt
      rw [decode, value_symbol _ (by omega), value_symbol _ (by omega), value_symbol _ (by omega),
        value_symbol _ (by omega)]
      simp only [ih, Option.map_some, join_first, join_second, join_third, UInt8.ofNat_toNat]
  | case2 a b =>
      have ha := a.toNat_lt
      have hb := b.toNat_lt
      rw [decode, value_symbol _ (by omega), value_symbol _ (by omega), value_symbol _ (by omega), value_pad]
      dsimp only
      have hsecond := join_second a b 0
      rw [UInt8.toNat_zero, Nat.zero_div, Nat.add_zero] at hsecond
      rw [if_pos ⟨rfl, rfl, by omega⟩, join_first, hsecond, UInt8.ofNat_toNat, UInt8.ofNat_toNat]
  | case3 a =>
      have ha := a.toNat_lt
      rw [decode, value_symbol _ (by omega), value_symbol _ (by omega), value_pad]
      dsimp only
      have hfirst := join_first a 0
      rw [UInt8.toNat_zero, Nat.zero_div, Nat.add_zero] at hfirst
      rw [if_pos ⟨rfl, rfl, rfl, by omega⟩, hfirst, UInt8.ofNat_toNat]
  | case4 => rfl

theorem isSymbol_of_decode {text : List Char} {bytes : List UInt8} (h : decode text = some bytes) :
    ∀ c ∈ text, isSymbol c = true := by
  have hpad : isSymbol '=' = true := by decide
  fun_induction decode text generalizing bytes with
  | case1 => exact fun c hc => absurd hc List.not_mem_nil
  | case2 a b c d rest w x y z hz hy hx hw ih =>
      obtain ⟨more, hmore, -⟩ := Option.map_eq_some_iff.mp h
      simp only [List.forall_mem_cons]
      exact ⟨isSymbol_of_value hw, isSymbol_of_value hx, isSymbol_of_value hy, isSymbol_of_value hz, ih hmore⟩
  | case3 a b c d rest w x y _ hy hx hw hend =>
      obtain ⟨rfl, rfl, -⟩ := hend
      simp only [List.forall_mem_cons]
      exact ⟨isSymbol_of_value hw, isSymbol_of_value hx, isSymbol_of_value hy, hpad, fun c hc => absurd hc List.not_mem_nil⟩
  | case5 a b c d rest w x _ hx hw hend =>
      obtain ⟨rfl, rfl, rfl, -⟩ := hend
      simp only [List.forall_mem_cons]
      exact ⟨isSymbol_of_value hw, isSymbol_of_value hx, hpad, hpad, fun c hc => absurd hc List.not_mem_nil⟩
  | case4 | case6 | case7 | case8 => cases h

/-- The coding with the standard alphabet. -/
def standard : Coding where
  encode := encode
  decode := decode
  decode_encode := decode_encode
  isSymbol_of_decode := isSymbol_of_decode

end Standard

end NixiSbc.Base64

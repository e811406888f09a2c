import NixiSbc.Utf8
import Mathlib.Data.Char
import Mathlib.Data.List.Lex
import Mathlib.Order.Cover

namespace NixiSbc.TextOrder

open ByteWords Utf8

theorem append_lt_append_iff {α : Type} [LT α] [Std.Irrefl (· < · : α → α → Prop)] {l s t : List α} :
    l ++ s < l ++ t ↔ s < t := by
  induction l with
  | nil => rfl
  | cons a l ih => simp [ih]

section Prefixes

variable {α : Type} [LinearOrder α] {a b : α} {l s t : List α}

/-- Two letters that differ decide, whatever follows. -/
theorem lt_of_head (h : a < b) : a :: s < b :: t := List.cons_lt_cons_iff.mpr (.inl h)

theorem le_append (l s : List α) : l ≤ l ++ s := by
  induction l with
  | nil => exact not_lt.mp (List.not_lt_nil s)
  | cons a l ih => exact List.cons_le_cons a ih

/-- Between a text and the same text with its last letter moved to the next one
are the texts that begin with it. -/
theorem prefix_range (h : a ⋖ b) : l ++ [a] ≤ s ∧ s < l ++ [b] ↔ l ++ [a] <+: s := by
  constructor
  · rintro ⟨hlow, hhigh⟩
    induction l generalizing s with
    | nil =>
        cases s with
        | nil => exact absurd hlow (not_le.mpr (List.nil_lt_cons a []))
        | cons c s =>
            have hca : c = a := by
              rw [List.nil_append, List.cons_lt_cons_iff] at hhigh
              have hcb : c < b := hhigh.resolve_right fun hs => List.not_lt_nil s hs.2
              have hac : a ≤ c := not_lt.mp fun hlt => not_lt.mpr hlow (lt_of_head hlt)
              exact (hac.eq_or_lt.resolve_right fun hlt => h.2 hlt hcb).symm
            rw [hca]
            exact ⟨s, rfl⟩
    | cons d l ih =>
        cases s with
        | nil => exact absurd hlow (not_le.mpr (List.nil_lt_cons d (l ++ [a])))
        | cons c s =>
            have hdc : d ≤ c := not_lt.mp fun hlt => not_lt.mpr hlow (lt_of_head hlt)
            have hcd : c ≤ d := not_lt.mp fun hlt => not_lt.mpr hhigh.le (lt_of_head hlt)
            obtain rfl : d = c := le_antisymm hdc hcd
            have hlow' : l ++ [a] ≤ s := not_lt.mp fun hlt => not_lt.mpr hlow (List.cons_lt_cons_self.mpr hlt)
            have hhigh' : s < l ++ [b] := List.cons_lt_cons_self.mp hhigh
            exact (List.prefix_cons_inj d).mpr (ih hlow' hhigh')
  · rintro ⟨more, rfl⟩
    refine ⟨le_append _ _, ?_⟩
    rw [List.append_assoc, append_lt_append_iff]
    exact lt_of_head h.1

/-- Above a text of greatest letters there are only the texts that begin with it. -/
theorem prefix_of_le (hmax : ∀ a ∈ l, IsMax a) (h : l ≤ s) : l <+: s := by
  induction l generalizing s with
  | nil => exact List.nil_prefix
  | cons a l ih =>
      cases s with
      | nil => exact absurd h (not_le.mpr (List.nil_lt_cons a l))
      | cons c s =>
          have hac : a ≤ c := not_lt.mp fun hlt => not_lt.mpr h (lt_of_head hlt)
          obtain rfl : a = c := le_antisymm hac (hmax a List.mem_cons_self hac)
          have hls : l ≤ s := not_lt.mp fun hlt => not_lt.mpr h (List.cons_lt_cons_self.mpr hlt)
          exact (List.prefix_cons_inj a).mpr (ih (fun b hb => hmax b (List.mem_cons_of_mem a hb)) hls)

/-- Any letter that is not the greatest one leaves room for a text above that
begins otherwise. -/
theorem exists_above (ha : a ∈ l) (hmax : ¬IsMax a) : ∃ s, l ≤ s ∧ ¬l <+: s := by
  obtain ⟨front, back, rfl⟩ := List.append_of_mem ha
  obtain ⟨b, hab⟩ := not_isMax_iff.mp hmax
  refine ⟨front ++ [b], (append_lt_append_iff.mpr (lt_of_head hab)).le, ?_⟩
  intro hpre
  have hhead := (List.prefix_append_right_inj front).mp hpre
  exact hab.ne (List.cons_prefix_cons.mp hhead).1

theorem le_iff_prefix_iff : (∀ s, l ≤ s ↔ l <+: s) ↔ ∀ a ∈ l, IsMax a := by
  constructor
  · intro h a ha
    by_contra hmax
    obtain ⟨s, hle, hpre⟩ := exists_above ha hmax
    exact hpre ((h s).mp hle)
  · intro h s
    refine ⟨prefix_of_le h, ?_⟩
    rintro ⟨more, rfl⟩
    exact le_append l more

end Prefixes

section Encoding

theorem toNat_lt (c : Char) : c.toNat < 0x110000 := by
  rcases c.valid with h | ⟨-, h⟩
  · exact h.trans (by decide)
  · exact h

/-- The bytes of a character as numbers. -/
theorem toNat_utf8EncodeChar (c : Char) : (String.utf8EncodeChar c).map UInt8.toNat =
    if c.toNat ≤ 0x7F then [c.toNat]
    else if c.toNat ≤ 0x7FF then [0xC0 + c.toNat / 64, 0x80 + c.toNat % 64]
    else if c.toNat ≤ 0xFFFF then [0xE0 + c.toNat / 4096, 0x80 + c.toNat / 64 % 64, 0x80 + c.toNat % 64]
    else [0xF0 + c.toNat / 262144, 0x80 + c.toNat / 4096 % 64, 0x80 + c.toNat / 64 % 64, 0x80 + c.toNat % 64] := by
  have hmax := toNat_lt c
  have hval : c.val.toNat = c.toNat := rfl
  simp only [String.utf8EncodeChar, hval]
  generalize c.toNat = n at hmax
  split_ifs
  · simp only [List.map_cons, List.map_nil, UInt8.toNat_ofNat', List.cons.injEq, and_true]
    omega
  · simp only [List.map_cons, List.map_nil, UInt8.toNat_ofNat', List.cons.injEq, and_true]
    omega
  · simp only [List.map_cons, List.map_nil, UInt8.toNat_ofNat', List.cons.injEq, and_true]
    omega
  · simp only [List.map_cons, List.map_nil, UInt8.toNat_ofNat', List.cons.injEq, and_true]
    omega

theorem map_toNat_lt_iff {x y : Bytes} : x.map UInt8.toNat < y.map UInt8.toNat ↔ x < y := by
  induction x generalizing y with
  | nil => cases y <;> simp
  | cons b x ih =>
      cases y with
      | nil => simp
      | cons d y => simp [List.cons_lt_cons_iff, UInt8.lt_iff_toNat_lt, UInt8.toNat_inj, ih]

/-- Of two characters the bytes decide, whatever follows. -/
theorem utf8EncodeChar_lt {c d : Char} (h : c < d) (x y : Bytes) :
    String.utf8EncodeChar c ++ x < String.utf8EncodeChar d ++ y := by
  have hlt : c.toNat < d.toNat := h
  have hd := toNat_lt d
  rw [← map_toNat_lt_iff, List.map_append, List.map_append, toNat_utf8EncodeChar, toNat_utf8EncodeChar]
  generalize c.toNat = m at hlt
  generalize d.toNat = n at hlt hd
  split_ifs <;> simp only [List.cons_append, List.nil_append, List.cons_lt_cons_iff] <;> omega

/-- The order of the encodings is that of the texts. -/
theorem encode_lt_iff {s t : List Char} : encode s < encode t ↔ s < t := by
  induction s generalizing t with
  | nil =>
      cases t with
      | nil => simp [encode]
      | cons d t =>
          obtain ⟨b, bs, hb⟩ := List.exists_cons_of_ne_nil (String.utf8EncodeChar_ne_nil (c := d))
          simp [encode, hb]
  | cons c s ih =>
      cases t with
      | nil => simp [encode]
      | cons d t =>
          have hcons (c : Char) (s : List Char) : encode (c :: s) = String.utf8EncodeChar c ++ encode s := rfl
          rw [hcons, hcons]
          rcases lt_trichotomy c d with hlt | rfl | hgt
          · exact iff_of_true (utf8EncodeChar_lt hlt _ _) (lt_of_head hlt)
          · rw [append_lt_append_iff, List.cons_lt_cons_self, ih]
          · refine iff_of_false ?_ (lt_of_head hgt).not_gt
            exact List.lt_asymm (utf8EncodeChar_lt hgt _ _)

end Encoding

end NixiSbc.TextOrder

import NixiSbc.TextWords

namespace NixiSbc.PaddedText

open TextScan TextFields TextWords

/-- A decimal number, filled up with zeros to a width. -/
def showPadded (width n : Nat) : List Char := List.leftpad width '0' (showNat n)

section Digits

variable {digits digits' : List Char}

def Digits (text : List Char) : Prop := ∀ c ∈ text, isDigit c = true

theorem digits_showNat (n : Nat) : Digits (showNat n) := fun _ hc => isDigit_of_mem_showNat hc

theorem digits_showPadded (width n : Nat) : Digits (showPadded width n) := by
  intro c hc
  rw [showPadded, List.leftpad] at hc
  rcases List.mem_append.mp hc with hc | hc
  · rw [(List.mem_replicate.mp hc).2]
    decide
  · exact isDigit_of_mem_showNat hc

theorem foldl_decimal (n : Nat) :
    digits.foldl (fun n c => n * 10 + (c.toNat - 48)) n = n * 10 ^ digits.length + decimal digits := by
  induction digits generalizing n with
  | nil => simp [decimal]
  | cons c digits ih =>
      rw [decimal, List.foldl_cons, List.foldl_cons, ih, ih (0 * 10 + _), List.length_cons, Nat.add_mul,
        Nat.mul_assoc, Nat.mul_comm 10, ← pow_succ, Nat.zero_mul, Nat.zero_add, Nat.add_assoc]

theorem decimal_cons (c : Char) (digits : List Char) :
    decimal (c :: digits) = (c.toNat - 48) * 10 ^ digits.length + decimal digits := by
  rw [decimal, List.foldl_cons, foldl_decimal, Nat.zero_mul, Nat.zero_add]

theorem isDigit_iff (c : Char) : isDigit c = true ↔ 48 ≤ c.toNat ∧ c.toNat ≤ 57 := by
  rw [isDigit, decide_eq_true_eq]
  exact Iff.rfl

theorem decimal_lt (h : Digits digits) : decimal digits < 10 ^ digits.length := by
  induction digits with
  | nil => exact Nat.one_pos
  | cons c digits ih =>
      have hc := (isDigit_iff c).mp (h c List.mem_cons_self)
      have hrest := ih fun d hd => h d (List.mem_cons_of_mem c hd)
      have hmul : (c.toNat - 48) * 10 ^ digits.length ≤ 9 * 10 ^ digits.length := Nat.mul_le_mul_right _ (by omega)
      rw [decimal_cons, List.length_cons, pow_succ]
      omega

/-- Digits of one length are in the order of their numbers. -/
theorem lt_iff_decimal_lt (h : Digits digits) (h' : Digits digits') (hlen : digits.length = digits'.length) :
    digits < digits' ↔ decimal digits < decimal digits' := by
  induction digits generalizing digits' with
  | nil =>
      cases digits' with
      | nil => simp
      | cons d digits' => cases hlen
  | cons c digits ih =>
      cases digits' with
      | nil => cases hlen
      | cons d digits' =>
          have hc := (isDigit_iff c).mp (h c List.mem_cons_self)
          have hd := (isDigit_iff d).mp (h' d List.mem_cons_self)
          have hrest : Digits digits := fun x hx => h x (List.mem_cons_of_mem c hx)
          have hrest' : Digits digits' := fun x hx => h' x (List.mem_cons_of_mem d hx)
          have hlen' : digits.length = digits'.length := Nat.succ_inj.mp hlen
          have hlt := decimal_lt hrest
          have hlt' := decimal_lt hrest'
          rw [List.cons_lt_cons_iff, decimal_cons, decimal_cons, ih hrest hrest' hlen', hlen']
          rw [hlen'] at hlt
          have hcd : c < d ↔ c.toNat < d.toNat := Iff.rfl
          rcases Nat.lt_trichotomy c.toNat d.toNat with hne | heq | hne
          · have hstep : (c.toNat - 48) * 10 ^ digits'.length + 10 ^ digits'.length ≤
                (d.toNat - 48) * 10 ^ digits'.length := by
              rw [← Nat.succ_mul]
              exact Nat.mul_le_mul_right _ (by omega)
            exact iff_of_true (.inl (hcd.mpr hne)) (by omega)
          · have hsame : c = d := Char.toNat_inj.mp heq
            subst hsame
            simp
          · have hstep : (d.toNat - 48) * 10 ^ digits'.length + 10 ^ digits'.length ≤
                (c.toNat - 48) * 10 ^ digits'.length := by
              rw [← Nat.succ_mul]
              exact Nat.mul_le_mul_right _ (by omega)
            refine iff_of_false ?_ (by omega)
            rintro (hlt | ⟨rfl, -⟩)
            · exact Nat.lt_asymm hne (hcd.mp hlt)
            · exact Nat.lt_irrefl _ hne

theorem decimal_replicate_zero (k : Nat) (digits : List Char) :
    decimal (List.replicate k '0' ++ digits) = decimal digits := by
  induction k with
  | zero => rfl
  | succ k ih =>
      rw [List.replicate_succ, List.cons_append, decimal_cons, ih]
      simp

theorem decimal_showPadded (width n : Nat) : decimal (showPadded width n) = n := by
  rw [showPadded, List.leftpad, decimal_replicate_zero, decimal_showNat]

end Digits

theorem showPadded_ne_nil (width n : Nat) : showPadded width n ≠ [] :=
  List.append_ne_nil_of_right_ne_nil _ (showNat_ne_nil n)

/-- A padded number is read as it was written. -/
theorem parseUnsigned_showPadded {bits n : Nat} (h : n < 2 ^ bits) (width : Nat) :
    parseUnsigned bits (showPadded width n) = some n := by
  have hplus : stripPlus (showPadded width n) = showPadded width n := by
    rw [stripPlus]
    intro rest hplus
    cases digits_showPadded width n '+' (hplus ▸ List.mem_cons_self)
  rw [parseUnsigned, hplus, decimal_showPadded, if_pos]
  exact ⟨showPadded_ne_nil width n, List.all_eq_true.mpr (digits_showPadded width n), h⟩

theorem toDigits_length_le {base width n : Nat} (hbase : 1 < base) (hw : 0 < width) (h : n < base ^ width) :
    (Nat.toDigits base n).length ≤ width := by
  induction width, hw using Nat.le_induction generalizing n with
  | base =>
      rw [Nat.toDigits_eq_if hbase, if_pos (by simpa using h)]
      exact Nat.le_refl 1
  | succ width hw ih =>
      rw [Nat.toDigits_eq_if hbase]
      split
      next => exact Nat.succ_le_succ (Nat.zero_le width)
      next =>
        have hrest := ih (n := n / base) (Nat.div_lt_of_lt_mul (by rwa [pow_succ, Nat.mul_comm] at h))
        rw [List.length_append]
        exact Nat.succ_le_succ hrest

theorem showPadded_length {width n : Nat} (hw : 0 < width) (h : n < 10 ^ width) :
    (showPadded width n).length = width := by
  rw [showPadded, List.length_leftpad]
  exact Nat.max_eq_left (toDigits_length_le (by decide) hw h)

theorem showPadded_lt_iff {width n m : Nat} (hw : 0 < width) (hn : n < 10 ^ width) (hm : m < 10 ^ width) :
    showPadded width n < showPadded width m ↔ n < m := by
  rw [lt_iff_decimal_lt (digits_showPadded _ _) (digits_showPadded _ _)
    ((showPadded_length hw hn).trans (showPadded_length hw hm).symm), decimal_showPadded, decimal_showPadded]

theorem append_lt_append_iff {front front' : List Char} (hlen : front.length = front'.length)
    (rest rest' : List Char) :
    front ++ rest < front' ++ rest' ↔ front < front' ∨ front = front' ∧ rest < rest' := by
  induction front generalizing front' with
  | nil =>
      cases front' with
      | nil => simp
      | cons d front' => cases hlen
  | cons c front ih =>
      cases front' with
      | nil => cases hlen
      | cons d front' =>
          rw [List.cons_append, List.cons_append, List.cons_lt_cons_iff, List.cons_lt_cons_iff,
            ih (Nat.succ_inj.mp hlen), List.cons.injEq]
          tauto

/-- Texts that begin with a padded number are in the order of the numbers first. -/
theorem field_lt_iff {width n m : Nat} (hw : 0 < width) (hn : n < 10 ^ width) (hm : m < 10 ^ width) (sep : Char)
    (rest rest' : List Char) :
    showPadded width n ++ sep :: rest < showPadded width m ++ sep :: rest' ↔ n < m ∨ n = m ∧ rest < rest' := by
  have hinj : showPadded width n = showPadded width m ↔ n = m :=
    ⟨fun h => (decimal_showPadded width n).symm.trans ((congrArg decimal h).trans (decimal_showPadded width m)),
      congrArg _⟩
  rw [append_lt_append_iff ((showPadded_length hw hn).trans (showPadded_length hw hm).symm),
    showPadded_lt_iff hw hn hm, hinj, List.cons_lt_cons_iff]
  simp

end NixiSbc.PaddedText

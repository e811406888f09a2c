import NixiSbc.Destinations
import NixiSbc.Trunks

namespace NixiSbc.NumberPlan

open TextScan Destinations Trunks

/-- The dial strings that `canonicalize` takes for a phone number: a plus, the
international prefix or the national one, between any separators. -/
def Understood (dialed : List Char) : Prop :=
  (stripSeparators dialed).head? = some '+' ∨
    (stripSeparators dialed).head? = some '0' ∧ (stripSeparators dialed).all isDigit = true

/-- No space, dash or dot. -/
def Plain (text : List Char) : Prop := ∀ c ∈ text, isSeparator c = false

theorem plain_cons {c : Char} {text : List Char} (hc : isSeparator c = false) :
    Plain (c :: text) ↔ Plain text := by
  simp only [Plain, List.forall_mem_cons, hc, true_and]

theorem plain_append {text rest : List Char} : Plain (text ++ rest) ↔ Plain text ∧ Plain rest :=
  List.forall_mem_append

theorem plain_stripSeparators (text : List Char) : Plain (stripSeparators text) := by
  intro c hc
  simpa using (List.mem_filter.mp hc).2

theorem stripSeparators_eq_self {text : List Char} : stripSeparators text = text ↔ Plain text := by
  simp only [stripSeparators, List.filter_eq_self, Plain, Bool.not_eq_true']

theorem stripSeparators_plus (text : List Char) :
    stripSeparators ('+' :: text) = '+' :: stripSeparators text := rfl

theorem stripSeparators_zero (text : List Char) :
    stripSeparators ('0' :: text) = '0' :: stripSeparators text := rfl

theorem stripSeparators_append (text rest : List Char) :
    stripSeparators (text ++ rest) = stripSeparators text ++ stripSeparators rest :=
  List.filter_append ..

theorem canonicalize_zero {p : DestinationPolicy} {text : List Char}
    (hdigits : (stripSeparators ('0' :: text)).all isDigit = true) :
    stripSeparators (canonicalize p ('0' :: text)) =
      match stripSeparators text with
      | '0' :: rest => '+' :: rest
      | rest => '+' :: (stripSeparators p.defaultCc ++ rest) := by
  have hplain := plain_stripSeparators text
  rw [stripSeparators_zero, List.all_cons, Bool.and_eq_true] at hdigits
  by_cases hhead : (stripSeparators text).head? = some '0'
  · obtain ⟨rest, hrest⟩ := List.head?_eq_some_iff.mp hhead
    rw [hrest] at hplain hdigits
    have hrestDigits : rest.all isDigit = true := by
      rw [List.all_cons, Bool.and_eq_true] at hdigits
      exact hdigits.2.2
    rw [canonicalize_international p (by rw [stripSeparators_zero, hrest]) hrestDigits, hrest,
      stripSeparators_plus]
    exact congrArg _ (stripSeparators_eq_self.mpr ((plain_cons rfl).mp hplain))
  · rw [canonicalize_national p (stripSeparators_zero text) hdigits.2 hhead, stripSeparators_plus,
      stripSeparators_append, stripSeparators_eq_self.mpr hplain]
    split
    next rest hrest => exact absurd (by rw [hrest]; rfl) hhead
    next => rfl

/-- What the two readers agree on: no separator anywhere, and no international
prefix, which only `canonicalize` knows. -/
structure SameReading (p : DestinationPolicy) (dialed : List Char) : Prop where
  plain : Plain dialed
  noInternational : ¬ ['0', '0'] <+: dialed
  plainCode : ['0'] <+: dialed → Plain p.defaultCc

theorem normalizeNumber_plus (t : TrunkConfig) (ht : t.numberFormat = .e164) (text : List Char) :
    normalizeNumber t ('+' :: text) = '+' :: text := by
  rw [normalizeNumber, ht]

theorem normalizeNumber_zero {t : TrunkConfig} {cc : List Char} (ht : t.numberFormat = .e164)
    (hcc : t.countryCode = some cc) (text : List Char) :
    normalizeNumber t ('0' :: text) = '+' :: (cc ++ text) := by
  simp only [normalizeNumber, ht, hcc]

theorem normalizeNumber_separator {t : TrunkConfig} {c : Char} (ht : t.numberFormat = .e164)
    (hc : isSeparator c = true) (text : List Char) : normalizeNumber t (c :: text) = c :: text := by
  simp only [normalizeNumber, ht]
  split
  next => rfl
  next h =>
    rw [(List.cons.inj h).1] at hc
    cases hc
  next => rfl

theorem normalizeNumber_zero_eq_iff {p : DestinationPolicy} {t : TrunkConfig} {text : List Char}
    (ht : t.numberFormat = .e164) (hcc : t.countryCode = some p.defaultCc)
    (hdigits : (stripSeparators ('0' :: text)).all isDigit = true) :
    normalizeNumber t ('0' :: text) = stripSeparators (canonicalize p ('0' :: text)) ↔
      Plain text ∧ text.head? ≠ some '0' ∧ Plain p.defaultCc := by
  rw [normalizeNumber_zero ht hcc, canonicalize_zero hdigits]
  constructor
  · intro heq
    -- the right-hand side holds no separator, so neither the text nor the code does
    have hplain : Plain (p.defaultCc ++ text) := by
      refine (plain_cons (c := '+') rfl).mp ?_
      rw [heq, ← canonicalize_zero hdigits]
      exact plain_stripSeparators _
    obtain ⟨hcode, htext⟩ := plain_append.mp hplain
    refine ⟨htext, fun hzero => ?_, hcode⟩
    obtain ⟨rest, rfl⟩ := List.head?_eq_some_iff.mp hzero
    rw [stripSeparators_eq_self.mpr htext] at heq
    have hlen := congrArg List.length heq
    simp only [List.length_cons, List.length_append] at hlen
    omega
  · rintro ⟨htext, hzero, hcode⟩
    rw [stripSeparators_eq_self.mpr htext, stripSeparators_eq_self.mpr hcode]
    split
    next => exact absurd rfl hzero
    next => rfl

theorem sameReading_zero_iff {p : DestinationPolicy} {text : List Char} :
    SameReading p ('0' :: text) ↔ Plain text ∧ text.head? ≠ some '0' ∧ Plain p.defaultCc := by
  have hzero : ['0', '0'] <+: '0' :: text ↔ text.head? = some '0' := by
    rw [List.cons_prefix_cons, List.head?_eq_some_iff]
    exact ⟨fun h => ⟨_, h.2.choose_spec.symm⟩, fun h => ⟨rfl, h.choose, h.choose_spec.symm⟩⟩
  have hone : ['0'] <+: '0' :: text := ⟨text, rfl⟩
  exact ⟨fun h => ⟨(plain_cons rfl).mp h.plain, hzero.not.mp h.noInternational, h.plainCode hone⟩,
    fun h => ⟨(plain_cons rfl).mpr h.1, hzero.not.mpr h.2.1, fun _ => h.2.2⟩⟩

/-- The trunk is given the number that the destination rules decided on exactly
when the dial string is plain, has no international prefix and, if it is in the
national form, is completed with a plain country code. -/
theorem dialed_is_checked_iff (p : DestinationPolicy) (t : TrunkConfig) (dialed : List Char)
    (ht : t.numberFormat = .e164) (hcc : t.countryCode = some p.defaultCc)
    (hdialed : Understood dialed) :
    normalizeNumber t dialed = stripSeparators (canonicalize p dialed) ↔ SameReading p dialed := by
  match dialed with
  | [] =>
      rcases hdialed with h | ⟨h, -⟩
      · cases h
      · cases h
  | c :: text =>
      by_cases hsep : isSeparator c = true
      · have hno : ¬ Plain (c :: text) := fun h => by
          rw [h c List.mem_cons_self] at hsep
          cases hsep
        rw [normalizeNumber_separator ht hsep]
        refine ⟨fun heq => absurd ?_ hno, fun h => absurd h.plain hno⟩
        rw [heq]
        exact plain_stripSeparators _
      · have hstrip : stripSeparators (c :: text) = c :: stripSeparators text :=
          List.filter_cons_of_pos (by simpa using hsep)
        rw [Understood, hstrip] at hdialed
        rcases hdialed with hplus | ⟨hzero, hdigits⟩
        · obtain rfl : c = '+' := Option.some.inj hplus
          have hcanon : canonicalize p ('+' :: text) = stripSeparators ('+' :: text) := by
            rw [canonicalize, hstrip]
            rfl
          rw [normalizeNumber_plus t ht, hcanon,
            stripSeparators_eq_self.mpr (plain_stripSeparators _), eq_comm, stripSeparators_eq_self]
          refine ⟨fun h => ⟨h, ?_, ?_⟩, SameReading.plain⟩
          · rintro ⟨_, h⟩
            cases h
          · rintro ⟨_, h⟩
            cases h
        · obtain rfl : c = '0' := Option.some.inj hzero
          rw [normalizeNumber_zero_eq_iff ht hcc (by rw [hstrip]; exact hdigits),
            sameReading_zero_iff]

def frenchPolicy : DestinationPolicy := ⟨[], false, "33".toList, true, 0⟩

def frenchTrunk : TrunkConfig where
  id := 1
  name := "paris".toList
  enabled := true
  host := "192.0.2.1".toList
  port := 5060
  resolvedAddr := none
  numberFormat := .e164
  countryCode := some "33".toList
  nationalPrefix := none

theorem dialed_is_checked_paris :
    normalizeNumber frenchTrunk "0612345678".toList =
      stripSeparators (canonicalize frenchPolicy "0612345678".toList) := by
  refine (dialed_is_checked_iff frenchPolicy frenchTrunk _ rfl rfl
    (.inr ⟨rfl, by decide⟩)).mpr ⟨?_, by decide, fun _ => ?_⟩
  · exact stripSeparators_eq_self.mp (by decide)
  · exact stripSeparators_eq_self.mp (by decide)

/-- With the international prefix, the rules decide on a British number and the
trunk is given a French one. -/
theorem international_number_misdialed :
    Understood "00441234".toList ∧
    stripSeparators (canonicalize frenchPolicy "00441234".toList) = "+441234".toList ∧
    normalizeNumber frenchTrunk "00441234".toList = "+330441234".toList ∧
    normalizeNumber frenchTrunk "00441234".toList ≠
      stripSeparators (canonicalize frenchPolicy "00441234".toList) :=
  ⟨.inr ⟨rfl, by decide⟩, by decide, by decide, by decide⟩

end NixiSbc.NumberPlan

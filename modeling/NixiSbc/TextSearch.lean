import NixiSbc.TextLines

namespace NixiSbc.TextSearch

open TextScan TextLines

section Find

variable {α : Type} {pattern : List α}

/-- A pattern does not reach past an element that is not in it. -/
theorem prefix_append_cons {x : α} (hx : x ∉ pattern) {text rest : List α} :
    pattern <+: text ++ x :: rest ↔ pattern <+: text := by
  refine ⟨fun h => ?_, fun h => h.trans (List.prefix_append _ _)⟩
  rcases List.prefix_or_prefix_of_prefix h (List.prefix_append text (x :: rest)) with hshort | ⟨more, rfl⟩
  · exact hshort
  · rw [List.prefix_append_right_inj] at h
    cases more with
    | nil => rw [List.append_nil]
    | cons y more =>
        obtain ⟨rfl, -⟩ := List.cons_prefix_cons.mp h
        exact absurd (List.mem_append_right text List.mem_cons_self) hx

variable [DecidableEq α]

/-- The first occurrence is the one before such an element, or else the first after it. -/
theorem findSub_append_cons (hne : pattern ≠ []) {x : α} (hx : x ∉ pattern) (text rest : List α) :
    findSub pattern (text ++ x :: rest) =
      (findSub pattern text <|> (findSub pattern rest).map (· + (text.length + 1))) := by
  induction text with
  | nil =>
      have hhead : ¬ pattern <+: x :: rest := fun h =>
        hne (List.prefix_nil.mp ((prefix_append_cons hx).mp (h : pattern <+: [] ++ x :: rest)))
      rw [List.nil_append, findSub, findSub, if_neg hhead, if_neg hne]
      rfl
  | cons a text ih =>
      have hiff : pattern <+: a :: (text ++ x :: rest) ↔ pattern <+: a :: text :=
        @prefix_append_cons α pattern x hx (a :: text) rest
      rw [List.cons_append, findSub, findSub]
      by_cases hhead : pattern <+: a :: text
      · rw [if_pos hhead, if_pos (hiff.mpr hhead)]
        rfl
      · rw [if_neg hhead, if_neg (hiff.not.mpr hhead), ih]
        cases findSub pattern text with
        | some k => rfl
        | none => cases findSub pattern rest <;> rfl

theorem findSub_front (hne : pattern ≠ []) {front : List α} (h : ∀ x ∈ front, x ∉ pattern) (text : List α) :
    findSub pattern (front ++ text) = (findSub pattern text).map (· + front.length) := by
  induction front with
  | nil => simp
  | cons x front ih =>
      have hx := h x List.mem_cons_self
      have hstep := findSub_append_cons hne hx [] (front ++ text)
      rw [List.nil_append] at hstep
      rw [List.cons_append, hstep, ih fun y hy => h y (List.mem_cons_of_mem x hy), findSub, if_neg hne]
      cases findSub pattern text <;> rfl

theorem findSub_none_of_apart (hne : pattern ≠ []) {text : List α} (h : ∀ x ∈ text, x ∉ pattern) :
    findSub pattern text = none := by
  have hfront := findSub_front hne h []
  rwa [List.append_nil, findSub, if_neg hne] at hfront

theorem findSub_back (hne : pattern ≠ []) (text : List α) {back : List α} (h : ∀ x ∈ back, x ∉ pattern) :
    findSub pattern (text ++ back) = findSub pattern text := by
  cases back with
  | nil => rw [List.append_nil]
  | cons x back =>
      have hback := findSub_none_of_apart hne fun y hy => h y (List.mem_cons_of_mem x hy)
      rw [findSub_append_cons hne (h x List.mem_cons_self), hback]
      cases findSub pattern text <;> rfl

theorem findSub_fits {text : List α} {k : Nat} (h : findSub pattern text = some k) :
    k + pattern.length ≤ text.length := by
  obtain ⟨hle, hat, -⟩ := findSub_eq_some h
  have hlen := hat.length_le
  rw [List.length_drop] at hlen
  omega

/-- A pattern that stands somewhere is found there or before. -/
theorem exists_findSub (pattern front back : List α) :
    ∃ k ≤ front.length, findSub pattern (front ++ (pattern ++ back)) = some k := by
  induction front with
  | nil => exact ⟨0, le_rfl, findSub_of_first (List.prefix_append _ _) (Nat.zero_le _) nofun⟩
  | cons x front ih =>
      obtain ⟨k, hk, hfound⟩ := ih
      rw [List.cons_append, findSub, hfound]
      split
      next => exact ⟨0, Nat.zero_le _, rfl⟩
      next => exact ⟨k + 1, Nat.succ_le_succ hk, rfl⟩

/-- Nothing after the first occurrence matters to it. -/
theorem findSub_take_append {text : List α} {k : Nat} (h : findSub pattern text = some k) (rest : List α) :
    findSub pattern (text.take (k + pattern.length) ++ rest) = some k := by
  obtain ⟨-, hat, hbefore⟩ := findSub_eq_some h
  have hlen : (text.take (k + pattern.length)).length = k + pattern.length :=
    List.length_take_of_le (findSub_fits h)
  apply findSub_of_first
  · rw [List.drop_append_of_le_length (by omega), List.drop_take, Nat.add_sub_cancel_left, ← List.prefix_iff_eq_take.mp hat]
    exact List.prefix_append _ _
  · rw [List.length_append]
    omega
  · intro j hj hfront
    rw [List.drop_append_of_le_length (by omega)] at hfront
    have hin := List.prefix_of_prefix_length_le hfront (List.prefix_append _ rest)
      (by rw [List.length_drop, hlen]; omega)
    exact hbefore j hj (hin.trans ((List.take_prefix _ text).drop j))

end Find

theorem not_mem_takeWhile_ne (c : Char) (text : List Char) : c ∉ text.takeWhile (· ≠ c) := by
  intro hmem
  have hno := List.mem_takeWhile_imp hmem
  rw [decide_eq_true_iff] at hno
  exact hno rfl

/-- A text is what it is trimmed to, between blanks. -/
theorem trim_parts (text : List Char) :
    ∃ front back, (∀ c ∈ front, isWhiteSpace c = true) ∧ (∀ c ∈ back, isWhiteSpace c = true) ∧
      text = front ++ (trim text ++ back) := by
  have hback : trimStart text =
      trim text ++ ((trimStart text).reverse.takeWhile isWhiteSpace).reverse := by
    rw [trim, trimEnd, ← List.reverse_append, List.takeWhile_append_dropWhile, List.reverse_reverse]
  refine ⟨text.takeWhile isWhiteSpace, ((trimStart text).reverse.takeWhile isWhiteSpace).reverse, ?_, ?_, ?_⟩
  · exact fun c hc => List.mem_takeWhile_imp hc
  · exact fun c hc => List.mem_takeWhile_imp (List.mem_reverse.mp hc)
  · rw [← hback]
    exact List.takeWhile_append_dropWhile.symm

end NixiSbc.TextSearch

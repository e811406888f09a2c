import Mathlib.Data.List.Basic
import Mathlib.Order.Lattice

namespace NixiSbc.Selection

section Extremes

variable {α κ : Type} [LinearOrder κ]

/-- The element of greatest key; of several, the last. -/
def maxByKey (key : α → κ) : List α → Option α
  | [] => none
  | a :: as =>
      match maxByKey key as with
      | none => some a
      | some b => if key b < key a then some a else some b

theorem maxByKey_eq_none {key : α → κ} {as : List α} : maxByKey key as = none ↔ as = [] := by
  cases as with
  | nil => simp [maxByKey]
  | cons a as =>
      rw [maxByKey]
      cases maxByKey key as with
      | none => simp
      | some b =>
          simp only [reduceCtorEq, iff_false]
          split <;> simp

theorem maxByKey_spec {key : α → κ} {as : List α} {b : α} (h : maxByKey key as = some b) :
    b ∈ as ∧ ∀ a ∈ as, key a ≤ key b := by
  induction as generalizing b with
  | nil => cases h
  | cons a as ih =>
      rw [maxByKey] at h
      cases hm : maxByKey key as with
      | none =>
          rw [hm] at h
          cases h
          obtain rfl := maxByKey_eq_none.mp hm
          simp
      | some c =>
          obtain ⟨hmem, hmax⟩ := ih hm
          rw [hm] at h
          dsimp only at h
          split at h
          next hlt =>
            cases h
            refine ⟨List.mem_cons_self, fun x hx => ?_⟩
            rcases List.mem_cons.mp hx with rfl | hx
            · exact le_refl _
            · exact le_trans (hmax x hx) (le_of_lt hlt)
          next hge =>
            cases h
            refine ⟨List.mem_cons_of_mem a hmem, fun x hx => ?_⟩
            rcases List.mem_cons.mp hx with rfl | hx
            · exact not_lt.mp hge
            · exact hmax x hx

/-- The element of least key; of several, the first. -/
def minByKey (key : α → κ) : List α → Option α
  | [] => none
  | a :: as =>
      match minByKey key as with
      | none => some a
      | some b => if key b < key a then some b else some a

theorem minByKey_eq_none {key : α → κ} {as : List α} : minByKey key as = none ↔ as = [] := by
  cases as with
  | nil => simp [minByKey]
  | cons a as =>
      rw [minByKey]
      cases minByKey key as with
      | none => simp
      | some b =>
          simp only [reduceCtorEq, iff_false]
          split <;> simp

theorem minByKey_spec {key : α → κ} {as : List α} {b : α} (h : minByKey key as = some b) :
    b ∈ as ∧ ∀ a ∈ as, key b ≤ key a := by
  induction as generalizing b with
  | nil => cases h
  | cons a as ih =>
      rw [minByKey] at h
      cases hm : minByKey key as with
      | none =>
          rw [hm] at h
          cases h
          obtain rfl := minByKey_eq_none.mp hm
          simp
      | some c =>
          obtain ⟨hmem, hmin⟩ := ih hm
          rw [hm] at h
          dsimp only at h
          split at h
          next hlt =>
            cases h
            refine ⟨List.mem_cons_of_mem a hmem, fun x hx => ?_⟩
            rcases List.mem_cons.mp hx with rfl | hx
            · exact le_of_lt hlt
            · exact hmin x hx
          next hge =>
            cases h
            refine ⟨List.mem_cons_self, fun x hx => ?_⟩
            rcases List.mem_cons.mp hx with rfl | hx
            · exact le_refl _
            · exact le_trans (not_lt.mp hge) (hmin x hx)

end Extremes

section StableSort

variable {α : Type} {le : α → α → Bool}

/-- A list is cut in one place only between what has a property and what has not. -/
theorem append_left_inj_of_cut {q : α → Bool} {xs ys xs' ys' : List α} (h : xs ++ ys = xs' ++ ys')
    (hxs : ∀ x ∈ xs, q x = true) (hys : ∀ y ∈ ys, q y = false) (hxs' : ∀ x ∈ xs', q x = true)
    (hys' : ∀ y ∈ ys', q y = false) : xs = xs' ∧ ys = ys' := by
  have hcut {front rest : List α} (hfront : ∀ x ∈ front, q x = true) (hrest : ∀ y ∈ rest, q y = false) :
      (front ++ rest).takeWhile q = front := by
    rw [List.takeWhile_append_of_pos hfront]
    cases rest with
    | nil => simp
    | cons y rest => simp [hrest y List.mem_cons_self]
  have hfront : xs = xs' := by rw [← hcut hxs hys, h, hcut hxs' hys']
  subst hfront
  exact ⟨rfl, List.append_cancel_left h⟩

/-- Sorting and picking out may change places. -/
theorem filter_mergeSort (htrans : ∀ a b c, le a b → le b c → le a c) (htotal : ∀ a b, le a b || le b a)
    (p : α → Bool) (l : List α) : (l.filter p).mergeSort le = (l.mergeSort le).filter p := by
  induction l with
  | nil => simp
  | cons a l ih =>
      obtain ⟨front, rest, hsorted, hl, hfront⟩ := List.mergeSort_cons htrans htotal a l
      have hpairwise := List.pairwise_mergeSort htrans htotal (a :: l)
      rw [hsorted, List.pairwise_append, List.pairwise_cons] at hpairwise
      by_cases hp : p a = true
      · obtain ⟨front', rest', hsorted', hl', hfront'⟩ := List.mergeSort_cons htrans htotal a (l.filter p)
        have hpairwise' := List.pairwise_mergeSort htrans htotal (a :: l.filter p)
        rw [hsorted', List.pairwise_append, List.pairwise_cons] at hpairwise'
        have hsplit : front' ++ rest' = front.filter p ++ rest.filter p := by
          rw [← hl', ih, hl, List.filter_append]
        obtain ⟨rfl, rfl⟩ := append_left_inj_of_cut (q := fun b => !le a b) hsplit hfront'
          (fun b hb => by simpa using hpairwise'.2.1.1 b hb) (fun b hb => hfront b (List.mem_of_mem_filter hb))
          (fun b hb => by simpa using hpairwise.2.1.1 b (List.mem_of_mem_filter hb))
        rw [List.filter_cons_of_pos hp, hsorted', hsorted, List.filter_append, List.filter_cons_of_pos hp]
      · rw [List.filter_cons_of_neg hp, ih, hl, hsorted, List.filter_append, List.filter_append, List.filter_cons_of_neg hp]

end StableSort

end NixiSbc.Selection

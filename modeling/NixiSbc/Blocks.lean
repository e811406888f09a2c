import Mathlib.Algebra.Order.Ring.Nat
import Mathlib.Data.List.Basic

namespace NixiSbc.Blocks

variable {len : Nat → Nat}

/-- Where a block begins when the blocks lie one after the other. -/
def start (len : Nat → Nat) : Nat → Nat
  | 0 => 0
  | k + 1 => start len k + len k

/-- Counting off block after block: the block that a position lies in, and the offset in it. -/
def locate (len : Nat → Nat) : Nat → Nat → Nat → Nat × Nat
  | 0, k, n => (k, n)
  | fuel + 1, k, n => if n < len k then (k, n) else locate len fuel (k + 1) (n - len k)

theorem start_succ (len : Nat → Nat) (k : Nat) : start len (k + 1) = start len k + len k := rfl

theorem locate_succ (len : Nat → Nat) (fuel k n : Nat) :
    locate len (fuel + 1) k n = if n < len k then (k, n) else locate len fuel (k + 1) (n - len k) := rfl

theorem start_mono (len : Nat → Nat) : Monotone (start len) :=
  monotone_nat_of_le_succ fun k => Nat.le_add_right (start len k) (len k)

/-- A place in a block lies before the blocks behind it. -/
theorem start_add_lt {i j o : Nat} (ho : o < len i) (hij : i < j) : start len i + o < start len j :=
  Nat.lt_of_lt_of_le (Nat.add_lt_add_left ho _) (start_mono len hij)

theorem start_add_lt_iff {i j o p : Nat} (ho : o < len i) (hp : p < len j) :
    start len i + o < start len j + p ↔ i < j ∨ i = j ∧ o < p := by
  rcases Nat.lt_trichotomy i j with hij | rfl | hji
  · have h := start_add_lt ho hij
    exact iff_of_true (Nat.lt_of_lt_of_le h (Nat.le_add_right _ _)) (.inl hij)
  · simp
  · have h := start_add_lt hp hji
    refine iff_of_false (Nat.not_lt.mpr (Nat.le_of_lt (Nat.lt_of_lt_of_le h (Nat.le_add_right _ _)))) ?_
    rintro (hij | ⟨rfl, -⟩)
    · exact Nat.lt_asymm hij hji
    · exact Nat.lt_irrefl _ hji

/-- Counting off keeps the position. -/
theorem start_add_locate (len : Nat → Nat) (fuel k n : Nat) :
    start len (locate len fuel k n).1 + (locate len fuel k n).2 = start len k + n := by
  induction fuel generalizing k n with
  | zero => rfl
  | succ fuel ih =>
      rw [locate_succ]
      split
      next => rfl
      next hle =>
        rw [ih, start_succ]
        omega

/-- A position in the blocks that are counted off is found. -/
theorem locate_lt {fuel k n : Nat} (h : start len k + n < start len (k + fuel)) :
    (locate len fuel k n).2 < len (locate len fuel k n).1 := by
  induction fuel generalizing k n with
  | zero =>
      rw [Nat.add_zero] at h
      omega
  | succ fuel ih =>
      rw [locate_succ]
      split
      next hlt => exact hlt
      next hle =>
        apply ih
        rw [start_succ, Nat.add_assoc k 1 fuel, Nat.add_comm 1 fuel]
        omega

theorem le_locate (fuel k n : Nat) : k ≤ (locate len fuel k n).1 := by
  induction fuel generalizing k n with
  | zero => exact Nat.le_refl k
  | succ fuel ih =>
      rw [locate_succ]
      split
      next => exact Nat.le_refl k
      next => exact Nat.le_of_succ_le (ih (k + 1) (n - len k))

theorem locate_index_lt {fuel k n bound : Nat} (h : start len k + n < start len bound) :
    (locate len fuel k n).1 < bound := by
  by_contra hle
  have hmono := start_mono len (Nat.not_lt.mp hle)
  have hkept := start_add_locate len fuel k n
  omega

/-- Blocks that are not empty. -/
theorem start_add_le (hpos : ∀ k, 0 < len k) (k n : Nat) : start len k + n ≤ start len (k + n) := by
  induction n with
  | zero => exact Nat.le_refl _
  | succ n ih =>
      have h : start len (k + (n + 1)) = start len (k + n) + len (k + n) := rfl
      have hlen := hpos (k + n)
      omega

theorem sum_take_eq_start (l : List Nat) (k : Nat) : (l.take k).sum = start (fun i => l.getD i 0) k := by
  induction k with
  | zero => rfl
  | succ k ih =>
      rw [List.take_add_one, List.sum_append, ih, start_succ, List.getD_eq_getElem?_getD]
      cases l[k]? with
      | none => rfl
      | some n => simp

theorem start_add_sum_range' (len : Nat → Nat) (k n : Nat) :
    start len k + ((List.range' k n).map len).sum = start len (k + n) := by
  induction n with
  | zero => rfl
  | succ n ih =>
      rw [List.range'_1_concat, List.map_append, List.sum_append, ← Nat.add_assoc, ih, ← Nat.add_assoc k n 1,
        start_succ]
      simp

end NixiSbc.Blocks
